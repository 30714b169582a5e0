import Mathlib.Tactic.Linarith
import MikoV2.Backtest.DataQuality
import MikoV2.Backtest.Entered
import MikoV2.Backtest.Isolation

/-!
# `WalkForwardRunner`

The range is cut into folds; each fold is a run of its own from the start of its training window to the end of its
test window, and reports the trades entered in the test window.

* `generateFolds`, `runFold`, `run` : the methods;
* `foldWindow`, `generateFolds_spec` : the windows in closed form; `generateFolds_returns` : with a positive step the
  loop ends;
* `foldKeys`, `mem_foldKeys` : what a fold reports; `run_keys` : the result combines the folds;
* `CountedOnce` : no entry is reported twice; `countedOnce_iff` : this holds when neighbouring folds that share a
  boundary do not enter at it alike.
-/

namespace MikoV2.Backtest
open PositionSim (PositionSimulator PositionSimConfig Trade Position)
open PaperMath (Direction)
open Py (Dict)

structure WalkForwardConfig where
  trainMs : ℤ
  testMs : ℤ
  stepMs : Option ℤ := none
  minFolds : ℤ := 1
  failFast : Bool := true

def WalkForwardConfig.effectiveStepMs (cfg : WalkForwardConfig) : ℤ :=
  match cfg.stepMs with
  | none => cfg.testMs
  | some stepMs => if stepMs ≤ 0 then cfg.testMs else stepMs

structure FoldWindow where
  foldId : ℕ
  trainStartMs : ℤ
  trainEndMs : ℤ
  testStartMs : ℤ
  testEndMs : ℤ
deriving DecidableEq

structure FoldResult where
  window : FoldWindow
  trades : List Trade
  droppedEntries : List DroppedEntry
  stats : BacktestStats
  signalCounts : Dict String (SignalKind → ℕ)
  dataQuality : Dict String DataQualityReport

structure WalkForwardResult where
  folds : List FoldResult
  combinedTrades : List Trade
  combinedDropped : List DroppedEntry
  foldCount : ℕ
  singleFoldWarning : Bool

/-- What `run` ends with instead of a result. -/
inductive WalkForwardError
  /-- not an exception: the fold loop does not end -/
  | endless
  | tooFewFolds (folds : ℕ)
  /-- `ZeroDivisionError` of a detector -/
  | foldRaised (foldId : ℕ)
  | failFast (foldId callbackErrors : ℕ)
deriving DecidableEq, Repr

namespace WalkForward

variable (wcfg : WalkForwardConfig) (cfg : PositionSimConfig) (scfg : StrategyConfig) (dcfg : DetectorConfig)

/-! ## Folds -/

def windowAt (foldId : ℕ) (t0 : ℤ) : FoldWindow where
  foldId := foldId
  trainStartMs := t0
  trainEndMs := t0 + wcfg.trainMs
  testStartMs := t0 + wcfg.trainMs
  testEndMs := t0 + wcfg.trainMs + wcfg.testMs

/-- The loop of `_generate_folds`, for at most `fuel` rounds; `none` when they are not enough. -/
def foldLoop (tsTo : ℤ) : ℕ → ℕ → ℤ → Option (List FoldWindow)
  | 0, _, _ => none
  | fuel + 1, foldId, t0 =>
    if (windowAt wcfg foldId t0).testEndMs > tsTo then some []
    else (foldLoop tsTo fuel (foldId + 1) (t0 + wcfg.effectiveStepMs)).map (windowAt wcfg foldId t0 :: ·)

/-- `_generate_folds`. A loop that ends moves at least a millisecond a round, so these rounds are enough; `none` when
it does not end. -/
def generateFolds (tsFrom tsTo : ℤ) : Option (List FoldWindow) :=
  foldLoop wcfg tsTo ((tsTo - (windowAt wcfg 0 tsFrom).testEndMs + 1).toNat + 1) 0 tsFrom

/-! ## Runs -/

/-- The report on the seconds of a symbol's bars in the test window. -/
def testQuality (window : FoldWindow) (seen : Dict String (List ℤ)) : Dict String DataQualityReport where
  items := seen.items.map fun e =>
    (e.1, analyzeOhlcvSecs e.1 (e.2.filter fun s => window.testStartMs ≤ s * 1000 ∧ s * 1000 ≤ window.testEndMs))
  nodup := by
    rw [List.map_map]
    exact seen.nodup

/-- The stream of a fold. -/
def foldStream (db : EventDb) (symbols : List String) (window : FoldWindow) : List AnyEvent :=
  streamMulti db symbols window.trainStartMs window.testEndMs

/-- `_run_fold`; `none` when the run raises. -/
def runFold (db : EventDb) (symbols : List String) (window : FoldWindow) : Option FoldResult :=
  (Runs.runM (MultiSymbolRunner.onEvent cfg scfg dcfg) (MultiSymbolRunner.init cfg 0 window.foldId)
    (foldStream db symbols window)).map fun r =>
      let raw := MultiSymbolRunner.close cfg dcfg window.testEndMs
        ((foldStream db symbols window).foldl MultiSymbolRunner.countEvent {}) r
      { window
        trades := raw.trades.filter fun t => t.entryTsMs ≥ window.testStartMs
        droppedEntries := raw.droppedEntries.filter fun d => d.tsMs ≥ window.testStartMs
        stats := raw.stats
        signalCounts := raw.signalCounts
        dataQuality := testQuality window r.seenOhlcvSecs }

/-- The folds one after the other, until one raises or fails fast. -/
def runFolds (db : EventDb) (symbols : List String) : List FoldWindow → Except WalkForwardError (List FoldResult)
  | [] => .ok []
  | window :: windows =>
    match runFold cfg scfg dcfg db symbols window with
    | none => .error (.foldRaised window.foldId)
    | some fr =>
      if wcfg.failFast ∧ fr.stats.callbackErrors > 0 then .error (.failFast window.foldId fr.stats.callbackErrors)
      else (runFolds db symbols windows).map (fr :: ·)

/-- `run(symbols, ts_from, ts_to)`. -/
def run (db : EventDb) (symbols : List String) (tsFrom tsTo : ℤ) : Except WalkForwardError WalkForwardResult :=
  match generateFolds wcfg tsFrom tsTo with
  | none => .error .endless
  | some windows =>
    if (windows.length : ℤ) < wcfg.minFolds then .error (.tooFewFolds windows.length)
    else (runFolds wcfg cfg scfg dcfg db symbols windows).map fun folds =>
      { folds
        combinedTrades := folds.flatMap FoldResult.trades
        combinedDropped := folds.flatMap FoldResult.droppedEntries
        foldCount := windows.length
        singleFoldWarning := windows.length = 1 }

/-! ## The windows -/

/-- The window number `i`. -/
def foldWindow (tsFrom : ℤ) (i : ℕ) : FoldWindow := windowAt wcfg i (tsFrom + i * wcfg.effectiveStepMs)

section Windows
variable {wcfg} {tsFrom tsTo : ℤ} {windows : List FoldWindow}

/-- The loop yields the windows that end in the range, up to the first that does not. -/
theorem foldLoop_spec (tsTo : ℤ) : ∀ (fuel foldId : ℕ) (t0 : ℤ) (windows : List FoldWindow),
    foldLoop wcfg tsTo fuel foldId t0 = some windows →
      windows = (List.range windows.length).map (fun i => windowAt wcfg (foldId + i) (t0 + i * wcfg.effectiveStepMs)) ∧
      (∀ i < windows.length, (windowAt wcfg 0 (t0 + i * wcfg.effectiveStepMs)).testEndMs ≤ tsTo) ∧
      tsTo < (windowAt wcfg 0 (t0 + windows.length * wcfg.effectiveStepMs)).testEndMs := by
  intro fuel
  induction fuel with
  | zero =>
    intro foldId t0 windows h
    cases h
  | succ fuel ih =>
    intro foldId t0 windows h
    unfold foldLoop at h
    split at h
    · rename_i hend
      cases h
      refine ⟨rfl, fun i hi => absurd hi (Nat.not_lt_zero i), ?_⟩
      simpa [windowAt] using hend
    · rename_i hend
      obtain ⟨rest, hrest, rfl⟩ := Option.map_eq_some_iff.mp h
      obtain ⟨hwindows, hinside, hlast⟩ := ih _ _ _ hrest
      have hshift : ∀ i : ℕ, t0 + wcfg.effectiveStepMs + i * wcfg.effectiveStepMs =
          t0 + (i + 1 : ℕ) * wcfg.effectiveStepMs := by
        intro i
        push_cast
        ring
      rw [List.length_cons]
      refine ⟨?_, fun i hi => ?_, ?_⟩
      · rw [List.range_succ_eq_map, List.map_cons, List.map_map]
        congr 1
        · simp
        · conv_lhs => rw [hwindows]
          refine List.map_congr_left fun i _ => ?_
          rw [hshift, Nat.add_assoc, Nat.add_comm 1 i]
          rfl
      · cases i with
        | zero => simpa [windowAt] using not_lt.mp hend
        | succ i =>
          rw [← hshift]
          exact hinside i (Nat.lt_of_succ_lt_succ hi)
      · rw [← hshift]
        exact hlast

/-- With a positive step the loop ends. -/
theorem foldLoop_returns (hstep : 0 < wcfg.effectiveStepMs) (tsTo : ℤ) : ∀ (fuel foldId : ℕ) (t0 : ℤ),
    tsTo - (windowAt wcfg foldId t0).testEndMs < fuel →
      ∃ windows, foldLoop wcfg tsTo (fuel + 1) foldId t0 = some windows := by
  intro fuel
  induction fuel with
  | zero =>
    intro foldId t0 hfuel
    have hend : (windowAt wcfg foldId t0).testEndMs > tsTo := by omega
    refine ⟨[], ?_⟩
    unfold foldLoop
    rw [if_pos hend]
  | succ fuel ih =>
    intro foldId t0 hfuel
    unfold foldLoop
    split
    · exact ⟨[], rfl⟩
    · have hnext : (windowAt wcfg (foldId + 1) (t0 + wcfg.effectiveStepMs)).testEndMs =
          (windowAt wcfg foldId t0).testEndMs + wcfg.effectiveStepMs := by
        show t0 + wcfg.effectiveStepMs + wcfg.trainMs + wcfg.testMs = t0 + wcfg.trainMs + wcfg.testMs + _
        ring
      obtain ⟨rest, hrest⟩ := ih (foldId + 1) (t0 + wcfg.effectiveStepMs) (by rw [hnext]; push_cast at hfuel; omega)
      exact ⟨_, Option.map_eq_some_iff.mpr ⟨rest, hrest, rfl⟩⟩

theorem generateFolds_returns (hstep : 0 < wcfg.effectiveStepMs) (tsFrom tsTo : ℤ) :
    ∃ windows, generateFolds wcfg tsFrom tsTo = some windows :=
  foldLoop_returns hstep tsTo _ _ _ (by omega)

/-- **The windows** in closed form. -/
theorem generateFolds_spec (hstep : 0 < wcfg.effectiveStepMs) (h : generateFolds wcfg tsFrom tsTo = some windows) :
    windows = (List.range windows.length).map (foldWindow wcfg tsFrom) ∧
      ∀ i, i < windows.length ↔ (foldWindow wcfg tsFrom i).testEndMs ≤ tsTo := by
  obtain ⟨hwindows, hinside, hlast⟩ := foldLoop_spec tsTo _ _ _ _ h
  refine ⟨?_, fun i => ⟨hinside i, fun hle => ?_⟩⟩
  · conv_lhs => rw [hwindows]
    refine List.map_congr_left fun i _ => ?_
    rw [Nat.zero_add]
    rfl
  · by_contra hge
    have hmono : (windows.length : ℤ) * wcfg.effectiveStepMs ≤ i * wcfg.effectiveStepMs := by
      apply mul_le_mul_of_nonneg_right _ hstep.le
      exact_mod_cast not_lt.mp hge
    have hend : (foldWindow wcfg tsFrom i).testEndMs = tsFrom + i * wcfg.effectiveStepMs + wcfg.trainMs + wcfg.testMs := rfl
    have hlast : tsTo < tsFrom + windows.length * wcfg.effectiveStepMs + wcfg.trainMs + wcfg.testMs := hlast
    omega

end Windows

/-! ## What the folds report -/

/-- The entries that a fold reports. -/
def foldKeys (db : EventDb) (symbols : List String) (window : FoldWindow) : List EntryKey :=
  ((runFold cfg scfg dcfg db symbols window).elim [] FoldResult.trades).map Trade.key

/-- An entry of a fold's run. -/
def EnteredIn (db : EventDb) (symbols : List String) (window : FoldWindow) (key : EntryKey) : Prop :=
  MultiSymbolRunner.Entered cfg scfg dcfg 0 window.foldId (foldStream db symbols window) key

section Folds
variable {wcfg cfg scfg dcfg} {db : EventDb} {symbols : List String} {window : FoldWindow} {fr : FoldResult}

/-- A fold reports the entries of its run that lie in its test window, each once. -/
theorem mem_foldKeys (h : runFold cfg scfg dcfg db symbols window = some fr) :
    (∀ key, key ∈ foldKeys cfg scfg dcfg db symbols window ↔
        EnteredIn cfg scfg dcfg db symbols window key ∧ window.testStartMs ≤ key.2.2) ∧
      (∀ key ∈ foldKeys cfg scfg dcfg db symbols window, key.2.2 ≤ window.testEndMs) ∧
      (foldKeys cfg scfg dcfg db symbols window).Nodup := by
  have hkeys : foldKeys cfg scfg dcfg db symbols window = fr.trades.map Trade.key := by
    unfold foldKeys
    rw [h]
    rfl
  rw [hkeys]
  unfold runFold at h
  obtain ⟨r, hr, rfl⟩ := Option.map_eq_some_iff.mp h
  have hreplay := streamMulti_replay db symbols window.trainStartMs window.testEndMs
  obtain ⟨hentered, hnodup, hinside⟩ := MultiSymbolRunner.close_entered hreplay hr window.testEndMs
    ((foldStream db symbols window).foldl MultiSymbolRunner.countEvent {})
  have hmem : ∀ key ts, key ∈ ((MultiSymbolRunner.close cfg dcfg window.testEndMs
        ((foldStream db symbols window).foldl MultiSymbolRunner.countEvent {}) r).trades.filter
          fun t => t.entryTsMs ≥ ts).map Trade.key ↔
      key ∈ (MultiSymbolRunner.close cfg dcfg window.testEndMs
        ((foldStream db symbols window).foldl MultiSymbolRunner.countEvent {}) r).trades.map Trade.key ∧ ts ≤ key.2.2 := by
    intro key ts
    simp only [List.mem_map, List.mem_filter, decide_eq_true_eq]
    constructor
    · rintro ⟨t, ⟨ht, hts⟩, rfl⟩
      exact ⟨⟨t, ht, rfl⟩, hts⟩
    · rintro ⟨⟨t, ht, rfl⟩, hts⟩
      exact ⟨t, ⟨ht, hts⟩, rfl⟩
  refine ⟨fun key => (hmem key _).trans (and_congr_left fun _ => hentered key), fun key hkey => ?_, ?_⟩
  · exact (hinside key ((hmem key _).mp hkey).1).2
  · exact hnodup.sublist (List.filter_sublist.map Trade.key)

/-- A run of the folds that returns ran each of them. -/
theorem runFolds_spec : ∀ {windows : List FoldWindow} {folds : List FoldResult},
    runFolds wcfg cfg scfg dcfg db symbols windows = .ok folds →
      (∀ window ∈ windows, ∃ fr, runFold cfg scfg dcfg db symbols window = some fr) ∧
        (folds.flatMap FoldResult.trades).map Trade.key = windows.flatMap (foldKeys cfg scfg dcfg db symbols)
  | [], folds, h => by
    cases h
    exact ⟨fun window hw => absurd hw List.not_mem_nil, rfl⟩
  | window :: windows, folds, h => by
    unfold runFolds at h
    split at h
    · cases h
    · rename_i fr hfr
      split at h
      · cases h
      · cases hrest : runFolds wcfg cfg scfg dcfg db symbols windows with
        | error e =>
          rw [hrest] at h
          cases h
        | ok rest =>
          rw [hrest] at h
          cases h
          obtain ⟨hran, hkeys⟩ := runFolds_spec hrest
          refine ⟨fun w hw => ?_, ?_⟩
          · rcases List.mem_cons.mp hw with rfl | hw
            · exact ⟨fr, hfr⟩
            · exact hran w hw
          · rw [List.flatMap_cons, List.map_append, hkeys, List.flatMap_cons]
            unfold foldKeys
            rw [hfr]
            rfl

/-- The result combines the reports of the folds. -/
theorem run_keys {tsFrom tsTo : ℤ} {result : WalkForwardResult}
    (h : run wcfg cfg scfg dcfg db symbols tsFrom tsTo = .ok result) :
    ∃ windows, generateFolds wcfg tsFrom tsTo = some windows ∧
      (∀ window ∈ windows, ∃ fr, runFold cfg scfg dcfg db symbols window = some fr) ∧
      result.combinedTrades.map Trade.key = windows.flatMap (foldKeys cfg scfg dcfg db symbols) := by
  unfold run at h
  split at h
  · cases h
  · rename_i windows hwindows
    split at h
    · cases h
    · cases hfolds : runFolds wcfg cfg scfg dcfg db symbols windows with
      | error e =>
        rw [hfolds] at h
        cases h
      | ok folds =>
        rw [hfolds] at h
        cases h
        obtain ⟨hran, hkeys⟩ := runFolds_spec hfolds
        exact ⟨windows, hwindows, hran, hkeys⟩

end Folds

/-! ## Each trade once -/

/-- No two trades of the result have the same symbol, direction and entry time. -/
def CountedOnce (result : WalkForwardResult) : Prop := (result.combinedTrades.map Trade.key).Nodup

/-- Both folds enter in one symbol and direction at the end of the first. -/
def SharedEntry (db : EventDb) (symbols : List String) (window window' : FoldWindow) : Prop :=
  ∃ symbol direction, EnteredIn cfg scfg dcfg db symbols window (symbol, direction, window.testEndMs) ∧
    EnteredIn cfg scfg dcfg db symbols window' (symbol, direction, window.testEndMs)

variable {wcfg} in
/-- A time in the test windows of two folds is where they touch, and they are neighbours. -/
theorem foldWindow_common (htest : 0 < wcfg.testMs) (hstep : wcfg.testMs ≤ wcfg.effectiveStepMs) {tsFrom ts : ℤ}
    {i j : ℕ} (hij : i < j) (hle : ts ≤ (foldWindow wcfg tsFrom i).testEndMs)
    (hge : (foldWindow wcfg tsFrom j).testStartMs ≤ ts) :
    j = i + 1 ∧ wcfg.effectiveStepMs = wcfg.testMs ∧ ts = (foldWindow wcfg tsFrom i).testEndMs := by
  have hend : (foldWindow wcfg tsFrom i).testEndMs =
      tsFrom + i * wcfg.effectiveStepMs + wcfg.trainMs + wcfg.testMs := rfl
  have hstart : (foldWindow wcfg tsFrom j).testStartMs = tsFrom + j * wcfg.effectiveStepMs + wcfg.trainMs := rfl
  rw [hend] at hle ⊢
  rw [hstart] at hge
  obtain ⟨d, rfl⟩ := Nat.exists_eq_add_of_lt hij
  push_cast at hge
  -- the later window starts `d + 1` steps after the earlier one
  have hd : d = 0 := by
    by_contra hd
    have hone : (1 : ℤ) ≤ d := by omega
    nlinarith
  subst hd
  push_cast at hge
  refine ⟨by omega, ?_, ?_⟩
  · linarith
  · linarith

variable {wcfg cfg scfg dcfg} in
/-- Folds that all returned report each trade once when no two of them report the same one. -/
theorem nodup_foldKeys_iff {db : EventDb} {symbols : List String} {tsFrom : ℤ} {n : ℕ}
    (hfold : ∀ i < n, ∃ fr, runFold cfg scfg dcfg db symbols (foldWindow wcfg tsFrom i) = some fr) :
    (((List.range n).map (foldWindow wcfg tsFrom)).flatMap (foldKeys cfg scfg dcfg db symbols)).Nodup ↔
      ∀ i j, i < j → j < n → (foldKeys cfg scfg dcfg db symbols (foldWindow wcfg tsFrom i)).Disjoint
        (foldKeys cfg scfg dcfg db symbols (foldWindow wcfg tsFrom j)) := by
  rw [List.flatMap_map, List.nodup_flatMap, List.pairwise_iff_getElem]
  simp only [List.getElem_range, List.length_range, List.mem_range]
  constructor
  · exact fun hd i j hij hj => hd.2 i j (hij.trans hj) hj hij
  · refine fun hd => ⟨fun i hi => ?_, fun i j _ hj hij => hd i j hij hj⟩
    obtain ⟨fr, hfr⟩ := hfold i hi
    exact (mem_foldKeys hfr).2.2

variable {wcfg cfg scfg dcfg} in
/-- **Each trade once**, exactly when the folds do not touch, or no two neighbours enter alike at the time that
both of their test windows contain. -/
theorem countedOnce_iff (htest : 0 < wcfg.testMs) (hstep : wcfg.testMs ≤ wcfg.effectiveStepMs) {db : EventDb}
    {symbols : List String} {tsFrom tsTo : ℤ} {result : WalkForwardResult}
    (h : run wcfg cfg scfg dcfg db symbols tsFrom tsTo = .ok result) :
    CountedOnce result ↔ (wcfg.effectiveStepMs = wcfg.testMs → ∀ i : ℕ,
      (foldWindow wcfg tsFrom (i + 1)).testEndMs ≤ tsTo →
        ¬ SharedEntry cfg scfg dcfg db symbols (foldWindow wcfg tsFrom i) (foldWindow wcfg tsFrom (i + 1))) := by
  obtain ⟨windows, hwindows, hran, hkeys⟩ := run_keys h
  have hpos : 0 < wcfg.effectiveStepMs := lt_of_lt_of_le htest hstep
  obtain ⟨hclosed, hlength⟩ := generateFolds_spec hpos hwindows
  have hfold : ∀ i < windows.length, ∃ fr, runFold cfg scfg dcfg db symbols (foldWindow wcfg tsFrom i) = some fr := by
    intro i hi
    refine hran _ ?_
    rw [hclosed]
    exact List.mem_map_of_mem (List.mem_range.mpr hi)
  unfold CountedOnce
  rw [hkeys, hclosed, nodup_foldKeys_iff hfold]
  constructor
  · rintro hd heq i hi ⟨symbol, direction, hentered, hentered'⟩
    have hlt := (hlength (i + 1)).mpr hi
    obtain ⟨fr, hfr⟩ := hfold i (Nat.lt_of_succ_lt hlt)
    obtain ⟨fr', hfr'⟩ := hfold (i + 1) hlt
    refine hd i (i + 1) (Nat.lt_succ_self i) hlt (((mem_foldKeys hfr).1 _).mpr ⟨hentered, ?_⟩)
      (((mem_foldKeys hfr').1 _).mpr ⟨hentered', ?_⟩)
    · show tsFrom + i * wcfg.effectiveStepMs + wcfg.trainMs ≤
        tsFrom + i * wcfg.effectiveStepMs + wcfg.trainMs + wcfg.testMs
      omega
    · show tsFrom + (i + 1 : ℕ) * wcfg.effectiveStepMs + wcfg.trainMs ≤
        tsFrom + i * wcfg.effectiveStepMs + wcfg.trainMs + wcfg.testMs
      push_cast
      linarith
  · intro hshared i j hij hj key hkey hkey'
    obtain ⟨fr, hfr⟩ := hfold i (hij.trans hj)
    obtain ⟨fr', hfr'⟩ := hfold j hj
    obtain ⟨hentered, -⟩ := ((mem_foldKeys hfr).1 key).mp hkey
    obtain ⟨hentered', hge⟩ := ((mem_foldKeys hfr').1 key).mp hkey'
    obtain ⟨rfl, heq, hts⟩ := foldWindow_common htest hstep hij ((mem_foldKeys hfr).2.1 key hkey) hge
    refine hshared heq i ((hlength (i + 1)).mp hj) ⟨key.1, key.2.1, ?_, ?_⟩
    · rw [← hts]
      exact hentered
    · rw [← hts]
      exact hentered'

/-- A gap up that is seen at 40 s. -/
def boundaryDb : EventDb where
  ohlcv := [MultiSymbolRunner.barRow "BTC_USDT" 25 100, MultiSymbolRunner.barRow "BTC_USDT" 30 102,
    MultiSymbolRunner.barRow "BTC_USDT" 35 104, MultiSymbolRunner.barRow "BTC_USDT" 40 104]
  depth := []
  ticker := []

theorem boundaryDb_stream (tsFrom tsTo : ℤ) : streamMulti boundaryDb ["BTC_USDT"] tsFrom tsTo =
    (boundaryDb.ohlcv.filter fun r => r.symbol = "BTC_USDT" ∧ tsFrom ≤ r.sec * 1000 ∧ r.sec * 1000 ≤ tsTo).map
      fun r => .ohlcv r.event :=
  streamMulti_bars rfl rfl (by decide +kernel) "BTC_USDT" tsFrom tsTo

open MultiSymbolRunner in
/-- Folds that do not touch: the one entry is in the first of them. -/
theorem countedOnce_iff_apart : ∃ result,
    run ⟨20000, 20000, some 30000, 1, true⟩ gapConfig gapStrategy {} boundaryDb ["BTC_USDT"] 0 70000 = .ok result ∧
      CountedOnce result := by
  have hfold : ∀ window ∈ [(⟨0, 0, 20000, 20000, 40000⟩ : FoldWindow), ⟨1, 30000, 50000, 50000, 70000⟩],
      (runFold gapConfig gapStrategy {} boundaryDb ["BTC_USDT"] window).map (fun fr => fr.stats.callbackErrors) =
        some 0 := by
    intro window hw
    unfold runFold foldStream
    rw [boundaryDb_stream]
    simp only [List.mem_cons, List.not_mem_nil, or_false] at hw
    rcases hw with rfl | rfl
    · decide +kernel
    · decide +kernel
  obtain ⟨fr, hfr, herrors⟩ := Option.map_eq_some_iff.mp (hfold _ List.mem_cons_self)
  obtain ⟨fr', hfr', herrors'⟩ := Option.map_eq_some_iff.mp (hfold _ (List.mem_cons_of_mem _ List.mem_cons_self))
  have hwindows : generateFolds ⟨20000, 20000, some 30000, 1, true⟩ 0 70000 =
      some [⟨0, 0, 20000, 20000, 40000⟩, ⟨1, 30000, 50000, 50000, 70000⟩] := by decide +kernel
  have hrun : run ⟨20000, 20000, some 30000, 1, true⟩ gapConfig gapStrategy {} boundaryDb ["BTC_USDT"] 0 70000 =
      .ok ⟨[fr, fr'], fr.trades ++ fr'.trades, fr.droppedEntries ++ fr'.droppedEntries, 2, false⟩ := by
    unfold run
    rw [hwindows]
    simp [runFolds, hfr, hfr', herrors, herrors', Except.map]
  exact ⟨_, hrun, (countedOnce_iff (by decide) (by decide) hrun).mpr fun heq => absurd heq (by decide)⟩

open MultiSymbolRunner in
/-- Two folds that share the boundary at 40 s both report the entry there. -/
theorem not_countedOnce_boundary : ∃ result,
    run ⟨20000, 20000, none, 1, true⟩ gapConfig gapStrategy {} boundaryDb ["BTC_USDT"] 0 60000 = .ok result ∧
      ¬ CountedOnce result := by
  have hfold : ∀ window ∈ [(⟨0, 0, 20000, 20000, 40000⟩ : FoldWindow), ⟨1, 20000, 40000, 40000, 60000⟩],
      (runFold gapConfig gapStrategy {} boundaryDb ["BTC_USDT"] window).map
        (fun fr => (fr.stats.callbackErrors, fr.trades.map Trade.key)) = some (0, [("BTC_USDT", .LONG, 40000)]) := by
    intro window hw
    unfold runFold foldStream
    rw [boundaryDb_stream]
    simp only [List.mem_cons, List.not_mem_nil, or_false] at hw
    rcases hw with rfl | rfl
    · decide +kernel
    · decide +kernel
  obtain ⟨fr, hfr, hreport⟩ := Option.map_eq_some_iff.mp (hfold _ List.mem_cons_self)
  obtain ⟨fr', hfr', hreport'⟩ := Option.map_eq_some_iff.mp (hfold _ (List.mem_cons_of_mem _ List.mem_cons_self))
  obtain ⟨herrors, hkeys⟩ := Prod.mk.inj hreport
  obtain ⟨herrors', hkeys'⟩ := Prod.mk.inj hreport'
  have hwindows : generateFolds ⟨20000, 20000, none, 1, true⟩ 0 60000 =
      some [⟨0, 0, 20000, 20000, 40000⟩, ⟨1, 20000, 40000, 40000, 60000⟩] := by decide +kernel
  refine ⟨⟨[fr, fr'], fr.trades ++ fr'.trades, fr.droppedEntries ++ fr'.droppedEntries, 2, false⟩, ?_, fun honce => ?_⟩
  · unfold run
    rw [hwindows]
    simp [runFolds, hfr, hfr', herrors, herrors', Except.map]
  · unfold CountedOnce at honce
    rw [List.map_append, hkeys, hkeys'] at honce
    exact absurd honce (by decide)

end WalkForward

end MikoV2.Backtest
