import MikoV2.Backtest.Coverage
import MikoV2.Backtest.StreamUnion

/-!
# The report over a replay

`build_report` of `multi_report.py`, and what `backtest_run` gives it: the range of the recorded events and the seconds of
the three tables.

* `getTimeRange`, `collectOhlcvSecs`, `collectTickerSecs`, `collectDepthSecs` : the queries of `ReplayTransport`;
* `applyProfile`, `droppedAggregation`, `computeClaim`, `excludedReport`, `buildReport` : the report;
* `Adequate` : what the strict profile asks of a symbol; `strict_iff` : it asks it of every symbol;
* `replayRange_covers` : the range leaves out no event;
* `report_of_replay` : what a strict report of a replay certifies.
-/

namespace MikoV2.Backtest
open Py (Dict)

/-! ## Queries -/

/-- `SELECT MIN(x), MAX(x)`, with the smallest and the largest of what is not `NULL`. -/
def minMax (xs : List ℤ) : Option ℤ × Option ℤ := (xs.min?, xs.max?)

/-- `get_time_range()` of the transport of one symbol. -/
def getTimeRange (db : EventDb) (symbol : String) : Option (ℤ × ℤ) :=
  let ohlcv := minMax ((db.ohlcv.filter fun r => r.symbol = symbol).map OhlcvRow.sec)
  let depth := minMax ((db.depth.filter fun r => r.symbol = symbol).map DepthRow.timestampMs)
  let tick := minMax ((db.ticker.filter fun r => r.symbol = symbol).map TickerRow.tsMs)
  let mins := [ohlcv.1.map (· * 1000), depth.1, tick.1].filterMap id
  let maxs := [ohlcv.2.map (· * 1000), depth.2, tick.2].filterMap id
  match mins.min?, maxs.max? with
  | some lo, some hi => some (lo, hi)
  | _, _ => none

/-- The range over the symbols that have one, as `backtest_run` takes it; `none` is its exit. -/
def replayRange (db : EventDb) (symbols : List String) : Option (ℤ × ℤ) :=
  let ranges := symbols.filterMap (getTimeRange db)
  match (ranges.map Prod.fst).min?, (ranges.map Prod.snd).max? with
  | some lo, some hi => some (lo, hi)
  | _, _ => none

/-- `out[sym] = …` for the symbols. -/
def collect (symbols : List String) (secs : String → List ℤ) : Dict String (List ℤ) :=
  symbols.foldl (fun out sym => out.set sym (secs sym)) .empty

section Collect
variable (db : EventDb) (symbols : List String) (tsFrom tsTo : ℤ)

def collectOhlcvSecs : Dict String (List ℤ) :=
  collect symbols fun sym =>
    ((db.ohlcv.filter fun r => r.symbol = sym ∧ tsFrom ≤ r.sec * 1000 ∧ r.sec * 1000 ≤ tsTo).map OhlcvRow.sec).mergeSort

def collectTickerSecs : Dict String (List ℤ) :=
  collect symbols fun sym =>
    (((db.ticker.filter fun r => r.symbol = sym ∧ tsFrom ≤ r.tsMs ∧ r.tsMs ≤ tsTo).map TickerRow.tsMs).mergeSort).map
      (· / 1000)

def collectDepthSecs : Dict String (List ℤ) :=
  collect symbols fun sym =>
    (((db.depth.filter fun r => r.symbol = sym ∧ tsFrom ≤ r.timestampMs ∧ r.timestampMs ≤ tsTo).map
      DepthRow.timestampMs).mergeSort).map (· / 1000)

end Collect

/-! ## Profiles -/

def strictMinCompleteness : ℚ := 95 / 100

def strictMaxGapMs : ℤ := 30 * 60 * 1000

def lenientMinCompleteness : ℚ := 85 / 100

def lenientMaxGapMs : ℤ := 60 * 60 * 1000

inductive Warning
  | lenient_completeness_below (c : ℚ)
  | lenient_max_gap_exceeded (g : ℤ)
  | strict_violated (completeness : ℚ) (maxGapMs : ℤ)
deriving DecidableEq

inductive ReportError
  | unknown_profile
  | unknown_mode
  /-- the `RuntimeError`, with its warnings -/
  | data_quality (warnings : List Warning)

/-- `_apply_profile(profile, aggregate)`. -/
def applyProfile (profile : String) (c : ℚ) (g : ℤ) : Except ReportError (Bool × List Warning) :=
  if profile = "legacy" then .ok (false, [])
  else if profile = "lenient" then
    .ok (false, (if c < lenientMinCompleteness then [.lenient_completeness_below c] else []) ++
      if g > lenientMaxGapMs then [.lenient_max_gap_exceeded g] else [])
  else if profile = "strict" then
    if c < strictMinCompleteness ∨ g > strictMaxGapMs then .ok (true, [.strict_violated c g]) else .ok (false, [])
  else .error .unknown_profile

structure DataQuality where
  profile : String
  coverage : CoverageReport
  warnings : List Warning
  failFastTriggered : Bool

/-! ## Drops, claims and exclusions -/

/-- What the report reads of a dropped entry: `d.get("reason")` and `d.get("symbol")`. -/
structure Dropped where
  reason : Option String
  symbol : Option String

/-- `d[key] = d.get(key, 0) + 1` -/
def tally (counts : Dict String ℕ) (key : String) : Dict String ℕ := counts.set key ((counts.get? key).getD 0 + 1)

/-- `_dropped_aggregation(dropped)`. -/
def droppedAggregation (dropped : List Dropped) : Dict String ℕ × Dict String ℕ :=
  dropped.foldl (fun c d => (tally c.1 (d.reason.getD "unknown"), tally c.2 (d.symbol.getD "unknown"))) (.empty, .empty)

inductive Claim
  | capable
  | synthetic_validated
  | single_symbol_real
  | multi_symbol_real
deriving DecidableEq

/-- `_compute_claim(…)`; the last two branches return the same. -/
def computeClaim (syntheticValidated singleSymbolReal multiSymbolReal : Bool) : Claim :=
  if multiSymbolReal then .multi_symbol_real
  else if singleSymbolReal then .single_symbol_real
  else if syntheticValidated then .synthetic_validated
  else .capable

structure Excluded where
  all : List String
  effective : List String
  version : ℤ

/-- `_excluded_report(all_excluded, version, requested)`. -/
def excludedReport (allExcluded : List String) (version : ℤ) (requested : List String) : Excluded :=
  ⟨sortedSymbols allExcluded, sortedSymbols (requested.filter fun s => s ∈ allExcluded), version⟩

/-! ## The report -/

structure ReportFold (W : Type) where
  window : W
  /-- `t.get("symbol")` of its trades -/
  trades : List (Option String)

/-- What the report reads of its payloads. -/
structure Payload (W : Type) where
  mode : String := "single"
  trades : List (Option String) := []
  combinedTrades : List (Option String) := []
  folds : List (ReportFold W) := []
  droppedEntries : List Dropped := []
  combinedDropped : List Dropped := []
  foldCount : ℤ := 0
  singleFoldWarning : Bool := false

structure MultiReport (W : Type) where
  mode : String
  profile : String
  multiSymbolCapable : Bool
  syntheticMultiSymbolValidated : Bool
  realMultiSymbolValidated : Bool
  singleSymbolRealWalkforwardExecuted : Bool
  realDataSymbols : List String
  dataQuality : DataQuality
  tickerCoverage : CoverageReport
  depthCoverage : CoverageReport
  globalLimitExercised : Bool
  droppedEntries : List Dropped
  droppedEntriesByReason : Dict String ℕ
  droppedEntriesBySymbol : Dict String ℕ
  excludedSymbols : Excluded
  foldCount : ℤ
  singleFoldWarning : Bool
  walkForwardClaim : Claim
  foldWindows : List W

variable {W : Type}

/-- The symbols of the trades, without the empty ones. -/
def tradeSymbols (p : Payload W) (folds : List (ReportFold W)) : List String :=
  (p.trades ++ p.combinedTrades ++ folds.flatMap ReportFold.trades).filterMap fun s => s.filter fun s => s ≠ ""

/-- `build_report(payloads, …)`. -/
def buildMultiReport (p : Payload W) (profile : String) (symbols : List String) (syntheticValidated : Bool)
    (excludedAll : List String) (excludedVersion : ℤ) (requested : List String)
    (ohlcvSecs tickerSecs depthSecs : Dict String (List ℤ)) : Except ReportError (MultiReport W) :=
  if profile ∉ ["legacy", "lenient", "strict"] then .error .unknown_profile
  else if p.mode ∉ ["single", "multi", "walkforward"] then .error .unknown_mode
  else
    let folds := if p.mode = "walkforward" then p.folds else []
    let dqOhlcv := coverageReport ohlcvSecs 1
    let tickerCov := coverageReport tickerSecs 60
    let depthCov := coverageReport depthSecs 60
    match applyProfile profile dqOhlcv.minCompleteness dqOhlcv.maxGapMs with
    | .error e => .error e
    | .ok (failFast, warnings) =>
      if failFast then .error (.data_quality warnings)
      else
        let dropped := if p.mode = "walkforward" then p.combinedDropped else p.droppedEntries
        let counts := droppedAggregation dropped
        let realDataSymbols := sortedSymbols (if symbols ≠ [] then symbols else tradeSymbols p folds)
        let singleSymbolReal := p.mode = "walkforward" ∧ realDataSymbols.length = 1
        let multiSymbolReal := p.mode = "walkforward" ∧ realDataSymbols.length ≥ 4
        .ok {
          mode := p.mode
          profile
          multiSymbolCapable := p.mode = "multi" ∨ p.mode = "walkforward"
          syntheticMultiSymbolValidated := syntheticValidated
          realMultiSymbolValidated := multiSymbolReal
          singleSymbolRealWalkforwardExecuted := singleSymbolReal
          realDataSymbols
          dataQuality := ⟨profile, dqOhlcv, warnings, failFast⟩
          tickerCoverage := tickerCov
          depthCoverage := depthCov
          globalLimitExercised := (counts.1.get? "global_limit_full").getD 0 > 0
          droppedEntries := dropped
          droppedEntriesByReason := counts.1
          droppedEntriesBySymbol := counts.2
          excludedSymbols := excludedReport excludedAll excludedVersion requested
          foldCount := if p.mode = "walkforward" then p.foldCount else 0
          singleFoldWarning := if p.mode = "walkforward" then p.singleFoldWarning else false
          walkForwardClaim := computeClaim syntheticValidated singleSymbolReal multiSymbolReal
          foldWindows := if p.mode = "walkforward" then folds.map ReportFold.window else [] }

/-! ## The loop over the symbols -/

/-- The completeness of an entry, as the loop reads it. -/
def entryCompleteness (k : ℤ) (e : String × List ℤ) : ℚ := (analyzeOhlcvSecs e.1 (distinctSecs e.2) k).completeness

def entryMaxGap (k : ℤ) (e : String × List ℤ) : ℤ := (analyzeOhlcvSecs e.1 (distinctSecs e.2) k).maxGapSec

section Loop
variable {k g : ℤ} {t : ℚ}

theorem coverSymbol_eq {c : CoverageLoop} (hmin : 0 ≤ c.minCompleteness) (hgap : 0 ≤ c.maxGapMs) (e : String × List ℤ) :
    (coverSymbol k c e).minCompleteness = min c.minCompleteness (entryCompleteness k e) ∧
      (coverSymbol k c e).maxGapMs = max c.maxGapMs (entryMaxGap k e * 1000) := by
  unfold coverSymbol
  by_cases hempty : e.2 = []
  · have hnil : distinctSecs [] = [] := Finset.sort_empty _
    have hcompleteness : entryCompleteness k e = 0 := by
      unfold entryCompleteness
      rw [hempty, hnil]
      rfl
    have hmaxGap : entryMaxGap k e = 0 := by
      unfold entryMaxGap
      rw [hempty, hnil]
      rfl
    rw [if_pos hempty, hcompleteness, hmaxGap, min_eq_right hmin, zero_mul, max_eq_left hgap]
    exact ⟨rfl, rfl⟩
  · rw [if_neg hempty, min_def_lt', max_def_lt]
    exact ⟨rfl, rfl⟩

/-- A bound of the smallest completeness and of the largest gap is a bound for every symbol. -/
theorem foldl_coverSymbol_iff (l : List (String × List ℤ)) : ∀ c : CoverageLoop, 0 ≤ c.minCompleteness → 0 ≤ c.maxGapMs →
    ((t ≤ (l.foldl (coverSymbol k) c).minCompleteness ↔ t ≤ c.minCompleteness ∧ ∀ e ∈ l, t ≤ entryCompleteness k e) ∧
      ((l.foldl (coverSymbol k) c).maxGapMs ≤ g ↔ c.maxGapMs ≤ g ∧ ∀ e ∈ l, entryMaxGap k e * 1000 ≤ g)) := by
  induction l with
  | nil => exact fun c _ _ => ⟨by simp, by simp⟩
  | cons e l ih =>
    intro c hmin hgap
    obtain ⟨hstepMin, hstepGap⟩ := coverSymbol_eq (k := k) hmin hgap e
    have hnonneg : 0 ≤ entryCompleteness k e := completeness_nonneg ..
    obtain ⟨ihMin, ihGap⟩ := ih (coverSymbol k c e) (by rw [hstepMin]; exact le_min hmin hnonneg)
      (by rw [hstepGap]; exact hgap.trans (le_max_left ..))
    rw [List.foldl_cons, ihMin, ihGap, hstepMin, hstepGap, le_min_iff, max_le_iff, List.forall_mem_cons,
      List.forall_mem_cons, and_assoc, and_assoc]
    exact ⟨Iff.rfl, Iff.rfl⟩

end Loop

/-- The rounding lets through what is nearer to the threshold than half of its last place. -/
theorem round6_lt_iff (x : ℚ) : round6 x < strictMinCompleteness ↔ x < 9499995 / 10000000 := by
  have hle : (⌊x * 1000000⌋ : ℚ) ≤ x * 1000000 := Int.floor_le _
  have hlt : x * 1000000 < ⌊x * 1000000⌋ + 1 := Int.lt_floor_add_one _
  have hthreshold : ∀ n : ℤ, (n : ℚ) / 1000000 < strictMinCompleteness ↔ n < 950000 := fun n => by
    rw [strictMinCompleteness, div_lt_iff₀ (by norm_num)]
    norm_num
    exact_mod_cast Iff.rfl
  unfold round6
  dsimp only
  rw [hthreshold]
  generalize ⌊x * 1000000⌋ = n at hle hlt
  rcases lt_trichotomy n 949999 with hn | rfl | hn
  · have hcast : (n : ℚ) + 1 ≤ 949999 := by exact_mod_cast hn
    refine iff_of_true ?_ (by linarith)
    split <;> omega
  · push_cast at hle hlt ⊢
    by_cases hhalf : x * 1000000 - 949999 < 1 / 2
    · rw [if_neg (by rintro (h | h) <;> linarith [h])]
      refine iff_of_true (by norm_num) (by linarith)
    · rw [if_pos ((lt_or_eq_of_le (not_lt.mp hhalf)).imp id fun h => ⟨h.symm, not_false⟩)]
      refine iff_of_false (by norm_num) (by linarith)
  · have hcast : (950000 : ℚ) ≤ n := by exact_mod_cast hn
    refine iff_of_false ?_ (by linarith)
    split <;> omega

/-! ## What the strict profile asks -/

/-- Between its first and its last second a symbol has a bar for all but one in twenty, and none stands alone for more
than half an hour. -/
structure Adequate (secs : List ℤ) : Prop where
  dense : ∃ first last, first ∈ secs ∧ last ∈ secs ∧ (∀ s ∈ secs, first ≤ s ∧ s ≤ last) ∧
    (9499995 : ℚ) / 10000000 ≤ secs.toFinset.card / (last - first + 1)
  followed : ∀ a ∈ secs, (∃ c ∈ secs, a < c) → ∃ b ∈ secs, a < b ∧ b ≤ a + 1800

theorem Adequate.congr {secs secs' : List ℤ} (h : ∀ s, s ∈ secs ↔ s ∈ secs') (ha : Adequate secs) : Adequate secs' := by
  have hset : secs.toFinset = secs'.toFinset := by
    ext s
    rw [List.mem_toFinset, List.mem_toFinset, h]
  obtain ⟨⟨first, last, hfirst, hlast, hall, hshare⟩, hfollowed⟩ := ha
  refine ⟨⟨first, last, (h first).mp hfirst, (h last).mp hlast, fun s hs => hall s ((h s).mpr hs), hset ▸ hshare⟩, ?_⟩
  rintro a ha ⟨c, hc, hac⟩
  obtain ⟨b, hb, hab⟩ := hfollowed a ((h a).mpr ha) ⟨c, (h c).mpr hc, hac⟩
  exact ⟨b, (h b).mp hb, hab⟩

/-- No gap is longer than `g` when every second but the last is followed within `g`. -/
theorem gapsOf_le_iff {k g : ℤ} (hkg : k ≤ g) : ∀ {secs : List ℤ}, secs.Pairwise (· < ·) →
    ((∀ x ∈ gapsOf k secs, x.2 - x.1 ≤ g) ↔ ∀ a ∈ secs, (∃ c ∈ secs, a < c) → ∃ b ∈ secs, a < b ∧ b ≤ a + g)
  | [], _ => by simp [gapsOf]
  | [a], _ => by simp [gapsOf]
  | a :: b :: secs, hsecs => by
    obtain ⟨ha, hrest⟩ := List.pairwise_cons.mp hsecs
    have ih := gapsOf_le_iff hkg hrest
    have hab : a < b := ha b List.mem_cons_self
    have hhead : (∀ x ∈ gapsOf k (a :: b :: secs), x.2 - x.1 ≤ g) ↔
        b - a ≤ g ∧ ∀ x ∈ gapsOf k (b :: secs), x.2 - x.1 ≤ g := by
      rw [gapsOf]
      by_cases hgap : b - a > k
      · rw [if_pos hgap, List.forall_mem_cons]
      · rw [if_neg hgap]
        exact ⟨fun h => ⟨by omega, h⟩, fun h => h.2⟩
    rw [hhead, ih]
    constructor
    · rintro ⟨hfirst, hlater⟩ x hx ⟨c, hc, hxc⟩
      rcases List.mem_cons.mp hx with rfl | hx
      · exact ⟨b, by simp, hab, by omega⟩
      · have hc : c ∈ b :: secs := by
          refine (List.mem_cons.mp hc).resolve_left fun hca => ?_
          have hax := ha x hx
          omega
        obtain ⟨y, hy, hxy⟩ := hlater x hx ⟨c, hc, hxc⟩
        exact ⟨y, List.mem_cons_of_mem a hy, hxy⟩
    · intro h
      refine ⟨?_, fun x hx hc => ?_⟩
      · obtain ⟨y, hy, hay, hyg⟩ := h a List.mem_cons_self ⟨b, by simp, hab⟩
        have hby : b ≤ y := by
          rcases List.mem_cons.mp hy with rfl | hy
          · exact absurd hay (lt_irrefl _)
          · exact first_le hrest hy
        omega
      · obtain ⟨c, hc, hxc⟩ := hc
        obtain ⟨y, hy, hxy, hyg⟩ := h x (List.mem_cons_of_mem a hx) ⟨c, List.mem_cons_of_mem a hc, hxc⟩
        refine ⟨y, (List.mem_cons.mp hy).resolve_left fun hya => ?_, hxy, hyg⟩
        have hax := ha x hx
        omega

theorem foldl_maxGap_le_iff {g : ℤ} (gaps : List (ℤ × ℤ)) : ∀ m : ℤ,
    gaps.foldl (fun m g => max m (g.2 - g.1)) m ≤ g ↔ m ≤ g ∧ ∀ x ∈ gaps, x.2 - x.1 ≤ g := by
  induction gaps with
  | nil => simp
  | cons x gaps ih =>
    intro m
    rw [List.foldl_cons, ih, max_le_iff, List.forall_mem_cons, and_assoc]

theorem mem_distinctSecs {secs : List ℤ} {s : ℤ} : s ∈ distinctSecs secs ↔ s ∈ secs := by
  rw [distinctSecs, Finset.mem_sort, List.mem_toFinset]

/-- What the strict profile asks of an entry. -/
theorem adequate_iff (symbol : String) (secs : List ℤ) :
    9499995 / 10000000 ≤ entryCompleteness 1 (symbol, secs) ∧ entryMaxGap 1 (symbol, secs) * 1000 ≤ strictMaxGapMs ↔
      Adequate secs := by
  have hsorted := distinctSecs_sorted secs
  have hmem : ∀ s, s ∈ distinctSecs secs ↔ s ∈ secs := fun s => mem_distinctSecs
  have hcard : (distinctSecs secs).length = secs.toFinset.card := Finset.length_sort _
  show 9499995 / 10000000 ≤ (analyzeOhlcvSecs symbol (distinctSecs secs) 1).completeness ∧
    (analyzeOhlcvSecs symbol (distinctSecs secs) 1).maxGapSec * 1000 ≤ strictMaxGapMs ↔ _
  generalize distinctSecs secs = ds at hsorted hmem hcard
  cases ds with
  | nil =>
    refine iff_of_false (fun h => ?_) fun h => ?_
    · have hzero : (9499995 : ℚ) / 10000000 ≤ 0 := h.1
      norm_num at hzero
    · obtain ⟨first, -, hfirst, -⟩ := h.dense
      exact List.not_mem_nil ((hmem first).mpr hfirst)
  | cons first rest =>
    obtain ⟨last, hlast⟩ := exists_last first rest
    have hle := le_last hsorted hlast List.mem_cons_self
    have hslots : ((slots first last 1).card : ℚ) = last - first + 1 := by
      have hint := card_slots hle le_rfl
      rw [Int.ediv_one] at hint
      exact_mod_cast hint
    have hgap : (analyzeOhlcvSecs symbol (first :: rest) 1).maxGapSec * 1000 ≤ strictMaxGapMs ↔
        ∀ x ∈ gapsOf 1 (first :: rest), x.2 - x.1 ≤ 1800 := by
      have hfold := foldl_maxGap_le_iff (g := 1800) (gapsOf 1 (first :: rest)) 0
      have hreport : (analyzeOhlcvSecs symbol (first :: rest) 1).maxGapSec =
          (gapsOf 1 (first :: rest)).foldl (fun m g => max m (g.2 - g.1)) 0 := by
        rw [analyzeOhlcvSecs, hlast, List.head?_cons]
      rw [hreport, ← and_iff_right (a := (0 : ℤ) ≤ 1800) (b := ∀ x ∈ _, _) (by decide), ← hfold, strictMaxGapMs]
      omega
    rw [completeness_eq symbol le_rfl hsorted hlast, hslots, hcard, hgap, gapsOf_le_iff (by decide) hsorted]
    simp only [hmem]
    constructor
    · rintro ⟨hshare, hfollowed⟩
      refine ⟨⟨first, last, (hmem first).mp List.mem_cons_self, (hmem last).mp (List.mem_of_getLast? hlast),
        fun s hs => ?_, hshare⟩, hfollowed⟩
      have hs := (hmem s).mpr hs
      exact ⟨first_le hsorted hs, le_last hsorted hlast hs⟩
    · rintro ⟨⟨first', last', hfirst', hlast', hall, hshare⟩, hfollowed⟩
      have hfirst : first' = first := le_antisymm (hall first ((hmem first).mp List.mem_cons_self)).1
        (first_le hsorted ((hmem first').mpr hfirst'))
      have hlast : last' = last := le_antisymm (le_last hsorted hlast ((hmem last').mpr hlast'))
        (hall last ((hmem last).mp (List.mem_of_getLast? hlast))).2
      rw [hfirst, hlast] at hshare
      exact ⟨hshare, hfollowed⟩

/-! ## The strict profile -/

/-- The strict profile lets a coverage through that is adequate for every symbol. -/
theorem applyProfile_strict (secs : Dict String (List ℤ)) :
    applyProfile "strict" (coverageReport secs 1).minCompleteness (coverageReport secs 1).maxGapMs = .ok (false, []) ↔
      ∀ e ∈ secs.items, Adequate e.2 := by
  have hloop := foldl_coverSymbol_iff (k := 1) (t := 9499995 / 10000000) (g := strictMaxGapMs) secs.items {} zero_le_one
    le_rfl
  have hmin : ¬(coverageReport secs 1).minCompleteness < strictMinCompleteness ↔
      ∀ e ∈ secs.items, 9499995 / 10000000 ≤ entryCompleteness 1 e := by
    show ¬round6 (coverageLoop secs 1).minCompleteness < _ ↔ _
    rw [round6_lt_iff, not_lt]
    exact hloop.1.trans (and_iff_right (by norm_num))
  have hgap : ¬(coverageReport secs 1).maxGapMs > strictMaxGapMs ↔
      ∀ e ∈ secs.items, entryMaxGap 1 e * 1000 ≤ strictMaxGapMs := by
    rw [gt_iff_lt, not_lt]
    exact hloop.2.trans (and_iff_right (by decide))
  have hprofile : applyProfile "strict" (coverageReport secs 1).minCompleteness (coverageReport secs 1).maxGapMs =
      if (coverageReport secs 1).minCompleteness < strictMinCompleteness ∨ (coverageReport secs 1).maxGapMs > strictMaxGapMs
      then .ok (true, [.strict_violated (coverageReport secs 1).minCompleteness (coverageReport secs 1).maxGapMs])
      else .ok (false, []) := rfl
  have hall : (∀ e ∈ secs.items, Adequate e.2) ↔
      ¬((coverageReport secs 1).minCompleteness < strictMinCompleteness ∨
        (coverageReport secs 1).maxGapMs > strictMaxGapMs) := by
    rw [not_or, hmin, hgap, ← forall₂_and]
    exact forall₂_congr fun e _ => (adequate_iff e.1 e.2).symm
  rw [hprofile, hall]
  constructor
  · intro h hbad
    rw [if_pos hbad] at h
    cases h
  · exact fun h => if_neg h

/-! ## Drops -/

theorem tally_count (counts : Dict String ℕ) (key key' : String) :
    ((tally counts key).get? key').getD 0 = (counts.get? key').getD 0 + if key = key' then 1 else 0 := by
  unfold tally
  rw [Dict.get?_set]
  by_cases hkey : key = key'
  · rw [if_pos hkey.symm, if_pos hkey, hkey]
    rfl
  · rw [if_neg (Ne.symm hkey), if_neg hkey, Nat.add_zero]

/-- The aggregation counts the drops of each reason and of each symbol. -/
theorem droppedAggregation_count (dropped : List Dropped) (key : String) :
    ((droppedAggregation dropped).1.get? key).getD 0 = dropped.countP (fun d => d.reason.getD "unknown" = key) ∧
      ((droppedAggregation dropped).2.get? key).getD 0 = dropped.countP (fun d => d.symbol.getD "unknown" = key) := by
  unfold droppedAggregation
  induction dropped using List.reverseRecOn with
  | nil => exact ⟨rfl, rfl⟩
  | append_singleton dropped d ih =>
    rw [List.foldl_append, List.foldl_cons, List.foldl_nil, tally_count, tally_count, ih.1, ih.2, List.countP_append,
      List.countP_append, List.countP_singleton, List.countP_singleton]
    simp only [decide_eq_true_eq, and_self]

/-! ## The range and the seconds of a replay -/

theorem exists_min_le {xs : List ℤ} {x : ℤ} (h : x ∈ xs) : ∃ m, xs.min? = some m ∧ m ≤ x := by
  cases hmin : xs.min? with
  | none => exact absurd (List.min?_eq_none_iff.mp hmin ▸ h) List.not_mem_nil
  | some m => exact ⟨m, rfl, (List.min?_eq_some_iff.mp hmin).2 x h⟩

theorem exists_le_max {xs : List ℤ} {x : ℤ} (h : x ∈ xs) : ∃ m, xs.max? = some m ∧ x ≤ m := by
  cases hmax : xs.max? with
  | none => exact absurd (List.max?_eq_none_iff.mp hmax ▸ h) List.not_mem_nil
  | some m => exact ⟨m, rfl, (List.max?_eq_some_iff.mp hmax).2 x h⟩

/-- A row that a query selects is between the smallest and the largest. -/
theorem minMax_of_mem {ρ : Type} {rows : List ρ} {p : ρ → Prop} [DecidablePred p] {f : ρ → ℤ} {r : ρ} (hr : r ∈ rows)
    (hp : p r) : ∃ lo hi, minMax ((rows.filter fun r => p r).map f) = (some lo, some hi) ∧ lo ≤ f r ∧ f r ≤ hi := by
  have hmem : f r ∈ (rows.filter fun r => p r).map f :=
    List.mem_map_of_mem (List.mem_filter.mpr ⟨hr, decide_eq_true hp⟩)
  obtain ⟨lo, hlo, hle⟩ := exists_min_le hmem
  obtain ⟨hi, hhi, hge⟩ := exists_le_max hmem
  exact ⟨lo, hi, by rw [minMax, hlo, hhi], hle, hge⟩

/-- The time of an event of the symbol, as the queries of `get_time_range` read it. -/
def Stamp (db : EventDb) (symbol : String) (t : ℤ) : Prop :=
  (∃ r ∈ db.ohlcv, r.symbol = symbol ∧ r.sec * 1000 = t) ∨ (∃ r ∈ db.depth, r.symbol = symbol ∧ r.timestampMs = t) ∨
    ∃ r ∈ db.ticker, r.symbol = symbol ∧ r.tsMs = t

/-- A symbol with a row has a range, and no row of it is outside. -/
theorem getTimeRange_covers {db : EventDb} {symbol : String} {t : ℤ} (h : Stamp db symbol t) :
    ∃ lo hi, getTimeRange db symbol = some (lo, hi) ∧ lo ≤ t ∧ t ≤ hi := by
  have hcolumn : ∃ lo hi, lo ≤ t ∧ t ≤ hi ∧
      lo ∈ [(minMax ((db.ohlcv.filter fun r => r.symbol = symbol).map OhlcvRow.sec)).1.map (· * 1000),
        (minMax ((db.depth.filter fun r => r.symbol = symbol).map DepthRow.timestampMs)).1,
        (minMax ((db.ticker.filter fun r => r.symbol = symbol).map TickerRow.tsMs)).1].filterMap id ∧
      hi ∈ [(minMax ((db.ohlcv.filter fun r => r.symbol = symbol).map OhlcvRow.sec)).2.map (· * 1000),
        (minMax ((db.depth.filter fun r => r.symbol = symbol).map DepthRow.timestampMs)).2,
        (minMax ((db.ticker.filter fun r => r.symbol = symbol).map TickerRow.tsMs)).2].filterMap id := by
    rcases h with ⟨r, hr, hsym, rfl⟩ | ⟨r, hr, hsym, rfl⟩ | ⟨r, hr, hsym, rfl⟩
    · obtain ⟨lo, hi, hcol, hle, hge⟩ := minMax_of_mem (p := fun r => r.symbol = symbol) (f := OhlcvRow.sec) hr hsym
      refine ⟨lo * 1000, hi * 1000, by omega, by omega, ?_, ?_⟩
      · exact List.mem_filterMap.mpr ⟨some (lo * 1000), by simp [hcol], rfl⟩
      · exact List.mem_filterMap.mpr ⟨some (hi * 1000), by simp [hcol], rfl⟩
    · obtain ⟨lo, hi, hcol, hle, hge⟩ := minMax_of_mem (p := fun r => r.symbol = symbol) (f := DepthRow.timestampMs) hr hsym
      refine ⟨lo, hi, hle, hge, ?_, ?_⟩
      · exact List.mem_filterMap.mpr ⟨some lo, by simp [hcol], rfl⟩
      · exact List.mem_filterMap.mpr ⟨some hi, by simp [hcol], rfl⟩
    · obtain ⟨lo, hi, hcol, hle, hge⟩ := minMax_of_mem (p := fun r => r.symbol = symbol) (f := TickerRow.tsMs) hr hsym
      refine ⟨lo, hi, hle, hge, ?_, ?_⟩
      · exact List.mem_filterMap.mpr ⟨some lo, by simp [hcol], rfl⟩
      · exact List.mem_filterMap.mpr ⟨some hi, by simp [hcol], rfl⟩
  obtain ⟨lo, hi, hle, hge, hlo, hhi⟩ := hcolumn
  obtain ⟨lo', hmin, hlo'⟩ := exists_min_le hlo
  obtain ⟨hi', hmax, hhi'⟩ := exists_le_max hhi
  refine ⟨lo', hi', ?_, by omega, by omega⟩
  unfold getTimeRange
  dsimp only
  rw [hmin, hmax]

/-- The range of a replay leaves out no row of its symbols. -/
theorem replayRange_covers {db : EventDb} {symbols : List String} {lo hi : ℤ} (h : replayRange db symbols = some (lo, hi))
    {symbol : String} (hs : symbol ∈ symbols) {t : ℤ} (ht : Stamp db symbol t) : lo ≤ t ∧ t ≤ hi := by
  obtain ⟨lo', hi', hrange, hlo, hhi⟩ := getTimeRange_covers ht
  have hmem : (lo', hi') ∈ symbols.filterMap (getTimeRange db) := List.mem_filterMap.mpr ⟨symbol, hs, hrange⟩
  obtain ⟨lo₁, hmin, hle⟩ := exists_min_le (List.mem_map_of_mem (f := Prod.fst) hmem)
  obtain ⟨hi₁, hmax, hge⟩ := exists_le_max (List.mem_map_of_mem (f := Prod.snd) hmem)
  unfold replayRange at h
  dsimp only at h hle hge
  rw [hmin, hmax] at h
  cases h
  omega

/-- The events of all rows of the symbols. -/
def recordedEvents (db : EventDb) (symbols : List String) : List AnyEvent :=
  ((db.ohlcv.filter fun r => r.symbol ∈ symbols).map fun r => .ohlcv r.event) ++
    ((db.depth.filter fun r => r.symbol ∈ symbols).map fun r => .depth r.event) ++
    (db.ticker.filter fun r => r.symbol ∈ symbols).map fun r => .ticker r.event

theorem streamMulti_recorded {db : EventDb} {symbols : List String} {lo hi : ℤ}
    (h : replayRange db symbols = some (lo, hi)) :
    (streamMulti db symbols lo hi).Perm (recordedEvents db symbols) := by
  refine (streamMulti_perm db symbols lo hi).trans (List.Perm.of_eq ?_)
  have hcovers : ∀ s t, s ∈ symbols → Stamp db s t → lo ≤ t ∧ t ≤ hi := fun s t hs => replayRange_covers h hs
  unfold matchingEvents recordedEvents
  refine congrArg₂ _ (congrArg₂ _ (congrArg _ ?_) (congrArg _ ?_)) (congrArg _ ?_) <;>
    refine List.filter_congr fun r hr => decide_eq_decide.mpr (and_iff_left_of_imp fun hs => ?_)
  · exact hcovers _ _ hs (.inl ⟨r, hr, rfl, rfl⟩)
  · exact hcovers _ _ hs (.inr (.inl ⟨r, hr, rfl, rfl⟩))
  · exact hcovers _ _ hs (.inr (.inr ⟨r, hr, rfl, rfl⟩))

/-- The seconds of the bars of a symbol. -/
def barSecs (evs : List AnyEvent) (symbol : String) : List ℤ :=
  evs.filterMap fun
    | .ohlcv ev => if ev.symbol = symbol then some ev.sec else none
    | _ => none

theorem mem_collect {symbols : List String} {secs : String → List ℤ} {symbol : String} {l : List ℤ} :
    (symbol, l) ∈ (collect symbols secs).items ↔ symbol ∈ symbols ∧ l = secs symbol := by
  rw [Dict.mem_items]
  unfold collect
  induction symbols using List.reverseRecOn with
  | nil => simp
  | append_singleton symbols s ih =>
    rw [List.foldl_append, List.foldl_cons, List.foldl_nil, Dict.get?_set]
    by_cases hs : symbol = s
    · subst hs
      simp [eq_comm]
    · rw [if_neg hs, ih]
      simp [hs]

/-- The seconds of the query are those of the stream. -/
theorem mem_barSecs_iff {db : EventDb} {symbols : List String} {lo hi : ℤ} {symbol : String} (hs : symbol ∈ symbols) (s : ℤ) :
    s ∈ ((db.ohlcv.filter fun r => r.symbol = symbol ∧ lo ≤ r.sec * 1000 ∧ r.sec * 1000 ≤ hi).map OhlcvRow.sec).mergeSort ↔
      s ∈ barSecs (streamMulti db symbols lo hi) symbol := by
  have hstream : ∀ ev, ev ∈ streamMulti db symbols lo hi ↔ ev ∈ matchingEvents db symbols lo hi :=
    fun ev => (streamMulti_perm db symbols lo hi).mem_iff
  rw [List.mem_mergeSort, List.mem_map, barSecs, List.mem_filterMap]
  constructor
  · rintro ⟨r, hr, rfl⟩
    obtain ⟨hmem, hsym, hrange⟩ := by simpa only [List.mem_filter, decide_eq_true_eq] using hr
    refine ⟨.ohlcv r.event, (hstream _).mpr ?_, if_pos hsym⟩
    refine List.mem_append_left _ (List.mem_append_left _ (List.mem_map.mpr ⟨r, ?_, rfl⟩))
    exact List.mem_filter.mpr ⟨hmem, decide_eq_true ⟨hsym ▸ hs, hrange⟩⟩
  · rintro ⟨ev, hev, hsec⟩
    cases ev with
    | ohlcv ev =>
      rw [hstream, matchingEvents, List.mem_append, List.mem_append] at hev
      rcases hev with (hev | hev) | hev
      · obtain ⟨r, hr, hre⟩ := List.mem_map.mp hev
        cases hre
        obtain ⟨hmem, -, hrange⟩ := by simpa only [List.mem_filter, decide_eq_true_eq] using hr
        dsimp only at hsec
        split at hsec
        · rename_i hsym
          cases hsec
          exact ⟨r, List.mem_filter.mpr ⟨hmem, decide_eq_true ⟨hsym, hrange⟩⟩, rfl⟩
        · cases hsec
      · obtain ⟨r, -, hre⟩ := List.mem_map.mp hev
        cases hre
      · obtain ⟨r, -, hre⟩ := List.mem_map.mp hev
        cases hre
    | depth ev => cases hsec
    | ticker ev => cases hsec

/-! ## A strict report of a replay -/

section Replay
variable (p : Payload W) (db : EventDb) (symbols : List String) (lo hi : ℤ) (syntheticValidated : Bool)
  (excludedAll : List String) (excludedVersion : ℤ)

/-- The report that `backtest_run` builds over a range. -/
def replayReport (profile : String) : Except ReportError (MultiReport W) :=
  buildMultiReport p profile symbols syntheticValidated excludedAll excludedVersion symbols
    (collectOhlcvSecs db symbols lo hi) (collectTickerSecs db symbols lo hi) (collectDepthSecs db symbols lo hi)

/-- What a report says of the bars the run has read and of the entries it has dropped. -/
structure Certified (report : MultiReport W) : Prop where
  adequate : ∀ s ∈ symbols, Adequate (barSecs (streamMulti db symbols lo hi) s)
  warnings : report.dataQuality.warnings = []
  byReason : ∀ key, (report.droppedEntriesByReason.get? key).getD 0 =
    report.droppedEntries.countP fun d => d.reason.getD "unknown" = key
  bySymbol : ∀ key, (report.droppedEntriesBySymbol.get? key).getD 0 =
    report.droppedEntries.countP fun d => d.symbol.getD "unknown" = key

theorem collected_adequate_iff :
    (∀ e ∈ (collectOhlcvSecs db symbols lo hi).items, Adequate e.2) ↔
      ∀ s ∈ symbols, Adequate (barSecs (streamMulti db symbols lo hi) s) := by
  constructor
  · intro h s hs
    exact (h _ (mem_collect.mpr ⟨hs, rfl⟩)).congr (mem_barSecs_iff hs)
  · rintro h ⟨s, l⟩ he
    obtain ⟨hs, rfl⟩ := mem_collect.mp he
    exact (h s hs).congr fun x => (mem_barSecs_iff hs x).symm

/-- The strict profile raises, or it has nothing to say. -/
theorem buildMultiReport_strict (requested : List String) (ohlcvSecs tickerSecs depthSecs : Dict String (List ℤ)) :
    (∃ report, buildMultiReport p "strict" symbols syntheticValidated excludedAll excludedVersion requested ohlcvSecs
        tickerSecs depthSecs = .ok report ∧ report.dataQuality.warnings = [] ∧ report.droppedEntriesByReason =
          (droppedAggregation report.droppedEntries).1 ∧ report.droppedEntriesBySymbol =
          (droppedAggregation report.droppedEntries).2 ∧ p.mode ∈ ["single", "multi", "walkforward"] ∧
        ∀ e ∈ ohlcvSecs.items, Adequate e.2) ∨
      (∃ e, buildMultiReport p "strict" symbols syntheticValidated excludedAll excludedVersion requested ohlcvSecs
        tickerSecs depthSecs = .error e) ∧ ¬(p.mode ∈ ["single", "multi", "walkforward"] ∧ ∀ e ∈ ohlcvSecs.items, Adequate e.2) := by
  have hstrict := applyProfile_strict ohlcvSecs
  unfold buildMultiReport
  rw [if_neg (by decide)]
  by_cases hmode : p.mode ∈ ["single", "multi", "walkforward"]
  · rw [if_neg (not_not.mpr hmode)]
    dsimp only
    by_cases hall : ∀ e ∈ ohlcvSecs.items, Adequate e.2
    · rw [hstrict.mpr hall]
      exact .inl ⟨_, rfl, rfl, rfl, rfl, hmode, hall⟩
    · refine .inr ⟨?_, fun h => hall h.2⟩
      have hbad := mt hstrict.mp hall
      unfold applyProfile at hbad ⊢
      rw [if_neg (by decide), if_neg (by decide), if_pos rfl] at hbad ⊢
      split at hbad
      · rename_i hviolated
        rw [if_pos hviolated]
        exact ⟨_, rfl⟩
      · exact absurd rfl hbad
  · rw [if_pos hmode]
    exact .inr ⟨⟨_, rfl⟩, fun h => hmode h.1⟩

/-- **A strict report** of a replay is built exactly when every symbol has its bars in the stream that the run reads; and
over the range that `backtest_run` takes, that stream is everything recorded of the symbols. -/
theorem report_of_replay :
    ((∃ report, replayReport p db symbols lo hi syntheticValidated excludedAll excludedVersion "strict" = .ok report) ↔
        p.mode ∈ ["single", "multi", "walkforward"] ∧ ∀ s ∈ symbols, Adequate (barSecs (streamMulti db symbols lo hi) s)) ∧
      (∀ report, replayReport p db symbols lo hi syntheticValidated excludedAll excludedVersion "strict" = .ok report →
        Certified db symbols lo hi report) ∧
      (replayRange db symbols = some (lo, hi) → (streamMulti db symbols lo hi).Perm (recordedEvents db symbols)) := by
  have hcollected := collected_adequate_iff db symbols lo hi
  unfold replayReport
  rcases buildMultiReport_strict p symbols syntheticValidated excludedAll excludedVersion symbols
    (collectOhlcvSecs db symbols lo hi) (collectTickerSecs db symbols lo hi) (collectDepthSecs db symbols lo hi) with
    ⟨report, hreport, hwarnings, hreason, hsymbol, hmode, hall⟩ | ⟨⟨e, herror⟩, hbad⟩
  · rw [hcollected] at hall
    rw [hreport]
    refine ⟨iff_of_true ⟨report, rfl⟩ ⟨hmode, hall⟩, fun report' h => ?_, streamMulti_recorded⟩
    cases h
    refine ⟨hall, hwarnings, fun key => ?_, fun key => ?_⟩
    · rw [hreason]
      exact (droppedAggregation_count _ key).1
    · rw [hsymbol]
      exact (droppedAggregation_count _ key).2
  · rw [hcollected] at hbad
    rw [herror]
    refine ⟨iff_of_false ?_ hbad, fun report h => ?_, streamMulti_recorded⟩
    · rintro ⟨report, h⟩
      cases h
    · cases h

end Replay

end MikoV2.Backtest
