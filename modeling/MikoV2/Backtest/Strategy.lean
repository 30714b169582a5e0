import MikoV2.Backtest.SignalDetector
import MikoV2.Trading.PaperMath

/-!
# `Strategy`

Signals of one symbol's detector, looked at over a window of time, become entry signals.

* `tryEntry` : the decision after a bar; `onOhlcv` : a bar, `none` when the detector raises;
* `finalize` : the flush at the end of a run;
* `Strategy.onOhlcv_stamp` : what an entry signal carries; `Strategy.onOhlcv_returns` : when a bar does not raise.
-/

namespace MikoV2.Backtest
open PaperMath (Direction)

structure StrategyConfig where
  entryWindowMs : ℤ := 15000
  minWhaleTrust : ℤ := 0
  requireSweep : Bool := true
  requireMss : Bool := true
  requireFvg : Bool := true
  requireOte : Bool := false
  cooldownMs : ℤ := 60000

structure EntrySignal where
  direction : Direction
  tsMs : ℤ
  price : ℚ
  reason : String
  signals : List SignalKind
deriving DecidableEq

inductive StrategyRejection
  | cooldown_active
deriving DecidableEq, Repr

structure Strategy where
  detector : SignalDetector := {}
  recent : List (ℤ × Signal) := []
  lastEntryMs : Direction → Option ℤ := fun _ => none
  entries : List EntrySignal := []
  lastTrust : ℤ := 0
  signalCounts : SignalKind → ℕ := fun _ => 0
  lastRejectionReason : Option StrategyRejection := none

section Methods
variable (cfg : StrategyConfig) (dcfg : DetectorConfig)

def recentMaxlen : ℕ := 200

/-- `self._recent.append((ts_ms, s)); self.signal_counts[s.kind] += 1`. -/
def Strategy.record (st : Strategy) (tsMs : ℤ) (s : Signal) : Strategy :=
  { st with
    recent := dequeAppend recentMaxlen st.recent (tsMs, s)
    signalCounts := Function.update st.signalCounts s.kind (st.signalCounts s.kind + 1) }

def hasKind (recent : List (ℤ × Signal)) (kind : SignalKind) : Bool := recent.any fun e => e.2.kind = kind

def longOk (recent : List (ℤ × Signal)) : Bool :=
  (!cfg.requireSweep || hasKind recent .SWEEP_DOWN) && (!cfg.requireMss || hasKind recent .MSS_UP) &&
    (!cfg.requireFvg || hasKind recent .FVG_BULLISH) && (!cfg.requireOte || hasKind recent .OTE_LONG)

def shortOk (recent : List (ℤ × Signal)) : Bool :=
  (!cfg.requireSweep || hasKind recent .SWEEP_UP) && (!cfg.requireMss || hasKind recent .MSS_DOWN) &&
    (!cfg.requireFvg || hasKind recent .FVG_BEARISH) && (!cfg.requireOte || hasKind recent .OTE_SHORT)

def entryReason : Direction → String
  | .LONG => "sweep+mss+fvg aligned long"
  | .SHORT => "sweep+mss+fvg aligned short"

/-- One side of `_try_entry`: the entries and the state, and whether the cooldown stood in the way. -/
def trySide (direction : Direction) (ok : Bool) (tsMs : ℤ) (price : ℚ) (contributing : List SignalKind)
    (st : Strategy) : List EntrySignal × Bool × Strategy :=
  if ok then
    if tsMs - (st.lastEntryMs direction).getD 0 ≥ cfg.cooldownMs then
      ([⟨direction, tsMs, price, entryReason direction, contributing⟩], false,
        { st with lastEntryMs := Function.update st.lastEntryMs direction (some tsMs) })
    else ([], true, st)
  else ([], false, st)

def tryEntry (tsMs : ℤ) (price : ℚ) (st : Strategy) : List EntrySignal × Strategy :=
  let st := { st with lastRejectionReason := none }
  if st.lastTrust < cfg.minWhaleTrust then ([], st)
  else
    let recent := st.recent.filter fun e => e.1 ≥ tsMs - cfg.entryWindowMs
    if recent = [] then ([], st)
    else
      let contributing := recent.map fun e => e.2.kind
      let (long, longBlocked, st) := trySide cfg .LONG (longOk cfg recent) tsMs price contributing st
      let (short, shortBlocked, st) := trySide cfg .SHORT (shortOk cfg recent) tsMs price contributing st
      let out := long ++ short
      (out, if out = [] ∧ (longBlocked || shortBlocked) then { st with lastRejectionReason := some .cooldown_active }
        else st)

/-- `none` when the detector raises. -/
def Strategy.onOhlcv (st : Strategy) (ev : OHLCVEvent) : Option (List EntrySignal × Strategy) :=
  match feedOhlcv1s dcfg st.detector ev with
  | (none, _) => none
  | (some signals, detector) =>
    let st := signals.foldl (fun st s => st.record ev.tsMs s) { st with detector }
    let (new, st) := tryEntry cfg ev.tsMs ev.close st
    some (new, { st with entries := st.entries ++ new })

/-- The flush of the detector, and whether it went through. -/
def Strategy.finalize (st : Strategy) : Bool × Strategy :=
  match flush dcfg st.detector with
  | (none, detector) => (false, { st with detector })
  | (some signals, detector) => (true, signals.foldl (fun st s => st.record s.tsMs s) { st with detector })

end Methods

/-! ## The entries of a bar -/

variable {cfg : StrategyConfig} {dcfg : DetectorConfig} {st st' : Strategy}

theorem trySide_stamp {direction : Direction} {ok : Bool} {tsMs : ℤ} {price : ℚ} {contributing : List SignalKind} :
    ∀ e ∈ (trySide cfg direction ok tsMs price contributing st).1, e.tsMs = tsMs ∧ e.price = price := by
  intro e he
  unfold trySide at he
  split at he
  · split at he
    · rw [List.mem_singleton.mp he]
      exact ⟨rfl, rfl⟩
    · cases he
  · cases he

theorem tryEntry_stamp {tsMs : ℤ} {price : ℚ} :
    ∀ e ∈ (tryEntry cfg tsMs price st).1, e.tsMs = tsMs ∧ e.price = price := by
  intro e he
  unfold tryEntry at he
  dsimp only at he
  split at he
  · cases he
  · split at he
    · cases he
    · rcases List.mem_append.mp he with he | he
      · exact trySide_stamp e he
      · exact trySide_stamp e he

/-- An entry signal is stamped and priced by the bar that made it. -/
theorem Strategy.onOhlcv_stamp {ev : OHLCVEvent} {entries : List EntrySignal}
    (h : st.onOhlcv cfg dcfg ev = some (entries, st')) : ∀ e ∈ entries, e.tsMs = ev.tsMs ∧ e.price = ev.close := by
  unfold Strategy.onOhlcv at h
  split at h
  · cases h
  · cases h
    exact tryEntry_stamp

/-! ## What an attempt leaves alone -/

/-- The detector and the entries are unchanged. -/
structure Strategy.Same (st st' : Strategy) : Prop where
  detector : st'.detector = st.detector
  entries : st'.entries = st.entries

theorem Strategy.Same.refl (st : Strategy) : st.Same st := ⟨rfl, rfl⟩

theorem Strategy.Same.trans {st'' : Strategy} (h : st.Same st') (h' : st'.Same st'') : st.Same st'' :=
  ⟨h'.detector.trans h.detector, h'.entries.trans h.entries⟩

theorem foldl_record_same (tsMs : ℤ) (signals : List Signal) :
    ∀ st : Strategy, st.Same (signals.foldl (fun st s => st.record tsMs s) st) := by
  induction signals with
  | nil => exact Strategy.Same.refl
  | cons s signals ih =>
    intro st
    have hrest := ih (st.record tsMs s)
    have hone : st.Same (st.record tsMs s) := ⟨by rw [Strategy.record], by rw [Strategy.record]⟩
    rw [List.foldl_cons]
    exact hone.trans hrest

theorem trySide_same (direction : Direction) (ok : Bool) (tsMs : ℤ) (price : ℚ) (contributing : List SignalKind) :
    st.Same (trySide cfg direction ok tsMs price contributing st).2.2 := by
  unfold trySide
  split
  · split
    · exact ⟨rfl, rfl⟩
    · exact .refl st
  · exact .refl st

theorem tryEntry_same (cfg : StrategyConfig) (tsMs : ℤ) (price : ℚ) (st : Strategy) :
    st.Same (tryEntry cfg tsMs price st).2 := by
  have hclear : st.Same { st with lastRejectionReason := none } := ⟨rfl, rfl⟩
  unfold tryEntry
  dsimp only
  split
  · exact hclear
  · split
    · exact hclear
    · dsimp only
      split
      · exact ⟨(trySide_same ..).detector.trans (trySide_same ..).detector,
          (trySide_same ..).entries.trans (trySide_same ..).entries⟩
      · exact (hclear.trans (trySide_same ..)).trans (trySide_same ..)

/-- A bar that does not close at zero goes through. -/
theorem Strategy.onOhlcv_returns (cfg : StrategyConfig) (dcfg : DetectorConfig) {ev : OHLCVEvent}
    (h : Nonzero st.detector) (hev : ev.close ≠ 0) :
    ∃ entries st', st.onOhlcv cfg dcfg ev = some (entries, st') ∧ Nonzero st'.detector := by
  obtain ⟨out, d, hfeed, hd⟩ := h.feed dcfg hev
  unfold Strategy.onOhlcv
  rw [hfeed]
  refine ⟨_, _, rfl, ?_⟩
  show Nonzero (tryEntry cfg ev.tsMs ev.close _).2.detector
  rw [(tryEntry_same ..).detector, (foldl_record_same ..).detector]
  exact hd

/-- The entries of a bar are appended to those of the strategy. -/
theorem Strategy.onOhlcv_entries {ev : OHLCVEvent} {entries : List EntrySignal}
    (h : st.onOhlcv cfg dcfg ev = some (entries, st')) : st'.entries = st.entries ++ entries := by
  unfold Strategy.onOhlcv at h
  split at h
  · cases h
  · cases h
    show (tryEntry cfg ev.tsMs ev.close _).2.entries ++ _ = _
    rw [(tryEntry_same ..).entries, (foldl_record_same ..).entries]

end MikoV2.Backtest
