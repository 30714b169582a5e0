import MikoV2.Backtest.SignalDetector
import MikoV2.Lib.Runs

/-!
# Each candle is looked at once

`flush` closes the open bucket and leaves `_active_sec` on it, so that a bar of a later bucket rolls over again.

* `DetectorCall`, `call` : the two entry points of a detector;
* `finalises`, `Detects` : the candle that a call appends, and whether it runs `_detect_on_last`; `call_candles`,
  `call_signals` : they are what the call does;
* `DetectorLedger`, `ledgerStep` : a detector with the times each of its candles was looked at;
* `AnalysedOnce` : each was looked at once, and a call that appends none returns no signals;
* `analysedOnce_iff_stillOpen` : so it is in the runs in which a bar only rolls over a bucket that is still open.
-/

namespace MikoV2.Backtest

inductive DetectorCall
  | feed (ev : OHLCVEvent)
  | flush

variable (cfg : DetectorConfig)

def call (d : SignalDetector) : DetectorCall → Option (List Signal) × SignalDetector
  | .feed ev => feedOhlcv1s cfg d ev
  | .flush => flush cfg d

def bucketOf (ev : OHLCVEvent) : ℤ := ev.sec / cfg.candleSeconds * cfg.candleSeconds

/-- The bar belongs to a later bucket than the last one. -/
def RollsOver (d : SignalDetector) (ev : OHLCVEvent) : Prop :=
  ∃ activeSec, d.activeSec = some activeSec ∧ activeSec < bucketOf cfg ev

instance (d : SignalDetector) (ev : OHLCVEvent) : Decidable (RollsOver cfg d ev) :=
  match h : d.activeSec with
  | none => isFalse (by simp [RollsOver, h])
  | some activeSec => decidable_of_iff (activeSec < bucketOf cfg ev) (by simp [RollsOver, h])

/-- The candle that the call appends to the history. -/
def finalises (d : SignalDetector) : DetectorCall → Option Candle5s
  | .feed ev => if RollsOver cfg d ev then d.active else none
  | .flush => d.active

/-- The call runs `_detect_on_last`. -/
def Detects (d : SignalDetector) : DetectorCall → Prop
  | .feed ev => RollsOver cfg d ev
  | .flush => d.active.isSome

instance (d : SignalDetector) (c : DetectorCall) : Decidable (Detects cfg d c) :=
  match c with
  | .feed ev => inferInstanceAs (Decidable (RollsOver cfg d ev))
  | .flush => inferInstanceAs (Decidable (d.active.isSome = true))

variable {cfg} {d : SignalDetector} {ev : OHLCVEvent}

/-! ## What a bar does -/

theorem feed_first (h : d.activeSec = none) : feedOhlcv1s cfg d ev = (some [], { d with
    active := some (newBucket (bucketOf cfg ev) ev), activeSec := some (bucketOf cfg ev) }) := by
  unfold feedOhlcv1s
  rw [h]
  rfl

theorem feed_late {activeSec : ℤ} (h : d.activeSec = some activeSec) (hlt : bucketOf cfg ev < activeSec) :
    feedOhlcv1s cfg d ev = (some [], d) := by
  unfold bucketOf at hlt
  unfold feedOhlcv1s
  simp only [h, gt_iff_lt, not_lt_of_gt hlt, if_false, hlt, if_true]

theorem feed_same {activeSec : ℤ} {b : Candle5s} (h : d.activeSec = some activeSec) (heq : bucketOf cfg ev = activeSec)
    (hb : d.active = some b) : feedOhlcv1s cfg d ev = (some [], { d with active := some (mergeBar b ev) }) := by
  unfold bucketOf at heq
  unfold feedOhlcv1s
  simp only [h, heq, gt_iff_lt, lt_irrefl, if_false, hb]

/-- A bar of a later bucket closes the open one, looks at the candle, and opens its own. -/
theorem feed_later {activeSec : ℤ} {b : Candle5s} (h : d.activeSec = some activeSec) (hlt : activeSec < bucketOf cfg ev)
    (hb : d.active = some b) :
    (feedOhlcv1s cfg d ev).1 = detectOnLast cfg (dequeAppend cfg.maxHistory d.candles b) ∧
      ((feedOhlcv1s cfg d ev).1 ≠ none → (feedOhlcv1s cfg d ev).2 =
        ⟨some (bucketOf cfg ev), some (newBucket (bucketOf cfg ev) ev), dequeAppend cfg.maxHistory d.candles b⟩) := by
  unfold bucketOf at hlt
  unfold feedOhlcv1s finalizeActive
  simp only [h, gt_iff_lt, hlt, if_true, hb]
  split
  · rename_i hnone
    exact ⟨hnone.symm, fun hne => absurd rfl hne⟩
  · rename_i out hout
    exact ⟨hout.symm, fun _ => rfl⟩

theorem feed_of_rollsOver (h : RollsOver cfg d ev) :
    (feedOhlcv1s cfg d ev).1 = detectOnLast cfg (finalizeActive cfg d).candles ∧
      (feedOhlcv1s cfg d ev).2.candles = (finalizeActive cfg d).candles := by
  obtain ⟨activeSec, hsec, hlt⟩ := h
  unfold bucketOf at hlt
  unfold feedOhlcv1s
  simp only [hsec, gt_iff_lt, hlt, if_true]
  split
  · rename_i hnone
    exact ⟨hnone.symm, rfl⟩
  · rename_i out hout
    exact ⟨hout.symm, rfl⟩

/-- A bar that does not roll over leaves the history as it is, opens the first bucket or goes into the open one. -/
theorem feed_of_not_rollsOver (h : ¬ RollsOver cfg d ev) :
    (feedOhlcv1s cfg d ev).1 = some [] ∧ (feedOhlcv1s cfg d ev).2.candles = d.candles ∧
      ((feedOhlcv1s cfg d ev).2.active = none →
        (feedOhlcv1s cfg d ev).2.activeSec = d.activeSec ∧ d.active = none) := by
  unfold feedOhlcv1s
  dsimp only
  split
  · exact ⟨rfl, rfl, by simp⟩
  · rename_i activeSec hsec
    have hle : ¬ ev.sec / cfg.candleSeconds * cfg.candleSeconds > activeSec := fun hgt => h ⟨activeSec, hsec, hgt⟩
    rw [if_neg hle]
    split
    · exact ⟨rfl, rfl, fun hnone => ⟨rfl, hnone⟩⟩
    · split
      · rename_i hnone
        exact ⟨rfl, rfl, fun _ => ⟨rfl, hnone⟩⟩
      · exact ⟨rfl, rfl, by simp⟩

theorem finalizeActive_candles (d : SignalDetector) :
    (finalizeActive cfg d).candles = match d.active with
      | none => d.candles
      | some b => dequeAppend cfg.maxHistory d.candles b := by
  unfold finalizeActive
  cases d.active with
  | none => rfl
  | some b => rfl

/-- A call appends the candle that it finalises, and nothing else. -/
theorem call_candles (d : SignalDetector) (c : DetectorCall) :
    (call cfg d c).2.candles = match finalises cfg d c with
      | none => d.candles
      | some b => dequeAppend cfg.maxHistory d.candles b := by
  cases c with
  | feed ev =>
    by_cases h : RollsOver cfg d ev
    · simp only [call, finalises, if_pos h]
      rw [(feed_of_rollsOver h).2, finalizeActive_candles]
    · simp only [call, finalises, if_neg h]
      exact (feed_of_not_rollsOver h).2.1
  | flush =>
    simp only [call, finalises, flush]
    cases hb : d.active with
    | none => rfl
    | some b =>
      simp only
      rw [finalizeActive_candles, hb]

/-- A call returns what `_detect_on_last` finds, or nothing. -/
theorem call_signals (d : SignalDetector) (c : DetectorCall) :
    (call cfg d c).1 = if Detects cfg d c then detectOnLast cfg (call cfg d c).2.candles else some [] := by
  cases c with
  | feed ev =>
    split
    · rename_i h
      exact (feed_of_rollsOver h).1.trans (by rw [← (feed_of_rollsOver h).2]; rfl)
    · rename_i h
      exact (feed_of_not_rollsOver h).1
  | flush =>
    simp only [call, flush]
    split
    · rename_i hnone
      exact (if_neg (by simp [Detects, hnone])).symm
    · rename_i b hb
      exact (if_pos (by simp [Detects, hb])).symm

/-! ## Counting -/

/-- A detector, with the times that each of its candles was looked at, the last candle first. -/
structure DetectorLedger where
  detector : SignalDetector := {}
  counts : List ℕ := []

/-- The last candle is looked at once more. -/
def lookedAt : List ℕ → List ℕ
  | [] => []
  | n :: counts => (n + 1) :: counts

/-- A call appends the candle it finalises, then looks at the last one. -/
def ledgerStep (cfg : DetectorConfig) (s : DetectorLedger) (c : DetectorCall) : DetectorLedger where
  detector := (call cfg s.detector c).2
  counts :=
    let counts := if (finalises cfg s.detector c).isSome then 0 :: s.counts else s.counts
    if Detects cfg s.detector c then lookedAt counts else counts

/-- After the call each candle was looked at once, and if the call appended none, it returned no signals. -/
structure AnalysedOnce (cfg : DetectorConfig) (s : DetectorLedger) (c : DetectorCall) : Prop where
  once : ∀ n ∈ (ledgerStep cfg s c).counts, n = 1
  silent : finalises cfg s.detector c = none → (call cfg s.detector c).1 = some []

/-- A bar that rolls over finds the last bucket still open. -/
def StillOpen (cfg : DetectorConfig) (s : DetectorLedger) : DetectorCall → Prop
  | .feed ev => RollsOver cfg s.detector ev → s.detector.active ≠ none
  | .flush => True

/-- A bucket that is not open any more was appended, and each candle was looked at once. -/
structure Kept (s : DetectorLedger) : Prop where
  closed : s.detector.activeSec ≠ none → s.detector.active = none → s.counts ≠ []
  once : ∀ n ∈ s.counts, n = 1

theorem kept_init : Kept {} := ⟨fun h => absurd rfl h, fun _ hn => absurd hn List.not_mem_nil⟩

section Steps
variable {s : DetectorLedger} {c : DetectorCall}

/-- Where the last bucket is open, a call looks at the history when it appends to it. -/
theorem detects_iff (h : StillOpen cfg s c) : Detects cfg s.detector c ↔ (finalises cfg s.detector c).isSome := by
  cases c with
  | flush => exact Iff.rfl
  | feed ev =>
    simp only [Detects, finalises]
    split
    · rename_i hroll
      exact ⟨fun _ => Option.isSome_iff_ne_none.mpr (h hroll), fun _ => hroll⟩
    · rename_i hroll
      simp [hroll]

theorem counts_of_stillOpen (h : StillOpen cfg s c) :
    (ledgerStep cfg s c).counts = if (finalises cfg s.detector c).isSome then 1 :: s.counts else s.counts := by
  simp only [ledgerStep, detects_iff h]
  split <;> rfl

/-- The last bucket stays open, unless the call appended a candle. -/
theorem closed_step (h : Kept s) (hopen : StillOpen cfg s c) :
    (ledgerStep cfg s c).detector.activeSec ≠ none → (ledgerStep cfg s c).detector.active = none →
      (ledgerStep cfg s c).counts ≠ [] := by
  intro hsec hactive
  rw [counts_of_stillOpen hopen]
  split
  · exact List.cons_ne_nil _ _
  rename_i hnone
  cases c with
  | flush =>
    have hd : s.detector.active = none := by simpa [finalises] using hnone
    refine h.closed ?_ hd
    simpa [ledgerStep, call, flush, hd] using hsec
  | feed ev =>
    by_cases hroll : RollsOver cfg s.detector ev
    · have hopen' := hopen hroll
      simp only [finalises, if_pos hroll, Option.not_isSome_iff_eq_none] at hnone
      exact absurd hnone hopen'
    · obtain ⟨hsame, hd⟩ := (feed_of_not_rollsOver hroll).2.2 hactive
      refine h.closed ?_ hd
      intro hnone'
      exact hsec (hsame.trans hnone')

theorem kept_step (h : Kept s) (hopen : StillOpen cfg s c) : Kept (ledgerStep cfg s c) ∧ AnalysedOnce cfg s c := by
  have honce : ∀ n ∈ (ledgerStep cfg s c).counts, n = 1 := by
    intro n hn
    rw [counts_of_stillOpen hopen] at hn
    split at hn
    · rcases List.mem_cons.mp hn with rfl | hn
      · rfl
      · exact h.once n hn
    · exact h.once n hn
  refine ⟨⟨closed_step h hopen, honce⟩, honce, fun hnone => ?_⟩
  have hidle : ¬ Detects cfg s.detector c := by
    rw [detects_iff hopen, hnone]
    simp
  rw [call_signals, if_neg hidle]

/-- A bar that rolls over a closed bucket has the last candle looked at again. -/
theorem not_once (h : Kept s) (hno : ¬ StillOpen cfg s c) : ¬ AnalysedOnce cfg s c := by
  intro honce
  cases c with
  | flush => exact hno trivial
  | feed ev =>
    simp only [StillOpen, Classical.not_imp, ne_eq, not_not] at hno
    obtain ⟨hroll, hactive⟩ := hno
    have hsec : s.detector.activeSec ≠ none := by
      obtain ⟨activeSec, hsec, -⟩ := hroll
      simp [hsec]
    have hagain : (ledgerStep cfg s (.feed ev)).counts = lookedAt s.counts := by
      simp [ledgerStep, Detects, finalises, hroll, hactive]
    have hcounts := h.closed hsec hactive
    have hone := h.once
    have htwo := honce.once
    rw [hagain] at htwo
    cases hc : s.counts with
    | nil => exact hcounts hc
    | cons n counts =>
      rw [hc] at hone htwo
      have hn := hone n List.mem_cons_self
      have hn' := htwo (n + 1) List.mem_cons_self
      omega

end Steps

/-- **Each candle is looked at once** in exactly the runs of calls in which no bar rolls over a bucket that was
closed before. -/
theorem analysedOnce_iff_stillOpen (cfg : DetectorConfig) (calls : List DetectorCall) :
    Runs.Guarded (AnalysedOnce cfg) (ledgerStep cfg) {} calls ↔
      Runs.Guarded (StillOpen cfg) (ledgerStep cfg) {} calls :=
  Runs.guarded_iff_guarded (I := Kept) kept_init (fun _ _ _ h hok => kept_step h hok) fun _ _ _ h hno => not_once h hno

/-- A bar with one price. -/
def flatBar (sec : ℤ) (price : ℚ) : OHLCVEvent :=
  { sec := sec, tsMs := sec * 1000, «open» := price, high := price, low := price, close := price }

/-- Three candles with a gap, flushed; then a bar of a fourth. -/
def flushedGap : List DetectorCall :=
  [.feed (flatBar 0 100), .feed (flatBar 5 101), .feed (flatBar 10 102), .flush, .feed (flatBar 15 103)]

/-- The bar brings the signals of the flush a second time. -/
theorem not_analysedOnce_flushedGap : ¬ ∀ calls : List DetectorCall,
    Runs.Guarded (AnalysedOnce {}) (ledgerStep {}) {} calls := by
  intro hall
  have hstep := hall flushedGap (flushedGap.take 4) (.feed (flatBar 15 103)) (List.prefix_refl _)
  exact absurd (hstep.silent (by decide +kernel)) (by decide +kernel)

end MikoV2.Backtest
