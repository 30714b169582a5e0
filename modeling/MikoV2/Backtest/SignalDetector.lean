import MikoV2.Backtest.ReplayTransport

/-!
# `SignalDetector`

1 s bars are merged into candles of `candle_seconds`; each finished candle is looked at once.

* `feedOhlcv1s`, `flush` : the two entry points; `none` for signals is the `ZeroDivisionError` of `_detect_fvg`;
* `detectSweep`, `detectMss`, `detectFvg`, `detectOte` : the four detectors, on the history of candles;
* `Nonzero` : no candle closed at zero; `Nonzero.feed` : while no bar does, no feed raises.
-/

namespace MikoV2.Backtest

inductive SignalKind
  | SWEEP_UP
  | SWEEP_DOWN
  | MSS_UP
  | MSS_DOWN
  | FVG_BULLISH
  | FVG_BEARISH
  | OTE_LONG
  | OTE_SHORT
deriving DecidableEq, Repr

structure Candle5s where
  sec : ℤ
  tsMs : ℤ
  «open» : ℚ
  high : ℚ
  low : ℚ
  close : ℚ
  buyVol : ℚ
  sellVol : ℚ
  tradeCount : ℕ
deriving DecidableEq

structure Signal where
  kind : SignalKind
  tsMs : ℤ
  price : ℚ
  size : ℚ := 0
deriving DecidableEq

structure DetectorConfig where
  candleSeconds : ℕ := 5
  sweepLookback : ℕ := 20
  sweepWickRatio : ℚ := 6 / 10
  mssLookback : ℕ := 10
  fvgMinSizePct : ℚ := 5 / 10000
  oteLow : ℚ := 62 / 100
  oteHigh : ℚ := 79 / 100
  oteLookback : ℕ := 20
  maxHistory : ℕ := 300
  candleSeconds_pos : 0 < candleSeconds := by decide

/-- `active` is the open bucket; `candles` the history, oldest first. -/
structure SignalDetector where
  activeSec : Option ℤ := none
  active : Option Candle5s := none
  candles : List Candle5s := []
deriving DecidableEq

/-- `append` on a `deque(maxlen=…)`, oldest first. -/
def dequeAppend {α : Type} (maxlen : ℕ) (dq : List α) (x : α) : List α :=
  (dq ++ [x]).drop (dq.length + 1 - maxlen)

variable (cfg : DetectorConfig)

/-! ## Detectors -/

/-- `max` of a nonempty window. -/
def maxOf (f : Candle5s → ℚ) (c : Candle5s) (window : List Candle5s) : ℚ :=
  window.foldl (fun m x => max m (f x)) (f c)

def minOf (f : Candle5s → ℚ) (c : Candle5s) (window : List Candle5s) : ℚ :=
  window.foldl (fun m x => min m (f x)) (f c)

/-- `list(candles)[-lookback - 1 : -1]`, when there are that many. -/
def lookbackWindow (lookback : ℕ) (candles : List Candle5s) : List Candle5s :=
  if candles.length < lookback + 1 then []
  else (candles.drop (candles.length - (lookback + 1))).dropLast

def detectSweep (candles : List Candle5s) (c : Candle5s) : List Signal :=
  match lookbackWindow cfg.sweepLookback candles with
  | [] => []
  | w :: window =>
    let prevHigh := maxOf Candle5s.high w window
    let prevLow := minOf Candle5s.low w window
    let rng := c.high - c.low
    if rng ≤ 0 then []
    else
      let wickUp := c.high - max c.open c.close
      let wickDown := min c.open c.close - c.low
      (if prevHigh < c.high ∧ c.close < prevHigh ∧ cfg.sweepWickRatio ≤ wickUp / rng then
        [⟨.SWEEP_UP, c.tsMs, c.high, c.high - prevHigh⟩] else []) ++
      (if c.low < prevLow ∧ prevLow < c.close ∧ cfg.sweepWickRatio ≤ wickDown / rng then
        [⟨.SWEEP_DOWN, c.tsMs, c.low, prevLow - c.low⟩] else [])

def detectMss (candles : List Candle5s) (c : Candle5s) : List Signal :=
  match lookbackWindow cfg.mssLookback candles, candles.dropLast.getLast? with
  | w :: window, some prev =>
    let mid := (maxOf Candle5s.high w window + minOf Candle5s.low w window) / 2
    (if prev.close ≤ mid ∧ mid < c.close then [⟨.MSS_UP, c.tsMs, c.close, c.close - mid⟩] else []) ++
    (if mid ≤ prev.close ∧ c.close < mid then [⟨.MSS_DOWN, c.tsMs, c.close, mid - c.close⟩] else [])
  | _, _ => []

/-- `size / c2.close` is reached only across a gap, and raises for a middle candle that closed at zero. -/
def detectFvg (candles : List Candle5s) : Option (List Signal) :=
  match candles.reverse with
  | c3 :: c2 :: c1 :: _ =>
    if (c1.high < c3.low ∨ c3.high < c1.low) ∧ c2.close = 0 then none
    else
      some <|
        (if c1.high < c3.low ∧ cfg.fvgMinSizePct ≤ (c3.low - c1.high) / c2.close then
          [⟨.FVG_BULLISH, c3.tsMs, (c1.high + c3.low) / 2, c3.low - c1.high⟩] else []) ++
        (if c3.high < c1.low ∧ cfg.fvgMinSizePct ≤ (c1.low - c3.high) / c2.close then
          [⟨.FVG_BEARISH, c3.tsMs, (c1.low + c3.high) / 2, c1.low - c3.high⟩] else [])
  | _ => some []

def detectOte (candles : List Candle5s) (c : Candle5s) : List Signal :=
  match lookbackWindow cfg.oteLookback candles with
  | [] => []
  | w :: window =>
    let hi := maxOf Candle5s.high w window
    let lo := minOf Candle5s.low w window
    let span := hi - lo
    if span ≤ 0 then []
    else
      (if hi - cfg.oteHigh * span ≤ c.close ∧ c.close ≤ hi - cfg.oteLow * span then
        [⟨.OTE_LONG, c.tsMs, c.close, span⟩] else []) ++
      (if lo + cfg.oteLow * span ≤ c.close ∧ c.close ≤ lo + cfg.oteHigh * span then
        [⟨.OTE_SHORT, c.tsMs, c.close, span⟩] else [])

def detectOnLast (candles : List Candle5s) : Option (List Signal) :=
  match candles.getLast? with
  | none => some []
  | some c => (detectFvg cfg candles).map fun fvg =>
      detectSweep cfg candles c ++ detectMss cfg candles c ++ fvg ++ detectOte cfg candles c

/-! ## Feeding -/

def newBucket (sec : ℤ) (ev : OHLCVEvent) : Candle5s :=
  ⟨sec, sec * 1000, ev.open, ev.high, ev.low, ev.close, ev.buyVol, ev.sellVol, ev.tradeCount⟩

def finalizeActive (d : SignalDetector) : SignalDetector :=
  match d.active with
  | none => d
  | some b => { d with candles := dequeAppend cfg.maxHistory d.candles b, active := none }

/-- A bar of the open bucket. -/
def mergeBar (b : Candle5s) (ev : OHLCVEvent) : Candle5s :=
  { b with
    high := max b.high ev.high
    low := min b.low ev.low
    close := ev.close
    buyVol := b.buyVol + ev.buyVol
    sellVol := b.sellVol + ev.sellVol
    tradeCount := b.tradeCount + ev.tradeCount }

def feedOhlcv1s (d : SignalDetector) (ev : OHLCVEvent) : Option (List Signal) × SignalDetector :=
  let bucketSec := ev.sec / cfg.candleSeconds * cfg.candleSeconds
  match d.activeSec with
  | none => (some [], { d with active := some (newBucket bucketSec ev), activeSec := some bucketSec })
  | some activeSec =>
    if bucketSec > activeSec then
      let d := finalizeActive cfg d
      match detectOnLast cfg d.candles with
      | none => (none, d)
      | some out => (some out, { d with active := some (newBucket bucketSec ev), activeSec := some bucketSec })
    else if bucketSec < activeSec then (some [], d)
    else
      match d.active with
      | none => (some [], d)
      | some b => (some [], { d with active := some (mergeBar b ev) })

def flush (d : SignalDetector) : Option (List Signal) × SignalDetector :=
  match d.active with
  | none => (some [], d)
  | some _ =>
    let d := finalizeActive cfg d
    (detectOnLast cfg d.candles, d)

/-! ## Bars that do not close at zero -/

variable {cfg}

theorem detectFvg_isSome (cfg : DetectorConfig) {candles : List Candle5s} (h : ∀ c ∈ candles, c.close ≠ 0) :
    ∃ out, detectFvg cfg candles = some out := by
  unfold detectFvg
  split
  · rename_i c3 c2 c1 rest hrev
    have hmem : c2 ∈ candles := by
      rw [← List.mem_reverse, hrev]
      exact List.mem_cons_of_mem _ List.mem_cons_self
    rw [if_neg fun hzero => h c2 hmem hzero.2]
    exact ⟨_, rfl⟩
  · exact ⟨[], rfl⟩

/-- No middle candle closed at zero, so no division raises. -/
theorem detectOnLast_isSome (cfg : DetectorConfig) {candles : List Candle5s} (h : ∀ c ∈ candles, c.close ≠ 0) :
    ∃ out, detectOnLast cfg candles = some out := by
  unfold detectOnLast
  split
  · exact ⟨[], rfl⟩
  · obtain ⟨out, hout⟩ := detectFvg_isSome cfg h
    rw [hout]
    exact ⟨_, rfl⟩

structure Nonzero (d : SignalDetector) : Prop where
  candles : ∀ c ∈ d.candles, c.close ≠ 0
  active : ∀ b, d.active = some b → b.close ≠ 0

theorem Nonzero.init : Nonzero {} := by
  refine ⟨fun c hc => ?_, fun b hb => ?_⟩
  · cases hc
  · cases hb

theorem Nonzero.finalizeActive (cfg : DetectorConfig) {d : SignalDetector} (h : Nonzero d) :
    Nonzero (finalizeActive cfg d) := by
  unfold Backtest.finalizeActive
  split
  · exact h
  · rename_i b hb
    refine ⟨fun c hc => ?_, fun a ha => ?_⟩
    · rcases List.mem_append.mp (List.mem_of_mem_drop hc) with hc | hc
      · exact h.candles c hc
      · rw [List.mem_singleton.mp hc]
        exact h.active b hb
    · cases ha

theorem Nonzero.feed (cfg : DetectorConfig) {d : SignalDetector} {ev : OHLCVEvent} (h : Nonzero d) (hev : ev.close ≠ 0) :
    ∃ out d', feedOhlcv1s cfg d ev = (some out, d') ∧ Nonzero d' := by
  have hopen : ∀ (d : SignalDetector) (sec : ℤ) (activeSec : Option ℤ), Nonzero d →
      Nonzero { d with active := some (newBucket sec ev), activeSec } := by
    intro d sec activeSec hd
    refine ⟨hd.candles, fun b hb => ?_⟩
    cases hb
    exact hev
  unfold feedOhlcv1s
  dsimp only
  split
  · exact ⟨_, _, rfl, hopen d _ _ h⟩
  · rename_i activeSec hsec
    split
    · obtain ⟨out, hout⟩ := detectOnLast_isSome cfg (h.finalizeActive cfg).candles
      rw [hout]
      exact ⟨_, _, rfl, hopen _ _ _ (h.finalizeActive cfg)⟩
    · split
      · exact ⟨_, _, rfl, h⟩
      · split
        · exact ⟨_, _, rfl, h⟩
        · refine ⟨_, _, rfl, h.candles, fun b hb => ?_⟩
          cases hb
          exact hev

end MikoV2.Backtest
