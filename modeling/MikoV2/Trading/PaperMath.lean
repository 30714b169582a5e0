import Mathlib.Algebra.BigOperators.Group.List.Basic
import Mathlib.Algebra.Order.Ring.Rat
import Mathlib.Tactic.Common

/-!
# `src/trading/paper_math.py`

The formulas of the paper trader, over exact rationals: a price, a quantity or a fee of the source is a
finite float, and `None`, NaN and the infinities are `none` where the source tests for them.

* `nextFundingTsMs` : the next funding boundary, `lt_nextFundingTsMs` : it is later than its argument;
* `computeAtr` : the average true range, `none` until there are `period + 1` candles.
-/

namespace MikoV2.PaperMath

inductive Direction
  | LONG
  | SHORT
deriving DecidableEq, Repr

inductive ExitReason
  | TP
  | SL
  | END_OF_BACKTEST
deriving DecidableEq, Repr

open Direction ExitReason

def applyEntrySlippage (lastPrice : ℚ) (direction : Direction) (slippageBps : ℚ) : ℚ :=
  if lastPrice ≤ 0 then 0
  else
    let pct := slippageBps / 10000
    if direction = LONG then lastPrice * (1 + pct) else lastPrice * (1 - pct)

def computeSlDistance (atr price slAtrMultiplier maxSlDistancePct minSlDistancePct : ℚ) : ℚ :=
  if atr ≤ 0 ∨ price ≤ 0 then 0
  else
    let raw := slAtrMultiplier * atr
    let cap := maxSlDistancePct * price
    let floor := minSlDistancePct * price
    max (min raw cap) floor

def computeSlPrice (entryFill slDistance : ℚ) (direction : Direction) : ℚ :=
  if direction = LONG then entryFill - slDistance else entryFill + slDistance

def computeTpPrice (entryFill slDistance tpRMultiple : ℚ) (direction : Direction) : ℚ :=
  if direction = LONG then entryFill + tpRMultiple * slDistance else entryFill - tpRMultiple * slDistance

def computeQty (equity riskPct slDistance : ℚ) : ℚ :=
  if slDistance ≤ 0 ∨ equity ≤ 0 then 0 else equity * riskPct / slDistance

def computeEntryFee (entryFill qty feeTaker : ℚ) : ℚ := entryFill * qty * feeTaker

def computeExitFee (exitPrice qty feeTaker feeMaker : ℚ) (exitReason : ExitReason) : ℚ :=
  exitPrice * qty * (if exitReason = TP then feeMaker else feeTaker)

def computePnlGross (entryFill exitPrice qty : ℚ) (direction : Direction) : ℚ :=
  if direction = LONG then (exitPrice - entryFill) * qty else (entryFill - exitPrice) * qty

def computeRMultiple (entryFill exitPrice slPrice : ℚ) (direction : Direction) : ℚ :=
  let rDist := |entryFill - slPrice|
  if rDist ≤ 0 then 0
  else if direction = LONG then (exitPrice - entryFill) / rDist else (entryFill - exitPrice) / rDist

/-- What `compute_atr` reads of a candle. -/
structure Bar where
  high : ℚ
  low : ℚ
  close : ℚ

def trueRange (prev cur : Bar) : ℚ :=
  max (max (cur.high - cur.low) |cur.high - prev.close|) |cur.low - prev.close|

def computeAtr (candles : List Bar) (atrPeriod : ℕ) : Option ℚ :=
  if candles.length < atrPeriod + 1 then none
  else
    -- candle `start - 1` and the `atrPeriod` candles after it
    let window := candles.drop (candles.length - atrPeriod - 1)
    match List.zipWith trueRange window window.tail with
    | [] => none
    | trs => some (trs.sum / trs.length)

def computeFundingDelta (rate notional : ℚ) (direction : Direction) : ℚ :=
  let signed := rate * notional
  if direction = LONG then signed else -signed

def hourMs : ℤ := 3600000
def dayMs : ℤ := 86400000

/-- The next 00/08/16 UTC boundary after `tsMs + 1`. The source looks at the hour of that instant only. -/
def nextFundingTsMs (tsMs : ℤ) : ℤ :=
  let dt := tsMs + 1
  let day := dt / dayMs
  let hour := dt % dayMs / hourMs
  match [0, 8, 16].find? fun h => decide (hour < h) with
  | some h => day * dayMs + h * hourMs
  | none => (day + 1) * dayMs

theorem lt_nextFundingTsMs (tsMs : ℤ) : tsMs < nextFundingTsMs tsMs := by
  unfold nextFundingTsMs
  dsimp only
  split
  · rename_i h hf
    have hh := List.find?_some hf
    rw [decide_eq_true_eq] at hh
    simp only [dayMs, hourMs] at hh ⊢
    omega
  · simp only [dayMs]
    omega

end MikoV2.PaperMath
