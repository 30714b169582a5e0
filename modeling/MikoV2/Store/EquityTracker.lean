import Mathlib.Algebra.BigOperators.Group.List.Basic
import Mathlib.Algebra.Order.Ring.Rat
import MikoV2.Store.Positions

/-!
# The equity tracker

A snapshot marks the open rows of the positions table to market: `gain` is what a position of a given size has
gained, `unrealized` the sum over the rows at their remaining quantity, `computeSnapshot` the record that is
written to `equity_snapshots`.
-/

namespace MikoV2.Store

structure EquityTrackerConfig where
  baseBalance : ℚ := 1000

structure EquityTracker where
  realizedToday : ℚ := 0
  peakEquity : ℚ

structure EquitySnapshot where
  tsMs : ℤ
  balance : ℚ
  equity : ℚ
  unrealizedPnl : ℚ
  realizedToday : ℚ
  drawdownPct : ℚ
  openPositions : ℕ
  deriving DecidableEq

/-- What `qty` of a position has gained at its mark; nothing when the cache has no mark. -/
def gain (row : PositionRow) (mark : Option ℚ) (qty : ℚ) : ℚ :=
  match mark with
  | none => 0
  | some entry => if row.side = "LONG" then (entry - row.avg) * qty else (row.avg - entry) * qty

/-- The sum over the rows, each with the mark that the cache gave for its symbol. -/
def unrealized (rows : List (PositionRow × Option ℚ)) : ℚ := (rows.map fun r => gain r.1 r.2 r.1.qtyRemaining).sum

/-- `compute_snapshot`; `rows` is `none` when `list_open_positions` raises. -/
def computeSnapshot (cfg : EquityTrackerConfig) (t : EquityTracker) (rows : Option (List (PositionRow × Option ℚ)))
    (nowMs : ℤ) : Option EquitySnapshot × EquityTracker :=
  match rows with
  | none => (none, t)
  | some rows =>
    let equity := cfg.baseBalance + t.realizedToday + unrealized rows
    let peak := max t.peakEquity equity
    (some {
      tsMs := nowMs
      balance := cfg.baseBalance + t.realizedToday
      equity := equity
      unrealizedPnl := unrealized rows
      realizedToday := t.realizedToday
      drawdownPct := if 0 < peak then (peak - equity) / peak else 0
      openPositions := rows.length }, { t with peakEquity := peak })

/-- Rows at the quantity `qty` are marked at it. -/
theorem unrealized_eq {ι : Type} (opens : List (ι × PositionRow × Option ℚ)) (qty : ι → ℚ)
    (h : ∀ x ∈ opens, x.2.1.qtyRemaining = qty x.1) :
    unrealized (opens.map (·.2)) = (opens.map fun x => gain x.2.1 x.2.2 (qty x.1)).sum := by
  unfold unrealized
  rw [List.map_map]
  refine congrArg List.sum (List.map_congr_left fun x hx => ?_)
  simp only [Function.comp, h x hx]

end MikoV2.Store
