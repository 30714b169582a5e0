import Mathlib.Data.Rat.Defs
import Mathlib.Tactic.Common

/-!
# Gaps and completeness of the bars of a symbol

* `gapsOf` : the pairs of neighbouring seconds that are too far apart; `analyzeOhlcvSecs` : the report;
* `gapsOf_eq_nil_iff` : there is no gap when no second is more than the interval after the one before it.
-/

namespace MikoV2.Backtest

structure DataQualityReport where
  symbol : String
  spanSec : ℤ
  sampleCount : ℕ
  expectedCount : ℤ
  completeness : ℚ
  gapCount : ℕ
  maxGapSec : ℤ
  gaps : List (ℤ × ℤ)
deriving DecidableEq

/-- The neighbours further apart than the interval. -/
def gapsOf (interval : ℤ) : List ℤ → List (ℤ × ℤ)
  | a :: b :: secs => if b - a > interval then (a, b) :: gapsOf interval (b :: secs) else gapsOf interval (b :: secs)
  | _ => []

/-- `analyze_ohlcv_secs(symbol, secs, expected_interval_sec=…)`, for an interval that is not zero. -/
def analyzeOhlcvSecs (symbol : String) (secs : List ℤ) (expectedIntervalSec : ℤ := 1) : DataQualityReport :=
  match secs.head?, secs.getLast? with
  | some first, some last =>
    let span := last - first
    let expected := if span ≥ 0 then span.fdiv expectedIntervalSec + 1 else 0
    let gaps := gapsOf expectedIntervalSec secs
    { symbol
      spanSec := span
      sampleCount := secs.length
      expectedCount := expected
      completeness := if expected > 0 then secs.length / expected else 0
      gapCount := gaps.length
      maxGapSec := gaps.foldl (fun m g => max m (g.2 - g.1)) 0
      gaps }
  | _, _ => ⟨symbol, 0, 0, 0, 0, 0, 0, []⟩

theorem gapsOf_eq_nil_iff (interval : ℤ) : ∀ secs : List ℤ,
    gapsOf interval secs = [] ↔ secs.IsChain fun a b => b - a ≤ interval
  | [] => by simp [gapsOf]
  | [a] => by simp [gapsOf]
  | a :: b :: secs => by
    have ih := gapsOf_eq_nil_iff interval (b :: secs)
    rw [List.isChain_cons_cons, gapsOf]
    by_cases hgap : b - a > interval
    · rw [if_pos hgap]
      refine iff_of_false (List.cons_ne_nil _ _) fun h => ?_
      have hnear := h.1
      omega
    · rw [if_neg hgap, ih]
      have hnear : b - a ≤ interval := by omega
      exact (and_iff_right hnear).symm

end MikoV2.Backtest
