import MikoV2.Backtest.FillModel

/-!
# The ratio of reward and risk

The live check infers the direction of a trade from `tp` and measures the risk in it. The backtest takes absolute
values.

* `computeRr` : the live check; `StopRight`, `StopWrong` : on which side of the entry the stop is;
* `computeRr_right`, `computeRr_wrong`, `checkRr_eq` : what the two return;
* `RrAgree` : both checks say the same; `rrAgree_iff` : the trades for which they do.
-/

namespace MikoV2.Parity
open Backtest Backtest.FillModel

/-- `compute_rr` -/
def computeRr (entry tp sl feeTaker feeMaker : ℚ) : ℚ :=
  let grossProfit := if tp > entry then tp - entry else entry - tp
  let grossLoss := if tp > entry then entry - sl else sl - entry
  if grossLoss ≤ 0 then 0
  else
    let totalFee := entry * feeTaker + tp * feeMaker
    let netProfit := grossProfit - totalFee
    let netLoss := grossLoss + totalFee
    if netLoss ≤ 0 then 0 else netProfit / netLoss

/-- The stop is where the trade loses: below the entry of one that wins above it, else above. -/
def StopRight (entry tp sl : ℚ) : Prop := if tp > entry then sl < entry else entry < sl

def StopWrong (entry tp sl : ℚ) : Prop := if tp > entry then entry < sl else sl < entry

/-- The fees of both orders. -/
def totalFee (entry tp feeTaker feeMaker : ℚ) : ℚ := entry * feeTaker + tp * feeMaker

/-- Both checks go on to a ratio. -/
structure BothWellFormed (entry tp sl feeTaker feeMaker : ℚ) : Prop where
  live : 0 < if tp > entry then entry - sl else sl - entry
  liveNet : 0 < (if tp > entry then entry - sl else sl - entry) + totalFee entry tp feeTaker feeMaker
  backtest : 0 < |entry - sl|
  backtestNet : 0 < |entry - sl| + totalFee entry tp feeTaker feeMaker

structure RrAgree (cfg : FillModelConfig) (entry tp sl feeTaker feeMaker : ℚ) : Prop where
  passes : (checkRr cfg entry tp sl feeTaker feeMaker).1 = true ↔ cfg.rrMin ≤ computeRr entry tp sl feeTaker feeMaker
  ratio : BothWellFormed entry tp sl feeTaker feeMaker →
    (checkRr cfg entry tp sl feeTaker feeMaker).2 = computeRr entry tp sl feeTaker feeMaker
  rejected : StopWrong entry tp sl →
    (checkRr cfg entry tp sl feeTaker feeMaker).1 = false ∧ computeRr entry tp sl feeTaker feeMaker < cfg.rrMin

section Ratio
variable {cfg : FillModelConfig} {entry tp sl feeTaker feeMaker : ℚ}

/-- The ratio of the backtest, over the absolute distance of the stop. -/
theorem checkRr_eq (hfee : 0 ≤ totalFee entry tp feeTaker feeMaker) (hstop : sl ≠ entry) :
    checkRr cfg entry tp sl feeTaker feeMaker =
      (decide (cfg.rrMin * (|entry - sl| + totalFee entry tp feeTaker feeMaker) ≤
          |tp - entry| - totalFee entry tp feeTaker feeMaker),
        (|tp - entry| - totalFee entry tp feeTaker feeMaker) / (|entry - sl| + totalFee entry tp feeTaker feeMaker)) := by
  have hloss : 0 < |entry - sl| := abs_pos.mpr (sub_ne_zero.mpr hstop.symm)
  have hnet : 0 < |entry - sl| + (entry * feeTaker + tp * feeMaker) := add_pos_of_pos_of_nonneg hloss hfee
  unfold checkRr totalFee
  dsimp only
  rw [if_neg (not_le.mpr hloss), if_neg (not_le.mpr hnet)]
  simp only [le_div_iff₀ hnet]

theorem checkRr_entry : checkRr cfg entry tp entry feeTaker feeMaker = (false, 0) := by
  unfold checkRr
  dsimp only
  rw [sub_self, abs_zero, if_pos le_rfl]

/-- With the stop on the right side, the live check takes the same ratio. -/
theorem computeRr_right (hfee : 0 ≤ totalFee entry tp feeTaker feeMaker) (hright : StopRight entry tp sl) :
    computeRr entry tp sl feeTaker feeMaker =
      (|tp - entry| - totalFee entry tp feeTaker feeMaker) / (|entry - sl| + totalFee entry tp feeTaker feeMaker) := by
  unfold StopRight at hright
  unfold computeRr totalFee at *
  dsimp only
  by_cases hlong : tp > entry
  · rw [if_pos hlong] at hright
    have hloss : 0 < entry - sl := sub_pos.mpr hright
    have hnet : 0 < entry - sl + (entry * feeTaker + tp * feeMaker) := add_pos_of_pos_of_nonneg hloss hfee
    rw [if_pos hlong, if_pos hlong, if_neg (not_le.mpr hloss), if_neg (not_le.mpr hnet), abs_of_pos hloss,
      abs_of_pos (sub_pos.mpr hlong)]
  · rw [if_neg hlong] at hright
    have hloss : 0 < sl - entry := sub_pos.mpr hright
    have hnet : 0 < sl - entry + (entry * feeTaker + tp * feeMaker) := add_pos_of_pos_of_nonneg hloss hfee
    rw [if_neg hlong, if_neg hlong, if_neg (not_le.mpr hloss), if_neg (not_le.mpr hnet), abs_sub_comm entry sl,
      abs_of_pos hloss, abs_sub_comm tp entry, abs_of_nonneg (sub_nonneg.mpr (not_lt.mp hlong))]

theorem computeRr_wrong (hwrong : ¬ StopRight entry tp sl) : computeRr entry tp sl feeTaker feeMaker = 0 := by
  unfold StopRight at hwrong
  unfold computeRr
  dsimp only
  refine if_pos ?_
  split at hwrong
  · rename_i hlong
    rw [if_pos hlong]
    exact sub_nonpos.mpr (not_lt.mp hwrong)
  · rename_i hshort
    rw [if_neg hshort]
    exact sub_nonpos.mpr (not_lt.mp hwrong)

/-- The stop is on one of the sides, or at the entry. -/
theorem stop_cases (entry tp sl : ℚ) :
    (StopRight entry tp sl ∧ ¬ StopWrong entry tp sl ∧ sl ≠ entry) ∨
      (StopWrong entry tp sl ∧ ¬ StopRight entry tp sl ∧ sl ≠ entry) ∨
        (sl = entry ∧ ¬ StopRight entry tp sl ∧ ¬ StopWrong entry tp sl) := by
  unfold StopRight StopWrong
  rcases lt_trichotomy sl entry with hlt | rfl | hgt
  · split
    · exact Or.inl ⟨hlt, hlt.not_gt, hlt.ne⟩
    · exact Or.inr (Or.inl ⟨hlt, hlt.not_gt, hlt.ne⟩)
  · refine Or.inr (Or.inr ⟨rfl, ?_, ?_⟩)
    · split <;> exact lt_irrefl _
    · split <;> exact lt_irrefl _
  · split
    · exact Or.inr (Or.inl ⟨hgt, hgt.not_gt, hgt.ne'⟩)
    · exact Or.inl ⟨hgt, hgt.not_gt, hgt.ne'⟩

end Ratio

/-- **The checks agree** when the stop is on the right side, or when the least ratio is positive and the trade has no
risk, or misses the ratio over the absolute distance as well. -/
theorem rrAgree_iff {cfg : FillModelConfig} {entry tp sl feeTaker feeMaker : ℚ} (hentry : 0 < entry) (htp : 0 < tp)
    (htaker : 0 ≤ feeTaker) (hmaker : 0 ≤ feeMaker) :
    RrAgree cfg entry tp sl feeTaker feeMaker ↔
      StopRight entry tp sl ∨ (0 < cfg.rrMin ∧ (sl = entry ∨ |tp - entry| - totalFee entry tp feeTaker feeMaker <
        cfg.rrMin * (|entry - sl| + totalFee entry tp feeTaker feeMaker))) := by
  have hfee : 0 ≤ totalFee entry tp feeTaker feeMaker :=
    add_nonneg (mul_nonneg hentry.le htaker) (mul_nonneg htp.le hmaker)
  rcases stop_cases entry tp sl with ⟨hright, hnot, hne⟩ | ⟨hwrong, hnot, hne⟩ | ⟨rfl, hnot, hnot'⟩
  · refine iff_of_true ⟨?_, fun _ => ?_, fun hwrong => absurd hwrong hnot⟩ (Or.inl hright)
    · have hnet : 0 < |entry - sl| + totalFee entry tp feeTaker feeMaker :=
        add_pos_of_pos_of_nonneg (abs_pos.mpr (sub_ne_zero.mpr hne.symm)) hfee
      rw [checkRr_eq hfee hne, computeRr_right hfee hright, le_div_iff₀ hnet, decide_eq_true_eq]
    · rw [checkRr_eq hfee hne, computeRr_right hfee hright]
  · rw [or_iff_right hnot, or_iff_right hne]
    have hlive : computeRr entry tp sl feeTaker feeMaker = 0 := computeRr_wrong hnot
    constructor
    · intro h
      obtain ⟨hback, hmin⟩ := h.rejected hwrong
      rw [checkRr_eq hfee hne, decide_eq_false_iff_not, not_le] at hback
      exact ⟨hlive ▸ hmin, hback⟩
    · rintro ⟨hmin, hless⟩
      have hback : (checkRr cfg entry tp sl feeTaker feeMaker).1 = false := by
        rw [checkRr_eq hfee hne, decide_eq_false_iff_not, not_le]
        exact hless
      refine ⟨?_, fun hboth => ?_, fun _ => ⟨hback, hlive.symm ▸ hmin⟩⟩
      · rw [hback, hlive]
        exact iff_of_false Bool.false_ne_true (not_le.mpr hmin)
      · have hlive' := hboth.live
        unfold StopRight at hnot
        split at hnot
        · rename_i hlong
          rw [if_pos hlong] at hlive'
          exact absurd (sub_pos.mp hlive') hnot
        · rename_i hshort
          rw [if_neg hshort] at hlive'
          exact absurd (sub_pos.mp hlive') hnot
  · rw [or_iff_right hnot]
    have hlive : computeRr sl tp sl feeTaker feeMaker = 0 := computeRr_wrong hnot
    constructor
    · intro h
      have hpasses := h.passes
      rw [checkRr_entry, hlive] at hpasses
      exact ⟨not_le.mp fun hmin => Bool.false_ne_true (hpasses.mpr hmin), Or.inl rfl⟩
    · rintro ⟨hmin, -⟩
      refine ⟨?_, fun hboth => ?_, fun hwrong => absurd hwrong hnot'⟩
      · rw [checkRr_entry, hlive]
        exact iff_of_false Bool.false_ne_true (not_le.mpr hmin)
      · rw [checkRr_entry, hlive]

theorem rrAgree_iff_long :
    (0 < (100 : ℚ) ∧ 0 < (110 : ℚ) ∧ 0 ≤ (2 / 10000 : ℚ) ∧ 0 ≤ (0 : ℚ)) ∧
      (RrAgree {} 100 110 95 (2 / 10000) 0 ↔ StopRight 100 110 95 ∨ (0 < ({} : FillModelConfig).rrMin ∧
        ((95 : ℚ) = 100 ∨ |(110 : ℚ) - 100| - totalFee 100 110 (2 / 10000) 0 <
          ({} : FillModelConfig).rrMin * (|(100 : ℚ) - 95| + totalFee 100 110 (2 / 10000) 0)))) :=
  ⟨⟨by decide, by decide, by decide +kernel, by decide⟩,
    rrAgree_iff (by decide) (by decide) (by decide +kernel) (by decide)⟩

/-- A stop above the entry of a long trade passes in the backtest, with a ratio of two. -/
theorem not_rrAgree_wrongSide :
    checkRr {} 100 110 105 0 0 = (true, 2) ∧ computeRr 100 110 105 0 0 = 0 ∧ ¬ RrAgree {} 100 110 105 0 0 := by
  have hback : checkRr {} 100 110 105 0 0 = (true, 2) := by decide +kernel
  have hlive : computeRr 100 110 105 0 0 = 0 := by decide +kernel
  refine ⟨hback, hlive, fun h => ?_⟩
  have hpasses := h.passes
  rw [hback, hlive] at hpasses
  exact absurd (hpasses.mp rfl) (by decide +kernel)

end MikoV2.Parity
