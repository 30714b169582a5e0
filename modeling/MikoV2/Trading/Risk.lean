import Mathlib.Tactic.FieldSimp
import Mathlib.Tactic.Linarith
import Mathlib.Tactic.Ring
import MikoV2.Trading.PaperMath

/-!
# Stops, targets and the risked amount

What both position keepers rely on, about one position: its stop and target bracket the entry price, and the
quantity times the distance to the stop is the amount that was risked.

* `Budget` : the bounds on the parameters; `Bracket` : stop, entry and target in order, all positive;
* `Sized` : a bracketed position that risks `amount`, kept by nothing but its own fields;
* `Sized.of_distance` : what the sizing of an entry makes;
* `Sized.stop`, `Sized.take` : what a close at the stop or the target then pays.
-/

namespace MikoV2.PaperMath
open Direction ExitReason

/-- The parameters of a configuration: the stop, the target and the slippage together stay inside the price. -/
structure Budget (riskPct tpRMultiple minSlDistancePct maxSlDistancePct slippage : ℚ) : Prop where
  riskPct_pos : 0 < riskPct
  tp_pos : 0 < tpRMultiple
  min_pos : 0 < minSlDistancePct
  min_le_max : minSlDistancePct ≤ maxSlDistancePct
  inside : |slippage| + max 1 tpRMultiple * maxSlDistancePct < 1

/-- `0 < sl < entry < tp` for a long position, `0 < tp < entry < sl` for a short one. -/
def Bracket (direction : Direction) (sl entry tp : ℚ) : Prop :=
  match direction with
  | LONG => 0 < sl ∧ sl < entry ∧ entry < tp
  | SHORT => 0 < tp ∧ tp < entry ∧ entry < sl

/-- A bracketed position whose target is `r` stop distances away and whose stop costs `amount`. -/
structure Sized (direction : Direction) (sl entry tp qty r amount : ℚ) : Prop where
  bracket : Bracket direction sl entry tp
  target : tp - entry = r * (entry - sl)
  amount : qty * |entry - sl| = amount

variable {direction : Direction} {sl entry tp qty r amount d px risk minSl maxSl slip : ℚ}

theorem Budget.slip_lt (h : Budget risk r minSl maxSl slip) : |slip| + maxSl < 1 ∧ |slip| + r * maxSl < 1 := by
  have hmax : 0 < maxSl := lt_of_lt_of_le h.min_pos h.min_le_max
  have h1 : 1 * maxSl ≤ max 1 r * maxSl := mul_le_mul_of_nonneg_right (le_max_left 1 r) hmax.le
  have hr : r * maxSl ≤ max 1 r * maxSl := mul_le_mul_of_nonneg_right (le_max_right 1 r) hmax.le
  have hin := h.inside
  constructor <;> linarith

/-- A distance clamped between the floor and the cap at the price `px`. -/
theorem Budget.clamp (h : Budget risk r minSl maxSl slip) (hpx : 0 < px) (raw : ℚ) :
    0 < max (min raw (maxSl * px)) (minSl * px) ∧ max (min raw (maxSl * px)) (minSl * px) ≤ maxSl * px := by
  have hfloor : 0 < minSl * px := mul_pos h.min_pos hpx
  have hle : minSl * px ≤ maxSl * px := mul_le_mul_of_nonneg_right h.min_le_max hpx.le
  exact ⟨lt_of_lt_of_le hfloor (le_max_right _ _), max_le (min_le_right _ _) hle⟩

/-- **Sizing.** An entry near the price `px`, a stop at distance `d` and a target at `r * d` on the other side,
with the quantity that risks `amount` over `d`. -/
theorem Sized.of_distance (h : Budget risk r minSl maxSl slip) (hpx : 0 < px) (hentry : px * (1 - |slip|) ≤ entry)
    (hd : 0 < d) (hcap : d ≤ maxSl * px) :
    Sized direction (computeSlPrice entry d direction) entry (computeTpPrice entry d r direction) (amount / d) r
      amount := by
  obtain ⟨hsl, htp⟩ := h.slip_lt
  have hstop : 0 < px * (1 - |slip| - maxSl) := mul_pos hpx (by linarith)
  have htarget : 0 < px * (1 - |slip| - r * maxSl) := mul_pos hpx (by linarith)
  have hrd : 0 < r * d := mul_pos h.tp_pos hd
  have hrcap : r * d ≤ r * (maxSl * px) := mul_le_mul_of_nonneg_left hcap h.tp_pos.le
  cases direction with
  | LONG =>
    have hdist : entry - (entry - d) = d := by ring
    refine ⟨⟨?_, ?_, ?_⟩, ?_, ?_⟩ <;> simp only [computeSlPrice, computeTpPrice, if_true]
    · linarith
    · linarith
    · linarith
    · ring
    · rw [hdist, abs_of_pos hd]
      exact div_mul_cancel₀ amount hd.ne'
  | SHORT =>
    have hdist : entry - (entry + d) = -d := by ring
    refine ⟨⟨?_, ?_, ?_⟩, ?_, ?_⟩ <;> simp only [computeSlPrice, computeTpPrice, reduceCtorEq, if_false]
    · linarith
    · linarith
    · linarith
    · ring
    · rw [hdist, abs_neg, abs_of_pos hd]
      exact div_mul_cancel₀ amount hd.ne'

/-- A close at the stop loses the amount, one `R`. -/
theorem Sized.stop (h : Sized direction sl entry tp qty r amount) :
    computePnlGross entry sl qty direction = -amount ∧ computeRMultiple entry sl sl direction = -1 := by
  have hamount := h.amount
  have hb := h.bracket
  unfold computePnlGross computeRMultiple
  cases direction with
  | LONG =>
    have hd : 0 < entry - sl := sub_pos.mpr hb.2.1
    rw [abs_of_pos hd] at hamount
    simp only [if_true, abs_of_pos hd, if_neg (not_le.mpr hd)]
    refine ⟨by linarith, ?_⟩
    rw [← neg_sub, neg_div, div_self hd.ne']
  | SHORT =>
    have hd : entry - sl < 0 := sub_neg.mpr hb.2.2
    rw [abs_of_neg hd] at hamount
    simp only [reduceCtorEq, if_false, abs_of_neg hd, if_neg (not_le.mpr (neg_pos.mpr hd))]
    refine ⟨by linarith, ?_⟩
    rw [div_neg, div_self hd.ne]

/-- A close at the target wins `r` times the amount, `r` times `R`. -/
theorem Sized.take (h : Sized direction sl entry tp qty r amount) :
    computePnlGross entry tp qty direction = r * amount ∧ computeRMultiple entry tp sl direction = r := by
  have hamount := h.amount
  have hb := h.bracket
  have ht := h.target
  unfold computePnlGross computeRMultiple
  cases direction with
  | LONG =>
    have hd : 0 < entry - sl := sub_pos.mpr hb.2.1
    rw [abs_of_pos hd] at hamount
    simp only [if_true, abs_of_pos hd, if_neg (not_le.mpr hd)]
    refine ⟨?_, ?_⟩
    · rw [ht, ← hamount]
      ring
    · rw [ht, mul_div_cancel_right₀ r hd.ne']
  | SHORT =>
    have hd : entry - sl < 0 := sub_neg.mpr hb.2.2
    rw [abs_of_neg hd] at hamount
    have ht' : entry - tp = r * -(entry - sl) := by linarith
    simp only [reduceCtorEq, if_false, abs_of_neg hd, if_neg (not_le.mpr (neg_pos.mpr hd))]
    refine ⟨?_, ?_⟩
    · rw [ht', ← hamount]
      ring
    · rw [ht', mul_div_cancel_right₀ r (neg_pos.mpr hd).ne']

end MikoV2.PaperMath
