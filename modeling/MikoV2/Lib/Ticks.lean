import Mathlib.Algebra.Order.Group.Int
import Mathlib.Data.List.Range
import Mathlib.Order.Bounds.Basic
import Mathlib.Tactic.Common

/-!
# Ticks

The multiples of a period on a line of whole numbers.

* `nextTick P t` : the first one after `t` (`isLeast_nextTick`); `nextTick_eq` : up to it there is no other;
* `ticks P lo hi` : those after `lo`, up to `hi`, in order;
* `mem_ticks`, `ticks_pairwise` : what they are;
* `ticks_append` : the ticks of a time are those of its parts; `ticks_cons` : the first and the others;
  `ticks_of_lt` : none before the next one.
-/

namespace Ticks

variable {P t lo mid hi b : ℤ}

def nextTick (P t : ℤ) : ℤ := (t / P + 1) * P

def ticks (P lo hi : ℤ) : List ℤ := (List.range (hi / P - lo / P).toNat).map fun i : ℕ => (lo / P + 1 + i) * P

theorem lt_nextTick (hP : 0 < P) (t : ℤ) : t < nextTick P t := Int.lt_ediv_add_one_mul_self t hP

theorem nextTick_div (hP : 0 < P) (t : ℤ) : nextTick P t / P = t / P + 1 := Int.mul_ediv_cancel _ hP.ne'

/-- The least multiple of the period after `t`. -/
theorem isLeast_nextTick (hP : 0 < P) (t : ℤ) : IsLeast {b | P ∣ b ∧ t < b} (nextTick P t) := by
  refine ⟨⟨⟨_, Int.mul_comm _ _⟩, lt_nextTick hP t⟩, ?_⟩
  rintro b ⟨⟨m, rfl⟩, hlt⟩
  rw [Int.mul_comm, ← Int.ediv_lt_iff_lt_mul hP] at hlt
  show (t / P + 1) * P ≤ P * m
  rw [Int.mul_comm P m]
  apply Int.mul_le_mul_of_nonneg_right _ hP.le
  omega

/-- There is no tick in between. -/
theorem nextTick_eq (hP : 0 < P) (h : lo ≤ hi) (h' : hi < nextTick P lo) : nextTick P hi = nextTick P lo := by
  have hle := Int.ediv_le_ediv hP h
  have hlt : hi / P < lo / P + 1 := (Int.ediv_lt_iff_lt_mul hP).mpr h'
  unfold nextTick
  congr 2
  omega

theorem mem_ticks (hP : 0 < P) : b ∈ ticks P lo hi ↔ P ∣ b ∧ lo < b ∧ b ≤ hi := by
  unfold ticks
  rw [List.mem_map]
  constructor
  · rintro ⟨i, hi', rfl⟩
    rw [List.mem_range] at hi'
    refine ⟨⟨_, Int.mul_comm _ _⟩, ?_, ?_⟩
    · rw [← Int.ediv_lt_iff_lt_mul hP]
      omega
    · rw [← Int.le_ediv_iff_mul_le hP]
      omega
  · rintro ⟨⟨m, rfl⟩, hlo, hhi⟩
    rw [Int.mul_comm] at hlo hhi
    rw [← Int.ediv_lt_iff_lt_mul hP] at hlo
    rw [← Int.le_ediv_iff_mul_le hP] at hhi
    refine ⟨(m - (lo / P + 1)).toNat, List.mem_range.mpr (by omega), ?_⟩
    rw [Int.toNat_of_nonneg (by omega), Int.mul_comm P m]
    congr 1
    omega

theorem ticks_pairwise (hP : 0 < P) (lo hi : ℤ) : (ticks P lo hi).Pairwise (· < ·) := by
  unfold ticks
  rw [List.pairwise_map]
  refine List.pairwise_lt_range.imp fun {i j} hij => ?_
  apply Int.mul_lt_mul_of_pos_right _ hP
  omega

/-- The ticks of a time are those of its parts. -/
theorem ticks_append (hP : 0 < P) (h : lo ≤ mid) (h' : mid ≤ hi) :
    ticks P lo mid ++ ticks P mid hi = ticks P lo hi := by
  have hle := Int.ediv_le_ediv hP h
  have hle' := Int.ediv_le_ediv hP h'
  have hsum : (hi / P - lo / P).toNat = (mid / P - lo / P).toNat + (hi / P - mid / P).toNat := by omega
  unfold ticks
  rw [hsum, List.range_add, List.map_append, List.map_map]
  congr 1
  refine List.map_congr_left fun i _ => ?_
  simp only [Function.comp_apply]
  congr 1
  omega

theorem ticks_of_lt (hP : 0 < P) (h : hi < nextTick P lo) : ticks P lo hi = [] := by
  refine List.eq_nil_iff_forall_not_mem.mpr fun b hb => ?_
  obtain ⟨⟨m, rfl⟩, hlo, hhi⟩ := (mem_ticks hP).mp hb
  rw [Int.mul_comm, ← Int.ediv_lt_iff_lt_mul hP] at hlo
  have hlt : P * m < (lo / P + 1) * P := lt_of_le_of_lt hhi h
  rw [Int.mul_comm] at hlt
  have hm := Int.lt_of_mul_lt_mul_right hlt hP.le
  omega

/-- The first tick, and the others. -/
theorem ticks_cons (hP : 0 < P) (h : nextTick P lo ≤ hi) :
    ticks P lo hi = nextTick P lo :: ticks P (nextTick P lo) hi := by
  rw [← ticks_append hP (lt_nextTick hP lo).le h]
  have hone : (nextTick P lo / P - lo / P).toNat = 1 := by
    rw [nextTick_div hP]
    omega
  have hfirst : ticks P lo (nextTick P lo) = [nextTick P lo] := by
    rw [ticks, hone]
    simp [nextTick]
  rw [hfirst, List.singleton_append]

end Ticks
