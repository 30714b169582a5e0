import Mathlib.Data.List.Sort
import Mathlib.Order.Defs.LinearOrder
import Mathlib.Tactic.Common

/-!
# Sorting and selecting

* `filter_mergeSort` : a stable sort of a selection is the selection of the stable sort;
* `filter_append_of_pairwise` : a list sorted by a key is its part up to a bound and its part after it;
* `mergeSort_of_increasing` : sorting from the greatest key down what stands in the order of its keys;
* `Best`, `best_take_mergeSort` : the first of a stable sort by a key, from the greatest down.
-/

namespace Sorting

variable {α : Type}

/-- A list is split in one way only where a property begins. -/
theorem split_unique {P : α → Prop} : ∀ {l₁ l₂ m₁ m₂ : List α}, l₁ ++ l₂ = m₁ ++ m₂ → (∀ b ∈ l₁, ¬ P b) →
    (∀ b ∈ l₂, P b) → (∀ b ∈ m₁, ¬ P b) → (∀ b ∈ m₂, P b) → l₁ = m₁ ∧ l₂ = m₂
  | [], _, [], _, h, _, _, _, _ => ⟨rfl, h⟩
  | [], _, b :: _, _, h, _, hl₂, hm₁, _ => by
    have hb : b ∈ [] ++ _ := h ▸ List.mem_append_left _ List.mem_cons_self
    exact absurd (hl₂ b hb) (hm₁ b List.mem_cons_self)
  | a :: _, _, [], _, h, hl₁, _, _, hm₂ => by
    have ha : a ∈ [] ++ _ := h ▸ List.mem_append_left _ List.mem_cons_self
    exact absurd (hm₂ a ha) (hl₁ a List.mem_cons_self)
  | a :: l₁, l₂, b :: m₁, m₂, h, hl₁, hl₂, hm₁, hm₂ => by
    obtain ⟨rfl, htail⟩ := List.cons.inj h
    have ih := split_unique htail (fun x hx => hl₁ x (List.mem_cons_of_mem a hx)) hl₂
      (fun x hx => hm₁ x (List.mem_cons_of_mem a hx)) hm₂
    exact ⟨congrArg (a :: ·) ih.1, ih.2⟩

section Stable
variable {le : α → α → Bool} (htrans : ∀ a b c, le a b = true → le b c = true → le a c = true)
  (htotal : ∀ a b, (le a b || le b a) = true)
include htrans htotal

/-- An element goes before everything that it is not greater than. -/
theorem mergeSort_cons_split (a : α) (l : List α) : ∃ l₁ l₂, (a :: l).mergeSort le = l₁ ++ a :: l₂ ∧
    l.mergeSort le = l₁ ++ l₂ ∧ (∀ b ∈ l₁, ¬ le a b = true) ∧ ∀ b ∈ l₂, le a b = true := by
  obtain ⟨l₁, l₂, hcons, hl, hbefore⟩ := List.mergeSort_cons htrans htotal a l
  have hsorted := List.pairwise_mergeSort htrans htotal (a :: l)
  rw [hcons, List.pairwise_append, List.pairwise_cons] at hsorted
  exact ⟨l₁, l₂, hcons, hl, fun b hb => by simpa using hbefore b hb, hsorted.2.1.1⟩

/-- **Stability.** Sorting a selection is selecting from the sorted list. -/
theorem filter_mergeSort (p : α → Bool) (l : List α) : (l.mergeSort le).filter p = (l.filter p).mergeSort le := by
  induction l with
  | nil => simp
  | cons a l ih =>
    obtain ⟨l₁, l₂, hcons, hl, hbefore, hafter⟩ := mergeSort_cons_split htrans htotal a l
    rw [hl, List.filter_append] at ih
    rw [hcons, List.filter_append]
    by_cases hp : p a = true
    · obtain ⟨m₁, m₂, hcons', hm, hbefore', hafter'⟩ := mergeSort_cons_split htrans htotal a (l.filter p)
      obtain ⟨rfl, rfl⟩ := split_unique (ih.trans hm) (fun b hb => hbefore b (List.mem_of_mem_filter hb))
        (fun b hb => hafter b (List.mem_of_mem_filter hb)) hbefore' hafter'
      rw [List.filter_cons_of_pos hp, List.filter_cons_of_pos hp, hcons']
    · rw [List.filter_cons_of_neg hp, List.filter_cons_of_neg hp, ih]

end Stable

/-- Sorted by a key, a list is its part up to a bound, and then its part after it. -/
theorem filter_append_of_pairwise {K : Type} [LinearOrder K] (key : α → K) (bound : K) {l : List α}
    (h : l.Pairwise fun a b => key a ≤ key b) :
    l = (l.filter fun a => key a ≤ bound) ++ l.filter fun a => bound < key a := by
  induction l with
  | nil => rfl
  | cons a l ih =>
    obtain ⟨ha, hl⟩ := List.pairwise_cons.mp h
    by_cases hle : key a ≤ bound
    · rw [List.filter_cons_of_pos (by simpa using hle), List.filter_cons_of_neg (by simpa using hle), List.cons_append,
        ← ih hl]
    · have hnone : (l.filter fun b => key b ≤ bound) = [] :=
        List.filter_eq_nil_iff.mpr fun b hb => by simpa using (not_le.mp hle).trans_le (ha b hb)
      have hall : (l.filter fun b => bound < key b) = l :=
        List.filter_eq_self.mpr fun b hb => by simpa using (not_le.mp hle).trans_le (ha b hb)
      rw [List.filter_cons_of_neg (by simpa using hle), List.filter_cons_of_pos (by simpa using hle), hnone, hall]
      rfl

/-- Sorted from the greatest key down, a list whose keys increase is turned round. -/
theorem mergeSort_of_increasing {K : Type} [LinearOrder K] (key : α → K) {l : List α}
    (h : l.Pairwise fun a b => key a < key b) : (l.mergeSort fun a b => key b ≤ key a) = l.reverse := by
  have hperm : (l.mergeSort fun a b => decide (key b ≤ key a)).Perm l.reverse :=
    (List.mergeSort_perm l _).trans (List.reverse_perm l).symm
  have hreverse : l.reverse.Pairwise fun a b => key b < key a := List.pairwise_reverse.mpr h
  have hsorted : (l.mergeSort fun a b => decide (key b ≤ key a)).Pairwise fun a b => key b ≤ key a := by
    refine (List.pairwise_mergeSort ?_ ?_ l).imp of_decide_eq_true
    · exact fun a b c hab hbc => decide_eq_true ((of_decide_eq_true hbc).trans (of_decide_eq_true hab))
    · intro a b
      rw [Bool.or_eq_true, decide_eq_true_eq, decide_eq_true_eq]
      exact le_total _ _
  -- no key stands twice
  have hdistinct : (l.mergeSort fun a b => decide (key b ≤ key a)).Pairwise fun a b => key a ≠ key b := by
    have hkeys : l.reverse.Pairwise fun a b => key a ≠ key b := hreverse.imp fun hlt => hlt.ne'
    exact (hperm.pairwise_iff fun hne => hne.symm).mpr hkeys
  have hstrict := hsorted.and hdistinct
  refine hperm.eq_of_pairwise ?_ (hstrict.imp fun hab => lt_of_le_of_ne hab.1 hab.2.symm) hreverse
  exact fun a b _ _ hab hba => absurd hab hba.not_gt

/-! ## The best -/

section Best
variable {K : Type} [LinearOrder K] {key : α → K} {n : ℕ} {l best : List α}

/-- The first `n` by a key, from the greatest down, and among equals those that come first. -/
structure Best (key : α → K) (n : ℕ) (l best : List α) : Prop where
  sorted : best.Pairwise fun a b => key b ≤ key a
  length : best.length = min n l.length
  rest : ∃ rest, (best ++ rest).Perm l ∧ ∀ a ∈ best, ∀ b ∈ rest, key b ≤ key a
  ties : ∀ k, (best.filter fun a => key a = k) <+: l.filter fun a => key a = k

theorem Best.subset (h : Best key n l best) : best ⊆ l := by
  obtain ⟨rest, hperm, -⟩ := h.rest
  exact fun a ha => hperm.subset (List.mem_append_left rest ha)

/-- **The best of a list**, by sorting it. -/
theorem best_take_mergeSort (key : α → K) (n : ℕ) (l : List α) :
    Best key n l ((l.mergeSort fun a b => key b ≤ key a).take n) := by
  have htrans : ∀ a b c, decide (key b ≤ key a) = true → decide (key c ≤ key b) = true → decide (key c ≤ key a) = true := by
    intro a b c hab hbc
    exact decide_eq_true ((of_decide_eq_true hbc).trans (of_decide_eq_true hab))
  have htotal : ∀ a b, (decide (key b ≤ key a) || decide (key a ≤ key b)) = true := by
    intro a b
    rw [Bool.or_eq_true, decide_eq_true_eq, decide_eq_true_eq]
    exact le_total _ _
  have hperm := List.mergeSort_perm l fun a b => key b ≤ key a
  have hsorted : (l.mergeSort fun a b => key b ≤ key a).Pairwise fun a b => key b ≤ key a :=
    (List.pairwise_mergeSort htrans htotal l).imp of_decide_eq_true
  have hties : ∀ k, ((l.mergeSort fun a b => key b ≤ key a).filter fun a => key a = k) = l.filter fun a => key a = k := by
    intro k
    rw [filter_mergeSort htrans htotal]
    refine List.mergeSort_of_pairwise (List.pairwise_of_forall_mem_list fun a ha b hb => ?_)
    have hka : key a = k := of_decide_eq_true (List.mem_filter.mp ha).2
    have hkb : key b = k := of_decide_eq_true (List.mem_filter.mp hb).2
    exact decide_eq_true (hka ▸ hkb.le)
  generalize (l.mergeSort fun a b => key b ≤ key a) = sorted at hperm hsorted hties
  refine ⟨hsorted.sublist (List.take_sublist n sorted), ?_, ⟨sorted.drop n, ?_, ?_⟩, fun k => ?_⟩
  · rw [List.length_take, hperm.length_eq]
  · rw [List.take_append_drop]
    exact hperm
  · rw [← List.take_append_drop n sorted] at hsorted
    exact (List.pairwise_append.mp hsorted).2.2
  · rw [← hties k]
    exact (List.take_prefix n sorted).filter _

end Best

end Sorting
