import Mathlib.Algebra.BigOperators.Group.List.Basic
import Mathlib.Data.List.Perm.Basic
import Mathlib.Tactic.Common

/-!
# Entries by their place

A list whose entries are found by their place, as `l[i]? = some a`, and replaced or removed there.

* `getElem?_set`, `getElem?_append`, `getElem?_concat` : finding an entry after an update;
* `perm_erase`, `perm_set` : an entry and the others, before and after it is replaced;
* `sum_map_set` : what a replacement does to a sum; `map_set_of_eq` : where a projection does not see it;
* `countP_erase`, `countP_set` : a count by the entry and the others.
-/

namespace Slots

variable {α β : Type} {l : List α} {i : ℕ} {a : α}

theorem getElem?_set (h : l[i]? = some a) (b : α) (j : ℕ) : (l.set i b)[j]? = if j = i then some b else l[j]? := by
  obtain ⟨hi, -⟩ := List.getElem?_eq_some_iff.mp h
  by_cases hj : j = i
  · rw [hj, List.getElem?_set_self hi, if_pos rfl]
  · rw [List.getElem?_set_ne (Ne.symm hj), if_neg hj]

theorem getElem?_append (h : l[i]? = some a) (m : List α) : (l ++ m)[i]? = some a := by
  obtain ⟨hi, -⟩ := List.getElem?_eq_some_iff.mp h
  rw [List.getElem?_append_left hi, h]

/-- What is found after an entry is appended. -/
theorem getElem?_concat {b : α} {j : ℕ} :
    (l ++ [b])[j]? = some a ↔ l[j]? = some a ∨ j = l.length ∧ a = b := by
  rcases Nat.lt_trichotomy j l.length with hj | rfl | hj
  · rw [List.getElem?_append_left hj]
    have hne : j ≠ l.length := by omega
    simp [hne]
  · rw [List.getElem?_concat_length]
    simp [eq_comm]
  · rw [List.getElem?_eq_none (by simp; omega), List.getElem?_eq_none (by omega)]
    have hne : j ≠ l.length := by omega
    simp [hne]

theorem perm_erase (h : l[i]? = some a) : l.Perm (a :: l.eraseIdx i) := by
  obtain ⟨hi, rfl⟩ := List.getElem?_eq_some_iff.mp h
  exact (List.getElem_cons_eraseIdx_perm hi).symm

theorem perm_set (h : l[i]? = some a) (b : α) : (l.set i b).Perm (b :: l.eraseIdx i) := by
  obtain ⟨hi, -⟩ := List.getElem?_eq_some_iff.mp h
  exact List.set_perm_cons_eraseIdx hi b

theorem sum_map_set {M : Type} [AddCommMonoid M] (f : α → M) (h : l[i]? = some a) (b : α) :
    ((l.set i b).map f).sum + f a = (l.map f).sum + f b := by
  have hbefore := ((perm_erase h).map f).sum_eq
  have hafter := ((perm_set h b).map f).sum_eq
  rw [List.map_cons, List.sum_cons] at hbefore hafter
  rw [hbefore, hafter, add_right_comm, add_comm (f b) (f a), add_right_comm]

theorem countP_of_perm {m : List α} (p : α → Bool) (h : m.Perm (a :: l.eraseIdx i)) :
    m.countP p = (l.eraseIdx i).countP p + (p a).toNat := by
  rw [h.countP_eq, List.countP_cons]
  cases p a <;> rfl

/-- The others, and the entry. -/
theorem countP_erase (p : α → Bool) (h : l[i]? = some a) : l.countP p = (l.eraseIdx i).countP p + (p a).toNat :=
  countP_of_perm p (perm_erase h)

/-- The others, and the entry in its place. -/
theorem countP_set (p : α → Bool) (h : l[i]? = some a) (b : α) :
    (l.set i b).countP p = (l.eraseIdx i).countP p + (p b).toNat :=
  countP_of_perm p (perm_set h b)

theorem map_set_of_eq (f : α → β) (h : l[i]? = some a) {b : α} (hf : f b = f a) : (l.set i b).map f = l.map f := by
  obtain ⟨hi, rfl⟩ := List.getElem?_eq_some_iff.mp h
  rw [List.map_set, hf, ← List.map_set, List.set_getElem_self]

end Slots
