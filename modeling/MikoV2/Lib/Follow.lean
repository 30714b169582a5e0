import Mathlib.Data.Int.Order.Basic
import Mathlib.Data.List.Basic
import Mathlib.Tactic.Common

/-!
# Versions that continue a mark

A consumer whose mark is the last version it has takes the next one from a list of items, then the one after it, up
to the first hole.

* `follow` : the items taken; `followed` : the mark after them;
* `mem_follow_iff` : they are one item for each version between the marks; `followed_last` : the last is the new mark;
* `hole_of_not_mem` : in a sorted list, what is beyond the mark and not taken is beyond a hole.
-/

namespace Versions

variable {α : Type} (key : α → ℤ) {mark v : ℤ} {l : List α} {x : α}

/-- The items that continue the mark; those at or below it are skipped. -/
def follow : ℤ → List α → List α
  | _, [] => []
  | mark, x :: xs =>
    if key x ≤ mark then follow mark xs
    else if key x = mark + 1 then x :: follow (mark + 1) xs
    else []

/-- The mark after the items taken. -/
def followed (mark : ℤ) (l : List α) : ℤ := mark + (follow key mark l).length

variable {key}

theorem follow_skip {xs : List α} (h : key x ≤ mark) : follow key mark (x :: xs) = follow key mark xs := if_pos h

theorem follow_next {xs : List α} (h : key x = mark + 1) :
    follow key mark (x :: xs) = x :: follow key (mark + 1) xs := by
  rw [follow, if_neg (by omega), if_pos h]

theorem follow_hole {xs : List α} (h : mark + 1 < key x) : follow key mark (x :: xs) = [] := by
  rw [follow, if_neg (by omega), if_neg (by omega)]

theorem le_followed : mark ≤ followed key mark l := by
  unfold followed
  omega

theorem follow_sublist : ∀ (l : List α) (mark : ℤ), (follow key mark l).Sublist l := by
  intro l
  induction l with
  | nil => exact fun mark => List.Sublist.refl _
  | cons x xs ih =>
    intro mark
    rcases lt_trichotomy (key x) (mark + 1) with hlt | heq | hgt
    · rw [follow_skip (by omega)]
      exact (ih mark).cons x
    · rw [follow_next heq]
      exact (ih _).cons_cons x
    · rw [follow_hole hgt]
      exact List.nil_sublist _

/-- One item for each version between the marks. -/
theorem mem_follow_iff : ∀ (l : List α) (mark v : ℤ),
    (∃ x ∈ follow key mark l, key x = v) ↔ mark < v ∧ v ≤ followed key mark l := by
  intro l
  unfold followed
  induction l with
  | nil =>
    intro mark v
    simp only [follow, List.not_mem_nil, false_and, exists_false, List.length_nil, false_iff]
    omega
  | cons x xs ih =>
    intro mark v
    rcases lt_trichotomy (key x) (mark + 1) with hlt | heq | hgt
    · rw [follow_skip (by omega)]
      exact ih mark v
    · rw [follow_next heq, List.length_cons]
      have htail := ih (mark + 1) v
      constructor
      · rintro ⟨y, hy, rfl⟩
        rcases List.mem_cons.mp hy with rfl | hy
        · omega
        · have hin := htail.mp ⟨y, hy, rfl⟩
          omega
      · rintro ⟨hlo, hhi⟩
        by_cases hv : v = mark + 1
        · exact ⟨x, List.mem_cons_self, heq.trans hv.symm⟩
        · obtain ⟨y, hy, hyv⟩ := htail.mpr ⟨by omega, by omega⟩
          exact ⟨y, List.mem_cons_of_mem x hy, hyv⟩
    · rw [follow_hole hgt]
      simp only [List.not_mem_nil, false_and, exists_false, List.length_nil, false_iff]
      omega

/-- The last item taken is the new mark. -/
theorem followed_last : ∀ (l : List α) (mark : ℤ),
    ((follow key mark l).getLast?.map key).getD mark = followed key mark l := by
  intro l
  unfold followed
  induction l with
  | nil => exact fun mark => by simp [follow]
  | cons x xs ih =>
    intro mark
    rcases lt_trichotomy (key x) (mark + 1) with hlt | heq | hgt
    · rw [follow_skip (by omega)]
      exact ih mark
    · have htail := ih (mark + 1)
      rw [follow_next heq, List.length_cons]
      cases hxs : follow key (mark + 1) xs with
      | nil =>
        show key x = _
        rw [List.length_nil]
        omega
      | cons y ys =>
        rw [hxs] at htail
        have hlast : ((y :: ys).getLast?.map key).getD mark = ((y :: ys).getLast?.map key).getD (mark + 1) := by
          rw [List.getLast?_eq_some_getLast (List.cons_ne_nil y ys)]
          rfl
        rw [List.getLast?_cons_cons, hlast, htail]
        omega
    · rw [follow_hole hgt]
      simp

/-- In a sorted list, an item beyond the mark that is not taken is beyond a hole. -/
theorem hole_of_not_mem : ∀ (l : List α) (mark : ℤ), (l.Pairwise fun x y => key x < key y) → x ∈ l → mark < key x →
    x ∉ follow key mark l → followed key mark l + 1 < key x := by
  intro l
  unfold followed
  induction l with
  | nil => exact fun mark _ hx => absurd hx List.not_mem_nil
  | cons y ys ih =>
    intro mark hsorted hx hmark hnot
    obtain ⟨hy, hys⟩ := List.pairwise_cons.mp hsorted
    rcases lt_trichotomy (key y) (mark + 1) with hlt | heq | hgt
    · rw [follow_skip (by omega)] at hnot ⊢
      rcases List.mem_cons.mp hx with rfl | hx
      · omega
      · exact ih mark hys hx hmark hnot
    · rw [follow_next heq] at hnot ⊢
      rw [List.length_cons]
      rcases List.mem_cons.mp hx with rfl | hx
      · exact absurd List.mem_cons_self hnot
      · have hlater := hy x hx
        have hbeyond := ih (mark + 1) hys hx (by omega) fun h => hnot (List.mem_cons_of_mem y h)
        omega
    · rw [follow_hole hgt, List.length_nil]
      rcases List.mem_cons.mp hx with rfl | hx
      · omega
      · have hlater := hy x hx
        omega

end Versions
