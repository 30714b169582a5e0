import Mathlib.Data.List.Basic
import Mathlib.Tactic.Common

/-!
# Lists that increase by a key

* `Increasing key` : every entry has a smaller key than the later ones; so there is none twice (`Increasing.nodup`);
* `mem_left_of_le`, `mem_take_of_le` : with an entry, a first part has all that are not larger;
* `le_getLast` : the last entry is the largest; `eq_head_of_le` : the first one is the smallest;
* `Increasing.append` : two parts, with a number between them.
-/

namespace Keyed

variable {α : Type} {key : α → ℕ} {l m : List α} {x y e : α} {n : ℕ}

def Increasing (key : α → ℕ) (l : List α) : Prop := l.Pairwise fun a b => key a < key b

theorem Increasing.nodup (h : Increasing key l) : l.Nodup := by
  refine List.Pairwise.imp (fun {a b} hlt => ?_) h
  rintro rfl
  exact Nat.lt_irrefl _ hlt

theorem Increasing.left (h : Increasing key (l ++ m)) : Increasing key l := (List.pairwise_append.mp h).1

/-- A part of an increasing list before another has all entries up to any of its own. -/
theorem Increasing.mem_left_of_le (h : Increasing key (l ++ m)) (hx : x ∈ l) (he : e ∈ l ++ m) (hle : key e ≤ key x) :
    e ∈ l := by
  rcases List.mem_append.mp he with he | he
  · exact he
  · have hlt := (List.pairwise_append.mp h).2.2 x hx e he
    omega

theorem Increasing.mem_take_of_le (h : Increasing key l) (hx : x ∈ l.take n) (he : e ∈ l) (hle : key e ≤ key x) :
    e ∈ l.take n := by
  rw [← List.take_append_drop n l] at h he
  exact h.mem_left_of_le hx he hle

theorem Increasing.le_getLast (h : Increasing key l) (hy : l.getLast? = some y) (hx : x ∈ l) : key x ≤ key y := by
  obtain ⟨pre, rfl⟩ := List.getLast?_eq_some_iff.mp hy
  rcases List.mem_append.mp hx with hx | hx
  · have hlt := (List.pairwise_append.mp h).2.2 x hx y (List.mem_singleton_self y)
    omega
  · exact Nat.le_of_eq (congrArg key (List.mem_singleton.mp hx))

theorem Increasing.eq_head_of_le (h : Increasing key (y :: l)) (hx : x ∈ y :: l) (hle : key x ≤ key y) : x = y := by
  rcases List.mem_cons.mp hx with rfl | hx
  · rfl
  · have hlt := (List.pairwise_cons.mp h).1 x hx
    omega

/-- The entries of the first part are at most `n`, and those of the second are larger. -/
theorem Increasing.append (hl : Increasing key l) (hm : Increasing key m) (hle : ∀ x ∈ l, key x ≤ n)
    (hlt : ∀ x ∈ m, n < key x) : Increasing key (l ++ m) := by
  refine List.pairwise_append.mpr ⟨hl, hm, fun a ha b hb => ?_⟩
  have hbefore := hle a ha
  have hafter := hlt b hb
  omega

end Keyed
