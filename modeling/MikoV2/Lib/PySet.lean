import Mathlib.Data.List.Dedup
import Mathlib.Data.List.Sort
import Mathlib.Tactic.Common

/-!
# Sets, and loops over their elements

`PySet α` is a Python `set`, its elements kept in some order without repetition; `sorted` is the only order
a program sees.

* `mem_add`, `mem_discard`, `mem_ofList`, `mem_sorted` : membership after each operation;
* `OwnKey` : a loop body that reads and changes only what belongs to its key;
* `OwnKey.foldl` : after a loop over distinct keys each key's part is the body's, applied once.
-/

namespace Py

/-- A Python `set`. -/
structure PySet (α : Type) where
  elems : List α
  nodup : elems.Nodup

namespace PySet

variable {α : Type}

/-- `set()`. -/
def empty : PySet α := ⟨[], List.nodup_nil⟩

instance : Membership α (PySet α) := ⟨fun s x => x ∈ s.elems⟩

theorem mem_def {s : PySet α} {x : α} : x ∈ s ↔ x ∈ s.elems := Iff.rfl

theorem not_mem_empty (x : α) : x ∉ (empty : PySet α) := List.not_mem_nil

section Operations
variable [DecidableEq α]

instance (s : PySet α) (x : α) : Decidable (x ∈ s) := inferInstanceAs (Decidable (x ∈ s.elems))

/-- `s.add(x)`. -/
def add (s : PySet α) (x : α) : PySet α :=
  if h : x ∈ s.elems then s else ⟨s.elems ++ [x], List.nodup_append.mpr
    ⟨s.nodup, List.nodup_singleton x, fun a ha b hb => by
      rw [List.mem_singleton.mp hb]
      exact fun he => h (he ▸ ha)⟩⟩

/-- `s.discard(x)`. -/
def discard (s : PySet α) (x : α) : PySet α := ⟨s.elems.filter (· ≠ x), s.nodup.filter _⟩

/-- `set(l)`. -/
def ofList (l : List α) : PySet α := l.foldl add empty

theorem mem_add {s : PySet α} {x y : α} : y ∈ s.add x ↔ y ∈ s ∨ y = x := by
  unfold add
  split
  · rename_i h
    exact ⟨Or.inl, fun hy => hy.elim id fun he => he ▸ h⟩
  · simp only [mem_def, List.mem_append, List.mem_singleton]

theorem mem_discard {s : PySet α} {x y : α} : y ∈ s.discard x ↔ y ∈ s ∧ y ≠ x := by
  simp only [mem_def, discard, List.mem_filter, decide_eq_true_eq]

theorem mem_foldl_add (l : List α) : ∀ {s : PySet α} {y : α}, y ∈ l.foldl add s ↔ y ∈ s ∨ y ∈ l := by
  induction l with
  | nil => simp
  | cons x l ih =>
    intro s y
    rw [List.foldl_cons, ih, mem_add, List.mem_cons, or_assoc]

theorem mem_ofList {l : List α} {y : α} : y ∈ ofList l ↔ y ∈ l := by
  unfold ofList
  rw [mem_foldl_add]
  exact ⟨fun h => h.resolve_left (not_mem_empty y), Or.inr⟩

end Operations

section Sorted
variable [LE α] [DecidableRel (fun a b : α => a ≤ b)]

/-- `sorted(s)`. -/
def sorted (s : PySet α) : List α := s.elems.insertionSort (· ≤ ·)

theorem mem_sorted {s : PySet α} {x : α} : x ∈ s.sorted ↔ x ∈ s := List.mem_insertionSort _

theorem nodup_sorted (s : PySet α) : s.sorted.Nodup :=
  (List.perm_insertionSort _ s.elems).nodup_iff.mpr s.nodup

end Sorted

end PySet

/-! ## Loops that touch only their own key -/

/-- The body `f` of a loop over keys changes the part `view k` of its own key `k` by `next k` and no other
key's part. -/
structure OwnKey {σ κ β : Type} (view : κ → σ → β) (next : κ → β → β) (f : σ → κ → σ) : Prop where
  own : ∀ s k, view k (f s k) = next k (view k s)
  other : ∀ s k k', k' ≠ k → view k' (f s k) = view k' s

/-- A loop over distinct keys applies the body once to each key's part. -/
theorem OwnKey.foldl {σ κ β : Type} [DecidableEq κ] {view : κ → σ → β} {next : κ → β → β} {f : σ → κ → σ}
    (h : OwnKey view next f) (k : κ) (l : List κ) :
    ∀ s, l.Nodup → view k (l.foldl f s) = if k ∈ l then next k (view k s) else view k s := by
  induction l with
  | nil => exact fun s _ => rfl
  | cons x l ih =>
    intro s hl
    obtain ⟨hx, hl⟩ := List.nodup_cons.mp hl
    rw [List.foldl_cons, ih _ hl]
    by_cases hk : k = x
    · subst hk
      rw [if_neg hx, if_pos List.mem_cons_self]
      exact h.own s k
    · rw [h.other s x k hk]
      by_cases hmem : k ∈ l
      · rw [if_pos hmem, if_pos (List.mem_cons_of_mem x hmem)]
      · rw [if_neg hmem, if_neg fun hcons => (List.mem_cons.mp hcons).elim hk hmem]

end Py
