import Mathlib.Data.Nat.Notation
import Mathlib.Tactic.Common

/-!
# A deque with a greatest length

A list, its left end first; an item that comes in at one end of a full deque puts one out at the other end.

* `append`, `appendleft` : the deque after an item has come in; `appendEvicts`, `appendleftEvicts` : what it puts out;
* `length_append`, `length_appendleft` : the lengths;
* `evicts_append`, `appendleft_evicts` : together they are the old deque and the item.
-/

namespace BoundedDeque

variable {α : Type} {maxlen : ℕ} {dq : List α} {x : α}

def append (maxlen : ℕ) (dq : List α) (x : α) : List α := (dq ++ [x]).drop (dq.length + 1 - maxlen)

def appendEvicts (maxlen : ℕ) (dq : List α) (x : α) : List α := (dq ++ [x]).take (dq.length + 1 - maxlen)

def appendleft (maxlen : ℕ) (dq : List α) (x : α) : List α := (x :: dq).take maxlen

def appendleftEvicts (maxlen : ℕ) (dq : List α) (x : α) : List α := (x :: dq).drop maxlen

theorem evicts_append : appendEvicts maxlen dq x ++ append maxlen dq x = dq ++ [x] := List.take_append_drop _ _

theorem appendleft_evicts : appendleft maxlen dq x ++ appendleftEvicts maxlen dq x = x :: dq :=
  List.take_append_drop _ _

theorem length_append (h : dq.length ≤ maxlen) :
    (append maxlen dq x).length = if dq.length = maxlen then maxlen else dq.length + 1 := by
  simp only [append, List.length_drop, List.length_append, List.length_singleton]
  split <;> omega

theorem length_appendleft : (appendleft maxlen dq x).length = min maxlen (dq.length + 1) := by
  simp [appendleft]

/-- There is room for one more. -/
theorem appendEvicts_of_lt (h : dq.length < maxlen) : appendEvicts maxlen dq x = [] := by
  rw [appendEvicts, Nat.sub_eq_zero_of_le h, List.take_zero]

theorem appendleftEvicts_of_lt (h : dq.length < maxlen) : appendleftEvicts maxlen dq x = [] :=
  List.drop_of_length_le h

end BoundedDeque
