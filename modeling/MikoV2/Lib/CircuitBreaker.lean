import Mathlib.Order.Basic
import Mathlib.Tactic.Common

/-!
# Circuit breakers

A `Breaker` counts the failures since the last success. It opens when they reach a threshold, stays open until some
time, and is then tested: the result of the test opens it again or closes it.

* `succeed`, `fail`, `poll` : a result, and a look at the clock;
* `Settled` : what is not closed has failed often enough; `fail_opens`, `fail_mode_ne_halfOpen` : what a failure does;
* `streak`, `Follows` : the failures at the end of a history, and that the breaker counts them.
-/

namespace Circuit

inductive Mode where
  | closed
  | opened
  | halfOpen
  deriving DecidableEq, Repr

structure Breaker (T : Type) where
  mode : Mode
  consecutiveFails : ℕ
  openUntil : T

/-- The failures since the last success, in a history whose last result comes first. -/
def streak (results : List Bool) : ℕ := (results.takeWhile fun ok => !ok).length

@[simp] theorem streak_success (results : List Bool) : streak (true :: results) = 0 := by
  simp [streak]

@[simp] theorem streak_failure (results : List Bool) : streak (false :: results) = streak results + 1 := by
  simp [streak]

namespace Breaker

variable {T : Type}

def succeed (b : Breaker T) : Breaker T := { b with mode := .closed, consecutiveFails := 0 }

/-- A failure makes the breaker open. -/
def Trips (threshold : ℕ) (b : Breaker T) : Prop := b.mode = .halfOpen ∨ threshold ≤ b.consecutiveFails + 1

instance (threshold : ℕ) : DecidablePred (Trips (T := T) threshold) := fun _ => inferInstanceAs (Decidable (_ ∨ _))

def fail (threshold : ℕ) (openUntil : T) (b : Breaker T) : Breaker T :=
  if b.Trips threshold then ⟨.opened, b.consecutiveFails + 1, openUntil⟩
  else { b with consecutiveFails := b.consecutiveFails + 1 }

section Poll
variable [LT T] [DecidableLT T]

/-- The breaker is open, and its time has not come. -/
def Holds (now : T) (b : Breaker T) : Prop := b.mode = .opened ∧ now < b.openUntil

instance (now : T) : DecidablePred (Holds now) := fun _ => inferInstanceAs (Decidable (_ ∧ _))

/-- An open breaker whose time has come is tested. -/
def poll (now : T) (b : Breaker T) : Breaker T :=
  if b.mode = .opened ∧ ¬ now < b.openUntil then { b with mode := .halfOpen } else b

end Poll

/-- What is not closed has failed often enough. -/
def Settled (threshold : ℕ) (b : Breaker T) : Prop := b.mode ≠ .closed → threshold ≤ b.consecutiveFails

/-- The breaker counts the failures at the end of the history. -/
def Follows (results : List Bool) (b : Breaker T) : Prop := b.consecutiveFails = streak results

section Calls
variable {threshold : ℕ} {b : Breaker T} {openUntil : T} {results : List Bool}

theorem settled_succeed : b.succeed.Settled threshold := fun h => absurd rfl h

theorem fail_of_trips (h : b.Trips threshold) :
    b.fail threshold openUntil = ⟨.opened, b.consecutiveFails + 1, openUntil⟩ := if_pos h

@[simp] theorem fail_consecutiveFails : (b.fail threshold openUntil).consecutiveFails = b.consecutiveFails + 1 := by
  unfold fail
  split <;> rfl

/-- Until it opens, a breaker that counts failures is closed. -/
theorem Settled.closed_of_not_trips (h : b.Settled threshold) (hnot : ¬ b.Trips threshold) : b.mode = .closed := by
  obtain ⟨-, hfew⟩ := not_or.mp hnot
  by_contra hne
  exact hfew (Nat.le_succ_of_le (h hne))

/-- After a failure the breaker is open or closed: open exactly when the failure trips it. -/
theorem Settled.fail_opens (h : b.Settled threshold) :
    (b.fail threshold openUntil).mode = .opened ↔ b.Trips threshold := by
  by_cases htrips : b.Trips threshold
  · simp [fail_of_trips htrips, htrips]
  · simp [fail, htrips, h.closed_of_not_trips htrips]

theorem Settled.fail_mode_ne_halfOpen (h : b.Settled threshold) : (b.fail threshold openUntil).mode ≠ .halfOpen := by
  by_cases htrips : b.Trips threshold
  · simp [fail_of_trips htrips]
  · simp [fail, htrips, h.closed_of_not_trips htrips]

theorem Settled.fail (h : b.Settled threshold) : (b.fail threshold openUntil).Settled threshold := by
  intro hne
  rw [fail_consecutiveFails]
  by_cases htrips : b.Trips threshold
  · rcases htrips with hhalf | hmany
    · have := h (by simp [hhalf])
      omega
    · exact hmany
  · exact absurd (h.closed_of_not_trips htrips) (by simpa [Breaker.fail, htrips] using hne)

theorem Settled.poll [LT T] [DecidableLT T] {now : T} (h : b.Settled threshold) : (b.poll now).Settled threshold := by
  unfold Breaker.poll
  split
  · rename_i hopen
    exact fun _ => h (by simp [hopen.1])
  · exact h

theorem Follows.succeed : b.succeed.Follows (true :: results) := (streak_success results).symm

theorem Follows.fail (h : b.Follows results) : (b.fail threshold openUntil).Follows (false :: results) := by
  unfold Follows at *
  simp [h]

theorem Follows.poll [LT T] [DecidableLT T] {now : T} (h : b.Follows results) : (b.poll now).Follows results := by
  unfold Breaker.poll
  split
  · exact h
  · exact h

/-- **The breaker opens.** A failure with which the last results are failures, as many as the threshold, opens it. -/
theorem Follows.fail_opens (hs : b.Settled threshold) (h : b.Follows results)
    (hmany : threshold ≤ streak (false :: results)) : (b.fail threshold openUntil).mode = .opened := by
  refine hs.fail_opens.mpr (.inr ?_)
  rwa [streak_failure, ← h] at hmany

end Calls

end Breaker

end Circuit
