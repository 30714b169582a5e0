import Mathlib.Tactic.Common
import Mathlib.Data.Int.Notation

/-!
# `FlushController`

One counter of those who have suspended the flushing, and the event that is set while there is none. The lock makes a
call one step.

* `suspend`, `resume`, `isSuspended` : the calls; a `resume` too many is clamped;
* `Counts` : the counter and the event of a number of suspensions; `Counts.suspend`, `Counts.resume` : one more, one
  less.
-/

namespace MikoV2.Execution

structure FlushController where
  counter : ℤ := 0
  /-- `_async_event` is set. -/
  event : Bool := true
  deriving DecidableEq, Repr

namespace FlushController

def suspend (f : FlushController) : FlushController :=
  { counter := f.counter + 1, event := if f.counter + 1 = 1 then false else f.event }

def resume (f : FlushController) : FlushController :=
  let counter := if f.counter - 1 < 0 then 0 else f.counter - 1
  { counter, event := if counter = 0 then true else f.event }

def isSuspended (f : FlushController) : Bool := 0 < f.counter

/-- The controller while `n` suspensions are held. -/
structure Counts (f : FlushController) (n : ℕ) : Prop where
  counter : f.counter = n
  event : f.event = true ↔ n = 0

variable {f : FlushController} {n : ℕ}

theorem counts_new : Counts {} 0 := ⟨rfl, by simp⟩

theorem Counts.suspend (h : f.Counts n) : f.suspend.Counts (n + 1) := by
  have hcounter := h.counter
  have hevent := h.event
  constructor
  · show f.counter + 1 = _
    omega
  · show (if f.counter + 1 = 1 then false else f.event) = true ↔ _
    split
    · simp
    · have hn : n ≠ 0 := by omega
      simp [hevent, hn]

theorem Counts.resume (h : f.Counts (n + 1)) : f.resume.Counts n := by
  have hcounter := h.counter
  have hevent := h.event
  have hnext : (if f.counter - 1 < 0 then 0 else f.counter - 1) = (n : ℤ) := by
    rw [if_neg (by omega)]
    omega
  constructor
  · exact hnext
  · show (if (if f.counter - 1 < 0 then 0 else f.counter - 1) = 0 then true else f.event) = true ↔ _
    rw [hnext]
    split
    · simp
      omega
    · have hset : f.event = false := by simpa using hevent
      simp [hset]
      omega

theorem Counts.isSuspended (h : f.Counts n) : f.isSuspended = true ↔ 0 < n := by
  have hcounter := h.counter
  simp [FlushController.isSuspended, hcounter]

end FlushController

end MikoV2.Execution
