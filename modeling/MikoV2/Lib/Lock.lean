import Mathlib.Data.List.Nodup
import Mathlib.Tactic.Common

/-!
# Locks with a queue

A `Lock` is not re-entrant: a task that asks for it while it is held waits, whoever holds it. A release hands it to
the first waiter.

* `acquire`, `release` : the calls;
* `Proper` : nobody waits for a free lock, and nobody waits twice; `SelfWait` : the holder waits;
* `Proper.take`, `Proper.queue`, `not_selfWait_queue`, `Proper.release` : what the calls do to them.
-/

structure Lock (T : Type) where
  holder : Option T
  /-- the tasks that wait, in the order in which they came -/
  waiters : List T

namespace Lock

variable {T : Type}

def free : Lock T := ⟨none, []⟩

/-- A task asks for the lock; `false` when it has to wait. -/
def acquire (t : T) (l : Lock T) : Bool × Lock T := match l.holder with
  | none => (true, { l with holder := some t })
  | some _ => (false, { l with waiters := l.waiters ++ [t] })

def release (l : Lock T) : Lock T := match l.waiters with
  | [] => free
  | t :: ts => ⟨some t, ts⟩

/-- Nobody waits for a free lock, and nobody waits twice. -/
structure Proper (l : Lock T) : Prop where
  idle : l.holder = none → l.waiters = []
  nodup : l.waiters.Nodup

/-- The holder waits for the lock. -/
def SelfWait (l : Lock T) : Prop := ∃ t, l.holder = some t ∧ t ∈ l.waiters

section Calls
variable {l : Lock T} {t : T}

theorem proper_free : (free : Lock T).Proper := ⟨fun _ => rfl, List.nodup_nil⟩

theorem not_selfWait_free : ¬ (free : Lock T).SelfWait := by
  rintro ⟨t, ht, -⟩
  cases ht

theorem acquire_none (h : l.holder = none) : l.acquire t = (true, { l with holder := some t }) := by
  simp only [acquire, h]

theorem acquire_some {u : T} (h : l.holder = some u) :
    l.acquire t = (false, { l with waiters := l.waiters ++ [t] }) := by
  simp only [acquire, h]

/-- A task that does not wait takes the free lock. -/
theorem Proper.take (h : l.Proper) (hfree : l.holder = none) :
    ({ l with holder := some t } : Lock T).Proper ∧ ¬ ({ l with holder := some t } : Lock T).SelfWait := by
  refine ⟨⟨nofun, h.nodup⟩, ?_⟩
  rintro ⟨u, -, hmem⟩
  rw [h.idle hfree] at hmem
  cases hmem

/-- A task that does not wait queues. -/
theorem Proper.queue (h : l.Proper) (hheld : l.holder ≠ none) (ht : t ∉ l.waiters) :
    ({ l with waiters := l.waiters ++ [t] } : Lock T).Proper := by
  refine ⟨fun hnone => absurd hnone hheld, ?_⟩
  rw [List.nodup_append]
  refine ⟨h.nodup, List.nodup_singleton t, fun a ha b hb => ?_⟩
  rw [List.mem_singleton.mp hb]
  rintro rfl
  exact ht ha

/-- Unless it holds the lock. -/
theorem not_selfWait_queue (h : ¬ l.SelfWait) (ht : l.holder ≠ some t) :
    ¬ ({ l with waiters := l.waiters ++ [t] } : Lock T).SelfWait := by
  rintro ⟨u, hu, hmem⟩
  rcases List.mem_append.mp hmem with hold | hnew
  · exact h ⟨u, hu, hold⟩
  · rw [List.mem_singleton.mp hnew] at hu
    exact ht hu

theorem Proper.release (h : l.Proper) : l.release.Proper ∧ ¬ l.release.SelfWait := by
  unfold Lock.release
  cases hw : l.waiters with
  | nil => exact ⟨proper_free, not_selfWait_free⟩
  | cons t ts =>
    have hnodup := h.nodup
    rw [hw, List.nodup_cons] at hnodup
    refine ⟨⟨nofun, hnodup.2⟩, ?_⟩
    rintro ⟨u, hu, hmem⟩
    cases hu
    exact hnodup.1 hmem

/-- The new holder and the waiters are among those that waited. -/
theorem mem_release {u : T} :
    (l.release.holder = some u → u ∈ l.waiters) ∧ (u ∈ l.release.waiters → u ∈ l.waiters) := by
  unfold Lock.release
  cases hw : l.waiters with
  | nil => exact ⟨nofun, nofun⟩
  | cons t ts =>
    refine ⟨fun hu => ?_, fun hu => List.mem_cons_of_mem t hu⟩
    cases hu
    exact List.mem_cons_self

end Calls

end Lock
