import Mathlib.Data.List.Count
import Mathlib.Tactic.Common

/-!
# Counting semaphores with a queue

A `Semaphore` hands its permits to waiting tasks in the order in which they came: a release gives the permit
to the first waiter that has none yet, which holds it from then on although it resumes later. A waiter that
leaves before it resumes gives the permit back.

* `arrive`, `resume`, `abandon`, `release` : the calls, split where a task is suspended;
* `permits` : the free permits and those of waiters that have not resumed;
* `permits_release`, `permits_arrive`, `permits_resume`, `permits_abandon` : what each call does to them.
-/

/-- The free permits, and the waiting tasks in order, each with whether it was given a permit. -/
structure Semaphore (T : Type) where
  value : ℕ
  waiters : List (T × Bool)

namespace Semaphore

variable {T : Type}

def new (limit : ℕ) : Semaphore T := ⟨limit, []⟩

/-- Mark the first waiter that has no permit yet. -/
def grantFirst : List (T × Bool) → Option (List (T × Bool))
  | [] => none
  | (t, false) :: l => some ((t, true) :: l)
  | (t, true) :: l => (grantFirst l).map ((t, true) :: ·)

/-- Give a free permit to the first waiter without one; `none` when nobody waits for one. -/
def wakeUpNext (s : Semaphore T) : Option (Semaphore T) := (grantFirst s.waiters).map (⟨s.value - 1, ·⟩)

def release (s : Semaphore T) : Semaphore T :=
  let s' : Semaphore T := { s with value := s.value + 1 }
  s'.wakeUpNext.getD s'

/-- At most `n` permits go to waiters. -/
def wakeUp : ℕ → Semaphore T → Semaphore T
  | 0, s => s
  | n + 1, s => match s.wakeUpNext with
    | none => s
    | some s' => wakeUp n s'

/-- `while value > 0: if not wake_up_next(): break`. -/
def settle (s : Semaphore T) : Semaphore T := wakeUp s.value s

/-- A task asks for a permit: it takes a free one if nobody waits, and queues otherwise. -/
def arrive (t : T) (s : Semaphore T) : Bool × Semaphore T :=
  if s.value = 0 ∨ s.waiters ≠ [] then (false, { s with waiters := s.waiters ++ [(t, false)] })
  else (true, { s with value := s.value - 1 })

section Leave
variable [DecidableEq T]

/-- The task waits, and was given a permit. -/
def granted (t : T) (s : Semaphore T) : Bool := (s.waiters.find? (·.1 = t)).any (·.2)

/-- A task with a permit resumes. -/
def resume (t : T) (s : Semaphore T) : Semaphore T :=
  settle { s with waiters := s.waiters.eraseP (·.1 = t) }

/-- A waiting task is interrupted; a permit that it was given goes back. -/
def abandon (t : T) (s : Semaphore T) : Semaphore T :=
  settle ⟨if s.granted t then s.value + 1 else s.value, s.waiters.eraseP (·.1 = t)⟩

end Leave

/-! ## Permits -/

/-- The waiters that were given a permit and have not resumed. -/
def pending (s : Semaphore T) : ℕ := s.waiters.countP (·.2)

/-- The free permits and those of waiters that have not resumed. -/
def permits (s : Semaphore T) : ℕ := s.value + s.pending

@[simp] theorem permits_new (limit : ℕ) : (new limit : Semaphore T).permits = limit := rfl

theorem grantFirst_count {l l' : List (T × Bool)} (h : grantFirst l = some l') :
    l'.countP (·.2) = l.countP (·.2) + 1 := by
  induction l generalizing l' with
  | nil => cases h
  | cons w l ih =>
    rcases w with ⟨t, _ | _⟩
    · cases h
      simp
    · obtain ⟨rest, hrest, rfl⟩ := Option.map_eq_some_iff.mp h
      have := ih hrest
      simp [this]

theorem permits_wakeUpNext {s s' : Semaphore T} (hpos : 0 < s.value) (h : s.wakeUpNext = some s') :
    s'.permits = s.permits := by
  obtain ⟨l, hl, rfl⟩ := Option.map_eq_some_iff.mp h
  have := grantFirst_count hl
  unfold permits pending
  simp only
  omega

theorem permits_wakeUp (n : ℕ) : ∀ s : Semaphore T, n ≤ s.value → (wakeUp n s).permits = s.permits := by
  induction n with
  | zero => exact fun s _ => rfl
  | succ n ih =>
    intro s hn
    unfold wakeUp
    split
    · rfl
    · rename_i s' hs'
      have hval : s'.value = s.value - 1 := by
        obtain ⟨l, -, rfl⟩ := Option.map_eq_some_iff.mp hs'
        rfl
      rw [ih s' (by omega), permits_wakeUpNext (by omega) hs']

theorem permits_settle (s : Semaphore T) : s.settle.permits = s.permits := permits_wakeUp _ s (Nat.le_refl _)

/-- A release adds a permit, whether or not one was taken. -/
theorem permits_release (s : Semaphore T) : s.release.permits = s.permits + 1 := by
  have hadd : ({ s with value := s.value + 1 } : Semaphore T).permits = s.permits + 1 := by
    unfold permits pending
    simp only
    omega
  unfold release
  simp only
  cases h : ({ s with value := s.value + 1 } : Semaphore T).wakeUpNext with
  | none => exact hadd
  | some s' => exact (permits_wakeUpNext (Nat.succ_pos _) h).trans hadd

theorem permits_arrive {t : T} {s s' : Semaphore T} {took : Bool} (h : s.arrive t = (took, s')) :
    s'.permits + (if took then 1 else 0) = s.permits := by
  unfold arrive at h
  split at h
  · cases h
    simp [permits, pending]
  · rename_i hfree
    cases h
    unfold permits pending
    simp only [ite_true]
    omega

section Leave
variable [DecidableEq T] {t : T} {s : Semaphore T}

/-- The entry that `eraseP` takes away is the one that `find?` finds. -/
theorem count_eraseP (t : T) (l : List (T × Bool)) :
    (l.eraseP (·.1 = t)).countP (·.2) + (if (l.find? (·.1 = t)).any (·.2) then 1 else 0) = l.countP (·.2) := by
  induction l with
  | nil => rfl
  | cons w l ih =>
    by_cases hw : w.1 = t
    · simp [hw, List.countP_cons]
    · simp only [hw, decide_false, Bool.false_eq_true, not_false_eq_true, List.eraseP_cons_of_neg,
        List.countP_cons, List.find?_cons_of_neg]
      omega

theorem permits_resume (h : s.granted t = true) : (s.resume t).permits + 1 = s.permits := by
  have hcount := count_eraseP t s.waiters
  unfold granted at h
  rw [h] at hcount
  unfold resume
  rw [permits_settle]
  unfold permits pending
  simp only [ite_true] at hcount ⊢
  omega

theorem permits_abandon (t : T) (s : Semaphore T) : (s.abandon t).permits = s.permits := by
  have hcount := count_eraseP t s.waiters
  unfold abandon granted
  rw [permits_settle]
  unfold permits pending
  simp only
  split at hcount <;> rename_i hg <;> simp only [hg, ite_true, ite_false, Bool.false_eq_true] <;> omega

end Leave

end Semaphore
