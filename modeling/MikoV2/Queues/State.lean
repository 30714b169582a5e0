import Mathlib.Data.List.Basic
import Mathlib.Data.Nat.Notation
import MikoV2.Lib.Runs

/-!
# `AsyncStateQueue`

One life of the writer, from `start` to `stop`. It takes an item out of the asyncio queue, which wakes it up, and then
tries to put it into the queue of the other process until there is room. `stop` cancels it and, when it has ended, puts
what is left in the asyncio queue into the other one, without waiting for room.

* `StateQueue`, `step` : the state, and what happens between two suspensions;
* `DropNever` : nothing is lost, and `stop` leaves everything in the other queue, in order; `Clean` : the steps that do so;
* `dropNever_iff_clean`.
-/

namespace MikoV2.Queues

variable {α : Type}

/-- Where the writer is. -/
inductive Writer (α : Type) where
  /-- in `wait_for` -/
  | waiting
  /-- the item is out of the asyncio queue, and the writer not yet awake -/
  | got (x : α)
  /-- in the sleep after a put without room -/
  | retrying (x : α)
  | ended

structure StateQueue (α : Type) where
  asyncQueue : List α
  /-- what has been put into the `mp.Queue`, the first first -/
  mpQueue : List α
  writer : Writer α
  running : Bool
  /-- `stop` has returned -/
  stopped : Bool
  /-- the items whose `put` has completed -/
  puts : List α

inductive StateEvent (α : Type) where
  | put (x : α)
  | get
  /-- the writer is awake: whether the other queue has room -/
  | tryPut (room : Bool)
  | stop
  /-- the cancellation reaches the writer -/
  | unwind
  /-- `_drain_remaining`: whether the other queue has room for the item `i` -/
  | drain (room : ℕ → Bool)

/-- What `_drain_remaining` puts into the other queue, of the items from the number `i` on. -/
def drainRemaining (room : ℕ → Bool) : ℕ → List α → List α
  | _, [] => []
  | i, x :: xs => if room i then x :: drainRemaining room (i + 1) xs else drainRemaining room (i + 1) xs

namespace StateQueue

/-- After `start`, with the items that have been put before. -/
def started (before : List α) : StateQueue α := ⟨before, [], .waiting, true, false, before⟩

/-- What the writer holds. -/
def hand (q : StateQueue α) : List α := match q.writer with
  | .got x => [x]
  | .retrying x => [x]
  | _ => []

/-- The writer's `put_nowait`. -/
def tryPut (x : α) (room : Bool) (q : StateQueue α) : StateQueue α :=
  if room then { q with mpQueue := q.mpQueue ++ [x], writer := .waiting } else { q with writer := .retrying x }

/-- `0` is no bound. -/
def step (maxsize : ℕ) (q : StateQueue α) : StateEvent α → StateQueue α
  | .put x =>
    if maxsize = 0 ∨ q.asyncQueue.length < maxsize then { q with asyncQueue := q.asyncQueue ++ [x], puts := q.puts ++ [x] }
    else q
  | .get => match q.writer, q.asyncQueue with
    | .waiting, x :: rest => { q with asyncQueue := rest, writer := .got x }
    | _, _ => q
  | .tryPut room => if q.running then (match q.writer with
      | .got x => q.tryPut x room
      | .retrying x => q.tryPut x room
      | _ => q)
    else q
  | .stop => { q with running := false }
  -- neither the sleep nor the loop that finds the queue stopped does anything with the item
  | .unwind => if q.running then q else { q with writer := .ended }
  | .drain room => match q.writer with
    | .ended =>
      if q.stopped then q
      else { q with mpQueue := q.mpQueue ++ drainRemaining room 0 q.asyncQueue, asyncQueue := [], stopped := true }
    | _ => q

/-- Every item whose put has completed is in one of the three places, once, and in the order of the puts. -/
def Kept (q : StateQueue α) : Prop := q.puts = q.mpQueue ++ q.hand ++ q.asyncQueue

/-- After the step no item is lost, and if `stop` returns with it all of them are in the other queue. -/
def DropNever (maxsize : ℕ) (q : StateQueue α) (e : StateEvent α) : Prop :=
  (q.step maxsize e).Kept ∧
    (q.stopped = false → (q.step maxsize e).stopped = true → (q.step maxsize e).puts = (q.step maxsize e).mpQueue)

/-- The cancellation finds the writer without an item, and the drain finds room. -/
def Clean (q : StateQueue α) : StateEvent α → Prop
  | .unwind => q.running = false → q.hand = []
  | .drain room => q.writer = .ended → q.stopped = false → ∀ i < q.asyncQueue.length, room i = true
  | _ => True

section Steps
variable {maxsize : ℕ} {q : StateQueue α} {room : ℕ → Bool}

theorem drainRemaining_length (room : ℕ → Bool) (i : ℕ) (xs : List α) :
    (drainRemaining room i xs).length ≤ xs.length := by
  induction xs generalizing i with
  | nil => exact Nat.le_refl _
  | cons x xs ih =>
    have hle := ih (i + 1)
    simp only [drainRemaining]
    split
    · simpa using hle
    · exact hle.trans (Nat.le_succ _)

/-- Everything gets through exactly when there is room for each item. -/
theorem drainRemaining_eq_iff {i : ℕ} {xs : List α} :
    drainRemaining room i xs = xs ↔ ∀ j < xs.length, room (i + j) = true := by
  induction xs generalizing i with
  | nil => simp [drainRemaining]
  | cons x xs ih =>
    have hsplit : (∀ j < (x :: xs).length, room (i + j) = true) ↔
        room i = true ∧ ∀ j < xs.length, room (i + 1 + j) = true := by
      constructor
      · intro h
        refine ⟨h 0 (Nat.zero_lt_succ _), fun j hj => ?_⟩
        rw [Nat.add_right_comm]
        exact h (j + 1) (Nat.succ_lt_succ hj)
      · rintro ⟨h0, h⟩ j hj
        cases j with
        | zero => exact h0
        | succ j =>
          have := h j (Nat.lt_of_succ_lt_succ hj)
          rwa [Nat.add_right_comm] at this
    rw [hsplit, ← ih]
    simp only [drainRemaining]
    by_cases hroom : room i = true
    · simp [hroom]
    · rw [if_neg hroom]
      refine iff_of_false (fun heq => ?_) fun h => hroom h.1
      have hle := drainRemaining_length room (i + 1) xs
      rw [heq, List.length_cons] at hle
      omega

/-- What does not stop the queue, and keeps everything, drops nothing. -/
theorem dropNever_of_kept {e : StateEvent α} (hkept : (q.step maxsize e).Kept)
    (hstopped : (q.step maxsize e).stopped = q.stopped) : DropNever maxsize q e := by
  refine ⟨hkept, fun hold hnew => ?_⟩
  rw [hstopped, hold] at hnew
  cases hnew

theorem kept_tryPut (h : q.Kept) {x : α} (hhand : q.hand = [x]) (room : Bool) : (q.tryPut x room).Kept := by
  unfold Kept at h ⊢
  rw [hhand] at h
  cases room with
  | true =>
    show q.puts = q.mpQueue ++ [x] ++ [] ++ q.asyncQueue
    rw [h, List.append_nil]
  | false => exact h

theorem dropNever_tryPut (h : q.Kept) (room : Bool) : DropNever maxsize q (.tryPut room) := by
  have hstopped : ∀ x, (q.tryPut x room).stopped = q.stopped := fun x => by cases room <;> rfl
  apply dropNever_of_kept
  · simp only [step]
    split
    · split
      · rename_i x hgot
        exact kept_tryPut h (by simp only [hand, hgot]) room
      · rename_i x hretrying
        exact kept_tryPut h (by simp only [hand, hretrying]) room
      · exact h
    · exact h
  · simp only [step]
    split
    · split
      · exact hstopped _
      · exact hstopped _
      · rfl
    · rfl

/-- The drain puts everything into the other queue exactly when there is room for it. -/
theorem dropNever_drain_iff (h : q.Kept) (hended : q.writer = .ended) (hrunning : q.stopped = false) :
    DropNever maxsize q (.drain room) ↔ ∀ i < q.asyncQueue.length, room i = true := by
  have hhand : q.hand = [] := by simp only [hand, hended]
  have hafter : q.step maxsize (.drain room) = { q with
      mpQueue := q.mpQueue ++ drainRemaining room 0 q.asyncQueue, asyncQueue := [], stopped := true } := by
    simp [step, hended, hrunning]
  have hnext : q.puts = q.mpQueue ++ drainRemaining room 0 q.asyncQueue ↔
      drainRemaining room 0 q.asyncQueue = q.asyncQueue := by
    unfold Kept at h
    rw [h, hhand, List.append_nil, List.append_right_inj, eq_comm]
  have hall : (∀ i < q.asyncQueue.length, room i = true) ↔ drainRemaining room 0 q.asyncQueue = q.asyncQueue := by
    rw [drainRemaining_eq_iff]
    simp
  rw [hall, ← hnext]
  unfold DropNever Kept
  rw [hafter]
  have hnone : hand { q with
      mpQueue := q.mpQueue ++ drainRemaining room 0 q.asyncQueue, asyncQueue := [], stopped := true } = [] := hhand
  simp [hnone, hrunning]

theorem kept_unwind_iff (h : q.Kept) (hstopping : q.running = false) :
    (q.step maxsize .unwind).Kept ↔ q.hand = [] := by
  have hafter : q.step maxsize .unwind = { q with writer := .ended } := by simp [step, hstopping]
  have hnone : hand { q with writer := .ended } = [] := rfl
  unfold Kept at h ⊢
  rw [hafter, hnone, h]
  simp

/-- **One step.** It drops nothing exactly when it is clean. -/
theorem dropNever_iff (h : q.Kept) (e : StateEvent α) : DropNever maxsize q e ↔ q.Clean e := by
  cases e with
  | put x =>
    refine iff_of_true (dropNever_of_kept ?_ ?_) trivial
    · simp only [step]
      split
      · unfold Kept at h ⊢
        show q.puts ++ [x] = q.mpQueue ++ q.hand ++ (q.asyncQueue ++ [x])
        rw [h, List.append_assoc _ q.asyncQueue]
      · exact h
    · simp only [step]
      split <;> rfl
  | get =>
    refine iff_of_true (dropNever_of_kept ?_ ?_) trivial
    · obtain ⟨asyncQueue, mpQueue, writer, running, stopped, puts⟩ := q
      cases writer with
      | waiting =>
        cases asyncQueue with
        | nil => exact h
        | cons x rest =>
          show puts = mpQueue ++ [x] ++ rest
          rw [List.append_assoc]
          simpa [Kept, hand] using h
      | _ => exact h
    · simp only [step]
      split <;> rfl
  | tryPut room => exact iff_of_true (dropNever_tryPut h room) trivial
  | stop => exact iff_of_true (dropNever_of_kept h rfl) trivial
  | unwind =>
    cases hrunning : q.running with
    | true =>
      have hstay : q.step maxsize .unwind = q := by simp [step, hrunning]
      refine iff_of_true (dropNever_of_kept ?_ ?_) fun hstopping => ?_
      · rwa [hstay]
      · rw [hstay]
      · rw [hrunning] at hstopping
        cases hstopping
    | false =>
      have hstopped : (q.step maxsize .unwind).stopped = q.stopped := by simp [step, hrunning]
      constructor
      · exact fun hdrop _ => (kept_unwind_iff h hrunning).mp hdrop.1
      · exact fun hclean => dropNever_of_kept ((kept_unwind_iff h hrunning).mpr (hclean hrunning)) hstopped
  | drain room =>
    by_cases hdrains : q.writer = .ended ∧ q.stopped = false
    · rw [dropNever_drain_iff h hdrains.1 hdrains.2]
      exact ⟨fun hroom _ _ => hroom, fun hclean => hclean hdrains.1 hdrains.2⟩
    · have hstay : q.step maxsize (.drain room) = q := by
        simp only [step]
        split
        · rename_i hended
          rw [if_pos]
          by_contra hstopped
          exact hdrains ⟨hended, by simpa using hstopped⟩
        · rfl
      refine iff_of_true (dropNever_of_kept ?_ ?_) fun hended hopen => absurd ⟨hended, hopen⟩ hdrains
      · rwa [hstay]
      · rw [hstay]

end Steps

/-- **Drop never.** In every step of a run every item whose put has completed is kept, once and in order, and `stop` leaves
all of them in the other queue, exactly when the cancellation does not find the writer with an item and the final drain
finds room. -/
theorem dropNever_iff_clean (maxsize : ℕ) (before : List α) (es : List (StateEvent α)) :
    Runs.Guarded (DropNever maxsize) (step maxsize) (started before) es ↔
      Runs.Guarded Clean (step maxsize) (started before) es :=
  Runs.guarded_iff_guarded (I := Kept) rfl
    (fun _ e _ h hclean => ⟨((dropNever_iff h e).mpr hclean).1, (dropNever_iff h e).mpr hclean⟩)
    fun _ e _ h hunclean hdrop => hunclean ((dropNever_iff h e).mp hdrop)

/-- The other queue was full at the first try, and has room again when the queue is stopped. -/
def stoppedInRetry : List (StateEvent ℕ) :=
  [.put 0, .get, .tryPut false, .stop, .unwind, .drain fun _ => true]

/-- The item that the writer was holding is lost. -/
theorem not_dropNever_stoppedInRetry :
    ¬ ∀ (maxsize : ℕ) (before : List ℕ) (es : List (StateEvent ℕ)),
      (∀ room, .drain room ∈ es → ∀ i, room i = true) →
        Runs.Guarded (DropNever maxsize) (step maxsize) (started before) es := by
  intro h
  have hroom : ∀ room, .drain room ∈ stoppedInRetry → ∀ i, room i = true := by
    intro room hmem i
    obtain rfl : room = fun _ => true := by simpa [stoppedInRetry] using hmem
    rfl
  have hlast := (h 200 [] stoppedInRetry hroom [.put 0, .get, .tryPut false, .stop] .unwind
    ⟨[.drain fun _ => true], rfl⟩).1
  revert hlast
  unfold Kept
  decide

end StateQueue

end MikoV2.Queues
