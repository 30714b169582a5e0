import MikoV2.DataLayer.L2Buffer
import MikoV2.Lib.Loop

/-!
# The loops around `trim`

`apply_batch` calls `trim` until the levels of a side and the new ones of the batch stay below the capacity, and `trim`
has a loop of its own, which ends on an empty side.

* `trimRound`, `roomRound` : the rounds of the two loops; `trim_ends`, `ends_roomRound` : `trim` and `roomLoop` are
  these;
* `newLevels` : the diffs that set a price the side does not have, each counted;
* `Terminates` : both loops of `apply_batch` end; `terminates_iff` : when they do.
-/

namespace MikoV2.DataLayer
open Loop

variable {Msg : Type} {new : ℕ} {s t : Side}

/-- A round of the loop of `trim`; the `break` leaves it as the test does. -/
def trimRound (new : ℕ) (s : Side) : Option Side :=
  if s.len + new ≥ MAX_BUFFER then
    let trimN := min TRIM_BLOCK s.len
    if trimN = 0 then none else some { s.clear (s.len - trimN) s.len with len := s.len - trimN }
  else none

/-- A round of `while len + batch_new >= MAX_BUFFER: trim(…)`. -/
def roomRound (new : ℕ) (s : Side) : Option Side := if s.len + new ≥ MAX_BUFFER then some (trim new s) else none

/-- The diffs that set a price of a side, with a quantity, that the search does not find there. -/
def newLevels (name : SideName) (diffs : List Diff) (s : Side) : List Diff :=
  diffs.filter fun d => decide (d.side = name) && decide (d.qty ≠ 0) && !(find name s d.price).2

/-- The loops of a batch end: those before the second pass, and the one of `trim` wherever it is called. -/
def Terminates (b : L2Book Msg) (diffs : List Diff) (batchEpoch : ℕ) : Prop :=
  (∀ name s, Exits (trimRound (batchNew name diffs (b.side name))) s) ∧
    (batchEpoch = b.seqEpoch → ∀ name, Exits (roomRound (batchNew name diffs (b.side name))) (b.side name))

/-! ## The loop of `trim` -/

theorem trimRound_len (h : trimRound new s = some t) : t.len < s.len := by
  unfold trimRound at h
  split at h
  · dsimp only at h
    split at h
    · cases h
    · cases h
      dsimp only
      omega
  · cases h

theorem trimRound_exits (new : ℕ) (s : Side) : Exits (trimRound new) s :=
  exits_of_measure Side.len (fun _ _ => trimRound_len) s

theorem trimLoop_ends : ∀ fuel (s : Side), s.len < fuel → Ends (trimRound new) s (trimLoop new fuel s) := by
  intro fuel
  induction fuel with
  | zero => exact fun s h => absurd h (Nat.not_lt_zero _)
  | succ fuel ih =>
    intro s h
    unfold trimLoop
    by_cases hfull : s.len + new ≥ MAX_BUFFER
    · rw [if_pos hfull]
      dsimp only
      by_cases hempty : min TRIM_BLOCK s.len = 0
      · rw [if_pos hempty]
        exact .done (by simp [trimRound, hempty])
      · have hround : trimRound new s = some { s.clear (s.len - min TRIM_BLOCK s.len) s.len with
            len := s.len - min TRIM_BLOCK s.len } := by
          simp [trimRound, hfull, hempty]
        rw [if_neg hempty]
        exact .again hround (ih _ (by have := trimRound_len hround; omega))
    · rw [if_neg hfull]
      exact .done (by simp [trimRound, hfull])

/-- `trim` is what its loop ends in. -/
theorem trim_ends (new : ℕ) (s : Side) : Ends (trimRound new) s (trim new s) := trimLoop_ends _ s (Nat.lt_succ_self _)

/-! ## The loop of `apply_batch` -/

theorem roomRound_full (h : s.len + new ≥ MAX_BUFFER) : roomRound new s = some (trim new s) := if_pos h

theorem roomRound_fits (h : ¬ s.len + new ≥ MAX_BUFFER) : roomRound new s = none := if_neg h

/-- Two tests of the loop are enough. -/
theorem ends_roomRound : Ends (roomRound new) s t ↔ roomLoop new 2 s = some t := by
  by_cases hfull : s.len + new ≥ MAX_BUFFER
  · rw [ends_again (roomRound_full hfull), roomLoop, if_pos hfull]
    by_cases hstuck : (trim new s).len + new ≥ MAX_BUFFER
    · have hempty : (trim new s).len = 0 := (trim_done new s).resolve_left (by omega)
      have hloop : ¬ Exits (roomRound new) (trim new s) := by
        refine not_exits (· = trim new s) ?_ rfl
        rintro _ rfl
        exact ⟨trim new s, by rw [roomRound_full hstuck, trim_of_empty hempty], rfl⟩
      rw [roomLoop, if_pos hstuck]
      exact iff_of_false (fun h => hloop ⟨t, h⟩) (Option.some_ne_none t).symm
    · rw [roomLoop, if_neg hstuck, ends_done (roomRound_fits hstuck), Option.some_inj]
  · rw [ends_done (roomRound_fits hfull), roomLoop, if_neg hfull, Option.some_inj]

/-- The loop ends when the new levels alone are below the capacity. -/
theorem roomRound_exits_iff : Exits (roomRound new) s ↔ new < MAX_BUFFER := by
  constructor
  · rintro ⟨t, h⟩
    have htest : ¬ t.len + new ≥ MAX_BUFFER := fun hfull => by
      have hnone := h.test
      rw [roomRound_full hfull] at hnone
      cases hnone
    omega
  · intro hnew
    by_cases hfull : s.len + new ≥ MAX_BUFFER
    · rw [exits_again (roomRound_full hfull)]
      refine exits_done (roomRound_fits ?_)
      rcases trim_done new s with hlt | hempty
      · omega
      · omega
    · exact exits_done (roomRound_fits hfull)

/-! ## A batch -/

theorem batchNew_eq (name : SideName) (diffs : List Diff) (s : Side) :
    batchNew name diffs s = (newLevels name diffs s).length := List.countP_eq_length_filter

/-- The model of a batch diverges where a loop does not end. -/
theorem terminates_iff_outcome {b : L2Book Msg} {diffs : List Diff} {batchEpoch : ℕ} :
    Terminates b diffs batchEpoch ↔ applyBatch b diffs batchEpoch ≠ .diverged := by
  have hexits : ∀ name, Exits (roomRound (batchNew name diffs (b.side name))) (b.side name) ↔
      roomLoop (batchNew name diffs (b.side name)) 2 (b.side name) ≠ none := fun name => by
    simp only [Exits, ends_roomRound, Option.ne_none_iff_exists']
  have hsplit : Terminates b diffs batchEpoch ↔ (batchEpoch = b.seqEpoch →
      roomLoop (batchNew .bid diffs b.bids) 2 b.bids ≠ none ∧
        roomLoop (batchNew .ask diffs b.asks) 2 b.asks ≠ none) := by
    unfold Terminates
    rw [and_iff_right fun name s => trimRound_exits _ s]
    refine forall_congr' fun _ => ⟨fun h => ⟨(hexits .bid).mp (h .bid), (hexits .ask).mp (h .ask)⟩, fun h name => ?_⟩
    cases name with
    | bid => exact (hexits .bid).mpr h.1
    | ask => exact (hexits .ask).mpr h.2
  rw [hsplit, applyBatch]
  by_cases he : batchEpoch = b.seqEpoch
  · rw [if_neg (not_not.mpr he)]
    cases roomLoop (batchNew .bid diffs b.bids) 2 b.bids with
    | none => simp [he]
    | some bids =>
      cases roomLoop (batchNew .ask diffs b.asks) 2 b.asks with
      | none => simp [he]
      | some asks =>
        dsimp only
        rcases applyDiffs diffs { b with bids, asks } with ⟨_ | _, b'⟩
        · simp
        · simp
  · rw [if_pos he]
    simp [he]

/-- **Termination.** A batch of the book's epoch ends exactly when it has, on each side, fewer than `MAX_BUFFER` diffs
with a new price. -/
theorem terminates_iff (b : L2Book Msg) (diffs : List Diff) (batchEpoch : ℕ) : Terminates b diffs batchEpoch ↔
    (batchEpoch = b.seqEpoch → ∀ name, (newLevels name diffs (b.side name)).length < MAX_BUFFER) := by
  unfold Terminates
  rw [and_iff_right fun name s => trimRound_exits _ s]
  simp only [roomRound_exits_iff, batchNew_eq]

/-- The same new price, 5000 times over. -/
theorem not_terminates_repeated : ¬ ∀ (b : L2Book Unit) (diffs : List Diff) (batchEpoch : ℕ),
    (∀ name, (b.side name).len ≤ MAX_BUFFER) → Terminates b diffs batchEpoch := by
  intro h
  have hterm := (h {} (List.replicate MAX_BUFFER ⟨.bid, 100, 1⟩) 0 (fun name => by cases name <;> exact Nat.zero_le _)).2
    rfl .bid
  have hnew : batchNew .bid (List.replicate MAX_BUFFER ⟨.bid, 100, 1⟩) {} = MAX_BUFFER := by
    rw [batchNew, List.countP_replicate, if_pos (by decide)]
  have hlt := roomRound_exits_iff.mp hterm
  rw [show (({} : L2Book Unit).side .bid) = {} from rfl, hnew] at hlt
  exact lt_irrefl _ hlt

end MikoV2.DataLayer
