import Mathlib.Data.Nat.Notation
import Mathlib.Tactic.Common

/-!
# While loops

A loop is one round, from a state to the next, `none` where its test fails.

* `Ends round s t` : from `s` the loop ends in `t`; `Exits` : it ends;
* `exits_of_measure` : every round makes a measure smaller; `not_exits` : no round leaves a set in which the test holds;
* `exists_first` : the first round with a property; `exists_first_succ` : for an induction over the rounds.
-/

namespace Loop

variable {σ : Type}

/-- From `s` the loop ends in `t`. -/
inductive Ends (round : σ → Option σ) : σ → σ → Prop
  | done {s : σ} (htest : round s = none) : Ends round s s
  | again {s m t : σ} (hround : round s = some m) (hrest : Ends round m t) : Ends round s t

def Exits (round : σ → Option σ) (s : σ) : Prop := ∃ t, Ends round s t

variable {round : σ → Option σ} {s t m : σ}

theorem Ends.test (h : Ends round s t) : round t = none := by
  induction h with
  | done htest => exact htest
  | again _ _ ih => exact ih

theorem ends_again (hround : round s = some m) : Ends round s t ↔ Ends round m t := by
  constructor
  · intro h
    cases h with
    | done htest => rw [htest] at hround; cases hround
    | again hround' hrest =>
      rw [hround] at hround'
      cases hround'
      exact hrest
  · exact Ends.again hround

theorem ends_done (htest : round s = none) : Ends round s t ↔ s = t := by
  constructor
  · intro h
    cases h with
    | done => rfl
    | again hround => rw [htest] at hround; cases hround
  · rintro rfl
    exact Ends.done htest

theorem Ends.unique {u : σ} (h : Ends round s t) (h' : Ends round s u) : t = u := by
  induction h with
  | done htest => exact (ends_done htest).mp h'
  | again hround _ ih => exact ih ((ends_again hround).mp h')

theorem exits_again (hround : round s = some m) : Exits round s ↔ Exits round m :=
  exists_congr fun _ => ends_again hround

theorem exits_done (htest : round s = none) : Exits round s := ⟨s, Ends.done htest⟩

/-- A loop with a measure ends. -/
theorem exits_of_measure (μ : σ → ℕ) (h : ∀ s m, round s = some m → μ m < μ s) (s : σ) : Exits round s := by
  induction hμ : μ s using Nat.strongRecOn generalizing s with
  | ind n ih =>
    cases hround : round s with
    | none => exact exits_done hround
    | some m => exact (exits_again hround).mpr (ih (μ m) (hμ ▸ h s m hround) m rfl)

/-- A loop does not leave a set in which its test holds. -/
theorem not_exits (I : σ → Prop) (hstay : ∀ s, I s → ∃ m, round s = some m ∧ I m) (hs : I s) : ¬ Exits round s := by
  rintro ⟨t, h⟩
  induction h with
  | done htest =>
    obtain ⟨m, hm, -⟩ := hstay _ hs
    rw [htest] at hm
    cases hm
  | again hround _ ih =>
    obtain ⟨m, hm, hI⟩ := hstay _ hs
    rw [hround] at hm
    cases hm
    exact ih hI

/-- Of the rounds with a property one is the first. -/
theorem exists_first {P : ℕ → Prop} {n : ℕ} (h : ∃ k < n, P k) : ∃ k < n, P k ∧ ∀ i < k, ¬ P i := by
  obtain ⟨k, hk, hP⟩ := h
  induction k using Nat.strongRecOn with
  | ind k ih =>
    by_cases hearlier : ∃ i < k, P i
    · obtain ⟨i, hi, hPi⟩ := hearlier
      exact ih i hi (by omega) hPi
    · exact ⟨k, hk, hP, fun i hi hPi => hearlier ⟨i, hi, hPi⟩⟩

/-- The first of the rounds from `k` at which `P` is found, after rounds with `Q`: the round `k`, or one after it. -/
theorem exists_first_succ {P Q : ℕ → Prop} {k n : ℕ} : (∃ j < n + 1, P (k + j) ∧ ∀ i < j, Q (k + i)) ↔
    P k ∨ (Q k ∧ ∃ j < n, P (k + 1 + j) ∧ ∀ i < j, Q (k + 1 + i)) := by
  constructor
  · rintro ⟨j, hj, hfound, hbefore⟩
    cases j with
    | zero => exact .inl hfound
    | succ j =>
      refine .inr ⟨hbefore 0 (by omega), j, by omega, by rwa [Nat.add_right_comm], fun i hi => ?_⟩
      rw [Nat.add_right_comm]
      exact hbefore (i + 1) (by omega)
  · rintro (hfound | ⟨hfirst, j, hj, hfound, hbefore⟩)
    · exact ⟨0, by omega, hfound, fun i hi => absurd hi (Nat.not_lt_zero i)⟩
    · refine ⟨j + 1, by omega, by rwa [Nat.add_right_comm] at hfound, fun i hi => ?_⟩
      cases i with
      | zero => exact hfirst
      | succ i =>
        have hrest := hbefore i (by omega)
        rwa [Nat.add_right_comm] at hrest

end Loop
