import Mathlib.Data.Int.Notation
import Mathlib.Logic.Function.Basic
import Mathlib.Tactic.Common

/-!
# `SequenceValidator`

One `SeqState` per symbol; the per-symbol locks are never contended, so each method is one step.

* `validate` : the four verdicts on an update, and the state after it;
* `validate_isValid`, `validate_states` : which updates are accepted, and what they change.
-/

namespace MikoV2.DataLayer

inductive SeqMode
  | BINANCE
  | MEXC
deriving DecidableEq, Repr

/-- The clock reading of the last change is left out: nothing reads it. -/
structure SeqState where
  lastU : ℤ
  epoch : ℕ
deriving DecidableEq

structure SeqResult where
  isValid : Bool
  isGap : Bool
  needsResync : Bool
  lastU : ℤ
deriving DecidableEq

abbrev SeqStates := String → Option SeqState

/-- `MEXC` reads the version from `firstU` and takes any increase; `BINANCE` wants `firstU ≤ last_u + 1`. -/
def validate (mode : SeqMode) (states : SeqStates) (symbol : String) (epoch : ℕ) (firstU finalU : ℤ) :
    SeqResult × SeqStates :=
  match states symbol with
  | none => (⟨false, false, true, 0⟩, states)
  | some state =>
    if epoch ≠ state.epoch then (⟨false, false, true, state.lastU⟩, states)
    else match mode with
      | .MEXC =>
        if firstU ≤ state.lastU then (⟨false, false, false, state.lastU⟩, states)
        else (⟨true, false, false, firstU⟩, Function.update states symbol (some ⟨firstU, epoch⟩))
      | .BINANCE =>
        if finalU ≤ state.lastU then (⟨false, false, false, state.lastU⟩, states)
        else if firstU > state.lastU + 1 then (⟨false, true, true, state.lastU⟩, states)
        else (⟨true, false, false, finalU⟩, Function.update states symbol (some ⟨finalU, epoch⟩))

def setEpoch (states : SeqStates) (symbol : String) (epoch : ℕ) : SeqStates :=
  Function.update states symbol (some ⟨0, epoch⟩)

/-- `set_last_u`. -/
def setLastU (states : SeqStates) (symbol : String) (lastU : ℤ) : SeqStates :=
  match states symbol with
  | some state => Function.update states symbol (some ⟨lastU, state.epoch⟩)
  | none => Function.update states symbol (some ⟨lastU, 0⟩)

/-- The number by which the mode orders updates. -/
def finalSeq (mode : SeqMode) (firstU finalU : ℤ) : ℤ :=
  match mode with
  | .MEXC => firstU
  | .BINANCE => finalU

variable {mode : SeqMode} {states states' : SeqStates} {symbol : String} {epoch : ℕ} {firstU finalU : ℤ}
  {r : SeqResult} {st : SeqState}

theorem setLastU_same (hst : states symbol = some st) (lastU : ℤ) :
    setLastU states symbol lastU symbol = some ⟨lastU, st.epoch⟩ := by
  unfold setLastU
  rw [hst]
  exact Function.update_self ..

/-- An update is accepted exactly when it is of the state's epoch, newer than the state and, in `BINANCE`
mode, not beyond the next number. -/
theorem validate_isValid (hst : states symbol = some st) :
    (validate mode states symbol epoch firstU finalU).1.isValid = true ↔
      epoch = st.epoch ∧ st.lastU < finalSeq mode firstU finalU ∧ (mode = .BINANCE → firstU ≤ st.lastU + 1) := by
  unfold validate finalSeq
  rw [hst]
  dsimp only
  by_cases he : epoch = st.epoch
  · rw [if_neg (not_not.mpr he)]
    cases mode with
    | MEXC =>
      dsimp only
      by_cases hs : firstU ≤ st.lastU
      · rw [if_pos hs]
        refine iff_of_false Bool.false_ne_true fun h => ?_
        have hnew : st.lastU < firstU := h.2.1
        omega
      · rw [if_neg hs]
        refine iff_of_true rfl ⟨he, ?_, nofun⟩
        omega
    | BINANCE =>
      dsimp only
      by_cases hs : finalU ≤ st.lastU
      · rw [if_pos hs]
        refine iff_of_false Bool.false_ne_true fun h => ?_
        have hnew : st.lastU < finalU := h.2.1
        omega
      · rw [if_neg hs]
        by_cases hg : firstU > st.lastU + 1
        · rw [if_pos hg]
          refine iff_of_false Bool.false_ne_true fun h => ?_
          have hnext : firstU ≤ st.lastU + 1 := h.2.2 rfl
          omega
        · rw [if_neg hg]
          refine iff_of_true rfl ⟨he, ?_, fun _ => ?_⟩
          · omega
          · omega
  · rw [if_pos he]
    exact iff_of_false Bool.false_ne_true fun h => he h.1

/-- In `MEXC` mode, an update of the state's epoch is stale or accepted. -/
theorem validate_mexc (hst : states symbol = some st) (he : epoch = st.epoch) :
    validate .MEXC states symbol epoch firstU finalU =
      if firstU ≤ st.lastU then (⟨false, false, false, st.lastU⟩, states)
      else (⟨true, false, false, firstU⟩, Function.update states symbol (some ⟨firstU, epoch⟩)) := by
  unfold validate
  rw [hst]
  dsimp only
  rw [if_neg (not_not.mpr he)]

/-- An accepted update becomes the state of its symbol, and only then does the state change. -/
theorem validate_states (h : validate mode states symbol epoch firstU finalU = (r, states')) :
    (r.isValid = true ∧ r.needsResync = false ∧ (∃ st, states symbol = some st ∧ epoch = st.epoch) ∧
        states' = Function.update states symbol (some ⟨finalSeq mode firstU finalU, epoch⟩)) ∨
      (r.isValid = false ∧ states' = states) := by
  unfold validate at h
  unfold finalSeq
  cases hst : states symbol with
  | none =>
    rw [hst] at h
    cases h
    exact Or.inr ⟨rfl, rfl⟩
  | some st =>
    rw [hst] at h
    dsimp only at h
    split at h
    · cases h
      exact Or.inr ⟨rfl, rfl⟩
    · rename_i he
      split at h
      · split at h
        · cases h
          exact Or.inr ⟨rfl, rfl⟩
        · cases h
          exact Or.inl ⟨rfl, rfl, ⟨st, rfl, not_not.mp he⟩, rfl⟩
      · split at h
        · cases h
          exact Or.inr ⟨rfl, rfl⟩
        · split at h
          · cases h
            exact Or.inr ⟨rfl, rfl⟩
          · cases h
            exact Or.inl ⟨rfl, rfl, ⟨st, rfl, not_not.mp he⟩, rfl⟩

end MikoV2.DataLayer
