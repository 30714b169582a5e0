import Mathlib.Data.Int.Notation
import Mathlib.Tactic.Common

/-!
# `MicroTrigger`

The state of one symbol; a call reads its clocks once and does not suspend, since the symbol's lock has one user.

* `evaluate`, `quarantine`, `resetToIdle` : the calls, with what they emit;
* `climb` : the one step up that a call may take, on the flag of that step;
* `evaluate_cases` : a call keeps the state, or resets it to `IDLE`, or climbs.
-/

namespace MikoV2.Features

inductive MicroTriggerState
  | IDLE
  | SWEEP
  | MSS
  | FVG_OTE
  | MICRO_CONFIRM
  | TRIGGER
deriving DecidableEq, Repr

namespace MicroTriggerState

/-- `_STATE_RANK`. -/
def rank : MicroTriggerState → ℕ
  | IDLE => 0
  | SWEEP => 1
  | MSS => 2
  | FVG_OTE => 3
  | MICRO_CONFIRM => 4
  | TRIGGER => 5

end MicroTriggerState

structure MicroTriggerConfig where
  mssTimeoutMs : ℤ := 90000
  fvgTimeoutMs : ℤ := 180000
  hardDeadlineMs : ℤ := 600000
  nextCandleBufferMs : ℤ := 5000
  quarantineMs : ℤ := 60000

/-- `paused_ms` is a float that only sums clock differences, all integers. -/
structure SymbolTriggerState where
  state : MicroTriggerState := .IDLE
  sweepStartedMs : ℤ := 0
  mssConfirmedMs : ℤ := 0
  fvgDetectedMs : ℤ := 0
  breachStartMs : ℤ := 0
  pausedMs : ℤ := 0
  pauseStartMs : ℤ := 0
  nextCandleTargetMs : ℤ := 0
  lastExchangeTsMs : ℤ := 0
  lastMonoMs : ℤ := 0
  wasPaused : Bool := false
  quarantineUntilMs : ℤ := 0
deriving DecidableEq

inductive Emission
  | moved (state : MicroTriggerState) (reason : String)
  | FVG_EXPIRED_HARD_DEADLINE (pausedMs : ℤ)
  | MICRO_TRIGGER_QUARANTINE (reason : String) (untilMs : ℤ)
deriving DecidableEq

/-- The keyword arguments of `evaluate`. -/
structure Tick where
  isValid : Bool
  sweepDetected : Bool := false
  mssDetected : Bool := false
  fvgDetected : Bool := false
  microConfirmed : Bool := false
  exchangeTsMs : ℤ := 0
deriving DecidableEq

variable (cfg : MicroTriggerConfig)

/-- Ascending only. -/
def transition (newState : MicroTriggerState) (reason : String) (st : SymbolTriggerState) :
    SymbolTriggerState × List Emission :=
  if newState.rank > st.state.rank then ({ st with state := newState }, [.moved newState reason]) else (st, [])

def resetToIdle (st : SymbolTriggerState) : SymbolTriggerState :=
  { st with
    state := .IDLE
    sweepStartedMs := 0
    mssConfirmedMs := 0
    fvgDetectedMs := 0
    breachStartMs := 0
    pauseStartMs := 0
    pausedMs := 0
    nextCandleTargetMs := 0
    wasPaused := false }

def isQuarantined (nowMono : ℤ) (st : SymbolTriggerState) : Bool := decide (st.quarantineUntilMs > nowMono)

def quarantine (reason : String) (nowMono : ℤ) (st : SymbolTriggerState) : SymbolTriggerState × List Emission :=
  let untilMs := nowMono + cfg.quarantineMs
  ({ st with quarantineUntilMs := untilMs, state := .IDLE }, [.MICRO_TRIGGER_QUARANTINE reason untilMs])

/-! ## `evaluate` -/

/-- Invalid input. -/
def pause (nowMono : ℤ) (st : SymbolTriggerState) : SymbolTriggerState :=
  { st with
    pausedMs := if st.pauseStartMs = 0 then st.pausedMs else st.pausedMs + (nowMono - st.pauseStartMs)
    pauseStartMs := nowMono
    wasPaused := true }

/-- Valid input ends a pause. -/
def flushPause (nowMono : ℤ) (st : SymbolTriggerState) : SymbolTriggerState :=
  if st.pauseStartMs = 0 then st
  else { st with pausedMs := st.pausedMs + (nowMono - st.pauseStartMs), pauseStartMs := 0 }

/-- `last_mono_ms` is set before it is read. -/
def updateAnchors (nowMono exchangeTsMs : ℤ) (st : SymbolTriggerState) : SymbolTriggerState :=
  if exchangeTsMs = 0 then st
  else
    { st with
      lastExchangeTsMs := exchangeTsMs
      lastMonoMs := nowMono
      nextCandleTargetMs := exchangeTsMs + max 0 (nowMono - nowMono) + cfg.nextCandleBufferMs }

def progress (nowWall : ℤ) (tick : Tick) (st : SymbolTriggerState) : SymbolTriggerState × List Emission :=
  if st.state = .IDLE ∧ tick.sweepDetected then transition .SWEEP "sweep" { st with sweepStartedMs := nowWall }
  else if st.state = .SWEEP ∧ tick.mssDetected then transition .MSS "mss" { st with mssConfirmedMs := nowWall }
  else if st.state = .MSS ∧ tick.fvgDetected then transition .FVG_OTE "fvg_ote" { st with fvgDetectedMs := nowWall }
  else if st.state = .FVG_OTE ∧ tick.microConfirmed then transition .MICRO_CONFIRM "micro" st
  else if st.state = .MICRO_CONFIRM ∧ tick.microConfirmed then transition .TRIGGER "trigger" st
  else (st, [])

def evaluate (nowMono nowWall : ℤ) (tick : Tick) (st : SymbolTriggerState) : SymbolTriggerState × List Emission :=
  if st.quarantineUntilMs > nowMono then (st, [])
  else if st.pausedMs ≥ cfg.hardDeadlineMs ∧ st.state ≠ .IDLE then
    (resetToIdle st, [.FVG_EXPIRED_HARD_DEADLINE st.pausedMs])
  else if tick.isValid = false then (pause nowMono st, [])
  else progress nowWall tick (updateAnchors cfg nowMono tick.exchangeTsMs (flushPause nowMono st))

@[simp] theorem pause_state (nowMono : ℤ) (st : SymbolTriggerState) : (pause nowMono st).state = st.state := rfl

@[simp] theorem flushPause_state (nowMono : ℤ) (st : SymbolTriggerState) :
    (flushPause nowMono st).state = st.state := by
  unfold flushPause
  split <;> rfl

@[simp] theorem updateAnchors_state (nowMono exchangeTsMs : ℤ) (st : SymbolTriggerState) :
    (updateAnchors cfg nowMono exchangeTsMs st).state = st.state := by
  unfold updateAnchors
  split <;> rfl

/-- The step up from a state, and the flag it waits for. -/
def nextStep (tick : Tick) : MicroTriggerState → Option (MicroTriggerState × Bool)
  | .IDLE => some (.SWEEP, tick.sweepDetected)
  | .SWEEP => some (.MSS, tick.mssDetected)
  | .MSS => some (.FVG_OTE, tick.fvgDetected)
  | .FVG_OTE => some (.MICRO_CONFIRM, tick.microConfirmed)
  | .MICRO_CONFIRM => some (.TRIGGER, tick.microConfirmed)
  | .TRIGGER => none

/-- The step up, taken on its flag. -/
def climb (tick : Tick) (s : MicroTriggerState) : MicroTriggerState :=
  match nextStep tick s with
  | some (next, flag) => if flag then next else s
  | none => s

theorem progress_state (nowWall : ℤ) (tick : Tick) (st : SymbolTriggerState) :
    (progress nowWall tick st).1.state = climb tick st.state := by
  unfold progress climb nextStep
  cases hs : st.state with
  | IDLE => cases hflag : tick.sweepDetected <;> simp [transition, MicroTriggerState.rank, hs]
  | SWEEP => cases hflag : tick.mssDetected <;> simp [transition, MicroTriggerState.rank, hs]
  | MSS => cases hflag : tick.fvgDetected <;> simp [transition, MicroTriggerState.rank, hs]
  | FVG_OTE => cases hflag : tick.microConfirmed <;> simp [transition, MicroTriggerState.rank, hs]
  | MICRO_CONFIRM => cases hflag : tick.microConfirmed <;> simp [transition, MicroTriggerState.rank, hs]
  | TRIGGER => simp [hs]

/-- The call gets past quarantine, hard deadline and invalid input. -/
def Live (nowMono : ℤ) (tick : Tick) (st : SymbolTriggerState) : Prop :=
  st.quarantineUntilMs ≤ nowMono ∧ (st.pausedMs < cfg.hardDeadlineMs ∨ st.state = .IDLE) ∧ tick.isValid = true

/-- A call keeps the state, resets it, or takes the next step on its flag. -/
theorem evaluate_cases (nowMono nowWall : ℤ) (tick : Tick) (st : SymbolTriggerState) :
    (¬Live cfg nowMono tick st ∧ ((evaluate cfg nowMono nowWall tick st).1.state = st.state ∨
        (evaluate cfg nowMono nowWall tick st).1.state = .IDLE)) ∨
      (Live cfg nowMono tick st ∧ (evaluate cfg nowMono nowWall tick st).1.state = climb tick st.state) := by
  unfold evaluate Live
  split
  · left
    refine ⟨fun h => ?_, Or.inl rfl⟩
    omega
  · split
    · rename_i hdead
      left
      refine ⟨fun h => ?_, Or.inr rfl⟩
      rcases h.2.1 with hlt | hidle
      · omega
      · exact hdead.2 hidle
    · rename_i hq hdead
      split
      · rename_i hvalid
        left
        refine ⟨fun h => ?_, Or.inl rfl⟩
        rw [hvalid] at h
        cases h.2.2
      · rename_i hvalid
        right
        rw [Bool.not_eq_false] at hvalid
        refine ⟨⟨by omega, ?_, hvalid⟩, ?_⟩
        · by_cases hidle : st.state = .IDLE
          · exact Or.inr hidle
          · left
            by_contra hlt
            exact hdead ⟨by omega, hidle⟩
        · rw [progress_state, updateAnchors_state, flushPause_state]

end MikoV2.Features
