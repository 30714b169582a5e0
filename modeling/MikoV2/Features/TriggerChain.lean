import Mathlib.Logic.Function.Basic
import MikoV2.Features.MicroTrigger
import MikoV2.Lib.Runs

/-!
# The way to `TRIGGER`

The calls of a `MicroTrigger` on all its symbols, in any order and with any clock.

* `TriggerCall`, `stepStates` : the calls; `ascents` : the moves up of a symbol, each with its call;
* `apply_cases` : a call keeps a state, resets it, or moves it one up;
* `Climbed`, `climbed_run` : since a symbol was last `IDLE` it has moved up through every state below its own;
* `trigger_after_chain` : a `TRIGGER` comes after the four moves before it.
-/

namespace MikoV2.Features
open MicroTriggerState

/-- `_states`: a symbol without an entry is as a new one. -/
abbrev TriggerStates := String → SymbolTriggerState

inductive TriggerCall
  | evaluate (symbol : String) (nowMono nowWall : ℤ) (tick : Tick)
  | quarantine (symbol reason : String) (nowMono : ℤ)
  | resetToIdle (symbol : String)

namespace TriggerCall

def symbol : TriggerCall → String
  | .evaluate symbol _ _ _ => symbol
  | .quarantine symbol _ _ => symbol
  | .resetToIdle symbol => symbol

/-- What the call does to the state of its symbol, and what it emits for it. -/
def apply (cfg : MicroTriggerConfig) (st : SymbolTriggerState) : TriggerCall → SymbolTriggerState × List Emission
  | .evaluate _ nowMono nowWall tick => Features.evaluate cfg nowMono nowWall tick st
  | .quarantine _ reason nowMono => Features.quarantine cfg reason nowMono st
  | .resetToIdle _ => (Features.resetToIdle st, [])

/-- The three ways back to `IDLE`: the caller's, the quarantine, and the hard deadline in an evaluation. -/
def Resets (cfg : MicroTriggerConfig) (st : SymbolTriggerState) : TriggerCall → Prop
  | .evaluate _ nowMono _ _ => isQuarantined nowMono st = false ∧ cfg.hardDeadlineMs ≤ st.pausedMs ∧ st.state ≠ .IDLE
  | .quarantine _ _ _ => True
  | .resetToIdle _ => True

end TriggerCall

/-- The state that an emission announces. -/
def Emission.target : Emission → Option MicroTriggerState
  | .moved state _ => some state
  | _ => none

/-- The detection flag of a state. -/
def Tick.flag (tick : Tick) : MicroTriggerState → Bool
  | .IDLE => false
  | .SWEEP => tick.sweepDetected
  | .MSS => tick.mssDetected
  | .FVG_OTE => tick.fvgDetected
  | .MICRO_CONFIRM => tick.microConfirmed
  | .TRIGGER => tick.microConfirmed

/-- A move up: the states that its call found, the call, and the state that it emitted. -/
structure Ascent where
  states : TriggerStates
  call : TriggerCall
  state : MicroTriggerState

/-- The move of an evaluation with valid input, out of quarantine, on the flag of the new state. -/
def Ascent.Earned (symbol : String) (a : Ascent) : Prop := match a.call with
  | .evaluate s nowMono _ tick =>
    s = symbol ∧ tick.isValid = true ∧ isQuarantined nowMono (a.states symbol) = false ∧ tick.flag a.state = true
  | _ => False

variable (cfg : MicroTriggerConfig)

def stepStates (states : TriggerStates) (call : TriggerCall) : TriggerStates :=
  Function.update states call.symbol (call.apply cfg (states call.symbol)).1

/-- The moves that a call emits for the symbol. -/
def callAscents (symbol : String) (states : TriggerStates) (call : TriggerCall) : List Ascent :=
  if call.symbol = symbol then
    ((call.apply cfg (states symbol)).2.filterMap Emission.target).map (⟨states, call, ·⟩)
  else []

/-- The moves of a symbol, in the order in which they are emitted. -/
def ascents (symbol : String) : TriggerStates → List TriggerCall → List Ascent
  | _, [] => []
  | states, call :: calls => callAscents cfg symbol states call ++ ascents symbol (stepStates cfg states call) calls

/-- The states from `SWEEP` up to a state. -/
def chain : MicroTriggerState → List MicroTriggerState
  | .IDLE => []
  | .SWEEP => [.SWEEP]
  | .MSS => [.SWEEP, .MSS]
  | .FVG_OTE => [.SWEEP, .MSS, .FVG_OTE]
  | .MICRO_CONFIRM => [.SWEEP, .MSS, .FVG_OTE, .MICRO_CONFIRM]
  | .TRIGGER => [.SWEEP, .MSS, .FVG_OTE, .MICRO_CONFIRM, .TRIGGER]

/-- What a call may do to a state. -/
inductive Turn (cfg : MicroTriggerConfig) (call : TriggerCall) (st : SymbolTriggerState)
    (r : SymbolTriggerState × List Emission) : Prop
  | kept (hstate : r.1.state = st.state) (hmoves : r.2.filterMap Emission.target = [])
  | reset (hstate : r.1.state = .IDLE) (hmoves : r.2.filterMap Emission.target = []) (hreset : call.Resets cfg st)
  | up (nowMono nowWall : ℤ) (tick : Tick) (next : MicroTriggerState) (hstate : r.1.state = next)
      (hmoves : r.2.filterMap Emission.target = [next]) (hchain : chain next = chain st.state ++ [next])
      (hcall : call = .evaluate call.symbol nowMono nowWall tick) (hvalid : tick.isValid = true)
      (hfree : isQuarantined nowMono st = false) (hflag : tick.flag next = true)

section Calls
variable {cfg} {st : SymbolTriggerState} {states : TriggerStates} {symbol : String} {call : TriggerCall}

/-- Below `TRIGGER`. -/
theorem chain_of_trigger {s : MicroTriggerState} (h : chain .TRIGGER = chain s ++ [.TRIGGER]) :
    chain s = [.SWEEP, .MSS, .FVG_OTE, .MICRO_CONFIRM] := by
  cases s <;> simp [chain] at h ⊢

theorem progress_moves (nowWall : ℤ) (tick : Tick) (st : SymbolTriggerState) :
    ((progress nowWall tick st).1.state = st.state ∧ (progress nowWall tick st).2.filterMap Emission.target = []) ∨
      ∃ next, (progress nowWall tick st).1.state = next ∧
        (progress nowWall tick st).2.filterMap Emission.target = [next] ∧ chain next = chain st.state ++ [next] ∧
          tick.flag next = true := by
  cases hs : st.state with
  | IDLE =>
    cases hflag : tick.sweepDetected with
    | false => exact .inl (by simp [progress, hs, hflag])
    | true => exact .inr ⟨.SWEEP, by simp [progress, transition, hs, hflag, rank, Emission.target, chain, Tick.flag]⟩
  | SWEEP =>
    cases hflag : tick.mssDetected with
    | false => exact .inl (by simp [progress, hs, hflag])
    | true => exact .inr ⟨.MSS, by simp [progress, transition, hs, hflag, rank, Emission.target, chain, Tick.flag]⟩
  | MSS =>
    cases hflag : tick.fvgDetected with
    | false => exact .inl (by simp [progress, hs, hflag])
    | true => exact .inr ⟨.FVG_OTE, by simp [progress, transition, hs, hflag, rank, Emission.target, chain, Tick.flag]⟩
  | FVG_OTE =>
    cases hflag : tick.microConfirmed with
    | false => exact .inl (by simp [progress, hs, hflag])
    | true =>
      exact .inr ⟨.MICRO_CONFIRM, by simp [progress, transition, hs, hflag, rank, Emission.target, chain, Tick.flag]⟩
  | MICRO_CONFIRM =>
    cases hflag : tick.microConfirmed with
    | false => exact .inl (by simp [progress, hs, hflag])
    | true => exact .inr ⟨.TRIGGER, by simp [progress, transition, hs, hflag, rank, Emission.target, chain, Tick.flag]⟩
  | TRIGGER => exact .inl (by simp [progress, hs])

/-- **One call.** It keeps the state of its symbol, resets it, or moves it one up. -/
theorem apply_cases (cfg : MicroTriggerConfig) (call : TriggerCall) (st : SymbolTriggerState) :
    Turn cfg call st (call.apply cfg st) := by
  cases call with
  | quarantine symbol reason nowMono => exact .reset rfl rfl trivial
  | resetToIdle symbol => exact .reset rfl rfl trivial
  | evaluate symbol nowMono nowWall tick =>
    simp only [TriggerCall.apply, evaluate]
    split
    · exact .kept rfl rfl
    · rename_i hq
      have hfree : isQuarantined nowMono st = false := decide_eq_false hq
      split
      · rename_i hdead
        exact .reset rfl rfl ⟨hfree, hdead⟩
      · split
        · exact .kept rfl rfl
        · rename_i hvalid
          rw [Bool.not_eq_false] at hvalid
          obtain ⟨hstate, hmoves⟩ | ⟨next, hstate, hmoves, hchain, hflag⟩ :=
            progress_moves nowWall tick (updateAnchors cfg nowMono tick.exchangeTsMs (flushPause nowMono st))
          · rw [updateAnchors_state, flushPause_state] at hstate
            exact .kept hstate hmoves
          · rw [updateAnchors_state, flushPause_state] at hchain
            exact .up nowMono nowWall tick next hstate hmoves hchain rfl hvalid hfree hflag

@[simp] theorem stepStates_own : stepStates cfg states call call.symbol = (call.apply cfg (states call.symbol)).1 :=
  Function.update_self _ _ _

/-- A call leaves the other symbols alone. -/
theorem stepStates_other (h : call.symbol ≠ symbol) : stepStates cfg states call symbol = states symbol :=
  Function.update_of_ne (Ne.symm h) _ _

theorem callAscents_other (h : call.symbol ≠ symbol) : callAscents cfg symbol states call = [] := if_neg h

/-- The rank of a symbol drops to that of `IDLE`, in a call that resets it. -/
theorem rank_step (h : call.symbol = symbol → ¬ call.Resets cfg (states symbol)) :
    (states symbol).state.rank ≤ (stepStates cfg states call symbol).state.rank := by
  by_cases hown : call.symbol = symbol
  · subst hown
    rw [stepStates_own]
    cases apply_cases cfg call (states call.symbol) with
    | kept hstate hmoves => rw [hstate]
    | reset hstate hmoves hreset => exact absurd hreset (h rfl)
    | up nowMono nowWall tick next hstate hmoves hchain hcall hvalid hfree hflag =>
      rw [hstate]
      cases hs : (states call.symbol).state <;> cases next <;> simp [hs, chain, rank] at hchain ⊢
  · rw [stepStates_other hown]

/-- **One symbol.** A call moves it one up, and has earned the move; else it keeps its state, or is back in `IDLE`. -/
theorem callAscents_cases (cfg : MicroTriggerConfig) (symbol : String) (states : TriggerStates) (call : TriggerCall) :
    (callAscents cfg symbol states call = [] ∧ ((stepStates cfg states call symbol).state = (states symbol).state ∨
        (stepStates cfg states call symbol).state = .IDLE)) ∨
      ∃ a, callAscents cfg symbol states call = [a] ∧ a.Earned symbol ∧
        (stepStates cfg states call symbol).state = a.state ∧
          chain a.state = chain (states symbol).state ++ [a.state] := by
  by_cases hown : call.symbol = symbol
  · subst hown
    unfold callAscents
    rw [if_pos rfl, stepStates_own]
    cases apply_cases cfg call (states call.symbol) with
    | kept hstate hmoves => exact .inl ⟨by rw [hmoves, List.map_nil], .inl hstate⟩
    | reset hstate hmoves hreset => exact .inl ⟨by rw [hmoves, List.map_nil], .inr hstate⟩
    | up nowMono nowWall tick next hstate hmoves hchain hcall hvalid hfree hflag =>
      refine .inr ⟨⟨states, call, next⟩, by rw [hmoves, List.map_singleton], ?_, hstate, hchain⟩
      unfold Ascent.Earned
      simp only
      rw [hcall]
      exact ⟨rfl, hvalid, hfree, hflag⟩
  · exact .inl ⟨callAscents_other hown, .inl (by rw [stepStates_other hown])⟩

theorem ascents_append (calls calls' : List TriggerCall) (states : TriggerStates) :
    ascents cfg symbol states (calls ++ calls') =
      ascents cfg symbol states calls ++ ascents cfg symbol (Runs.run (stepStates cfg) states calls) calls' := by
  induction calls generalizing states with
  | nil => rfl
  | cons call calls ih => rw [List.cons_append, ascents, ih, ascents, List.append_assoc, Runs.run_cons]

end Calls

/-! ## Runs -/

/-- Since the symbol was last `IDLE`, it has moved up through every state up to its own. -/
def Climbed (states₀ : TriggerStates) (symbol : String) (calls : List TriggerCall) : Prop :=
  ∃ before since, calls = before ++ since ∧ (Runs.run (stepStates cfg) states₀ before symbol).state = .IDLE ∧
    (∀ part, part <+: since → part ≠ [] → (Runs.run (stepStates cfg) states₀ (before ++ part) symbol).state ≠ .IDLE) ∧
      (ascents cfg symbol (Runs.run (stepStates cfg) states₀ before) since).map Ascent.state =
          chain (Runs.run (stepStates cfg) states₀ calls symbol).state ∧
        ∀ a ∈ ascents cfg symbol (Runs.run (stepStates cfg) states₀ before) since, a.Earned symbol

section Steps
variable {cfg} {states₀ : TriggerStates} {symbol : String}

/-- A symbol in `IDLE` has nothing to have climbed. -/
theorem climbed_of_idle {calls : List TriggerCall}
    (h : (Runs.run (stepStates cfg) states₀ calls symbol).state = .IDLE) : Climbed cfg states₀ symbol calls := by
  refine ⟨calls, [], (List.append_nil calls).symm, h, fun part hpart hne => ?_, ?_, fun a ha => absurd ha List.not_mem_nil⟩
  · exact absurd (List.prefix_nil.mp hpart) hne
  · rw [h]
    rfl

theorem Climbed.step {calls : List TriggerCall} (h : Climbed cfg states₀ symbol calls) (call : TriggerCall) :
    Climbed cfg states₀ symbol (calls ++ [call]) := by
  by_cases hidle : (Runs.run (stepStates cfg) states₀ (calls ++ [call]) symbol).state = .IDLE
  · exact climbed_of_idle hidle
  · obtain ⟨before, since, rfl, hstart, hnever, hmoves, hearned⟩ := h
    have hcases := callAscents_cases cfg symbol (Runs.run (stepStates cfg) states₀ (before ++ since)) call
    have hlast : Runs.run (stepStates cfg) states₀ (before ++ since ++ [call]) =
        stepStates cfg (Runs.run (stepStates cfg) states₀ (before ++ since)) call := Runs.run_append _ _
    have hrun : Runs.run (stepStates cfg) (Runs.run (stepStates cfg) states₀ before) since =
        Runs.run (stepStates cfg) states₀ (before ++ since) := (Runs.run_append _ _).symm
    refine ⟨before, since ++ [call], by rw [List.append_assoc], hstart, fun part hpart hne => ?_, ?_⟩
    · rcases List.prefix_concat_iff.mp hpart with rfl | hshort
      · rwa [← List.append_assoc]
      · exact hnever part hshort hne
    · rw [ascents_append, hrun]
      simp only [ascents, List.append_nil, List.map_append, List.forall_mem_append]
      rw [hlast] at hidle ⊢
      obtain ⟨hnone, hsame | hback⟩ | ⟨a, hone, hearn, hstate, hchain⟩ := hcases
      · rw [hnone, hsame, hmoves]
        exact ⟨List.append_nil _, hearned, fun a ha => absurd ha List.not_mem_nil⟩
      · exact absurd hback hidle
      · rw [hone, hstate, hchain, hmoves]
        refine ⟨rfl, hearned, fun b hb => ?_⟩
        rwa [List.mem_singleton.mp hb]

theorem climbed_run (cfg : MicroTriggerConfig) {states₀ : TriggerStates} (h : (states₀ symbol).state = .IDLE)
    (calls : List TriggerCall) : Climbed cfg states₀ symbol calls := by
  induction calls using List.reverseRecOn with
  | nil => exact climbed_of_idle h
  | append_singleton calls call ih => exact ih.step call

/-- Without a reset the rank does not drop. -/
theorem rank_run {states : TriggerStates} {calls : List TriggerCall}
    (h : Runs.Guarded (fun states call => call.symbol = symbol → ¬ call.Resets cfg (states symbol)) (stepStates cfg)
      states calls) :
    (states symbol).state.rank ≤ (Runs.run (stepStates cfg) states calls symbol).state.rank := by
  induction calls generalizing states with
  | nil => exact Nat.le_refl _
  | cons call calls ih =>
    obtain ⟨hcall, hcalls⟩ := Runs.guarded_cons.mp h
    exact (rank_step hcall).trans (ih hcalls)

end Steps

/-- **The whole chain.** In a run from new states, with any clock: a call that emits `TRIGGER` has earned it, and since
the symbol was last `IDLE` the calls before it have emitted `SWEEP`, `MSS`, `FVG_OTE` and `MICRO_CONFIRM`, once each and
in this order, and have earned them; a call emits at most one move; the rank drops in resets only; and a call leaves the
states of other symbols alone. -/
theorem trigger_after_chain (cfg : MicroTriggerConfig) (calls : List TriggerCall) (call : TriggerCall)
    (symbol : String) :
    (∀ a ∈ callAscents cfg symbol (Runs.run (stepStates cfg) (fun _ => {}) calls) call, a.state = .TRIGGER →
      a.Earned symbol ∧ ∃ before since, calls = before ++ since ∧
        (Runs.run (stepStates cfg) (fun _ => {}) before symbol).state = .IDLE ∧
          (∀ part, part <+: since → part ≠ [] →
            (Runs.run (stepStates cfg) (fun _ => {}) (before ++ part) symbol).state ≠ .IDLE) ∧
            (ascents cfg symbol (Runs.run (stepStates cfg) (fun _ => {}) before) since).map Ascent.state =
                [.SWEEP, .MSS, .FVG_OTE, .MICRO_CONFIRM] ∧
              ∀ b ∈ ascents cfg symbol (Runs.run (stepStates cfg) (fun _ => {}) before) since, b.Earned symbol) ∧
      (∀ states, (callAscents cfg symbol states call).length ≤ 1) ∧
      (∀ before since, calls = before ++ since →
        Runs.Guarded (fun states call => call.symbol = symbol → ¬ call.Resets cfg (states symbol)) (stepStates cfg)
          (Runs.run (stepStates cfg) (fun _ => {}) before) since →
        (Runs.run (stepStates cfg) (fun _ => {}) before symbol).state.rank ≤
          (Runs.run (stepStates cfg) (fun _ => {}) calls symbol).state.rank) ∧
      ∀ states, call.symbol ≠ symbol → stepStates cfg states call symbol = states symbol := by
  refine ⟨fun a ha htrigger => ?_, fun states => ?_, ?_, fun states hne => stepStates_other hne⟩
  · obtain ⟨hnone, -⟩ | ⟨b, hone, hearn, -, hchain⟩ :=
      callAscents_cases cfg symbol (Runs.run (stepStates cfg) (fun _ => {}) calls) call
    · rw [hnone] at ha
      cases ha
    · rw [hone] at ha
      obtain rfl : a = b := List.mem_singleton.mp ha
      obtain ⟨before, since, hcalls, hstart, hnever, hmoves, hearned⟩ :=
        (climbed_run cfg rfl calls : Climbed cfg (fun _ => {}) symbol calls)
      refine ⟨hearn, before, since, hcalls, hstart, hnever, ?_, hearned⟩
      rw [htrigger] at hchain
      rw [hmoves]
      exact chain_of_trigger hchain
  · obtain ⟨hnone, -⟩ | ⟨a, hone, -⟩ := callAscents_cases cfg symbol states call
    · simp [hnone]
    · simp [hone]
  · rintro before since rfl hguard
    rw [Runs.run_append]
    exact rank_run hguard

end MikoV2.Features
