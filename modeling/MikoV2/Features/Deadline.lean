import MikoV2.Features.TriggerChain

/-!
# The hard deadline

`paused_ms` grows in every state, and only one of the ways back to `IDLE` clears it.

* `invalidTime` : how long the input of a symbol was invalid, over its evaluations;
* `Setup` : the calls since a symbol left `IDLE`; `OnTime` : the deadline expires on the invalid time of the setup only;
* `leftover` : the paused time that a valid evaluation finds; `CleanStart` : there is none as the symbol leaves `IDLE`;
* `Course`, `evaluate_course` : what an evaluation does to the pause;
* `Timed` : in a setup with a clean start, the pause is its invalid time; `timed_run` : it stays so;
* `cleanStarts_iff` : clean starts are what it takes.
-/

namespace MikoV2.Features
open MicroTriggerState

/-- When a call reads the clock. -/
def TriggerCall.time : TriggerCall → Option ℤ
  | .evaluate _ nowMono _ _ => some nowMono
  | .quarantine _ _ nowMono => some nowMono
  | .resetToIdle _ => none

/-- The readings of the clock. -/
def times (calls : List TriggerCall) : List ℤ := calls.filterMap TriggerCall.time

/-- The clock is positive, and does not go back. -/
def Clock (calls : List TriggerCall) : Prop := (times calls).Pairwise (· ≤ ·) ∧ ∀ t ∈ times calls, 0 < t

instance (calls : List TriggerCall) : Decidable (Clock calls) := inferInstanceAs (Decidable (_ ∧ _))

/-- An evaluation of the symbol: when, and whether on valid input. -/
def TriggerCall.evaluation (symbol : String) : TriggerCall → Option (ℤ × Bool)
  | .evaluate s nowMono _ tick => if s = symbol then some (nowMono, tick.isValid) else none
  | _ => none

/-- The evaluations of the symbol. -/
def evaluations (symbol : String) (calls : List TriggerCall) : List (ℤ × Bool) :=
  calls.filterMap (TriggerCall.evaluation symbol)

/-- The time from every invalid evaluation to the next one. -/
def invalidTime : List (ℤ × Bool) → ℤ
  | (t, valid) :: (t', valid') :: es => (if valid then 0 else t' - t) + invalidTime ((t', valid') :: es)
  | _ => 0

variable (cfg : MicroTriggerConfig)

/-- The states after a run of a new `MicroTrigger`. -/
def statesAfter (calls : List TriggerCall) : TriggerStates := Runs.run (stepStates cfg) (fun _ => {}) calls

/-- The symbol is `IDLE` after `before`, and not since. -/
structure Setup (symbol : String) (before since : List TriggerCall) : Prop where
  idle : (statesAfter cfg before symbol).state = .IDLE
  left : ∀ part, part <+: since → part ≠ [] → (statesAfter cfg (before ++ part) symbol).state ≠ .IDLE

/-- The call emits `FVG_EXPIRED_HARD_DEADLINE` for the symbol. -/
def Expires (symbol : String) (calls : List TriggerCall) (call : TriggerCall) : Prop :=
  call.symbol = symbol ∧
    ∃ pausedMs, .FVG_EXPIRED_HARD_DEADLINE pausedMs ∈ (call.apply cfg (statesAfter cfg calls symbol)).2

/-- Wherever the deadline expires, the setup has had that much invalid time. -/
def OnTime (symbol : String) (calls : List TriggerCall) : Prop :=
  ∀ pre call, pre ++ [call] <+: calls → Expires cfg symbol pre call →
    ∀ before since, pre = before ++ since → Setup cfg symbol before since →
      cfg.hardDeadlineMs ≤ invalidTime (evaluations symbol (since ++ [call]))

/-- `paused_ms` once a valid evaluation has flushed the pause. -/
def leftover (nowMono : ℤ) (st : SymbolTriggerState) : ℤ :=
  if st.pauseStartMs = 0 then st.pausedMs else st.pausedMs + (nowMono - st.pauseStartMs)

/-- A call by which the symbol leaves `IDLE` finds no paused time, unless there is no deadline to speak of. -/
def CleanStart (symbol : String) (states : TriggerStates) (call : TriggerCall) : Prop :=
  ∀ nowMono nowWall tick, call = .evaluate symbol nowMono nowWall tick → (states symbol).state = .IDLE →
    isQuarantined nowMono (states symbol) = false → tick.isValid = true → tick.sweepDetected = true →
      cfg.hardDeadlineMs ≤ 0 ∨ leftover nowMono (states symbol) = 0

/-- Every start of the run is clean. -/
def CleanStarts (symbol : String) (states : TriggerStates) (calls : List TriggerCall) : Prop :=
  Runs.Guarded (CleanStart cfg symbol) (stepStates cfg) states calls

/-! ## One evaluation -/

/-- What an evaluation does to the pause. -/
inductive Course (nowMono : ℤ) (tick : Tick) (st : SymbolTriggerState) : SymbolTriggerState × List Emission → Prop
  | quarantined (hq : nowMono < st.quarantineUntilMs) : Course nowMono tick st (st, [])
  | expired (hfree : st.quarantineUntilMs ≤ nowMono) (hdead : cfg.hardDeadlineMs ≤ st.pausedMs)
      (hstate : st.state ≠ .IDLE) : Course nowMono tick st (resetToIdle st, [.FVG_EXPIRED_HARD_DEADLINE st.pausedMs])
  | paused (hfree : st.quarantineUntilMs ≤ nowMono) (hvalid : tick.isValid = false) :
      Course nowMono tick st (pause nowMono st, [])
  | flushed (r : SymbolTriggerState × List Emission) (hfree : st.quarantineUntilMs ≤ nowMono)
      (hvalid : tick.isValid = true) (hpaused : r.1.pausedMs = leftover nowMono st) (hstart : r.1.pauseStartMs = 0)
      (hquarantine : r.1.quarantineUntilMs = st.quarantineUntilMs)
      (hemit : ∀ pausedMs, .FVG_EXPIRED_HARD_DEADLINE pausedMs ∉ r.2)
      (hsweep : st.state = .IDLE → r.1.state ≠ .IDLE → tick.sweepDetected = true) : Course nowMono tick st r

variable {cfg} {symbol : String} {nowMono nowWall : ℤ} {tick : Tick} {st : SymbolTriggerState}

/-- A step up does not touch the pause, and announces itself only. -/
theorem transition_keeps (newState : MicroTriggerState) (reason : String) (st : SymbolTriggerState) :
    (transition newState reason st).1.pausedMs = st.pausedMs ∧
      (transition newState reason st).1.pauseStartMs = st.pauseStartMs ∧
      (transition newState reason st).1.quarantineUntilMs = st.quarantineUntilMs ∧
      ∀ pausedMs, .FVG_EXPIRED_HARD_DEADLINE pausedMs ∉ (transition newState reason st).2 := by
  unfold transition
  split
  · simp
  · simp

theorem progress_keeps (nowWall : ℤ) (tick : Tick) (st : SymbolTriggerState) :
    (progress nowWall tick st).1.pausedMs = st.pausedMs ∧ (progress nowWall tick st).1.pauseStartMs = st.pauseStartMs ∧
      (progress nowWall tick st).1.quarantineUntilMs = st.quarantineUntilMs ∧
      ∀ pausedMs, .FVG_EXPIRED_HARD_DEADLINE pausedMs ∉ (progress nowWall tick st).2 := by
  unfold progress
  split_ifs
  · exact transition_keeps _ _ _
  · exact transition_keeps _ _ _
  · exact transition_keeps _ _ _
  · exact transition_keeps _ _ _
  · exact transition_keeps _ _ _
  · simp

/-- The way out of `IDLE` is a sweep. -/
theorem progress_sweep (hidle : st.state = .IDLE) (h : (progress nowWall tick st).1.state ≠ .IDLE) :
    tick.sweepDetected = true := by
  rw [progress_state, hidle] at h
  by_contra hnone
  exact h (by simp [climb, nextStep, hnone])

theorem updateAnchors_keeps (cfg : MicroTriggerConfig) (nowMono exchangeTsMs : ℤ) (st : SymbolTriggerState) :
    (updateAnchors cfg nowMono exchangeTsMs st).pausedMs = st.pausedMs ∧
    (updateAnchors cfg nowMono exchangeTsMs st).pauseStartMs = st.pauseStartMs ∧
    (updateAnchors cfg nowMono exchangeTsMs st).quarantineUntilMs = st.quarantineUntilMs := by
  unfold updateAnchors
  split
  · exact ⟨rfl, rfl, rfl⟩
  · exact ⟨rfl, rfl, rfl⟩

theorem flushPause_leaves (nowMono : ℤ) (st : SymbolTriggerState) :
    (flushPause nowMono st).pausedMs = leftover nowMono st ∧ (flushPause nowMono st).pauseStartMs = 0 ∧
      (flushPause nowMono st).quarantineUntilMs = st.quarantineUntilMs := by
  unfold flushPause leftover
  split
  · exact ⟨rfl, ‹_›, rfl⟩
  · exact ⟨rfl, rfl, rfl⟩

theorem evaluate_course (cfg : MicroTriggerConfig) (nowMono nowWall : ℤ) (tick : Tick) (st : SymbolTriggerState) :
    Course cfg nowMono tick st (evaluate cfg nowMono nowWall tick st) := by
  unfold evaluate
  split
  · exact .quarantined ‹_›
  · rename_i hq
    have hfree : st.quarantineUntilMs ≤ nowMono := Int.not_lt.mp hq
    split
    · rename_i hdead
      exact .expired hfree hdead.1 hdead.2
    · split
      · exact .paused hfree ‹_›
      · rename_i hvalid
        obtain ⟨hpaused, hstart, hquarantine, hemit⟩ :=
          progress_keeps nowWall tick (updateAnchors cfg nowMono tick.exchangeTsMs (flushPause nowMono st))
        obtain ⟨hpaused', hstart', hquarantine'⟩ :=
          updateAnchors_keeps cfg nowMono tick.exchangeTsMs (flushPause nowMono st)
        obtain ⟨hpaused'', hstart'', hquarantine''⟩ := flushPause_leaves nowMono st
        refine .flushed _ hfree (Bool.not_eq_false _ ▸ hvalid) (by rw [hpaused, hpaused', hpaused''])
          (by rw [hstart, hstart', hstart'']) (by rw [hquarantine, hquarantine', hquarantine'']) hemit ?_
        intro hidle hmoved
        exact progress_sweep (by rw [updateAnchors_state, flushPause_state, hidle]) hmoved

/-! ## The invalid time of a setup -/

theorem invalidTime_concat (t : ℤ) (valid : Bool) (t' : ℤ) (valid' : Bool) : ∀ front : List (ℤ × Bool),
    invalidTime (front ++ [(t, valid)] ++ [(t', valid')]) =
      invalidTime (front ++ [(t, valid)]) + if valid then 0 else t' - t := by
  intro front
  induction front with
  | nil => simp [invalidTime]
  | cons e front ih =>
    rcases e with ⟨u, w⟩
    cases front with
    | nil =>
      simp only [List.nil_append, List.cons_append, invalidTime]
      omega
    | cons e' front =>
      rcases e' with ⟨u', w'⟩
      rw [List.cons_append, List.cons_append] at ih
      simp only [List.cons_append, invalidTime]
      omega

theorem times_concat (calls : List TriggerCall) (call : TriggerCall) :
    times (calls ++ [call]) = times calls ++ call.time.toList := by
  unfold times
  rw [List.filterMap_append]
  cases h : call.time with
  | none => simp [h]
  | some t => simp [h]

/-- A reading of the clock is no earlier than those before it. -/
theorem Clock.le {calls : List TriggerCall} {call : TriggerCall} {t now : ℤ} (h : Clock (calls ++ [call]))
    (hnow : call.time = some now) (ht : t ∈ times calls) : 0 < t ∧ t ≤ now := by
  obtain ⟨hmono, hpos⟩ := h
  rw [times_concat, hnow, Option.toList_some] at hmono hpos
  exact ⟨hpos t (List.mem_append_left _ ht), (List.pairwise_append.mp hmono).2.2 t ht now (List.mem_singleton_self now)⟩

theorem Clock.of_prefix {pre calls : List TriggerCall} (h : Clock calls) (hpre : pre <+: calls) : Clock pre := by
  have hsub : (times pre).Sublist (times calls) := (hpre.sublist).filterMap _
  exact ⟨h.1.sublist hsub, fun t ht => h.2 t (hsub.subset ht)⟩

/-- The paused time of a state is the invalid time of the evaluations `es`, up to the last of them. -/
structure Timed (calls : List TriggerCall) (st : SymbolTriggerState) (es : List (ℤ × Bool)) : Prop where
  paused : st.pausedMs = invalidTime es
  last : ∃ front t valid, es = front ++ [(t, valid)] ∧ t ∈ times calls ∧ st.quarantineUntilMs ≤ t ∧
    st.pauseStartMs = if valid then 0 else t

variable {calls : List TriggerCall} {es : List (ℤ × Bool)}

/-- What a valid evaluation would find is the invalid time up to it. -/
theorem Timed.leftover_eq (h : Timed calls st es) (hclock : Clock (calls ++ [.evaluate symbol nowMono nowWall tick])) :
    leftover nowMono st = invalidTime (es ++ [(nowMono, tick.isValid)]) ∧ st.quarantineUntilMs ≤ nowMono ∧
      nowMono ∈ times (calls ++ [.evaluate symbol nowMono nowWall tick]) ∧
      invalidTime es ≤ invalidTime (es ++ [(nowMono, tick.isValid)]) := by
  obtain ⟨front, t, valid, rfl, ht, hquarantine, hstart⟩ := h.last
  obtain ⟨hpos, hle⟩ := hclock.le rfl ht
  have hpaused := h.paused
  refine ⟨?_, by omega, by simp [times_concat, TriggerCall.time], ?_⟩
  · rw [invalidTime_concat, leftover, hstart, hpaused]
    cases valid with
    | false =>
      have hne : t ≠ 0 := by omega
      simp [hne]
    | true => simp
  · rw [invalidTime_concat]
    cases valid with
    | false =>
      rw [if_neg Bool.false_ne_true]
      omega
    | true => simp

/-- An evaluation that stays in the setup. -/
theorem Timed.evaluate (h : Timed calls st es) (hclock : Clock (calls ++ [.evaluate symbol nowMono nowWall tick]))
    (hleft : (evaluate cfg nowMono nowWall tick st).1.state ≠ .IDLE) :
    Timed (calls ++ [.evaluate symbol nowMono nowWall tick]) (evaluate cfg nowMono nowWall tick st).1
      (es ++ [(nowMono, tick.isValid)]) := by
  obtain ⟨hleftover, hfree, hnow, -⟩ := h.leftover_eq hclock
  have hcourse := evaluate_course cfg nowMono nowWall tick st
  generalize Features.evaluate cfg nowMono nowWall tick st = r at hleft hcourse ⊢
  cases hcourse with
  | quarantined hq => omega
  | expired hfree hdead hstate => exact absurd rfl hleft
  | paused hfree hvalid => exact ⟨hleftover, es, nowMono, tick.isValid, rfl, hnow, hfree, by rw [hvalid]; rfl⟩
  | flushed r hfree hvalid hpaused hstart hquarantine hemit hsweep =>
    refine ⟨hpaused.trans hleftover, es, nowMono, tick.isValid, rfl, hnow, by rw [hquarantine]; exact hfree, ?_⟩
    rw [hstart, hvalid]
    rfl

/-- A clean start. -/
theorem timed_start (hclean : leftover nowMono st = 0) (hidle : st.state = .IDLE)
    (hleft : (evaluate cfg nowMono nowWall tick st).1.state ≠ .IDLE) :
    Timed (calls ++ [.evaluate symbol nowMono nowWall tick]) (evaluate cfg nowMono nowWall tick st).1
      [(nowMono, tick.isValid)] := by
  have hcourse := evaluate_course cfg nowMono nowWall tick st
  generalize Features.evaluate cfg nowMono nowWall tick st = r at hleft hcourse ⊢
  cases hcourse with
  | quarantined hq => exact absurd hidle hleft
  | expired hfree hdead hstate => exact absurd rfl hleft
  | paused hfree hvalid => exact absurd hidle hleft
  | flushed r hfree hvalid hpaused hstart hquarantine hemit hsweep =>
    refine ⟨hpaused.trans hclean, [], nowMono, tick.isValid, rfl, ?_, by rw [hquarantine]; exact hfree, ?_⟩
    · simp [times_concat, TriggerCall.time]
    · rw [hstart, hvalid]
      rfl

/-! ## Runs -/

theorem statesAfter_concat (calls : List TriggerCall) (call : TriggerCall) :
    statesAfter cfg (calls ++ [call]) = stepStates cfg (statesAfter cfg calls) call := Runs.run_append _ _

/-- A setup with one more call. -/
theorem Setup.of_concat {before since : List TriggerCall} {call : TriggerCall}
    (h : Setup cfg symbol before (since ++ [call])) : Setup cfg symbol before since :=
  ⟨h.idle, fun part hpart => h.left part (hpart.trans (List.prefix_append _ _))⟩

/-- A call in a setup is an evaluation, or of another symbol. -/
theorem evaluate_of_left {states : TriggerStates} {call : TriggerCall} (hown : call.symbol = symbol)
    (hleft : (stepStates cfg states call symbol).state ≠ .IDLE) :
    ∃ nowMono nowWall tick, call = .evaluate symbol nowMono nowWall tick ∧
      stepStates cfg states call symbol = (evaluate cfg nowMono nowWall tick (states symbol)).1 := by
  subst hown
  rw [stepStates_own] at hleft ⊢
  cases call with
  | evaluate s nowMono nowWall tick => exact ⟨nowMono, nowWall, tick, rfl, rfl⟩
  | quarantine s reason nowMono => exact absurd rfl hleft
  | resetToIdle s => exact absurd rfl hleft

/-- A symbol leaves `IDLE` on a sweep, out of quarantine. -/
theorem sweep_of_left (hidle : st.state = .IDLE) (hleft : (evaluate cfg nowMono nowWall tick st).1.state ≠ .IDLE) :
    isQuarantined nowMono st = false ∧ tick.isValid = true ∧ tick.sweepDetected = true := by
  have hcourse := evaluate_course cfg nowMono nowWall tick st
  generalize evaluate cfg nowMono nowWall tick st = r at hleft hcourse
  cases hcourse with
  | quarantined hq => exact absurd hidle hleft
  | expired hfree hdead hstate => exact absurd rfl hleft
  | paused hfree hvalid => exact absurd hidle hleft
  | flushed r hfree hvalid hpaused hstart hquarantine hemit hsweep =>
    exact ⟨decide_eq_false (by omega), hvalid, hsweep hidle hleft⟩

theorem evaluations_own (symbol : String) (calls : List TriggerCall) (nowMono nowWall : ℤ) (tick : Tick) :
    evaluations symbol (calls ++ [.evaluate symbol nowMono nowWall tick]) =
      evaluations symbol calls ++ [(nowMono, tick.isValid)] := by
  simp [evaluations, TriggerCall.evaluation]

theorem evaluations_other {call : TriggerCall} (h : call.symbol ≠ symbol) (calls : List TriggerCall) :
    evaluations symbol (calls ++ [call]) = evaluations symbol calls := by
  unfold evaluations
  rw [List.filterMap_append]
  cases call with
  | evaluate s nowMono nowWall tick =>
    have hother : s ≠ symbol := h
    simp [TriggerCall.evaluation, hother]
  | quarantine s reason nowMono => simp [TriggerCall.evaluation]
  | resetToIdle s => simp [TriggerCall.evaluation]

/-- **Setups.** With clean starts, the paused time of a symbol that has left `IDLE` is the invalid time of its setup. -/
theorem timed_run (hdead : 0 < cfg.hardDeadlineMs) (calls : List TriggerCall) : Clock calls →
    CleanStarts cfg symbol (fun _ => {}) calls → ∀ before since, calls = before ++ since →
      Setup cfg symbol before since → since ≠ [] →
        Timed calls (statesAfter cfg calls symbol) (evaluations symbol since) := by
  induction calls using List.reverseRecOn with
  | nil =>
    intro _ _ before since heq _ hne
    exact absurd (List.append_eq_nil_iff.mp heq.symm).2 hne
  | append_singleton calls call ih =>
    intro hclock hclean before since' heq hsetup hne
    obtain ⟨since, last, rfl⟩ := (List.eq_nil_or_concat since').resolve_left hne
    rw [List.concat_eq_append] at heq hsetup ⊢
    rw [← List.append_assoc] at heq
    obtain ⟨hcalls, hlast⟩ := List.append_inj' heq rfl
    obtain rfl : call = last := (List.singleton_inj).mp hlast
    obtain ⟨hcleans, hcall⟩ := Runs.guarded_append.mp hclean
    have hleft := hsetup.left (since ++ [call]) (List.prefix_refl _) (by simp)
    rw [← List.append_assoc, ← hcalls, statesAfter_concat] at hleft
    have ih := ih (hclock.of_prefix (List.prefix_append _ _)) hcleans before since hcalls hsetup.of_concat
    rw [statesAfter_concat]
    by_cases hown : call.symbol = symbol
    · obtain ⟨nowMono, nowWall, tick, rfl, hstep⟩ := evaluate_of_left hown hleft
      rw [hstep] at hleft ⊢
      have hes := evaluations_own symbol since nowMono nowWall tick
      rw [hes]
      by_cases hstart : since = []
      · subst hstart
        rw [List.append_nil] at hcalls
        have hidle := hsetup.idle
        rw [← hcalls] at hidle
        obtain ⟨hfree, hvalid, hsweep⟩ := sweep_of_left hidle hleft
        have hzero := (Runs.guarded_cons.mp hcall).1 nowMono nowWall tick rfl hidle hfree hvalid hsweep
        exact timed_start (hzero.resolve_left (by omega)) hidle hleft
      · exact (ih hstart).evaluate hclock hleft
    · rw [stepStates_other hown] at hleft ⊢
      have hes := evaluations_other hown since
      have hne : since ≠ [] := by
        rintro rfl
        rw [List.append_nil] at hcalls
        rw [hcalls] at hleft
        exact hleft hsetup.idle
      obtain ⟨hpaused, front, t, valid, hfront, ht, hrest⟩ := ih hne
      rw [hes]
      exact ⟨hpaused, front, t, valid, hfront, by rw [times_concat]; exact List.mem_append_left _ ht, hrest⟩

/-- The deadline expires in an evaluation, away from `IDLE`. -/
theorem Expires.inv {call : TriggerCall} (h : Expires cfg symbol calls call) :
    ∃ nowMono nowWall tick, call = .evaluate symbol nowMono nowWall tick ∧
      cfg.hardDeadlineMs ≤ (statesAfter cfg calls symbol).pausedMs ∧ (statesAfter cfg calls symbol).state ≠ .IDLE := by
  obtain ⟨rfl, pausedMs, hemit⟩ := h
  cases call with
  | quarantine s reason nowMono => simp [TriggerCall.apply, quarantine] at hemit
  | resetToIdle s => simp [TriggerCall.apply] at hemit
  | evaluate s nowMono nowWall tick =>
    refine ⟨nowMono, nowWall, tick, rfl, ?_⟩
    have hcourse := evaluate_course cfg nowMono nowWall tick (statesAfter cfg calls s)
    simp only [TriggerCall.apply, TriggerCall.symbol] at hemit ⊢
    generalize evaluate cfg nowMono nowWall tick (statesAfter cfg calls s) = r at hemit hcourse
    cases hcourse with
    | quarantined hq => simp at hemit
    | expired hfree hdead hstate => exact ⟨hdead, hstate⟩
    | paused hfree hvalid => simp at hemit
    | flushed r hfree hvalid hpaused hstart hquarantine hnone hsweep => exact absurd hemit (hnone pausedMs)

/-- On a clock that does not go back, invalid time is not negative. -/
theorem invalidTime_nonneg : ∀ {es : List (ℤ × Bool)}, (es.map Prod.fst).Pairwise (· ≤ ·) → 0 ≤ invalidTime es := by
  intro es
  induction es with
  | nil => exact fun _ => Int.le_refl 0
  | cons e es ih =>
    intro h
    rcases e with ⟨t, valid⟩
    cases es with
    | nil => exact Int.le_refl 0
    | cons e' es =>
      rcases e' with ⟨t', valid'⟩
      obtain ⟨hle, hrest⟩ := List.pairwise_cons.mp h
      have hle := hle t' (by simp)
      have ih := ih hrest
      rw [invalidTime]
      cases valid with
      | false =>
        rw [if_neg Bool.false_ne_true]
        omega
      | true =>
        rw [if_pos rfl]
        omega

theorem evaluations_sublist (symbol : String) (calls : List TriggerCall) :
    ((evaluations symbol calls).map Prod.fst).Sublist (times calls) := by
  unfold evaluations times
  induction calls with
  | nil => exact List.Sublist.slnil
  | cons call calls ih =>
    cases call with
    | evaluate s nowMono nowWall tick =>
      by_cases hs : s = symbol
      · simpa [TriggerCall.evaluation, TriggerCall.time, hs] using ih
      · simpa [TriggerCall.evaluation, TriggerCall.time, hs] using ih.cons nowMono
    | quarantine s reason nowMono =>
      rw [List.filterMap_cons_none rfl]
      exact ih.cons nowMono
    | resetToIdle s =>
      rw [List.filterMap_cons_none rfl, List.filterMap_cons_none rfl]
      exact ih

/-- Clean starts are enough. -/
theorem onTime_of_cleanStarts (hclock : Clock calls) (hclean : CleanStarts cfg symbol (fun _ => {}) calls) :
    OnTime cfg symbol calls := by
  intro pre call hpre hexpires before since heq hsetup
  have hpast := hclock.of_prefix hpre
  by_cases hdead : 0 < cfg.hardDeadlineMs
  · obtain ⟨nowMono, nowWall, tick, rfl, hpaused, hstate⟩ := hexpires.inv
    have hne : since ≠ [] := by
      rintro rfl
      rw [List.append_nil] at heq
      rw [heq] at hstate
      exact hstate hsetup.idle
    obtain ⟨rest, rfl⟩ := hpre
    have hcleans := (Runs.guarded_append.mp (Runs.guarded_append.mp hclean).1).1
    have htimed := timed_run hdead pre (hpast.of_prefix (List.prefix_append _ _)) hcleans before since heq hsetup hne
    have hes := evaluations_own symbol since nowMono nowWall tick
    obtain ⟨-, -, -, hle⟩ := htimed.leftover_eq hpast
    rw [hes]
    rw [htimed.paused] at hpaused
    exact Int.le_trans hpaused hle
  · have hsub : (times (since ++ [call])).Sublist (times (pre ++ [call])) := by
      rw [heq, List.append_assoc]
      exact (List.sublist_append_right _ _).filterMap _
    have hnonneg := invalidTime_nonneg (hpast.1.sublist ((evaluations_sublist symbol (since ++ [call])).trans hsub))
    omega

/-! ## After an unclean start -/

/-- What a state has paused so far is no negative time, and an open pause began at a reading of the clock. -/
structure Accrued (calls : List TriggerCall) (st : SymbolTriggerState) : Prop where
  paused : 0 ≤ st.pausedMs
  start : st.pauseStartMs = 0 ∨ st.pauseStartMs ∈ times calls

theorem Accrued.leftover_nonneg (h : Accrued calls st)
    (hclock : Clock (calls ++ [.evaluate symbol nowMono nowWall tick])) : 0 ≤ leftover nowMono st := by
  have hpaused := h.paused
  unfold leftover
  split
  · exact hpaused
  · obtain ⟨-, hle⟩ := hclock.le rfl (h.start.resolve_left ‹_›)
    omega

theorem Accrued.later (h : Accrued calls st) (call : TriggerCall) : Accrued (calls ++ [call]) st :=
  ⟨h.paused, h.start.imp_right fun hin => by rw [times_concat]; exact List.mem_append_left _ hin⟩

theorem Accrued.apply {call : TriggerCall} (h : Accrued calls st) (hclock : Clock (calls ++ [call])) :
    Accrued (calls ++ [call]) (call.apply cfg st).1 := by
  cases call with
  | quarantine s reason nowMono => exact ⟨h.paused, (h.later _).start⟩
  | resetToIdle s => exact ⟨Int.le_refl 0, .inl rfl⟩
  | evaluate s nowMono nowWall tick =>
    have hleftover := h.leftover_nonneg hclock
    have hcourse := evaluate_course cfg nowMono nowWall tick st
    simp only [TriggerCall.apply]
    generalize evaluate cfg nowMono nowWall tick st = r at hcourse
    cases hcourse with
    | quarantined hq => exact h.later _
    | expired hfree hdead hstate => exact ⟨Int.le_refl 0, .inl rfl⟩
    | paused hfree hvalid => exact ⟨hleftover, .inr (by simp [times_concat, TriggerCall.time, pause])⟩
    | flushed r hfree hvalid hpaused hstart hquarantine hemit hsweep =>
      exact ⟨by rw [hpaused]; exact hleftover, .inl hstart⟩

theorem accrued_run (cfg : MicroTriggerConfig) (symbol : String) (calls : List TriggerCall) : Clock calls →
    Accrued calls (statesAfter cfg calls symbol) := by
  induction calls using List.reverseRecOn with
  | nil => exact fun _ => ⟨Int.le_refl 0, .inl rfl⟩
  | append_singleton calls call ih =>
    intro hclock
    have ih := ih (hclock.of_prefix (List.prefix_append _ _))
    rw [statesAfter_concat]
    by_cases hown : call.symbol = symbol
    · subst hown
      rw [stepStates_own]
      exact ih.apply hclock
    · rw [stepStates_other hown]
      exact ih.later call

/-- An evaluation on invalid input, and nothing else. -/
def probe (symbol : String) (nowMono : ℤ) : TriggerCall := .evaluate symbol nowMono 0 { isValid := false }

theorem stepStates_probe {states : TriggerStates} (hfree : (states symbol).quarantineUntilMs ≤ nowMono)
    (hlive : (states symbol).pausedMs < cfg.hardDeadlineMs) :
    stepStates cfg states (probe symbol nowMono) symbol = pause nowMono (states symbol) := by
  have hq : ¬ (states symbol).quarantineUntilMs > nowMono := by omega
  have hdead : ¬ ((states symbol).pausedMs ≥ cfg.hardDeadlineMs ∧ (states symbol).state ≠ .IDLE) := by omega
  refine Function.update_self (f := states) symbol _ |>.trans ?_
  simp only [probe, TriggerCall.apply, TriggerCall.symbol, evaluate, if_neg hq, if_neg hdead, if_true]

theorem expires_probe (hfree : (statesAfter cfg calls symbol).quarantineUntilMs ≤ nowMono)
    (hdead : cfg.hardDeadlineMs ≤ (statesAfter cfg calls symbol).pausedMs)
    (hstate : (statesAfter cfg calls symbol).state ≠ .IDLE) : Expires cfg symbol calls (probe symbol nowMono) := by
  have hq : ¬ (statesAfter cfg calls symbol).quarantineUntilMs > nowMono := by omega
  refine ⟨rfl, (statesAfter cfg calls symbol).pausedMs, ?_⟩
  simp only [probe, TriggerCall.apply, evaluate, if_neg hq]
  rw [if_pos ⟨hdead, hstate⟩]
  exact List.mem_singleton_self _

theorem setup_nil (hidle : (statesAfter cfg calls symbol).state = .IDLE) : Setup cfg symbol calls [] :=
  ⟨hidle, fun _ hpart hne => absurd (List.prefix_nil.mp hpart) hne⟩

/-- One more call that does not end the setup. -/
theorem Setup.concat {before since : List TriggerCall} {call : TriggerCall} (h : Setup cfg symbol before since)
    (hleft : (statesAfter cfg (before ++ since ++ [call]) symbol).state ≠ .IDLE) :
    Setup cfg symbol before (since ++ [call]) := by
  refine ⟨h.idle, fun part hpart hne => ?_⟩
  rcases List.prefix_concat_iff.mp hpart with rfl | hshort
  · rwa [← List.append_assoc]
  · exact h.left part hshort hne

theorem Clock.probe {call : TriggerCall} {t now : ℤ} (h : Clock (calls ++ [call])) (symbol : String)
    (hnow : call.time = some now) (ht : now ≤ t) : Clock (calls ++ [call] ++ [probe symbol t]) := by
  have hin : now ∈ times (calls ++ [call]) := by
    rw [times_concat, hnow]
    exact List.mem_append_right _ (List.mem_singleton_self now)
  have hle : ∀ u ∈ times (calls ++ [call]), u ≤ now := by
    intro u hu
    rw [times_concat, hnow] at hu
    rcases List.mem_append.mp hu with hu | hu
    · exact (h.le hnow hu).2
    · exact Int.le_of_eq (List.mem_singleton.mp hu)
  have hpos := h.2 now hin
  have htimes : times (calls ++ [call] ++ [Features.probe symbol t]) = times (calls ++ [call]) ++ [t] :=
    times_concat _ _
  unfold Clock
  rw [htimes]
  refine ⟨List.pairwise_append.mpr ⟨h.1, List.pairwise_singleton _ _, fun u hu v hv => ?_⟩, fun u hu => ?_⟩
  · rw [List.mem_singleton.mp hv]
    exact Int.le_trans (hle u hu) ht
  · rcases List.mem_append.mp hu with hu | hu
    · exact h.2 u hu
    · rw [List.mem_singleton.mp hu]
      omega

/-- Probes start nothing. -/
theorem cleanStarts_probes {states : TriggerStates} (readings : List ℤ) :
    CleanStarts cfg symbol states (readings.map (probe symbol)) := by
  refine Runs.guarded_of_forall fun call hcall states nowMono nowWall tick heq _ _ hvalid _ => ?_
  obtain ⟨t, -, rfl⟩ := List.mem_map.mp hcall
  cases heq
  cases hvalid

/-- The symbol after it has left `IDLE` on a sweep. -/
theorem swept (cfg : MicroTriggerConfig) (nowWall : ℤ) (hidle : st.state = .IDLE)
    (hfree : isQuarantined nowMono st = false) (hvalid : tick.isValid = true) (hsweep : tick.sweepDetected = true) :
    (evaluate cfg nowMono nowWall tick st).1.state = .SWEEP ∧
      (evaluate cfg nowMono nowWall tick st).1.pausedMs = leftover nowMono st ∧
      (evaluate cfg nowMono nowWall tick st).1.pauseStartMs = 0 ∧
      (evaluate cfg nowMono nowWall tick st).1.quarantineUntilMs ≤ nowMono := by
  have hquarantine : st.quarantineUntilMs ≤ nowMono := Int.not_lt.mp (of_decide_eq_false hfree)
  have hcases := evaluate_cases cfg nowMono nowWall tick st
  have hcourse := evaluate_course cfg nowMono nowWall tick st
  generalize evaluate cfg nowMono nowWall tick st = r at hcases hcourse ⊢
  have hstate : r.1.state = .SWEEP := by
    obtain ⟨hdead, -⟩ | ⟨-, hclimb⟩ := hcases
    · exact absurd ⟨hquarantine, .inr hidle, hvalid⟩ hdead
    · rw [hclimb, hidle]
      simp [climb, nextStep, hsweep]
  cases hcourse with
  | quarantined hq => omega
  | expired hfree hdead hleft => exact absurd hidle hleft
  | paused hfree hinvalid => simp [hvalid] at hinvalid
  | flushed r hfree hvalid hpaused hstart hkept hemit hsweep =>
    exact ⟨hstate, hpaused, hstart, by rw [hkept]; exact hfree⟩

/-- A pause that goes on. -/
theorem leftover_pause (hone : 0 < nowMono) (t : ℤ) :
    leftover t (pause nowMono st) = leftover nowMono st + (t - nowMono) := by
  have hopen : (pause nowMono st).pauseStartMs ≠ 0 := by
    show nowMono ≠ 0
    omega
  rw [leftover, if_neg hopen]
  rfl

section Unclean
variable {call : TriggerCall} {P : ℤ}

/-- A symbol that has just left `IDLE` with paused time `P`. -/
structure StartedWith (cfg : MicroTriggerConfig) (symbol : String) (calls : List TriggerCall) (call : TriggerCall)
    (nowMono P : ℤ) : Prop where
  setup : Setup cfg symbol calls [call]
  evaluation : call.evaluation symbol = some (nowMono, true)
  positive : 0 < nowMono
  state : (statesAfter cfg (calls ++ [call]) symbol).state = .SWEEP
  paused : (statesAfter cfg (calls ++ [call]) symbol).pausedMs = P
  start : (statesAfter cfg (calls ++ [call]) symbol).pauseStartMs = 0
  free : (statesAfter cfg (calls ++ [call]) symbol).quarantineUntilMs ≤ nowMono

theorem probe_evaluation (symbol : String) (t : ℤ) : (probe symbol t).evaluation symbol = some (t, false) := if_pos rfl

/-- The time that was left over is enough. -/
theorem StartedWith.at_once (h : StartedWith cfg symbol calls call nowMono P) (hdead : 0 < cfg.hardDeadlineMs)
    (henough : cfg.hardDeadlineMs ≤ P) (t : ℤ) :
    ¬ OnTime cfg symbol (calls ++ [call] ++ [nowMono, t, t].map (probe symbol)) := by
  intro hon
  have hexpires : Expires cfg symbol (calls ++ [call]) (probe symbol nowMono) :=
    expires_probe h.free (by rw [h.paused]; exact henough) (by rw [h.state]; exact nofun)
  have hbound := hon (calls ++ [call]) (probe symbol nowMono) (by simp) hexpires calls [call] rfl h.setup
  simp [evaluations, h.evaluation, probe_evaluation, invalidTime] at hbound
  omega

/-- What is missing to the deadline is spent on invalid input. -/
theorem StartedWith.after_pause (h : StartedWith cfg symbol calls call nowMono P) (hpos : 0 < P)
    (hmissing : P < cfg.hardDeadlineMs) {t : ℤ} (ht : t = nowMono + (cfg.hardDeadlineMs - P)) :
    ¬ OnTime cfg symbol (calls ++ [call] ++ [nowMono, t, t].map (probe symbol)) := by
  intro hon
  have hpaused : leftover nowMono (statesAfter cfg (calls ++ [call]) symbol) = P := by
    rw [leftover, if_pos h.start, h.paused]
  have hstep₁ : statesAfter cfg (calls ++ [call] ++ [probe symbol nowMono]) symbol =
      pause nowMono (statesAfter cfg (calls ++ [call]) symbol) := by
    rw [statesAfter_concat]
    exact stepStates_probe h.free (by rw [h.paused]; exact hmissing)
  have hfree : (pause nowMono (statesAfter cfg (calls ++ [call]) symbol)).quarantineUntilMs ≤ t :=
    Int.le_trans h.free (by omega)
  have hstep₂ : statesAfter cfg (calls ++ [call] ++ [probe symbol nowMono] ++ [probe symbol t]) symbol =
      pause t (pause nowMono (statesAfter cfg (calls ++ [call]) symbol)) := by
    rw [statesAfter_concat, ← hstep₁]
    refine stepStates_probe (by rw [hstep₁]; exact hfree) ?_
    rw [hstep₁]
    show leftover nowMono _ < _
    omega
  have hdead : (pause t (pause nowMono (statesAfter cfg (calls ++ [call]) symbol))).pausedMs = cfg.hardDeadlineMs := by
    show leftover t (pause nowMono _) = _
    rw [leftover_pause h.positive]
    omega
  have hsetup : Setup cfg symbol calls ([call] ++ [probe symbol nowMono] ++ [probe symbol t]) := by
    refine (h.setup.concat ?_).concat ?_
    · rw [hstep₁, pause_state, h.state]
      exact nofun
    · rw [← List.append_assoc, hstep₂, pause_state, pause_state, h.state]
      exact nofun
  have hexpires : Expires cfg symbol (calls ++ [call] ++ [probe symbol nowMono] ++ [probe symbol t]) (probe symbol t) :=
    expires_probe (by rw [hstep₂]; exact hfree) (Int.le_of_eq (by rw [hstep₂, hdead]))
      (by rw [hstep₂, pause_state, pause_state, h.state]; exact nofun)
  have hbound := hon (calls ++ [call] ++ [probe symbol nowMono] ++ [probe symbol t]) (probe symbol t)
    (by rw [List.append_assoc, List.append_assoc]; exact List.prefix_refl _) hexpires
    calls ([call] ++ [probe symbol nowMono] ++ [probe symbol t]) (by simp) hsetup
  simp [evaluations, h.evaluation, probe_evaluation, invalidTime] at hbound
  omega

/-- **Unclean starts.** After one, three evaluations on invalid input expire the deadline too early. -/
theorem not_onTime_of_unclean (hclock : Clock (calls ++ [call]))
    (h : ¬ CleanStart cfg symbol (statesAfter cfg calls) call) : ∃ more, Clock (calls ++ [call] ++ more) ∧
      CleanStarts cfg symbol (statesAfter cfg (calls ++ [call])) more ∧
        ¬ OnTime cfg symbol (calls ++ [call] ++ more) := by
  simp only [CleanStart, not_forall, not_or] at h
  obtain ⟨nowMono, nowWall, tick, rfl, hidle, hfree, hvalid, hsweep, hdead, hleftover⟩ := h
  have hpos := (accrued_run cfg symbol calls (hclock.of_prefix (List.prefix_append _ _))).leftover_nonneg hclock
  have hstep : statesAfter cfg (calls ++ [.evaluate symbol nowMono nowWall tick]) symbol =
      (evaluate cfg nowMono nowWall tick (statesAfter cfg calls symbol)).1 := by
    rw [statesAfter_concat]
    exact Function.update_self _ _ _
  obtain ⟨hstate, hpaused, hstart, hquarantine⟩ := swept cfg nowWall hidle hfree hvalid hsweep
  rw [← hstep] at hstate hpaused hstart hquarantine
  have hsetup : Setup cfg symbol calls [.evaluate symbol nowMono nowWall tick] := by
    refine (setup_nil hidle).concat ?_
    rw [List.append_nil, hstate]
    exact nofun
  have hstarted : StartedWith cfg symbol calls (.evaluate symbol nowMono nowWall tick) nowMono
      (leftover nowMono (statesAfter cfg calls symbol)) :=
    ⟨hsetup, by rw [← hvalid]; exact if_pos rfl, hclock.2 nowMono (by simp [times_concat, TriggerCall.time]), hstate,
      hpaused, hstart, hquarantine⟩
  generalize leftover nowMono (statesAfter cfg calls symbol) = P at *
  have hclocks : ∀ t, nowMono ≤ t → Clock (calls ++ [.evaluate symbol nowMono nowWall tick] ++
      [nowMono, t, t].map (probe symbol)) := fun t ht => by
    have hlast := ((hclock.probe symbol rfl (Int.le_refl nowMono)).probe symbol rfl ht).probe symbol rfl (Int.le_refl t)
    simpa using hlast
  by_cases henough : cfg.hardDeadlineMs ≤ P
  · exact ⟨_, hclocks nowMono (Int.le_refl _), cleanStarts_probes _, hstarted.at_once (by omega) henough nowMono⟩
  · exact ⟨_, hclocks _ (by omega), cleanStarts_probes _, hstarted.after_pause (by omega) (by omega) rfl⟩

end Unclean

/-- **The hard deadline.** The starts of a run are clean exactly when, however a part of it goes on with clean starts,
the deadline expires on the invalid time of the setup only. -/
theorem cleanStarts_iff (cfg : MicroTriggerConfig) (symbol : String) {calls : List TriggerCall} (hclock : Clock calls) :
    CleanStarts cfg symbol (fun _ => {}) calls ↔ ∀ pre more, pre <+: calls → Clock (pre ++ more) →
      CleanStarts cfg symbol (statesAfter cfg pre) more → OnTime cfg symbol (pre ++ more) := by
  constructor
  · rintro hclean pre more ⟨rest, rfl⟩ hclock hmore
    exact onTime_of_cleanStarts hclock (Runs.guarded_append.mpr ⟨(Runs.guarded_append.mp hclean).1, hmore⟩)
  · intro h pre call hpre
    by_contra hunclean
    obtain ⟨more, hmore, hcleans, hnot⟩ := not_onTime_of_unclean (hclock.of_prefix hpre) hunclean
    exact hnot (h (pre ++ [call]) more hpre hmore hcleans)

/-- A sweep on valid input, at time 1. -/
theorem cleanStarts_iff_sweep :
    CleanStarts {} "BTCUSDT" (fun _ => {}) [.evaluate "BTCUSDT" 1 1 { isValid := true, sweepDetected := true }] ↔
      ∀ pre more, pre <+: [.evaluate "BTCUSDT" 1 1 { isValid := true, sweepDetected := true }] → Clock (pre ++ more) →
        CleanStarts {} "BTCUSDT" (statesAfter {} pre) more → OnTime {} "BTCUSDT" (pre ++ more) :=
  cleanStarts_iff {} "BTCUSDT" (by decide)

/-- Ten minutes of invalid input in `IDLE`, a sweep, and the next evaluation expires the setup. -/
theorem not_onTime_invalidIdle : ¬ ∀ (cfg : MicroTriggerConfig) (symbol : String) (calls : List TriggerCall),
    Clock calls → OnTime cfg symbol calls := by
  intro h
  have hon := h {} "BTCUSDT" [.evaluate "BTCUSDT" 1 1 { isValid := false },
    .evaluate "BTCUSDT" 600001 600001 { isValid := true, sweepDetected := true },
    .evaluate "BTCUSDT" 600002 600002 { isValid := true }] (by decide)
    [.evaluate "BTCUSDT" 1 1 { isValid := false },
      .evaluate "BTCUSDT" 600001 600001 { isValid := true, sweepDetected := true }]
    (.evaluate "BTCUSDT" 600002 600002 { isValid := true }) (List.prefix_refl _) ⟨rfl, 600000, by decide⟩
    [.evaluate "BTCUSDT" 1 1 { isValid := false }]
    [.evaluate "BTCUSDT" 600001 600001 { isValid := true, sweepDetected := true }] rfl
  have hsetup : Setup {} "BTCUSDT" [.evaluate "BTCUSDT" 1 1 { isValid := false }]
      [.evaluate "BTCUSDT" 600001 600001 { isValid := true, sweepDetected := true }] := by
    refine (setup_nil (by decide)).concat ?_
    decide
  have hbound := hon hsetup
  revert hbound
  decide

end MikoV2.Features
