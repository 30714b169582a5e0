import MikoV2.Observation.Runner
import MikoV2.Paper.Finalize

/-!
# Flags, columns and announcements

The runner's two flags shadow two columns. They are set before the completion write, which may fail, and the
next poll copies the column over one of them.

* `SameColumns`, `Aside` : work that leaves the two columns, or also the manager, as they were;
* `pollObservationStop_spec`, `syncObservationStateOnStartup_spec`, `checkAutoFinalize_cases` : everything the
  parts of the loop and of start-up do;
* `Announced` : the invariant of announcements, flags and columns;
* `Announced.same`, `.ended`, `.autoFinalize`, `.startup`, `.operator` : what keeps it.
-/

namespace MikoV2.Observation
open PaperMath Store Sqlite
open Paper (Env Moves)

variable {env : Env} {w w' : World}

/-! ## The columns -/

/-- The two columns that the flags shadow. -/
structure Marker where
  stop : Bool
  done : Bool

def ofState (o : ObservationState) : Marker := ⟨o.observationStop, o.autoFinalizeDone⟩

def marker : Db → Marker := ofState ∘ Db.observation

/-- The columns as the runner sees them. -/
abbrev World.seen (w : World) : Marker := marker w.paper.conn.view

/-- The columns a new process would find. -/
abbrev World.saved (w : World) : Marker := marker w.paper.conn.disk

/-- `OBSERVATION_COMPLETED`, over all processes. -/
def completions (w : World) : ℕ := w.emitted.countP fun e => decide (e.1 = .OBSERVATION_COMPLETED)

theorem completions_emit_transition (stopped : Bool) (nowMs : ℤ) (w : World) :
    completions (emit (if stopped then .OBSERVATION_STOPPED else .OBSERVATION_RESUMED) nowMs w) = completions w := by
  unfold completions emit
  rw [List.countP_append]
  cases stopped <;> rfl

theorem completions_emit_completed (nowMs : ℤ) (w : World) :
    completions (emit .OBSERVATION_COMPLETED nowMs w) = completions w + 1 := by
  unfold completions emit
  rw [List.countP_append]
  rfl

/-! ## Work on the row beside the two columns -/

/-- The two columns, the process and the completions are as they were. -/
structure SameColumns (w w' : World) : Prop where
  marker : Frame marker w.paper.conn w'.paper.conn
  running : w'.running = w.running
  awaiting : w'.awaitingOperator = w.awaitingOperator
  completions : completions w' = completions w

/-- So are the manager and its table. -/
structure Aside (w w' : World) : Prop extends SameColumns w w' where
  mem : w'.paper.mem = w.paper.mem
  log : w'.paper.log = w.paper.log
  positions : Frame Db.positions w.paper.conn w'.paper.conn

theorem SameColumns.refl (w : World) : SameColumns w w := ⟨.refl _ _, rfl, rfl, rfl⟩

theorem SameColumns.trans {w'' : World} (h : SameColumns w w') (h' : SameColumns w' w'') : SameColumns w w'' :=
  ⟨h.marker.trans h'.marker, h'.running.trans h.running, h'.awaiting.trans h.awaiting,
    h'.completions.trans h.completions⟩

theorem Aside.refl (w : World) : Aside w w := ⟨.refl w, rfl, rfl, .refl _ _⟩

theorem Aside.trans {w'' : World} (h : Aside w w') (h' : Aside w' w'') : Aside w w'' :=
  ⟨h.toSameColumns.trans h'.toSameColumns, h'.mem.trans h.mem, h'.log.trans h.log,
    h.positions.trans h'.positions⟩

theorem moves_sameColumns {allow : List PaperPositionRow → PaperPosition → Prop} {s : Paper.World}
    (h : Moves env allow False w.paper s) : SameColumns w { w with paper := s } :=
  ⟨h.observation_frame.comp ofState, rfl, rfl, rfl⟩

theorem update_aside {fields : ObservationState → ObservationState} (hf : ∀ o, ofState (fields o) = ofState o)
    (w : World) : Aside w (update env fields w) :=
  ⟨⟨updateState_frame (fun db => hf db.observation) _, rfl, rfl, rfl⟩, rfl, rfl, updateState_positions ..⟩

/-- One call made on the connection. -/
def called (w : World) : World := { w with paper.conn := { w.paper.conn with issued := w.paper.conn.issued + 1 } }

theorem called_aside (w : World) : Aside w (called w) :=
  ⟨⟨⟨rfl, Or.inl rfl⟩, rfl, rfl, rfl⟩, rfl, rfl, ⟨rfl, Or.inl rfl⟩⟩

/-- A poll copies the column over the flag, and announces and records a change. -/
theorem pollObservationStop_spec (hread : ∀ n, env.faults n .selectObservation = false) (nowMs : ℤ) (w : World) :
    Aside w (pollObservationStop env nowMs w) ∧ (pollObservationStop env nowMs w).observationStopped = w.seen.stop ∧
      (pollObservationStop env nowMs w).autoFinalized = w.autoFinalized := by
  generalize h : pollObservationStop env nowMs w = w'
  unfold pollObservationStop at h
  rw [pollStopFlag_ok hread] at h
  dsimp only at h
  have hcalled : Aside w { called w with observationStopped := w.seen.stop } :=
    ⟨⟨⟨rfl, Or.inl rfl⟩, rfl, rfl, rfl⟩, rfl, rfl, ⟨rfl, Or.inl rfl⟩⟩
  split at h
  · subst h
    exact ⟨hcalled, rfl, rfl⟩
  · subst h
    refine ⟨hcalled.trans ?_, rfl, rfl⟩
    unfold emitObservationTransition
    refine Aside.trans ?_ (update_aside ?_ _)
    · exact ⟨⟨.refl _ _, rfl, rfl, completions_emit_transition _ nowMs _⟩, rfl, rfl, .refl _ _⟩
    · exact fun _ => rfl

/-- Start-up copies both columns over the flags. -/
theorem syncObservationStateOnStartup_spec (hread : ∀ n, env.faults n .selectObservation = false) (nowMs : ℤ)
    (w : World) : Aside w (syncObservationStateOnStartup env nowMs w) ∧
      (syncObservationStateOnStartup env nowMs w).observationStopped = w.seen.stop ∧
      (syncObservationStateOnStartup env nowMs w).autoFinalized = w.seen.done := by
  generalize h : syncObservationStateOnStartup env nowMs w = w'
  unfold syncObservationStateOnStartup at h
  rw [loadState_ok hread] at h
  subst h
  refine ⟨(called_aside w).trans (Aside.trans ?_ (update_aside ?_ _)), rfl, rfl⟩
  · exact ⟨⟨.refl _ _, rfl, rfl, rfl⟩, rfl, rfl, .refl _ _⟩
  · exact fun _ => rfl

/-- The check at this time ends the observation. -/
def AutoFinalizes (nowMs : ℤ) (w : World) : Prop :=
  w.autoFinalized = false ∧ w.paper.conn.view.observation.autoFinalizeDone = false ∧
    0 < w.paper.conn.view.observation.observationStartedAtMs ∧
    w.paper.conn.view.observation.targetDays * DAY_MS ≤
      nowMs - w.paper.conn.view.observation.observationStartedAtMs

/-- A check that does not end the observation at most starts its clock or copies the marker. -/
theorem checkAutoFinalize_cases (hread : ∀ n, env.faults n .selectObservation = false) (nowMs : ℤ)
    (lastPrices : String → Option ℚ) (w : World) :
    (¬AutoFinalizes nowMs w ∧ Aside w (checkAutoFinalize env nowMs lastPrices w) ∧
        (checkAutoFinalize env nowMs lastPrices w).observationStopped = w.observationStopped ∧
        ((checkAutoFinalize env nowMs lastPrices w).autoFinalized = w.autoFinalized ∨
          (w.seen.done = true ∧ (checkAutoFinalize env nowMs lastPrices w).autoFinalized = true))) ∨
      (AutoFinalizes nowMs w ∧
        checkAutoFinalize env nowMs lastPrices w = autoFinalize env nowMs lastPrices (called w)) := by
  generalize h : checkAutoFinalize env nowMs lastPrices w = w'
  unfold checkAutoFinalize at h
  rw [loadState_ok hread] at h
  subst h
  split
  · rename_i hflag
    refine Or.inl ⟨fun ha => ?_, .refl w, rfl, Or.inl rfl⟩
    rw [ha.1] at hflag
    cases hflag
  · rename_i hflag
    dsimp only
    split
    · rename_i hdone
      refine Or.inl ⟨fun ha => ?_, ?_, rfl, Or.inr ⟨hdone, rfl⟩⟩
      · rw [ha.2.1] at hdone
        cases hdone
      · exact (called_aside w).trans ⟨⟨.refl _ _, rfl, rfl, rfl⟩, rfl, rfl, .refl _ _⟩
    · rename_i hdone
      split
      · rename_i hstarted
        refine Or.inl ⟨fun ha => ?_, (called_aside w).trans (update_aside ?_ _), rfl, Or.inl rfl⟩
        · have hpos := ha.2.2.1
          omega
        · exact fun _ => rfl
      · split
        · rename_i hearly
          refine Or.inl ⟨fun ha => ?_, called_aside w, rfl, Or.inl rfl⟩
          have hdue := ha.2.2.2
          omega
        · refine Or.inr ⟨⟨?_, ?_, ?_, ?_⟩, rfl⟩
          · exact Bool.eq_false_iff.mpr hflag
          · exact Bool.eq_false_iff.mpr hdone
          · omega
          · omega

/-! ## Announcements, flags and columns -/

/-- The end of the observation is announced at most once, and while it counts, both columns say so. -/
structure Announced (w : World) : Prop where
  once : completions w ≤ 1
  marked : 0 < completions w ∨ w.awaitingOperator = true ∨ (w.running = true ∧ w.autoFinalized = true) →
    w.seen.done = true
  durable : w.seen.done = true → w.saved.done = true ∨ (w.running = true ∧ w.autoFinalized = true)
  kept : w.saved.done = true → w.seen.done = true
  stop : w.awaitingOperator = true → w.seen.stop = true ∧ (w.saved.done = true → w.saved.stop = true)
  stopped : w.running = true → w.awaitingOperator = true → w.observationStopped = true

theorem Announced.fresh (env : Env) : Announced (fresh env) := by
  refine ⟨Nat.zero_le _, ?_, ?_, ?_, ?_, ?_⟩
  · rintro (h | h | h)
    · cases h
    · cases h
    · cases h.1
  · intro h
    cases h
  · intro h
    cases h
  · intro h
    cases h
  · intro h
    cases h

/-- The flags may only be copied from the columns. -/
theorem Announced.same (h : Announced w) (ha : SameColumns w w')
    (hs : w'.observationStopped = w.observationStopped ∨ w'.observationStopped = w.seen.stop)
    (hf : w'.autoFinalized = w.autoFinalized ∨ (w.seen.done = true ∧ w'.autoFinalized = true)) :
    Announced w' := by
  have hsaved : w'.saved = w.saved ∨ w'.saved = w.seen := ha.marker.disk
  have hseen : w'.seen = w.seen := ha.marker.view
  refine ⟨?_, ?_, ?_, ?_, ?_, ?_⟩
  · rw [ha.completions]
    exact h.once
  · rw [ha.completions, ha.awaiting, ha.running, hseen]
    intro hold
    rcases hf with hf | ⟨hdone, -⟩
    · rw [hf] at hold
      exact h.marked hold
    · exact hdone
  · rw [hseen, ha.running]
    intro hdone
    rcases hsaved with hsaved | hsaved
    · rw [hsaved]
      refine (h.durable hdone).imp id fun hrun => ⟨hrun.1, ?_⟩
      rcases hf with hf | ⟨-, hf⟩
      · rw [hf]
        exact hrun.2
      · exact hf
    · rw [hsaved]
      exact Or.inl hdone
  · rw [hseen]
    rcases hsaved with hsaved | hsaved
    · rw [hsaved]
      exact h.kept
    · rw [hsaved]
      exact id
  · rw [ha.awaiting, hseen]
    intro hawait
    refine ⟨(h.stop hawait).1, ?_⟩
    rcases hsaved with hsaved | hsaved
    · rw [hsaved]
      exact (h.stop hawait).2
    · rw [hsaved]
      exact fun _ => (h.stop hawait).1
  · rw [ha.running, ha.awaiting]
    intro hrun hawait
    rcases hs with hs | hs
    · rw [hs]
      exact h.stopped hrun hawait
    · rw [hs]
      exact (h.stop hawait).1

/-! ## The steps that write the columns -/

/-- A process ends whose marker, if it has one, is on the disk. -/
theorem Announced.ended (h : Announced w)
    (hdone : w.running = true → w.autoFinalized = true → w.saved.done = true) : Announced (ended w) := by
  have hsaved : w.seen.done = true → w.saved.done = true := fun hseen =>
    (h.durable hseen).elim id fun hrun => hdone hrun.1 hrun.2
  refine ⟨h.once, fun hold => ?_, Or.inl, id, fun hawait => ?_, fun hrun => ?_⟩
  · rcases hold with hold | hold | hold
    · exact hsaved (h.marked (Or.inl hold))
    · exact hsaved (h.marked (Or.inr (Or.inl hold)))
    · cases hold.1
  · have hstop : w.saved.stop = true := (h.stop hawait).2 (hsaved (h.marked (Or.inr (Or.inl hawait))))
    exact ⟨hstop, fun _ => hstop⟩
  · cases hrun

/-- The end of the observation, its two statements returning. -/
theorem Announced.autoFinalize (h : Announced w) (hrun : w.running = true) (hnew : w.seen.done = false)
    (hst : statementsReturn env.faults w.paper.conn.issued) (nowMs : ℤ) (lastPrices : String → Option ℚ) :
    Announced (autoFinalize env nowMs lastPrices w) := by
  have hnone : completions w = 0 := by
    by_contra hsome
    have hdone := h.marked (Or.inl (Nat.pos_of_ne_zero hsome))
    rw [hnew] at hdone
    cases hdone
  obtain ⟨hview, hdisk⟩ := updateState_of_statements hst (completed nowMs)
  have hmoves : Moves env (fun _ _ => False) False _ (Paper.finalize env nowMs lastPrices
      (update env (completed nowMs) { w with observationStopped := true, autoFinalized := true }).paper) :=
    Paper.finalize_moves env nowMs lastPrices _
  have hframe := (moves_sameColumns hmoves).marker
  have hseen : (Observation.autoFinalize env nowMs lastPrices w).seen = ⟨true, true⟩ :=
    hframe.view.trans (congrArg marker hview)
  have hsaved : (Observation.autoFinalize env nowMs lastPrices w).saved = w.saved ∨
      (Observation.autoFinalize env nowMs lastPrices w).saved = ⟨true, true⟩ := by
    rcases hframe.disk with hd | hd
    · exact hdisk.imp (fun e => hd.trans (congrArg marker e)) fun e => hd.trans (congrArg marker e)
    · exact Or.inr (hd.trans (congrArg marker hview))
  have hold : ¬w.saved.done = true := fun hdone => by
    have hdone' := h.kept hdone
    rw [hnew] at hdone'
    cases hdone'
  refine ⟨?_, fun _ => ?_, fun _ => Or.inr ⟨hrun, rfl⟩, fun _ => ?_, fun _ => ⟨?_, fun hdone => ?_⟩, fun _ _ => rfl⟩
  · unfold Observation.autoFinalize
    rw [completions_emit_completed]
    show completions w + 1 ≤ 1
    omega
  · rw [hseen]
  · rw [hseen]
  · rw [hseen]
  · rcases hsaved with hsaved | hsaved
    · rw [hsaved] at hdone
      exact absurd hdone hold
    · rw [hsaved]

/-- The new process copies both columns. -/
theorem Announced.startup (hread : ∀ n, env.faults n .selectObservation = false) (h : Announced w)
    (hdown : w.running = false) (nowMs : ℤ) : Announced (startup env nowMs w) := by
  have hsaved : w.seen.done = true → w.saved.done = true := fun hseen =>
    (h.durable hseen).elim id fun hrun => by rw [hdown] at hrun; cases hrun.1
  have hcopied : Announced { w with
      paper := Paper.crash env w.paper
      running := true
      observationStopped := w.saved.stop
      autoFinalized := w.saved.done } := by
    have hstop : w.awaitingOperator = true → w.saved.stop = true := fun hawait =>
      (h.stop hawait).2 (hsaved (h.marked (Or.inr (Or.inl hawait))))
    refine ⟨h.once, fun hold => ?_, Or.inl, id, fun hawait => ⟨hstop hawait, fun _ => hstop hawait⟩, fun _ => hstop⟩
    rcases hold with hold | hold | hold
    · exact hsaved (h.marked (Or.inl hold))
    · exact hsaved (h.marked (Or.inr (Or.inl hold)))
    · exact hold.2
  obtain ⟨haside, hstopped, hfinal⟩ := syncObservationStateOnStartup_spec hread nowMs { w with
    paper := Paper.crash env w.paper
    running := true
    observationStopped := false
    autoFinalized := false }
  have hsynced := hcopied.same ⟨haside.marker, haside.running, haside.awaiting, haside.completions⟩
    (Or.inl hstopped) (Or.inl hfinal)
  obtain ⟨hview, hdisk, -⟩ := Paper.onStartup_cases env (syncObservationStateOnStartup env nowMs { w with
    paper := Paper.crash env w.paper
    running := true
    observationStopped := false
    autoFinalized := false }).paper
  exact hsynced.same ⟨⟨congrArg marker hview, Or.inl (congrArg marker hdisk)⟩, rfl, rfl, rfl⟩ (Or.inl rfl) (Or.inl rfl)

theorem Announced.operator (h : Announced w) (value : Bool) : Announced (operator value w) := by
  unfold Observation.operator setStopFlag
  by_cases hfree : w.paper.conn.view = w.paper.conn.disk
  · rw [if_pos hfree]
    have hcleared : ∀ {b : Bool}, (b && (value || decide (w.paper.conn.view ≠ w.paper.conn.disk))) = true →
        b = true ∧ value = true := by
      intro b hb
      rw [Bool.and_eq_true, Bool.or_eq_true, decide_eq_true_eq] at hb
      exact ⟨hb.1, hb.2.resolve_right fun hne => hne hfree⟩
    refine ⟨h.once, fun hold => ?_, h.durable, h.kept, fun hawait => ?_, fun hrun hawait => ?_⟩
    · rcases hold with hold | hold | hold
      · exact h.marked (Or.inl hold)
      · exact h.marked (Or.inr (Or.inl (hcleared hold).1))
      · exact h.marked (Or.inr (Or.inr hold))
    · exact ⟨(hcleared hawait).2, fun _ => (hcleared hawait).2⟩
    · exact h.stopped hrun (hcleared hawait).1
  · rw [if_neg hfree, decide_eq_true hfree, Bool.or_true, Bool.and_true]
    exact ⟨h.once, h.marked, h.durable, h.kept, h.stop, h.stopped⟩

end MikoV2.Observation
