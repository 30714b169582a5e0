import MikoV2.Alerting.HalfOpen

/-!
# Progress

A drain under a closed breaker delivers what waits in memory. Under a breaker that is to be tested it delivers a CRITICAL
row of the table, and nothing else: the buffer has to wait for the next CRITICAL alert.

* `Attempts` : a drain claims rows and starts to deliver them; `Deliverable` : when it does; `Stocked.attempts_iff`;
* `attempts_iff_deliverable` : in every reachable state;
* `Wedged`, `wedged_run` : without a CRITICAL alert nothing is delivered any more.
-/

namespace MikoV2.Alerting
open Circuit AlertAgent AlertDb

namespace AlertAgent

/-- The drain claims at least one row, and starts to deliver what it has claimed. -/
def Attempts (cfg : AlertConfig) (clk : DrainClock) (a : AlertAgent) : Prop :=
  ∃ job, (a.drainOnce cfg clk).2 = some job ∧ job.ids ≠ [] ∧ a.db.Claimed job.ids (a.drainOnce cfg clk).1.db

/-- Under a closed breaker, an alert of the queue is still pending or the buffer is due; else a CRITICAL row is
pending. -/
def Deliverable (cfg : AlertConfig) (now : ℚ) (a : AlertAgent) : Prop :=
  if a.breaker.mode = .closed then (∃ q ∈ a.criticalQueue, a.db.Pending q.id) ∨ a.BufferDue cfg now else a.HasCritical

section Drains
variable {cfg : AlertConfig} {clk : DrainClock} {a : AlertAgent} {job : Job}

theorem flush_ids (h : (a.flushWarningBatch cfg clk).2 = some job) : job.ids ≠ [] := by
  simp only [flushWarningBatch] at h
  split at h
  · cases h
  · rename_i hne
    cases h
    exact hne

theorem drainClosed_ids (h : (a.drainClosed cfg clk).2 = some job) : job.ids ≠ [] := by
  unfold drainClosed at h
  split at h
  · cases h
    exact List.cons_ne_nil _ _
  · simp only at h
    split at h
    · exact flush_ids h
    · cases h

theorem halfOpenTest_ids (h : a.halfOpenTest.2 = some job) : job.ids ≠ [] := by
  unfold halfOpenTest at h
  split at h
  · cases h
  split at h
  · cases h
  · cases h
    exact List.cons_ne_nil _ _

/-- What a drain delivers it has claimed. -/
theorem drainOnce_ids (h : (a.drainOnce cfg clk).2 = some job) : job.ids ≠ [] := by
  by_cases hholds : a.breaker.Holds clk.breaker
  · rw [drainOnce_of_holds hholds] at h
    cases h
  · rw [drainOnce_of_not_holds hholds] at h
    split at h
    · exact halfOpenTest_ids h
    · exact drainClosed_ids h

theorem Stocked.attempts_iff_starts (h : a.Stocked) : a.Attempts cfg clk ↔ (a.drainOnce cfg clk).2.isSome := by
  constructor
  · rintro ⟨job, hjob, -, -⟩
    simp [hjob]
  · intro hsome
    obtain ⟨job, hjob⟩ := Option.isSome_iff_exists.mp hsome
    have hclaimed : a.db.Claimed (jobIds (a.drainOnce cfg clk).2) (a.drainOnce cfg clk).1.db :=
      h.drainOnce_drained.claimed
    rw [hjob] at hclaimed
    exact ⟨job, hjob, drainOnce_ids hjob, hclaimed⟩

/-- Outside the open period, a drain attempts exactly what is deliverable. -/
theorem Stocked.attempts_iff (h : a.Stocked) (hbatch : 0 < cfg.batchSize) (hfree : ¬ a.breaker.Holds clk.breaker) :
    a.Attempts cfg clk ↔ a.Deliverable cfg clk.ready := by
  rw [h.attempts_iff_starts, drainOnce_of_not_holds hfree, polled_mode hfree]
  unfold Deliverable
  by_cases hclosed : a.breaker.mode = .closed
  · have hsame : a.polled clk = a := by
      unfold AlertAgent.polled
      simp [hclosed]
    rw [if_pos hclosed, if_pos hclosed, hsame, if_neg nofun, h.drainClosed_starts_iff]
    simp [Waits, hbatch]
  · rw [if_neg hclosed, if_neg hclosed, if_pos rfl, halfOpenTest_starts_iff, polled_db]
    rfl

/-- A breaker that is to be tested stays so when there is nothing to test it with. -/
theorem drainOnce_without_critical (hmode : a.breaker.mode ≠ .closed) (hnone : ¬ a.HasCritical) :
    ∃ a', a.drainOnce cfg clk = (a', none) ∧ a'.db = a.db ∧ a'.breaker.mode ≠ .closed := by
  by_cases hholds : a.breaker.Holds clk.breaker
  · exact ⟨a, drainOnce_of_holds hholds, rfl, hmode⟩
  · have hhalf : (a.polled clk).breaker.mode = .halfOpen := by rw [polled_mode hholds, if_neg hmode]
    refine ⟨a.polled clk, ?_, polled_db, by simp [hhalf]⟩
    have hempty : (a.polled clk).db.oldestPendingCritical = none := by
      rw [polled_db, ← Option.not_isSome_iff_eq_none, oldestPendingCritical_isSome]
      exact hnone
    rw [drainOnce_of_not_holds hholds, if_pos hhalf]
    simp only [halfOpenTest, hempty]

end Drains

end AlertAgent

namespace AlertWorld

/-! ## Reachable states -/

/-- **Progress.** In every state that a run reaches, outside the open period, a drain claims and attempts an alert
exactly when, the breaker closed, an alert of the queue is pending or the buffer is due, or, the breaker not closed, a
CRITICAL row is pending. -/
theorem attempts_iff_deliverable (cfg : AlertConfig) (nowMs : ℤ) (db : AlertDb) (es : List AlertCall) (clk : DrainClock)
    (hbatch : 1 ≤ cfg.batchSize)
    (hfree : ¬ (Runs.run (step cfg) (start cfg nowMs db) es).agent.breaker.Holds clk.breaker) :
    (Runs.run (step cfg) (start cfg nowMs db) es).agent.Attempts cfg clk ↔
      (Runs.run (step cfg) (start cfg nowMs db) es).agent.Deliverable cfg clk.ready :=
  (coherent_run cfg nowMs db es).stocked.attempts_iff hbatch hfree

/-- With one CRITICAL alert queued. -/
theorem attempts_iff_deliverable_oneQueued :
    (Runs.run (step {}) (start {} 0 AlertDb.empty) [.emit "CRITICAL_ALERT" {} {}]).agent.Attempts {} {} ↔
      (Runs.run (step {}) (start {} 0 AlertDb.empty) [.emit "CRITICAL_ALERT" {} {}]).agent.Deliverable {} 0 :=
  attempts_iff_deliverable {} 0 AlertDb.empty [.emit "CRITICAL_ALERT" {} {}] {} (by decide) (by decide)

/-- The breaker has opened with a failed alert; then the observation stops. -/
def observationStopped : List AlertCall :=
  [.sendDirect "CRITICAL_ALERT" {} {} {}, .finish 0 (fun _ => ⟨.answered 500 none, .networkError⟩) 0 {},
    .emit "OBSERVATION_STOPPED" {} {}]

/-- The warning is due, and a drain after the open period does not attempt it. -/
theorem not_attempts_observationStopped :
    ¬ ∀ (cfg : AlertConfig) (nowMs : ℤ) (db : AlertDb) (es : List AlertCall) (clk : DrainClock),
      let w := Runs.run (step cfg) (start cfg nowMs db) es
      1 ≤ cfg.batchSize → (∀ i, w.deliveries i = none) → ¬ w.agent.breaker.Holds clk.breaker →
        (w.agent.criticalQueue ≠ [] ∨ w.agent.BufferDue cfg clk.ready) → w.agent.Attempts cfg clk := by
  intro h
  have hidle : ∀ i, (Runs.run (step { breakerFailThreshold := 1 }) (start { breakerFailThreshold := 1 } 0 AlertDb.empty)
      observationStopped).deliveries i = none := by
    have hone : (Runs.run (step { breakerFailThreshold := 1 }) (start { breakerFailThreshold := 1 } 0 AlertDb.empty)
        observationStopped).nextDelivery = 1 := by decide +kernel
    have hzero : ((Runs.run (step { breakerFailThreshold := 1 }) (start { breakerFailThreshold := 1 } 0 AlertDb.empty)
        observationStopped).deliveries 0).isNone = true := by decide +kernel
    refine fun i => Option.eq_none_iff_forall_ne_some.mpr fun d hd => ?_
    have hlt := (coherent_run _ _ _ _).fresh i d hd
    rw [hone] at hlt
    rw [Nat.lt_one_iff.mp hlt] at hd
    simp [hd] at hzero
  obtain ⟨job, hjob, -, -⟩ :=
    h { breakerFailThreshold := 1 } 0 AlertDb.empty observationStopped { breaker := 100, ready := 100 }
    (by decide) hidle (by decide +kernel) (.inr (by decide +kernel))
  have hnone : ((Runs.run (step { breakerFailThreshold := 1 }) (start { breakerFailThreshold := 1 } 0 AlertDb.empty)
      observationStopped).agent.drainOnce { breakerFailThreshold := 1 }
        { breaker := 100, ready := 100 }).2.isSome = false := by
    decide +kernel
  rw [hjob] at hnone
  cases hnone

/-! ## A wedge -/

/-- The breaker is not closed, nothing is in flight, and no CRITICAL row is pending. -/
structure Wedged (w : AlertWorld) : Prop where
  tested : w.agent.breaker.mode ≠ .closed
  idle : ∀ i, w.deliveries i = none
  without : ¬ w.agent.HasCritical

/-- The call emits a CRITICAL alert. -/
def EmitsCritical : AlertCall → Prop
  | .emit eventType p _ => getSeverity eventType p.reason = .critical
  | .sendDirect eventType p _ _ => getSeverity eventType p.reason = .critical
  | _ => False

section Steps
variable {cfg : AlertConfig} {w : AlertWorld}

theorem Wedged.emit (h : w.Wedged) {eventType : String} {p : AlertPayload} (clk : EmitClock)
    (hsev : getSeverity eventType p.reason ≠ .critical) :
    Wedged { w with agent := w.agent.emit cfg eventType p clk } := by
  have hemit : w.agent.Emitted (w.agent.emit cfg eventType p clk) := emit_emitted
  refine ⟨?_, h.idle, fun hcrit => ?_⟩
  · show (w.agent.emit cfg eventType p clk).breaker.mode ≠ .closed
    rw [hemit.breaker]
    exact h.tested
  · exact (emit_hasCritical.mp hcrit).elim hsev h.without

/-- A drain finds nothing to test the breaker with. -/
theorem Wedged.suspend (h : w.Wedged) (owner : Owner) (time : ℚ) (clk : DrainClock) :
    (w.suspend owner time (w.agent.drainOnce cfg clk)).Wedged := by
  obtain ⟨a', hdrain, hdb, hmode⟩ : ∃ a', w.agent.drainOnce cfg clk = (a', none) ∧ a'.db = w.agent.db ∧
      a'.breaker.mode ≠ .closed := drainOnce_without_critical h.tested h.without
  rw [hdrain]
  refine ⟨hmode, h.idle, ?_⟩
  show ¬ a'.HasCritical
  unfold HasCritical
  rw [hdb]
  exact h.without

theorem Wedged.step (h : w.Wedged) {e : AlertCall} (he : ¬ EmitsCritical e) : (step cfg w e).Wedged := by
  cases e with
  | emit eventType p clk => exact h.emit clk he
  | stop => exact ⟨h.tested, h.idle, h.without⟩
  | drainLoop clk =>
    simp only [AlertWorld.step]
    split
    · exact h
    · exact h.suspend _ _ clk
  | sendDirect eventType p emitClk clk =>
    simp only [AlertWorld.step]
    rw [← suspend_agent (w.agent.emit cfg eventType p emitClk)]
    exact (h.emit emitClk he).suspend _ _ clk
  | finish i answers fail clk =>
    simp only [AlertWorld.step, finish, h.idle i]
    exact h

/-- **The wedge.** In a wedged state, no run without a CRITICAL alert starts a delivery, whatever the buffer holds. -/
theorem wedged_run (h : w.Wedged) {es : List AlertCall} (hes : ∀ e ∈ es, ¬ EmitsCritical e) :
    ∀ pre, pre <+: es → ∀ i, (Runs.run (AlertWorld.step cfg) w pre).deliveries i = none := by
  intro pre hpre
  have hkept : (Runs.run (AlertWorld.step cfg) w pre).Wedged := by
    refine (Runs.always_of_guarded h (fun _ _ hw he => hw.step he) ?_).last
    exact Runs.guarded_of_forall fun e he _ => hes e (hpre.subset he)
  exact hkept.idle

end Steps

end AlertWorld

end MikoV2.Alerting
