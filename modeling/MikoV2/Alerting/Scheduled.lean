import MikoV2.Alerting.Coherent

/-!
# After a restart

`start` expires the rows that are too old, and does not look at the others: a pending row of an earlier agent is in
neither of the queues.

* `Scheduled` : every pending CRITICAL row is queued, and every pending WARNING row is buffered;
* `Keeps` : what a drain keeps queued; `Scheduled.step` : every step keeps what is scheduled;
* `scheduled_iff_nothingLeft` : only a restart breaks it.
-/

namespace MikoV2.Alerting
open Circuit AlertAgent AlertDb

namespace AlertAgent

/-- Every pending CRITICAL row is queued, and every pending WARNING row is buffered. -/
structure Scheduled (a : AlertAgent) : Prop where
  critical : ∀ id, a.db.Has id .critical .pending → id ∈ a.criticalQueue.map Queued.id
  warning : ∀ id, a.db.Has id .warning .pending → id ∈ a.warningBuffer.map Buffered.id

/-- What is pending after a drain stays queued or buffered. -/
structure Keeps (a : AlertAgent) (r : AlertAgent × Option Job) : Prop where
  queue : ∀ id ∈ a.criticalQueue.map Queued.id, r.1.db.Pending id → id ∈ r.1.criticalQueue.map Queued.id
  buffer : ∀ id ∈ a.warningBuffer.map Buffered.id, r.1.db.Pending id → id ∈ r.1.warningBuffer.map Buffered.id

section Calls
variable {cfg : AlertConfig} {eventType : String} {p : AlertPayload} {emitClk : EmitClock} {clk : DrainClock}
  {a a' : AlertAgent} {db : AlertDb} {ids : List ℕ} {id : ℕ}

theorem Scheduled.emit (h : a.Scheduled) : (a.emit cfg eventType p emitClk).Scheduled := by
  obtain ⟨e, -, ⟨hsev, hemit⟩ | ⟨hsev, hemit⟩ | ⟨-, hmerge⟩ | ⟨hsev, hemit⟩⟩ := emit_cases cfg eventType p emitClk a
  · -- an INFO is done with at once
    have hinfo : ∀ {id severity}, (a.emitInfo e).db.Has id severity .pending → a.db.Has id severity .pending := by
      intro id severity hrow
      rcases has_updateStatus.mp hrow with ⟨hne, hold⟩ | ⟨-, hstatus, -⟩
      · rcases has_insertEvent.mp hold with hold | ⟨hid, -, -⟩
        · exact hold
        · exact absurd hid hne
      · cases hstatus
    rw [hemit]
    exact ⟨fun id hrow => h.critical id (hinfo hrow), fun id hrow => h.warning id (hinfo hrow)⟩
  · rw [hemit]
    refine ⟨fun id hrow => ?_, fun id hrow => ?_⟩
    · rcases has_insertEvent.mp hrow with hold | ⟨rfl, -, -⟩
      · simp [emitCritical, h.critical id hold, -List.mem_map]
      · simp [emitCritical]
    · rcases has_insertEvent.mp hrow with hold | ⟨-, hsame, -⟩
      · exact h.warning id hold
      · rw [hsev] at hsame
        cases hsame
  · obtain ⟨hdb, hqueue, hids, -, -⟩ := tryDedupMerge_some hmerge
    refine ⟨fun id hrow => ?_, fun id hrow => ?_⟩
    · rw [hdb] at hrow
      rw [hqueue]
      exact h.critical id hrow
    · rw [hdb] at hrow
      rw [hids]
      exact h.warning id hrow
  · rw [hemit]
    refine ⟨fun id hrow => ?_, fun id hrow => ?_⟩
    · rcases has_insertEvent.mp hrow with hold | ⟨-, hsame, -⟩
      · exact h.critical id hold
      · rw [hsev] at hsame
        cases hsame
    · rcases has_insertEvent.mp hrow with hold | ⟨rfl, -, -⟩
      · simp [emitWarning, h.warning id hold, -List.mem_map]
      · simp [emitWarning]

/-! ## What a drain takes out is not pending any more -/

/-- A claim makes nothing pending. -/
theorem pending_of_claimed {db' : AlertDb} (h : db.Claimed ids db') (hp : db'.Pending id) : db.Pending id := by
  have hnot : id ∉ ids := fun hid => h.not_pending hid hp
  obtain ⟨severity, hrow⟩ := pending_iff.mp hp
  exact pending_iff.mpr ⟨severity, (h.other id hnot _ _).mp hrow⟩

theorem popCritical_keeps {qs : List Queued} (hid : id ∈ qs.map Queued.id) (hp : (popCritical qs db).2.2.Pending id) :
    id ∈ (popCritical qs db).2.1.map Queued.id := by
  induction qs with
  | nil => cases hid
  | cons q qs ih =>
    by_cases hq : db.Pending q.id
    · simp only [popCritical, optimisticSending_pending hq] at hp ⊢
      have hne : id ≠ q.id := by
        rintro rfl
        exact (claimed_optimisticSending hq).not_pending (List.mem_singleton_self _) hp
      exact List.mem_of_ne_of_mem hne hid
    · simp only [popCritical, optimisticSending_not_pending hq] at hp ⊢
      have hne : id ≠ q.id := by
        rintro rfl
        cases hpop : (popCritical qs db).1 with
        | none => exact hq (by rwa [popCritical_of_none (popCritical_none.mp hpop)] at hp)
        | some q' => exact hq (pending_of_claimed (popCritical_some hpop).2.2 hp)
      exact ih (List.mem_of_ne_of_mem hne hid) hp

/-- What is claimed, or could not be claimed, is not pending. -/
theorem claimAll_not_pending (hid : id ∈ ids) : ¬ (claimAll ids db).2.Pending id := by
  induction ids generalizing db with
  | nil => cases hid
  | cons u ids ih =>
    by_cases hu : db.Pending u
    · simp only [claimAll, optimisticSending_pending hu]
      rcases List.mem_cons.mp hid with rfl | hmem
      · exact fun hp => (claimed_optimisticSending hu).not_pending (List.mem_singleton_self _)
          (pending_of_claimed claimAll_claimed hp)
      · exact ih hmem
    · simp only [claimAll, optimisticSending_not_pending hu]
      rcases List.mem_cons.mp hid with rfl | hmem
      · exact fun hp => hu (pending_of_claimed claimAll_claimed hp)
      · exact ih hmem

theorem keeps_of_eq {job : Option Job} (hqueue : a'.criticalQueue = a.criticalQueue)
    (hbuffer : a'.warningBuffer = a.warningBuffer) : Keeps a (a', job) := by
  refine ⟨fun id hid _ => ?_, fun id hid _ => ?_⟩
  · show id ∈ a'.criticalQueue.map Queued.id
    rwa [hqueue]
  · show id ∈ a'.warningBuffer.map Buffered.id
    rwa [hbuffer]

theorem flush_keeps : Keeps a (a.flushWarningBatch cfg clk) := by
  refine ⟨fun id hid _ => hid, fun id hid hp => ?_⟩
  rw [← List.take_append_drop cfg.batchSize a.warningBuffer, List.map_append] at hid
  rcases List.mem_append.mp hid with htaken | hleft
  · exact absurd hp (claimAll_not_pending htaken)
  · exact hleft

theorem drainClosed_keeps : Keeps a (a.drainClosed cfg clk) := by
  have hkeeps : ∀ id ∈ a.criticalQueue.map Queued.id, (popCritical a.criticalQueue a.db).2.2.Pending id →
      id ∈ (popCritical a.criticalQueue a.db).2.1.map Queued.id := fun id hid hp => popCritical_keeps hid hp
  unfold drainClosed
  rcases hpop : popCritical a.criticalQueue a.db with ⟨first, queue, db'⟩
  rw [hpop] at hkeeps
  cases first with
  | some q => exact ⟨hkeeps, fun id hid _ => hid⟩
  | none =>
    simp only
    split
    · obtain ⟨hqueue, hbuffer⟩ : Keeps { a with criticalQueue := queue, db := db' }
          (flushWarningBatch cfg clk { a with criticalQueue := queue, db := db' }) := flush_keeps
      have hafter : ∀ id, (flushWarningBatch cfg clk { a with criticalQueue := queue, db := db' }).1.db.Pending id →
          db'.Pending id := fun id hp => pending_of_claimed claimAll_claimed hp
      exact ⟨fun id hid hp => hqueue id (hkeeps id hid (hafter id hp)) hp, hbuffer⟩
    · exact ⟨hkeeps, fun id hid _ => hid⟩

theorem halfOpenTest_keeps : Keeps a a.halfOpenTest := by
  unfold halfOpenTest
  split
  · exact keeps_of_eq rfl rfl
  · split
    · exact keeps_of_eq rfl rfl
    · exact keeps_of_eq rfl rfl

theorem drainOnce_keeps : Keeps a (a.drainOnce cfg clk) := by
  by_cases hholds : a.breaker.Holds clk.breaker
  · rw [drainOnce_of_holds hholds]
    exact keeps_of_eq rfl rfl
  · have hsame : ∀ {r}, Keeps (a.polled clk) r → Keeps a r := by
      rintro r ⟨hqueue, hbuffer⟩
      rw [polled_criticalQueue] at hqueue
      rw [polled_warningBuffer] at hbuffer
      exact ⟨hqueue, hbuffer⟩
    rw [drainOnce_of_not_holds hholds]
    split
    · exact hsame halfOpenTest_keeps
    · exact hsame drainClosed_keeps

theorem goOn_keeps (kind : JobKind) (result : AttemptEnd) : Keeps a (a.goOn cfg clk kind result) := by
  cases kind with
  | critical =>
    simp only [goOn]
    split
    · exact keeps_of_eq rfl rfl
    · exact drainClosed_keeps
  | batch => exact keeps_of_eq rfl rfl
  | probe => exact keeps_of_eq rfl rfl

theorem Scheduled.drained (h : a.Scheduled) {r : AlertAgent × Option Job} (hr : Drained a r) (hk : Keeps a r) :
    r.1.Scheduled := by
  have hbefore : ∀ id severity, r.1.db.Has id severity .pending → a.db.Has id severity .pending := by
    intro id severity hrow
    have hnot : id ∉ jobIds r.2 := fun hid => hr.claimed.not_pending hid (pending_iff.mpr ⟨severity, hrow⟩)
    exact (hr.claimed.other id hnot _ _).mp hrow
  refine ⟨fun id hrow => ?_, fun id hrow => ?_⟩
  · exact hk.queue id (h.critical id (hbefore id _ hrow)) (pending_iff.mpr ⟨_, hrow⟩)
  · exact hk.buffer id (h.warning id (hbefore id _ hrow)) (pending_iff.mpr ⟨_, hrow⟩)

/-- The end of a delivery makes nothing pending. -/
theorem Scheduled.settle (h : a.Scheduled) (hsending : ∀ id ∈ ids, ∃ severity, a.db.Has id severity .sending)
    (now : ℚ) (result : AttemptEnd) : (a.settle cfg now ids result).Scheduled := by
  have hbefore : ∀ id severity, (a.settle cfg now ids result).db.Has id severity .pending →
      a.db.Has id severity .pending := by
    intro id severity hrow
    have hp : a.db.Pending id := (settle_pending hsending id).mp (pending_iff.mpr ⟨severity, hrow⟩)
    have hnot : id ∉ ids := by
      intro hid
      obtain ⟨severity', hs⟩ := hsending id hid
      exact hs.not_pending (by decide) hp
    exact (has_settle hnot).mp hrow
  refine ⟨fun id hrow => ?_, fun id hrow => ?_⟩
  · rw [settle_criticalQueue]
    exact h.critical id (hbefore id _ hrow)
  · rw [settle_warningBuffer]
    exact h.warning id (hbefore id _ hrow)

end Calls

end AlertAgent

namespace AlertWorld

section Steps
variable {cfg : AlertConfig} {w : AlertWorld}

theorem suspend_scheduled {owner : Owner} {time : ℚ} {r : AlertAgent × Option Job} (h : r.1.Scheduled) :
    (w.suspend owner time r).agent.Scheduled := by
  obtain ⟨a, job⟩ := r
  cases job <;> exact h

theorem scheduled_step (h : w.agent.Scheduled) (hc : w.Coherent cfg) (e : AlertCall) :
    (step cfg w e).agent.Scheduled := by
  cases e with
  | emit eventType p clk => exact h.emit
  | stop => exact ⟨h.critical, h.warning⟩
  | drainLoop clk =>
    simp only [AlertWorld.step]
    split
    · exact h
    · exact suspend_scheduled (h.drained hc.stocked.drainOnce_drained drainOnce_keeps)
  | sendDirect eventType p emitClk clk =>
    have hc' := hc.emit eventType p emitClk
    exact suspend_scheduled (h.emit.drained hc'.stocked.drainOnce_drained drainOnce_keeps)
  | finish i answers fail clk =>
    cases hd : w.deliveries i with
    | none =>
      simp only [AlertWorld.step, finish, hd]
      exact h
    | some d =>
      have hsettled := (h.settle (hc.sending i d hd) fail (w.outcome cfg d answers) :
        (w.agent.settle cfg fail d.job.ids (w.outcome cfg d answers)).Scheduled)
      have hc' := hc.ended hd (w.outcome cfg d answers) fail
      simp only [AlertWorld.step]
      rw [finish_eq hd]
      exact suspend_scheduled (hsettled.drained (hc'.stocked.goOn_drained _ _) (goOn_keeps _ _))

end Steps

/-- **A restart.** In every state of a run the pending CRITICAL and WARNING rows are scheduled, exactly when the sweep
of `start` has left no such row in the table. -/
theorem scheduled_iff_nothingLeft (cfg : AlertConfig) (nowMs : ℤ) (db : AlertDb) (es : List AlertCall) :
    Runs.Always (fun w => w.agent.Scheduled) (step cfg) (start cfg nowMs db) es ↔
      ∀ r ∈ db.rows, r.status = .pending → r.severity ≠ .info → r.tsMs < nowMs - cfg.pendingTtlS * 1000 := by
  constructor
  · intro h r hr hstatus hsev
    by_contra hyoung
    have h0 : (start cfg nowMs db).agent.Scheduled := h [] List.nil_prefix
    have hrow : (start cfg nowMs db).agent.db.Has r.id r.severity .pending :=
      ⟨r, List.mem_map.mpr ⟨r, hr, if_neg fun hold => hyoung hold.2⟩, rfl, rfl, hstatus⟩
    cases hr : r.severity with
    | critical =>
      rw [hr] at hrow
      exact absurd (h0.critical r.id hrow) (List.not_mem_nil)
    | warning =>
      rw [hr] at hrow
      exact absurd (h0.warning r.id hrow) (List.not_mem_nil)
    | info => exact hsev hr
  · intro hleft
    have hnone : ∀ id severity, severity ≠ .info → ¬ (start cfg nowMs db).agent.db.Has id severity .pending := by
      rintro id severity hsev ⟨r', hr', -, rfl, hstatus⟩
      obtain ⟨r, hr, rfl⟩ := List.mem_map.mp hr'
      by_cases hold : r.status = .pending ∧ r.tsMs < nowMs - cfg.pendingTtlS * 1000
      · rw [if_pos hold] at hstatus
        cases hstatus
      · rw [if_neg hold] at hstatus hsev
        exact hold ⟨hstatus, hleft r hr hstatus hsev⟩
    have hstart : (start cfg nowMs db).Coherent cfg ∧ (start cfg nowMs db).agent.Scheduled := by
      refine ⟨coherent_start cfg nowMs db, fun id hrow => ?_, fun id hrow => ?_⟩
      · exact absurd hrow (hnone id .critical (by decide))
      · exact absurd hrow (hnone id .warning (by decide))
    exact fun pre _ => (Runs.invariant (I := fun w : AlertWorld => w.Coherent cfg ∧ w.agent.Scheduled) hstart
      (fun w e h => ⟨h.1.step e, scheduled_step h.2 h.1 e⟩) pre).2

/-- What an agent leaves that is stopped before it has sent its alert. -/
def stoppedEarly : AlertDb :=
  (Runs.run (step {}) (start {} 0 AlertDb.empty) [.emit "CRITICAL_ALERT" {} {}, .stop]).agent.db

/-- The next agent does not have the alert queued. -/
theorem not_scheduled_stoppedEarly :
    ¬ ∀ (cfg : AlertConfig) (nowMs : ℤ) (db : AlertDb) (es : List AlertCall),
      (Runs.run (step cfg) (start cfg nowMs db) es).agent.Scheduled := by
  intro h
  have hrow : ∃ r ∈ (start {} 0 stoppedEarly).agent.db.rows, r.id = 1 ∧ r.severity = .critical ∧ r.status = .pending := by
    decide
  exact absurd ((h {} 0 stoppedEarly []).critical 1 hrow) (List.not_mem_nil)

end AlertWorld

end MikoV2.Alerting
