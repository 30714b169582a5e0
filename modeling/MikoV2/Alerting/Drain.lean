import MikoV2.Alerting.Agent

/-!
# One drain

From the call, or the end of a delivery, to the next delivery. A drain claims rows that are pending; it can start a
delivery when the breaker is closed and something waits, or when the breaker is tested and a CRITICAL row is pending.

* `Claimed` : what a drain does to the table; `popCritical_some`, `claimAll_claimed` : its loops;
* `Stocked` : what the agent knows of the table; `Drained` : what a drain does to the agent;
* `drainOnce_drained`, `goOn_drained`, `drainOnce_breaker`, `goOn_breaker`;
* `drainClosed_starts_iff`, `halfOpenTest_starts_iff` : when a drain starts a delivery.
-/

namespace MikoV2.Alerting
open Circuit AlertAgent AlertDb

/-! ## The table -/

namespace AlertDb

/-- The ids were pending, and are `sending`; the other rows are as they were. -/
structure Claimed (db : AlertDb) (ids : List ℕ) (db' : AlertDb) : Prop where
  pending : ∀ id ∈ ids, db.Pending id
  other : ∀ id, id ∉ ids → ∀ severity status, db'.Has id severity status ↔ db.Has id severity status
  sending : ∀ id ∈ ids, ∀ severity, db.Has id severity .pending → db'.Has id severity .sending

section Claims
variable {db db' db'' : AlertDb} {id : ℕ} {ids ids' : List ℕ}

theorem Claimed.refl (db : AlertDb) : db.Claimed [] db := ⟨nofun, fun _ _ _ _ => Iff.rfl, nofun⟩

theorem claimed_optimisticSending (h : db.Pending id) : db.Claimed [id] (db.updateStatus id .sending 0 none) where
  pending u hu := by rwa [List.mem_singleton.mp hu]
  other u hu severity status := has_updateStatus_ne fun hsame => hu (List.mem_singleton.mpr hsame)
  sending u hu severity hp := by
    rw [List.mem_singleton.mp hu] at hp ⊢
    exact has_updateStatus.mpr (.inr ⟨rfl, rfl, _, hp⟩)

/-- A claimed row cannot be claimed again. -/
theorem Claimed.not_pending (h : db.Claimed ids db') (hid : id ∈ ids) : ¬ db'.Pending id := by
  obtain ⟨severity, hp⟩ := pending_iff.mp (h.pending id hid)
  exact (h.sending id hid severity hp).not_pending nofun

theorem Claimed.trans (h : db.Claimed ids db') (h' : db'.Claimed ids' db'') : db.Claimed (ids ++ ids') db'' := by
  have hapart : ∀ u ∈ ids', u ∉ ids := fun u hu hmem => h.not_pending hmem (h'.pending u hu)
  refine ⟨fun u hu => ?_, fun u hu severity status => ?_, fun u hu severity hp => ?_⟩
  · rcases List.mem_append.mp hu with hmem | hmem
    · exact h.pending u hmem
    · obtain ⟨severity, hp⟩ := pending_iff.mp (h'.pending u hmem)
      exact pending_iff.mpr ⟨severity, (h.other u (hapart u hmem) _ _).mp hp⟩
  · obtain ⟨hnot, hnot'⟩ := not_or.mp (mt List.mem_append.mpr hu)
    rw [h'.other u hnot', h.other u hnot]
  · rcases List.mem_append.mp hu with hmem | hmem
    · have hnot : u ∉ ids' := fun hmem' => hapart u hmem' hmem
      exact (h'.other u hnot _ _).mpr (h.sending u hmem severity hp)
    · exact h'.sending u hmem severity ((h.other u (hapart u hmem) _ _).mpr hp)

theorem has_updateAll {status status' : DeliveryStatus} {attemptsDelta : ℕ} {lastError : Option String}
    {severity : Severity} :
    (updateAll status' attemptsDelta lastError ids db).Has id severity status ↔
      (id ∉ ids ∧ db.Has id severity status) ∨ (id ∈ ids ∧ status = status' ∧ ∃ old, db.Has id severity old) := by
  unfold updateAll
  induction ids generalizing db with
  | nil => simp
  | cons u ids ih =>
    rw [List.foldl_cons, ih]
    simp only [has_updateStatus, List.mem_cons]
    by_cases hu : id = u
    · subst hu
      by_cases hmem : id ∈ ids <;> simp [hmem]
    · simp [hu]

end Claims

end AlertDb

/-! ## The loops of a drain -/

namespace AlertAgent

section Loops
variable {db : AlertDb} {qs : List Queued} {ids : List ℕ}

theorem popCritical_none : (popCritical qs db).1 = none ↔ ∀ q ∈ qs, ¬ db.Pending q.id := by
  induction qs with
  | nil => simp [popCritical]
  | cons q qs ih =>
    by_cases hp : db.Pending q.id
    · simp [popCritical, optimisticSending_pending hp, hp]
    · simp [popCritical, optimisticSending_not_pending hp, hp, ih]

/-- A queue without anything to claim is emptied. -/
theorem popCritical_of_none (h : ∀ q ∈ qs, ¬ db.Pending q.id) : popCritical qs db = (none, [], db) := by
  induction qs with
  | nil => rfl
  | cons q qs ih =>
    have hq : ¬ db.Pending q.id := h q List.mem_cons_self
    simp only [popCritical, optimisticSending_not_pending hq]
    exact ih fun q' hq' => h q' (List.mem_cons_of_mem q hq')

theorem popCritical_some {q : Queued} (h : (popCritical qs db).1 = some q) :
    q ∈ qs ∧ (popCritical qs db).2.1 ⊆ qs ∧ db.Claimed [q.id] (popCritical qs db).2.2 := by
  induction qs with
  | nil => cases h
  | cons q' qs ih =>
    by_cases hp : db.Pending q'.id
    · simp only [popCritical, optimisticSending_pending hp] at h ⊢
      cases h
      exact ⟨List.mem_cons_self, List.subset_cons_self _ _, claimed_optimisticSending hp⟩
    · simp only [popCritical, optimisticSending_not_pending hp] at h ⊢
      obtain ⟨hmem, hsub, hclaim⟩ := ih h
      exact ⟨List.mem_cons_of_mem _ hmem, List.subset_cons_of_subset _ hsub, hclaim⟩

theorem claimAll_claimed : db.Claimed (claimAll ids db).1 (claimAll ids db).2 := by
  induction ids generalizing db with
  | nil => exact Claimed.refl db
  | cons id ids ih =>
    by_cases hp : db.Pending id
    · simp only [claimAll, optimisticSending_pending hp]
      exact (claimed_optimisticSending hp).trans ih
    · simp only [claimAll, optimisticSending_not_pending hp]
      exact ih

theorem claimAll_subset : (claimAll ids db).1 ⊆ ids := by
  induction ids generalizing db with
  | nil => exact fun _ h => h
  | cons id ids ih =>
    by_cases hp : db.Pending id
    · simp only [claimAll, optimisticSending_pending hp]
      exact List.cons_subset_cons id ih
    · simp only [claimAll, optimisticSending_not_pending hp]
      exact List.subset_cons_of_subset id ih

theorem claimAll_ne_nil {id : ℕ} (hid : id ∈ ids) (hp : db.Pending id) : (claimAll ids db).1 ≠ [] := by
  induction ids with
  | nil => cases hid
  | cons u ids ih =>
    by_cases hu : db.Pending u
    · simp [claimAll, optimisticSending_pending hu]
    · simp only [claimAll, optimisticSending_not_pending hu]
      have hne : id ≠ u := fun hsame => hu (hsame ▸ hp)
      exact ih (List.mem_of_ne_of_mem hne hid)

end Loops

/-! ## A drain -/

def jobIds (job : Option Job) : List ℕ := job.elim [] Job.ids

/-- What is queued belongs to a CRITICAL row, what is buffered to a pending WARNING row. -/
structure Stocked (a : AlertAgent) : Prop where
  queue : ∀ q ∈ a.criticalQueue, ∃ status, a.db.Has q.id .critical status
  buffer : ∀ id ∈ a.warningBuffer.map Buffered.id, a.db.Has id .warning .pending
  distinct : (a.warningBuffer.map Buffered.id).Nodup

/-- What a drain does, up to the delivery that it starts. -/
structure Drained (a : AlertAgent) (r : AlertAgent × Option Job) : Prop where
  claimed : a.db.Claimed (jobIds r.2) r.1.db
  queue : r.1.criticalQueue ⊆ a.criticalQueue
  buffer : (r.1.warningBuffer.map Buffered.id).Sublist (a.warningBuffer.map Buffered.id)
  free : ∀ id ∈ r.1.warningBuffer.map Buffered.id, id ∉ jobIds r.2

section Drains
variable {cfg : AlertConfig} {clk : DrainClock} {a : AlertAgent}

theorem drained_nothing {a' : AlertAgent} (hdb : a'.db = a.db) (hqueue : a'.criticalQueue ⊆ a.criticalQueue)
    (hbuffer : a'.warningBuffer = a.warningBuffer) : Drained a (a', none) := by
  refine ⟨?_, hqueue, ?_, nofun⟩
  · show a.db.Claimed [] a'.db
    rw [hdb]
    exact Claimed.refl a.db
  · show (a'.warningBuffer.map Buffered.id).Sublist _
    rw [hbuffer]

/-- A CRITICAL row is claimed: it is not in the buffer. -/
theorem Stocked.drained_critical (h : a.Stocked) {a' : AlertAgent} {job : Job} {id : ℕ} (hids : job.ids = [id])
    {status : DeliveryStatus} (hcrit : a.db.Has id .critical status) (hclaimed : a.db.Claimed [id] a'.db)
    (hqueue : a'.criticalQueue ⊆ a.criticalQueue) (hbuffer : a'.warningBuffer = a.warningBuffer) :
    Drained a (a', some job) := by
  have hjob : jobIds (some job) = [id] := hids
  refine ⟨?_, hqueue, ?_, fun u hu => ?_⟩
  · rw [hjob]
    exact hclaimed
  · show (a'.warningBuffer.map Buffered.id).Sublist _
    rw [hbuffer]
  · rw [hjob, List.mem_singleton]
    rintro rfl
    have hwarn := h.buffer u (by simpa only [hbuffer] using hu)
    exact absurd (hwarn.unique hcrit).1 nofun

theorem Stocked.flush_drained (h : a.Stocked) : Drained a (a.flushWarningBatch cfg clk) := by
  have hsplit : a.warningBuffer.take cfg.batchSize ++ a.warningBuffer.drop cfg.batchSize = a.warningBuffer :=
    List.take_append_drop _ _
  have hjob : jobIds (a.flushWarningBatch cfg clk).2 =
      (claimAll ((a.warningBuffer.take cfg.batchSize).map Buffered.id) a.db).1 := by
    unfold flushWarningBatch
    simp only
    split
    · rename_i hnil
      exact hnil.symm
    · rfl
  refine ⟨?_, fun _ hq => hq, (List.drop_sublist _ _).map _, fun u hu hmem => ?_⟩
  · rw [hjob]
    exact claimAll_claimed
  · rw [hjob] at hmem
    have hnodup := h.distinct
    rw [← hsplit, List.map_append, List.nodup_append] at hnodup
    exact hnodup.2.2 u (claimAll_subset hmem) u hu rfl

theorem Stocked.drainClosed_drained (h : a.Stocked) : Drained a (a.drainClosed cfg clk) := by
  unfold drainClosed
  cases hpop : popCritical a.criticalQueue a.db with
  | mk first rest =>
    cases first with
    | some q =>
      have hfirst : (popCritical a.criticalQueue a.db).1 = some q := by rw [hpop]
      obtain ⟨hmem, hsub, hclaim⟩ := popCritical_some hfirst
      rw [hpop] at hsub hclaim
      obtain ⟨status, hcrit⟩ := h.queue q hmem
      exact h.drained_critical rfl hcrit hclaim hsub rfl
    | none =>
      have hnone := popCritical_none.mp (by rw [hpop])
      rw [popCritical_of_none hnone] at hpop
      cases hpop
      have hstocked : Stocked { a with criticalQueue := [] } := ⟨nofun, h.buffer, h.distinct⟩
      simp only
      split
      · have hflush : Drained _ (flushWarningBatch cfg clk { a with criticalQueue := [] }) := hstocked.flush_drained
        exact ⟨hflush.claimed, nofun, hflush.buffer, hflush.free⟩
      · exact drained_nothing rfl nofun rfl

theorem Stocked.halfOpenTest_drained (h : a.Stocked) : Drained a a.halfOpenTest := by
  unfold halfOpenTest
  cases hrow : a.db.oldestPendingCritical with
  | none => exact drained_nothing rfl (fun _ hq => hq) rfl
  | some r =>
    have hcrit := has_of_oldestPendingCritical hrow
    have hp : a.db.Pending r.id := pending_iff.mpr ⟨_, hcrit⟩
    simp only [optimisticSending_pending hp]
    exact h.drained_critical rfl hcrit (claimed_optimisticSending hp) (fun _ hq => hq) rfl

theorem drained_congr (a' : AlertAgent) {r : AlertAgent × Option Job} (hdb : a'.db = a.db)
    (hqueue : a'.criticalQueue = a.criticalQueue) (hbuffer : a'.warningBuffer = a.warningBuffer) (h : Drained a' r) :
    Drained a r := by
  obtain ⟨hclaimed, hsub, hsublist, hfree⟩ := h
  rw [hdb] at hclaimed
  rw [hqueue] at hsub
  rw [hbuffer] at hsublist
  exact ⟨hclaimed, hsub, hsublist, hfree⟩

/-- The breaker that a drain finds, once it has looked at the clock. -/
def polled (clk : DrainClock) (a : AlertAgent) : AlertAgent :=
  if a.breaker.mode = .opened then { a with breaker := a.breaker.poll clk.breaker, halfOpenInFlight := false } else a

theorem drainOnce_of_holds (h : a.breaker.Holds clk.breaker) : a.drainOnce cfg clk = (a, none) := if_pos h

theorem drainOnce_of_not_holds (h : ¬ a.breaker.Holds clk.breaker) :
    a.drainOnce cfg clk =
      if (a.polled clk).breaker.mode = .halfOpen then (a.polled clk).halfOpenTest
      else (a.polled clk).drainClosed cfg clk :=
  if_neg h

@[simp] theorem polled_db : (a.polled clk).db = a.db := by
  unfold polled
  split <;> rfl

@[simp] theorem polled_criticalQueue : (a.polled clk).criticalQueue = a.criticalQueue := by
  unfold polled
  split <;> rfl

@[simp] theorem polled_warningBuffer : (a.polled clk).warningBuffer = a.warningBuffer := by
  unfold polled
  split <;> rfl

theorem polled_breaker : (a.polled clk).breaker = a.breaker.poll clk.breaker := by
  unfold polled
  split
  · rfl
  · rename_i hne
    exact (if_neg fun h => hne h.1).symm

/-- Past its time the breaker is tested, else it stays as it is. -/
theorem polled_mode (h : ¬ a.breaker.Holds clk.breaker) :
    (a.polled clk).breaker.mode = if a.breaker.mode = .closed then .closed else .halfOpen := by
  rw [polled_breaker]
  unfold Breaker.poll
  cases hmode : a.breaker.mode with
  | closed => simp [hmode]
  | halfOpen => simp [hmode]
  | opened =>
    have hdue : ¬ clk.breaker < a.breaker.openUntil := fun hlt => h ⟨hmode, hlt⟩
    simp [hdue]

theorem Stocked.polled (h : a.Stocked) : (a.polled clk).Stocked :=
  ⟨by simpa using h.queue, by simpa using h.buffer, by simpa using h.distinct⟩

theorem Stocked.drainOnce_drained (h : a.Stocked) : Drained a (a.drainOnce cfg clk) := by
  by_cases hholds : a.breaker.Holds clk.breaker
  · rw [drainOnce_of_holds hholds]
    exact drained_nothing rfl (fun _ hq => hq) rfl
  · rw [drainOnce_of_not_holds hholds]
    refine drained_congr (a.polled clk) polled_db polled_criticalQueue polled_warningBuffer ?_
    split
    · exact h.polled.halfOpenTest_drained
    · exact h.polled.drainClosed_drained

theorem Stocked.goOn_drained (h : a.Stocked) (kind : JobKind) (result : AttemptEnd) :
    Drained a (a.goOn cfg clk kind result) := by
  cases kind with
  | critical =>
    simp only [goOn]
    split
    · exact drained_nothing rfl (fun _ hq => hq) rfl
    · exact h.drainClosed_drained
  | batch => exact drained_nothing rfl (fun _ hq => hq) rfl
  | probe => exact drained_nothing rfl (fun _ hq => hq) rfl

/-! ## What a drain does to the breaker -/

theorem drainClosed_breaker : (a.drainClosed cfg clk).1.breaker = a.breaker := by
  unfold drainClosed
  split
  · rfl
  · simp only
    split <;> rfl

theorem halfOpenTest_breaker : a.halfOpenTest.1.breaker = a.breaker := by
  unfold halfOpenTest
  split
  · rfl
  · split <;> rfl

theorem drainOnce_breaker : (a.drainOnce cfg clk).1.breaker = a.breaker ∨
    (a.drainOnce cfg clk).1.breaker = a.breaker.poll clk.breaker := by
  by_cases hholds : a.breaker.Holds clk.breaker
  · rw [drainOnce_of_holds hholds]
    exact .inl rfl
  · rw [drainOnce_of_not_holds hholds]
    refine .inr ?_
    split
    · rw [halfOpenTest_breaker, polled_breaker]
    · rw [drainClosed_breaker, polled_breaker]

theorem goOn_breaker (kind : JobKind) (result : AttemptEnd) : (a.goOn cfg clk kind result).1.breaker = a.breaker := by
  cases kind with
  | critical =>
    simp only [goOn]
    split
    · rfl
    · exact drainClosed_breaker
  | batch => rfl
  | probe => rfl

/-! ## When a drain starts a delivery -/

theorem Stocked.flush_starts_iff (h : a.Stocked) (hsome : a.warningBuffer ≠ []) :
    (a.flushWarningBatch cfg clk).2.isSome ↔ 0 < cfg.batchSize := by
  unfold flushWarningBatch
  simp only
  constructor
  · intro hstart
    by_contra hzero
    rw [Nat.eq_zero_of_not_pos hzero] at hstart
    exact absurd hstart (by simp [claimAll])
  · intro hpos
    obtain ⟨b, bs, hb⟩ := List.exists_cons_of_ne_nil hsome
    obtain ⟨n, hn⟩ := Nat.exists_eq_succ_of_ne_zero hpos.ne'
    have hp : a.db.Pending b.id := pending_iff.mpr ⟨_, h.buffer b.id (by simp [hb])⟩
    have hmem : b.id ∈ (a.warningBuffer.take cfg.batchSize).map Buffered.id := by simp [hb, hn]
    have hne := claimAll_ne_nil hmem hp
    rw [if_neg hne]
    rfl

/-- A queued alert waits for its delivery, or the buffer is due. -/
def Waits (cfg : AlertConfig) (now : ℚ) (a : AlertAgent) : Prop :=
  (∃ q ∈ a.criticalQueue, a.db.Pending q.id) ∨ (a.BufferDue cfg now ∧ 0 < cfg.batchSize)

theorem Stocked.drainClosed_starts_iff (h : a.Stocked) :
    (a.drainClosed cfg clk).2.isSome ↔ a.Waits cfg clk.ready := by
  unfold drainClosed Waits
  by_cases hqueue : ∃ q ∈ a.criticalQueue, a.db.Pending q.id
  · cases hpop : popCritical a.criticalQueue a.db with
    | mk first rest =>
      cases first with
      | some q => simp [hqueue]
      | none =>
        obtain ⟨q, hq, hp⟩ := hqueue
        exact absurd hp (popCritical_none.mp (by rw [hpop]) q hq)
  · have hnone : ∀ q ∈ a.criticalQueue, ¬ a.db.Pending q.id := fun q hq hp => hqueue ⟨q, hq, hp⟩
    have hstocked : Stocked { a with criticalQueue := [] } := ⟨nofun, h.buffer, h.distinct⟩
    rw [popCritical_of_none hnone]
    simp only [hqueue, false_or]
    by_cases hdue : a.BufferDue cfg clk.ready
    · have hdue' : BufferDue cfg clk.ready { a with criticalQueue := [] } := hdue
      rw [if_pos hdue', hstocked.flush_starts_iff hdue.1]
      simp [hdue]
    · have hdue' : ¬ BufferDue cfg clk.ready { a with criticalQueue := [] } := hdue
      rw [if_neg hdue']
      simp [hdue]

theorem halfOpenTest_starts_iff : a.halfOpenTest.2.isSome ↔ ∃ id, a.db.Has id .critical .pending := by
  rw [← oldestPendingCritical_isSome]
  unfold halfOpenTest
  cases hrow : a.db.oldestPendingCritical with
  | none => simp
  | some r =>
    have hp : a.db.Pending r.id := pending_iff.mpr ⟨_, has_of_oldestPendingCritical hrow⟩
    simp [optimisticSending_pending hp]

end Drains

end AlertAgent

end MikoV2.Alerting
