import MikoV2.Alerting.Drain

/-!
# The agent over whole runs

The queue belongs to CRITICAL rows, the buffer to pending WARNING rows; the rows of a delivery in flight are `sending`,
and no two deliveries have one row; the breaker counts the results.

* `emit_cases`, `Stocked.emit`, `Stocked.settle` : what the calls between two drains do and keep;
* `Coherent` : the invariant; `Coherent.step`, `coherent_run` : every step keeps it;
* `started` : the delivery that a step starts; `started_drainLoop`, `started_sendDirect`, `started_finish`.
-/

namespace MikoV2.Alerting
open Circuit AlertAgent AlertDb

namespace AlertAgent

/-! ## Emitting -/

theorem bump_ids {id count : ℕ} {bs bs' : List Buffered} (h : bump id bs = some (count, bs')) :
    bs'.map Buffered.id = bs.map Buffered.id := by
  induction bs generalizing count bs' with
  | nil => cases h
  | cons b bs ih =>
    simp only [bump] at h
    split at h
    · cases h
      rfl
    · obtain ⟨r, hr, hrest⟩ := Option.map_eq_some_iff.mp h
      cases hrest
      rw [List.map_cons, List.map_cons, ih hr]

/-- What an emit does to the table: it adds a row, which an INFO is done with at once. -/
structure Emitted (a a' : AlertAgent) : Prop where
  kept : ∀ id severity status, a.db.Has id severity status → a'.db.Has id severity status
  breaker : a'.breaker = a.breaker
  stopped : a'.stopped = a.stopped

section Emits
variable {cfg : AlertConfig} {eventType : String} {p : AlertPayload} {clk : EmitClock} {a a' : AlertAgent}

theorem tryDedupMerge_some (h : a.tryDedupMerge cfg eventType p clk = some a') :
    a'.db = a.db ∧ a'.criticalQueue = a.criticalQueue ∧
      a'.warningBuffer.map Buffered.id = a.warningBuffer.map Buffered.id ∧ a'.breaker = a.breaker ∧
        a'.stopped = a.stopped := by
  unfold tryDedupMerge at h
  split at h
  · cases h
  split at h
  · cases h
  split at h
  · cases h
  · rename_i hbump
    cases h
    exact ⟨rfl, rfl, bump_ids hbump, rfl, rfl⟩

/-- The four ways of an emit. -/
theorem emit_cases (cfg : AlertConfig) (eventType : String) (p : AlertPayload) (clk : EmitClock) (a : AlertAgent) :
    ∃ e, e.severity = getSeverity eventType p.reason ∧
      ((e.severity = .info ∧ a.emit cfg eventType p clk = a.emitInfo e) ∨
        (e.severity = .critical ∧ a.emit cfg eventType p clk = a.emitCritical e) ∨
        (e.severity = .warning ∧ a.tryDedupMerge cfg eventType p clk = some (a.emit cfg eventType p clk)) ∨
        (e.severity = .warning ∧ a.emit cfg eventType p clk = a.emitWarning e clk)) := by
  refine ⟨toEvent eventType (getSeverity eventType p.reason) p clk.nowMs, rfl, ?_⟩
  unfold emit
  cases hsev : getSeverity eventType p.reason with
  | info => exact .inl ⟨rfl, rfl⟩
  | critical => exact .inr (.inl ⟨rfl, rfl⟩)
  | warning =>
    cases hmerge : a.tryDedupMerge cfg eventType p clk with
    | some merged => exact .inr (.inr (.inl ⟨rfl, rfl⟩))
    | none => exact .inr (.inr (.inr ⟨rfl, rfl⟩))

theorem emit_emitted : a.Emitted (a.emit cfg eventType p clk) := by
  obtain ⟨e, -, ⟨-, hemit⟩ | ⟨-, hemit⟩ | ⟨-, hmerge⟩ | ⟨-, hemit⟩⟩ := emit_cases cfg eventType p clk a
  · rw [hemit]
    refine ⟨fun id severity status h => ?_, rfl, rfl⟩
    exact has_updateStatus.mpr (.inl ⟨h.lt.ne, has_insertEvent.mpr (.inl h)⟩)
  · rw [hemit]
    exact ⟨fun id severity status h => has_insertEvent.mpr (.inl h), rfl, rfl⟩
  · obtain ⟨hdb, -, -, hbreaker, hstopped⟩ := tryDedupMerge_some hmerge
    refine ⟨fun id severity status h => ?_, hbreaker, hstopped⟩
    rwa [hdb]
  · rw [hemit]
    exact ⟨fun id severity status h => has_insertEvent.mpr (.inl h), rfl, rfl⟩

theorem Stocked.emit (h : a.Stocked) : (a.emit cfg eventType p clk).Stocked := by
  have hkept : ∀ id severity status, a.db.Has id severity status →
      (a.emit cfg eventType p clk).db.Has id severity status := emit_emitted.kept
  have hqueue : ∀ q ∈ a.criticalQueue, ∃ status, (a.emit cfg eventType p clk).db.Has q.id .critical status :=
    fun q hq => (h.queue q hq).imp fun status => hkept q.id .critical status
  have hbuffer : ∀ id ∈ a.warningBuffer.map Buffered.id, (a.emit cfg eventType p clk).db.Has id .warning .pending :=
    fun id hid => hkept id .warning .pending (h.buffer id hid)
  obtain ⟨e, -, ⟨-, hemit⟩ | ⟨hsev, hemit⟩ | ⟨-, hmerge⟩ | ⟨hsev, hemit⟩⟩ := emit_cases cfg eventType p clk a
  · rw [hemit] at hqueue hbuffer ⊢
    exact ⟨hqueue, hbuffer, h.distinct⟩
  · rw [hemit] at hqueue hbuffer ⊢
    refine ⟨fun q hq => ?_, hbuffer, h.distinct⟩
    rcases List.mem_append.mp hq with hold | hlast
    · exact hqueue q hold
    · rw [List.mem_singleton.mp hlast]
      exact ⟨.pending, has_insertEvent.mpr (.inr ⟨rfl, hsev.symm, rfl⟩)⟩
  · obtain ⟨-, hsame, hids, -, -⟩ := tryDedupMerge_some hmerge
    refine ⟨by rwa [hsame], by rwa [hids], ?_⟩
    rw [hids]
    exact h.distinct
  · rw [hemit] at hqueue hbuffer ⊢
    have hids : (a.emitWarning e clk).warningBuffer.map Buffered.id =
        a.warningBuffer.map Buffered.id ++ [a.db.nextId] := by
      simp [emitWarning]
    refine ⟨hqueue, fun id hid => ?_, ?_⟩
    · rw [hids] at hid
      rcases List.mem_append.mp hid with hold | hlast
      · exact hbuffer id hold
      · exact has_insertEvent.mpr (.inr ⟨List.mem_singleton.mp hlast, hsev.symm, rfl⟩)
    · rw [hids, List.nodup_append]
      refine ⟨h.distinct, List.nodup_singleton _, fun id hid u hu => ?_⟩
      rw [List.mem_singleton.mp hu]
      exact (h.buffer id hid).lt.ne

end Emits

/-! ## The end of a delivery -/

section Settles
variable {cfg : AlertConfig} {now : ℚ} {ids : List ℕ} {a : AlertAgent} {result : AttemptEnd}

theorem has_settle {id : ℕ} {severity : Severity} {status : DeliveryStatus} (hid : id ∉ ids) :
    (a.settle cfg now ids result).db.Has id severity status ↔ a.db.Has id severity status := by
  cases result with
  | sent =>
    show (updateAll .delivered 0 none ids a.db).Has id severity status ↔ _
    simp [has_updateAll, hid]
  | failed error =>
    show (updateAll .failed cfg.retryMax error ids a.db).Has id severity status ↔ _
    simp [has_updateAll, hid]
  | raised => exact Iff.rfl

/-- A delivery keeps the severity of its rows. -/
theorem has_settle_severity {id : ℕ} {severity : Severity} {status : DeliveryStatus} (h : a.db.Has id severity status) :
    ∃ status', (a.settle cfg now ids result).db.Has id severity status' := by
  by_cases hid : id ∈ ids
  · cases result with
    | sent => exact ⟨.delivered, has_updateAll.mpr (.inr ⟨hid, rfl, status, h⟩)⟩
    | failed error => exact ⟨.failed, has_updateAll.mpr (.inr ⟨hid, rfl, status, h⟩)⟩
    | raised => exact ⟨status, h⟩
  · exact ⟨status, (has_settle hid).mpr h⟩

theorem settle_criticalQueue : (a.settle cfg now ids result).criticalQueue = a.criticalQueue := by
  cases result <;> rfl

theorem settle_warningBuffer : (a.settle cfg now ids result).warningBuffer = a.warningBuffer := by
  cases result <;> rfl

theorem settle_batchStartMono : (a.settle cfg now ids result).batchStartMono = a.batchStartMono := by
  cases result <;> rfl

/-- The rows of a delivery are not pending, before and after its end. -/
theorem settle_pending (hsending : ∀ id ∈ ids, ∃ severity, a.db.Has id severity .sending) (id : ℕ) :
    (a.settle cfg now ids result).db.Pending id ↔ a.db.Pending id := by
  by_cases hid : id ∈ ids
  · obtain ⟨severity, hhas⟩ := hsending id hid
    have hbefore : ¬ a.db.Pending id := hhas.not_pending nofun
    have hafter : ¬ (a.settle cfg now ids result).db.Pending id := by
      cases result with
      | sent => exact (has_updateAll.mpr (.inr ⟨hid, rfl, _, hhas⟩) : (updateAll .delivered 0 none ids a.db).Has
          id severity .delivered).not_pending nofun
      | failed error => exact (has_updateAll.mpr (.inr ⟨hid, rfl, _, hhas⟩) : (updateAll .failed cfg.retryMax error ids
          a.db).Has id severity .failed).not_pending nofun
      | raised => exact hbefore
    simp [hbefore, hafter]
  · simp only [pending_iff, has_settle hid]

theorem Stocked.settle (h : a.Stocked) (hsending : ∀ id ∈ ids, ∃ severity, a.db.Has id severity .sending) :
    (a.settle cfg now ids result).Stocked := by
  refine ⟨fun q hq => ?_, fun id hid => ?_, ?_⟩
  · rw [settle_criticalQueue] at hq
    obtain ⟨status, hhas⟩ := h.queue q hq
    exact has_settle_severity hhas
  · rw [settle_warningBuffer] at hid
    have hhas := h.buffer id hid
    have hnot : id ∉ ids := by
      intro hmem
      obtain ⟨severity, hsend⟩ := hsending id hmem
      exact absurd (hsend.unique hhas).2 nofun
    exact (has_settle hnot).mpr hhas
  · rw [settle_warningBuffer]
    exact h.distinct

theorem settle_breaker : (a.settle cfg now ids result).breaker = match result with
    | .sent => a.breaker.succeed
    | .failed _ => a.breaker.fail cfg.breakerFailThreshold (now + cfg.breakerOpenS)
    | .raised => a.breaker := by
  cases result <;> rfl

end Settles

/-- What a drain keeps of the agent's knowledge. -/
theorem Stocked.drained {a : AlertAgent} {r : AlertAgent × Option Job} (h : a.Stocked) (hr : Drained a r) :
    r.1.Stocked := by
  refine ⟨fun q hq => ?_, fun id hid => ?_, h.distinct.sublist hr.buffer⟩
  · obtain ⟨status, hhas⟩ := h.queue q (hr.queue hq)
    by_cases hid : q.id ∈ jobIds r.2
    · obtain ⟨severity, hp⟩ := pending_iff.mp (hr.claimed.pending q.id hid)
      have hsame := hp.unique hhas
      rw [hsame.1] at hp
      exact ⟨.sending, hr.claimed.sending q.id hid _ hp⟩
    · exact ⟨status, (hr.claimed.other q.id hid _ _).mpr hhas⟩
  · exact (hr.claimed.other id (hr.free id hid) _ _).mpr (h.buffer id (hr.buffer.subset hid))

end AlertAgent

/-! ## The world -/

namespace AlertWorld

structure Coherent (cfg : AlertConfig) (w : AlertWorld) : Prop where
  stocked : w.agent.Stocked
  sending : ∀ i d, w.deliveries i = some d → ∀ id ∈ d.job.ids, ∃ severity, w.agent.db.Has id severity .sending
  apart : ∀ i j d d', w.deliveries i = some d → w.deliveries j = some d' → i ≠ j → ∀ id ∈ d.job.ids, id ∉ d'.job.ids
  fresh : ∀ i d, w.deliveries i = some d → i < w.nextDelivery
  settled : w.agent.breaker.Settled cfg.breakerFailThreshold
  follows : w.agent.breaker.Follows w.results

section Steps
variable {cfg : AlertConfig} {w : AlertWorld} {owner : Owner} {time : ℚ}

theorem coherent_start (cfg : AlertConfig) (nowMs : ℤ) (db : AlertDb) : (start cfg nowMs db).Coherent cfg where
  stocked := ⟨nofun, nofun, List.nodup_nil⟩
  sending := nofun
  apart _ _ _ _ hd := absurd hd.symm (Option.some_ne_none _)
  fresh := nofun
  settled h := absurd rfl h
  follows := rfl

theorem Coherent.nextDelivery (h : w.Coherent cfg) : w.deliveries w.nextDelivery = none := by
  cases hd : w.deliveries w.nextDelivery with
  | none => rfl
  | some d => exact absurd (h.fresh _ d hd) (Nat.lt_irrefl _)

/-- A drain sets the agent. -/
theorem suspend_agent (a : AlertAgent) (r : AlertAgent × Option Job) :
    { w with agent := a }.suspend owner time r = w.suspend owner time r := by
  obtain ⟨a', job⟩ := r
  cases job <;> rfl

theorem Coherent.emit (h : w.Coherent cfg) (eventType : String) (p : AlertPayload) (clk : EmitClock) :
    Coherent cfg { w with agent := w.agent.emit cfg eventType p clk } := by
  have hemit : w.agent.Emitted (w.agent.emit cfg eventType p clk) := emit_emitted
  refine ⟨h.stocked.emit, fun i d hd id hid => ?_, h.apart, h.fresh, ?_, ?_⟩
  · exact (h.sending i d hd id hid).imp fun severity => hemit.kept id severity .sending
  · show (w.agent.emit cfg eventType p clk).breaker.Settled _
    rw [hemit.breaker]
    exact h.settled
  · show (w.agent.emit cfg eventType p clk).breaker.Follows _
    rw [hemit.breaker]
    exact h.follows

/-- The rows of the deliveries in flight stay `sending` when a drain claims others. -/
theorem Coherent.sending_drained (h : w.Coherent cfg) {r : AlertAgent × Option Job} (hr : Drained w.agent r) {i : ℕ}
    {d : Delivery} (hd : w.deliveries i = some d) {id : ℕ} (hid : id ∈ d.job.ids) :
    id ∉ jobIds r.2 ∧ ∃ severity, r.1.db.Has id severity .sending := by
  obtain ⟨severity, hhas⟩ := h.sending i d hd id hid
  have hnot : id ∉ jobIds r.2 := fun hmem => hhas.not_pending nofun (hr.claimed.pending id hmem)
  exact ⟨hnot, severity, (hr.claimed.other id hnot _ _).mpr hhas⟩

theorem Coherent.suspend (h : w.Coherent cfg) {r : AlertAgent × Option Job} (hr : Drained w.agent r) (now : ℚ)
    (hb : r.1.breaker = w.agent.breaker ∨ r.1.breaker = w.agent.breaker.poll now) :
    (w.suspend owner time r).Coherent cfg := by
  have hstocked := h.stocked.drained hr
  have hsettled : r.1.breaker.Settled cfg.breakerFailThreshold := by
    rcases hb with hsame | hpoll
    · rw [hsame]
      exact h.settled
    · rw [hpoll]
      exact h.settled.poll
  have hfollows : r.1.breaker.Follows w.results := by
    rcases hb with hsame | hpoll
    · rw [hsame]
      exact h.follows
    · rw [hpoll]
      exact h.follows.poll
  have hsending : ∀ i d, w.deliveries i = some d → ∀ id ∈ d.job.ids,
      id ∉ jobIds r.2 ∧ ∃ severity, r.1.db.Has id severity .sending :=
    fun i d hd id hid => h.sending_drained hr hd hid
  obtain ⟨a, job⟩ := r
  cases job with
  | none => exact ⟨hstocked, fun i d hd id hid => (hsending i d hd id hid).2, h.apart, h.fresh, hsettled, hfollows⟩
  | some job =>
    have hne : ∀ {i d}, w.deliveries i = some d → i ≠ w.nextDelivery := fun hd => (h.fresh _ _ hd).ne
    refine ⟨hstocked, fun i d hd id hid => ?_, fun i j d d' hd hd' hij id hid => ?_, fun i d hd => ?_, hsettled, hfollows⟩
    · by_cases hi : i = w.nextDelivery
      · simp only [AlertWorld.suspend, hi, Function.update_self, Option.some.injEq] at hd
        subst hd
        obtain ⟨severity, hp⟩ := pending_iff.mp (hr.claimed.pending id hid)
        exact ⟨severity, hr.claimed.sending id hid severity hp⟩
      · simp only [AlertWorld.suspend, Function.update_of_ne hi] at hd
        exact (hsending i d hd id hid).2
    · simp only [AlertWorld.suspend] at hd hd'
      by_cases hi : i = w.nextDelivery
      · have hj : j ≠ w.nextDelivery := fun hj => hij (hi.trans hj.symm)
        rw [hi, Function.update_self] at hd
        rw [Function.update_of_ne hj] at hd'
        cases hd
        exact fun hid' => (hsending j d' hd' id hid').1 hid
      · rw [Function.update_of_ne hi] at hd
        by_cases hj : j = w.nextDelivery
        · rw [hj, Function.update_self] at hd'
          cases hd'
          exact (hsending i d hd id hid).1
        · rw [Function.update_of_ne hj] at hd'
          exact h.apart i j d d' hd hd' hij id hid
    · show i < w.nextDelivery + 1
      by_cases hi : i = w.nextDelivery
      · omega
      · simp only [AlertWorld.suspend, Function.update_of_ne hi] at hd
        have := h.fresh i d hd
        omega

/-- The agent once the delivery `d` has ended. -/
def ended (cfg : AlertConfig) (w : AlertWorld) (i : ℕ) (d : Delivery) (result : AttemptEnd) (fail : ℚ) : AlertWorld :=
  { w.note d result with
    agent := w.agent.settle cfg fail d.job.ids result, deliveries := Function.update w.deliveries i none }

theorem finish_eq {i : ℕ} {d : Delivery} (hd : w.deliveries i = some d) (answers : ℕ → RoundAnswers) (fail : ℚ)
    (clk : DrainClock) :
    w.finish cfg i answers fail clk = (w.ended cfg i d (w.outcome cfg d answers) fail).suspend d.owner clk.start
      ((w.ended cfg i d (w.outcome cfg d answers) fail).agent.goOn cfg clk d.job.kind (w.outcome cfg d answers)) := by
  unfold finish
  rw [hd]
  exact (suspend_agent _ _).symm

theorem Coherent.ended (h : w.Coherent cfg) {i : ℕ} {d : Delivery} (hd : w.deliveries i = some d) (result : AttemptEnd)
    (fail : ℚ) : (w.ended cfg i d result fail).Coherent cfg := by
  have hsending := h.sending i d hd
  have hothers : ∀ {j d'}, Function.update w.deliveries i none j = some d' → j ≠ i ∧ w.deliveries j = some d' := by
    intro j d' hd'
    by_cases hj : j = i
    · simp [hj] at hd'
    · exact ⟨hj, by rwa [Function.update_of_ne hj] at hd'⟩
  refine ⟨h.stocked.settle hsending, fun j d' hd' id hid => ?_, fun j k d' d'' hd' hd'' => ?_, fun j d' hd' => ?_, ?_, ?_⟩
  · obtain ⟨hj, hold⟩ := hothers hd'
    have hnot : id ∉ d.job.ids := h.apart j i d' d hold hd hj id hid
    exact (h.sending j d' hold id hid).imp fun severity hhas => (has_settle hnot).mpr hhas
  · exact h.apart j k d' d'' (hothers hd').2 (hothers hd'').2
  · have hlt := h.fresh j d' (hothers hd').2
    cases result <;> exact hlt
  · cases result with
    | sent => exact Breaker.settled_succeed
    | failed error => exact h.settled.fail
    | raised => exact h.settled
  · cases result with
    | sent => exact Breaker.Follows.succeed
    | failed error => exact h.follows.fail
    | raised => exact h.follows

theorem Coherent.step (h : w.Coherent cfg) (e : AlertCall) : (step cfg w e).Coherent cfg := by
  cases e with
  | emit eventType p clk => exact h.emit eventType p clk
  | drainLoop clk =>
    simp only [AlertWorld.step]
    split
    · exact h
    · exact h.suspend h.stocked.drainOnce_drained _ drainOnce_breaker
  | sendDirect eventType p emitClk clk =>
    have hemit := h.emit eventType p emitClk
    simp only [AlertWorld.step]
    rw [← suspend_agent (w.agent.emit cfg eventType p emitClk)]
    exact hemit.suspend hemit.stocked.drainOnce_drained _ drainOnce_breaker
  | finish i answers fail clk =>
    simp only [AlertWorld.step]
    cases hd : w.deliveries i with
    | none =>
      have hstay : w.finish cfg i answers fail clk = w := by simp only [finish, hd]
      rw [hstay]
      exact h
    | some d =>
      rw [finish_eq hd]
      have hended := h.ended hd (w.outcome cfg d answers) fail
      exact hended.suspend (hended.stocked.goOn_drained _ _) 0 (.inl (goOn_breaker _ _))
  | stop =>
    exact ⟨⟨h.stocked.queue, h.stocked.buffer, h.stocked.distinct⟩, h.sending, h.apart, h.fresh, h.settled, h.follows⟩

theorem coherent_run (cfg : AlertConfig) (nowMs : ℤ) (db : AlertDb) (es : List AlertCall) :
    (Runs.run (AlertWorld.step cfg) (start cfg nowMs db) es).Coherent cfg :=
  Runs.invariant (coherent_start cfg nowMs db) (fun _ e h => h.step e) es

/-! ## The deliveries that start -/

/-- The delivery that a step starts. -/
def started (cfg : AlertConfig) (w : AlertWorld) (e : AlertCall) : Option Delivery :=
  (AlertWorld.step cfg w e).deliveries w.nextDelivery

/-- The delivery that a drain starts. -/
def toDelivery (owner : Owner) (time : ℚ) (r : AlertAgent × Option Job) : Option Delivery :=
  r.2.map fun job => ⟨owner, job, r.1.breaker.mode, time⟩

theorem suspend_deliveries (hfree : w.deliveries w.nextDelivery = none) (r : AlertAgent × Option Job) :
    (w.suspend owner time r).deliveries w.nextDelivery = toDelivery owner time r := by
  obtain ⟨a, job⟩ := r
  cases job with
  | none => exact hfree
  | some job => exact Function.update_self _ _ _

theorem started_emit (eventType : String) (p : AlertPayload) (clk : EmitClock) (h : w.Coherent cfg) :
    w.started cfg (.emit eventType p clk) = none := h.nextDelivery

theorem started_stop (h : w.Coherent cfg) : w.started cfg .stop = none := h.nextDelivery

theorem started_drainLoop (h : w.Coherent cfg) (clk : DrainClock) :
    w.started cfg (.drainLoop clk) =
      if w.agent.stopped ∨ w.loopBusy then none else toDelivery .loop clk.start (w.agent.drainOnce cfg clk) := by
  unfold started
  simp only [AlertWorld.step]
  split
  · exact h.nextDelivery
  · exact suspend_deliveries h.nextDelivery _

theorem started_sendDirect (h : w.Coherent cfg) (eventType : String) (p : AlertPayload) (emitClk : EmitClock)
    (clk : DrainClock) :
    w.started cfg (.sendDirect eventType p emitClk clk) =
      toDelivery .direct clk.start ((w.agent.emit cfg eventType p emitClk).drainOnce cfg clk) :=
  suspend_deliveries h.nextDelivery _

theorem started_finish_none (h : w.Coherent cfg) {i : ℕ} (hd : w.deliveries i = none) (answers : ℕ → RoundAnswers)
    (fail : ℚ) (clk : DrainClock) : w.started cfg (.finish i answers fail clk) = none := by
  have hstay : w.finish cfg i answers fail clk = w := by simp only [finish, hd]
  show (w.finish cfg i answers fail clk).deliveries w.nextDelivery = none
  rw [hstay]
  exact h.nextDelivery

theorem started_finish (h : w.Coherent cfg) {i : ℕ} {d : Delivery} (hd : w.deliveries i = some d)
    (answers : ℕ → RoundAnswers) (fail : ℚ) (clk : DrainClock) :
    w.started cfg (.finish i answers fail clk) = toDelivery d.owner clk.start
      ((w.agent.settle cfg fail d.job.ids (w.outcome cfg d answers)).goOn cfg clk d.job.kind (w.outcome cfg d answers)) := by
  show (w.finish cfg i answers fail clk).deliveries w.nextDelivery = _
  rw [finish_eq hd]
  have hnext : (w.ended cfg i d (w.outcome cfg d answers) fail).nextDelivery = w.nextDelivery := by
    cases w.outcome cfg d answers <;> rfl
  have hended := h.ended hd (w.outcome cfg d answers) fail
  rw [← hnext]
  exact suspend_deliveries hended.nextDelivery _

end Steps

end AlertWorld

end MikoV2.Alerting
