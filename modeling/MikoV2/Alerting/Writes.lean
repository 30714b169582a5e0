import MikoV2.Alerting.Coherent

/-!
# The writes of a run

A run, as the writes that it makes to the table, one by one: each finds its row in the status that it expects.

* `Write`, `Write.apply` : a write, with the delivery for which it is made; `Write.Fits` : the row that it finds;
* `Moves`, `Legal` : what may become of a row; `timesLeft` : how often it leaves `pending`;
* `writes`, `history` : the writes of a step, and of a run; `history_table` : they make the table;
* `Ledger`, `ledger_run` : the invariant; `alerts_claimed_once`.
-/

namespace MikoV2.Alerting
open Circuit AlertAgent AlertDb

/-! ## One write -/

/-- A write, with the delivery for which it is made. -/
inductive Write where
  | sweep (cutoffMs : ℤ)
  | insert (e : AlertEvent)
  /-- the row of an INFO is done with -/
  | logged (id : ℕ)
  | claim (id delivery : ℕ)
  | final (id delivery : ℕ) (status : DeliveryStatus) (attemptsDelta : ℕ) (lastError : Option String)

/-- A status may move to another. -/
inductive Moves : Severity → DeliveryStatus → DeliveryStatus → Prop
  | claimed (severity : Severity) : Moves severity .pending .sending
  | expired (severity : Severity) : Moves severity .pending .expired
  | logged : Moves .info .pending .delivered
  | delivered (severity : Severity) : Moves severity .sending .delivered
  | failed (severity : Severity) : Moves severity .sending .failed

/-- From one table to the next: a row stays or moves, and a new row is pending. -/
structure Legal (db db' : AlertDb) : Prop where
  kept : ∀ id severity status, db.Has id severity status →
    ∃ status', db'.Has id severity status' ∧ (status' = status ∨ Moves severity status status')
  new : ∀ id severity status, db'.Has id severity status → (∃ old, db.Has id severity old) ∨ status = .pending

namespace Write

def apply (db : AlertDb) : Write → AlertDb
  | .sweep cutoffMs => db.expiredSweep cutoffMs
  | .insert e => db.insertEvent e
  | .logged id => db.updateStatus id .delivered 0 none
  | .claim id _ => db.updateStatus id .sending 0 none
  | .final id _ status attemptsDelta lastError => db.updateStatus id status attemptsDelta lastError

/-- The write finds its row as it expects it. -/
def Fits (db : AlertDb) : Write → Prop
  | .sweep _ => True
  | .insert _ => True
  | .logged id => db.Has id .info .pending
  | .claim id _ => ∃ severity, db.Has id severity .pending
  | .final id _ status _ _ => (∃ severity, db.Has id severity .sending) ∧ (status = .delivered ∨ status = .failed)

/-- The write claims the row. -/
def claims (id : ℕ) : Write → Bool
  | .claim u _ => u = id
  | _ => false

end Write

/-- How often the row leaves `pending`. -/
def timesLeft (id : ℕ) : AlertDb → List Write → ℕ
  | _, [] => 0
  | db, write :: writes =>
    (if db.Pending id ∧ ¬ (write.apply db).Pending id then 1 else 0) + timesLeft id (write.apply db) writes

section Writes
variable {db db' : AlertDb} {id n : ℕ} {ids : List ℕ} {write : Write} {writes : List Write}

/-- A status that the row of the id moves to. -/
theorem legal_updateStatus {severity : Severity} {old status : DeliveryStatus} {attemptsDelta : ℕ}
    {lastError : Option String} (hrow : db.Has id severity old) (hmove : Moves severity old status) :
    Legal db (db.updateStatus id status attemptsDelta lastError) := by
  refine ⟨fun u severity' status' hu => ?_, fun u severity' status' hu => ?_⟩
  · by_cases hid : u = id
    · subst hid
      obtain ⟨rfl, rfl⟩ := hrow.unique hu
      exact ⟨status, has_updateStatus.mpr (.inr ⟨rfl, rfl, old, hu⟩), .inr hmove⟩
    · exact ⟨status', (has_updateStatus_ne hid).mpr hu, .inl rfl⟩
  · rcases has_updateStatus.mp hu with ⟨-, hold⟩ | ⟨-, -, hold⟩
    · exact .inl ⟨status', hold⟩
    · exact .inl hold

theorem legal_expiredSweep (cutoffMs : ℤ) : Legal db (db.expiredSweep cutoffMs) := by
  refine ⟨fun id severity status h => ?_, fun id severity status h => ?_⟩
  · obtain ⟨r, hr, hid, hsev, rfl⟩ := h
    by_cases hold : r.status = .pending ∧ r.tsMs < cutoffMs
    · refine ⟨.expired, ⟨{ r with status := .expired }, List.mem_map.mpr ⟨r, hr, if_pos hold⟩, hid, hsev, rfl⟩, .inr ?_⟩
      rw [hold.1]
      exact Moves.expired severity
    · exact ⟨r.status, ⟨r, List.mem_map.mpr ⟨r, hr, if_neg hold⟩, hid, hsev, rfl⟩, .inl rfl⟩
  · obtain ⟨r', hr', hid, hsev, -⟩ := h
    obtain ⟨r, hr, rfl⟩ := List.mem_map.mp hr'
    refine .inl ⟨r.status, r, hr, ?_, ?_, rfl⟩
    · rw [← hid]
      split <;> rfl
    · rw [← hsev]
      split <;> rfl

theorem legal_insertEvent (e : AlertEvent) : Legal db (db.insertEvent e) := by
  refine ⟨fun id severity status h => ⟨status, has_insertEvent.mpr (.inl h), .inl rfl⟩, fun id severity status h => ?_⟩
  rcases has_insertEvent.mp h with hold | ⟨-, -, hstatus⟩
  · exact .inl ⟨status, hold⟩
  · exact .inr hstatus

theorem Write.Fits.legal (h : write.Fits db) : Legal db (write.apply db) := by
  cases write with
  | sweep cutoffMs => exact legal_expiredSweep cutoffMs
  | insert e => exact legal_insertEvent e
  | logged id => exact legal_updateStatus h Moves.logged
  | claim id delivery =>
    obtain ⟨severity, hp⟩ := h
    exact legal_updateStatus hp (Moves.claimed severity)
  | final id delivery status attemptsDelta lastError =>
    obtain ⟨⟨severity, hs⟩, rfl | rfl⟩ := h
    · exact legal_updateStatus hs (Moves.delivered severity)
    · exact legal_updateStatus hs (Moves.failed severity)

/-! ## Many writes -/

/-- `pending` is not entered from another status. -/
theorem Legal.not_pending {severity : Severity} {status : DeliveryStatus} (h : Legal db db')
    (hrow : db.Has id severity status) (hne : status ≠ .pending) :
    ∃ status', db'.Has id severity status' ∧ status' ≠ .pending := by
  obtain ⟨status', hrow', rfl | hmove⟩ := h.kept id severity status hrow
  · exact ⟨_, hrow', hne⟩
  · refine ⟨status', hrow', ?_⟩
    rintro rfl
    cases hmove

/-- A row that is not pending does not leave `pending` any more. -/
theorem timesLeft_of_not_pending {severity : Severity} {status : DeliveryStatus}
    (h : Runs.Guarded Write.Fits Write.apply db writes) (hrow : db.Has id severity status) (hne : status ≠ .pending) :
    timesLeft id db writes = 0 := by
  induction writes generalizing db status with
  | nil => rfl
  | cons write writes ih =>
    obtain ⟨hfits, hrest⟩ := Runs.guarded_cons.mp h
    obtain ⟨status', hrow', hne'⟩ := hfits.legal.not_pending hrow hne
    simp only [timesLeft, ih hrest hrow' hne', hrow.not_pending hne, false_and, if_false]

theorem timesLeft_le_one (h : Runs.Guarded Write.Fits Write.apply db writes) : timesLeft id db writes ≤ 1 := by
  induction writes generalizing db with
  | nil => simp [timesLeft]
  | cons write writes ih =>
    obtain ⟨hfits, hrest⟩ := Runs.guarded_cons.mp h
    simp only [timesLeft]
    split
    · rename_i hleaves
      obtain ⟨severity, hp⟩ := pending_iff.mp hleaves.1
      obtain ⟨status', hrow', -⟩ := hfits.legal.kept id severity .pending hp
      have hne : status' ≠ .pending := by
        rintro rfl
        exact hleaves.2 (pending_iff.mpr ⟨severity, hrow'⟩)
      rw [timesLeft_of_not_pending hrest hrow' hne]
    · rw [Nat.zero_add]
      exact ih hrest

/-- Every claim takes its row out of `pending`. -/
theorem countP_claims_le (h : Runs.Guarded Write.Fits Write.apply db writes) :
    writes.countP (Write.claims id) ≤ timesLeft id db writes := by
  induction writes generalizing db with
  | nil => simp
  | cons write writes ih =>
    obtain ⟨hfits, hrest⟩ := Runs.guarded_cons.mp h
    have hle := ih hrest
    simp only [timesLeft, List.countP_cons]
    by_cases hclaims : write.claims id
    · have hleaves : db.Pending id ∧ ¬ (write.apply db).Pending id := by
        cases write with
        | claim u delivery =>
          obtain rfl : u = id := by simpa [Write.claims] using hclaims
          have hfits' : ∃ severity, db.Has u severity .pending := hfits
          obtain ⟨severity, hp⟩ := hfits'
          refine ⟨pending_iff.mpr ⟨severity, hp⟩, ?_⟩
          have hrow : ((Write.claim u delivery).apply db).Has u severity .sending :=
            has_updateStatus.mpr (.inr ⟨rfl, rfl, _, hp⟩)
          exact hrow.not_pending (by decide)
        | _ => simp [Write.claims] at hclaims
      rw [if_pos hclaims, if_pos hleaves]
      omega
    · rw [if_neg hclaims]
      omega

/-- Writes to rows that are apart, each of which it finds in the same status. -/
theorem guarded_map {f : ℕ → Write} {old status : DeliveryStatus} {attemptsDelta : ℕ} {lastError : Option String}
    (happly : ∀ db id, (f id).apply db = db.updateStatus id status attemptsDelta lastError)
    (hfits : ∀ db id, (∃ severity, db.Has id severity old) → (f id).Fits db) (hnodup : ids.Nodup)
    (hold : ∀ id ∈ ids, ∃ severity, db.Has id severity old) :
    Runs.Guarded Write.Fits Write.apply db (ids.map f) := by
  induction ids generalizing db with
  | nil => exact Runs.guarded_nil
  | cons id ids ih =>
    obtain ⟨hnot, hnodup'⟩ := List.nodup_cons.mp hnodup
    rw [List.map_cons]
    refine Runs.guarded_cons.mpr ⟨hfits db id (hold id List.mem_cons_self), ih hnodup' fun u hu => ?_⟩
    rw [happly]
    have hne : u ≠ id := by
      rintro rfl
      exact hnot hu
    exact (hold u (List.mem_cons_of_mem id hu)).imp fun severity hrow => (has_updateStatus_ne hne).mpr hrow

theorem run_map {f : ℕ → Write} {status : DeliveryStatus} {attemptsDelta : ℕ} {lastError : Option String}
    (happly : ∀ db id, (f id).apply db = db.updateStatus id status attemptsDelta lastError) :
    Runs.run Write.apply db (ids.map f) = updateAll status attemptsDelta lastError ids db := by
  rw [Runs.run_map]
  simp only [happly]
  rfl

end Writes

/-! ## The writes of a call -/

namespace AlertAgent

def emitWrites (cfg : AlertConfig) (eventType : String) (p : AlertPayload) (clk : EmitClock) (a : AlertAgent) :
    List Write :=
  let severity := getSeverity eventType p.reason
  let e := toEvent eventType severity p clk.nowMs
  match severity with
  | .info => [.insert e, .logged a.db.nextId]
  | .critical => [.insert e]
  | .warning => if (a.tryDedupMerge cfg eventType p clk).isSome then [] else [.insert e]

/-- The claims of a drain, for its delivery. -/
def claimWrites (delivery : ℕ) (r : AlertAgent × Option Job) : List Write := (jobIds r.2).map (Write.claim · delivery)

def settleWrites (cfg : AlertConfig) (delivery : ℕ) (ids : List ℕ) : AttemptEnd → List Write
  | .sent => ids.map (Write.final · delivery .delivered 0 none)
  | .failed error => ids.map (Write.final · delivery .failed cfg.retryMax error)
  | .raised => []

/-- The drain claims exactly the rows of its delivery, one after the other. -/
structure Claims (a : AlertAgent) (r : AlertAgent × Option Job) : Prop where
  nodup : (jobIds r.2).Nodup
  table : updateAll .sending 0 none (jobIds r.2) a.db = r.1.db

section Calls
variable {cfg : AlertConfig} {eventType : String} {p : AlertPayload} {emitClk : EmitClock} {clk : DrainClock}
  {a : AlertAgent} {db : AlertDb} {ids : List ℕ} {n : ℕ}

theorem emitWrites_table :
    Runs.run Write.apply a.db (a.emitWrites cfg eventType p emitClk) = (a.emit cfg eventType p emitClk).db := by
  unfold emitWrites emit
  cases getSeverity eventType p.reason with
  | info => rfl
  | critical => rfl
  | warning =>
    cases hmerge : a.tryDedupMerge cfg eventType p emitClk with
    | some merged => exact (tryDedupMerge_some hmerge).1.symm
    | none => rfl

theorem emitWrites_fits : Runs.Guarded Write.Fits Write.apply a.db (a.emitWrites cfg eventType p emitClk) := by
  have hone : ∀ e, Runs.Guarded Write.Fits Write.apply a.db [.insert e] :=
    fun e => Runs.guarded_cons.mpr ⟨trivial, Runs.guarded_nil⟩
  unfold emitWrites
  cases getSeverity eventType p.reason with
  | info =>
    refine Runs.guarded_cons.mpr ⟨trivial, Runs.guarded_cons.mpr ⟨?_, Runs.guarded_nil⟩⟩
    exact has_insertEvent.mpr (.inr ⟨rfl, rfl, rfl⟩)
  | critical => exact hone _
  | warning =>
    simp only
    split
    · exact Runs.guarded_nil
    · exact hone _

theorem claimAll_nodup : (claimAll ids db).1.Nodup := by
  induction ids generalizing db with
  | nil => exact List.nodup_nil
  | cons id ids ih =>
    by_cases hp : db.Pending id
    · simp only [claimAll, optimisticSending_pending hp]
      refine List.nodup_cons.mpr ⟨fun hid => ?_, ih⟩
      exact (claimed_optimisticSending hp).not_pending (List.mem_singleton_self id) (claimAll_claimed.pending id hid)
    · simp only [claimAll, optimisticSending_not_pending hp]
      exact ih

theorem claimAll_table : updateAll .sending 0 none (claimAll ids db).1 db = (claimAll ids db).2 := by
  induction ids generalizing db with
  | nil => rfl
  | cons id ids ih =>
    by_cases hp : db.Pending id
    · simp only [claimAll, optimisticSending_pending hp]
      exact ih
    · simp only [claimAll, optimisticSending_not_pending hp]
      exact ih

theorem popCritical_table {qs : List Queued} {q : Queued} (h : (popCritical qs db).1 = some q) :
    (popCritical qs db).2.2 = db.updateStatus q.id .sending 0 none := by
  induction qs with
  | nil => cases h
  | cons q' qs ih =>
    by_cases hp : db.Pending q'.id
    · simp only [popCritical, optimisticSending_pending hp, Option.some.injEq] at h ⊢
      rw [h]
    · simp only [popCritical, optimisticSending_not_pending hp] at h ⊢
      exact ih h

theorem claims_nothing {a' : AlertAgent} (hdb : a'.db = a.db) : Claims a (a', none) := ⟨List.nodup_nil, hdb.symm⟩

theorem flush_claims : Claims a (a.flushWarningBatch cfg clk) := by
  have hjob : jobIds (a.flushWarningBatch cfg clk).2 =
      (claimAll ((a.warningBuffer.take cfg.batchSize).map Buffered.id) a.db).1 := by
    simp only [flushWarningBatch]
    split
    · rename_i hnil
      exact hnil.symm
    · rfl
  constructor
  · rw [hjob]
    exact claimAll_nodup
  · rw [hjob]
    exact claimAll_table

theorem drainClosed_claims : Claims a (a.drainClosed cfg clk) := by
  unfold drainClosed
  cases hpop : popCritical a.criticalQueue a.db with
  | mk first rest =>
    cases first with
    | some q =>
      refine ⟨List.nodup_singleton q.id, ?_⟩
      have htable : (popCritical a.criticalQueue a.db).2.2 = a.db.updateStatus q.id .sending 0 none :=
        popCritical_table (by rw [hpop])
      rw [hpop] at htable
      exact htable.symm
    | none =>
      have hnone := popCritical_none.mp (by rw [hpop])
      rw [popCritical_of_none hnone] at hpop
      cases hpop
      simp only
      split
      · have hflush : Claims { a with criticalQueue := [] } (flushWarningBatch cfg clk { a with criticalQueue := [] }) :=
          flush_claims
        exact ⟨hflush.nodup, hflush.table⟩
      · exact claims_nothing rfl

theorem halfOpenTest_claims : Claims a a.halfOpenTest := by
  unfold halfOpenTest
  cases hrow : a.db.oldestPendingCritical with
  | none => exact claims_nothing rfl
  | some r =>
    have hp : a.db.Pending r.id := pending_iff.mpr ⟨_, has_of_oldestPendingCritical hrow⟩
    simp only [optimisticSending_pending hp]
    exact ⟨List.nodup_singleton r.id, rfl⟩

theorem drainOnce_claims : Claims a (a.drainOnce cfg clk) := by
  by_cases hholds : a.breaker.Holds clk.breaker
  · rw [drainOnce_of_holds hholds]
    exact claims_nothing rfl
  · rw [drainOnce_of_not_holds hholds]
    split
    · obtain ⟨hnodup, htable⟩ : Claims (a.polled clk) (a.polled clk).halfOpenTest := halfOpenTest_claims
      exact ⟨hnodup, by rwa [polled_db] at htable⟩
    · obtain ⟨hnodup, htable⟩ : Claims (a.polled clk) ((a.polled clk).drainClosed cfg clk) := drainClosed_claims
      exact ⟨hnodup, by rwa [polled_db] at htable⟩

theorem goOn_claims (kind : JobKind) (result : AttemptEnd) : Claims a (a.goOn cfg clk kind result) := by
  cases kind with
  | critical =>
    simp only [goOn]
    split
    · exact claims_nothing rfl
    · exact drainClosed_claims
  | batch => exact claims_nothing rfl
  | probe => exact claims_nothing rfl

variable {r : AlertAgent × Option Job}

theorem Claims.writes_table (h : Claims a r) : Runs.run Write.apply a.db (claimWrites n r) = r.1.db := by
  rw [← h.table]
  exact run_map fun _ _ => rfl

theorem Claims.writes_fit (h : Claims a r) (hr : Drained a r) :
    Runs.Guarded Write.Fits Write.apply a.db (claimWrites n r) :=
  guarded_map (fun _ _ => rfl) (fun _ _ hrow => hrow) h.nodup fun id hid => pending_iff.mp (hr.claimed.pending id hid)

theorem settleWrites_table (now : ℚ) (result : AttemptEnd) :
    Runs.run Write.apply a.db (settleWrites cfg n ids result) = (a.settle cfg now ids result).db := by
  cases result with
  | sent => exact run_map fun _ _ => rfl
  | failed error => exact run_map fun _ _ => rfl
  | raised => rfl

theorem settleWrites_fit (hnodup : ids.Nodup) (hsending : ∀ id ∈ ids, ∃ severity, db.Has id severity .sending)
    (result : AttemptEnd) : Runs.Guarded Write.Fits Write.apply db (settleWrites cfg n ids result) := by
  cases result with
  | sent => exact guarded_map (fun _ _ => rfl) (fun _ _ hrow => ⟨hrow, .inl rfl⟩) hnodup hsending
  | failed error => exact guarded_map (fun _ _ => rfl) (fun _ _ hrow => ⟨hrow, .inr rfl⟩) hnodup hsending
  | raised => exact Runs.guarded_nil

end Calls

end AlertAgent

namespace AlertWorld

/-! ## The writes of a run -/

/-- The writes of a step. -/
def writes (cfg : AlertConfig) (w : AlertWorld) : AlertCall → List Write
  | .emit eventType p clk => w.agent.emitWrites cfg eventType p clk
  | .drainLoop clk =>
    if w.agent.stopped ∨ w.loopBusy then [] else claimWrites w.nextDelivery (w.agent.drainOnce cfg clk)
  | .sendDirect eventType p emitClk clk =>
    w.agent.emitWrites cfg eventType p emitClk ++
      claimWrites w.nextDelivery ((w.agent.emit cfg eventType p emitClk).drainOnce cfg clk)
  | .finish i answers fail clk => match w.deliveries i with
    | none => []
    | some d =>
      let result := w.outcome cfg d answers
      settleWrites cfg i d.job.ids result ++
        claimWrites w.nextDelivery ((w.agent.settle cfg fail d.job.ids result).goOn cfg clk d.job.kind result)
  | .stop => []

def history (cfg : AlertConfig) : AlertWorld → List AlertCall → List Write
  | _, [] => []
  | w, e :: es => writes cfg w e ++ history cfg (step cfg w e) es

/-- The writes of a run, with that of `start()`. -/
def log (cfg : AlertConfig) (nowMs : ℤ) (db : AlertDb) (es : List AlertCall) : List Write :=
  .sweep (nowMs - cfg.pendingTtlS * 1000) :: history cfg (start cfg nowMs db) es

/-- A final write comes after the claim of its row for the same delivery. -/
def Preceded (log : List Write) : Prop :=
  ∀ pre id n status attemptsDelta lastError, pre ++ [.final id n status attemptsDelta lastError] <+: log →
    .claim id n ∈ pre

/-- What the writes so far have made. -/
structure Ledger (cfg : AlertConfig) (db : AlertDb) (log : List Write) (w : AlertWorld) : Prop where
  coherent : w.Coherent cfg
  table : Runs.run Write.apply db log = w.agent.db
  fits : Runs.Guarded Write.Fits Write.apply db log
  claimed : ∀ n d, w.deliveries n = some d → d.job.ids.Nodup ∧ ∀ id ∈ d.job.ids, .claim id n ∈ log
  preceded : Preceded log

section Steps
variable {cfg : AlertConfig} {db : AlertDb} {log log' : List Write} {w : AlertWorld} {nowMs : ℤ}

theorem history_append (w : AlertWorld) (es es' : List AlertCall) :
    history cfg w (es ++ es') = history cfg w es ++ history cfg (Runs.run (step cfg) w es) es' := by
  induction es generalizing w with
  | nil => rfl
  | cons e es ih => rw [List.cons_append, history, ih, history, List.append_assoc, Runs.run_cons]

theorem log_concat (es : List AlertCall) (e : AlertCall) :
    AlertWorld.log cfg nowMs db (es ++ [e]) =
      AlertWorld.log cfg nowMs db es ++ writes cfg (Runs.run (step cfg) (start cfg nowMs db) es) e := by
  simp [AlertWorld.log, history_append, history]

theorem Preceded.append (h : Preceded log)
    (hfinal : ∀ id n status attemptsDelta lastError, .final id n status attemptsDelta lastError ∈ log' →
      .claim id n ∈ log) :
    Preceded (log ++ log') := by
  intro pre id n status attemptsDelta lastError hpre
  rcases List.prefix_or_prefix_of_prefix hpre (List.prefix_append log log') with hshort | ⟨rest, hrest⟩
  · exact h pre id n status attemptsDelta lastError hshort
  · rcases List.eq_nil_or_concat rest with rfl | ⟨init, last, rfl⟩
    · rw [List.append_nil] at hrest
      exact h pre id n status attemptsDelta lastError (hrest ▸ List.prefix_refl _)
    · rw [List.concat_eq_append, ← List.append_assoc] at hrest
      obtain ⟨rfl, hlast⟩ := List.append_inj' hrest rfl
      have hmem : Write.final id n status attemptsDelta lastError ∈ log' := by
        rw [List.append_assoc, List.prefix_append_right_inj] at hpre
        exact hpre.subset (List.mem_append_right _ (List.mem_singleton_self _))
      exact List.mem_append_left _ (hfinal id n status attemptsDelta lastError hmem)

theorem Ledger.emit (h : Ledger cfg db log w) (eventType : String) (p : AlertPayload) (clk : EmitClock) :
    Ledger cfg db (log ++ w.agent.emitWrites cfg eventType p clk)
      { w with agent := w.agent.emit cfg eventType p clk } := by
  refine ⟨h.coherent.emit eventType p clk, ?_, ?_, fun n d hd => ?_, h.preceded.append ?_⟩
  · rw [Runs.run_append, h.table]
    exact emitWrites_table
  · refine Runs.guarded_append.mpr ⟨h.fits, ?_⟩
    rw [h.table]
    exact emitWrites_fits
  · obtain ⟨hnodup, hclaim⟩ := h.claimed n d hd
    exact ⟨hnodup, fun id hid => List.mem_append_left _ (hclaim id hid)⟩
  · intro id n status attemptsDelta lastError hmem
    unfold emitWrites at hmem
    cases hsev : getSeverity eventType p.reason <;> simp [hsev] at hmem

/-- A drain claims its rows for the next delivery. -/
theorem Ledger.suspend (h : Ledger cfg db log w) {r : AlertAgent × Option Job} (hr : Drained w.agent r)
    (hclaims : Claims w.agent r) (owner : Owner) (time now : ℚ)
    (hb : r.1.breaker = w.agent.breaker ∨ r.1.breaker = w.agent.breaker.poll now) :
    Ledger cfg db (log ++ claimWrites w.nextDelivery r) (w.suspend owner time r) := by
  have hagent : (w.suspend owner time r).agent = r.1 := by
    obtain ⟨a, job⟩ := r
    cases job <;> rfl
  refine ⟨h.coherent.suspend hr now hb, ?_, ?_, fun n d hd => ?_, h.preceded.append ?_⟩
  · rw [Runs.run_append, h.table, hagent]
    exact hclaims.writes_table
  · refine Runs.guarded_append.mpr ⟨h.fits, ?_⟩
    rw [h.table]
    exact hclaims.writes_fit hr
  · have hold : w.deliveries n = some d → d.job.ids.Nodup ∧
        ∀ id ∈ d.job.ids, Write.claim id n ∈ log ++ claimWrites w.nextDelivery r := fun hd => by
      obtain ⟨hnodup, hclaim⟩ := h.claimed n d hd
      exact ⟨hnodup, fun id hid => List.mem_append_left _ (hclaim id hid)⟩
    obtain ⟨a, job⟩ := r
    cases job with
    | none => exact hold hd
    | some job =>
      by_cases hn : n = w.nextDelivery
      · simp only [AlertWorld.suspend, hn, Function.update_self, Option.some.injEq] at hd
        subst hd
        refine ⟨hclaims.nodup, fun id hid => List.mem_append_right _ ?_⟩
        rw [hn]
        exact List.mem_map_of_mem hid
      · simp only [AlertWorld.suspend, Function.update_of_ne hn] at hd
        exact hold hd
  · intro id n status attemptsDelta lastError hmem
    obtain ⟨u, -, hu⟩ := List.mem_map.mp hmem
    cases hu

/-- A delivery writes the final status of the rows that were claimed for it. -/
theorem Ledger.ended (h : Ledger cfg db log w) {i : ℕ} {d : Delivery} (hd : w.deliveries i = some d)
    (result : AttemptEnd) (fail : ℚ) :
    Ledger cfg db (log ++ settleWrites cfg i d.job.ids result) (w.ended cfg i d result fail) := by
  obtain ⟨hnodup, hclaim⟩ := h.claimed i d hd
  refine ⟨h.coherent.ended hd result fail, ?_, ?_, fun n d' hd' => ?_, h.preceded.append ?_⟩
  · rw [Runs.run_append, h.table]
    exact settleWrites_table fail result
  · refine Runs.guarded_append.mpr ⟨h.fits, ?_⟩
    rw [h.table]
    exact settleWrites_fit hnodup (h.coherent.sending i d hd) result
  · have hold : w.deliveries n = some d' := by
      by_cases hn : n = i
      · simp [AlertWorld.ended, hn] at hd'
      · simpa only [AlertWorld.ended, Function.update_of_ne hn] using hd'
    obtain ⟨hnodup', hclaim'⟩ := h.claimed n d' hold
    exact ⟨hnodup', fun id hid => List.mem_append_left _ (hclaim' id hid)⟩
  · intro id n status attemptsDelta lastError hmem
    have hrow : id ∈ d.job.ids ∧ n = i := by
      cases result with
      | sent =>
        obtain ⟨u, hu, heq⟩ := List.mem_map.mp hmem
        cases heq
        exact ⟨hu, rfl⟩
      | failed error =>
        obtain ⟨u, hu, heq⟩ := List.mem_map.mp hmem
        cases heq
        exact ⟨hu, rfl⟩
      | raised => cases hmem
    rw [hrow.2]
    exact hclaim id hrow.1

theorem ended_nextDelivery (i : ℕ) (d : Delivery) (result : AttemptEnd) (fail : ℚ) :
    (w.ended cfg i d result fail).nextDelivery = w.nextDelivery := by
  cases result <;> rfl

theorem Ledger.step (h : Ledger cfg db log w) (e : AlertCall) :
    Ledger cfg db (log ++ writes cfg w e) (step cfg w e) := by
  cases e with
  | emit eventType p clk => exact h.emit eventType p clk
  | drainLoop clk =>
    simp only [AlertWorld.step, writes]
    split
    · rwa [List.append_nil]
    · exact h.suspend h.coherent.stocked.drainOnce_drained drainOnce_claims _ _ _ drainOnce_breaker
  | sendDirect eventType p emitClk clk =>
    have hemit := h.emit eventType p emitClk
    simp only [AlertWorld.step, writes]
    rw [← suspend_agent (w.agent.emit cfg eventType p emitClk), ← List.append_assoc]
    exact hemit.suspend hemit.coherent.stocked.drainOnce_drained drainOnce_claims _ _ _ drainOnce_breaker
  | finish i answers fail clk =>
    cases hd : w.deliveries i with
    | none =>
      simp only [AlertWorld.step, writes, finish, hd, List.append_nil]
      exact h
    | some d =>
      simp only [AlertWorld.step, writes, hd]
      rw [finish_eq hd, ← List.append_assoc]
      have hended := h.ended hd (w.outcome cfg d answers) fail
      have hdrained : Drained (w.ended cfg i d (w.outcome cfg d answers) fail).agent
          ((w.ended cfg i d (w.outcome cfg d answers) fail).agent.goOn cfg clk d.job.kind (w.outcome cfg d answers)) :=
        hended.coherent.stocked.goOn_drained _ _
      have hgo := hended.suspend hdrained (goOn_claims _ _) d.owner clk.start 0 (.inl (goOn_breaker _ _))
      rw [ended_nextDelivery] at hgo
      exact hgo
  | stop =>
    simp only [writes, List.append_nil]
    exact ⟨h.coherent.step .stop, h.table, h.fits, h.claimed, h.preceded⟩

theorem ledger_run (cfg : AlertConfig) (nowMs : ℤ) (db : AlertDb) (es : List AlertCall) :
    Ledger cfg db (AlertWorld.log cfg nowMs db es) (Runs.run (AlertWorld.step cfg) (start cfg nowMs db) es) := by
  induction es using List.reverseRecOn with
  | nil =>
    refine ⟨coherent_start cfg nowMs db, rfl, Runs.guarded_cons.mpr ⟨trivial, Runs.guarded_nil⟩, fun n d hd => ?_, ?_⟩
    · cases hd
    · intro pre id n status attemptsDelta lastError hpre
      have hmem := hpre.subset (List.mem_append_right pre (List.mem_singleton_self _))
      simp [AlertWorld.log, history] at hmem
  | append_singleton es e ih =>
    rw [log_concat, Runs.run_append]
    exact ih.step e

/-- A row is claimed for one delivery. -/
theorem Ledger.claim_unique (h : Ledger cfg db log w) {id n m : ℕ} (hn : .claim id n ∈ log) (hm : .claim id m ∈ log) :
    n = m := by
  have hle : log.countP (Write.claims id) ≤ 1 := (countP_claims_le h.fits).trans (timesLeft_le_one h.fits)
  by_contra hne
  obtain ⟨pre, post, rfl⟩ := List.append_of_mem hn
  have hother : Write.claim id m ∈ pre ++ post := by
    rcases List.mem_append.mp hm with hpre | hpost
    · exact List.mem_append_left _ hpre
    · refine List.mem_append_right _ (List.mem_of_ne_of_mem ?_ hpost)
      intro heq
      cases heq
      exact hne rfl
  have hpos : 0 < (pre ++ post).countP (Write.claims id) :=
    List.countP_pos_iff.mpr ⟨_, hother, by simp [Write.claims]⟩
  simp only [List.countP_append, List.countP_cons, Write.claims, decide_true, if_true] at hle hpos
  omega

/-! ## Each alert is claimed once -/

/-- **Claimed once.** The writes of a run make its table, and each of them leaves a row as it is or moves its status on;
a row leaves `pending` at most once, and is claimed at most once; its final status is written for the delivery that it
was claimed for; and no row is in two deliveries, at whatever times they are in flight. -/
theorem alerts_claimed_once (cfg : AlertConfig) (nowMs : ℤ) (db : AlertDb) (es : List AlertCall) :
    Runs.run Write.apply db (AlertWorld.log cfg nowMs db es) =
        (Runs.run (AlertWorld.step cfg) (start cfg nowMs db) es).agent.db ∧
      Runs.Guarded (fun db write => Legal db (write.apply db)) Write.apply db (AlertWorld.log cfg nowMs db es) ∧
      (∀ id, timesLeft id db (AlertWorld.log cfg nowMs db es) ≤ 1) ∧
      (∀ id, (AlertWorld.log cfg nowMs db es).countP (Write.claims id) ≤ 1) ∧
      Preceded (AlertWorld.log cfg nowMs db es) ∧
      ∀ pre, pre <+: es → ∀ n d m d',
        (Runs.run (AlertWorld.step cfg) (start cfg nowMs db) pre).deliveries n = some d →
          (Runs.run (AlertWorld.step cfg) (start cfg nowMs db) es).deliveries m = some d' →
            ∀ id ∈ d.job.ids, id ∈ d'.job.ids → n = m := by
  have h := ledger_run cfg nowMs db es
  refine ⟨h.table, fun pre write hpre => (h.fits pre write hpre).legal, fun id => timesLeft_le_one h.fits, fun id => ?_,
    h.preceded, ?_⟩
  · exact (countP_claims_le h.fits).trans (timesLeft_le_one h.fits)
  · rintro pre ⟨post, rfl⟩ n d m d' hd hd' id hid hid'
    have hearly := ((ledger_run cfg nowMs db pre).claimed n d hd).2 id hid
    have hlate := (h.claimed m d' hd').2 id hid'
    refine h.claim_unique ?_ hlate
    simp only [AlertWorld.log, history_append, ← List.cons_append]
    exact List.mem_append_left _ hearly

end Steps

end AlertWorld

end MikoV2.Alerting
