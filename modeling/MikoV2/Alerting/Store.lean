import Mathlib.Data.List.Nodup
import MikoV2.Alerting.Attempt

/-!
# The alert table

`alert_events`, as the agent reads and writes it. Ids are never reused, so the rows come in the order of their ids.

* `AlertDb` : the rows;
* `insertEvent`, `updateStatus`, `optimisticSending`, `oldestPendingCritical`, `expiredSweep` : the statements;
* `Has` : the row of an id, with its severity and status; `has_insertEvent`, `has_updateStatus` : what the statements
  do to it.
-/

namespace MikoV2.Alerting

/-- `delivery_status` -/
inductive DeliveryStatus where
  | pending
  | sending
  | delivered
  | failed
  | expired
  deriving DecidableEq, Repr

structure AlertRow where
  id : ℕ
  tsMs : ℤ
  eventType : String
  severity : Severity
  symbol : Option String
  /-- what the payload has as its reason -/
  reason : Option String
  status : DeliveryStatus
  attempts : ℕ
  lastError : Option String

/-- What a delivery renders of an alert. -/
structure AlertEvent where
  eventType : String
  severity : Severity
  symbol : Option String
  tsMs : ℤ
  reason : Option String
  deriving DecidableEq

def AlertRow.toEvent (r : AlertRow) : AlertEvent := ⟨r.eventType, r.severity, r.symbol, r.tsMs, r.reason⟩

/-- `alert_events`; the ids come from `AUTOINCREMENT`. -/
structure AlertDb where
  rows : List AlertRow
  nextId : ℕ
  sorted : rows.Pairwise fun a b => a.id < b.id
  fresh : ∀ r ∈ rows, r.id < nextId

namespace AlertDb

def empty : AlertDb := ⟨[], 1, List.Pairwise.nil, nofun⟩

/-- The rows through a function that keeps their ids. -/
def mapRows (f : AlertRow → AlertRow) (hf : ∀ r, (f r).id = r.id) (db : AlertDb) : AlertDb where
  rows := db.rows.map f
  nextId := db.nextId
  sorted := by
    rw [List.pairwise_map]
    exact db.sorted.imp fun hlt => by rwa [hf, hf]
  fresh := by
    intro r hr
    obtain ⟨r', hr', rfl⟩ := List.mem_map.mp hr
    rw [hf]
    exact db.fresh r' hr'

/-- `_insert_event`: the row is pending, and its id the next one. -/
def insertEvent (e : AlertEvent) (db : AlertDb) : AlertDb where
  rows := db.rows ++ [⟨db.nextId, e.tsMs, e.eventType, e.severity, e.symbol, e.reason, .pending, 0, none⟩]
  nextId := db.nextId + 1
  sorted := by
    rw [List.pairwise_append]
    refine ⟨db.sorted, List.pairwise_singleton _ _, fun a ha b hb => ?_⟩
    rw [List.mem_singleton.mp hb]
    exact db.fresh a ha
  fresh := by
    intro r hr
    rcases List.mem_append.mp hr with hold | hnew
    · exact Nat.lt_succ_of_lt (db.fresh r hold)
    · rw [List.mem_singleton.mp hnew]
      exact Nat.lt_succ_self _

/-- `last_error` is kept when there is no new one. -/
def updateStatus (id : ℕ) (status : DeliveryStatus) (attemptsDelta : ℕ) (lastError : Option String) (db : AlertDb) :
    AlertDb :=
  db.mapRows
    (fun r =>
      if r.id = id then
        { r with status := status, attempts := r.attempts + attemptsDelta, lastError := lastError <|> r.lastError }
      else r)
    fun r => by split <;> rfl

/-- The row of the id is pending. -/
def Pending (db : AlertDb) (id : ℕ) : Prop := ∃ r ∈ db.rows, r.id = id ∧ r.status = .pending

instance (db : AlertDb) : DecidablePred db.Pending := fun _ => inferInstanceAs (Decidable (∃ r ∈ _, _))

/-- `_optimistic_sending`: whether the row was pending, and is now `sending`. -/
def optimisticSending (id : ℕ) (db : AlertDb) : Bool × AlertDb :=
  if db.Pending id then (true, db.updateStatus id .sending 0 none) else (false, db)

/-- A row that `_half_open_test` may take. -/
def isPendingCritical (r : AlertRow) : Bool := r.status = .pending ∧ r.severity = .critical

/-- `ORDER BY ts_ms ASC LIMIT 1`; of rows with one time, the index has the smaller id first. -/
def oldest : List AlertRow → Option AlertRow
  | [] => none
  | r :: rs => match oldest rs with
    | none => some r
    | some r' => if r'.tsMs < r.tsMs then some r' else some r

def oldestPendingCritical (db : AlertDb) : Option AlertRow := oldest (db.rows.filter isPendingCritical)

/-- `_startup_expired_sweep` -/
def expiredSweep (cutoffMs : ℤ) (db : AlertDb) : AlertDb :=
  db.mapRows (fun r => if r.status = .pending ∧ r.tsMs < cutoffMs then { r with status := .expired } else r)
    fun r => by split <;> rfl

/-! ## Severity and status -/

/-- The table has a row with the id, the severity and the status. -/
def Has (db : AlertDb) (id : ℕ) (severity : Severity) (status : DeliveryStatus) : Prop :=
  ∃ r ∈ db.rows, r.id = id ∧ r.severity = severity ∧ r.status = status

section Rows
variable {db : AlertDb} {id u attemptsDelta : ℕ} {severity severity' : Severity} {status status' : DeliveryStatus}
  {lastError : Option String}

/-- Two rows with one id are one row. -/
theorem eq_of_id_eq {r r' : AlertRow} (hr : r ∈ db.rows) (hr' : r' ∈ db.rows) (hid : r.id = r'.id) : r = r' := by
  have hnodup : (db.rows.map AlertRow.id).Nodup := by
    rw [List.Nodup, List.pairwise_map]
    exact db.sorted.imp Nat.ne_of_lt
  exact List.inj_on_of_nodup_map hnodup hr hr' hid

theorem Has.unique (h : db.Has id severity status) (h' : db.Has id severity' status') :
    severity = severity' ∧ status = status' := by
  obtain ⟨r, hr, hid, rfl, rfl⟩ := h
  obtain ⟨r', hr', hid', rfl, rfl⟩ := h'
  rw [eq_of_id_eq hr hr' (hid.trans hid'.symm)]
  exact ⟨rfl, rfl⟩

theorem Has.lt (h : db.Has id severity status) : id < db.nextId := by
  obtain ⟨r, hr, rfl, -, -⟩ := h
  exact db.fresh r hr

theorem pending_iff : db.Pending id ↔ ∃ severity, db.Has id severity .pending := by
  constructor
  · rintro ⟨r, hr, hid, hstatus⟩
    exact ⟨r.severity, r, hr, hid, rfl, hstatus⟩
  · rintro ⟨severity, r, hr, hid, -, hstatus⟩
    exact ⟨r, hr, hid, hstatus⟩

theorem Has.not_pending (h : db.Has id severity status) (hne : status ≠ .pending) : ¬ db.Pending id := by
  intro hp
  obtain ⟨severity', h'⟩ := pending_iff.mp hp
  exact hne (h.unique h').2

theorem has_insertEvent {e : AlertEvent} :
    (db.insertEvent e).Has id severity status ↔
      db.Has id severity status ∨ (id = db.nextId ∧ severity = e.severity ∧ status = .pending) := by
  unfold Has
  simp only [insertEvent, List.mem_append, List.mem_singleton]
  constructor
  · rintro ⟨r, hold | rfl, hid, hsev, hstatus⟩
    · exact .inl ⟨r, hold, hid, hsev, hstatus⟩
    · exact .inr ⟨hid.symm, hsev.symm, hstatus.symm⟩
  · rintro (⟨r, hr, hrest⟩ | ⟨rfl, rfl, rfl⟩)
    · exact ⟨r, .inl hr, hrest⟩
    · exact ⟨_, .inr rfl, rfl, rfl, rfl⟩

theorem has_updateStatus :
    (db.updateStatus u status' attemptsDelta lastError).Has id severity status ↔
      (id ≠ u ∧ db.Has id severity status) ∨ (id = u ∧ status = status' ∧ ∃ old, db.Has id severity old) := by
  unfold Has
  simp only [updateStatus, mapRows, List.mem_map]
  constructor
  · rintro ⟨_, ⟨r, hr, rfl⟩, hid, hsev, hstatus⟩
    by_cases hu : r.id = u
    · rw [if_pos hu] at hid hsev hstatus
      exact .inr ⟨hid.symm.trans hu, hstatus.symm, r.status, r, hr, hid, hsev, rfl⟩
    · rw [if_neg hu] at hid hsev hstatus
      exact .inl ⟨hid ▸ hu, r, hr, hid, hsev, hstatus⟩
  · rintro (⟨hne, r, hr, rfl, hsev, hstatus⟩ | ⟨rfl, rfl, -, r, hr, hid, hsev, -⟩)
    · exact ⟨r, ⟨r, hr, if_neg hne⟩, rfl, hsev, hstatus⟩
    · exact ⟨_, ⟨r, hr, if_pos hid⟩, hid, hsev, rfl⟩

/-- A row of another id is as it was. -/
theorem has_updateStatus_ne (hne : id ≠ u) :
    (db.updateStatus u status' attemptsDelta lastError).Has id severity status ↔ db.Has id severity status := by
  simp [has_updateStatus, hne]

theorem optimisticSending_pending (h : db.Pending id) :
    db.optimisticSending id = (true, db.updateStatus id .sending 0 none) := if_pos h

theorem optimisticSending_not_pending (h : ¬ db.Pending id) : db.optimisticSending id = (false, db) := if_neg h

theorem oldest_eq_none {rs : List AlertRow} : oldest rs = none ↔ rs = [] := by
  cases rs with
  | nil => simp [oldest]
  | cons r rs =>
    simp only [oldest, reduceCtorEq, iff_false]
    split
    · nofun
    · split <;> nofun

theorem mem_of_oldest {rs : List AlertRow} {r : AlertRow} (h : oldest rs = some r) : r ∈ rs := by
  induction rs generalizing r with
  | nil => cases h
  | cons x rs ih =>
    simp only [oldest] at h
    split at h
    · cases h
      exact List.mem_cons_self
    · rename_i hold
      split at h
      · cases h
        exact List.mem_cons_of_mem x (ih hold)
      · cases h
        exact List.mem_cons_self

/-- `_half_open_test` finds a row exactly when there is one. -/
theorem oldestPendingCritical_isSome :
    db.oldestPendingCritical.isSome ↔ ∃ id, db.Has id .critical .pending := by
  rw [Option.isSome_iff_ne_none]
  unfold oldestPendingCritical
  rw [Ne, oldest_eq_none, List.filter_eq_nil_iff]
  simp only [isPendingCritical, decide_eq_true_eq, not_forall, Classical.not_not]
  constructor
  · rintro ⟨r, hr, hstatus, hsev⟩
    exact ⟨r.id, r, hr, rfl, hsev, hstatus⟩
  · rintro ⟨id, r, hr, -, hsev, hstatus⟩
    exact ⟨r, hr, hstatus, hsev⟩

theorem has_of_oldestPendingCritical {r : AlertRow} (h : db.oldestPendingCritical = some r) :
    db.Has r.id .critical .pending := by
  have hmem : r ∈ db.rows.filter isPendingCritical := mem_of_oldest h
  obtain ⟨hr, hp⟩ := List.mem_filter.mp hmem
  simp only [isPendingCritical, decide_eq_true_eq] at hp
  exact ⟨r, hr, rfl, hp.2, hp.1⟩

end Rows

end AlertDb

end MikoV2.Alerting
