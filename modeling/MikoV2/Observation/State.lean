import MikoV2.Store.Tables

/-!
# `observation.state`

The access functions of the single row of `observation_state`, over the connection the runner shares with
its other tables. The row is there since `migrate_observation`, so `INSERT OR IGNORE` ignores.

* `loadState`, `pollStopFlag`, `updateState` : the runner's calls;
* `setStopFlag` : the operator's call, on a connection of his own;
* `updateState_frame`, `updateState_positions` : what an update leaves alone;
* `updateState_of_statements` : an update whose two statements do not raise reaches the view.
-/

namespace MikoV2.Observation
open Store Sqlite

variable (faults : Faults Call)

/-- `load_state(conn)`; `none` when the read raises. -/
def loadState (c : Conn Db) : Option ObservationState × Conn Db :=
  c.execute faults .selectObservation fun db => (db.observation, db)

/-- `poll_stop_flag(conn)`; `none` when the read raises. -/
def pollStopFlag (c : Conn Db) : Option Bool × Conn Db :=
  c.execute faults .selectObservation fun db => (db.observation.observationStop, db)

/-- `UPDATE observation_state SET … WHERE id = 1`. -/
def setFields (fields : ObservationState → ObservationState) (db : Db) : Unit × Db :=
  ((), { db with observation := fields db.observation })

/-- `update_state(conn, **fields)`; `false` when one of its three calls raises. There is no rollback. -/
def updateState (fields : ObservationState → ObservationState) (c : Conn Db) : Bool × Conn Db :=
  match c.execute faults .insertObservation (fun db => ((), db)) with
  | (none, c) => (false, c)
  | (some _, c) =>
    let (r, c) := c.write faults .updateObservation .commitObservation (setFields fields)
    (r.isSome, c)

def setStop (value : Bool) (db : Db) : Db := { db with observation.observationStop := value }

/-- `set_stop_flag(conn, value)` of the operator's process. While the runner has a transaction pending the
database is locked and the call raises. -/
def setStopFlag (value : Bool) (c : Conn Db) : Conn Db :=
  if c.view = c.disk then { c with view := setStop value c.view, disk := setStop value c.disk } else c

/-! ## What the calls do -/

variable {faults} {c c' : Conn Db} {fields : ObservationState → ObservationState} {T : Type}

theorem loadState_ok (hread : ∀ n, faults n .selectObservation = false) (c : Conn Db) :
    loadState faults c = (some c.view.observation, { c with issued := c.issued + 1 }) := by
  unfold loadState Conn.execute
  rw [hread]
  rfl

theorem pollStopFlag_ok (hread : ∀ n, faults n .selectObservation = false) (c : Conn Db) :
    pollStopFlag faults c = (some c.view.observation.observationStop, { c with issued := c.issued + 1 }) := by
  unfold pollStopFlag Conn.execute
  rw [hread]
  rfl

/-- An update leaves alone what setting its fields leaves alone. -/
theorem updateState_frame {f : Db → T} (hf : ∀ db, f (setFields fields db).2 = f db) (c : Conn Db) :
    Frame f c (updateState faults fields c).2 := by
  unfold updateState
  rcases hx : c.execute faults .insertObservation (fun db => ((), db)) with ⟨r, c₁⟩
  have hinsert : Frame f c c₁ := .of_execute (fun _ => rfl) hx
  cases r with
  | none => exact hinsert
  | some u => exact hinsert.trans (.of_write hf (Prod.mk.eta (p := c₁.write _ _ _ _)).symm)

theorem updateState_positions (faults : Faults Call) (fields : ObservationState → ObservationState) (c : Conn Db) :
    Frame Db.positions c (updateState faults fields c).2 := updateState_frame (fun _ => rfl) c

/-- The two statements of an update that starts at call `n` do not raise. -/
def statementsReturn (faults : Faults Call) (n : ℕ) : Prop :=
  faults n .insertObservation = false ∧ faults (n + 1) .updateObservation = false

/-- Nor does its commit. -/
def updateReturns (faults : Faults Call) (n : ℕ) : Prop :=
  statementsReturn faults n ∧ faults (n + 2) .commitObservation = false

/-- An update whose statements return is seen by the connection, and at least pending. -/
theorem updateState_of_statements (h : statementsReturn faults c.issued)
    (fields : ObservationState → ObservationState) :
    (updateState faults fields c).2.view = (setFields fields c.view).2 ∧
      ((updateState faults fields c).2.disk = c.disk ∨
        (updateState faults fields c).2.disk = (setFields fields c.view).2) := by
  obtain ⟨hinsert, hupdate⟩ := h
  unfold updateState Conn.write Conn.execute Conn.commit
  rw [hinsert]
  simp only [Bool.false_eq_true, if_false, hupdate]
  by_cases hco : faults (c.issued + 1 + 1) .commitObservation = true
  · rw [if_pos hco]
    exact ⟨rfl, Or.inl rfl⟩
  · rw [if_neg hco]
    exact ⟨rfl, Or.inr rfl⟩

/-- An update that returns is on the disk, with everything that was pending before it. -/
theorem updateState_of_returns (h : updateReturns faults c.issued) :
    (updateState faults fields c).2.disk = (setFields fields c.view).2 := by
  obtain ⟨⟨hinsert, hupdate⟩, hcommit⟩ := h
  unfold updateState Conn.write Conn.execute Conn.commit
  rw [hinsert]
  simp only [Bool.false_eq_true, if_false, hupdate, hcommit]

theorem setStopFlag_positions (value : Bool) (c : Conn Db) : Frame Db.positions c (setStopFlag value c) := by
  unfold setStopFlag
  split
  · exact ⟨rfl, Or.inl rfl⟩
  · exact .refl _ _

end MikoV2.Observation
