import MikoV2.Lib.Transactions
import MikoV2.Writer.Tables

/-!
# The writer's calls

The methods of `SqliteWriter` that write, on a connection that opens transactions by itself. Each raises when the
writer is not connected, and some when a key of the payload is missing; the rest is a statement and a commit.

* `executeWal`, `openPosition`, `closePosition`, `insertWhaleEvent`, `insertEquitySnapshot`, `upsertDailyStats`,
  `updatePositionVersioned`, `getVersion` : the methods;
* `Op` : a call of one of the seven that write; `call_eq` : all of them are one call of the connection;
  `call_view` : what the connection sees after it.
-/

namespace MikoV2.Writer
open Transactions

/-- How a call of the writer goes, and what the clock says. -/
structure CallScript where
  connected : Bool := true
  statement : Outcome := .done
  commitFails : Bool := false
  /-- `int(time.time() * 1000)` -/
  nowMs : ℤ := 0

/-- Connected, statement, commit: the body that the methods share. -/
def write (s : CallScript) (stmt : Db → ℕ × Db) (c : Conn Db) : Bool × Conn Db :=
  if s.connected then c.call s.statement s.commitFails (fun _ => true) stmt else (false, c)

def executeWalStmt (payload : Payload) (nowMs : ℤ) : Db → ℕ × Db :=
  if (payload "order_id").isSome then insertOrReplaceOrder (executeWalOrder payload nowMs)
  else insertOrReplacePosition (executeWalPosition payload)

/-- `execute_wal(payload)`; `false` when it raises, here and below. -/
def executeWal (s : CallScript) (payload : Payload) (c : Conn Db) : Bool × Conn Db :=
  write s (executeWalStmt payload s.nowMs) c

/-- `open_position(payload)` -/
def openPosition (s : CallScript) (payload : Payload) (c : Conn Db) : Bool × Conn Db :=
  -- `payload["position_id"]` raises `KeyError` before the statement
  if (payload "position_id").isSome then write s (openStmt (openRow payload s.nowMs)) c else (false, c)

def closePosition (s : CallScript) (positionId closeReason : String) (realizedPnl feeTotal : ℚ) (rMultiple : Option ℚ)
    (c : Conn Db) : Bool × Conn Db :=
  write s (closeStmt positionId closeReason realizedPnl feeTotal rMultiple s.nowMs) c

def insertWhaleEvent (s : CallScript) (payload : Payload) (c : Conn Db) : Bool × Conn Db :=
  write s (insertWhaleStmt (whaleRow payload s.nowMs)) c

def insertEquitySnapshot (s : CallScript) (payload : Payload) (c : Conn Db) : Bool × Conn Db :=
  write s (insertEquityStmt (equityRow payload s.nowMs)) c

/-- `upsert_daily_stats(payload)` -/
def upsertDailyStats (s : CallScript) (payload : Payload) (c : Conn Db) : Bool × Conn Db :=
  -- `payload["date_utc"]`
  if (payload "date_utc").isSome then write s (insertOrReplaceDaily (dailyRow payload)) c else (false, c)

/-- `update_position_versioned(…)`; `none` when it raises. -/
def updatePositionVersioned (s : CallScript) (positionId : String) (newAvg newTp newSl : ℚ) (expectedVersion : ℤ)
    (c : Conn Db) : Option Bool × Conn Db :=
  if s.connected then
    -- without a row that matches it returns before its commit
    match c.call s.statement s.commitFails (fun rowcount => rowcount ≠ 0)
        (updateStmt positionId newAvg newTp newSl expectedVersion) with
    | (ok, c') => (some ok, c')
  else (none, c)

/-- `int(version)` for the column of a row; what does not convert raises, and is then read as `0`. -/
def intVersion : SqlValue → ℤ
  | .num x => x.num.tdiv x.den
  | _ => 0

/-- `get_version(position_id)`; `none` when it raises. -/
def getVersion (s : CallScript) (positionId : String) (c : Conn Db) : Option ℤ :=
  if s.connected then
    if s.statement = .done then some ((row c.view positionId).elim 0 fun row => intVersion (row .version)) else some 0
  else none

/-! ## The seven operations -/

/-- A call of a method that writes. -/
inductive Op where
  | executeWal (payload : Payload)
  | openPosition (payload : Payload)
  | closePosition (positionId closeReason : String) (realizedPnl feeTotal : ℚ) (rMultiple : Option ℚ)
  | insertWhaleEvent (payload : Payload)
  | insertEquitySnapshot (payload : Payload)
  | upsertDailyStats (payload : Payload)
  | updatePositionVersioned (positionId : String) (newAvg newTp newSl : ℚ) (expectedVersion : ℤ)

namespace Op

/-- The call; `false` when it raises or returns `False`. -/
def call (s : CallScript) (c : Conn Db) : Op → Bool × Conn Db
  | .executeWal payload => Writer.executeWal s payload c
  | .openPosition payload => Writer.openPosition s payload c
  | .closePosition positionId closeReason realizedPnl feeTotal rMultiple =>
    Writer.closePosition s positionId closeReason realizedPnl feeTotal rMultiple c
  | .insertWhaleEvent payload => Writer.insertWhaleEvent s payload c
  | .insertEquitySnapshot payload => Writer.insertEquitySnapshot s payload c
  | .upsertDailyStats payload => Writer.upsertDailyStats s payload c
  | .updatePositionVersioned positionId newAvg newTp newSl expectedVersion =>
    match Writer.updatePositionVersioned s positionId newAvg newTp newSl expectedVersion c with
    | (r, c') => (r.getD false, c')

/-- The statement of the method. -/
def stmt (nowMs : ℤ) : Op → Db → ℕ × Db
  | .executeWal payload => executeWalStmt payload nowMs
  | .openPosition payload => openStmt (openRow payload nowMs)
  | .closePosition positionId closeReason realizedPnl feeTotal rMultiple =>
    closeStmt positionId closeReason realizedPnl feeTotal rMultiple nowMs
  | .insertWhaleEvent payload => insertWhaleStmt (whaleRow payload nowMs)
  | .insertEquitySnapshot payload => insertEquityStmt (equityRow payload nowMs)
  | .upsertDailyStats payload => insertOrReplaceDaily (dailyRow payload)
  | .updatePositionVersioned positionId newAvg newTp newSl expectedVersion =>
    updateStmt positionId newAvg newTp newSl expectedVersion

/-- The payload has the keys that the method indexes. -/
def Complete : Op → Prop
  | .openPosition payload => (payload "position_id").isSome = true
  | .upsertDailyStats payload => (payload "date_utc").isSome = true
  | _ => True

/-- What the method makes of the row count. -/
def proceed : Op → ℕ → Bool
  | .updatePositionVersioned .. => fun rowcount => rowcount ≠ 0
  | _ => fun _ => true

/-- A versioned update finds the row with the version before the expected one. -/
def Matches (db : Db) : Op → Prop
  | .updatePositionVersioned positionId _ _ _ expectedVersion =>
    ∃ row ∈ db.positions, row .positionId = .text positionId ∧ row .version = .num ((expectedVersion - 1 : ℤ) : ℚ)
  | _ => True

instance : DecidablePred Complete := fun op => by
  cases op <;> unfold Complete <;> infer_instance

/-- Every method is one call of the connection. -/
theorem call_eq (s : CallScript) (c : Conn Db) (op : Op) :
    op.call s c = if s.connected = true ∧ op.Complete then c.call s.statement s.commitFails op.proceed (op.stmt s.nowMs)
      else (false, c) := by
  cases hc : s.connected with
  | false =>
    have hno : ¬ (false = true ∧ op.Complete) := fun h => Bool.false_ne_true h.1
    rw [if_neg hno]
    cases op <;>
      simp [call, Writer.executeWal, Writer.openPosition, Writer.closePosition, Writer.insertWhaleEvent,
        Writer.insertEquitySnapshot, Writer.upsertDailyStats, Writer.updatePositionVersioned, write, hc]
  | true =>
    cases op <;>
      simp [call, Writer.executeWal, Writer.openPosition, Writer.closePosition, Writer.insertWhaleEvent,
        Writer.insertEquitySnapshot, Writer.upsertDailyStats, Writer.updatePositionVersioned, write, hc, Complete, stmt,
        proceed]

theorem proceed_iff (db : Db) (nowMs : ℤ) (op : Op) : op.proceed (op.stmt nowMs db).1 = true ↔ op.Matches db := by
  cases op with
  | updatePositionVersioned positionId newAvg newTp newSl expectedVersion =>
    simp [Op.proceed, Op.stmt, Op.Matches, updateStmt, Sqlite.update, List.countP_eq_zero]
  | _ => simp [Op.proceed, Op.Matches]

/-- The call reaches its statement, and the statement does not fail. -/
def Executes (s : CallScript) (op : Op) : Prop := s.connected = true ∧ op.Complete ∧ s.statement = .done

/-- The connection sees the database as it was, or the statement has run; the disk is as it was, or what the connection
sees. -/
theorem call_view {s : CallScript} {c c' : Conn Db} {op : Op} {ok : Bool} (h : op.call s c = (ok, c')) :
    ((¬ op.Executes s ∧ ok = false ∧ c'.view = c.view) ∨
        (op.Executes s ∧ c'.view = (op.stmt s.nowMs c.view).2 ∧ (ok = true → op.Matches c.view))) ∧
      (c'.disk = c.disk ∨ c'.disk = c'.view) := by
  rw [call_eq] at h
  unfold Executes
  by_cases hreach : s.connected = true ∧ op.Complete
  · rw [if_pos hreach] at h
    refine ⟨?_, call_disk h⟩
    rcases call_cases h with ⟨ho, hok, rfl⟩ | ⟨ho, hok, rfl⟩ | ⟨ho, -, hok, rfl⟩ | ⟨ho, hp, -, -, rfl⟩
    · exact Or.inl ⟨fun hex => by simp [ho] at hex, hok, rfl⟩
    · exact Or.inl ⟨fun hex => by simp [ho] at hex, hok, rfl⟩
    · refine Or.inr ⟨⟨hreach.1, hreach.2, ho⟩, rfl, fun htrue => ?_⟩
      exact absurd (hok.symm.trans htrue) Bool.false_ne_true
    · exact Or.inr ⟨⟨hreach.1, hreach.2, ho⟩, rfl, fun _ => (op.proceed_iff c.view s.nowMs).mp hp⟩
  · rw [if_neg hreach] at h
    cases h
    exact ⟨Or.inl ⟨fun hex => hreach ⟨hex.1, hex.2.1⟩, rfl, rfl⟩, Or.inl rfl⟩

end Op

end MikoV2.Writer
