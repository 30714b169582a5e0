import Mathlib.Algebra.Order.Field.Rat
import MikoV2.Execution.WriterFills

/-!
# Closing positions

The two components that close positions, on one writer: the flip path of `on_fill_event`, and the emergency closer.
Every call of the exchange is a point at which the other tasks run.

* `emergencyPersistState` : the row that is written before the first attempt;
* `postResult`, `directResult` : what an attempt makes of the exchange's answers;
* `Task` : where a suspended operation stands; `CloseWorld.step` : a call, or the next step of a suspended one.
-/

namespace MikoV2.Emergency
open Transactions Writer Execution

structure EmergencyCloserConfig where
  reduceOnly : Bool := true
  maxRetry : ℕ := 1
  leverage : ℚ := 5
  minLot : ℚ := 1 / 1000

inductive CloseResult where
  | closed
  | forceLiquidated
  | failed
  | dust
  deriving DecidableEq, Repr

def CloseResult.text : CloseResult → String
  | .closed => "CLOSED"
  | .forceLiquidated => "FORCE_LIQUIDATED_BY_SYSTEM"
  | .failed => "EMERGENCY_FAILED_POSITION_OPEN"
  | .dust => "DUST_ACKNOWLEDGED"

/-- How a call of the exchange ends. -/
inductive Answer where
  /-- with a value that is not `None`; `slippage` as it is converted, `0` where there is none -/
  | returned (slippage : ℚ)
  | returnedNone
  | runtimeError
  | exception
  deriving DecidableEq

/-- The call returned. -/
def Answer.Returns : Answer → Prop
  | .returned _ => True
  | .returnedNone => True
  | _ => False

/-- `leverage_adjusted_slippage()`; `none` when it raises `ZeroDivisionError`. -/
def leverageAdjustedSlippage (cfg : EmergencyCloserConfig) : Option ℚ :=
  if cfg.leverage = 0 then none else some (min (3 / 100) (1 / 10 / cfg.leverage))

def emergencyPayload (symbol : String) : Payload :=
  Payload.ofList [("position_id", .text symbol), ("emergency_pending", .num 1)]

/-- `_emergency_persist_state`; what `execute_wal` raises is dropped. -/
def emergencyPersistState (s : CallScript) (symbol : String) (c : Conn Db) : Conn Db :=
  (executeWal s (emergencyPayload symbol) c).2

/-- What the start of an attempt makes of the position, whose quantity is a stub. -/
def isDust (cfg : EmergencyCloserConfig) : Bool := (1 : ℚ) < cfg.minLot / 2

/-- What an attempt does once `post_market_order` has ended. -/
inductive AttemptStep where
  | result (r : CloseResult)
  | raises
  | postDirect
  deriving DecidableEq

def postResult (cfg : EmergencyCloserConfig) : Answer → AttemptStep
  | .returned slippage => match leverageAdjustedSlippage cfg with
    | none => .raises
    | some limit => if limit < |slippage| then .result .forceLiquidated else .result .closed
  | .returnedNone => .result .failed
  | .runtimeError => .postDirect
  | .exception => .result .failed

/-- What it does once `_direct_market_post` has ended. -/
def directResult : Answer → CloseResult
  | .returned _ => .forceLiquidated
  | _ => .failed

/-- The results after which the row is closed. -/
def CloseResult.Closes (r : CloseResult) : Prop := r = .closed ∨ r = .forceLiquidated

instance : DecidablePred CloseResult.Closes := fun _ => inferInstanceAs (Decidable (_ ∨ _))

/-- An operation that is suspended, or an emergency task that has not begun or whose callback has not run. -/
inductive Task where
  /-- `await emergency_close` in a flip -/
  | flip (positionId : String)
  | created (symbol : String)
  | posting (symbol : String) (attempt : ℕ)
  | direct (symbol : String) (attempt : ℕ)
  | sleeping (symbol : String) (attempt : ℕ)
  | finished (symbol : String)
  deriving DecidableEq

structure CloseWorld where
  memory : FillMemory
  conn : Conn Db
  tasks : ℕ → Option Task
  /-- the emergency tasks by symbol -/
  emergencyTasks : String → Option ℕ
  nextId : ℕ

inductive CloseEvent where
  | fill (e : FillCall)
  | emergency (symbol : String)
  /-- a suspended operation goes on, with what it waited for and how its call of the writer goes -/
  | resume (id : ℕ) (answer : Answer) (s : CallScript)

structure CloseConfig where
  orders : OrderManagerConfig := {}
  closer : EmergencyCloserConfig := {}

namespace CloseWorld

def start (db : Db) : CloseWorld := ⟨.fresh, Conn.openDb db, fun _ => none, fun _ => none, 0⟩

def setTask (w : CloseWorld) (id : ℕ) (t : Option Task) : CloseWorld :=
  { w with tasks := Function.update w.tasks id t }

def spawn (w : CloseWorld) (t : Task) : CloseWorld :=
  { w.setTask w.nextId (some t) with nextId := w.nextId + 1 }

/-- The next round of the retry loop, or its end. -/
def nextAttempt (cfg : EmergencyCloserConfig) (w : CloseWorld) (id : ℕ) (symbol : String) (attempt : ℕ) : CloseWorld :=
  if attempt < cfg.maxRetry + 1 ∧ isDust cfg = false then w.setTask id (some (.posting symbol attempt))
  else w.setTask id (some (.finished symbol))

/-- An attempt has a result: close the row, or sleep. -/
def afterAttempt (w : CloseWorld) (id : ℕ) (symbol : String) (attempt : ℕ) (r : CloseResult) (s : CallScript) :
    CloseWorld :=
  if r.Closes then
    { w.setTask id (some (.finished symbol)) with conn := (closePosition s symbol r.text 0 0 none w.conn).2 }
  else w.setTask id (some (.sleeping symbol attempt))

def resume (cfg : EmergencyCloserConfig) (w : CloseWorld) (id : ℕ) (answer : Answer) (s : CallScript) :
    Option Task → CloseWorld
  | none => w
  -- the row is closed whether `emergency_close` has returned or raised
  | some (.flip positionId) =>
    { w.setTask id none with conn := (closePosition s positionId "FLIP" 0 0 none w.conn).2 }
  | some (.created symbol) => nextAttempt cfg { w with conn := emergencyPersistState s symbol w.conn } id symbol 0
  | some (.posting symbol attempt) => match postResult cfg answer with
    | .result r => w.afterAttempt id symbol attempt r s
    | .raises => w.setTask id (some (.finished symbol))
    | .postDirect => w.setTask id (some (.direct symbol attempt))
  | some (.direct symbol attempt) => w.afterAttempt id symbol attempt (directResult answer) s
  | some (.sleeping symbol attempt) => nextAttempt cfg w id symbol (attempt + 1)
  | some (.finished symbol) =>
    { w.setTask id none with emergencyTasks := Function.update w.emergencyTasks symbol none }

def step (cfg : CloseConfig) (w : CloseWorld) (e : CloseEvent) : CloseWorld := match e with
  | .fill e => match FillMemory.onFillEvent cfg.orders e (w.memory, w.conn) with
    | (true, m, c) => { w with memory := m, conn := c }.spawn (.flip e.positionId)
    | (false, m, c) => { w with memory := m, conn := c }
  | .emergency symbol => match w.emergencyTasks symbol with
    -- the caller waits for the task that is running
    | some _ => w
    | none => { w.spawn (.created symbol) with emergencyTasks := Function.update w.emergencyTasks symbol (some w.nextId) }
  | .resume id answer s => resume cfg.closer w id answer s (w.tasks id)

end CloseWorld

end MikoV2.Emergency
