import Mathlib.Algebra.Order.BigOperators.Group.Finset
import MikoV2.Execution.OrderManager
import MikoV2.Lib.Lock
import MikoV2.Lib.Runs

/-!
# One lock for fills, the writer and the tracker

`OrderManager`, `SqliteWriter` and `EquityTracker` with one `fill_lock`. A task runs until it has to wait: for the lock,
or for something outside (the exchange, the mark cache). The lock is asked for by the sections of `on_fill_event`, by
`on_startup`, by `compute_snapshot`, and by the methods of the writer that write; reads do not ask for it.

* `Point` : where a call stands; `critical` : what the section of a point does with the lock; `outside` : the rest;
* `LockWorld.step` : a call begins, a call goes on, or the writer is connected or closed.
-/

namespace MikoV2.Execution

/-- The fill event of a call of `on_fill_event`. -/
structure LockFill where
  orderId : String
  fillQty : ℚ

/-- Where a call stands: before a section that it needs the lock for, or before something outside. -/
inductive Point where
  | fillCheck (e : LockFill)
  | fillRound (e : LockFill) (round : ℕ)
  /-- `update_position_versioned` asks for the lock, in the section of a round -/
  | fillUpdate (e : LockFill) (round : ℕ)
  | flipExchange
  | flipClose
  | startup
  | listOpen (write : Bool)
  /-- so many calls of the mark cache are left -/
  | marks (left : ℕ) (write : Bool)
  | insertSnapshot
  | persist
  | attempt (k : ℕ)
  | closePosition

/-- How an attempt of an emergency close ends. -/
inductive AttemptEnd where
  | closes
  | fails
  /-- dust, or an exception -/
  | ends
  deriving DecidableEq

/-- What a call gets from outside in a step. -/
structure LockAnswer where
  /-- the rows that `on_startup` fetches; `none` when the fetch fails -/
  partials : Option (List (String × ℚ)) := none
  openRows : ℕ := 0
  attempt : AttemptEnd := .ends

structure LockConfig where
  orders : OrderManagerConfig := {}
  /-- `max_retry` of the emergency closer -/
  maxRetry : ℕ := 1

structure LockWorld where
  connected : Bool
  filledByOrder : String → Option ℚ
  lock : Lock ℕ
  tasks : ℕ → Option Point
  nextId : ℕ

inductive LockEvent where
  | onFillEvent (e : LockFill)
  | onStartup
  | computeSnapshot
  | snapshotOnce
  | emergencyClose
  | connect
  | close
  | resume (id : ℕ) (answer : LockAnswer)

/-- What comes next for a call. -/
inductive Next where
  | done
  | goto (p : Point)
  /-- asks for the lock before it gives it back -/
  | nested (p : Point)

namespace LockWorld

def start (connected : Bool) (filledByOrder : String → Option ℚ) : LockWorld :=
  ⟨connected, filledByOrder, Lock.free, fun _ => none, 0⟩

def existing (w : LockWorld) (orderId : String) : ℚ := (w.filledByOrder orderId).getD 0

/-- The retry loop at the round `k`. -/
def round (cfg : LockConfig) (e : LockFill) (k : ℕ) : Next :=
  if k < cfg.orders.maxRetry then .goto (.fillRound e k) else .done

/-- The increment of a fill event is positive, so that a round goes on to the database. -/
def Advances (w : LockWorld) (e : LockFill) : Prop :=
  0 < OrderManager.newFill (w.existing e.orderId) e.fillQty - w.existing e.orderId

instance (w : LockWorld) : DecidablePred w.Advances := fun _ => inferInstanceAs (Decidable (_ < _))

/-- Whether a call asks for the lock at the point. The writer's methods raise first when it is not connected. -/
def wants (connected : Bool) : Point → Bool
  | .fillCheck _ => true
  | .fillRound _ _ => true
  | .fillUpdate _ _ => true
  | .startup => true
  | .listOpen _ => true
  | .flipClose => connected
  | .insertSnapshot => connected
  | .persist => connected
  | .closePosition => connected
  | _ => false

/-- The section of a point, with the lock: what comes next, and the fills that are remembered. -/
def critical (cfg : LockConfig) (w : LockWorld) (answer : LockAnswer) : Point → Next × (String → Option ℚ)
  | .fillCheck e => match OrderManager.check cfg.orders (w.existing e.orderId) e.fillQty with
    | some .flip => (.goto .flipExchange, w.filledByOrder)
    | some _ => (.done, w.filledByOrder)
    | none => (round cfg e 0, w.filledByOrder)
  | .fillRound e k =>
    if ¬ w.Advances e then (.done, w.filledByOrder)
    -- the update asks for the lock of this section, so that the `break` after it and `open_position` are not reached
    else if w.connected then (.nested (.fillUpdate e k), w.filledByOrder)
    -- `get_version` raises
    else (round cfg e (k + 1), w.filledByOrder)
  | .startup =>
    if w.connected then
      (.done, (answer.partials.getD []).foldl (fun filled row => Function.update filled row.1 (some row.2))
        w.filledByOrder)
    else (.done, w.filledByOrder)
  | .listOpen write => (if w.connected then .goto (.marks answer.openRows write) else .done, w.filledByOrder)
  | .persist => (.goto (.attempt 0), w.filledByOrder)
  | _ => (.done, w.filledByOrder)

/-- A step without the lock. -/
def outside (cfg : LockConfig) (answer : LockAnswer) : Point → Next
  | .flipExchange => .goto .flipClose
  | .marks (n + 1) write => .goto (.marks n write)
  | .marks 0 write => if write then .goto .insertSnapshot else .done
  | .persist => .goto (.attempt 0)
  | .attempt k => match answer.attempt with
    | .closes => .goto .closePosition
    | .fails => if k + 1 < cfg.maxRetry + 1 then .goto (.attempt (k + 1)) else .done
    | .ends => .done
  | _ => .done

def setTask (w : LockWorld) (id : ℕ) (p : Option Point) : LockWorld :=
  { w with tasks := Function.update w.tasks id p }

/-- The section of a call that holds the lock. -/
def enter (cfg : LockConfig) (w : LockWorld) (id : ℕ) (answer : LockAnswer) (p : Point) : LockWorld :=
  match critical cfg w answer p with
  | (.done, filled) => { w.setTask id none with filledByOrder := filled, lock := w.lock.release }
  | (.goto p', filled) => { w.setTask id (some p') with filledByOrder := filled, lock := w.lock.release }
  | (.nested p', filled) => { w.setTask id (some p') with filledByOrder := filled, lock := (w.lock.acquire id).2 }

/-- A step of a call that does not need the lock. -/
def leave (cfg : LockConfig) (w : LockWorld) (id : ℕ) (answer : LockAnswer) (p : Point) : LockWorld :=
  match outside cfg answer p with
  | .done => w.setTask id none
  | .goto p' => w.setTask id (some p')
  | .nested p' => w.setTask id (some p')

def resume (cfg : LockConfig) (w : LockWorld) (id : ℕ) (answer : LockAnswer) : LockWorld :=
  match w.tasks id with
  | none => w
  | some p =>
    if id ∈ w.lock.waiters then w
    else if w.lock.holder = some id then w.enter cfg id answer p
    else if wants w.connected p then
      match w.lock.acquire id with
      | (true, lock) => { w with lock := lock }.enter cfg id answer p
      | (false, lock) => { w with lock := lock }
    else w.leave cfg id answer p

def spawn (w : LockWorld) (p : Point) : LockWorld := { w.setTask w.nextId (some p) with nextId := w.nextId + 1 }

def step (cfg : LockConfig) (w : LockWorld) : LockEvent → LockWorld
  | .onFillEvent e => w.spawn (.fillCheck e)
  | .onStartup => w.spawn .startup
  | .computeSnapshot => w.spawn (.listOpen false)
  | .snapshotOnce => w.spawn (.listOpen true)
  | .emergencyClose => w.spawn .persist
  | .connect => { w with connected := true }
  | .close => { w with connected := false }
  | .resume id answer => w.resume cfg id answer

end LockWorld

end MikoV2.Execution
