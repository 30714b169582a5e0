import MikoV2.Execution.OrderManager
import MikoV2.Writer.Calls

/-!
# Fill events on the writer's database

`on_fill_event` up to the first call that waits for the exchange, with the rows and payloads of the writer as they
are. An event that is no flip runs to its end; a flip stops before `emergency_close`.

* `FillMemory` : what the manager remembers; `attempts`, `openFirst`, `onFillEvent` : the source's function.
-/

namespace MikoV2.Execution
open Transactions Writer

/-- A call of `on_fill_event`, and how the calls that it makes of the writer go. -/
structure FillCall where
  orderId : String
  fillQty : ℚ
  fillPrice : ℚ
  positionId : String
  /-- `get_version` and `update_position_versioned` in each round -/
  attempts : ℕ → CallScript × CallScript := fun _ => ({}, {})
  opening : CallScript := {}

/-- The memory of the order manager. -/
structure FillMemory where
  filledByOrder : String → Option ℚ
  positionByOrder : String → Option String
  positionOpened : String → Bool
  positionSide : String → Option String
  positionSymbol : String → Option String
  positionUniverse : String → Option String
  positionWhaleTrust : String → Option ℤ

namespace FillMemory

def fresh : FillMemory :=
  ⟨fun _ => none, fun _ => none, fun _ => false, fun _ => none, fun _ => none, fun _ => none, fun _ => none⟩

def existing (m : FillMemory) (orderId : String) : ℚ := (m.filledByOrder orderId).getD 0

/-- One round of the retry loop; `false` when it raises. -/
def attempt (e : FillCall) (a : CallScript × CallScript) (c : Conn Db) : Bool × Conn Db :=
  match getVersion a.1 e.positionId c with
  | none => (false, c)
  | some version =>
    match updatePositionVersioned a.2 e.positionId e.fillPrice e.fillPrice e.fillPrice (version + 1) c with
    | (none, c') => (false, c')
    | (some _, c') => (true, c')

/-- The retry loop; `false` when every round raises. -/
def attempts (e : FillCall) : List (CallScript × CallScript) → Conn Db → Bool × Conn Db
  | [], c => (false, c)
  | a :: as, c => match attempt e a c with
    | (true, c') => (true, c')
    | (false, c') => attempts e as c'

/-- The payload of `open_position` on the first fill of a position. -/
def firstPayload (m : FillMemory) (e : FillCall) : Payload :=
  Payload.ofList [
    ("position_id", .text e.positionId),
    ("symbol", .text ((m.positionSymbol e.positionId).getD "UNKNOWN")),
    ("side", .text ((m.positionSide e.positionId).getD "LONG")),
    ("opened_at_ms", .num e.opening.nowMs),
    ("avg", .num e.fillPrice),
    ("qty_open", .num |e.fillQty|),
    ("qty_remaining", .num |e.fillQty|),
    ("original_planned_entry", .num e.fillPrice),
    ("original_tp", .num e.fillPrice),
    ("original_sl", .num e.fillPrice),
    ("current_tp_shifted", .num e.fillPrice),
    ("current_sl_shifted", .num e.fillPrice),
    ("whale_trust_score", .num ((m.positionWhaleTrust e.positionId).getD 0)),
    ("universe_status", .text ((m.positionUniverse e.positionId).getD "UNKNOWN")),
    ("version", .num 0)]

/-- Insert the row of the position unless the manager has done so. -/
def openFirst (m : FillMemory) (e : FillCall) (c : Conn Db) : FillMemory × Conn Db :=
  if m.positionOpened e.positionId then (m, c)
  else match openPosition e.opening (m.firstPayload e) c with
    | (true, c') => ({ m with positionOpened := Function.update m.positionOpened e.positionId true }, c')
    | (false, c') => (m, c')

/-- `on_fill_event` until it waits for the exchange; `true` when it does, in a flip. -/
def onFillEvent (cfg : OrderManagerConfig) (e : FillCall) (w : FillMemory × Conn Db) : Bool × FillMemory × Conn Db :=
  match OrderManager.check cfg (w.1.existing e.orderId) e.fillQty with
  | some .flip => (true, w)
  | some _ => (false, w)
  | none => match attempts e ((List.range cfg.maxRetry).map e.attempts) w.2 with
    | (false, c) => (false, w.1, c)
    | (true, c) =>
      let m := { w.1 with
        filledByOrder := Function.update w.1.filledByOrder e.orderId
          (some (OrderManager.newFill (w.1.existing e.orderId) e.fillQty))
        positionByOrder := Function.update w.1.positionByOrder e.orderId (some e.positionId) }
      (false, m.openFirst e c)

end FillMemory

end MikoV2.Execution
