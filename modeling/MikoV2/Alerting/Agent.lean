import Mathlib.Algebra.Order.Ring.Rat
import MikoV2.Alerting.Store
import MikoV2.Lib.CircuitBreaker
import MikoV2.Lib.Runs

/-!
# The alert agent

`emit` writes an alert and queues it; a drain takes what is queued and delivers it. A drain runs until it starts a
delivery, and goes on when the delivery has ended; meanwhile other tasks emit, and drain on their own. One drain at a
time belongs to the loop, any number to `send_direct`.

* `emit`, `drainOnce`, `goOn` : the source's functions, from one suspension to the next;
* `Job` : what a drain is about to deliver; `Delivery` : a delivery in flight;
* `AlertWorld.step` : a call, the end of a delivery, or `stop`.

The statements of the database succeed.
-/

namespace MikoV2.Alerting
open Circuit

/-- What `emit` reads of a payload. -/
structure AlertPayload where
  symbol : Option String := none
  reason : Option String := none
  tsMs : Option ℤ := none

structure Queued where
  id : ℕ
  event : AlertEvent

structure Buffered where
  id : ℕ
  event : AlertEvent
  count : ℕ

structure DedupEntry where
  id : ℕ
  lastMono : ℚ
  count : ℕ

structure AlertAgent where
  db : AlertDb
  criticalQueue : List Queued
  warningBuffer : List Buffered
  batchStartMono : Option ℚ
  /-- by symbol and event type -/
  dedupIndex : Option String × String → Option DedupEntry
  breaker : Breaker ℚ
  halfOpenInFlight : Bool
  stopped : Bool

/-- The clock readings of `emit`. -/
structure EmitClock where
  /-- `int(time.time() * 1000)` -/
  nowMs : ℤ := 0
  /-- for the age of the last merge -/
  dedup : ℚ := 0
  /-- of the new entry of the index -/
  index : ℚ := 0
  batchStart : ℚ := 0

/-- The clock readings of a drain, up to the delivery that it starts. -/
structure DrainClock where
  breaker : ℚ := 0
  ready : ℚ := 0
  flush : ℚ := 0
  /-- when the delivery starts: the source does not look -/
  start : ℚ := 0

namespace AlertAgent

/-- The agent after `start()`, on a table that it finds. -/
def start (cfg : AlertConfig) (nowMs : ℤ) (db : AlertDb) : AlertAgent where
  db := db.expiredSweep (nowMs - cfg.pendingTtlS * 1000)
  criticalQueue := []
  warningBuffer := []
  batchStartMono := none
  dedupIndex := fun _ => none
  breaker := ⟨.closed, 0, 0⟩
  halfOpenInFlight := false
  stopped := false

/-! ## Emitting -/

/-- `int(payload.get("ts_ms") or ...)`; `0` counts as missing. -/
def eventTsMs (p : AlertPayload) (nowMs : ℤ) : ℤ := match p.tsMs with
  | some t => if t = 0 then nowMs else t
  | none => nowMs

def toEvent (eventType : String) (severity : Severity) (p : AlertPayload) (nowMs : ℤ) : AlertEvent :=
  ⟨eventType, severity, p.symbol, eventTsMs p nowMs, p.reason⟩

/-- One more for the item of the id, in the buffer; with its new count. -/
def bump (id : ℕ) : List Buffered → Option (ℕ × List Buffered)
  | [] => none
  | b :: bs =>
    if b.id = id then some (b.count + 1, { b with count := b.count + 1 } :: bs)
    else (bump id bs).map fun r => (r.1, b :: r.2)

/-- `_try_dedup_merge` -/
def tryDedupMerge (cfg : AlertConfig) (eventType : String) (p : AlertPayload) (clk : EmitClock) (a : AlertAgent) :
    Option AlertAgent :=
  match a.dedupIndex (p.symbol, eventType) with
  | none => none
  | some entry =>
    if cfg.dedupWindowS < clk.dedup - entry.lastMono then none
    else match bump entry.id a.warningBuffer with
      | none => none
      | some (count, buffer) => some { a with
          warningBuffer := buffer
          dedupIndex := Function.update a.dedupIndex (p.symbol, eventType) (some ⟨entry.id, clk.index, count⟩) }

def emitInfo (e : AlertEvent) (a : AlertAgent) : AlertAgent :=
  { a with db := (a.db.insertEvent e).updateStatus a.db.nextId .delivered 0 none }

def emitCritical (e : AlertEvent) (a : AlertAgent) : AlertAgent :=
  { a with db := a.db.insertEvent e, criticalQueue := a.criticalQueue ++ [⟨a.db.nextId, e⟩] }

def emitWarning (e : AlertEvent) (clk : EmitClock) (a : AlertAgent) : AlertAgent :=
  { a with
    db := a.db.insertEvent e
    warningBuffer := a.warningBuffer ++ [⟨a.db.nextId, e, 1⟩]
    dedupIndex := Function.update a.dedupIndex (e.symbol, e.eventType) (some ⟨a.db.nextId, clk.index, 1⟩)
    batchStartMono := a.batchStartMono <|> some clk.batchStart }

def emit (cfg : AlertConfig) (eventType : String) (p : AlertPayload) (clk : EmitClock) (a : AlertAgent) : AlertAgent :=
  let severity := getSeverity eventType p.reason
  let e := toEvent eventType severity p clk.nowMs
  match severity with
  | .info => a.emitInfo e
  | .critical => a.emitCritical e
  | .warning => match a.tryDedupMerge cfg eventType p clk with
    | some merged => merged
    | none => a.emitWarning e clk

/-! ## Draining -/

inductive JobKind where
  | critical
  | batch
  | probe
  deriving DecidableEq

end AlertAgent

open AlertAgent in
/-- What a drain is about to deliver: the rows that it has claimed, and what it renders. -/
structure Job where
  kind : JobKind
  ids : List ℕ
  items : List (AlertEvent × ℕ)

namespace AlertAgent

/-- The first of the queue that can be claimed, what stays queued, and the table. -/
def popCritical : List Queued → AlertDb → Option Queued × List Queued × AlertDb
  | [], db => (none, [], db)
  | q :: qs, db => match db.optimisticSending q.id with
    | (true, db') => (some q, qs, db')
    | (false, db') => popCritical qs db'

/-- The ids that can be claimed, and the table. -/
def claimAll : List ℕ → AlertDb → List ℕ × AlertDb
  | [], db => ([], db)
  | id :: ids, db => match db.optimisticSending id with
    | (true, db') => let r := claimAll ids db'; (id :: r.1, r.2)
    | (false, db') => claimAll ids db'

/-- The buffer is full, or old enough. -/
def BufferDue (cfg : AlertConfig) (now : ℚ) (a : AlertAgent) : Prop :=
  a.warningBuffer ≠ [] ∧
    (cfg.batchSize ≤ a.warningBuffer.length ∨ ∃ since ∈ a.batchStartMono, (cfg.batchWindowS : ℚ) ≤ now - since)

instance (cfg : AlertConfig) (now : ℚ) : DecidablePred (BufferDue cfg now) := fun a => by
  unfold BufferDue
  cases a.batchStartMono with
  | none => exact decidable_of_iff (a.warningBuffer ≠ [] ∧ cfg.batchSize ≤ a.warningBuffer.length) (by simp)
  | some since =>
    exact decidable_of_iff (a.warningBuffer ≠ [] ∧
      (cfg.batchSize ≤ a.warningBuffer.length ∨ (cfg.batchWindowS : ℚ) ≤ now - since)) (by simp)

/-- `_flush_warning_batch` -/
def flushWarningBatch (cfg : AlertConfig) (clk : DrainClock) (a : AlertAgent) : AlertAgent × Option Job :=
  let batch := a.warningBuffer.take cfg.batchSize
  let rest := a.warningBuffer.drop cfg.batchSize
  let claimed := claimAll (batch.map Buffered.id) a.db
  ({ a with
      db := claimed.2
      warningBuffer := rest
      batchStartMono := if rest = [] then none else some clk.flush },
    -- the batch is rendered with the items that could not be claimed
    if claimed.1 = [] then none else some ⟨.batch, claimed.1, batch.map fun b => (b.event, b.count)⟩)

/-- The queue, then the buffer when it is due. -/
def drainClosed (cfg : AlertConfig) (clk : DrainClock) (a : AlertAgent) : AlertAgent × Option Job :=
  match popCritical a.criticalQueue a.db with
  | (some q, queue, db) => ({ a with criticalQueue := queue, db := db }, some ⟨.critical, [q.id], [(q.event, 1)]⟩)
  | (none, queue, db) =>
    let a' := { a with criticalQueue := queue, db := db }
    if a'.BufferDue cfg clk.ready then a'.flushWarningBatch cfg clk else (a', none)

/-- `_half_open_test` -/
def halfOpenTest (a : AlertAgent) : AlertAgent × Option Job := match a.db.oldestPendingCritical with
  | none => (a, none)
  | some r => match a.db.optimisticSending r.id with
    | (false, _) => (a, none)
    | (true, db) => ({ a with db := db, halfOpenInFlight := true }, some ⟨.probe, [r.id], [(r.toEvent, 1)]⟩)

def drainOnce (cfg : AlertConfig) (clk : DrainClock) (a : AlertAgent) : AlertAgent × Option Job :=
  if a.breaker.Holds clk.breaker then (a, none)
  else
    let a' := if a.breaker.mode = .opened then { a with breaker := a.breaker.poll clk.breaker, halfOpenInFlight := false }
      else a
    if a'.breaker.mode = .halfOpen then a'.halfOpenTest else a'.drainClosed cfg clk

/-! ## The end of a delivery -/

def updateAll (status : DeliveryStatus) (attemptsDelta : ℕ) (lastError : Option String) (ids : List ℕ) (db : AlertDb) :
    AlertDb :=
  ids.foldl (fun db id => db.updateStatus id status attemptsDelta lastError) db

def onSuccess (a : AlertAgent) : AlertAgent :=
  { a with
    breaker := a.breaker.succeed
    halfOpenInFlight := if a.breaker.mode = .closed then a.halfOpenInFlight else false }

def onFinalFail (cfg : AlertConfig) (now : ℚ) (a : AlertAgent) : AlertAgent :=
  { a with
    breaker := a.breaker.fail cfg.breakerFailThreshold (now + cfg.breakerOpenS)
    halfOpenInFlight := if a.breaker.Trips cfg.breakerFailThreshold then false else a.halfOpenInFlight }

/-- `_send_alert` and `_send_alert_batch`, once the delivery has ended. -/
def settle (cfg : AlertConfig) (now : ℚ) (ids : List ℕ) (a : AlertAgent) : AttemptEnd → AlertAgent
  | .sent => onSuccess { a with db := updateAll .delivered 0 none ids a.db }
  | .failed error => onFinalFail cfg now { a with db := updateAll .failed cfg.retryMax error ids a.db }
  | .raised => a

/-- The drain after its delivery: only one of the queue goes on with the queue. -/
def goOn (cfg : AlertConfig) (clk : DrainClock) (kind : JobKind) (result : AttemptEnd) (a : AlertAgent) :
    AlertAgent × Option Job :=
  match kind with
  | .critical => if result = .raised then (a, none) else a.drainClosed cfg clk
  | .batch => (a, none)
  | .probe => ({ a with halfOpenInFlight := false }, none)

end AlertAgent

/-! ## The world -/

/-- Whose drain it is. -/
inductive Owner where
  | loop
  | direct
  deriving DecidableEq

/-- A delivery in flight: with its drain, and the breaker and the time at its start. -/
structure Delivery where
  owner : Owner
  job : Job
  startedIn : Mode
  startedAt : ℚ

structure AlertWorld where
  agent : AlertAgent
  deliveries : ℕ → Option Delivery
  nextDelivery : ℕ
  /-- the drain of the loop waits for a delivery -/
  loopBusy : Bool
  /-- how the deliveries ended that had a final result, the last first -/
  results : List Bool
  /-- a delivery that was started half open has raised, and the breaker has not been moved since -/
  lostProbe : Bool

inductive AlertCall where
  | emit (eventType : String) (p : AlertPayload) (clk : EmitClock)
  /-- the loop wakes up -/
  | drainLoop (clk : DrainClock)
  | sendDirect (eventType : String) (p : AlertPayload) (emitClk : EmitClock) (clk : DrainClock)
  /-- a delivery ends: with the answers of its rounds, the clock of a final failure, and that of the drain -/
  | finish (i : ℕ) (answers : ℕ → RoundAnswers) (fail : ℚ) (clk : DrainClock)
  | stop

namespace AlertWorld

def start (cfg : AlertConfig) (nowMs : ℤ) (db : AlertDb) : AlertWorld :=
  ⟨AlertAgent.start cfg nowMs db, fun _ => none, 0, false, [], false⟩

/-- A drain has run: it is finished, or waits for the delivery that it has started. -/
def suspend (w : AlertWorld) (owner : Owner) (start : ℚ) (r : AlertAgent × Option Job) : AlertWorld :=
  match r with
  | (a, none) => { w with agent := a, loopBusy := if owner = .loop then false else w.loopBusy }
  | (a, some job) => { w with
      agent := a
      deliveries := Function.update w.deliveries w.nextDelivery (some ⟨owner, job, a.breaker.mode, start⟩)
      nextDelivery := w.nextDelivery + 1
      loopBusy := if owner = .loop then true else w.loopBusy }

/-- How a delivery ends; `stop` cancels that of the loop. -/
def outcome (cfg : AlertConfig) (w : AlertWorld) (d : Delivery) (answers : ℕ → RoundAnswers) : AttemptEnd :=
  if d.owner = .loop ∧ w.agent.stopped then .raised else (attempt cfg answers).2

/-- The result, where there is one, and the probe that has lost its own. -/
def note (w : AlertWorld) (d : Delivery) : AttemptEnd → AlertWorld
  | .sent => { w with results := true :: w.results, lostProbe := false }
  | .failed _ => { w with results := false :: w.results, lostProbe := false }
  | .raised => { w with lostProbe := w.lostProbe ∨ (d.startedIn = .halfOpen ∧ w.agent.breaker.mode = .halfOpen) }

def finish (cfg : AlertConfig) (w : AlertWorld) (i : ℕ) (answers : ℕ → RoundAnswers) (fail : ℚ) (clk : DrainClock) :
    AlertWorld :=
  match w.deliveries i with
  | none => w
  | some d =>
    let result := w.outcome cfg d answers
    let settled := w.agent.settle cfg fail d.job.ids result
    { w.note d result with deliveries := Function.update w.deliveries i none }.suspend d.owner clk.start
      (settled.goOn cfg clk d.job.kind result)

def step (cfg : AlertConfig) (w : AlertWorld) : AlertCall → AlertWorld
  | .emit eventType p clk => { w with agent := w.agent.emit cfg eventType p clk }
  | .drainLoop clk => if w.agent.stopped ∨ w.loopBusy then w else w.suspend .loop clk.start (w.agent.drainOnce cfg clk)
  | .sendDirect eventType p emitClk clk =>
    w.suspend .direct clk.start ((w.agent.emit cfg eventType p emitClk).drainOnce cfg clk)
  | .finish i answers fail clk => w.finish cfg i answers fail clk
  | .stop => { w with agent := { w.agent with stopped := true } }

end AlertWorld

end MikoV2.Alerting
