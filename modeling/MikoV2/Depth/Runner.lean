import MikoV2.DataLayer.L2Buffer
import MikoV2.DataLayer.Seq

/-!
# The depth path of `ShadowRunner`

What the runner, its client and its validator hold of one symbol. The tasks of the event loop meet only where
one waits for the network: `fetch_snapshot` and `fetch_commits`, and the sends of `subscribe` and `unsubscribe`.
A method that waits is split there, its rest waits in `task`, and every interleaving is a list of events.

* `onDepth` : a push; `bufferLoop`, `gapRecover`, `remainingLoop` : the loops of the bootstrap;
* `bootstrapSnapshot`, `bootstrapCommits` : `_bootstrap_symbol` after each of its two waits;
* `rotationSnapshot` : the part of `_apply_rotation` after the snapshot;
* `Ledger` : what has happened to the pushes and the book, which the runner does not keep;
* `step` : one event.
-/

namespace MikoV2.Depth
open DataLayer

/-- The payload of `push.depth`: the version when it is a number, and the rows that are two numbers. -/
structure Push where
  version : Option ℤ := none
  bids : List (Option (ℚ × ℚ)) := []
  asks : List (Option (ℚ × ℚ)) := []
deriving DecidableEq

/-- An entry of `pending`. -/
structure Entry where
  version : ℤ
  data : Push
deriving DecidableEq

/-- What `fetch_snapshot` returns. -/
structure Snapshot where
  version : ℤ
  bids : List (ℚ × ℚ) := []
  asks : List (ℚ × ℚ) := []

/-- An element of what `fetch_commits` returns. -/
structure Commit where
  version : ℤ
  bids : List (ℚ × ℚ) := []
  asks : List (ℚ × ℚ) := []

abbrev Book := L2Book Unit

/-- `current_epoch` is 1 for every symbol, and is never written again. -/
def currentEpoch : ℕ := 1

/-! ## The ledger -/

/-- How a call ends: it may raise, or never end and block the loop for good. -/
inductive Exit
  | returned
  | raised
  | hung
deriving DecidableEq, Repr

/-- A subscription that the rotation made: the pushes delivered since `ws.subscribe` returned, whether the book
is of a snapshot fetched for it, and the pushes that went to an older book. -/
structure Subscription where
  delivered : List ℤ := []
  fresh : Bool := false
  stale : List ℤ := []
deriving DecidableEq

/-- Versions, newest first: the pushes delivered, the snapshot of the book, all that was handed to the book
since, and of this the pushes and the commits that were applied. -/
structure Ledger where
  delivered : List ℤ := []
  snapshot : Option ℤ := none
  handed : List ℤ := []
  pushes : List ℤ := []
  commits : List ℤ := []
  subscription : Option Subscription := none
deriving DecidableEq

namespace Ledger

def deliver (version : ℤ) (l : Ledger) : Ledger :=
  { l with
    delivered := version :: l.delivered
    subscription := l.subscription.map fun s => { s with delivered := version :: s.delivered } }

def install (version : ℤ) (l : Ledger) : Ledger :=
  { l with
    snapshot := some version
    handed := []
    pushes := []
    commits := []
    subscription := l.subscription.map fun s => { s with fresh := true } }

def push (version : ℤ) (exit : Exit) (l : Ledger) : Ledger :=
  { l with
    handed := version :: l.handed
    pushes := if exit = .returned then version :: l.pushes else l.pushes
    subscription := l.subscription.map fun s => if s.fresh then s else { s with stale := version :: s.stale } }

def commit (version : ℤ) (exit : Exit) (l : Ledger) : Ledger :=
  { l with
    handed := version :: l.handed
    commits := if exit = .returned then version :: l.commits else l.commits }

end Ledger

/-! ## The runner -/

/-- What a coroutine is waiting for: `_bootstrap_symbol` of an initial symbol, then the rotation loop; `failed`
is a bootstrap that raised, with which the process ends. -/
inductive Task
  | starting
  | bootSnapshot
  | bootCommits (remaining : List Entry)
  | failed
  | idle
  | subscribing
  | rotationSnapshot
  | unsubscribing
deriving DecidableEq

/-- `recoveries` counts the calls of `_gap_recover` from `on_depth` that wait for the commits. -/
structure World where
  member : Bool := false
  wsSubscribed : Bool := false
  synced : Bool := false
  pending : List Entry := []
  lastApplied : ℤ := 0
  seqStates : SeqStates := fun _ => none
  book : Option Book := none
  task : Task := .idle
  recoveries : ℕ := 0
  hung : Bool := false
  ledger : Ledger := {}

/-- A row that does not convert is skipped. -/
def parseDiffs (data : Push) : List Diff :=
  (data.bids.filterMap fun row => row.map fun (price, qty) => ⟨.bid, price, qty⟩) ++
    data.asks.filterMap fun row => row.map fun (price, qty) => ⟨.ask, price, qty⟩

def commitDiffs (commit : Commit) : List Diff :=
  (commit.bids.map fun (price, qty) => ⟨.bid, price, qty⟩) ++
    commit.asks.map fun (price, qty) => ⟨.ask, price, qty⟩

/-- `apply_batch` with the book's own epoch, when there is something to apply. -/
def hand (diffs : List Diff) (book : Option Book) : Exit × Option Book :=
  match book with
  | none => (.returned, none)
  | some book =>
    if diffs = [] then (.returned, some book)
    else
      match applyBatch book diffs book.seqEpoch with
      | .returned _ book => (.returned, some book)
      | .raised book => (.raised, some book)
      | .diverged => (.hung, some book)

/-- `_apply_push`. -/
def applyPush (e : Entry) (w : World) : Exit × World :=
  let (exit, book) := hand (parseDiffs e.data) w.book
  (exit, { w with book, hung := decide (exit = .hung), ledger := w.ledger.push e.version exit })

/-- One side of `_apply_snapshot`, in the arrays of a new book. -/
def fillSide (rows : List (ℚ × ℚ)) : Side :=
  let n := min rows.length 5000
  { price := fun i => if i < n then (rows.getD i (0, 0)).1 else 0
    qty := fun i => if i < n then (rows.getD i (0, 0)).2 else 0
    len := n }

def applySnapshot (snap : Snapshot) : Book := { bids := fillSide snap.bids, asks := fillSide snap.asks }

section Runner
variable (symbol : String)

/-- What a snapshot sets on both of its ways: the book, and the version in the runner and in the validator. -/
def install (snap : Snapshot) (w : World) : World :=
  { w with
    lastApplied := snap.version
    book := some (applySnapshot snap)
    seqStates := setLastU (setEpoch w.seqStates symbol currentEpoch) symbol snap.version
    ledger := w.ledger.install snap.version }

/-! ## Pushes -/

/-- `on_depth`, up to the commits when it recovers a gap. -/
def onDepth (data : Push) (w : World) : World :=
  match data.version with
  | none => w
  | some version =>
    let w := { w with ledger := w.ledger.deliver version }
    if w.member = false then w
    else if w.synced = false then { w with pending := w.pending ++ [⟨version, data⟩] }
    else
      let (result, seqStates) := validate .MEXC w.seqStates symbol currentEpoch version (-1)
      let w := { w with seqStates }
      if result.needsResync then { w with recoveries := w.recoveries + 1 }
      else if result.isValid = false then w
      else
        match applyPush ⟨version, data⟩ w with
        | (.returned, w) => { w with lastApplied := version }
        | (_, w) => w

/-! ## Gaps -/

/-- The loop of `_gap_recover` over the commits. -/
def commitLoop : List Commit → World → Exit × World
  | [], w => (.returned, w)
  | commit :: commits, w =>
    if commit.version ≤ w.lastApplied then commitLoop commits w
    else if commit.version ≠ w.lastApplied + 1 then (.returned, w)
    else
      match w.book with
      | none => (.returned, w)
      | some book =>
        let (exit, book) := hand (commitDiffs commit) (some book)
        let w := { w with book, hung := decide (exit = .hung), ledger := w.ledger.commit commit.version exit }
        match exit with
        | .returned => commitLoop commits { w with lastApplied := commit.version }
        | exit => (exit, w)

/-- `_gap_recover` from the answer on; `none` is a request that raises. -/
def gapRecover (answer : Option (List Commit)) (w : World) : Exit × World :=
  match answer with
  | none => (.raised, w)
  | some [] => (.returned, w)
  | some commits =>
    match commitLoop commits w with
    | (.returned, w) => (.returned, { w with seqStates := setLastU w.seqStates symbol w.lastApplied })
    | (exit, w) => (exit, w)

/-- A recovery that `on_depth` waits for; what it raises is logged. -/
def recovered (answer : Option (List Commit)) (w : World) : World :=
  if w.recoveries = 0 then w
  else (gapRecover symbol answer { w with recoveries := w.recoveries - 1 }).2

/-! ## The bootstrap -/

/-- The loop over the pushes buffered so far: those that follow the snapshot are applied, the others are kept. -/
def bufferLoop : List Entry → ℤ → World → Exit × List Entry × World
  | [], _, w => (.returned, [], w)
  | e :: pending, target, w =>
    if e.version < target then bufferLoop pending target w
    else if e.version = target then
      match applyPush e w with
      | (.returned, w) => bufferLoop pending (target + 1) { w with lastApplied := e.version }
      | (exit, w) => (exit, [], w)
    else
      let (exit, remaining, w) := bufferLoop pending target w
      (exit, e :: remaining, w)

/-- The loop over the kept pushes after the recovery. -/
def remainingLoop : List Entry → World → Exit × World
  | [], w => (.returned, w)
  | e :: remaining, w =>
    if e.version ≠ w.lastApplied + 1 then remainingLoop remaining w
    else
      match applyPush e w with
      | (.returned, w) => remainingLoop remaining { w with lastApplied := e.version }
      | (exit, w) => (exit, w)

/-- The end of `_bootstrap_symbol`, or what is left of it. -/
def bootstrapEnd : Exit × World → World
  | (.returned, w) => { w with pending := [], synced := true, task := .idle }
  | (.raised, w) => { w with task := .failed }
  | (.hung, w) => w

def bootstrapSnapshot (answer : Option Snapshot) (w : World) : World :=
  match answer with
  | none => { w with task := .failed }
  | some snap =>
    match bufferLoop w.pending (snap.version + 1) (install symbol snap w) with
    | (.returned, [], w) => bootstrapEnd (.returned, w)
    | (.returned, remaining, w) => { w with task := .bootCommits remaining }
    | (exit, _, w) => bootstrapEnd (exit, w)

/-- The runner before the kept pushes are tried: a recovery that raises is taken back to the oldest of them. -/
def bridged (answer : Option (List Commit)) (remaining : List Entry) (w : World) : Exit × World :=
  match gapRecover symbol answer w, remaining with
  | (.raised, w), oldest :: _ =>
    (.returned, { w with
      seqStates := setLastU w.seqStates symbol (oldest.version - 1)
      lastApplied := oldest.version - 1 })
  | (.raised, w), [] => (.returned, w)
  | (exit, w), _ => (exit, w)

def bootstrapCommits (answer : Option (List Commit)) (remaining : List Entry) (w : World) : World :=
  match bridged symbol answer remaining w with
  | (.returned, w) => bootstrapEnd (remainingLoop remaining w)
  | (exit, w) => bootstrapEnd (exit, w)

/-! ## The rotation -/

/-- After the snapshot of a symbol that the rotation subscribed; what raises before it is logged. -/
def rotationSnapshot (answer : Option Snapshot) (w : World) : World :=
  match answer with
  | none => { w with task := .idle }
  | some snap => { install symbol snap w with member := true, synced := true, task := .idle }

/-- The end of the client's sends for `subscribe`. -/
def wsSubscribe (ok : Bool) (w : World) : World :=
  if ok then
    { w with wsSubscribed := true, task := .rotationSnapshot, ledger := { w.ledger with subscription := some {} } }
  else { w with task := .idle }

def wsUnsubscribe (ok : Bool) (w : World) : World :=
  if ok then
    { w with
      wsSubscribed := false
      member := false
      task := .idle
      ledger := { w.ledger with subscription := none } }
  else { w with task := .idle }

/-! ## Runs -/

inductive Event
  | depth (data : Push)
  | bootstrap
  | snapshot (answer : Option Snapshot)
  | commits (answer : Option (List Commit))
  | recovered (answer : Option (List Commit))
  | subscribe
  | wsSubscribe (ok : Bool)
  | unsubscribe
  | wsUnsubscribe (ok : Bool)

/-- An event happens when the runner waits for it. -/
def step (w : World) (e : Event) : World :=
  if w.hung then w
  else
    match e, w.task with
    | .depth data, _ => onDepth symbol data w
    | .recovered answer, _ => recovered symbol answer w
    | .bootstrap, .starting => { w with task := .bootSnapshot }
    | .snapshot answer, .bootSnapshot => bootstrapSnapshot symbol answer w
    | .commits answer, .bootCommits remaining => bootstrapCommits symbol answer remaining w
    | .subscribe, .idle => if w.wsSubscribed then w else { w with task := .subscribing }
    | .wsSubscribe ok, .subscribing => wsSubscribe ok w
    | .snapshot answer, .rotationSnapshot => rotationSnapshot symbol answer w
    | .unsubscribe, .idle => if w.wsSubscribed then { w with task := .unsubscribing } else w
    | .wsUnsubscribe ok, .unsubscribing => wsUnsubscribe ok w
    | _, _ => w

end Runner

/-- A runner just connected, with the symbol among its initial ones. -/
def started : World := { member := true, wsSubscribed := true, task := .starting }

/-- A runner whose initial symbols do not include this one. -/
def absent : World := {}

end MikoV2.Depth
