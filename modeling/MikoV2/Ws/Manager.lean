import MikoV2.DataLayer.L2Buffer
import MikoV2.DataLayer.Seq

/-!
# `WSManager` and `SnapshotFetcher`

The tasks of the event loop meet only where a `fetch_and_apply` waits for the token bucket or the network:
the validator's locks are never contended, so `connect`, `handle_message` and what follows a fetch each run
without a suspension. A call that reaches `fetch_and_apply` is therefore split in two, its start, which
leaves it pending, and its end, and every interleaving is a list of events.

* `connect`, `disconnect`, `handleMessage`, `onSnapshot`, `resync` : the methods, up to a pending fetch;
* `fetchAndApply`, `fetchDone` : the end of a pending fetch, with what the network answered;
* `Effect` : what happened, newest first in `hist`; `step` : one event.
-/

namespace MikoV2.Ws
open DataLayer

/-- A depth message; absent keys are `none`. -/
structure WsMsg where
  seq : Option ℤ := none
  U : Option ℤ := none
  u : Option ℤ := none
  diffs : List Diff := []
deriving DecidableEq

def WsMsg.seqOrZero (msg : WsMsg) : ℤ := msg.seq.getD 0

/-- `msg.get("U", msg.get("seq", 0))`. -/
def WsMsg.firstU (msg : WsMsg) : ℤ := msg.U.getD msg.seqOrZero

/-- `msg.get("u", msg.get("seq", 0))`. -/
def WsMsg.finalU (msg : WsMsg) : ℤ := msg.u.getD msg.seqOrZero

abbrev Book := L2Book WsMsg

abbrev Entry := Queued WsMsg

/-- A `fetch_and_apply` that has started and not ended, and the epoch of its symbol when it started. -/
structure Fetch where
  symbol : String
  startEpoch : Option ℕ
deriving DecidableEq

/-- What a fetch meets: the token bucket refuses or raises, the request times out or raises, or a snapshot. -/
inductive Outcome
  | refused
  | failed
  | fetched (snapshot : Snapshot)

/-- `fetch`. -/
def Outcome.snapshot : Outcome → Option Snapshot
  | .refused => none
  | .failed => none
  | .fetched snapshot => some snapshot

/-- How an accepted message fared. -/
inductive Applied
  | returned (applied : Bool)
  | raised
  | diverged
  | noBook
deriving DecidableEq

inductive Effect
  | connected (symbol : String) (epoch : ℕ)
  | queued (symbol : String) (entry : Entry)
  | validated (symbol : String) (msg : WsMsg) (result : SeqResult)
  | batch (symbol : String) (msg : WsMsg) (applied : Applied)
  | installed (symbol : String) (seq : ℤ) (owed : List Entry)
  | fetched (fetch : Fetch) (result : Bool)
deriving DecidableEq

/-- The manager and the objects it shares; `pending` and `hist` are the event loop's and the reader's. A
batch that never ends blocks the loop for good: `hung`. -/
structure World where
  tasks : String → Bool := fun _ => false
  currentEpoch : String → Option ℕ := fun _ => none
  synced : String → Bool := fun _ => false
  seqStates : SeqStates := fun _ => none
  books : String → Option Book := fun _ => none
  pending : List Fetch := []
  hung : Bool := false
  hist : List Effect := []

/-! ## Connections -/

def connect (symbol : String) (w : World) : World :=
  if w.tasks symbol then w
  else
    let epoch := (w.currentEpoch symbol).getD 0 + 1
    { w with
      tasks := Function.update w.tasks symbol true
      currentEpoch := Function.update w.currentEpoch symbol (some epoch)
      synced := Function.update w.synced symbol false
      seqStates := setEpoch w.seqStates symbol epoch
      books := Function.update w.books symbol ((w.books symbol).map fun b => { b with preSyncQueue := [] })
      hist := .connected symbol epoch :: w.hist }

/-- Also the end of a `_ws_loop` task, whose callback drops it from `_ws_tasks`. -/
def disconnect (symbol : String) (w : World) : World := { w with tasks := Function.update w.tasks symbol false }

/-! ## Snapshots -/

/-- The part of `on_snapshot` before the fetch. -/
def onSnapshot (symbol : String) (w : World) : World :=
  { w with pending := w.pending ++ [⟨symbol, w.currentEpoch symbol⟩] }

/-- The part of `resync` before the fetch. -/
def resync (symbol : String) (w : World) : World :=
  onSnapshot symbol { w with synced := Function.update w.synced symbol false }

/-- `fetch_and_apply` from the answer on: its result and the books after it. -/
def fetchAndApply (books : String → Option Book) (symbol : String) (outcome : Outcome) :
    Bool × (String → Option Book) :=
  match outcome.snapshot with
  | none => (false, books)
  | some snapshot =>
    let (ok, book) := DataLayer.onSnapshot ((books symbol).getD {}) snapshot
    (ok, Function.update books symbol (some book))

/-- The queued updates of the current epoch that are newer than the snapshot. -/
def owed (w : World) (symbol : String) (seq : ℤ) : List Entry :=
  match w.books symbol with
  | none => []
  | some book => book.preSyncQueue.filter fun d => decide (seq < d.seq) && decide (some d.epoch = w.currentEpoch symbol)

/-- The sequence number of the snapshot that the answer installs, if it installs one. -/
def Outcome.installs (outcome : Outcome) : Option ℤ :=
  match outcome.snapshot with
  | some snapshot => if snapshot.wellFormed then snapshot.seq else none
  | none => none

/-- The end of pending fetch `i`: neither caller looks at the result. -/
def fetchDone (i : ℕ) (outcome : Outcome) (w : World) : World :=
  match w.pending[i]? with
  | none => w
  | some f =>
    let (ok, books) := fetchAndApply w.books f.symbol outcome
    { w with
      books
      pending := w.pending.eraseIdx i
      synced := Function.update w.synced f.symbol true
      hist := .fetched f ok ::
        ((outcome.installs.toList.map fun seq => .installed f.symbol seq (owed w f.symbol seq)) ++ w.hist) }

/-- The task that waits for fetch `i` is cancelled; `except Exception` does not see it. -/
def fetchCancelled (i : ℕ) (w : World) : World := { w with pending := w.pending.eraseIdx i }

/-! ## Messages -/

def queueMessage (symbol : String) (msg : WsMsg) (epoch : ℕ) (w : World) : World :=
  match w.books symbol with
  | none => w
  | some book =>
    let entry : Entry := ⟨msg.seqOrZero, epoch, msg⟩
    { w with
      books := Function.update w.books symbol (some { book with preSyncQueue := book.preSyncQueue ++ [entry] })
      hist := .queued symbol entry :: w.hist }

/-- An accepted message goes to the book. -/
def applyMessage (symbol : String) (msg : WsMsg) (epoch : ℕ) (w : World) : World :=
  match w.books symbol with
  | none => { w with hist := .batch symbol msg .noBook :: w.hist }
  | some book =>
    match applyBatch book msg.diffs epoch with
    | .returned ok book =>
      { w with books := Function.update w.books symbol (some book), hist := .batch symbol msg (.returned ok) :: w.hist }
    | .raised book =>
      { w with books := Function.update w.books symbol (some book), hist := .batch symbol msg .raised :: w.hist }
    | .diverged => { w with hung := true, hist := .batch symbol msg .diverged :: w.hist }

def handleMessage (mode : SeqMode) (symbol : String) (msg : WsMsg) (epoch : ℕ) (w : World) : World :=
  if some epoch ≠ w.currentEpoch symbol then w
  else if w.synced symbol = false then queueMessage symbol msg epoch w
  else
    let (result, seqStates) := validate mode w.seqStates symbol epoch msg.firstU msg.finalU
    let w := { w with seqStates, hist := .validated symbol msg result :: w.hist }
    if result.needsResync then resync symbol w
    else if result.isValid = false then w
    else applyMessage symbol msg epoch w

/-! ## Events -/

inductive Event
  | connect (symbol : String)
  | disconnect (symbol : String)
  | message (symbol : String) (msg : WsMsg) (epoch : ℕ)
  | onSnapshot (symbol : String)
  | resync (symbol : String)
  | fetchDone (i : ℕ) (outcome : Outcome)
  | fetchCancelled (i : ℕ)

def react (mode : SeqMode) (w : World) : Event → World
  | .connect symbol => connect symbol w
  | .disconnect symbol => disconnect symbol w
  | .message symbol msg epoch => handleMessage mode symbol msg epoch w
  | .onSnapshot symbol => onSnapshot symbol w
  | .resync symbol => resync symbol w
  | .fetchDone i outcome => fetchDone i outcome w
  | .fetchCancelled i => fetchCancelled i w

/-- One event; nothing runs any more once the loop is blocked. -/
def step (mode : SeqMode) (w : World) (e : Event) : World := if w.hung then w else react mode w e

/-- A new manager; some books may have been created before it. -/
def start (created : String → Bool) : World :=
  { books := fun symbol => if created symbol then some {} else none }

/-- What the stub of `fetch` returns. -/
def stubSnapshot : Snapshot := {}

end MikoV2.Ws
