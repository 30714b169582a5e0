import MikoV2.Paper.Manager
import MikoV2.Universe.Service

/-!
# `ShadowRunner` with rotation

What the rotation of subscriptions and the paper positions share: `symbols`, which the callbacks filter by,
the service's and the client's own sets, and the paper manager. The rotation loop waits at every call of the
client, so scans, visits of the micro trigger loop and deals may come between any two of them.

* `rotateUniverse` : a round of `_ws_rotation_loop` up to its first call of the client;
* `applyTask` : one symbol of `_apply_rotation`, whatever its calls return;
* `visit` : an entry at a symbol of the list the micro trigger loop took when its round began;
* `step` : processes one after the other on one file, each with its own initial symbols.
-/

namespace MikoV2.Rotation
open PaperMath Store Universe
open Paper (Env Feed)
open Py (PySet)

/-- What is left of `_apply_rotation`. -/
inductive Task
  | subscribe (symbol : String)
  | unsubscribe (symbol : String)
deriving DecidableEq, Repr

/-- How the calls for one symbol go: the client's send raises, the snapshot after it raises, all return. -/
inductive Outcome
  | sendFails
  | snapshotFails
  | returns
deriving DecidableEq, Repr

/-- The runner's process, if one is `running`, and the paper manager with its file. -/
structure World where
  paper : Paper.World
  running : Bool := false
  symbols : PySet String := .empty
  «universe» : UniverseService := {}
  wsSubscribed : PySet String := .empty
  wsRunning : Bool := false
  latestScan : Option ScanResult := none
  todo : List Task := []
  visiting : List String := []

section Runner
variable (env : Env) (cfg : Config)

/-! ## Rotation -/

/-- A round of `_ws_rotation_loop`; the next one begins when the tasks of the last are done. -/
def rotateUniverse (nowMs : ℤ) (w : World) : World :=
  match w.todo, w.latestScan with
  | [], some scan =>
    let (decision, «universe») := applyScan cfg scan nowMs w.«universe»
    { w with
      «universe»
      todo := decision.toSubscribe.map .subscribe ++ decision.toUnsubscribe.map .unsubscribe }
  | _, _ => w

/-- The client's `subscribe`, the snapshot, and the symbol's state. -/
def subscribe (symbol : String) (outcome : Outcome) (w : World) : World :=
  if w.wsRunning = false ∨ symbol ∈ w.wsSubscribed then w
  else match outcome with
    | .sendFails => w
    | .snapshotFails => { w with wsSubscribed := w.wsSubscribed.add symbol }
    | .returns => { w with wsSubscribed := w.wsSubscribed.add symbol, symbols := w.symbols.add symbol }

def unsubscribe (symbol : String) (outcome : Outcome) (w : World) : World :=
  if w.wsRunning = false ∨ symbol ∉ w.wsSubscribed then w
  else match outcome with
    | .sendFails => w
    | _ => { w with wsSubscribed := w.wsSubscribed.discard symbol, symbols := w.symbols.discard symbol }

def applyTask (outcome : Outcome) (w : World) : World :=
  match w.todo with
  | [] => w
  | .subscribe symbol :: todo => subscribe symbol outcome { w with todo }
  | .unsubscribe symbol :: todo => unsubscribe symbol outcome { w with todo }

/-! ## The micro trigger loop and the deals -/

/-- `for symbol in sorted(self.symbols)`: the list is taken once. -/
def beginRound (w : World) : World := { w with visiting := w.symbols.sorted }

/-- An entry at a symbol of the round; the symbols before it are done. -/
def visit (symbol : String) (direction : Direction) (price : ℚ) (tsMs monoMs : ℤ) (w : World) : World :=
  if symbol ∈ w.visiting then
    { w with
      visiting := (w.visiting.dropWhile (· ≠ symbol)).tail
      paper := (Paper.onEntry env symbol direction tsMs (some price) monoMs w.paper).2 }
  else w

/-- `on_deal` ignores a symbol outside `symbols`, so no bar of it is finished. -/
def accepts (w : World) : Feed → Bool
  | .ohlcv sample _ => sample.symbol ∈ w.symbols
  | _ => true

def feed (f : Feed) (w : World) : World :=
  if accepts w f then { w with paper := Paper.step env w.paper f.action } else w

/-! ## Runs -/

/-- A new process up to the end of `_bootstrap`. -/
def startup (symbols : List String) (w : World) : World :=
  let initial := PySet.ofList symbols
  { paper := Paper.restart env w.paper
    running := true
    symbols := initial
    «universe» := seedSubscriptions cfg initial.elems (UniverseService.init cfg initial.sorted)
    wsSubscribed := initial
    wsRunning := true }

/-- What happens while a process runs. -/
inductive Live
  | scan (ranked : List String)
  | rotate (nowMs : ℤ)
  | task (outcome : Outcome)
  | wsStops
  | beginRound
  | visit (symbol : String) (direction : Direction) (price : ℚ) (tsMs monoMs : ℤ)
  | feed (f : Feed)
  | finalize (nowMs : ℤ) (lastPrices : String → Option ℚ)
  | kill

inductive Event
  | start (symbols : List String)
  | live (l : Live)

def liveStep (w : World) : Live → World
  | .scan ranked => { w with latestScan := some (scanResult w.«universe» ranked) }
  | .rotate nowMs => rotateUniverse cfg nowMs w
  | .task outcome => applyTask outcome w
  | .wsStops => { w with wsRunning := false }
  | .beginRound => beginRound w
  | .visit symbol direction price tsMs monoMs => visit env symbol direction price tsMs monoMs w
  | .feed f => feed env f w
  | .finalize nowMs lastPrices => { w with paper := Paper.finalize env nowMs lastPrices w.paper }
  | .kill => { w with running := false }

def step (w : World) : Event → World
  | .start symbols => if w.running then w else startup env cfg symbols w
  | .live l => if w.running then liveStep env cfg w l else w

/-- No process yet, the schema just created. -/
def fresh : World := { paper := Paper.fresh env }

end Runner

end MikoV2.Rotation
