import MikoV2.Lib.Runs
import MikoV2.Observation.State
import MikoV2.Paper.Manager

/-!
# The observation in `ShadowRunner`

What the runner does with the observation row and what it lets the paper manager do: start-up, the head of
`_micro_trigger_loop`, entries, the shutdown of `run`. Manager and row share one connection. The operator
writes the row from a process of his own, at any time.

* `pollObservationStop`, `checkAutoFinalize`, `handleMicroTriggerEntry` : one iteration of the loop, in parts;
* `syncObservationStateOnStartup`, `startup`, `shutdown` : the two ends of a process;
* `step` : processes one after the other on one file, each ended by `shutdown` or killed.
-/

namespace MikoV2.Observation
open PaperMath Store Sqlite
open Paper (Env Feed)

inductive Announcement
  | OBSERVATION_STOPPED
  | OBSERVATION_RESUMED
  | OBSERVATION_COMPLETED
deriving DecidableEq, Repr

def Announcement.text : Announcement → String
  | OBSERVATION_STOPPED => "OBSERVATION_STOPPED"
  | OBSERVATION_RESUMED => "OBSERVATION_RESUMED"
  | OBSERVATION_COMPLETED => "OBSERVATION_COMPLETED"

/-- The runner's process, if one is `running`, and its file. `emitted` records the announcements over all
processes, `awaitingOperator` whether the observation is finalised and the operator has not resumed it since. -/
structure World where
  paper : Paper.World
  running : Bool := false
  observationStopped : Bool := false
  autoFinalized : Bool := false
  emitted : List (Announcement × ℤ) := []
  awaitingOperator : Bool := false

section Runner
variable (env : Env)

/-- `try: update_state(conn, **fields)`, the exception logged. -/
def update (fields : ObservationState → ObservationState) (w : World) : World :=
  { w with paper.conn := (updateState env.faults fields w.paper.conn).2 }

def emit (event : Announcement) (tsMs : ℤ) (w : World) : World := { w with emitted := w.emitted ++ [(event, tsMs)] }

/-! ## The loop -/

/-- The announcement comes before the write. -/
def emitObservationTransition (stopped : Bool) (nowMs : ℤ) (w : World) : World :=
  let event : Announcement := if stopped then .OBSERVATION_STOPPED else .OBSERVATION_RESUMED
  update env (fun o => { o with lastTransitionMs := nowMs, lastTransitionReason := event.text }) (emit event nowMs w)

def pollObservationStop (nowMs : ℤ) (w : World) : World :=
  match pollStopFlag env.faults w.paper.conn with
  | (none, conn) => { w with paper.conn := conn }
  | (some newVal, conn) =>
    let prev := w.observationStopped
    let w := { w with paper.conn := conn, observationStopped := newVal }
    if prev = newVal then w else emitObservationTransition env newVal nowMs w

def DAY_MS : ℤ := 86400000

/-- The fields of the completion write. -/
def completed (nowMs : ℤ) (o : ObservationState) : ObservationState :=
  { o with
    observationStop := true
    autoFinalizeDone := true
    observationCompletedMs := nowMs
    lastTransitionMs := nowMs
    lastTransitionReason := Announcement.OBSERVATION_COMPLETED.text }

/-- The end of the observation: both flags first, then the row, whether or not the write returns. -/
def autoFinalize (nowMs : ℤ) (lastPrices : String → Option ℚ) (w : World) : World :=
  let w := update env (completed nowMs) { w with observationStopped := true, autoFinalized := true }
  let w := { w with paper := Paper.finalize env nowMs lastPrices w.paper, awaitingOperator := true }
  emit .OBSERVATION_COMPLETED nowMs w

def checkAutoFinalize (nowMs : ℤ) (lastPrices : String → Option ℚ) (w : World) : World :=
  if w.autoFinalized then w
  else match loadState env.faults w.paper.conn with
    | (none, conn) => { w with paper.conn := conn }
    | (some st, conn) =>
      let w := { w with paper.conn := conn }
      if st.autoFinalizeDone then { w with autoFinalized := true }
      else if st.observationStartedAtMs ≤ 0 then update env (fun o => { o with observationStartedAtMs := nowMs }) w
      else if nowMs - st.observationStartedAtMs < st.targetDays * DAY_MS then w
      else autoFinalize env nowMs lastPrices w

def handleMicroTriggerEntry (symbol : String) (direction : Direction) (price : ℚ) (tsMs monoMs : ℤ) (w : World) :
    World :=
  if w.observationStopped then w
  else { w with paper := (Paper.onEntry env symbol direction tsMs (some price) monoMs w.paper).2 }

/-! ## The ends of a process -/

def syncObservationStateOnStartup (nowMs : ℤ) (w : World) : World :=
  match loadState env.faults w.paper.conn with
  | (none, conn) => { w with paper.conn := conn }
  | (some st, conn) =>
    update env (fun o => { o with cleanShutdownMarker := .unclean, cleanShutdownMarkerMs := nowMs })
      { w with
        paper.conn := conn
        observationStopped := st.observationStop
        autoFinalized := st.autoFinalizeDone }

/-- A new `ShadowRunner`, its `run` up to the loops. -/
def startup (nowMs : ℤ) (w : World) : World :=
  let w := syncObservationStateOnStartup env nowMs
    { w with paper := Paper.crash env w.paper, running := true, observationStopped := false, autoFinalized := false }
  { w with paper := (Paper.onStartup env w.paper).2 }

def markCleanShutdown (nowMs : ℤ) (w : World) : World :=
  update env (fun o => { o with cleanShutdownMarker := .clean, cleanShutdownMarkerMs := nowMs }) w

/-- The connection closes without a commit. -/
def ended (w : World) : World := { w with paper.conn := w.paper.conn.reopen, running := false }

/-- The `finally` of `run` up to the close of the connection. -/
def closeOut (cleanExit : Bool) (markMs nowMs : ℤ) (lastPrices : String → Option ℚ) (w : World) : World :=
  let w := if cleanExit then markCleanShutdown env markMs w else w
  if w.autoFinalized then w else { w with paper := Paper.finalize env nowMs lastPrices w.paper }

/-- The end of `run`; with `cleanExit` it returns, else it raises. -/
def shutdown (cleanExit : Bool) (markMs nowMs : ℤ) (lastPrices : String → Option ℚ) (w : World) : World :=
  ended (closeOut env cleanExit markMs nowMs lastPrices w)

/-! ## Runs -/

/-- What happens while a process runs. -/
inductive Live
  | poll (nowMs : ℤ)
  | check (nowMs : ℤ) (lastPrices : String → Option ℚ)
  | entry (symbol : String) (direction : Direction) (price : ℚ) (tsMs monoMs : ℤ)
  | feed (f : Feed)
  | shutdown (cleanExit : Bool) (markMs nowMs : ℤ) (lastPrices : String → Option ℚ)
  | kill

inductive Event
  | start (nowMs : ℤ)
  | operator (value : Bool)
  | live (l : Live)

def liveStep (w : World) : Live → World
  | .poll nowMs => pollObservationStop env nowMs w
  | .check nowMs lastPrices => checkAutoFinalize env nowMs lastPrices w
  | .entry symbol direction price tsMs monoMs => handleMicroTriggerEntry env symbol direction price tsMs monoMs w
  | .feed f => { w with paper := Paper.step env w.paper f.action }
  | .shutdown cleanExit markMs nowMs lastPrices => shutdown env cleanExit markMs nowMs lastPrices w
  | .kill => ended w

/-- The operator's write; one of 0 that is not refused resumes the observation. -/
def operator (value : Bool) (w : World) : World :=
  { w with
    paper.conn := setStopFlag value w.paper.conn
    awaitingOperator := w.awaitingOperator && (value || decide (w.paper.conn.view ≠ w.paper.conn.disk)) }

def step (w : World) : Event → World
  | .start nowMs => if w.running then w else startup env nowMs w
  | .operator value => operator value w
  | .live l => if w.running then liveStep env w l else w

/-- No process yet, the schema just created. -/
def fresh : World := { paper := Paper.fresh env }

end Runner

end MikoV2.Observation
