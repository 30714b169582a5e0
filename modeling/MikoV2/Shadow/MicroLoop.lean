import MikoV2.Lib.Runs
import MikoV2.Backtest.SignalDetector
import MikoV2.Features.MicroTrigger
import MikoV2.Trading.PaperMath

/-!
# `ShadowRunner._micro_trigger_loop`, one symbol

The loop visits the symbols one by one and shares nothing between them but the stop flag. A visit does not
suspend before `on_entry`; bars may come between the clock reading at the head of the loop and the visit.

* `onOhlcv1s` : a finished 1 s bar goes to the detector, its signals to `_recent_signals`;
* `windowFlags` : the four flags, each with its own window, blind to direction;
* `determineDirection` : the direction, from all retained signals, `LONG` first;
* `visit` : one visit of the loop; `step` : bars, visits and quarantines in any order.
-/

namespace MikoV2.Shadow
open Backtest Features PaperMath

/-- A recorded move of the trigger: the state it moved to, the loop's clock and the signals retained then. -/
structure Move where
  state : MicroTriggerState
  nowMs : ℤ
  recent : List Signal
deriving DecidableEq

/-- A call of `on_entry`, and the moves of the trigger since it was last `IDLE`, newest first. -/
structure Entry where
  direction : Direction
  tsMs : ℤ
  lastPrice : ℚ
  setup : List Move
deriving DecidableEq

/-- What the runner holds for the symbol; `setup` and `entries` are the reader's record. -/
structure SymbolWorld where
  detector : SignalDetector := {}
  trigger : SymbolTriggerState := {}
  recent : List Signal := []
  lastMtState : MicroTriggerState := .IDLE
  lastExchangeTs : ℤ := 0
  setup : List Move := []
  entries : List Entry := []
deriving DecidableEq

/-- The clocks a visit reads and what the rest of the runner holds at that time. -/
structure Visit where
  nowMs : ℤ
  nowMono : ℚ
  lastData : ℚ
  quarantineMono : ℤ
  evalMono : ℤ
  evalWall : ℤ
  observationStopped : Bool
  lastPrice : ℚ
deriving DecidableEq

variable (det : DetectorConfig) (mt : MicroTriggerConfig)

def MAX_RECENT : ℕ := 200

def onOhlcv1s (ev : OHLCVEvent) (w : SymbolWorld) : SymbolWorld :=
  match feedOhlcv1s det w.detector ev with
  | (none, detector) => { w with detector }
  | (some signals, detector) =>
    { w with
      detector
      recent := signals.foldl (dequeAppend MAX_RECENT) w.recent
      lastExchangeTs := ev.tsMs }

/-! ## Flags and direction -/

/-- A signal of one of the kinds is at most `window` old. -/
def detected (kinds : List SignalKind) (window nowMs : ℤ) (recent : List Signal) : Bool :=
  recent.any fun s => decide (s.kind ∈ kinds) && decide (nowMs - s.tsMs ≤ window)

def windowFlags (v : Visit) (w : SymbolWorld) : Tick where
  isValid := if v.lastData > 0 then decide (v.nowMono - v.lastData < 5) else false
  sweepDetected := detected [.SWEEP_UP, .SWEEP_DOWN] 10000 v.nowMs w.recent
  mssDetected := detected [.MSS_UP, .MSS_DOWN] mt.mssTimeoutMs v.nowMs w.recent
  fvgDetected := detected [.FVG_BULLISH, .FVG_BEARISH] mt.fvgTimeoutMs v.nowMs w.recent
  microConfirmed := detected [.OTE_LONG, .OTE_SHORT] 30000 v.nowMs w.recent
  exchangeTsMs := w.lastExchangeTs

/-- The three kinds of a direction are retained, however old. -/
def retains (direction : Direction) (recent : List Signal) : Bool :=
  match direction with
  | .LONG => [SignalKind.SWEEP_DOWN, .MSS_UP, .FVG_BULLISH].all fun k => k ∈ recent.map Signal.kind
  | .SHORT => [SignalKind.SWEEP_UP, .MSS_DOWN, .FVG_BEARISH].all fun k => k ∈ recent.map Signal.kind

def determineDirection (recent : List Signal) : Option Direction :=
  if retains .LONG recent then some .LONG
  else if retains .SHORT recent then some .SHORT
  else none

/-! ## A visit -/

/-- The record of a move. -/
def recordMove (nowMs : ℤ) (old new : MicroTriggerState) (w : SymbolWorld) : List Move :=
  if new = .IDLE then []
  else if new = old then w.setup
  else ⟨new, nowMs, w.recent⟩ :: w.setup

/-- `_handle_micro_trigger_entry`, up to the call of `on_entry`. -/
def handleEntry (direction : Direction) (v : Visit) (w : SymbolWorld) : SymbolWorld :=
  if v.observationStopped then w
  else { w with entries := ⟨direction, v.nowMs, v.lastPrice, w.setup⟩ :: w.entries }

def visit (v : Visit) (w : SymbolWorld) : SymbolWorld :=
  if isQuarantined v.quarantineMono w.trigger then w
  else
    let (trigger, _) := evaluate mt v.evalMono v.evalWall (windowFlags mt v w) w.trigger
    let w := { w with trigger, setup := recordMove v.nowMs w.trigger.state trigger.state w }
    if trigger.state = .TRIGGER ∧ w.lastMtState ≠ .TRIGGER then
      let w := match determineDirection w.recent with
        | some direction => handleEntry direction v w
        | none => w
      { w with trigger := resetToIdle w.trigger, lastMtState := .IDLE, setup := [] }
    else { w with lastMtState := trigger.state }

/-! ## Events -/

inductive Event
  | bar (ev : OHLCVEvent)
  | visit (v : Visit)
  | quarantine (nowMono : ℤ)

def step (w : SymbolWorld) : Event → SymbolWorld
  | .bar ev => onOhlcv1s det ev w
  | .visit v => visit mt v w
  | .quarantine nowMono =>
    { w with trigger := (quarantine mt "evaluate_error" nowMono w.trigger).1, setup := [] }

end MikoV2.Shadow
