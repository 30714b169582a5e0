import MikoV2.Lib.Sqlite
import MikoV2.Trading.PaperMath

/-!
# The tables of the runner's database

`paper_positions` and `paper_events` as `PaperPositionManager.setup_db` creates them, and the single row of
`observation_state` as `migrate_observation` creates it. One connection serves all of them, so a commit
made for one table publishes what is pending in the others.

* `PaperPositionRow.toPosition` : what `on_startup` reads of a row;
* `openRows` : the rows with status `OPEN`;
* `Call` : the calls of the connection, by the place in the source that makes them.
-/

namespace MikoV2.Store
open PaperMath

/-! ## Paper positions -/

/-- `_PaperPosition`. -/
structure PaperPosition where
  positionId : String
  symbol : String
  direction : Direction
  entryTsMs : ℤ
  entryBucketSec : ℤ
  entryPrice : ℚ
  qty : ℚ
  slPrice : ℚ
  tpPrice : ℚ
  entryFee : ℚ
  fundingPaid : ℚ := 0
deriving DecidableEq

inductive Status
  | OPEN
  | CLOSED
deriving DecidableEq, Repr

/-- A row of `paper_positions`; the nullable columns are those a close fills in. -/
structure PaperPositionRow where
  positionId : String
  symbol : String
  direction : Direction
  entryTsMs : ℤ
  entryPrice : ℚ
  qty : ℚ
  slPrice : ℚ
  tpPrice : ℚ
  entryFee : ℚ
  fundingPaid : ℚ
  entryBucketSec : ℤ
  status : Status
  exitTsMs : Option ℤ := none
  exitPrice : Option ℚ := none
  exitReason : Option ExitReason := none
  exitFee : Option ℚ := none
  pnlGross : Option ℚ := none
  pnlNet : Option ℚ := none
  rMultiple : Option ℚ := none
  configProfileTag : String
  riskPct : ℚ
  maxPositionsGlobal : ℤ
  maxPositionsPerSymbol : ℤ
  initialEquity : ℚ
  entrySlippageBps : ℚ
  createdAtMs : ℤ
  closedAtMs : Option ℤ := none
deriving DecidableEq

/-- The columns `on_startup` selects. -/
def PaperPositionRow.toPosition (r : PaperPositionRow) : PaperPosition where
  positionId := r.positionId
  symbol := r.symbol
  direction := r.direction
  entryTsMs := r.entryTsMs
  entryBucketSec := r.entryBucketSec
  entryPrice := r.entryPrice
  qty := r.qty
  slPrice := r.slPrice
  tpPrice := r.tpPrice
  entryFee := r.entryFee
  fundingPaid := r.fundingPaid

def PaperPositionRow.isOpen (r : PaperPositionRow) : Bool := r.status = .OPEN

/-- `PRIMARY KEY (position_id)`. -/
def PaperPositionRow.clash (r r' : PaperPositionRow) : Bool := r.positionId = r'.positionId

inductive EventType
  | REJECT
  | ENTRY
  | EXIT
deriving DecidableEq, Repr

structure PaperEventRow where
  positionId : Option String
  symbol : String
  eventType : EventType
  reason : Option String
  sourceSeq : Option ℤ
  tsMs : ℤ
  createdAtMs : ℤ
deriving DecidableEq

/-- `UNIQUE(position_id, event_type, source_seq)`: a `NULL` is distinct from everything. -/
def PaperEventRow.clash (r r' : PaperEventRow) : Bool :=
  r.positionId.isSome && r.sourceSeq.isSome && decide (r.positionId = r'.positionId) &&
    decide (r.eventType = r'.eventType) && decide (r.sourceSeq = r'.sourceSeq)

/-! ## The observation row -/

inductive ShutdownMarker
  | unset
  | clean
  | unclean
deriving DecidableEq, Repr

inductive RetentionMode
  | normal
  | degraded
deriving DecidableEq, Repr

/-- The row `id = 1` of `observation_state`, with the column defaults. -/
structure ObservationState where
  observationStop : Bool := false
  observationStartedAtMs : ℤ := 0
  lastRefreshAttemptMs : ℤ := 0
  lastRefreshSuccessMs : ℤ := 0
  lastValidTimestampMs : ℤ := 0
  checkpointDueMs : ℤ := 0
  checkpointDueEmitted : Bool := false
  outageCount : ℤ := 0
  outageTotalMs : ℤ := 0
  lastOutageStartMs : ℤ := 0
  lastOutageEndMs : ℤ := 0
  retentionMode : RetentionMode := .normal
  retentionTransitionMs : ℤ := 0
  lastTransitionMs : ℤ := 0
  lastTransitionReason : String := ""
  cleanShutdownMarker : ShutdownMarker := .unset
  cleanShutdownMarkerMs : ℤ := 0
  targetDays : ℤ := 60
  autoFinalizeDone : Bool := false
  observationCompletedMs : ℤ := 0
deriving DecidableEq

/-! ## The database -/

structure Db where
  positions : List PaperPositionRow := []
  events : List PaperEventRow := []
  observation : ObservationState := {}
deriving DecidableEq

/-- `SELECT … FROM paper_positions WHERE status='OPEN'`. -/
def openRows (db : Db) : List PaperPositionRow := db.positions.filter PaperPositionRow.isOpen

/-- The calls on the connection, by the function that makes them. -/
inductive Call
  | selectOpen
  | insertPosition
  | commitOpen
  | updatePosition
  | commitClose
  | insertEvent
  | commitEvent
  | otherCommit
  | selectObservation
  | insertObservation
  | updateObservation
  | commitObservation
deriving DecidableEq, Repr

@[simp] theorem PaperPositionRow.toPosition_positionId (r : PaperPositionRow) :
    r.toPosition.positionId = r.positionId := rfl

@[simp] theorem PaperPositionRow.toPosition_symbol (r : PaperPositionRow) : r.toPosition.symbol = r.symbol := rfl

theorem PaperPositionRow.clash_iff {r r' : PaperPositionRow} :
    r.clash r' = true ↔ r.positionId = r'.positionId := by
  simp only [clash, decide_eq_true_eq]

theorem mem_openRows {db : Db} {r : PaperPositionRow} :
    r ∈ openRows db ↔ r ∈ db.positions ∧ r.isOpen = true := List.mem_filter

end MikoV2.Store
