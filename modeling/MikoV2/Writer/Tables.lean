import Mathlib.Data.List.Basic
import Mathlib.Data.Rat.Defs
import MikoV2.Lib.Sqlite

/-!
# The writer's tables

The five tables of `SqliteWriter`. A row is a function of its column; the rows of a table stand in the order of their
row ids. `positions` and `orders` and `daily_stats` have a text primary key, for which a null is no clash.

* `executeWalPosition`, `executeWalOrder`, `openRow`, … : the rows that the statements insert, with the defaults of
  the calls and of the schema;
* `insertOrReplacePosition`, `openStmt`, `closeStmt`, `updateStmt`, … : the statements, with their row counts;
* `listOpenPositions`, `countPositions`, `version` : what is read back.
-/

namespace MikoV2.Writer

/-- A value of a column. -/
inductive SqlValue where
  | null
  | num (x : ℚ)
  | text (s : String)
  deriving DecidableEq

/-- Truth in Python of a value of a payload. -/
def SqlValue.truthy : SqlValue → Bool
  | .null => false
  | .num x => x ≠ 0
  | .text s => s ≠ ""

/-- A payload: a dict with text keys. -/
abbrev Payload := String → Option SqlValue

namespace Payload

/-- `payload.get(key)` -/
def get (p : Payload) (key : String) : SqlValue := (p key).getD .null

/-- `1 if payload.get(key) else 0` -/
def flag (p : Payload) (key : String) : SqlValue := if (p.get key).truthy then .num 1 else .num 0

/-- A dict display. -/
def ofList (entries : List (String × SqlValue)) : Payload := fun key => (entries.find? (·.1 = key)).map (·.2)

end Payload

inductive PositionColumn where
  | positionId
  | symbol
  | side
  | status
  | openedAtMs
  | closedAtMs
  | closeReason
  | avg
  | qtyOpen
  | qtyRemaining
  | originalPlannedEntry
  | originalTp
  | originalSl
  | currentTpShifted
  | currentSlShifted
  | beActive
  | trailingActive
  | secondEntryCount
  | whaleTrustScore
  | universeStatus
  | realizedPnl
  | feeTotal
  | rMultiple
  | version
  | sealedAtMs
  | emergencyPending
  deriving DecidableEq

inductive OrderColumn where
  | orderId
  | positionId
  | symbol
  | side
  | filledQty
  | fillPrice
  | fee
  | slippage
  | status
  | filledAtMs
  | createdAtMs
  deriving DecidableEq

inductive WhaleColumn where
  | symbol
  | bandKey
  | price
  | oiDeltaUsd
  | fillRatio
  | orderLifetimeMs
  | isReal
  | isSpoof
  | trustScore
  | exchangeTsMs
  | createdAtMs
  deriving DecidableEq

inductive EquityColumn where
  | tsMs
  | balance
  | equity
  | unrealizedPnl
  | realizedToday
  | drawdownPct
  | openPositions
  deriving DecidableEq

inductive DailyColumn where
  | dateUtc
  | startEquity
  | endEquity
  | realizedPnl
  | fees
  | tradesCount
  | winCount
  | lossCount
  deriving DecidableEq

abbrev PositionRow := PositionColumn → SqlValue

abbrev OrderRow := OrderColumn → SqlValue

abbrev DailyRow := DailyColumn → SqlValue

/-- The database; the rows of `whale_events` and `equity_snapshots` have the next number as their id. -/
structure Db where
  positions : List PositionRow := []
  orders : List OrderRow := []
  whaleEvents : List (ℕ × (WhaleColumn → SqlValue)) := []
  equitySnapshots : List (ℕ × (EquityColumn → SqlValue)) := []
  dailyStats : List DailyRow := []
  whaleSeq : ℕ := 0
  equitySeq : ℕ := 0

/-! ## Rows that are inserted -/

/-- The row of `execute_wal`. -/
def executeWalPosition (p : Payload) : PositionRow
  | .positionId => p.get "position_id"
  | .symbol => p.get "symbol"
  | .side => p.get "side"
  | .status => (p "status").getD (.text "open")
  | .openedAtMs => p.get "opened_at_ms"
  | .closedAtMs => p.get "closed_at_ms"
  | .closeReason => p.get "close_reason"
  | .avg => (p "avg").getD (.num 0)
  | .qtyOpen => (p "qty_open").getD (.num 0)
  | .qtyRemaining => (p "qty_remaining").getD (.num 0)
  | .originalPlannedEntry => (p "original_planned_entry").getD (.num 0)
  | .originalTp => (p "original_tp").getD (.num 0)
  | .originalSl => (p "original_sl").getD (.num 0)
  | .currentTpShifted => (p "current_tp_shifted").getD (.num 0)
  | .currentSlShifted => (p "current_sl_shifted").getD (.num 0)
  | .beActive => p.flag "be_active"
  | .trailingActive => p.flag "trailing_active"
  | .secondEntryCount => (p "second_entry_count").getD (.num 0)
  | .whaleTrustScore => (p "whale_trust_score").getD (.num 0)
  | .universeStatus => p.get "universe_status"
  | .realizedPnl => (p "realized_pnl").getD (.num 0)
  | .feeTotal => (p "fee_total").getD (.num 0)
  | .rMultiple => p.get "r_multiple"
  | .version => (p "version").getD (.num 0)
  | .sealedAtMs => p.get "sealed_at_ms"
  | .emergencyPending => p.flag "emergency_pending"

/-- The row of `execute_wal` for an order. -/
def executeWalOrder (p : Payload) (nowMs : ℤ) : OrderRow
  | .orderId => p.get "order_id"
  | .positionId => p.get "position_id"
  | .symbol => p.get "symbol"
  | .side => p.get "side"
  | .filledQty => (p "filled_qty").getD (.num 0)
  | .fillPrice => (p "fill_price").getD (.num 0)
  | .fee => (p "fee").getD (.num 0)
  | .slippage => (p "slippage").getD (.num 0)
  | .status => (p "status").getD (.text "PARTIAL")
  | .filledAtMs => p.get "filled_at_ms"
  | .createdAtMs => (p "created_at_ms").getD (.num nowMs)

/-- The row of `open_position`; the columns that the statement does not name have the defaults of the schema. -/
def openRow (p : Payload) (nowMs : ℤ) : PositionRow
  | .positionId => p.get "position_id"
  | .symbol => p.get "symbol"
  | .side => p.get "side"
  | .status => .text "open"
  | .openedAtMs => (p "opened_at_ms").getD (.num nowMs)
  | .closedAtMs => .null
  | .closeReason => .null
  | .avg => (p "avg").getD (.num 0)
  | .qtyOpen => (p "qty_open").getD (.num 0)
  | .qtyRemaining => (p "qty_remaining").getD ((p "qty_open").getD (.num 0))
  | .originalPlannedEntry => (p "original_planned_entry").getD ((p "avg").getD (.num 0))
  | .originalTp => (p "original_tp").getD (.num 0)
  | .originalSl => (p "original_sl").getD (.num 0)
  | .currentTpShifted => (p "current_tp_shifted").getD (.num 0)
  | .currentSlShifted => (p "current_sl_shifted").getD (.num 0)
  | .beActive => .num 0
  | .trailingActive => .num 0
  | .secondEntryCount => .num 0
  | .whaleTrustScore => (p "whale_trust_score").getD (.num 0)
  | .universeStatus => p.get "universe_status"
  | .realizedPnl => .num 0
  | .feeTotal => .num 0
  | .rMultiple => .null
  | .version => (p "version").getD (.num 0)
  | .sealedAtMs => .null
  | .emergencyPending => .num 0

/-- The row of `insert_whale_event`. -/
def whaleRow (p : Payload) (nowMs : ℤ) : WhaleColumn → SqlValue
  | .symbol => p.get "symbol"
  | .bandKey => p.get "band_key"
  | .price => (p "price").getD (.num 0)
  | .oiDeltaUsd => (p "oi_delta_usd").getD (.num 0)
  | .fillRatio => (p "fill_ratio").getD (.num 0)
  | .orderLifetimeMs => (p "order_lifetime_ms").getD (.num 0)
  | .isReal => p.flag "is_real"
  | .isSpoof => p.flag "is_spoof"
  | .trustScore => (p "trust_score").getD (.num 0)
  | .exchangeTsMs => (p "exchange_ts_ms").getD (.num 0)
  | .createdAtMs => (p "created_at_ms").getD (.num nowMs)

/-- The row of `insert_equity_snapshot`. -/
def equityRow (p : Payload) (nowMs : ℤ) : EquityColumn → SqlValue
  | .tsMs => (p "ts_ms").getD (.num nowMs)
  | .balance => (p "balance").getD (.num 0)
  | .equity => (p "equity").getD (.num 0)
  | .unrealizedPnl => (p "unrealized_pnl").getD (.num 0)
  | .realizedToday => (p "realized_today").getD (.num 0)
  | .drawdownPct => (p "drawdown_pct").getD (.num 0)
  | .openPositions => (p "open_positions").getD (.num 0)

/-- The row of `upsert_daily_stats`. -/
def dailyRow (p : Payload) : DailyRow
  | .dateUtc => p.get "date_utc"
  | .startEquity => (p "start_equity").getD (.num 0)
  | .endEquity => (p "end_equity").getD (.num 0)
  | .realizedPnl => (p "realized_pnl").getD (.num 0)
  | .fees => (p "fees").getD (.num 0)
  | .tradesCount => (p "trades_count").getD (.num 0)
  | .winCount => (p "win_count").getD (.num 0)
  | .lossCount => (p "loss_count").getD (.num 0)

/-! ## Statements -/

/-- The primary key `key` of two rows clashes. -/
def clash {Column : Type} (key : Column) (row r : Column → SqlValue) : Bool := row key ≠ .null ∧ r key = row key

def insertOrReplacePosition (row : PositionRow) (db : Db) : ℕ × Db :=
  (1, { db with positions := Sqlite.insertOrReplace (clash .positionId) row db.positions })

def insertOrReplaceOrder (row : OrderRow) (db : Db) : ℕ × Db :=
  (1, { db with orders := Sqlite.insertOrReplace (clash .orderId) row db.orders })

/-- `INSERT OR IGNORE INTO positions` -/
def openStmt (row : PositionRow) (db : Db) : ℕ × Db :=
  let r := Sqlite.insertOrIgnore (clash .positionId) row db.positions
  (r.1, { db with positions := r.2 })

/-- The row with the columns that `close_position` sets. -/
def closedRow (closeReason : String) (realizedPnl feeTotal : ℚ) (rMultiple : Option ℚ) (nowMs : ℤ) (row : PositionRow) :
    PositionRow
  | .status => .text "closed"
  | .closedAtMs => .num nowMs
  | .closeReason => .text closeReason
  | .realizedPnl => .num realizedPnl
  | .feeTotal => .num feeTotal
  | .rMultiple => rMultiple.elim .null .num
  | column => row column

/-- `UPDATE positions SET status='closed', … WHERE position_id=?` -/
def closeStmt (positionId closeReason : String) (realizedPnl feeTotal : ℚ) (rMultiple : Option ℚ) (nowMs : ℤ)
    (db : Db) : ℕ × Db :=
  let r := Sqlite.update (fun row => row .positionId = .text positionId)
    (closedRow closeReason realizedPnl feeTotal rMultiple nowMs) db.positions
  (r.1, { db with positions := r.2 })

/-- The row with the columns that `update_position_versioned` sets. -/
def revisedRow (newAvg newTp newSl : ℚ) (expectedVersion : ℤ) (row : PositionRow) : PositionRow
  | .avg => .num newAvg
  | .currentTpShifted => .num newTp
  | .currentSlShifted => .num newSl
  | .version => .num expectedVersion
  | column => row column

/-- `UPDATE positions SET avg, current_tp_shifted, current_sl_shifted, version WHERE position_id=? AND version=?` -/
def updateStmt (positionId : String) (newAvg newTp newSl : ℚ) (expectedVersion : ℤ) (db : Db) : ℕ × Db :=
  let r := Sqlite.update
    (fun row => row .positionId = .text positionId ∧ row .version = .num ((expectedVersion - 1 : ℤ) : ℚ))
    (revisedRow newAvg newTp newSl expectedVersion) db.positions
  (r.1, { db with positions := r.2 })

def insertWhaleStmt (row : WhaleColumn → SqlValue) (db : Db) : ℕ × Db :=
  (1, { db with whaleEvents := db.whaleEvents ++ [(db.whaleSeq + 1, row)], whaleSeq := db.whaleSeq + 1 })

def insertEquityStmt (row : EquityColumn → SqlValue) (db : Db) : ℕ × Db :=
  (1, { db with equitySnapshots := db.equitySnapshots ++ [(db.equitySeq + 1, row)], equitySeq := db.equitySeq + 1 })

def insertOrReplaceDaily (row : DailyRow) (db : Db) : ℕ × Db :=
  (1, { db with dailyStats := Sqlite.insertOrReplace (clash .dateUtc) row db.dailyStats })

/-! ## What is read back -/

/-- `WHERE status IN ('open','partial')` -/
def isOpen (row : PositionRow) : Bool := row .status = .text "open" ∨ row .status = .text "partial"

/-- Nulls stand before numbers and numbers before texts. -/
def SqlValue.le : SqlValue → SqlValue → Bool
  | .null, _ => true
  | .num _, .null => false
  | .num x, .num y => x ≤ y
  | .num _, .text _ => true
  | .text _, .null => false
  | .text _, .num _ => false
  | .text s, .text t => s ≤ t

/-- `SELECT … FROM positions WHERE status IN ('open','partial') ORDER BY opened_at_ms DESC` -/
def listOpenPositions (db : Db) : List PositionRow :=
  (db.positions.filter isOpen).mergeSort fun r s => (s .openedAtMs).le (r .openedAtMs)

/-- `SELECT COUNT(*) FROM positions WHERE emergency_pending=0` -/
def countPositions (db : Db) : ℕ := db.positions.countP fun row => row .emergencyPending = .num 0

/-- The row of the position. -/
def row (db : Db) (positionId : String) : Option PositionRow :=
  db.positions.find? fun row => row .positionId = .text positionId

end MikoV2.Writer
