import Mathlib.Data.List.Pairwise
import Mathlib.Data.Prod.Lex
import Mathlib.Data.String.Basic
import MikoV2.Lib.Sorting
import MikoV2.Writer.Log

/-!
# `src/dashboard/routes.py`: the panels

The routes that read the database, on the connection of the writer. What they show is a function of the writer's log.

* `listClosedPositions`, `listRecentWhales`, `listEquitySnapshots`, `getDailyStats` : the queries of `SqliteWriter`;
* `positions`, `health`, `metrics`, `whales`, `equity`, `pnl` : the routes;
* `First`, `first_of_sort` : what a query with `ORDER BY` and `LIMIT` takes;
* `Panels`, `panels_run` : what the panels show after any run of the writer, and what they show after a restart.
-/

namespace MikoV2.Dashboard
open Sorting Writer

/-! ## Queries -/

/-- `LIMIT ?`; a negative limit is none. -/
def limited {Row : Type} (limit : ℤ) (rows : List Row) : List Row := if limit < 0 then rows else rows.take limit.toNat

def isClosed (row : PositionRow) : Bool := row .status = .text "closed"

/-- `SELECT … FROM positions WHERE status='closed' ORDER BY closed_at_ms DESC LIMIT ?` -/
def listClosedPositions (limit : ℤ) (db : Db) : List PositionRow :=
  limited limit ((db.positions.filter isClosed).mergeSort fun r s => (s .closedAtMs).le (r .closedAtMs))

/-- `SELECT … FROM whale_events ORDER BY id DESC LIMIT ?` -/
def listRecentWhales (limit : ℤ) (db : Db) : List (ℕ × (WhaleColumn → SqlValue)) :=
  limited limit (db.whaleEvents.mergeSort fun r s => s.1 ≤ r.1)

/-- `WHERE ts_ms >= ?`; a null is in no order. -/
def since (sinceMs : ℤ) (row : EquityColumn → SqlValue) : Bool := (SqlValue.num sinceMs).le (row .tsMs)

/-- `SELECT … FROM equity_snapshots WHERE ts_ms >= ? ORDER BY ts_ms ASC LIMIT ?` -/
def listEquitySnapshots (sinceMs limit : ℤ) (db : Db) : List (EquityColumn → SqlValue) :=
  limited limit (((db.equitySnapshots.map (·.2)).filter (since sinceMs)).mergeSort fun r s => (r .tsMs).le (s .tsMs))

/-- `get_daily_stats(date_utc)` -/
def getDailyStats (date : String) (db : Db) : List DailyRow := db.dailyStats.filter fun row => row .dateUtc = .text date

/-- How the reads of a route go. -/
structure ReadScript where
  connected : Bool := true
  /-- Its first and its second statement raise. -/
  firstFails : Bool := false
  secondFails : Bool := false

/-- `fetch`: it raises without a connection, and is empty where the statement raises. -/
def fetch {Row : Type} (connected fails : Bool) (rows : List Row) : Option (List Row) :=
  if connected then some (if fails then [] else rows) else none

/-! ## Routes

`none` stands for the body that names an exception.
-/

/-- A value of a body. -/
inductive Cell
  | sql (v : SqlValue)
  | flag (b : Bool)
  | id (n : ℕ)
deriving DecidableEq

/-- A dict of a body. -/
abbrev Fields := List (String × Cell)

/-- `_row_to_position(row, is_open)` -/
def rowToPosition (row : PositionRow) (isOpen : Bool) : Fields :=
  if isOpen then
    [("position_id", .sql (row .positionId)), ("symbol", .sql (row .symbol)), ("side", .sql (row .side)),
      ("opened_at_ms", .sql (row .openedAtMs)), ("avg", .sql (row .avg)), ("qty_open", .sql (row .qtyOpen)),
      ("qty_remaining", .sql (row .qtyRemaining)), ("current_tp_shifted", .sql (row .currentTpShifted)),
      ("current_sl_shifted", .sql (row .currentSlShifted)), ("be_active", .flag (row .beActive).truthy),
      ("trailing_active", .flag (row .trailingActive).truthy), ("whale_trust_score", .sql (row .whaleTrustScore)),
      ("universe_status", .sql (row .universeStatus)), ("version", .sql (row .version)),
      ("emergency_pending", .flag (row .emergencyPending).truthy)]
  else
    [("position_id", .sql (row .positionId)), ("symbol", .sql (row .symbol)), ("side", .sql (row .side)),
      ("opened_at_ms", .sql (row .openedAtMs)), ("closed_at_ms", .sql (row .closedAtMs)),
      ("close_reason", .sql (row .closeReason)), ("avg", .sql (row .avg)), ("realized_pnl", .sql (row .realizedPnl)),
      ("fee_total", .sql (row .feeTotal)), ("r_multiple", .sql (row .rMultiple))]

structure PositionsBody where
  opened : List Fields
  closed : List Fields
  countOpen : ℕ
  countClosed : ℕ

/-- `positions(limit)` -/
def positions (s : ReadScript) (limit : ℤ) (db : Db) : Option PositionsBody := do
  let openRows ← fetch s.connected s.firstFails (listOpenPositions db)
  let closedRows ← fetch s.connected s.secondFails (listClosedPositions limit db)
  return {
    opened := openRows.map fun row => rowToPosition row true
    closed := closedRows.map fun row => rowToPosition row false
    countOpen := openRows.length
    countClosed := closedRows.length }

structure HealthBody where
  status : String
  openPositions : ℕ
deriving DecidableEq

/-- `health()`; `stopped` is the flag of the observation, where there is a connection to it that reads. -/
def health (s : ReadScript) (stopped : Option Bool) (db : Db) : Option HealthBody := do
  -- `SELECT COUNT(*)`: one row, and none where the statement raises
  let rows ← fetch s.connected s.firstFails [db.positions.countP isOpen]
  return {
    status := if stopped = some true then "observation_stopped" else "ok"
    openPositions := rows.head?.getD 0 }

/-- `metrics()`: its `total_positions`. -/
def metrics (s : ReadScript) (db : Db) : Option ℕ := do
  let rows ← fetch s.connected s.firstFails [db.positions.length]
  return rows.head?.getD 0

def whaleFields (row : ℕ × (WhaleColumn → SqlValue)) : Fields :=
  [("id", .id row.1), ("symbol", .sql (row.2 .symbol)), ("band_key", .sql (row.2 .bandKey)),
    ("price", .sql (row.2 .price)), ("oi_delta_usd", .sql (row.2 .oiDeltaUsd)), ("fill_ratio", .sql (row.2 .fillRatio)),
    ("order_lifetime_ms", .sql (row.2 .orderLifetimeMs)), ("is_real", .flag (row.2 .isReal).truthy),
    ("is_spoof", .flag (row.2 .isSpoof).truthy), ("trust_score", .sql (row.2 .trustScore)),
    ("exchange_ts_ms", .sql (row.2 .exchangeTsMs)), ("created_at_ms", .sql (row.2 .createdAtMs))]

/-- `whales(limit)`; its `count` is the length. -/
def whales (s : ReadScript) (limit : ℤ) (db : Db) : Option (List Fields) := do
  let rows ← fetch s.connected s.firstFails (listRecentWhales limit db)
  return rows.map whaleFields

def equityFields (row : EquityColumn → SqlValue) : Fields :=
  [("ts_ms", .sql (row .tsMs)), ("balance", .sql (row .balance)), ("equity", .sql (row .equity)),
    ("unrealized_pnl", .sql (row .unrealizedPnl)), ("realized_today", .sql (row .realizedToday)),
    ("drawdown_pct", .sql (row .drawdownPct)), ("open_positions", .sql (row .openPositions))]

/-- The configuration of the panel. -/
structure EquityConfig where
  equityWindowMs : ℤ := 24 * 3600 * 1000
  equityMaxPoints : ℤ := 2000

structure EquityBody where
  points : List Fields
  latest : Option Fields

/-- `equity()`; its `count` is the length. -/
def equity (cfg : EquityConfig) (s : ReadScript) (nowMs : ℤ) (db : Db) : Option EquityBody := do
  let rows ← fetch s.connected s.firstFails (listEquitySnapshots (nowMs - cfg.equityWindowMs) cfg.equityMaxPoints db)
  return { points := rows.map equityFields, latest := (rows.map equityFields).getLast? }

def dailyFields (row : DailyRow) : Fields :=
  [("date_utc", .sql (row .dateUtc)), ("start_equity", .sql (row .startEquity)), ("end_equity", .sql (row .endEquity)),
    ("realized_pnl", .sql (row .realizedPnl)), ("fees", .sql (row .fees)), ("trades_count", .sql (row .tradesCount)),
    ("win_count", .sql (row .winCount)), ("loss_count", .sql (row .lossCount))]

/-- The accumulators of the loop of `pnl`. -/
structure Totals where
  wins : ℕ := 0
  losses : ℕ := 0
  totalPnl : ℚ := 0
  totalFees : ℚ := 0
  rSum : ℚ := 0
  rCount : ℕ := 0
deriving DecidableEq

structure PnlBody where
  today : Option Fields
  totalPnl : ℚ
  totalFees : ℚ
  wins : ℕ
  losses : ℕ
  trades : ℕ
  winRate : ℚ
  avgRMultiple : ℚ

section Pnl
/- `float` of a text, where it does not raise, and `round`. -/
variable (parse : String → Option ℚ) (round : ℚ → ℕ → ℚ)

/-- `float(v)`; `none` where it raises. -/
def float : SqlValue → Option ℚ
  | .null => none
  | .num x => some x
  | .text s => parse s

/-- `float(v or 0.0)` -/
def floatOrZero (v : SqlValue) : Option ℚ := if v.truthy then float parse v else some 0

/-- The accumulators after a row. -/
def Totals.add (t : Totals) (pnlVal feeVal : ℚ) (rVal : Option ℚ) : Totals where
  wins := if 0 < pnlVal then t.wins + 1 else t.wins
  losses := if 0 < pnlVal then t.losses else if pnlVal < 0 then t.losses + 1 else t.losses
  totalPnl := t.totalPnl + pnlVal
  totalFees := t.totalFees + feeVal
  rSum := t.rSum + rVal.getD 0
  rCount := if rVal.isSome then t.rCount + 1 else t.rCount

/-- One round of the loop; `none` where it raises. An exception of `float(r_val)` is caught. -/
def pnlStep (t : Totals) (row : PositionRow) : Option Totals := do
  let pnlVal ← floatOrZero parse (row .realizedPnl)
  let feeVal ← floatOrZero parse (row .feeTotal)
  return t.add pnlVal feeVal (float parse (row .rMultiple))

/-- `pnl()`, on the day `today`. -/
def pnl (s : ReadScript) (today : String) (db : Db) : Option PnlBody := do
  let todayRows ← fetch s.connected s.firstFails (getDailyStats today db)
  let closedRows ← fetch s.connected s.secondFails (listClosedPositions 500 db)
  let t ← Runs.runM (pnlStep parse) {} closedRows
  let total := t.wins + t.losses
  let winRate : ℚ := if 0 < total then t.wins / total else 0
  let avgR : ℚ := if 0 < t.rCount then t.rSum / t.rCount else 0
  return {
    today := todayRows.head?.map dailyFields
    totalPnl := t.totalPnl
    totalFees := t.totalFees
    wins := t.wins
    losses := t.losses
    trades := total
    winRate := round winRate 4
    avgRMultiple := round avgR 3 }

end Pnl

/-! ## Orders of values -/

section Order

/-- Values as they are ordered: nulls, numbers, texts. -/
def rank : SqlValue → ℕ ×ₗ ℚ ×ₗ String
  | .null => toLex (0, toLex (0, ""))
  | .num x => toLex (1, toLex (x, ""))
  | .text s => toLex (2, toLex (0, s))

theorem le_eq (v w : SqlValue) : v.le w = decide (rank v ≤ rank w) := by
  cases v with
  | null => cases w <;> simp [SqlValue.le, rank, Prod.Lex.toLex_le_toLex]
  | num x =>
    cases w with
    | num y =>
      have hle : rank (.num x) ≤ rank (.num y) ↔ x ≤ y := by
        rw [le_iff_lt_or_eq (a := x)]
        simp [rank, Prod.Lex.toLex_le_toLex]
      exact decide_eq_decide.mpr hle.symm
    | _ => simp [SqlValue.le, rank, Prod.Lex.toLex_le_toLex]
  | text s => cases w <;> simp [SqlValue.le, rank, Prod.Lex.toLex_le_toLex]

theorem le_iff {v w : SqlValue} : v.le w = true ↔ rank v ≤ rank w := by rw [le_eq, decide_eq_true_eq]

variable {Row K : Type} [LinearOrder K]

/-- What a limit leaves of a table that is sorted by a key, from the greatest down. -/
theorem best_limited (key : Row → K) (limit : ℤ) (rows : List Row) :
    Best key (if limit < 0 then rows.length else limit.toNat) rows
      (limited limit (rows.mergeSort fun r s => key s ≤ key r)) := by
  unfold limited
  by_cases hneg : limit < 0
  · rw [if_pos hneg, if_pos hneg]
    have h := best_take_mergeSort key rows.length rows
    rwa [List.take_of_length_le (List.length_mergeSort _).le] at h
  · rw [if_neg hneg, if_neg hneg]
    exact best_take_mergeSort key limit.toNat rows

/-- The rows that a limit hides. -/
theorem exists_hidden {key : Row → K} {limit : ℤ} {rows shown : List Row}
    (h : Best key (if limit < 0 then rows.length else limit.toNat) rows shown) :
    ∃ hidden, (shown ++ hidden).Perm rows ∧ shown.Pairwise (fun r s => key s ≤ key r) ∧
      (∀ r ∈ shown, ∀ s ∈ hidden, key s ≤ key r) ∧ (hidden ≠ [] → (shown.length : ℤ) = limit) := by
  obtain ⟨hidden, hperm, hless⟩ := h.rest
  refine ⟨hidden, hperm, h.sorted, hless, fun hne => ?_⟩
  have hlen := h.length
  have htotal := hperm.length_eq
  have hpos := List.length_pos_iff.mpr hne
  rw [List.length_append] at htotal
  split at hlen
  · omega
  · omega

end Order

/-! ## What the panels show -/

section Shown
variable {log : List Entry} {parse : String → Option ℚ} {round : ℚ → ℕ → ℚ}

/-- The open positions of a log, the newest first. -/
structure OpenShown (log : List Entry) (rows : List PositionRow) : Prop where
  mem : ∀ pid r, r ∈ rows ∧ r .positionId = .text pid ↔ lastRow pid log = some r ∧ isOpen r = true
  newest : rows.Pairwise fun r s => (s .openedAtMs).le (r .openedAtMs) = true

/-- The closed positions of a log, those that were closed last first; a limit hides the others. -/
structure ClosedShown (log : List Entry) (limit : ℤ) (rows hidden : List PositionRow) : Prop where
  mem : ∀ pid r, r ∈ rows ++ hidden ∧ r .positionId = .text pid ↔ lastRow pid log = some r ∧ isClosed r = true
  newest : rows.Pairwise fun r s => (s .closedAtMs).le (r .closedAtMs) = true
  older : ∀ r ∈ rows, ∀ s ∈ hidden, (s .closedAtMs).le (r .closedAtMs) = true
  full : hidden ≠ [] → (rows.length : ℤ) = limit

/-- The snapshots of a window, in the order of time; a limit hides the latest ones. -/
structure EquityShown (log : List Entry) (sinceMs limit : ℤ) (rows hidden : List (EquityColumn → SqlValue)) : Prop where
  mem : (rows ++ hidden).Perm ((loggedSnapshots log).filter (since sinceMs))
  sorted : rows.Pairwise fun r s => (r .tsMs).le (s .tsMs) = true
  later : ∀ r ∈ rows, ∀ s ∈ hidden, (r .tsMs).le (s .tsMs) = true
  full : hidden ≠ [] → (rows.length : ℤ) = limit

theorem openShown_replay (log : List Entry) : OpenShown log (listOpenPositions (replay log)) where
  mem pid r := by
    rw [← mem_positions_replay]
    unfold listOpenPositions
    rw [List.mem_mergeSort, List.mem_filter, and_right_comm]
  newest := by
    unfold listOpenPositions
    refine List.pairwise_mergeSort ?_ ?_ _
    · exact fun r s t hrs hst => le_iff.mpr ((le_iff.mp hst).trans (le_iff.mp hrs))
    · intro r s
      rw [Bool.or_eq_true, le_iff, le_iff]
      exact le_total _ _

theorem closedShown_replay (log : List Entry) (limit : ℤ) :
    ∃ hidden, (listClosedPositions limit (replay log) ++ hidden).Perm ((replay log).positions.filter isClosed) ∧
      ClosedShown log limit (listClosedPositions limit (replay log)) hidden := by
  have hbest := best_limited (fun r : PositionRow => rank (r .closedAtMs)) limit ((replay log).positions.filter isClosed)
  simp only [← le_eq] at hbest
  obtain ⟨hidden, hperm, hsorted, hless, hfull⟩ := exists_hidden hbest
  refine ⟨hidden, hperm, fun pid r => ?_, ?_, ?_, hfull⟩
  · rw [← mem_positions_replay, ← and_right_comm, ← List.mem_filter]
    exact and_congr_left fun _ => hperm.mem_iff
  · exact hsorted.imp le_iff.mpr
  · exact fun r hr s hs => le_iff.mpr (hless r hr s hs)

theorem equityShown_replay (log : List Entry) (sinceMs limit : ℤ) :
    ∃ hidden, EquityShown log sinceMs limit (listEquitySnapshots sinceMs limit (replay log)) hidden := by
  have hrows : (replay log).equitySnapshots.map (·.2) = loggedSnapshots log := by
    rw [equitySnapshots_replay, map_snd_numbered]
  have hbest := best_limited (fun r : EquityColumn → SqlValue => OrderDual.toDual (rank (r .tsMs))) limit
    ((loggedSnapshots log).filter (since sinceMs))
  simp only [OrderDual.toDual_le_toDual, ← le_eq] at hbest
  unfold listEquitySnapshots
  rw [hrows]
  obtain ⟨hidden, hperm, hsorted, hless, hfull⟩ := exists_hidden hbest
  refine ⟨hidden, hperm, ?_, ?_, hfull⟩
  · exact hsorted.imp fun h => le_iff.mpr (OrderDual.toDual_le_toDual.mp h)
  · exact fun r hr s hs => le_iff.mpr (OrderDual.toDual_le_toDual.mp (hless r hr s hs))

theorem recentWhales_replay (log : List Entry) (limit : ℤ) :
    listRecentWhales limit (replay log) = limited limit (numbered (loggedWhales log)).reverse := by
  unfold listRecentWhales
  rw [whaleEvents_replay, mergeSort_of_increasing _ (pairwise_numbered _)]

/-- The result and the fee of a row are numbers. -/
def Numeric (parse : String → Option ℚ) (row : PositionRow) : Prop :=
  (floatOrZero parse (row .realizedPnl)).isSome = true ∧ (floatOrZero parse (row .feeTotal)).isSome = true

def pnlOf (parse : String → Option ℚ) (row : PositionRow) : ℚ := (floatOrZero parse (row .realizedPnl)).getD 0

def feeOf (parse : String → Option ℚ) (row : PositionRow) : ℚ := (floatOrZero parse (row .feeTotal)).getD 0

def rMultiples (parse : String → Option ℚ) (rows : List PositionRow) : List ℚ :=
  rows.filterMap fun row => float parse (row .rMultiple)

def totalsOf (parse : String → Option ℚ) (rows : List PositionRow) : Totals where
  wins := rows.countP fun row => 0 < pnlOf parse row
  losses := rows.countP fun row => pnlOf parse row < 0
  totalPnl := (rows.map (pnlOf parse)).sum
  totalFees := (rows.map (feeOf parse)).sum
  rSum := (rMultiples parse rows).sum
  rCount := (rMultiples parse rows).length

instance (row : PositionRow) : Decidable (Numeric parse row) :=
  inferInstanceAs (Decidable (_ ∧ _))

theorem totalsOf_append (rows : List PositionRow) (row : PositionRow) : totalsOf parse (rows ++ [row]) =
    (totalsOf parse rows).add (pnlOf parse row) (feeOf parse row) (float parse (row .rMultiple)) := by
  have hr : rMultiples parse (rows ++ [row]) = rMultiples parse rows ++ (float parse (row .rMultiple)).toList := by
    cases h : float parse (row .rMultiple) <;> simp [rMultiples, h]
  have hlosses : (rows ++ [row]).countP (fun row => pnlOf parse row < 0) =
      if 0 < pnlOf parse row then rows.countP fun row => pnlOf parse row < 0
      else if pnlOf parse row < 0 then (rows.countP fun row => pnlOf parse row < 0) + 1
      else rows.countP fun row => pnlOf parse row < 0 := by
    rw [List.countP_append, List.countP_singleton]
    rcases lt_trichotomy 0 (pnlOf parse row) with hwin | hzero | hloss
    · simp [hwin, hwin.not_gt]
    · simp [← hzero]
    · simp [hloss, hloss.not_gt]
  unfold totalsOf
  rw [hr, hlosses]
  cases float parse (row .rMultiple) with
  | none => simp [Totals.add, List.countP_append, List.countP_singleton, apply_ite]
  | some rVal => simp [Totals.add, List.countP_append, List.countP_singleton, apply_ite]

theorem pnlStep_eq (t : Totals) (row : PositionRow) : pnlStep parse t row =
    if Numeric parse row then some (t.add (pnlOf parse row) (feeOf parse row) (float parse (row .rMultiple))) else none := by
  by_cases hnum : Numeric parse row
  · obtain ⟨pnlVal, hpnl⟩ := Option.isSome_iff_exists.mp hnum.1
    obtain ⟨feeVal, hfee⟩ := Option.isSome_iff_exists.mp hnum.2
    rw [if_pos hnum]
    simp [pnlStep, pnlOf, feeOf, hpnl, hfee]
  · rw [if_neg hnum]
    cases hpnl : floatOrZero parse (row .realizedPnl) with
    | none => simp [pnlStep, hpnl]
    | some pnlVal =>
      have hfee : floatOrZero parse (row .feeTotal) = none := by
        rw [← Option.not_isSome_iff_eq_none]
        exact fun h => hnum ⟨by rw [hpnl]; rfl, h⟩
      simp [pnlStep, hpnl, hfee]

theorem runM_pnlStep (rows : List PositionRow) :
    Runs.runM (pnlStep parse) {} rows = if ∀ row ∈ rows, Numeric parse row then some (totalsOf parse rows) else none := by
  induction rows using List.reverseRecOn with
  | nil => rfl
  | append_singleton rows row ih =>
    rw [Runs.runM_concat_eq, ih]
    by_cases hrows : ∀ row ∈ rows, Numeric parse row
    · rw [if_pos hrows, Option.bind_some, pnlStep_eq, ← totalsOf_append]
      refine if_congr ?_ rfl rfl
      rw [List.forall_mem_append, List.forall_mem_singleton]
      exact (and_iff_right hrows).symm
    · rw [if_neg hrows, Option.bind_none, if_neg fun hall => hrows fun row hrow => hall row (List.mem_append_left _ hrow)]

/-! ## Statuses -/

/-- The status that an entry writes is one of the three. -/
def KnownStatus (e : Entry) : Prop :=
  match e.op with
  | .executeWal payload => payload "order_id" = none →
    isOpen (executeWalPosition payload) = true ∨ isClosed (executeWalPosition payload) = true
  | _ => True

theorem not_isOpen_of_isClosed {row : PositionRow} (h : isClosed row = true) : isOpen row = false := by
  have hstatus : row .status = .text "closed" := of_decide_eq_true h
  unfold isOpen
  rw [hstatus]
  decide

theorem known_stmt {e : Entry} (hknown : KnownStatus e) {db : Db}
    (h : ∀ r ∈ db.positions, isOpen r = true ∨ isClosed r = true) :
    ∀ r ∈ (e.op.stmt e.nowMs db).2.positions, isOpen r = true ∨ isClosed r = true := by
  obtain ⟨nowMs, op⟩ := e
  cases op with
  | executeWal payload =>
    intro r hr
    simp only [Op.stmt, executeWalStmt] at hr
    split at hr
    · exact h r hr
    · rename_i horder
      rcases Sqlite.mem_insertOrReplace.mp hr with ⟨hold, -⟩ | rfl
      · exact h r hold
      · exact hknown (Option.not_isSome_iff_eq_none.mp horder)
  | openPosition payload =>
    intro r hr
    simp only [Op.stmt, openStmt, Sqlite.insertOrIgnore] at hr
    split at hr
    · exact h r hr
    · rcases List.mem_append.mp hr with hold | hnew
      · exact h r hold
      · rw [List.mem_singleton.mp hnew]
        exact Or.inl rfl
  | closePosition positionId closeReason realizedPnl feeTotal rMultiple =>
    intro r hr
    rcases Sqlite.mem_update.mp hr with ⟨hold, -⟩ | ⟨r₀, -, -, rfl⟩
    · exact h r hold
    · exact Or.inr rfl
  | updatePositionVersioned positionId newAvg newTp newSl expectedVersion =>
    intro r hr
    rcases Sqlite.mem_update.mp hr with ⟨hold, -⟩ | ⟨r₀, hr₀, -, rfl⟩
    · exact h r hold
    · exact h r₀ hr₀
  | insertWhaleEvent payload => exact h
  | insertEquitySnapshot payload => exact h
  | upsertDailyStats payload => exact h

theorem known_replay {log : List Entry} (hknown : ∀ e ∈ log, KnownStatus e) :
    ∀ r ∈ (replay log).positions, isOpen r = true ∨ isClosed r = true := by
  induction log using List.reverseRecOn with
  | nil => exact fun r hr => absurd hr List.not_mem_nil
  | append_singleton log e ih =>
    rw [replay_append]
    exact known_stmt (hknown e (List.mem_append_right _ (List.mem_singleton_self e)))
      (ih fun e' he' => hknown e' (List.mem_append_left _ he'))

/-- The rows that are neither open nor closed. -/
theorem length_positions (rows : List PositionRow) :
    rows.length = rows.countP isOpen + (rows.filter isClosed).length + rows.countP fun r => !isOpen r && !isClosed r := by
  induction rows with
  | nil => rfl
  | cons r rows ih =>
    rw [List.length_cons, ih]
    cases hopen : isOpen r with
    | true =>
      have hnot : isClosed r = false := by
        rw [← Bool.not_eq_true]
        exact fun h => Bool.false_ne_true ((not_isOpen_of_isClosed h).symm.trans hopen)
      simp [hopen, hnot]
      omega
    | false =>
      cases hclosed : isClosed r with
      | true => simp [hopen, hclosed]; omega
      | false => simp [hopen, hclosed]; omega

/-- No position stands in two places. -/
theorem pairwise_shown {db : Db} (hkeyed : KeyedDb db) {opened closed : List PositionRow}
    (hopened : opened.Perm (db.positions.filter isOpen)) (hclosed : closed.Perm (db.positions.filter isClosed)) :
    (opened ++ closed).Pairwise fun r s => clash .positionId r s = false := by
  have hsymm : Std.Symm fun r s : PositionRow => clash .positionId r s = false :=
    ⟨fun r s h => (clash_comm _ s r).trans h⟩
  rw [List.pairwise_append]
  refine ⟨(hopened.pairwise_iff fun h => hsymm.symm _ _ h).mpr (List.Pairwise.filter _ hkeyed),
    (hclosed.pairwise_iff fun h => hsymm.symm _ _ h).mpr (List.Pairwise.filter _ hkeyed), fun r hr s hs => ?_⟩
  obtain ⟨hrm, hro⟩ := List.mem_filter.mp (hopened.subset hr)
  obtain ⟨hsm, hsc⟩ := List.mem_filter.mp (hclosed.subset hs)
  refine List.Pairwise.forall hkeyed hrm hsm ?_
  rintro rfl
  exact Bool.false_ne_true ((not_isOpen_of_isClosed hsc).symm.trans hro)

/-! ## The panels -/

variable (parse round) in
/-- What the routes show of a log, where their reads go well. -/
structure Panels (cfg : EquityConfig) (log : List Entry) (db : Db) : Prop where
  /-- The positions, each once, with the counts of the other routes. -/
  positions : ∀ limit, ∃ opened closed hidden others, OpenShown log opened ∧ ClosedShown log limit closed hidden ∧
    (opened ++ (closed ++ hidden)).Pairwise (fun r s => clash .positionId r s = false) ∧
    Dashboard.positions {} limit db = some {
      opened := opened.map fun row => rowToPosition row true
      closed := closed.map fun row => rowToPosition row false
      countOpen := opened.length
      countClosed := closed.length } ∧
    (∀ stopped, (health {} stopped db).map HealthBody.openPositions = some opened.length) ∧
    metrics {} db = some (opened.length + (closed ++ hidden).length + others) ∧ ((∀ e ∈ log, KnownStatus e) → others = 0)
  /-- The totals over the last 500 closed positions, and the last upsert of the day. -/
  pnl : ∀ today, ∃ closed hidden, ClosedShown log 500 closed hidden ∧
    Dashboard.pnl parse round {} today db = if ∀ row ∈ closed, Numeric parse row then some {
      today := (lastDaily today log).map dailyFields
      totalPnl := (closed.map (pnlOf parse)).sum
      totalFees := (closed.map (feeOf parse)).sum
      wins := closed.countP fun row => 0 < pnlOf parse row
      losses := closed.countP fun row => pnlOf parse row < 0
      trades := closed.countP fun row => pnlOf parse row ≠ 0
      winRate := round ((closed.countP fun row => 0 < pnlOf parse row) / closed.countP fun row => pnlOf parse row ≠ 0) 4
      avgRMultiple := round ((rMultiples parse closed).sum / (rMultiples parse closed).length) 3 } else none
  /-- The last whale events, the newest first, with their ids. -/
  whales : ∀ limit, Dashboard.whales {} limit db =
    some ((limited limit (numbered (loggedWhales log)).reverse).map whaleFields)
  /-- The snapshots of the window, the oldest first. -/
  equity : ∀ nowMs, ∃ rows hidden, EquityShown log (nowMs - cfg.equityWindowMs) cfg.equityMaxPoints rows hidden ∧
    Dashboard.equity cfg {} nowMs db = some {
      points := rows.map equityFields
      latest := rows.getLast?.map equityFields }

theorem trades_eq (rows : List PositionRow) :
    (rows.countP fun row => 0 < pnlOf parse row) + (rows.countP fun row => pnlOf parse row < 0) =
      rows.countP fun row => pnlOf parse row ≠ 0 := by
  induction rows with
  | nil => rfl
  | cons row rows ih =>
    rw [List.countP_cons, List.countP_cons, List.countP_cons, ← ih]
    rcases lt_trichotomy 0 (pnlOf parse row) with hwin | hzero | hloss
    · simp [hwin, hwin.ne', hwin.not_gt]
      omega
    · simp [← hzero]
    · simp [hloss, hloss.ne, hloss.not_gt]
      omega

theorem pnl_replay (log : List Entry) (today : String) :
    Dashboard.pnl parse round {} today (replay log) =
      if ∀ row ∈ listClosedPositions 500 (replay log), Numeric parse row then some {
        today := (lastDaily today log).map dailyFields
        totalPnl := ((listClosedPositions 500 (replay log)).map (pnlOf parse)).sum
        totalFees := ((listClosedPositions 500 (replay log)).map (feeOf parse)).sum
        wins := (listClosedPositions 500 (replay log)).countP fun row => 0 < pnlOf parse row
        losses := (listClosedPositions 500 (replay log)).countP fun row => pnlOf parse row < 0
        trades := (listClosedPositions 500 (replay log)).countP fun row => pnlOf parse row ≠ 0
        winRate := round (((listClosedPositions 500 (replay log)).countP fun row => 0 < pnlOf parse row) /
          (listClosedPositions 500 (replay log)).countP fun row => pnlOf parse row ≠ 0) 4
        avgRMultiple := round ((rMultiples parse (listClosedPositions 500 (replay log))).sum /
          (rMultiples parse (listClosedPositions 500 (replay log))).length) 3 } else none := by
  have htoday : (getDailyStats today (replay log)).head? = lastDaily today log := by
    rw [← daily_replay, getDailyStats, List.head?_filter]
  unfold Dashboard.pnl
  simp only [fetch, if_true, Bool.false_eq_true, if_false, Option.bind_eq_bind, Option.bind_some, runM_pnlStep]
  split
  · have hdiv : ∀ (x : ℚ) (n : ℕ), (if 0 < n then x / n else 0) = x / n := by
      intro x n
      rcases Nat.eq_zero_or_pos n with rfl | hpos
      · simp
      · rw [if_pos hpos]
    simp only [Option.bind_some, totalsOf, trades_eq, hdiv, htoday]
    rfl
  · rfl

theorem panels_replay (cfg : EquityConfig) (log : List Entry) : Panels parse round cfg log (replay log) where
  positions limit := by
    obtain ⟨hidden, hperm, hclosed⟩ := closedShown_replay log limit
    have hopen : (listOpenPositions (replay log)).Perm ((replay log).positions.filter isOpen) :=
      List.mergeSort_perm _ _
    have hcount : (replay log).positions.countP isOpen = (listOpenPositions (replay log)).length := by
      rw [List.countP_eq_length_filter, hopen.length_eq]
    refine ⟨listOpenPositions (replay log), listClosedPositions limit (replay log), hidden,
      (replay log).positions.countP fun r => !isOpen r && !isClosed r, openShown_replay log, hclosed,
      pairwise_shown (keyedDb_replay log) hopen hperm, ?_, fun stopped => ?_, ?_, fun hknown => ?_⟩
    · rfl
    · exact congrArg some hcount
    · rw [hperm.length_eq, ← hcount, ← length_positions]
      rfl
    · rw [List.countP_eq_zero]
      intro r hr hneither
      rw [Bool.and_eq_true, Bool.not_eq_true', Bool.not_eq_true'] at hneither
      rcases known_replay hknown r hr with hopened | hclosed
      · exact Bool.false_ne_true (hneither.1.symm.trans hopened)
      · exact Bool.false_ne_true (hneither.2.symm.trans hclosed)
  pnl today := by
    obtain ⟨hidden, -, hclosed⟩ := closedShown_replay log 500
    exact ⟨_, hidden, hclosed, pnl_replay log today⟩
  whales limit := by
    rw [← recentWhales_replay]
    rfl
  equity nowMs := by
    obtain ⟨hidden, hshown⟩ := equityShown_replay log (nowMs - cfg.equityWindowMs) cfg.equityMaxPoints
    refine ⟨_, hidden, hshown, ?_⟩
    rw [← List.getLast?_map]
    rfl

/-- **The dashboard shows the log.** After any run of the writer, whatever fails in it, the routes show the calls whose
statements ran; after a restart they show those up to the last one that was committed. -/
theorem panels_run (parse : String → Option ℚ) (round : ℚ → ℕ → ℚ) (cfg : EquityConfig) (as : List WriterAct) :
    Panels parse round cfg (Runs.run Logged.step {} as).log (Runs.run Logged.step {} as).conn.view ∧
    Panels parse round cfg ((Runs.run Logged.step {} as).log.take (Runs.run Logged.step {} as).committed)
      (Runs.run Logged.step {} as).conn.disk := by
  have h := replay_run as
  rw [h.view, h.disk]
  exact ⟨panels_replay cfg _, panels_replay cfg _⟩

end Shown

end MikoV2.Dashboard
