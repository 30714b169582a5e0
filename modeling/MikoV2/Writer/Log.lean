import MikoV2.Lib.Runs
import MikoV2.Writer.Versions

/-!
# The log of the writer

What the connection of `SqliteWriter` sees is the replay of a log: the calls whose statements ran, in their order. The
disk is the replay of the part of it up to the last call that was committed, and a restart cuts the log there.

* `Logged`, `Logged.step` : the connection with its log, over calls and restarts;
* `replay_run` : the two replays;
* `lastRow`, `lastDaily`, `loggedWhales`, `loggedSnapshots` : what a log says of a position, of a day, and of the rows
  that are appended;
* `row_replay`, `daily_replay`, `whaleEvents_replay`, `equitySnapshots_replay` : the tables say the same.
-/

namespace MikoV2.Writer
open Transactions

/-- A call whose statement ran, and what the clock said. -/
structure Entry where
  nowMs : ℤ
  op : Op

def replay (log : List Entry) : Db := log.foldl (fun db e => (e.op.stmt e.nowMs db).2) {}

inductive WriterAct
  | call (s : CallScript) (op : Op)
  /-- The process ends, and the next one connects. -/
  | restart

structure Logged where
  conn : Conn Db := Conn.openDb {}
  log : List Entry := []
  committed : ℕ := 0

instance (s : CallScript) : DecidablePred fun op : Op => op.Executes s := fun op =>
  inferInstanceAs (Decidable (s.connected = true ∧ op.Complete ∧ s.statement = .done))

def Logged.step (l : Logged) : WriterAct → Logged
  | .call s op =>
    let log := if op.Executes s then l.log ++ [⟨s.nowMs, op⟩] else l.log
    { conn := (op.call s l.conn).2, log := log
      committed := if (op.call s l.conn).1 then log.length else l.committed }
  | .restart => { conn := Conn.openDb l.conn.disk, log := l.log.take l.committed, committed := l.committed }

/-! ## The replays -/

theorem replay_append (log : List Entry) (e : Entry) : replay (log ++ [e]) = (e.op.stmt e.nowMs (replay log)).2 :=
  List.foldl_concat ..

/-- A call that returns `True` publishes what the connection sees, and no other does. -/
theorem call_published (s : CallScript) (op : Op) (c : Conn Db) :
    (op.call s c).2.disk = if (op.call s c).1 then (op.call s c).2.view else c.disk := by
  rcases hcall : op.call s c with ⟨ok, c'⟩
  rw [op.call_eq] at hcall
  by_cases hreach : s.connected = true ∧ op.Complete
  · rw [if_pos hreach] at hcall
    rcases call_cases hcall with ⟨-, rfl, rfl⟩ | ⟨-, rfl, rfl⟩ | ⟨-, -, rfl, rfl⟩ | ⟨-, -, -, rfl, rfl⟩
    · rfl
    · rfl
    · rfl
    · rfl
  · rw [if_neg hreach] at hcall
    cases hcall
    rfl

theorem call_view_eq (s : CallScript) (op : Op) (c : Conn Db) :
    (op.call s c).2.view = if op.Executes s then (op.stmt s.nowMs c.view).2 else c.view := by
  rcases hcall : op.call s c with ⟨ok, c'⟩
  rcases (Op.call_view hcall).1 with ⟨hnot, -, hview⟩ | ⟨hex, hview, -⟩
  · rw [if_neg hnot]
    exact hview
  · rw [if_pos hex]
    exact hview

structure Replayed (l : Logged) : Prop where
  view : l.conn.view = replay l.log
  disk : l.conn.disk = replay (l.log.take l.committed)
  within : l.committed ≤ l.log.length

theorem Replayed.step {l : Logged} (h : Replayed l) (a : WriterAct) : Replayed (l.step a) := by
  cases a with
  | restart =>
    refine ⟨h.disk, ?_, ?_⟩
    · show l.conn.disk = replay ((l.log.take l.committed).take l.committed)
      rw [List.take_take, min_self]
      exact h.disk
    · show l.committed ≤ (l.log.take l.committed).length
      rw [List.length_take]
      exact le_min le_rfl h.within
  | call s op =>
    obtain ⟨tail, htail⟩ : ∃ tail, (if op.Executes s then l.log ++ [⟨s.nowMs, op⟩] else l.log) = l.log ++ tail := by
      split
      · exact ⟨_, rfl⟩
      · exact ⟨[], (List.append_nil _).symm⟩
    have hview : (op.call s l.conn).2.view = replay (l.log ++ tail) := by
      rw [call_view_eq, ← htail]
      split
      · rw [replay_append, h.view]
      · exact h.view
    have hpublished := call_published s op l.conn
    simp only [Logged.step, htail]
    cases hok : (op.call s l.conn).1 with
    | true =>
      rw [hok] at hpublished
      refine ⟨hview, ?_, le_rfl⟩
      show (op.call s l.conn).2.disk = replay ((l.log ++ tail).take (l.log ++ tail).length)
      rw [List.take_length]
      exact hpublished.trans hview
    | false =>
      rw [hok] at hpublished
      refine ⟨hview, ?_, ?_⟩
      · show (op.call s l.conn).2.disk = replay ((l.log ++ tail).take l.committed)
        rw [List.take_append_of_le_length h.within]
        exact hpublished.trans h.disk
      · show l.committed ≤ (l.log ++ tail).length
        rw [List.length_append]
        exact h.within.trans (Nat.le_add_right _ _)

theorem replay_run (as : List WriterAct) : Replayed (Runs.run Logged.step {} as) :=
  Runs.invariant (I := Replayed) ⟨rfl, rfl, le_rfl⟩ (fun _ a h => h.step a) as

/-! ## What a log says -/

section Says

/-- What an entry makes of the row of a position. -/
def Entry.revise (pid : String) (r : Option PositionRow) (e : Entry) : Option PositionRow :=
  match e.op with
  | .executeWal payload =>
    if payload "order_id" = none ∧ payload.get "position_id" = .text pid then some (executeWalPosition payload) else r
  | .openPosition payload =>
    r.or (if payload.get "position_id" = .text pid then some (openRow payload e.nowMs) else none)
  | .closePosition positionId closeReason realizedPnl feeTotal rMultiple =>
    if pid = positionId then r.map (closedRow closeReason realizedPnl feeTotal rMultiple e.nowMs) else r
  | .updatePositionVersioned positionId newAvg newTp newSl expectedVersion =>
    r.map fun r => if pid = positionId ∧ r .version = .num ((expectedVersion - 1 : ℤ) : ℚ) then
      revisedRow newAvg newTp newSl expectedVersion r else r
  | _ => r

/-- The row that a log leaves to a position. -/
def lastRow (pid : String) (log : List Entry) : Option PositionRow := log.foldl (Entry.revise pid) none

def Entry.daily (e : Entry) : Option DailyRow :=
  match e.op with
  | .upsertDailyStats payload => some (dailyRow payload)
  | _ => none

/-- The last upsert of a day. -/
def lastDaily (date : String) (log : List Entry) : Option DailyRow :=
  (log.filterMap Entry.daily).findRev? fun row => row .dateUtc = .text date

def Entry.whale (e : Entry) : Option (WhaleColumn → SqlValue) :=
  match e.op with
  | .insertWhaleEvent payload => some (whaleRow payload e.nowMs)
  | _ => none

def Entry.snapshot (e : Entry) : Option (EquityColumn → SqlValue) :=
  match e.op with
  | .insertEquitySnapshot payload => some (equityRow payload e.nowMs)
  | _ => none

def loggedWhales (log : List Entry) : List (WhaleColumn → SqlValue) := log.filterMap Entry.whale

def loggedSnapshots (log : List Entry) : List (EquityColumn → SqlValue) := log.filterMap Entry.snapshot

/-- Rows with the ids that they get in an empty table. -/
def numbered {Row : Type} (rows : List Row) : List (ℕ × Row) := rows.zipIdx.map fun r => (r.2 + 1, r.1)

theorem numbered_append {Row : Type} (rows : List Row) (row : Row) :
    numbered (rows ++ [row]) = numbered rows ++ [(rows.length + 1, row)] := by
  simp [numbered, List.zipIdx_append]

theorem map_snd_numbered {Row : Type} (rows : List Row) : (numbered rows).map (·.2) = rows := by
  simp [numbered, Function.comp_def]

/-- The ids increase. -/
theorem pairwise_numbered {Row : Type} (rows : List Row) : (numbered rows).Pairwise fun r s => r.1 < s.1 := by
  induction rows using List.reverseRecOn with
  | nil => exact List.Pairwise.nil
  | append_singleton rows row ih =>
    rw [numbered_append]
    refine List.pairwise_append.mpr ⟨ih, List.pairwise_singleton _ _, fun r hr s hs => ?_⟩
    rw [List.mem_singleton.mp hs]
    have hbound : r.1 ≤ rows.length := by
      unfold numbered at hr
      obtain ⟨x, hx, rfl⟩ := List.mem_map.mp hr
      have hindex := List.snd_lt_of_mem_zipIdx hx
      omega
    exact Nat.lt_succ_of_le hbound

variable (log : List Entry) (e : Entry)

theorem row_stmt (pid : String) (db : Db) : row (e.op.stmt e.nowMs db).2 pid = e.revise pid (row db pid) := by
  obtain ⟨nowMs, op⟩ := e
  cases op with
  | executeWal payload =>
    show row (executeWalStmt payload nowMs db).2 pid = if _ then _ else _
    by_cases horder : payload "order_id" = none
    · rw [executeWalStmt_position horder]
      exact if_congr (by simp [horder]) rfl rfl
    · rw [executeWalStmt_order horder, if_neg fun h => horder h.1]
  | openPosition payload => exact row_open _
  | closePosition positionId closeReason realizedPnl feeTotal rMultiple => exact row_close _ _ _ _ _ _
  | updatePositionVersioned positionId newAvg newTp newSl expectedVersion => exact row_update _ _ _ _ _
  | insertWhaleEvent payload => rfl
  | insertEquitySnapshot payload => rfl
  | upsertDailyStats payload => rfl

theorem row_replay (pid : String) : row (replay log) pid = lastRow pid log := by
  induction log using List.reverseRecOn with
  | nil => rfl
  | append_singleton log e ih =>
    rw [replay_append, row_stmt, ih, lastRow, lastRow, List.foldl_concat]

theorem keyedDb_replay : KeyedDb (replay log) := by
  induction log using List.reverseRecOn with
  | nil => exact keyedDb_empty
  | append_singleton log e ih =>
    rw [replay_append]
    exact ih.stmt e.op e.nowMs

/-- A row of the table with an id is the last row of the id. -/
theorem mem_positions_replay {pid : String} {r : PositionRow} :
    r ∈ (replay log).positions ∧ r .positionId = .text pid ↔ lastRow pid log = some r := by
  rw [← row_replay]
  constructor
  · rintro ⟨hr, hpid⟩
    exact (keyedDb_replay log).row hr hpid
  · intro h
    exact ⟨row_mem h, row_positionId h⟩

/-- A table that some entries append a row to, with the next id. -/
theorem appended_replay {Row : Type} (table : Db → List (ℕ × Row) × ℕ) (pick : Entry → Option Row)
    (h0 : table {} = ([], 0))
    (hstmt : ∀ e : Entry, ∀ db, table (e.op.stmt e.nowMs db).2 =
      (pick e).elim (table db) fun row => ((table db).1 ++ [((table db).2 + 1, row)], (table db).2 + 1)) :
    table (replay log) = (numbered (log.filterMap pick), (log.filterMap pick).length) := by
  induction log using List.reverseRecOn with
  | nil => exact h0
  | append_singleton log e ih =>
    rw [replay_append, hstmt, ih, List.filterMap_append]
    cases hpick : pick e with
    | none => simp [hpick]
    | some row => simp [hpick, numbered_append]

theorem whaleEvents_replay : (replay log).whaleEvents = numbered (loggedWhales log) := by
  have h := appended_replay log (fun db => (db.whaleEvents, db.whaleSeq)) Entry.whale rfl ?_
  · exact congrArg Prod.fst h
  · rintro ⟨nowMs, op⟩ db
    cases op with
    | executeWal payload =>
      simp only [Op.stmt, executeWalStmt]
      split
      · rfl
      · rfl
    | _ => rfl

theorem equitySnapshots_replay : (replay log).equitySnapshots = numbered (loggedSnapshots log) := by
  have h := appended_replay log (fun db => (db.equitySnapshots, db.equitySeq)) Entry.snapshot rfl ?_
  · exact congrArg Prod.fst h
  · rintro ⟨nowMs, op⟩ db
    cases op with
    | executeWal payload =>
      simp only [Op.stmt, executeWalStmt]
      split
      · rfl
      · rfl
    | _ => rfl

theorem selects_daily (date : String) :
    Sqlite.Selects (clash DailyColumn.dateUtc) fun row => decide (row .dateUtc = .text date) where
  same := by
    intro r s h
    simp only [clash, decide_eq_true_eq] at h
    rw [h.2]
  meet := by
    intro r s hr hs
    simp only [clash, decide_eq_true_eq] at *
    rw [hr, hs]
    simp

theorem dailyStats_stmt (db : Db) : (e.op.stmt e.nowMs db).2.dailyStats =
    e.daily.elim db.dailyStats fun row => Sqlite.insertOrReplace (clash .dateUtc) row db.dailyStats := by
  obtain ⟨nowMs, op⟩ := e
  cases op with
  | executeWal payload =>
    simp only [Op.stmt, executeWalStmt]
    split
    · rfl
    · rfl
  | _ => rfl

/-- The row of a day is its last upsert. -/
theorem daily_replay (date : String) :
    ((replay log).dailyStats.find? fun row => row .dateUtc = .text date) = lastDaily date log := by
  induction log using List.reverseRecOn with
  | nil => rfl
  | append_singleton log e ih =>
    rw [replay_append, dailyStats_stmt, lastDaily, List.filterMap_append]
    cases hdaily : e.daily with
    | none => simpa [hdaily, lastDaily] using ih
    | some row =>
      rw [Option.elim_some, Sqlite.find_insertOrReplace (selects_daily date), ih, lastDaily]
      by_cases hdate : row .dateUtc = .text date
      · simp [hdaily, hdate]
      · simp [hdaily, hdate]

end Says

end MikoV2.Writer
