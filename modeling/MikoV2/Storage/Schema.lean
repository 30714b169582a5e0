import Mathlib.Data.Int.Notation
import Mathlib.Logic.Function.Basic
import MikoV2.Lib.Crash
import MikoV2.Lib.Runs

/-!
# Two migrations under one version number

`_setup_db` of the runner creates the tables at every start. The alert migration and the observation migration share
`PRAGMA user_version`, every statement is kept at once, and the process may stop at any of them.

* `runMigration`, `migrateObservation`, `paperSetupDb`, `setupDb` : the programs, statement by statement;
* `Event`, `step` : a start-up, a start of the alert agent, or the work of the process;
* `Versioned` : a database with version 1 has the alert tables; `Kept` : what a start-up leaves alone;
* `setupDb_spec` : a start-up that is not stopped leaves the whole schema;
* `schema_run` : all of it after any number of start-ups, stopped anywhere;
* `observationFirst_never` : after the other order the alert tables are never created.
-/

namespace MikoV2.Storage.Schema
open Crash

inductive Table
  | orderbook_snapshots
  | trades_ohlcv_1s
  | tickers_snapshot
  | alert_events
  | micro_trigger_events
  | observation_state
  | paper_positions
  | paper_events
deriving DecidableEq

inductive Index
  | idx_ohlcv_symbol_sec
  | idx_snapshots_ts
  | idx_tickers_ts
  | idx_alert_events_status_ts
  | idx_alert_events_ts
  | idx_micro_trigger_symbol_ts
  | idx_micro_trigger_ts
  | idx_paper_positions_status
  | idx_paper_events_symbol_ts
deriving DecidableEq

/-- The table an index is on. -/
def Index.table : Index → Table
  | .idx_ohlcv_symbol_sec => .trades_ohlcv_1s
  | .idx_snapshots_ts => .orderbook_snapshots
  | .idx_tickers_ts => .tickers_snapshot
  | .idx_alert_events_status_ts => .alert_events
  | .idx_alert_events_ts => .alert_events
  | .idx_micro_trigger_symbol_ts => .micro_trigger_events
  | .idx_micro_trigger_ts => .micro_trigger_events
  | .idx_paper_positions_status => .paper_positions
  | .idx_paper_events_symbol_ts => .paper_events

/-- The file: the rows of the tables there are, the indexes, and `user_version`. -/
structure SchemaDb (Row : Type) where
  tables : Table → Option (List Row)
  indexes : Index → Bool
  userVersion : ℤ

variable {Row : Type}

/-- A new file. -/
def fresh : SchemaDb Row := ⟨fun _ => none, fun _ => false, 0⟩

/-! ## Statements -/

/-- `CREATE TABLE IF NOT EXISTS` -/
def createTable (t : Table) (db : SchemaDb Row) : Option (SchemaDb Row) :=
  match db.tables t with
  | some _ => some db
  | none => some { db with tables := Function.update db.tables t (some []) }

/-- `CREATE INDEX IF NOT EXISTS`; it fails without the table. -/
def createIndex (i : Index) (db : SchemaDb Row) : Option (SchemaDb Row) :=
  match db.tables i.table with
  | some _ => some { db with indexes := Function.update db.indexes i true }
  | none => none

/-- `PRAGMA user_version = v` -/
def setUserVersion (v : ℤ) (db : SchemaDb Row) : Option (SchemaDb Row) := some { db with userVersion := v }

/-- `INSERT OR IGNORE INTO observation_state (id) VALUES (1)`; by its `CHECK`, a row of this table has the id 1. -/
def insertObservation (defaults : Row) (db : SchemaDb Row) : Option (SchemaDb Row) :=
  match db.tables .observation_state with
  | none => none
  | some [] => some { db with tables := Function.update db.tables .observation_state (some [defaults]) }
  | some _ => some db

/-! ## Programs -/

def SCHEMA_VERSION : ℤ := 1

def OBSERVATION_SCHEMA_VERSION : ℤ := 1

/-- `_DDL_INDEXES` -/
def ddlIndexes : List Index :=
  [.idx_alert_events_status_ts, .idx_alert_events_ts, .idx_micro_trigger_symbol_ts, .idx_micro_trigger_ts]

/-- `run_migration`. Its rollback has nothing to roll back. -/
def runMigration : Prog (SchemaDb Row) ℤ := do
  let current ← query SchemaDb.userVersion
  if current ≥ SCHEMA_VERSION then
    return current
  else
    stmt (createTable .alert_events)
    stmt (createTable .micro_trigger_events)
    forEach ddlIndexes fun ddl => stmt (createIndex ddl)
    stmt (setUserVersion SCHEMA_VERSION)
    return SCHEMA_VERSION

/-- `migrate_observation` -/
def migrateObservation (defaults : Row) : Prog (SchemaDb Row) ℤ := do
  let current ← query SchemaDb.userVersion
  if current > OBSERVATION_SCHEMA_VERSION then
    raise
  else
    stmt (createTable .observation_state)
    stmt (insertObservation defaults)
    stmt (setUserVersion OBSERVATION_SCHEMA_VERSION)
    return OBSERVATION_SCHEMA_VERSION

/-- `PaperPositionManager.setup_db` -/
def paperSetupDb : Prog (SchemaDb Row) Unit := do
  stmt (createTable .paper_positions)
  stmt (createTable .paper_events)
  stmt (createIndex .idx_paper_positions_status)
  stmt (createIndex .idx_paper_events_symbol_ts)

/-- `_setup_db` of the runner; an error of a migration is raised again. -/
def setupDb (defaults : Row) : Prog (SchemaDb Row) Unit := do
  stmt (createTable .orderbook_snapshots)
  stmt (createTable .trades_ohlcv_1s)
  stmt (createTable .tickers_snapshot)
  stmt (createIndex .idx_ohlcv_symbol_sec)
  stmt (createIndex .idx_snapshots_ts)
  stmt (createIndex .idx_tickers_ts)
  let _ ← runMigration
  let _ ← migrateObservation defaults
  paperSetupDb

/-- What the process does to the rows keeps the schema, and the row of the observation. -/
structure Works (db db' : SchemaDb Row) : Prop where
  tables : ∀ t, (db'.tables t).isSome = (db.tables t).isSome
  indexes : db'.indexes = db.indexes
  userVersion : db'.userVersion = db.userVersion
  observed : db.tables .observation_state ≠ some [] → db'.tables .observation_state ≠ some []

/-- The work of a process between its start-ups. -/
structure Work (Row : Type) where
  apply : SchemaDb Row → SchemaDb Row
  works : ∀ db, Works db (apply db)

/-- A start-up with room for `n` statements, a start of the alert agent, or work. -/
inductive Event (Row : Type)
  | startUp (n : ℕ)
  | agentStart (n : ℕ)
  | work (w : Work Row)

def step (defaults : Row) (db : SchemaDb Row) : Event Row → SchemaDb Row
  | .startUp n => (setupDb defaults n db).2
  | .agentStart n => (runMigration n db).2
  | .work w => w.apply db

/-! ## What the statements keep -/

variable {defaults : Row} {db db' db'' db₀ : SchemaDb Row} {ts : List Table} {is : List Index} {t : Table} {i : Index}

/-- The tables `ts` and the indexes `is` are there. -/
structure Has (ts : List Table) (is : List Index) (db : SchemaDb Row) : Prop where
  tables : ∀ t ∈ ts, (db.tables t).isSome
  indexes : ∀ i ∈ is, db.indexes i = true

/-- No row is lost, and none comes but the row of the observation in its empty table. -/
structure Kept (defaults : Row) (db db' : SchemaDb Row) : Prop where
  rows : ∀ t rows, db.tables t = some rows →
    db'.tables t = some rows ∨ t = .observation_state ∧ rows = [] ∧ db'.tables t = some [defaults]
  indexes : ∀ i, db.indexes i = true → db'.indexes i = true
  userVersion : db.userVersion ≤ db'.userVersion

theorem Kept.refl (defaults : Row) (db : SchemaDb Row) : Kept defaults db db :=
  ⟨fun _ _ h => .inl h, fun _ h => h, Int.le_refl _⟩

theorem Kept.trans (h : Kept defaults db db') (h' : Kept defaults db' db'') : Kept defaults db db'' := by
  refine ⟨fun t rows hrows => ?_, fun i hi => h'.indexes i (h.indexes i hi), Int.le_trans h.userVersion h'.userVersion⟩
  rcases h.rows t rows hrows with hsame | ⟨rfl, rfl, hnew⟩
  · exact h'.rows t rows hsame
  · rcases h'.rows _ _ hnew with hsame | ⟨-, hnil, -⟩
    · exact .inr ⟨rfl, rfl, hsame⟩
    · cases hnil

theorem Kept.has (h : Kept defaults db db') (hhas : Has ts is db) : Has ts is db' := by
  refine ⟨fun t ht => ?_, fun i hi => h.indexes i (hhas.indexes i hi)⟩
  obtain ⟨rows, hrows⟩ := Option.isSome_iff_exists.mp (hhas.tables t ht)
  rcases h.rows t rows hrows with hsame | ⟨-, -, hnew⟩
  · exact Option.isSome_iff_exists.mpr ⟨_, hsame⟩
  · exact Option.isSome_iff_exists.mpr ⟨_, hnew⟩

theorem Has.mono {ts' : List Table} {is' : List Index} (h : Has ts is db) (hts : ∀ t ∈ ts', t ∈ ts)
    (his : ∀ i ∈ is', i ∈ is) : Has ts' is' db := ⟨fun t ht => h.tables t (hts t ht), fun i hi => h.indexes i (his i hi)⟩

theorem createTable_kept (defaults : Row) (t : Table) (db : SchemaDb Row) :
    ∃ db', createTable t db = some db' ∧ Kept defaults db db' ∧ db'.userVersion = db.userVersion ∧ (db'.tables t).isSome := by
  unfold createTable
  cases hget : db.tables t with
  | some rows => exact ⟨db, rfl, .refl defaults db, rfl, by rw [hget]; rfl⟩
  | none =>
    refine ⟨_, rfl, ⟨fun t' rows hrows => .inl ?_, fun i hi => hi, Int.le_refl _⟩, rfl, ?_⟩
    · have hne : t' ≠ t := by
        rintro rfl
        rw [hget] at hrows
        cases hrows
      exact (Function.update_of_ne hne _ _).trans hrows
    · simp

theorem createIndex_kept (defaults : Row) (h : (db.tables i.table).isSome) :
    ∃ db', createIndex i db = some db' ∧ Kept defaults db db' ∧ db'.userVersion = db.userVersion ∧ db'.indexes i = true := by
  obtain ⟨rows, hrows⟩ := Option.isSome_iff_exists.mp h
  unfold createIndex
  rw [hrows]
  refine ⟨_, rfl, ⟨fun t rows h => .inl h, fun j hj => ?_, Int.le_refl _⟩, rfl, Function.update_self ..⟩
  by_cases hji : j = i
  · subst hji
    exact Function.update_self ..
  · exact (Function.update_of_ne hji _ _).trans hj

theorem insertObservation_kept (defaults : Row) (h : (db.tables .observation_state).isSome) :
    ∃ db', insertObservation defaults db = some db' ∧ Kept defaults db db' ∧ db'.userVersion = db.userVersion ∧
      ∃ row rows, db'.tables .observation_state = some (row :: rows) := by
  obtain ⟨rows, hrows⟩ := Option.isSome_iff_exists.mp h
  unfold insertObservation
  cases rows with
  | cons row rows =>
    rw [hrows]
    exact ⟨db, rfl, .refl defaults db, rfl, row, rows, hrows⟩
  | nil =>
    rw [hrows]
    have hnew : Function.update db.tables .observation_state (some [defaults]) .observation_state = some [defaults] :=
      Function.update_self ..
    refine ⟨_, rfl, ⟨fun t rows h => ?_, fun i hi => hi, Int.le_refl _⟩, rfl, defaults, [], hnew⟩
    by_cases ht : t = .observation_state
    · subst ht
      rw [hrows] at h
      exact .inr ⟨rfl, (Option.some.inj h).symm, hnew⟩
    · exact .inl ((Function.update_of_ne ht _ _).trans h)

/-! ## The version -/

def alertTables : List Table := [.alert_events, .micro_trigger_events]

/-- A database of version 1 has the tables and the indexes of the alerts. -/
def Versioned (db : SchemaDb Row) : Prop :=
  db.userVersion = 0 ∨ db.userVersion = 1 ∧ Has alertTables ddlIndexes db

theorem Versioned.kept (h : Versioned db) (hk : Kept defaults db db') (hv : db'.userVersion = db.userVersion) :
    Versioned db' := by
  unfold Versioned
  rw [hv]
  exact h.imp_right fun h1 => ⟨h1.1, hk.has h1.2⟩

theorem Versioned.le_one (h : Versioned db) : db.userVersion ≤ 1 := by
  rcases h with h0 | ⟨h1, -⟩ <;> omega

/-- What holds at every statement of a start-up on `db₀`. -/
structure Good (defaults : Row) (db₀ db : SchemaDb Row) : Prop where
  versioned : Versioned db
  kept : Kept defaults db₀ db

theorem Good.next (h : Good defaults db₀ db) (hk : Kept defaults db db') (hv : db'.userVersion = db.userVersion) :
    Good defaults db₀ db' := ⟨h.versioned.kept hk hv, h.kept.trans hk⟩

variable (defaults db₀ ts is)

theorem createTable_spec (t : Table) :
    Spec (fun db => Good defaults db₀ db ∧ Has ts is db) (stmt (createTable t))
      (fun _ db => Good defaults db₀ db ∧ Has (t :: ts) is db) (Good defaults db₀) 1 := by
  refine .stmt (fun db h => h.1) fun db h => ?_
  obtain ⟨db', hrun, hk, hv, ht⟩ := createTable_kept defaults t db
  have hhas := hk.has h.2
  refine ⟨db', hrun, h.1.next hk hv, ⟨fun u hu => ?_, hhas.indexes⟩⟩
  rcases List.mem_cons.mp hu with rfl | hu
  · exact ht
  · exact hhas.tables u hu

theorem createIndex_spec {i : Index} (hi : i.table ∈ ts) :
    Spec (fun db => Good defaults db₀ db ∧ Has ts is db) (stmt (createIndex i))
      (fun _ db => Good defaults db₀ db ∧ Has ts (i :: is) db) (Good defaults db₀) 1 := by
  refine .stmt (fun db h => h.1) fun db h => ?_
  obtain ⟨db', hrun, hk, hv, hnew⟩ := createIndex_kept defaults (h.2.tables _ hi)
  have hhas := hk.has h.2
  refine ⟨db', hrun, h.1.next hk hv, ⟨hhas.tables, fun j hj => ?_⟩⟩
  rcases List.mem_cons.mp hj with rfl | hj
  · exact hnew
  · exact hhas.indexes j hj

/-- The version is set over the tables of the alerts. -/
theorem setUserVersion_spec (hts : ∀ t ∈ alertTables, t ∈ ts) (his : ∀ i ∈ ddlIndexes, i ∈ is) :
    Spec (fun db => Good defaults db₀ db ∧ Has ts is db) (stmt (setUserVersion 1))
      (fun _ db => (Good defaults db₀ db ∧ Has ts is db) ∧ db.userVersion = 1) (Good defaults db₀) 1 := by
  refine .stmt (fun db h => h.1) fun db h => ⟨_, rfl, ⟨⟨?_, ?_⟩, ?_⟩, rfl⟩
  · exact .inr ⟨rfl, fun t ht => h.2.tables t (hts t ht), fun i hi => h.2.indexes i (his i hi)⟩
  · exact ⟨h.1.kept.rows, h.1.kept.indexes, Int.le_trans h.1.kept.userVersion h.1.versioned.le_one⟩
  · exact ⟨h.2.tables, h.2.indexes⟩

/-- The indexes of a loop whose tables are there. -/
theorem createIndexes_spec (l : List Index) (hl : ∀ i ∈ l, i.table ∈ ts) :
    Spec (fun db => Good defaults db₀ db ∧ Has ts is db) (forEach l fun ddl => stmt (createIndex ddl))
      (fun _ db => Good defaults db₀ db ∧ Has ts (l ++ is) db) (Good defaults db₀) l.length := by
  have hone : ∀ pre i, pre ++ [i] <+: l → Spec (fun db => Good defaults db₀ db ∧ Has ts (pre ++ is) db)
      (stmt (createIndex i)) (fun _ db => Good defaults db₀ db ∧ Has ts (pre ++ [i] ++ is) db) (Good defaults db₀) 1 := by
    intro pre i hpre
    have hmem : i ∈ l := hpre.subset (List.mem_append_right _ (List.mem_singleton_self i))
    refine (createIndex_spec defaults db₀ ts (pre ++ is) (hl i hmem)).weaken (fun _ h => h) (fun _ db h => ⟨h.1, ?_⟩)
      (fun _ h => h) (Nat.le_refl 1)
    exact h.2.mono (fun _ h => h) fun j hj => by simpa [or_left_comm] using hj
  have hloop := Spec.forEach (I := fun pre db => Good defaults db₀ db ∧ Has ts (pre ++ is) db) hone
  rwa [Nat.mul_one] at hloop

/-- The alert migration leaves version 1, with all that this means. -/
theorem runMigration_spec :
    Spec (fun db => Good defaults db₀ db ∧ Has ts is db) runMigration
      (fun v db => v = 1 ∧ db.userVersion = 1 ∧ Good defaults db₀ db ∧ Has (alertTables ++ ts) (ddlIndexes ++ is) db)
      (Good defaults db₀) 8 := by
  have hread : Spec (fun db => Good defaults db₀ db ∧ Has ts is db) (query SchemaDb.userVersion)
      (fun v db => v = db.userVersion ∧ Good defaults db₀ db ∧ Has ts is db) (Good defaults db₀) 1 :=
    .query (fun _ h => h.1) fun _ h => ⟨rfl, h⟩
  show Spec _ runMigration _ _ (1 + 7)
  refine hread.bind fun v => ?_
  by_cases hv : v ≥ SCHEMA_VERSION
  · rw [if_pos hv]
    refine Spec.weaken (.done fun db h => ?_) (fun _ h => h) (fun _ _ h => h) (fun _ h => h) (Nat.zero_le 7)
    obtain ⟨rfl, hgood, hhas⟩ := h
    rcases hgood.versioned with h0 | ⟨h1, halerts⟩
    · rw [h0] at hv
      exact absurd hv (by decide)
    · refine ⟨h1, h1, hgood, ⟨fun t ht => ?_, fun i hi => ?_⟩⟩
      · exact (List.mem_append.mp ht).elim (halerts.tables t) (hhas.tables t)
      · exact (List.mem_append.mp hi).elim (halerts.indexes i) (hhas.indexes i)
  · rw [if_neg hv]
    have hindexes := createIndexes_spec defaults db₀ (.micro_trigger_events :: .alert_events :: ts) is ddlIndexes
      (by simp [ddlIndexes, Index.table])
    have hversion := setUserVersion_spec defaults db₀ (.micro_trigger_events :: .alert_events :: ts) (ddlIndexes ++ is)
      (by simp [alertTables]) fun i hi => List.mem_append_left _ hi
    refine Spec.weaken ((createTable_spec defaults db₀ ts is .alert_events).bind fun _ =>
      (createTable_spec defaults db₀ (.alert_events :: ts) is .micro_trigger_events).bind fun _ =>
        hindexes.bind fun _ => hversion.bind fun _ => .done fun db h => ?_)
      (fun _ h => h.2) (fun _ _ h => h) (fun _ h => h) (Nat.le_refl 7)
    refine ⟨rfl, h.2, h.1.1, h.1.2.mono (fun t ht => ?_) fun _ h => h⟩
    simpa [alertTables, or_left_comm] using ht

/-- The observation migration leaves its table with a row. -/
theorem migrateObservation_spec (hts : ∀ t ∈ alertTables, t ∈ ts) (his : ∀ i ∈ ddlIndexes, i ∈ is) :
    Spec (fun db => Good defaults db₀ db ∧ Has ts is db) (migrateObservation defaults)
      (fun _ db => Good defaults db₀ db ∧ Has (.observation_state :: ts) is db ∧ db.userVersion = 1 ∧
        ∃ row rows, db.tables .observation_state = some (row :: rows)) (Good defaults db₀) 4 := by
  have hread : Spec (fun db => Good defaults db₀ db ∧ Has ts is db) (query SchemaDb.userVersion)
      (fun v db => v ≤ 1 ∧ Good defaults db₀ db ∧ Has ts is db) (Good defaults db₀) 1 := by
    exact .query (fun _ h => h.1) fun db h => ⟨h.1.versioned.le_one, h⟩
  have hrow : Spec (fun db => Good defaults db₀ db ∧ Has (.observation_state :: ts) is db)
      (stmt (insertObservation defaults))
      (fun _ db => Good defaults db₀ db ∧ Has (.observation_state :: ts) is db ∧
        ∃ row rows, db.tables .observation_state = some (row :: rows)) (Good defaults db₀) 1 := by
    refine .stmt (fun _ h => h.1) fun db h => ?_
    obtain ⟨db', hrun, hk, hv, hrow⟩ := insertObservation_kept defaults (h.2.tables _ List.mem_cons_self)
    exact ⟨db', hrun, h.1.next hk hv, hk.has h.2, hrow⟩
  have hversion : Spec (fun db => Good defaults db₀ db ∧ Has (.observation_state :: ts) is db ∧
        ∃ row rows, db.tables .observation_state = some (row :: rows)) (stmt (setUserVersion 1))
      (fun _ db => Good defaults db₀ db ∧ Has (.observation_state :: ts) is db ∧ db.userVersion = 1 ∧
        ∃ row rows, db.tables .observation_state = some (row :: rows)) (Good defaults db₀) 1 := by
    refine .stmt (fun _ h => h.1) fun db h => ⟨_, rfl, ⟨?_, ?_⟩, ?_, rfl, h.2.2⟩
    · exact .inr ⟨rfl, fun t ht => h.2.1.tables t (List.mem_cons_of_mem _ (hts t ht)), fun i hi => h.2.1.indexes i (his i hi)⟩
    · exact ⟨h.1.kept.rows, h.1.kept.indexes, Int.le_trans h.1.kept.userVersion h.1.versioned.le_one⟩
    · exact ⟨h.2.1.tables, h.2.1.indexes⟩
  show Spec _ (migrateObservation defaults) _ _ (1 + 3)
  refine hread.bind fun v => ?_
  by_cases hv : v > OBSERVATION_SCHEMA_VERSION
  · rw [if_pos hv]
    intro n db h
    exact absurd hv (Int.not_lt.mpr h.1)
  · rw [if_neg hv]
    exact Spec.weaken ((createTable_spec defaults db₀ ts is .observation_state).bind fun _ => hrow.bind fun _ =>
      hversion.bind fun _ => .done fun db h => h) (fun _ h => h.2) (fun _ _ h => h) (fun _ h => h) (Nat.le_refl 3)

/-- The tables of the paper manager. -/
theorem paperSetupDb_spec :
    Spec (fun db => Good defaults db₀ db ∧ Has ts is db) paperSetupDb
      (fun _ db => Good defaults db₀ db ∧ Has (.paper_events :: .paper_positions :: ts)
        (.idx_paper_events_symbol_ts :: .idx_paper_positions_status :: is) db) (Good defaults db₀) 4 :=
  (createTable_spec defaults db₀ ts is .paper_positions).bind fun _ =>
    (createTable_spec defaults db₀ (.paper_positions :: ts) is .paper_events).bind fun _ =>
      (createIndex_spec defaults db₀ (.paper_events :: .paper_positions :: ts) is
        (i := .idx_paper_positions_status) (by simp [Index.table])).bind fun _ =>
        createIndex_spec defaults db₀ (.paper_events :: .paper_positions :: ts) (.idx_paper_positions_status :: is)
          (i := .idx_paper_events_symbol_ts) (by simp [Index.table])

/-! ## A start-up -/

/-- The whole schema. -/
structure Complete (db : SchemaDb Row) : Prop where
  tables : ∀ t, (db.tables t).isSome
  indexes : ∀ i, db.indexes i = true
  userVersion : db.userVersion = 1
  observed : ∃ row rows, db.tables .observation_state = some (row :: rows)

variable {db₀} in
theorem Good.refl (h : Versioned db₀) : Good defaults db₀ db₀ := ⟨h, .refl defaults db₀⟩

/-- The number of statements of a start-up on a new file. -/
def setupStatements : ℕ := 22

/-- **A start-up** that is not stopped leaves the whole schema; wherever it is stopped, it has kept what was there. -/
theorem setupDb_spec (h : Versioned db₀) :
    Spec (· = db₀) (setupDb defaults) (fun _ db => Good defaults db₀ db ∧ Complete db) (Good defaults db₀)
      setupStatements := by
  have hpaper : ∀ ts is, (∀ t, t ∈ Table.paper_events :: .paper_positions :: ts) →
      (∀ i, i ∈ Index.idx_paper_events_symbol_ts :: .idx_paper_positions_status :: is) →
      Spec (fun db => Good defaults db₀ db ∧ Has ts is db ∧ db.userVersion = 1 ∧
        ∃ row rows, db.tables .observation_state = some (row :: rows)) paperSetupDb
        (fun _ db => Good defaults db₀ db ∧ Complete db) (Good defaults db₀) 4 := by
    refine fun ts is hts his => .each fun db₁ h₁ => (paperSetupDb_spec defaults db₁ ts is).weaken ?_ ?_ ?_ (Nat.le_refl 4)
    · rintro db rfl
      exact ⟨.refl defaults h₁.1.versioned, h₁.2.1⟩
    · intro _ db hdb
      obtain ⟨row, rows, hrows⟩ := h₁.2.2.2
      have hversion : db.userVersion = 1 :=
        Int.le_antisymm hdb.1.versioned.le_one (h₁.2.2.1 ▸ hdb.1.kept.userVersion)
      refine ⟨⟨hdb.1.versioned, h₁.1.kept.trans hdb.1.kept⟩, fun t => hdb.2.tables t (hts t),
        fun i => hdb.2.indexes i (his i), hversion, ?_⟩
      rcases hdb.1.kept.rows _ _ hrows with hsame | ⟨-, hnil, -⟩
      · exact ⟨row, rows, hsame⟩
      · cases hnil
    · exact fun db hdb => ⟨hdb.versioned, h₁.1.kept.trans hdb.kept⟩
  have hmigrations := fun ts is hts his => (runMigration_spec defaults db₀ ts is).bind fun _ =>
    ((migrateObservation_spec defaults db₀ (alertTables ++ ts) (ddlIndexes ++ is)
      (fun t ht => List.mem_append_left _ ht) fun i hi => List.mem_append_left _ hi).bind fun _ =>
        hpaper (.observation_state :: (alertTables ++ ts)) (ddlIndexes ++ is) hts his).weaken (fun _ h => h.2.2)
          (fun _ _ h => h) (fun _ h => h) (Nat.le_refl _)
  refine Spec.weaken ((createTable_spec defaults db₀ [] [] .orderbook_snapshots).bind fun _ =>
    (createTable_spec defaults db₀ _ _ .trades_ohlcv_1s).bind fun _ =>
      (createTable_spec defaults db₀ _ _ .tickers_snapshot).bind fun _ =>
        (createIndex_spec defaults db₀ _ _ (i := .idx_ohlcv_symbol_sec) (by simp [Index.table])).bind fun _ =>
          (createIndex_spec defaults db₀ _ _ (i := .idx_snapshots_ts) (by simp [Index.table])).bind fun _ =>
            (createIndex_spec defaults db₀ _ _ (i := .idx_tickers_ts) (by simp [Index.table])).bind fun _ =>
              hmigrations _ _ (fun t => by cases t <;> simp [alertTables]) fun i => by cases i <;> simp [ddlIndexes])
    ?_ (fun _ _ h => h) (fun _ h => h) (Nat.le_refl 22)
  rintro db rfl
  exact ⟨.refl defaults h, nofun, nofun⟩

/-- A start of the alert agent leaves the tables of the alerts. -/
theorem agentStart_spec (h : Versioned db₀) :
    Spec (· = db₀) runMigration
      (fun v db => v = 1 ∧ db.userVersion = 1 ∧ Good defaults db₀ db ∧ Has alertTables ddlIndexes db)
      (Good defaults db₀) 8 := by
  refine (runMigration_spec defaults db₀ [] []).weaken ?_ (fun _ db hdb => ?_) (fun _ h => h) (Nat.le_refl 8)
  · rintro db rfl
    exact ⟨.refl defaults h, nofun, nofun⟩
  · simpa only [List.append_nil] using hdb

/-! ## A start-up on the whole schema -/

variable {db₀ defaults}

theorem Complete.createTable (h : Complete db₀) (t : Table) : createTable t db₀ = some db₀ := by
  obtain ⟨rows, hrows⟩ := Option.isSome_iff_exists.mp (h.tables t)
  unfold Schema.createTable
  rw [hrows]

theorem Complete.createIndex (h : Complete db₀) (i : Index) : createIndex i db₀ = some db₀ := by
  obtain ⟨rows, hrows⟩ := Option.isSome_iff_exists.mp (h.tables i.table)
  have hsame : Function.update db₀.indexes i true = db₀.indexes := Function.update_eq_self_iff.mpr (h.indexes i).symm
  unfold Schema.createIndex
  rw [hrows, hsame]

theorem Complete.setUserVersion (h : Complete db₀) : setUserVersion 1 db₀ = some db₀ := by
  unfold Schema.setUserVersion
  rw [← h.userVersion]

theorem Complete.insertObservation (h : Complete db₀) (defaults : Row) : insertObservation defaults db₀ = some db₀ := by
  obtain ⟨row, rows, hrows⟩ := h.observed
  unfold Schema.insertObservation
  rw [hrows]

/-- The alert migration sees the version and returns. -/
theorem Complete.runMigration (h : Complete db₀) :
    Spec (· = db₀) runMigration (fun v db => v = 1 ∧ db = db₀) (· = db₀) 1 := by
  have hread : Spec (· = db₀) (query SchemaDb.userVersion) (fun v db => v = 1 ∧ db = db₀) (· = db₀) 1 :=
    .query (fun _ h => h) fun db hdb => ⟨hdb ▸ h.userVersion, hdb⟩
  show Spec _ Schema.runMigration _ _ (1 + 0)
  refine hread.bind fun v => .each fun db hdb => ?_
  rw [hdb.1, if_pos (by decide)]
  exact .done fun db' hdb' => ⟨rfl, hdb' ▸ hdb.2⟩

theorem Complete.migrateObservation (h : Complete db₀) (defaults : Row) :
    Spec (· = db₀) (migrateObservation defaults) (fun _ db => db = db₀) (· = db₀) 4 := by
  have hread : Spec (· = db₀) (query SchemaDb.userVersion) (fun v db => v = 1 ∧ db = db₀) (· = db₀) 1 :=
    .query (fun _ h => h) fun db hdb => ⟨hdb ▸ h.userVersion, hdb⟩
  show Spec _ (Schema.migrateObservation defaults) _ _ (1 + 3)
  refine hread.bind fun v => .each fun db hdb => ?_
  rw [hdb.1, if_neg (by decide), hdb.2]
  exact (Spec.stmt_keep (h.createTable .observation_state)).bind fun _ =>
    (Spec.stmt_keep (h.insertObservation defaults)).bind fun _ => (Spec.stmt_keep h.setUserVersion).bind fun _ =>
      .done fun _ h => h

/-- A start-up on the whole schema changes nothing, wherever it stops. -/
theorem Complete.setupDb (h : Complete db₀) (defaults : Row) (n : ℕ) : (setupDb defaults n db₀).2 = db₀ := by
  have hpaper : Spec (· = db₀) paperSetupDb (fun _ => (· = db₀)) (· = db₀) 4 :=
    (Spec.stmt_keep (h.createTable _)).bind fun _ => (Spec.stmt_keep (h.createTable _)).bind fun _ =>
      (Spec.stmt_keep (h.createIndex _)).bind fun _ => Spec.stmt_keep (h.createIndex _)
  have halerts : Spec (· = db₀) Schema.runMigration (fun _ => (· = db₀)) (· = db₀) 1 :=
    h.runMigration.weaken (fun _ h => h) (fun _ _ h => h.2) (fun _ h => h) (Nat.le_refl 1)
  have hsetup : Spec (· = db₀) (Schema.setupDb defaults) (fun _ => (· = db₀)) (· = db₀) 15 :=
    (Spec.stmt_keep (h.createTable _)).bind fun _ => (Spec.stmt_keep (h.createTable _)).bind fun _ =>
      (Spec.stmt_keep (h.createTable _)).bind fun _ => (Spec.stmt_keep (h.createIndex _)).bind fun _ =>
        (Spec.stmt_keep (h.createIndex _)).bind fun _ => (Spec.stmt_keep (h.createIndex _)).bind fun _ =>
          halerts.bind fun _ => (h.migrateObservation defaults).bind fun _ => hpaper
  exact hsetup.always (fun _ _ h => h) (fun _ h => h) rfl

/-! ## Runs -/

theorem Works.versioned (h : Works db db') (hv : Versioned db) : Versioned db' := by
  unfold Versioned
  rw [h.userVersion]
  refine hv.imp_right fun h1 => ⟨h1.1, fun t ht => ?_, fun i hi => ?_⟩
  · rw [h.tables]
    exact h1.2.tables t ht
  · rw [h.indexes]
    exact h1.2.indexes i hi

theorem Works.complete (h : Works db db') (hc : Complete db) : Complete db' := by
  refine ⟨fun t => ?_, fun i => ?_, h.userVersion.trans hc.userVersion, ?_⟩
  · rw [h.tables]
    exact hc.tables t
  · rw [h.indexes]
    exact hc.indexes i
  · obtain ⟨row, rows, hrows⟩ := hc.observed
    obtain ⟨rows', hrows'⟩ := Option.isSome_iff_exists.mp ((h.tables .observation_state).trans (hc.tables _))
    have hne := h.observed (by rw [hrows]; exact fun h => by cases h)
    cases rows' with
    | nil => exact absurd hrows' hne
    | cons row' rows' => exact ⟨row', rows', hrows'⟩

theorem Versioned.step (h : Versioned db) (defaults : Row) (e : Event Row) : Versioned (step defaults db e) := by
  cases e with
  | startUp n =>
    exact (setupDb_spec defaults db h).always (n := n) (fun _ _ h => h.1.versioned) (fun _ h => h.versioned) rfl
  | agentStart n =>
    exact (agentStart_spec defaults db h).always (n := n) (fun _ _ h => h.2.2.1.versioned) (fun _ h => h.versioned) rfl
  | work w => exact (w.works db).versioned h

theorem Complete.step (h : Complete db) (defaults : Row) (e : Event Row) : Complete (step defaults db e) := by
  cases e with
  | startUp n =>
    show Complete (Schema.setupDb defaults n db).2
    rw [h.setupDb]
    exact h
  | agentStart n => exact h.runMigration.always (n := n) (fun _ _ hdb => hdb.2 ▸ h) (fun _ hdb => hdb ▸ h) rfl
  | work w => exact (w.works db).complete h

/-- What holds of the file between start-ups. -/
structure Sound (defaults : Row) (db : SchemaDb Row) : Prop where
  versioned : Versioned db
  starts : ∀ n, setupStatements ≤ n → ∃ m db', setupDb defaults n db = (some ((), m), db') ∧ Complete db'
  keeps : ∀ n, Kept defaults db (setupDb defaults n db).2 ∧ Kept defaults db (runMigration n db).2
  agentStarts : ∀ n, 8 ≤ n → ∃ m db', runMigration n db = (some (1, m), db') ∧ Has alertTables ddlIndexes db'
  stays : Complete db → ∀ events,
    Complete (Runs.run (step defaults) db events) ∧
      ∀ n, (setupDb defaults n (Runs.run (step defaults) db events)).2 = Runs.run (step defaults) db events

/-- **The schema** after any start-ups, stopped at any statement, and any work between them. -/
theorem schema_run (defaults : Row) (events : List (Event Row)) :
    Sound defaults (Runs.run (step defaults) fresh events) := by
  have hversioned : Versioned (Runs.run (step defaults) fresh events) :=
    Runs.invariant (.inl rfl) (fun _ e h => h.step defaults e) events
  generalize Runs.run (step defaults) fresh events = db at hversioned
  have hsetup := setupDb_spec defaults db hversioned
  have hagent := agentStart_spec defaults db hversioned
  refine ⟨hversioned, fun n hn => ?_, fun n => ⟨?_, ?_⟩, fun n hn => ?_, fun hc later => ?_⟩
  · obtain ⟨_, m, db', hrun, -, hc⟩ := hsetup.ends rfl hn
    exact ⟨m, db', hrun, hc⟩
  · exact hsetup.always (fun _ _ h => h.1.kept) (fun _ h => h.kept) rfl
  · exact hagent.always (fun _ _ h => h.2.2.1.kept) (fun _ h => h.kept) rfl
  · obtain ⟨v, m, db', hrun, hend⟩ := hagent.ends rfl hn
    exact ⟨m, db', hend.1 ▸ hrun, hend.2.2.2⟩
  · have hlater : Complete (Runs.run (step defaults) db later) :=
      Runs.invariant hc (fun _ e h => h.step defaults e) later
    exact ⟨hlater, fun n => hlater.setupDb defaults n⟩

/-! ## The other order -/

/-- The version says that there are alerts, and there are none. -/
structure Skipped (db : SchemaDb Row) : Prop where
  userVersion : db.userVersion = 1
  missing : db.tables .alert_events = none

theorem Skipped.runMigration (h : Skipped db₀) (n : ℕ) : (runMigration n db₀).2 = db₀ := by
  have hread : Spec (· = db₀) (query SchemaDb.userVersion) (fun v db => v = 1 ∧ db = db₀) (· = db₀) 1 :=
    .query (fun _ h => h) fun db hdb => ⟨hdb ▸ h.userVersion, hdb⟩
  have hrun : Spec (· = db₀) Schema.runMigration (fun _ => (· = db₀)) (· = db₀) (1 + 0) := by
    refine hread.bind fun v => .each fun db hdb => ?_
    rw [hdb.1, if_pos (by decide)]
    exact .done fun db' hdb' => hdb'.trans hdb.2
  exact hrun.always (fun _ _ h => h) (fun _ h => h) rfl

theorem Skipped.createTable (h : t ≠ .alert_events) : Keeps (fun db : SchemaDb Row => Skipped db) (stmt (createTable t)) := by
  refine .stmt fun db db' hdb hrun => ?_
  unfold Schema.createTable at hrun
  split at hrun <;> cases hrun
  · exact hdb
  · exact ⟨hdb.userVersion, (Function.update_of_ne h.symm _ _).trans hdb.missing⟩

theorem Skipped.createIndex (i : Index) : Keeps (fun db : SchemaDb Row => Skipped db) (stmt (createIndex i)) := by
  refine .stmt fun db db' hdb hrun => ?_
  unfold Schema.createIndex at hrun
  split at hrun <;> cases hrun
  exact ⟨hdb.userVersion, hdb.missing⟩

theorem Skipped.insertObservation (defaults : Row) :
    Keeps (fun db : SchemaDb Row => Skipped db) (stmt (insertObservation defaults)) := by
  refine .stmt fun db db' hdb hrun => ?_
  unfold Schema.insertObservation at hrun
  split at hrun <;> cases hrun
  · exact ⟨hdb.userVersion, hdb.missing⟩
  · exact hdb

theorem Skipped.setupDb (defaults : Row) : Keeps (fun db : SchemaDb Row => Skipped db) (setupDb defaults) := by
  have halerts : Keeps (fun db : SchemaDb Row => Skipped db) Schema.runMigration := fun n db h => by
    rw [h.runMigration]
    exact h
  have hversion : Keeps (fun db : SchemaDb Row => Skipped db) (stmt (setUserVersion 1)) := by
    refine .stmt fun db db' hdb hrun => ?_
    cases hrun
    exact ⟨rfl, hdb.missing⟩
  have hobservation : Keeps (fun db : SchemaDb Row => Skipped db) (Schema.migrateObservation defaults) := by
    refine .bind (.query _) fun v => ?_
    by_cases hv : v > OBSERVATION_SCHEMA_VERSION
    · rw [if_pos hv]
      exact .raise
    · rw [if_neg hv]
      exact .bind (Skipped.createTable (by decide)) fun _ => .bind (Skipped.insertObservation defaults) fun _ =>
        .bind hversion fun _ => .done _
  have hpaper : Keeps (fun db : SchemaDb Row => Skipped db) paperSetupDb :=
    .bind (Skipped.createTable (by decide)) fun _ => .bind (Skipped.createTable (by decide)) fun _ =>
      .bind (Skipped.createIndex _) fun _ => Skipped.createIndex _
  exact .bind (Skipped.createTable (by decide)) fun _ => .bind (Skipped.createTable (by decide)) fun _ =>
    .bind (Skipped.createTable (by decide)) fun _ => .bind (Skipped.createIndex _) fun _ =>
      .bind (Skipped.createIndex _) fun _ => .bind (Skipped.createIndex _) fun _ =>
        .bind halerts fun _ => .bind hobservation fun _ => hpaper

/-- The observation migration on a database without the alert tables. -/
theorem Skipped.migrateObservation (defaults : Row) :
    Spec (fun db : SchemaDb Row => db.userVersion ≤ 1 ∧ db.tables .alert_events = none) (migrateObservation defaults)
      (fun _ db => Skipped db) (fun _ => True) 4 := by
  have hread : Spec (fun db : SchemaDb Row => db.userVersion ≤ 1 ∧ db.tables .alert_events = none)
      (query SchemaDb.userVersion) (fun v db => v ≤ 1 ∧ db.tables .alert_events = none) (fun _ => True) 1 :=
    .query (fun _ _ => trivial) fun _ h => h
  have htable : Spec (fun db : SchemaDb Row => db.tables .alert_events = none) (stmt (Schema.createTable .observation_state))
      (fun _ db => db.tables .alert_events = none ∧ (db.tables .observation_state).isSome) (fun _ => True) 1 := by
    refine .stmt (fun _ _ => trivial) fun db h => ?_
    unfold Schema.createTable
    cases hget : db.tables .observation_state with
    | some rows => exact ⟨db, rfl, h, by rw [hget]; rfl⟩
    | none => exact ⟨_, rfl, h, by simp⟩
  have hrow : Spec (fun db : SchemaDb Row => db.tables .alert_events = none ∧ (db.tables .observation_state).isSome)
      (stmt (Schema.insertObservation defaults)) (fun _ db => db.tables .alert_events = none) (fun _ => True) 1 := by
    refine .stmt (fun _ _ => trivial) fun db h => ?_
    obtain ⟨db', hrun, -, -, -⟩ := insertObservation_kept defaults h.2
    refine ⟨db', hrun, ?_⟩
    unfold Schema.insertObservation at hrun
    split at hrun <;> cases hrun <;> exact h.1
  show Spec _ (Schema.migrateObservation defaults) _ _ (1 + 3)
  refine hread.bind fun v => .each fun db h => ?_
  have hv : ¬v > OBSERVATION_SCHEMA_VERSION := Int.not_lt.mpr h.1
  rw [if_neg hv]
  have hset : Spec (fun db : SchemaDb Row => db.tables .alert_events = none) (stmt (Schema.setUserVersion 1))
      (fun _ db => Skipped db) (fun _ => True) 1 := .stmt (fun _ _ => trivial) fun db h => ⟨_, rfl, rfl, h⟩
  refine Spec.weaken (htable.bind fun _ => hrow.bind fun _ => hset.bind fun _ => .done fun _ h => h) ?_
    (fun _ _ h => h) (fun _ h => h) (Nat.le_refl 3)
  rintro db' rfl
  exact h.2

/-- **The order of the migrations matters.** Once the observation migration has gone through on a database without the
alert tables, no start-up and no start of the agent creates them. -/
theorem observationFirst_never {n m : ℕ} {v : ℤ} (hrun : migrateObservation defaults n db = (some (v, m), db'))
    (hversion : db.userVersion ≤ 1) (hmissing : db.tables .alert_events = none) (events : List (Event Row)) :
    (Runs.run (step defaults) db' events).tables .alert_events = none := by
  have hskipped : Skipped db' := ((Skipped.migrateObservation defaults n db ⟨hversion, hmissing⟩).2 v m db' hrun).1
  refine (Runs.invariant (I := Skipped) hskipped (fun db e h => ?_) events).missing
  cases e with
  | startUp n => exact Skipped.setupDb defaults n db h
  | agentStart n =>
    show Skipped (Schema.runMigration n db).2
    rw [h.runMigration]
    exact h
  | work w =>
    refine ⟨((w.works db).userVersion).trans h.userVersion, ?_⟩
    have htables := (w.works db).tables .alert_events
    rw [h.missing] at htables
    exact Option.isSome_eq_false_iff.mp htables |> Option.isNone_iff_eq_none.mp

end MikoV2.Storage.Schema
