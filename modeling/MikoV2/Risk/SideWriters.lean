import MikoV2.Emergency.Close
import MikoV2.Risk.Funding
import MikoV2.Risk.WhaleRadar
import MikoV2.Writer.Rows

/-!
# Writers of rows that are not theirs

The emergency closer, the whale radar and the funding monitor write a row of `positions` for a symbol, with a payload
that names few columns. `execute_wal` replaces the row that was there by one with its defaults.

* `Framed` : the columns that are not named, the rows that are open and the number that is counted are unchanged;
* `SideCall` : the calls of the three; `Replaces` : the statement runs; `Agrees` : the row has the defaults already;
* `framed_iff` : a call frames the table exactly when its statement does not run or the row agrees.
-/

namespace MikoV2.Risk
open Transactions Writer Emergency
open Sqlite (insertOrReplace mem_insertOrReplace)

/-- Every row keeps its columns but the named ones, no closed row is opened and no open row appears, and neither the
positions that are listed as open nor their number for the limit change. -/
structure Framed (named : List PositionColumn) (db db' : Db) : Prop where
  keeps : ∀ r ∈ db.positions, ∃ r' ∈ db'.positions, ∀ column ∉ named, r' column = r column
  closed : ∀ r ∈ db.positions, r .status = .text "closed" →
    ∃ r' ∈ db'.positions, r' .positionId = r .positionId ∧ r' .status = .text "closed"
  noOpen : ∀ r' ∈ db'.positions, r' .status = .text "open" →
    ∃ r ∈ db.positions, r .positionId = r' .positionId ∧ r .status = .text "open"
  listed : ∀ pid, (∃ r ∈ listOpenPositions db', r .positionId = pid) ↔ ∃ r ∈ listOpenPositions db, r .positionId = pid
  counted : countPositions db' = countPositions db

/-- A call of one of the three. -/
inductive SideCall where
  | emergency (symbol : String)
  | trade (cfg : WhaleRadarConfig) (t : Trade)
  | funding (symbol : String) (rate : ℚ) (timestampMs : ℤ)

namespace SideCall

def symbol : SideCall → String
  | .emergency symbol => symbol
  | .trade _ t => t.symbol
  | .funding symbol _ _ => symbol

def payload : SideCall → Payload
  | .emergency symbol => emergencyPayload symbol
  | .trade _ t => WhaleRadar.tradePayload t.symbol t.price
  | .funding symbol rate _ => FundingMonitor.ratePayload symbol rate

/-- The columns that the payload names, besides the key. -/
def named : SideCall → List PositionColumn
  | .emergency _ => [.emergencyPending]
  | _ => [.avg, .originalPlannedEntry, .version]

/-- The connection after the call. -/
def conn (s : CallScript) (radar : WhaleRadar) (monitor : FundingMonitor) (c : Conn Db) : SideCall → Conn Db
  | .emergency symbol => emergencyPersistState s symbol c
  | .trade cfg t => (WhaleRadar.recordTrade cfg s t (radar, c)).2
  | .funding symbol rate timestampMs => (FundingMonitor.recordFundingRate s symbol rate timestampMs (monitor, c)).2

/-- The statement runs: the writer is connected, the statement does not fail, the trade is large enough. -/
def Replaces (s : CallScript) (call : SideCall) : Prop :=
  s.connected = true ∧ s.statement = .done ∧ match call with
    | .trade cfg t => cfg.oiDeltaUsdMin ≤ |t.oiDeltaUsd|
    | _ => True

/-- The row has what `execute_wal` writes into the columns that are not named, and counts for the limit if and only if
the new one does. -/
def Agrees (call : SideCall) (r : PositionRow) : Prop :=
  (∀ column ∉ call.named, r column = executeWalPosition call.payload column) ∧
    (r .emergencyPending = .num 0 ↔ executeWalPosition call.payload .emergencyPending = .num 0)

end SideCall

section Frames
variable {named : List PositionColumn} {db : Db} {c : Conn Db} {s : CallScript} {call : SideCall}

theorem Framed.refl (named : List PositionColumn) (db : Db) : Framed named db db :=
  ⟨fun r hr => ⟨r, hr, fun _ _ => rfl⟩, fun r hr hstatus => ⟨r, hr, rfl, hstatus⟩,
    fun r hr hstatus => ⟨r, hr, rfl, hstatus⟩, fun _ => Iff.rfl, rfl⟩

theorem mem_listOpenPositions {r : PositionRow} : r ∈ listOpenPositions db ↔ r ∈ db.positions ∧ isOpen r = true := by
  rw [listOpenPositions, List.mem_mergeSort, List.mem_filter]

/-- The rows after the insert: those of other positions, and the new one. -/
theorem mem_insertOrReplacePosition {new r : PositionRow} {pid : String} (hpid : new .positionId = .text pid) :
    r ∈ (insertOrReplacePosition new db).2.positions ↔ (r ∈ db.positions ∧ r .positionId ≠ .text pid) ∨ r = new := by
  have hiff := clash_iff hpid r
  show r ∈ insertOrReplace _ _ _ ↔ _
  rw [mem_insertOrReplace, ← Bool.not_eq_true, hiff]

/-- A row that is replaced is counted again when both or neither are pending. -/
theorem countPositions_replace_iff {new r : PositionRow} {pid : String} (hk : KeyedDb db)
    (hpid : new .positionId = .text pid) (hr : row db pid = some r) :
    countPositions (insertOrReplacePosition new db).2 = countPositions db ↔
      (r .emergencyPending = .num 0 ↔ new .emergencyPending = .num 0) := by
  have hsum := countPositions_replace hk hpid
  rw [hr, Option.elim_some] at hsum
  by_cases hold : r .emergencyPending = .num 0 <;> by_cases hnew : new .emergencyPending = .num 0 <;>
    simp only [hold, hnew, if_true, if_false, iff_true, iff_false, not_true_eq_false] at hsum ⊢ <;> omega

/-- An open row that is inserted, and found framed, has replaced a row with the same columns. -/
theorem Framed.replaced {new : PositionRow} {pid : String} (h : Framed named db (insertOrReplacePosition new db).2)
    (hk : KeyedDb db) (hpid : new .positionId = .text pid) (hopen : new .status = .text "open")
    (hid : .positionId ∉ named) : ∃ r, row db pid = some r ∧ ∀ column ∉ named, r column = new column := by
  have hnew : new ∈ (insertOrReplacePosition new db).2.positions := (mem_insertOrReplacePosition hpid).mpr (Or.inr rfl)
  obtain ⟨r, hr, hrid, -⟩ := h.noOpen new hnew hopen
  obtain ⟨r', hr', hsame⟩ := h.keeps r hr
  have heq : r' = new := by
    rcases (mem_insertOrReplacePosition hpid).mp hr' with ⟨-, hne⟩ | heq
    · exact absurd ((hsame _ hid).trans (hrid.trans hpid)) hne
    · exact heq
  subst heq
  exact ⟨r, hk.row hr (hrid.trans hpid), fun column hcol => (hsame column hcol).symm⟩

/-- A row that replaces one with the same columns. -/
theorem framed_replace {new r : PositionRow} {pid : String} (hk : KeyedDb db) (hpid : new .positionId = .text pid)
    (hopen : new .status = .text "open") (hstatus : .status ∉ named) (hrow : row db pid = some r)
    (hsame : ∀ column ∉ named, r column = new column)
    (hcount : countPositions (insertOrReplacePosition new db).2 = countPositions db) :
    Framed named db (insertOrReplacePosition new db).2 := by
  have hmem : ∀ x, x ∈ (insertOrReplacePosition new db).2.positions ↔
      (x ∈ db.positions ∧ x .positionId ≠ .text pid) ∨ x = new := fun _ => mem_insertOrReplacePosition hpid
  have hnew := (hmem new).mpr (Or.inr rfl)
  have hr := row_mem hrow
  have hrid := row_positionId hrow
  have hropen : r .status = .text "open" := (hsame _ hstatus).trans hopen
  have hown : ∀ x ∈ db.positions, x .positionId = .text pid → x = r := by
    intro x hx hxid
    have hxrow := hk.row hx hxid
    rw [hrow] at hxrow
    exact (Option.some.inj hxrow).symm
  refine ⟨fun x hx => ?_, fun x hx hclosed => ?_, fun x hx hxopen => ?_, fun p => ?_, hcount⟩
  · by_cases hxid : x .positionId = .text pid
    · rw [hown x hx hxid]
      exact ⟨new, hnew, fun column hcol => (hsame column hcol).symm⟩
    · exact ⟨x, (hmem x).mpr (Or.inl ⟨hx, hxid⟩), fun _ _ => rfl⟩
  · by_cases hxid : x .positionId = .text pid
    · rw [hown x hx hxid, hropen] at hclosed
      exact absurd hclosed (by decide)
    · exact ⟨x, (hmem x).mpr (Or.inl ⟨hx, hxid⟩), rfl, hclosed⟩
  · rcases (hmem x).mp hx with ⟨hxold, -⟩ | rfl
    · exact ⟨x, hxold, rfl, hxopen⟩
    · exact ⟨r, hr, hrid.trans hpid.symm, hropen⟩
  · have hisopen : ∀ x : PositionRow, x .status = .text "open" → isOpen x = true := fun x hx => by simp [isOpen, hx]
    simp only [mem_listOpenPositions]
    constructor
    · rintro ⟨x, ⟨hx, hxopen⟩, rfl⟩
      rcases (hmem x).mp hx with ⟨hxold, -⟩ | rfl
      · exact ⟨x, ⟨hxold, hxopen⟩, rfl⟩
      · exact ⟨r, ⟨hr, hisopen r hropen⟩, hrid.trans hpid.symm⟩
    · rintro ⟨x, ⟨hx, hxopen⟩, rfl⟩
      by_cases hxid : x .positionId = .text pid
      · exact ⟨new, ⟨hnew, hisopen new hopen⟩, hpid.trans hxid.symm⟩
      · exact ⟨x, ⟨(hmem x).mpr (Or.inl ⟨hx, hxid⟩), hxopen⟩, rfl⟩

/-- A row put in the place of the one with its id. -/
theorem framed_insertOrReplace_iff {new : PositionRow} {pid : String} (hk : KeyedDb db)
    (hpid : new .positionId = .text pid) (hopen : new .status = .text "open") (hid : .positionId ∉ named)
    (hstatus : .status ∉ named) :
    Framed named db (insertOrReplacePosition new db).2 ↔ ∃ r, row db pid = some r ∧
      (∀ column ∉ named, r column = new column) ∧ (r .emergencyPending = .num 0 ↔ new .emergencyPending = .num 0) := by
  constructor
  · intro h
    obtain ⟨r, hrow, hsame⟩ := h.replaced hk hpid hopen hid
    exact ⟨r, hrow, hsame, (countPositions_replace_iff hk hpid hrow).mp h.counted⟩
  · rintro ⟨r, hrow, hsame, hpending⟩
    exact framed_replace hk hpid hopen hstatus hrow hsame ((countPositions_replace_iff hk hpid hrow).mpr hpending)

theorem SideCall.payload_row (call : SideCall) : executeWalPosition call.payload .positionId = .text call.symbol ∧
    executeWalPosition call.payload .status = .text "open" := by
  cases call <;> exact ⟨rfl, rfl⟩

theorem SideCall.named_spec (call : SideCall) :
    PositionColumn.positionId ∉ call.named ∧ PositionColumn.status ∉ call.named := by
  cases call <;> simp [named]

/-- What the connection sees after a call: the database as it was, or with the row of the symbol replaced. -/
theorem SideCall.conn_view (s : CallScript) (radar : WhaleRadar) (monitor : FundingMonitor) (c : Conn Db)
    (call : SideCall) :
    (¬ call.Replaces s ∧ (call.conn s radar monitor c).view = c.view) ∨
      (call.Replaces s ∧ (call.conn s radar monitor c).view =
        (insertOrReplacePosition (executeWalPosition call.payload) c.view).2) := by
  have hwal : ∀ payload : Payload, payload "order_id" = none →
      (¬ (s.connected = true ∧ s.statement = .done) ∧ (executeWal s payload c).2.view = c.view) ∨
        ((s.connected = true ∧ s.statement = .done) ∧ (executeWal s payload c).2.view =
          (insertOrReplacePosition (executeWalPosition payload) c.view).2) := by
    intro payload hnone
    rcases hx : (Op.executeWal payload).call s c with ⟨ok, c'⟩
    have hcall : (executeWal s payload c).2 = c' := congrArg Prod.snd hx
    rw [hcall]
    rcases (Op.call_view hx).1 with ⟨hno, -, hsame⟩ | ⟨hex, hrun, -⟩
    · exact Or.inl ⟨fun h => hno ⟨h.1, trivial, h.2⟩, hsame⟩
    · refine Or.inr ⟨⟨hex.1, hex.2.2⟩, ?_⟩
      rw [hrun, Op.stmt, executeWalStmt, hnone]
      rfl
  cases call with
  | emergency symbol =>
    exact (hwal (emergencyPayload symbol) rfl).imp (fun h => ⟨fun hr => h.1 ⟨hr.1, hr.2.1⟩, h.2⟩)
      fun h => ⟨⟨h.1.1, h.1.2, trivial⟩, h.2⟩
  | funding symbol rate timestampMs =>
    exact (hwal (FundingMonitor.ratePayload symbol rate) rfl).imp (fun h => ⟨fun hr => h.1 ⟨hr.1, hr.2.1⟩, h.2⟩)
      fun h => ⟨⟨h.1.1, h.1.2, trivial⟩, h.2⟩
  | trade cfg t =>
    have h := hwal (WhaleRadar.tradePayload t.symbol t.price) rfl
    simp only [Replaces, conn, WhaleRadar.recordTrade_conn]
    by_cases hsmall : |t.oiDeltaUsd| < cfg.oiDeltaUsdMin
    · rw [if_pos hsmall]
      exact Or.inl ⟨fun hr => absurd hr.2.2 (not_le.mpr hsmall), rfl⟩
    · rw [if_neg hsmall]
      have hlarge := not_lt.mp hsmall
      rcases h with ⟨hno, hsame⟩ | ⟨hex, hrun⟩
      · exact Or.inl ⟨fun hr => hno ⟨hr.1, hr.2.1⟩, hsame⟩
      · exact Or.inr ⟨⟨hex.1, hex.2, hlarge⟩, hrun⟩

/-- **The side writers leave the positions of others alone** exactly when their statement does not run, or there is a row
for the symbol that agrees with what `execute_wal` writes. -/
theorem framed_iff (s : CallScript) (radar : WhaleRadar) (monitor : FundingMonitor) (call : SideCall)
    (hk : KeyedDb c.view) :
    Framed call.named c.view (call.conn s radar monitor c).view ↔
      (call.Replaces s → ∃ r, row c.view call.symbol = some r ∧ call.Agrees r) := by
  rcases call.conn_view s radar monitor c with ⟨hno, hview⟩ | ⟨hyes, hview⟩
  · rw [hview]
    exact iff_of_true (Framed.refl _ _) fun h => absurd h hno
  · rw [hview]
    refine Iff.trans ?_ (forall_prop_of_true hyes).symm
    obtain ⟨hpid, hopen⟩ := call.payload_row
    obtain ⟨hid, hstatus⟩ := call.named_spec
    exact framed_insertOrReplace_iff hk hpid hopen hid hstatus

end Frames

/-- The second rate of a symbol meets the row that the first one has made. -/
theorem framed_iff_secondRate :
    let c := (SideCall.funding "BTCUSDT" (1 / 10000) 0).conn {} .fresh .fresh (Conn.openDb {})
    Framed [.avg, .originalPlannedEntry, .version] c.view
      ((SideCall.funding "BTCUSDT" (2 / 10000) 1).conn {} .fresh .fresh c).view := by
  refine (framed_iff {} .fresh .fresh (.funding "BTCUSDT" (2 / 10000) 1) ?_).mpr fun _ => ?_
  · exact keyedDb_empty.executeWal (FundingMonitor.ratePayload "BTCUSDT" (1 / 10000)) 0
  refine ⟨_, rfl, fun column hcol => ?_, Iff.rfl⟩
  cases column <;> first | rfl | exact absurd hcol (by simp [SideCall.named])

/-- The first rate of a symbol appears as an open position. -/
theorem not_framed_firstRate :
    ¬ Framed [.avg, .originalPlannedEntry, .version] {}
      ((SideCall.funding "BTCUSDT" (1 / 10000) 0).conn {} .fresh .fresh (Conn.openDb {})).view := by
  intro h
  obtain ⟨r, hr, -⟩ := h.noOpen _ List.mem_cons_self rfl
  cases hr

end MikoV2.Risk
