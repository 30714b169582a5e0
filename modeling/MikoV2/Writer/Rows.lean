import MikoV2.Writer.Calls

/-!
# Positions by their id

What the statements of the writer do to the row of a position, and that they keep the primary key.

* `row_insertOrReplace`, `row_open`, `row_close`, `row_update` : the row of a position after each statement;
* `KeyedDb` : no two rows of `positions` have one id; `KeyedDb.stmt` : every operation keeps it;
* `countPositions_openStmt`, `countPositions_closeStmt`, `countPositions_replace` : the number of positions after them.
-/

namespace MikoV2.Writer
open Transactions Sqlite

section Rows
variable {db : Db} {pid : String} {r : PositionRow}

theorem selects_position (pid : String) :
    Selects (clash PositionColumn.positionId) fun row => decide (row .positionId = .text pid) where
  same := by
    intro r s h
    simp only [clash, decide_eq_true_eq] at h
    rw [h.2]
  meet := by
    intro r s hr hs
    simp only [clash, decide_eq_true_eq] at *
    rw [hr, hs]
    simp

theorem clash_comm {Column : Type} (key : Column) (r s : Column → SqlValue) : clash key r s = clash key s r := by
  unfold clash
  rw [decide_eq_decide]
  constructor <;> rintro ⟨hne, heq⟩
  · exact ⟨heq ▸ hne, heq.symm⟩
  · exact ⟨heq ▸ hne, heq.symm⟩

theorem row_positionId (h : row db pid = some r) : r .positionId = .text pid := by
  have := List.find?_some h
  simpa using this

theorem row_mem (h : row db pid = some r) : r ∈ db.positions := List.mem_of_find?_eq_some h

@[simp] theorem row_insertOrReplace (new : PositionRow) :
    row (insertOrReplacePosition new db).2 pid = if new .positionId = .text pid then some new else row db pid := by
  have h := find_insertOrReplace (selects_position pid) new db.positions
  simpa [row, insertOrReplacePosition] using h

@[simp] theorem row_insertOrReplaceOrder (new : OrderRow) : row (insertOrReplaceOrder new db).2 pid = row db pid := rfl

@[simp] theorem row_open (new : PositionRow) :
    row (openStmt new db).2 pid = (row db pid).or (if new .positionId = .text pid then some new else none) := by
  have h := find_insertOrIgnore (selects_position pid) new db.positions
  simpa [row, openStmt] using h

@[simp] theorem row_close (positionId closeReason : String) (realizedPnl feeTotal : ℚ) (rMultiple : Option ℚ)
    (nowMs : ℤ) :
    row (closeStmt positionId closeReason realizedPnl feeTotal rMultiple nowMs db).2 pid =
      if pid = positionId then (row db pid).map (closedRow closeReason realizedPnl feeTotal rMultiple nowMs)
      else row db pid := by
  have h := find_update (q := fun row => decide (row .positionId = .text pid))
    (f := closedRow closeReason realizedPnl feeTotal rMultiple nowMs) (fun r => rfl)
    (fun row => decide (row .positionId = .text positionId)) db.positions
  have hread : row (closeStmt positionId closeReason realizedPnl feeTotal rMultiple nowMs db).2 pid =
      (row db pid).map fun r => if r .positionId = .text positionId then
        closedRow closeReason realizedPnl feeTotal rMultiple nowMs r else r := by
    simpa [row, closeStmt] using h
  rw [hread]
  cases hrow : row db pid with
  | none => split <;> rfl
  | some r => simp [row_positionId hrow]; split <;> rfl

@[simp] theorem row_update (positionId : String) (newAvg newTp newSl : ℚ) (expectedVersion : ℤ) :
    row (updateStmt positionId newAvg newTp newSl expectedVersion db).2 pid =
      (row db pid).map fun r => if pid = positionId ∧ r .version = .num ((expectedVersion - 1 : ℤ) : ℚ) then
        revisedRow newAvg newTp newSl expectedVersion r else r := by
  have h := find_update (q := fun row => decide (row .positionId = .text pid))
    (f := revisedRow newAvg newTp newSl expectedVersion) (fun r => rfl)
    (fun row => decide (row .positionId = .text positionId ∧
      row .version = .num ((expectedVersion - 1 : ℤ) : ℚ))) db.positions
  have hread : row (updateStmt positionId newAvg newTp newSl expectedVersion db).2 pid =
      (row db pid).map fun r => if r .positionId = .text positionId ∧
        r .version = .num ((expectedVersion - 1 : ℤ) : ℚ) then revisedRow newAvg newTp newSl expectedVersion r
        else r := by
    simpa [row, updateStmt] using h
  rw [hread]
  cases hrow : row db pid with
  | none => rfl
  | some r => simp [row_positionId hrow]

@[simp] theorem row_insertWhale (new : WhaleColumn → SqlValue) : row (insertWhaleStmt new db).2 pid = row db pid := rfl

@[simp] theorem row_insertEquity (new : EquityColumn → SqlValue) : row (insertEquityStmt new db).2 pid = row db pid :=
  rfl

@[simp] theorem row_daily (new : DailyRow) : row (insertOrReplaceDaily new db).2 pid = row db pid := rfl

end Rows

/-! ## The primary key -/

/-- No two rows of `positions` have one id. -/
def KeyedDb (db : Db) : Prop := Keyed (clash .positionId) db.positions

section Keys
variable {db : Db} {r : PositionRow} {pid : String}

/-- A row with an id is the row of the id. -/
theorem KeyedDb.row (h : KeyedDb db) (hr : r ∈ db.positions) (hpid : r .positionId = .text pid) :
    Writer.row db pid = some r :=
  Keyed.find h (selects_position pid) hr (by simpa using hpid)

theorem keyedDb_empty : KeyedDb {} := List.Pairwise.nil

theorem KeyedDb.executeWal (h : KeyedDb db) (payload : Payload) (nowMs : ℤ) :
    KeyedDb (executeWalStmt payload nowMs db).2 := by
  unfold executeWalStmt
  split
  · exact h
  · exact Keyed.insertOrReplace (clash_comm _) h _

theorem KeyedDb.stmt (h : KeyedDb db) (op : Op) (nowMs : ℤ) : KeyedDb (op.stmt nowMs db).2 := by
  cases op with
  | executeWal payload => exact h.executeWal payload nowMs
  | openPosition payload => exact Keyed.insertOrIgnore (clash_comm _) h _
  | closePosition positionId closeReason realizedPnl feeTotal rMultiple =>
    exact Keyed.update h fun r s => ⟨rfl, rfl⟩
  | updatePositionVersioned positionId newAvg newTp newSl expectedVersion =>
    exact Keyed.update h fun r s => ⟨rfl, rfl⟩
  | insertWhaleEvent payload => exact h
  | insertEquitySnapshot payload => exact h
  | upsertDailyStats payload => exact h

end Keys

/-! ## The number of positions -/

section Counting
variable {db : Db} {pid : String} {new r : PositionRow}

theorem clash_iff (hpid : new .positionId = .text pid) (r : PositionRow) :
    clash .positionId new r = true ↔ r .positionId = .text pid := by
  simp [clash, hpid]

theorem row_isSome : (row db pid).isSome = true ↔ ∃ r ∈ db.positions, r .positionId = .text pid := by
  simp [row, List.find?_isSome]

theorem openStmt_some (hpid : new .positionId = .text pid) (h : row db pid = some r) : (openStmt new db).2 = db := by
  have hany : db.positions.any (clash .positionId new) = true :=
    List.any_eq_true.mpr ⟨r, row_mem h, (clash_iff hpid r).mpr (row_positionId h)⟩
  simp [openStmt, insertOrIgnore_of_clash hany]

theorem countPositions_openStmt (hpid : new .positionId = .text pid) (h : row db pid = none) :
    countPositions (openStmt new db).2 = countPositions db + if new .emergencyPending = .num 0 then 1 else 0 := by
  have hany : db.positions.any (clash .positionId new) = false := by
    rw [List.any_eq_false]
    intro r hr hclash
    have hsome := row_isSome.mpr ⟨r, hr, (clash_iff hpid r).mp hclash⟩
    rw [h] at hsome
    cases hsome
  simp [countPositions, openStmt, insertOrIgnore_of_fresh hany, List.countP_cons]

theorem countPositions_closeStmt (positionId closeReason : String) (realizedPnl feeTotal : ℚ) (rMultiple : Option ℚ)
    (nowMs : ℤ) : countPositions (closeStmt positionId closeReason realizedPnl feeTotal rMultiple nowMs db).2 =
      countPositions db := by
  unfold countPositions closeStmt Sqlite.update
  rw [List.countP_map]
  refine List.countP_congr fun r _ => ?_
  simp only [Function.comp]
  split <;> exact Iff.rfl

/-- The row that is replaced is no longer counted, the new one is. -/
theorem countPositions_replace (hk : KeyedDb db) (hpid : new .positionId = .text pid) :
    countPositions (insertOrReplacePosition new db).2 +
        (row db pid).elim 0 (fun r => if r .emergencyPending = .num 0 then 1 else 0) =
      countPositions db + if new .emergencyPending = .num 0 then 1 else 0 := by
  have hsum := countP_insertOrReplace (clash .positionId) new db.positions
    fun row => decide (row .emergencyPending = .num 0)
  cases hrow : row db pid with
  | none =>
    have hnil : db.positions.filter (clash .positionId new) = [] := by
      rw [List.filter_eq_nil_iff]
      intro r hr hclash
      have hsome := row_isSome.mpr ⟨r, hr, (clash_iff hpid r).mp hclash⟩
      rw [hrow] at hsome
      cases hsome
    rw [hnil] at hsum
    simpa [countPositions, insertOrReplacePosition] using hsum
  | some r =>
    have hone : db.positions.filter (clash .positionId new) = [r] := by
      refine Keyed.filter_eq hk ⟨fun x y h => ?_, fun x y hx hy => ?_⟩ (row_mem hrow)
        ((clash_iff hpid r).mpr (row_positionId hrow))
      · simp only [clash, decide_eq_true_eq] at h ⊢
        rw [h.2]
      · rw [clash_iff hpid] at hx hy
        simp [clash, hx, hy]
    rw [hone] at hsum
    simpa [countPositions, insertOrReplacePosition, List.countP_cons] using hsum

end Counting

end MikoV2.Writer
