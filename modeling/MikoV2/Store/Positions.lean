import Mathlib.Data.Rat.Defs
import Mathlib.Logic.Function.Basic
import MikoV2.Lib.Sqlite

/-!
# The positions table

The table `positions` by its primary key, and the calls of `SqliteWriter` that the order manager makes. Every
call may raise because the writer is not connected; the statements and commits inside may fail as well, which
`get_version` and `update_position_versioned` turn into `0` and `False`.

* `updateStmt`, `insertStmt`, `closeStmt` : the three statements;
* `getVersion`, `updatePositionVersioned`, `openPosition`, `closePosition` : the calls;
* `updatePositionVersioned_cases`, `openPosition_cases` : everything they can do.
-/

namespace MikoV2.Store
open Sqlite

/-- A row of `positions`. -/
structure PositionRow where
  symbol : String
  side : String
  status : String
  openedAtMs : ℤ
  closedAtMs : Option ℤ := none
  closeReason : Option String := none
  avg : ℚ
  qtyOpen : ℚ
  qtyRemaining : ℚ
  originalPlannedEntry : ℚ
  originalTp : ℚ
  originalSl : ℚ
  currentTpShifted : ℚ
  currentSlShifted : ℚ
  whaleTrustScore : ℤ
  universeStatus : String
  realizedPnl : ℚ := 0
  feeTotal : ℚ := 0
  rMultiple : Option ℚ := none
  version : ℤ
  /-- a record: the fill event whose update or insert wrote the row last -/
  stamp : Option ℕ
  deriving DecidableEq

/-- The table by its primary key `position_id`. -/
abbrev Positions := String → Option PositionRow

/-- The columns that the versioned update sets. -/
def PositionRow.revise (row : PositionRow) (newAvg newTp newSl : ℚ) (version : ℤ) (stamp : Option ℕ) : PositionRow :=
  { row with avg := newAvg, currentTpShifted := newTp, currentSlShifted := newSl, version := version, stamp := stamp }

/-! ## Statements -/

/-- `UPDATE positions SET avg, current_tp_shifted, current_sl_shifted, version WHERE position_id AND version`, with
the number of rows changed. -/
def updateStmt (positionId : String) (newAvg newTp newSl : ℚ) (expectedVersion : ℤ) (stamp : Option ℕ)
    (db : Positions) : ℕ × Positions :=
  match db positionId with
  | none => (0, db)
  | some row =>
    if row.version = expectedVersion - 1 then
      (1, Function.update db positionId (some (row.revise newAvg newTp newSl expectedVersion stamp)))
    else (0, db)

/-- `INSERT OR IGNORE INTO positions`. -/
def insertStmt (positionId : String) (row : PositionRow) (db : Positions) : ℕ × Positions :=
  match db positionId with
  | some _ => (0, db)
  | none => (1, Function.update db positionId (some row))

/-- `UPDATE positions SET status='closed', … WHERE position_id`. -/
def closeStmt (positionId closeReason : String) (realizedPnl feeTotal : ℚ) (rMultiple : Option ℚ) (closedAtMs : ℤ)
    (db : Positions) : ℕ × Positions :=
  match db positionId with
  | none => (0, db)
  | some row => (1, Function.update db positionId (some { row with
      status := "closed", closedAtMs := some closedAtMs, closeReason := some closeReason,
      realizedPnl := realizedPnl, feeTotal := feeTotal, rMultiple := rMultiple }))

/-! ## Calls -/

/-- The calls of the connection inside a call of the writer. -/
inductive WriterCall where
  | statement
  | commit

/-- How a call of the writer goes. -/
structure CallScript where
  /-- the writer is not connected -/
  raises : Bool := false
  statementFails : Bool := false
  commitFails : Bool := false

def CallScript.faults (s : CallScript) : Faults WriterCall := fun _ call => match call with
  | .statement => s.statementFails
  | .commit => s.commitFails

/-- The call neither raises nor fails inside. -/
def CallScript.Succeeds (s : CallScript) : Prop := s.raises = false ∧ s.statementFails = false ∧ s.commitFails = false

instance : DecidablePred CallScript.Succeeds := fun _ => inferInstanceAs (Decidable (_ ∧ _))

/-- `get_version(position_id)`; `none` when it raises. -/
def getVersion (s : CallScript) (positionId : String) (c : Conn Positions) : Option ℤ :=
  if s.raises then none
  else if s.statementFails then some 0
  else some ((c.view positionId).elim 0 (·.version))

/-- `update_position_versioned(…)`; `none` when it raises. -/
def updatePositionVersioned (s : CallScript) (stamp : Option ℕ) (positionId : String) (newAvg newTp newSl : ℚ)
    (expectedVersion : ℤ) (c : Conn Positions) : Option Bool × Conn Positions :=
  if s.raises then (none, c)
  else match c.execute s.faults .statement (updateStmt positionId newAvg newTp newSl expectedVersion stamp) with
    | (none, c') => (some false, c')
    | (some rowcount, c') =>
      if rowcount = 0 then (some false, c')
      else match c'.commit s.faults .commit with
        | (ok, c'') => (some ok, c'')

/-- `open_position(payload)`; `false` when it raises. -/
def openPosition (s : CallScript) (positionId : String) (row : PositionRow) (c : Conn Positions) :
    Bool × Conn Positions :=
  if s.raises then (false, c)
  else match c.write s.faults .statement .commit (insertStmt positionId row) with
    | (r, c') => (r.isSome, c')

/-- `close_position(…)`; `false` when it raises. -/
def closePosition (s : CallScript) (positionId closeReason : String) (realizedPnl feeTotal : ℚ)
    (rMultiple : Option ℚ) (closedAtMs : ℤ) (c : Conn Positions) : Bool × Conn Positions :=
  if s.raises then (false, c)
  else match c.write s.faults .statement .commit
      (closeStmt positionId closeReason realizedPnl feeTotal rMultiple closedAtMs) with
    | (r, c') => (r.isSome, c')

/-! ## What they can do -/

section Cases
variable {s : CallScript} {positionId : String} {c c' : Conn Positions}

theorem updateStmt_cases (positionId : String) (newAvg newTp newSl : ℚ) (expectedVersion : ℤ) (stamp : Option ℕ)
    (db : Positions) :
    (updateStmt positionId newAvg newTp newSl expectedVersion stamp db = (0, db) ∧
        ∀ row, db positionId = some row → row.version ≠ expectedVersion - 1) ∨
      ∃ row, db positionId = some row ∧ row.version = expectedVersion - 1 ∧
        updateStmt positionId newAvg newTp newSl expectedVersion stamp db =
          (1, Function.update db positionId (some (row.revise newAvg newTp newSl expectedVersion stamp))) := by
  unfold updateStmt
  cases hrow : db positionId with
  | none => exact Or.inl ⟨rfl, fun row hsome => by cases hsome⟩
  | some row =>
    simp only
    by_cases hversion : row.version = expectedVersion - 1
    · rw [if_pos hversion]
      exact Or.inr ⟨row, rfl, hversion, rfl⟩
    · rw [if_neg hversion]
      refine Or.inl ⟨rfl, ?_⟩
      rintro _ ⟨⟩
      exact hversion

/-- The update raises before it does anything, or finds no row with the version before the expected one (or its
statement fails), or changes the row; the commit publishes the change unless it fails. -/
theorem updatePositionVersioned_cases {stamp : Option ℕ} {newAvg newTp newSl : ℚ} {expectedVersion : ℤ}
    {r : Option Bool} (h : updatePositionVersioned s stamp positionId newAvg newTp newSl expectedVersion c = (r, c')) :
    (s.raises = true ∧ r = none ∧ c' = c) ∨
      (s.raises = false ∧ r = some false ∧ c'.view = c.view ∧ c'.disk = c.disk ∧
        (s.statementFails = true ∨ ∀ row, c.view positionId = some row → row.version ≠ expectedVersion - 1)) ∨
        ∃ row, s.raises = false ∧ s.statementFails = false ∧ c.view positionId = some row ∧
          row.version = expectedVersion - 1 ∧
          c'.view = Function.update c.view positionId (some (row.revise newAvg newTp newSl expectedVersion stamp)) ∧
          ((s.commitFails = true ∧ r = some false ∧ c'.disk = c.disk) ∨
            (s.commitFails = false ∧ r = some true ∧ c'.disk = c'.view)) := by
  unfold updatePositionVersioned at h
  split at h
  · rename_i hraises
    cases h
    exact Or.inl ⟨hraises, rfl, rfl⟩
  rename_i hraises
  have hraises : s.raises = false := Bool.eq_false_iff.mpr hraises
  rcases hx : c.execute s.faults .statement (updateStmt positionId newAvg newTp newSl expectedVersion stamp) with ⟨r₁, c₁⟩
  rw [hx] at h
  rcases execute_cases hx with ⟨rfl, hf, hd, hv⟩ | ⟨rfl, hf, hd, hv⟩
  · cases h
    exact Or.inr (Or.inl ⟨hraises, rfl, hv, hd, Or.inl hf⟩)
  · simp only at h
    rcases updateStmt_cases positionId newAvg newTp newSl expectedVersion stamp c.view with
      ⟨hstmt, hnone⟩ | ⟨row, hrow, hversion, hstmt⟩
    · rw [hstmt] at h hv
      simp only [if_true] at h
      cases h
      exact Or.inr (Or.inl ⟨hraises, rfl, hv, hd, Or.inr hnone⟩)
    · rw [hstmt] at h hv
      simp only [Nat.succ_ne_zero, if_false] at h
      rcases hy : c₁.commit s.faults .commit with ⟨ok, c₂⟩
      rw [hy] at h
      cases h
      refine Or.inr (Or.inr ⟨row, hraises, hf, hrow, hversion, ?_, ?_⟩)
      · rcases commit_cases hy with ⟨-, -, -, hv'⟩ | ⟨-, -, -, hv'⟩ <;> rw [hv', hv]
      · rcases commit_cases hy with ⟨rfl, hc, hd', hv'⟩ | ⟨rfl, hc, hd', hv'⟩
        · exact Or.inl ⟨hc, rfl, hd'.trans hd⟩
        · exact Or.inr ⟨hc, rfl, hd'.trans hv'.symm⟩

/-- The insert raises, before its statement or in it or in its commit, or publishes the view with the row in it
unless one was there. -/
theorem openPosition_cases {row : PositionRow} {ok : Bool} (h : openPosition s positionId row c = (ok, c')) :
    (ok = false ∧ (s.raises = true ∨ s.statementFails = true ∨ s.commitFails = true) ∧ c'.disk = c.disk) ∨
      (ok = true ∧ (s.raises = false ∧ s.statementFails = false ∧ s.commitFails = false) ∧
        c'.view = (insertStmt positionId row c.view).2 ∧ c'.disk = c'.view) := by
  unfold openPosition at h
  split at h
  · rename_i hraises
    cases h
    exact Or.inl ⟨rfl, Or.inl hraises, rfl⟩
  rename_i hraises
  have hraises : s.raises = false := Bool.eq_false_iff.mpr hraises
  rcases hx : c.write s.faults .statement .commit (insertStmt positionId row) with ⟨r, c₁⟩
  rw [hx] at h
  cases h
  have hiff := write_isSome_iff hx
  have hdisk := write_cases hx
  cases r with
  | none =>
    refine Or.inl ⟨rfl, Or.inr ?_, ?_⟩
    · by_contra hno
      rw [not_or] at hno
      exact absurd (hiff.mpr ⟨Bool.eq_false_iff.mpr hno.1, Bool.eq_false_iff.mpr hno.2⟩) Bool.false_ne_true
    · rcases hdisk with ⟨-, hd, -⟩ | ⟨-, -, hd, -⟩ | ⟨hr, -⟩
      · exact hd
      · exact hd
      · cases hr
  | some n =>
    obtain ⟨hst, hco⟩ := hiff.mp rfl
    rcases hdisk with ⟨hr, -⟩ | ⟨hr, -⟩ | ⟨-, hd, hv⟩
    · cases hr
    · cases hr
    · exact Or.inr ⟨rfl, ⟨hraises, hst, hco⟩, hv, hd.trans hv.symm⟩

end Cases

end MikoV2.Store
