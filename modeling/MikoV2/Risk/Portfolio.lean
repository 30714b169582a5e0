import Mathlib.Data.Finset.Card
import Mathlib.Data.Finset.SDiff
import MikoV2.Emergency.Close
import MikoV2.Lib.Runs
import MikoV2.Writer.Rows

/-!
# The limit on positions

`check_new_position` counts the rows of `positions` that have no emergency pending.

* `checkNewPosition` : the check; `Lifecycle` : the calls that make the history of a position;
* `Ledger` : the positions opened, closed and marked by a history, which is what the limit is about;
* `Counted` : what the table has to do with the ledger; `counted_run` : every history keeps it;
* `checkNewPosition_iff` : the histories after which the check says what the ledger says.
-/

namespace MikoV2.Risk
open Transactions Writer Emergency
open Sqlite (Keyed)

structure PortfolioRiskConfig where
  environment : String := "TEST"

def PortfolioRiskConfig.maxPositions (cfg : PortfolioRiskConfig) : ℕ := if cfg.environment = "TEST" then 3 else 2

/-- `check_new_position`; `count` is `none` when the fetch raises or returns no row. -/
def checkNewPosition (cfg : PortfolioRiskConfig) (count : Option ℕ) : Bool × String :=
  if cfg.maxPositions ≤ count.getD 0 then (false, "MAX_POSITIONS_EXCEEDED") else (true, "OK")

/-- A call in the life of a position. -/
inductive Lifecycle where
  /-- `open_position` with the id and the other keys of the payload -/
  | openPosition (positionId : String) (payload : Payload)
  | closePosition (positionId closeReason : String) (realizedPnl feeTotal : ℚ) (rMultiple : Option ℚ)
  /-- `execute_wal({position_id, emergency_pending: 1})` -/
  | emergency (positionId : String)

namespace Lifecycle

def op : Lifecycle → Op
  | .openPosition positionId payload =>
    .openPosition (Function.update payload "position_id" (some (.text positionId)))
  | .closePosition positionId closeReason realizedPnl feeTotal rMultiple =>
    .closePosition positionId closeReason realizedPnl feeTotal rMultiple
  | .emergency positionId => .executeWal (emergencyPayload positionId)

/-- The database after a call at the time `e.1`. -/
def step (c : Conn Db) (e : ℤ × Lifecycle) : Conn Db := (e.2.op.call { nowMs := e.1 } c).2

end Lifecycle

/-! ## The ledger -/

/-- What a history has done: a position is opened once, and closed once it has been opened. -/
structure Ledger where
  opened : Finset String := ∅
  closed : Finset String := ∅
  marked : Finset String := ∅

namespace Ledger

def advance (l : Ledger) : Lifecycle → Ledger
  | .openPosition positionId _ => { l with opened := insert positionId l.opened }
  | .closePosition positionId .. => if positionId ∈ l.opened then { l with closed := insert positionId l.closed } else l
  | .emergency positionId => { l with marked := insert positionId l.marked }

def after (history : List (ℤ × Lifecycle)) : Ledger := Runs.run advance {} (history.map (·.2))

/-- The number of positions opened and not yet closed. -/
def openCount (l : Ledger) : ℕ := (l.opened \ l.closed).card

/-- Those of them that are not marked. -/
def openUnmarked (l : Ledger) : ℕ := ((l.opened \ l.closed) \ l.marked).card

/-- Those of them that are marked. -/
def openMarked (l : Ledger) : ℕ := ((l.opened \ l.closed) ∩ l.marked).card

/-- The positions that are closed and were never marked. -/
def closedUnmarked (l : Ledger) : ℕ := (l.closed \ l.marked).card

theorem openCount_eq (l : Ledger) : l.openCount = l.openUnmarked + l.openMarked :=
  (Finset.card_sdiff_add_card_inter _ _).symm

theorem card_unmarked {l : Ledger} (h : l.closed ⊆ l.opened) :
    (l.opened \ l.marked).card = l.openUnmarked + l.closedUnmarked := by
  have hsplit : l.opened \ l.marked = ((l.opened \ l.closed) \ l.marked) ∪ (l.closed \ l.marked) := by
    ext p
    have := @h p
    simp only [Finset.mem_sdiff, Finset.mem_union]
    tauto
  have hdisjoint : Disjoint ((l.opened \ l.closed) \ l.marked) (l.closed \ l.marked) := by
    rw [Finset.disjoint_left]
    intro p hp hp'
    simp only [Finset.mem_sdiff] at hp hp'
    exact hp.1.2 hp'.1
  rw [hsplit, Finset.card_union_of_disjoint hdisjoint]
  rfl

end Ledger

/-! ## The table -/

/-- The rows of the table are those of the positions opened or marked, and are counted when they are not marked. -/
structure Counted (l : Ledger) (db : Db) : Prop where
  keyed : KeyedDb db
  rows : ∀ pid, (row db pid).isSome = true ↔ pid ∈ l.opened ∨ pid ∈ l.marked
  pending : ∀ pid r, row db pid = some r → (r .emergencyPending = .num 0 ↔ pid ∉ l.marked)
  count : countPositions db = (l.opened \ l.marked).card
  closed : l.closed ⊆ l.opened

section Table
variable {l : Ledger} {db : Db} {pid : String} {new : PositionRow}

/-- A row that is inserted with no emergency pending is counted unless there was one. -/
theorem Counted.open (h : Counted l db) (hpid : new .positionId = .text pid)
    (hpending : new .emergencyPending = .num 0) :
    Counted { l with opened := insert pid l.opened } (openStmt new db).2 := by
  have hother : ∀ p, new .positionId = SqlValue.text p ↔ p = pid := by
    intro p
    rw [hpid, SqlValue.text.injEq, eq_comm]
  refine ⟨Keyed.insertOrIgnore (clash_comm _) h.keyed _, fun p => ?_, fun p r hr => ?_, ?_,
    h.closed.trans (Finset.subset_insert _ _)⟩
  · have hrow := h.rows p
    rw [row_open, Option.isSome_or, Bool.or_eq_true, hrow, Finset.mem_insert]
    by_cases hp : p = pid
    · simp [hp, hpid]
    · simp [hp, (hother p).not.mpr hp]
  · rw [row_open] at hr
    rcases Option.or_eq_some_iff.mp hr with hold | ⟨hnone, hnew⟩
    · exact h.pending p r hold
    · split at hnew
      · cases hnew
        refine iff_of_true hpending fun hmarked => ?_
        have hsome := (h.rows p).mpr (Or.inr hmarked)
        rw [hnone] at hsome
        cases hsome
      · cases hnew
  · cases hrow : row db pid with
    | some r =>
      rw [openStmt_some hpid hrow, h.count]
      rcases (h.rows pid).mp (by rw [hrow]; rfl) with hopened | hmarked
      · rw [Finset.insert_eq_of_mem hopened]
      · rw [Finset.insert_sdiff_of_mem _ hmarked]
    | none =>
      have hno : ¬ (pid ∈ l.opened ∨ pid ∈ l.marked) := by
        rw [← h.rows pid, hrow]
        simp
      rw [not_or] at hno
      have hfresh : pid ∉ l.opened \ l.marked := fun hmem => hno.1 (Finset.mem_sdiff.mp hmem).1
      rw [countPositions_openStmt hpid hrow, h.count, if_pos hpending, Finset.insert_sdiff_of_notMem _ hno.2,
        Finset.card_insert_of_notMem hfresh]

/-- A close changes neither the rows nor their number. -/
theorem Counted.close (h : Counted l db) {closed : Finset String} (hclosed : closed ⊆ l.opened)
    (closeReason : String) (realizedPnl feeTotal : ℚ) (rMultiple : Option ℚ) (nowMs : ℤ) :
    Counted { l with closed := closed } (closeStmt pid closeReason realizedPnl feeTotal rMultiple nowMs db).2 := by
  refine ⟨Keyed.update h.keyed fun r s => ⟨rfl, rfl⟩, fun p => ?_, fun p r hr => ?_, ?_, hclosed⟩
  · rw [row_close, ← h.rows p]
    split
    · rw [Option.isSome_map]
    · rfl
  · rw [row_close] at hr
    split at hr
    · obtain ⟨r₀, hr₀, rfl⟩ := Option.map_eq_some_iff.mp hr
      exact h.pending p r₀ hr₀
    · exact h.pending p r hr
  · rw [countPositions_closeStmt]
    exact h.count

/-- A row that is replaced by one with an emergency pending is no longer counted. -/
theorem Counted.mark (h : Counted l db) (hpid : new .positionId = .text pid) (hpending : new .emergencyPending ≠ .num 0) :
    Counted { l with marked := insert pid l.marked } (insertOrReplacePosition new db).2 := by
  have hrow : ∀ p, row (insertOrReplacePosition new db).2 p = if pid = p then some new else row db p := by
    intro p
    simp only [row_insertOrReplace, hpid, SqlValue.text.injEq]
  refine ⟨Keyed.insertOrReplace (clash_comm _) h.keyed _, fun p => ?_, fun p r hr => ?_, ?_, h.closed⟩
  · rw [hrow, Finset.mem_insert]
    by_cases hp : pid = p
    · simp [hp]
    · rw [if_neg hp, h.rows p]
      simp [Ne.symm hp]
  · rw [hrow] at hr
    rw [Finset.mem_insert]
    by_cases hp : pid = p
    · rw [if_pos hp] at hr
      cases hr
      simp [hp, hpending]
    · rw [if_neg hp] at hr
      rw [h.pending p r hr]
      simp [Ne.symm hp]
  · have hsum := countPositions_replace h.keyed hpid
    rw [if_neg hpending, add_zero, h.count] at hsum
    have herase : l.opened \ insert pid l.marked = (l.opened \ l.marked).erase pid := by
      ext p
      simp only [Finset.mem_sdiff, Finset.mem_insert, Finset.mem_erase]
      tauto
    show _ = (l.opened \ insert pid l.marked).card
    rw [herase]
    by_cases hmem : pid ∈ l.opened \ l.marked
    · obtain ⟨hopened, hunmarked⟩ := Finset.mem_sdiff.mp hmem
      obtain ⟨r, hr⟩ := Option.isSome_iff_exists.mp ((h.rows pid).mpr (Or.inl hopened))
      rw [hr, Option.elim_some, if_pos ((h.pending pid r hr).mpr hunmarked)] at hsum
      rw [Finset.card_erase_of_mem hmem]
      omega
    · rw [Finset.erase_eq_of_notMem hmem, ← hsum]
      cases hr : row db pid with
      | none => rfl
      | some r =>
        have hmarked : pid ∈ l.marked := by
          by_contra hno
          rcases (h.rows pid).mp (by rw [hr]; rfl) with hopened | hmarked
          · exact hmem (Finset.mem_sdiff.mpr ⟨hopened, hno⟩)
          · exact hno hmarked
        rw [Option.elim_some, if_neg fun hzero => (h.pending pid r hr).mp hzero hmarked, add_zero]

theorem counted_empty : Counted {} {} :=
  { keyed := keyedDb_empty
    rows := fun pid => by simp [row]
    pending := nofun
    count := rfl
    closed := Finset.Subset.refl _ }

/-- Every call keeps the table in step with the ledger. -/
theorem Counted.step {c : Conn Db} (h : Counted l c.view) (e : ℤ × Lifecycle) :
    Counted (l.advance e.2) (Lifecycle.step c e).view := by
  have hcall : (Lifecycle.step c e).view = (e.2.op.stmt e.1 c.view).2 := by
    unfold Lifecycle.step
    rcases hx : e.2.op.call { nowMs := e.1 } c with ⟨ok, c'⟩
    rcases (Op.call_view hx).1 with ⟨hno, -, -⟩ | ⟨-, hrun, -⟩
    · refine absurd ⟨rfl, ?_, rfl⟩ hno
      cases e.2 with
      | openPosition positionId payload => simp [Lifecycle.op, Op.Complete]
      | _ => exact trivial
    · exact hrun
  rw [hcall]
  obtain ⟨nowMs, call⟩ := e
  cases call with
  | openPosition positionId payload =>
    refine h.open ?_ rfl
    simp [openRow, Payload.get]
  | closePosition positionId closeReason realizedPnl feeTotal rMultiple =>
    simp only [Ledger.advance]
    split
    · rename_i hopened
      exact h.close (Finset.insert_subset hopened h.closed) _ _ _ _ _
    · exact h.close h.closed _ _ _ _ _
  | emergency positionId =>
    have hstmt : Op.stmt nowMs (Lifecycle.emergency positionId).op =
        insertOrReplacePosition (executeWalPosition (emergencyPayload positionId)) := rfl
    rw [hstmt]
    refine h.mark rfl ?_
    have hone : executeWalPosition (emergencyPayload positionId) .emergencyPending = .num 1 := rfl
    rw [hone]
    decide

end Table

section Main
variable (cfg : PortfolioRiskConfig) (history : List (ℤ × Lifecycle))

/-- The table after a history. -/
def dbAfter (history : List (ℤ × Lifecycle)) : Db := (Runs.run Lifecycle.step (Conn.openDb {}) history).view

theorem counted_run : Counted (Ledger.after history) (dbAfter history) := by
  have h0 : Counted (Ledger.after []) (Conn.openDb ({} : Db)).view := counted_empty
  refine Runs.history_invariant (J := fun es (c : Conn Db) => Counted (Ledger.after es) c.view) h0
    (fun pre e h => ?_) history
  have hnext : Ledger.after (pre ++ [e]) = (Ledger.after pre).advance e.2 := by
    unfold Ledger.after
    rw [List.map_append, Runs.run_append]
    rfl
  rw [hnext]
  exact h.step e

theorem checkNewPosition_ok (count : ℕ) : checkNewPosition cfg (some count) = (true, "OK") ↔ count < cfg.maxPositions := by
  unfold checkNewPosition
  rw [Option.getD_some]
  split
  · simp; omega
  · simp; omega

/-- **The check says whether the number of open positions is below the limit** exactly when the closed positions that
it counts and the open ones that it does not count lead to the same side of the limit. -/
theorem checkNewPosition_iff :
    (checkNewPosition cfg (some (countPositions (dbAfter history))) = (true, "OK") ↔
        (Ledger.after history).openCount < cfg.maxPositions) ↔
      ((Ledger.after history).openUnmarked + max (Ledger.after history).closedUnmarked
          (Ledger.after history).openMarked < cfg.maxPositions ∨
        cfg.maxPositions ≤ (Ledger.after history).openUnmarked + min (Ledger.after history).closedUnmarked
          (Ledger.after history).openMarked) := by
  have h := counted_run history
  rw [checkNewPosition_ok, h.count, Ledger.card_unmarked h.closed, Ledger.openCount_eq]
  omega

end Main

/-- Three positions are opened and closed. -/
def threeClosed : List (ℤ × Lifecycle) :=
  ["pos1", "pos2", "pos3"].flatMap fun pid =>
    [(0, .openPosition pid fun _ => none), (1, .closePosition pid "TP" 1 0 none)]

/-- With no position open, the fourth one is refused. -/
theorem not_checkNewPosition_threeClosed :
    (Ledger.after threeClosed).openCount = 0 ∧
      checkNewPosition {} (some (countPositions (dbAfter threeClosed))) = (false, "MAX_POSITIONS_EXCEEDED") ∧
      ¬ (checkNewPosition {} (some (countPositions (dbAfter threeClosed))) = (true, "OK") ↔
        (Ledger.after threeClosed).openCount < ({} : PortfolioRiskConfig).maxPositions) := by
  refine ⟨by decide, by decide, by decide⟩

end MikoV2.Risk
