import Mathlib.Algebra.Order.Group.Unbundled.Abs
import Mathlib.Algebra.Order.Ring.Rat
import Mathlib.Data.List.Basic
import MikoV2.Store.Positions

/-!
# The order manager

A fill event carries the signed cumulative quantity of an order. The manager keeps the last one it accepted in
memory, and the position in the database: it updates the row under the next version, up to `max_retry` times,
then remembers the fill, then inserts the row when it has not done so for the position.

* `check`, `newFill` : what the manager makes of an event before it touches the database;
* `attempts` : the retry loop; `persist`, `flip`, `onFillEvent` : the source's function;
* `Processes` : the event reaches the database; `onFillEvent_cases` : everything an event can do.
-/

namespace MikoV2.Execution
open Sqlite Store

structure OrderManagerConfig where
  maxRetry : ℕ := 3
  minLot : ℚ := 1 / 1000
  epsilonDivisor : ℚ := 2

/-- One round of the retry loop: its two calls, and the versioned updates of other writers in between, by the
prices they write. -/
structure Attempt where
  read : CallScript := {}
  rivals : List (ℚ × ℚ × ℚ) := []
  update : CallScript := {}

/-- Neither call raises. -/
def Attempt.Returns (a : Attempt) : Prop := a.read.raises = false ∧ a.update.raises = false

instance : DecidablePred Attempt.Returns := fun _ => inferInstanceAs (Decidable (_ ∧ _))

/-- A call of `on_fill_event`, and how the calls it makes go. -/
structure FillEvent where
  orderId : String
  fillQty : ℚ
  fillPrice : ℚ
  positionId : String
  attempts : ℕ → Attempt := fun _ => {}
  opening : CallScript := {}
  closing : CallScript := {}
  /-- `int(time.time() * 1000)` -/
  nowMs : ℤ := 0

/-- `OrderManager` with its `SqliteWriter`. -/
structure OrderManager where
  filledByOrder : String → Option ℚ
  positionByOrder : String → Option String
  positionOpened : String → Bool
  positionSide : String → Option String
  positionSymbol : String → Option String
  positionUniverse : String → Option String
  positionWhaleTrust : String → Option ℤ
  conn : Conn Positions

/-- How `on_fill_event` ends. -/
inductive FillOutcome where
  | zero
  | notGreater
  /-- the sign changed: emergency close, row closed -/
  | flip
  /-- `ZeroDivisionError` -/
  | raised
  | dust
  | exhausted
  | recorded
  deriving DecidableEq, Repr

namespace OrderManager

def fresh (db : Positions) : OrderManager :=
  ⟨fun _ => none, fun _ => none, fun _ => false, fun _ => none, fun _ => none, fun _ => none, fun _ => none, Conn.openDb db⟩

def registerPosition (positionId symbol side universeStatus : String) (whaleTrustScore : ℤ) (m : OrderManager) :
    OrderManager :=
  { m with
    positionSide := Function.update m.positionSide positionId (some side)
    positionSymbol := Function.update m.positionSymbol positionId (some symbol)
    positionUniverse := Function.update m.positionUniverse positionId (some universeStatus)
    positionWhaleTrust := Function.update m.positionWhaleTrust positionId (some whaleTrustScore) }

/-! ## Before the database -/

/-- `math.isclose(x, 0.0, abs_tol=1e-9)`, with the default `rel_tol=1e-9`. -/
def isCloseToZero (x : ℚ) : Bool := |x| ≤ max (1 / 10 ^ 9 * |x|) (1 / 10 ^ 9)

def existing (m : OrderManager) (orderId : String) : ℚ := (m.filledByOrder orderId).getD 0

def newFill (existing fillQty : ℚ) : ℚ := if existing ≠ 0 then max existing fillQty else fillQty

/-- What stops an event before it reaches the database; `none` when nothing does. -/
def check (cfg : OrderManagerConfig) (existing fillQty : ℚ) : Option FillOutcome :=
  if isCloseToZero fillQty then some .zero
  else if existing ≠ 0 ∧ ¬ (0 < existing ↔ 0 < fillQty) then some .flip
  else if newFill existing fillQty - existing ≤ 0 then some .notGreater
  else if cfg.epsilonDivisor = 0 then some .raised
  else if |fillQty| < cfg.minLot / cfg.epsilonDivisor then some .dust
  else none

/-- What passes the checks is more than what is remembered. -/
theorem lt_newFill {cfg : OrderManagerConfig} {x q : ℚ} (h : check cfg x q = none) : x < newFill x q := by
  unfold check at h
  split at h
  · cases h
  split at h
  · cases h
  split at h
  · cases h
  · rename_i hinc
    exact sub_pos.mp (not_le.mp hinc)

/-! ## The database -/

/-- Versioned updates of other writers, each committed. -/
def rivalUpdates (positionId : String) (rivals : List (ℚ × ℚ × ℚ)) (c : Conn Positions) : Conn Positions :=
  rivals.foldl (fun c r => match c.view positionId with
    | none => c
    | some row =>
      let view := Function.update c.view positionId (some (row.revise r.1 r.2.1 r.2.2 (row.version + 1) none))
      { c with view := view, disk := view }) c

/-- One round of the retry loop; `false` when it raises. -/
def attempt (e : FillEvent) (stamp : ℕ) (a : Attempt) (c : Conn Positions) : Bool × Conn Positions :=
  match getVersion a.read e.positionId c with
  | none => (false, c)
  | some version =>
    match updatePositionVersioned a.update (some stamp) e.positionId e.fillPrice e.fillPrice e.fillPrice (version + 1)
        (rivalUpdates e.positionId a.rivals c) with
    | (none, c') => (false, c')
    -- the boolean that the update returns is dropped
    | (some _, c') => (true, c')

/-- The retry loop over the rounds `as`; `false` when all of them raise. -/
-- each round computes the increment again: the memory has not changed, so it is still the one that passed `check`
def attempts (e : FillEvent) (stamp : ℕ) : List Attempt → Conn Positions → Bool × Conn Positions
  | [], c => (false, c)
  | a :: as, c => match attempt e stamp a c with
    | (true, c') => (true, c')
    | (false, c') => attempts e stamp as c'

/-- The row that the first fill of a position inserts. -/
def firstRow (m : OrderManager) (e : FillEvent) (stamp : ℕ) : PositionRow where
  symbol := (m.positionSymbol e.positionId).getD "UNKNOWN"
  side := (m.positionSide e.positionId).getD "LONG"
  status := "open"
  openedAtMs := e.nowMs
  avg := e.fillPrice
  qtyOpen := |e.fillQty|
  qtyRemaining := |e.fillQty|
  originalPlannedEntry := e.fillPrice
  originalTp := e.fillPrice
  originalSl := e.fillPrice
  currentTpShifted := e.fillPrice
  currentSlShifted := e.fillPrice
  whaleTrustScore := (m.positionWhaleTrust e.positionId).getD 0
  universeStatus := (m.positionUniverse e.positionId).getD "UNKNOWN"
  version := 0
  stamp := some stamp

/-- The rounds of the retry loop. -/
def rounds (cfg : OrderManagerConfig) (e : FillEvent) : List Attempt := (List.range cfg.maxRetry).map e.attempts

/-- Insert the row of the position unless the manager has done so. -/
def openFirst (m : OrderManager) (e : FillEvent) (stamp : ℕ) : OrderManager :=
  if m.positionOpened e.positionId then m
  else match openPosition e.opening e.positionId (m.firstRow e stamp) m.conn with
    | (true, conn) => { m with conn := conn, positionOpened := Function.update m.positionOpened e.positionId true }
    | (false, conn) => { m with conn := conn }

/-- The versioned update, the memory, the row. -/
def persist (cfg : OrderManagerConfig) (m : OrderManager) (e : FillEvent) (stamp : ℕ) : FillOutcome × OrderManager :=
  match attempts e stamp (rounds cfg e) m.conn with
  | (false, conn) => (.exhausted, { m with conn := conn })
  | (true, conn) =>
    let fill := newFill (m.existing e.orderId) e.fillQty
    let m' := { m with
      conn := conn
      filledByOrder := Function.update m.filledByOrder e.orderId (some fill)
      positionByOrder := Function.update m.positionByOrder e.orderId (some e.positionId) }
    (.recorded, m'.openFirst e stamp)

/-- The emergency close of a flip, which may raise without consequences, and the row. -/
def flip (m : OrderManager) (e : FillEvent) : OrderManager :=
  { m with conn := (closePosition e.closing e.positionId "FLIP" 0 0 none e.nowMs m.conn).2 }

/-- `on_fill_event`, as the call with number `stamp`. -/
def onFillEvent (cfg : OrderManagerConfig) (m : OrderManager) (e : FillEvent) (stamp : ℕ) : FillOutcome × OrderManager :=
  match check cfg (m.existing e.orderId) e.fillQty with
  | some .flip => (.flip, m.flip e)
  | some outcome => (outcome, m)
  | none => persist cfg m e stamp

/-- The calls of a run are numbered. -/
def step (cfg : OrderManagerConfig) (w : ℕ × OrderManager) (e : FillEvent) : ℕ × OrderManager :=
  (w.1 + 1, (onFillEvent cfg w.2 e w.1).2)

/-! ## What an event can do -/

section Cases
variable {cfg : OrderManagerConfig} {m m' : OrderManager} {e : FillEvent} {stamp : ℕ} {outcome : FillOutcome}

/-- The event reaches the database. -/
def Processes (cfg : OrderManagerConfig) (m : OrderManager) (e : FillEvent) : Prop :=
  check cfg (m.existing e.orderId) e.fillQty = none

theorem openFirst_memory (m : OrderManager) (e : FillEvent) (stamp : ℕ) :
    (m.openFirst e stamp).filledByOrder = m.filledByOrder := by
  unfold openFirst
  split
  · rfl
  · split <;> rfl

variable (e stamp) in
theorem attempts_returns (as : List Attempt) (c : Conn Positions) :
    (attempts e stamp as c).1 = true ↔ ∃ a ∈ as, a.Returns := by
  have hone : ∀ (a : Attempt) (c : Conn Positions), (attempt e stamp a c).1 = true ↔ a.Returns := by
    intro a c
    unfold attempt getVersion updatePositionVersioned Attempt.Returns
    cases hread : a.read.raises with
    | true => simp
    | false =>
      cases hupdate : a.update.raises with
      | true => split <;> simp_all
      | false =>
        simp only [Bool.false_eq_true, if_false, and_self, iff_true]
        split <;> rename_i hv
        · split at hv <;> cases hv
        · split <;> rename_i hu
          · split at hu
            · cases hu
            · split at hu <;> cases hu
          · rfl
  induction as generalizing c with
  | nil => simp [attempts]
  | cons a as ih =>
    unfold attempts
    have ha := hone a c
    rcases hx : attempt e stamp a c with ⟨ok, c'⟩
    rw [hx] at ha
    cases ok with
    | true => simp [ha.mp rfl]
    | false =>
      have hnot : ¬ a.Returns := fun h => Bool.false_ne_true (ha.mpr h)
      simp [ih, hnot]

/-- An event is stopped before the database, where only a flip touches the row, or all its rounds raise, or the
fill is remembered. -/
theorem onFillEvent_cases (h : onFillEvent cfg m e stamp = (outcome, m')) :
    (check cfg (m.existing e.orderId) e.fillQty = some outcome ∧ m' = (if outcome = .flip then m.flip e else m)) ∨
      (Processes cfg m e ∧ (∀ a ∈ rounds cfg e, ¬ a.Returns) ∧ outcome = .exhausted ∧
        m' = { m with conn := (attempts e stamp (rounds cfg e) m.conn).2 }) ∨
      (Processes cfg m e ∧ (∃ a ∈ rounds cfg e, a.Returns) ∧ outcome = .recorded ∧
        m' = ({ m with
          conn := (attempts e stamp (rounds cfg e) m.conn).2
          filledByOrder := Function.update m.filledByOrder e.orderId
            (some (newFill (m.existing e.orderId) e.fillQty))
          positionByOrder := Function.update m.positionByOrder e.orderId (some e.positionId) } :
            OrderManager).openFirst e stamp) := by
  unfold onFillEvent at h
  split at h
  · rename_i hcheck
    cases h
    exact Or.inl ⟨hcheck, rfl⟩
  · rename_i out hflip hcheck
    cases h
    exact Or.inl ⟨hcheck, by rw [if_neg hflip]⟩
  · rename_i hcheck
    have hreturns := attempts_returns e stamp (rounds cfg e) m.conn
    unfold persist at h
    rcases hx : attempts e stamp (rounds cfg e) m.conn with ⟨ok, conn⟩
    rw [hx] at h hreturns
    cases ok with
    | false =>
      cases h
      refine Or.inr (Or.inl ⟨hcheck, fun a ha hr => ?_, rfl, rfl⟩)
      exact Bool.false_ne_true (hreturns.mpr ⟨a, ha, hr⟩)
    | true =>
      cases h
      exact Or.inr (Or.inr ⟨hcheck, hreturns.mp rfl, rfl, rfl⟩)

end Cases

end OrderManager

end MikoV2.Execution
