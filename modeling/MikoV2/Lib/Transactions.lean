import Mathlib.Logic.Basic
import Mathlib.Tactic.Common

/-!
# Calls on a connection that opens transactions by itself

A data statement opens a transaction before it runs, so that a statement that fails may leave one open. A commit
publishes what the connection sees and closes the transaction; a commit that fails leaves both as they are.

* `Conn.execute`, `Conn.commit` : the two calls;
* `Conn.call` : execute, look at the result, commit; `call_cases` : everything it can do;
* `Leaks` : the calls that leave a transaction open; `call_settled` : the others leave none, and do nothing unless
  they succeed.
-/

namespace Transactions

variable {DB R : Type}

/-- How a data statement ends. -/
inductive Outcome where
  | done
  /-- before a transaction was opened for it -/
  | failsUnopened
  /-- in the transaction that was opened for it -/
  | failsOpened
  deriving DecidableEq, Repr

/-- The committed database, the database that the connection sees, and whether a transaction is open. -/
structure Conn (DB : Type) where
  disk : DB
  view : DB
  inTransaction : Bool

namespace Conn

def openDb (db : DB) : Conn DB := ⟨db, db, false⟩

/-- `conn.execute(stmt)`; `none` when it raises. -/
def execute (o : Outcome) (stmt : DB → R × DB) (c : Conn DB) : Option R × Conn DB :=
  match o with
  | .done => (some (stmt c.view).1, { c with view := (stmt c.view).2, inTransaction := true })
  | .failsUnopened => (none, c)
  | .failsOpened => (none, { c with inTransaction := true })

/-- `conn.commit()`; `false` when it raises. -/
def commit (fails : Bool) (c : Conn DB) : Bool × Conn DB :=
  if fails then (false, c) else (true, ⟨c.view, c.view, false⟩)

/-- Execute, and commit if the result asks for it; `false` when something raises or nothing is committed. There is no
rollback. -/
def call (o : Outcome) (commitFails : Bool) (proceed : R → Bool) (stmt : DB → R × DB) (c : Conn DB) :
    Bool × Conn DB :=
  match c.execute o stmt with
  | (none, c') => (false, c')
  | (some r, c') => if proceed r then c'.commit commitFails else (false, c')

/-- Nothing is pending. -/
structure Settled (c : Conn DB) : Prop where
  view : c.view = c.disk
  closed : c.inTransaction = false

end Conn

/-- The call leaves a transaction open: its statement fails in one, or what it does is not committed. -/
def Leaks (o : Outcome) (commitFails : Bool) (proceed : R → Bool) (stmt : DB → R × DB) (db : DB) : Prop :=
  o = .failsOpened ∨ (o = .done ∧ (proceed (stmt db).1 = false ∨ commitFails = true))

section Calls
variable {o : Outcome} {fails ok : Bool} {proceed : R → Bool} {stmt : DB → R × DB} {c c' : Conn DB}

theorem settled_openDb (db : DB) : (Conn.openDb db).Settled := ⟨rfl, rfl⟩

/-- A call fails at its statement, or it is seen by the connection and fails, or it is committed. -/
theorem call_cases (h : c.call o fails proceed stmt = (ok, c')) :
    (o = .failsUnopened ∧ ok = false ∧ c' = c) ∨
      (o = .failsOpened ∧ ok = false ∧ c' = { c with inTransaction := true }) ∨
      (o = .done ∧ (proceed (stmt c.view).1 = false ∨ fails = true) ∧ ok = false ∧
        c' = { c with view := (stmt c.view).2, inTransaction := true }) ∨
      (o = .done ∧ proceed (stmt c.view).1 = true ∧ fails = false ∧ ok = true ∧
        c' = Conn.openDb (stmt c.view).2) := by
  unfold Conn.call Conn.execute at h
  cases o with
  | failsUnopened =>
    cases h
    exact Or.inl ⟨rfl, rfl, rfl⟩
  | failsOpened =>
    cases h
    exact Or.inr (Or.inl ⟨rfl, rfl, rfl⟩)
  | done =>
    simp only at h
    by_cases hp : proceed (stmt c.view).1 = true
    · rw [if_pos hp] at h
      unfold Conn.commit at h
      cases fails with
      | true =>
        cases h
        exact Or.inr (Or.inr (Or.inl ⟨rfl, Or.inr rfl, rfl, rfl⟩))
      | false =>
        cases h
        exact Or.inr (Or.inr (Or.inr ⟨rfl, hp, rfl, rfl, rfl⟩))
    · rw [if_neg hp] at h
      cases h
      exact Or.inr (Or.inr (Or.inl ⟨rfl, Or.inl (Bool.eq_false_iff.mpr hp), rfl, rfl⟩))

/-- The connection sees the database as it was, or the statement has run. -/
theorem call_view (h : c.call o fails proceed stmt = (ok, c')) :
    (o ≠ .done ∧ ok = false ∧ c'.view = c.view) ∨ (o = .done ∧ c'.view = (stmt c.view).2) := by
  rcases call_cases h with ⟨rfl, hok, rfl⟩ | ⟨rfl, hok, rfl⟩ | ⟨ho, -, -, rfl⟩ | ⟨ho, -, -, -, rfl⟩
  · exact Or.inl ⟨nofun, hok, rfl⟩
  · exact Or.inl ⟨nofun, hok, rfl⟩
  · exact Or.inr ⟨ho, rfl⟩
  · exact Or.inr ⟨ho, rfl⟩

/-- The disk is as it was, or what the connection sees. -/
theorem call_disk (h : c.call o fails proceed stmt = (ok, c')) : c'.disk = c.disk ∨ c'.disk = c'.view := by
  rcases call_cases h with ⟨-, -, rfl⟩ | ⟨-, -, rfl⟩ | ⟨-, -, -, rfl⟩ | ⟨-, -, -, -, rfl⟩
  · exact Or.inl rfl
  · exact Or.inl rfl
  · exact Or.inl rfl
  · exact Or.inr rfl

/-- With nothing pending, a call leaves a transaction open exactly when it leaks. -/
theorem call_leaks_iff (hc : c.Settled) (h : c.call o fails proceed stmt = (ok, c')) :
    c'.inTransaction = true ↔ Leaks o fails proceed stmt c.view := by
  unfold Leaks
  rcases call_cases h with ⟨rfl, -, rfl⟩ | ⟨rfl, -, rfl⟩ | ⟨rfl, hwhy, -, rfl⟩ | ⟨rfl, hp, rfl, -, rfl⟩
  · simp [hc.closed]
  · simp
  · exact iff_of_true rfl (Or.inr ⟨rfl, hwhy⟩)
  · simp [Conn.openDb, hp]

/-- A call that does not leak leaves nothing pending, and does nothing unless it succeeds. -/
theorem call_settled (hc : c.Settled) (h : c.call o fails proceed stmt = (ok, c'))
    (hno : ¬ Leaks o fails proceed stmt c.view) : c'.Settled ∧ (ok = false → c' = c) := by
  rcases call_cases h with ⟨-, -, rfl⟩ | ⟨ho, -, -⟩ | ⟨ho, hwhy, -, -⟩ | ⟨-, -, -, rfl, rfl⟩
  · exact ⟨hc, fun _ => rfl⟩
  · exact absurd (Or.inl ho) hno
  · exact absurd (Or.inr ⟨ho, hwhy⟩) hno
  · exact ⟨settled_openDb _, fun hok => absurd hok.symm Bool.false_ne_true⟩

end Calls

end Transactions
