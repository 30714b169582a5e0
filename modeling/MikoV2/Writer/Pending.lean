import MikoV2.Lib.Runs
import MikoV2.Writer.Calls

/-!
# Operations that fail

No method of the writer rolls back. What a failed operation leaves pending is published by the next commit that
succeeds, whatever operation it belongs to.

* `Atomic` : the operation leaves no transaction open, and one that fails is as good as not called, whatever follows;
* `Safe` : its statement does not fail in a transaction, its commit does not fail, a versioned update finds its row;
* `atomic_iff` : the runs of atomic operations are those of safe ones.
-/

namespace MikoV2.Writer
open Transactions

/-- An operation, with how its calls go. -/
abbrev Scripted := CallScript × Op

def step (c : Conn Db) (e : Scripted) : Conn Db := (e.2.call e.1 c).2

/-- No transaction is left open, and when the operation fails the disk is, after any continuation, as without it. -/
structure Atomic (c : Conn Db) (e : Scripted) : Prop where
  closed : (step c e).inTransaction = false
  nothing : (e.2.call e.1 c).1 = false → ∀ rest, (Runs.run step (step c e) rest).disk = (Runs.run step c rest).disk

/-- Once it reaches its statement, the operation commits, or its statement fails before a transaction is opened. -/
def Safe (c : Conn Db) (e : Scripted) : Prop :=
  e.1.connected = true → e.2.Complete → e.1.statement ≠ .failsOpened ∧
    (e.1.statement = .done → e.1.commitFails = false ∧ e.2.Matches c.view)

theorem safe_iff (c : Conn Db) (e : Scripted) : Safe c e ↔
    (e.1.connected = true → e.2.Complete →
      ¬ Leaks e.1.statement e.1.commitFails e.2.proceed (e.2.stmt e.1.nowMs) c.view) := by
  have hproceed := e.2.proceed_iff c.view e.1.nowMs
  unfold Safe Leaks
  refine imp_congr_right fun _ => imp_congr_right fun _ => ?_
  rw [not_or]
  refine and_congr_right fun _ => ?_
  rw [not_and, not_or, Bool.not_eq_false, Bool.not_eq_true, hproceed, and_comm]

/-- An operation on a connection with nothing pending is atomic exactly when it is safe, and leaves nothing pending
then. -/
theorem atomic_step {c : Conn Db} (hc : c.Settled) (e : Scripted) :
    (Safe c e → (step c e).Settled ∧ Atomic c e) ∧ (¬ Safe c e → ¬ Atomic c e) := by
  have heq := e.2.call_eq e.1 c
  rw [safe_iff]
  by_cases hreach : e.1.connected = true ∧ e.2.Complete
  · rw [if_pos hreach] at heq
    rcases hx : c.call e.1.statement e.1.commitFails e.2.proceed (e.2.stmt e.1.nowMs) with ⟨ok, c'⟩
    have hstep : step c e = c' := by
      unfold step
      rw [heq, hx]
    refine ⟨fun hsafe => ?_, fun hunsafe hatomic => hunsafe fun _ _ hleaks => ?_⟩
    · obtain ⟨hsettled, hsame⟩ := call_settled hc hx (hsafe hreach.1 hreach.2)
      refine ⟨by rwa [hstep], by rw [hstep]; exact hsettled.closed, fun hfail rest => ?_⟩
      rw [heq, hx] at hfail
      rw [hstep, hsame hfail]
    · have hopen := (call_leaks_iff hc hx).mpr hleaks
      have hclosed := hatomic.closed
      rw [hstep, hopen] at hclosed
      exact absurd hclosed.symm Bool.false_ne_true
  · rw [if_neg hreach] at heq
    have hstep : step c e = c := by
      unfold step
      rw [heq]
    refine ⟨fun _ => ⟨by rwa [hstep], by rw [hstep]; exact hc.closed, fun _ rest => by rw [hstep]⟩, fun hunsafe => ?_⟩
    exact absurd (fun hconn hcomplete => absurd ⟨hconn, hcomplete⟩ hreach) hunsafe

/-- **Failed operations have no effect** exactly in the runs whose operations are safe. -/
theorem atomic_iff (db : Db) (es : List Scripted) :
    Runs.Guarded Atomic step (Conn.openDb db) es ↔ Runs.Guarded Safe step (Conn.openDb db) es :=
  Runs.guarded_iff_guarded (I := fun c => c.Settled) (settled_openDb db)
    (fun _ e _ hc hsafe => (atomic_step hc e).1 hsafe) fun _ e _ hc hunsafe => (atomic_step hc e).2 hunsafe

/-- The payload of a whale event. -/
def whalePayload : Payload := Payload.ofList [("symbol", .text "BTCUSDT")]

/-- The event is inserted twice when the commit of the first attempt fails and the caller tries again. -/
theorem not_atomic_commitFails :
    ¬ Runs.Guarded Atomic step (Conn.openDb {}) [({ commitFails := true }, .insertWhaleEvent whalePayload)] ∧
      (step (Conn.openDb {}) ({}, .insertWhaleEvent whalePayload)).disk.whaleEvents.length = 1 ∧
      (Runs.run step (Conn.openDb {}) [({ commitFails := true }, .insertWhaleEvent whalePayload),
        ({}, .insertWhaleEvent whalePayload)]).disk.whaleEvents.length = 2 := by
  refine ⟨fun h => ?_, rfl, rfl⟩
  have hclosed := (Runs.guarded_cons.mp h).1.closed
  exact absurd hclosed (by decide)

end MikoV2.Writer
