import MikoV2.Emergency.Close
import MikoV2.Lib.Runs
import MikoV2.Writer.Rows

/-!
# What closes a row

* `Closed` : the row of the position has the status `closed`; `closed_call` : the operations that can give it;
* `Succeeded` : the step belongs to an operation on the position whose call of the exchange has closed it;
* `Backed` : a row gets the status only in such a step; `Honest` : the flip path closes no row after a call that
  raised; `backed_iff` : these are the same runs.
-/

namespace MikoV2.Emergency
open Transactions Writer Execution

/-- The row of the position has the status `closed`. -/
def Closed (db : Db) (pid : String) : Prop := ∃ r, row db pid = some r ∧ r .status = .text "closed"

/-- The operation can give the row of the position the status. -/
def ClosesRow (pid : String) : Op → Prop
  | .closePosition positionId .. => positionId = pid
  | .executeWal payload => payload "status" = some (.text "closed")
  | _ => False

section Calls
variable {db : Db} {c : Conn Db} {s : CallScript} {op : Op} {pid : String} {nowMs : ℤ}

theorem closed_stmt (h : Closed (op.stmt nowMs db).2 pid) : Closed db pid ∨ ClosesRow pid op := by
  obtain ⟨r, hr, hstatus⟩ := h
  cases op with
  | executeWal payload =>
    simp only [Op.stmt, executeWalStmt] at hr
    split at hr
    · exact Or.inl ⟨r, hr, hstatus⟩
    · rw [row_insertOrReplace] at hr
      split at hr
      · cases hr
        refine Or.inr ?_
        show payload "status" = _
        cases hp : payload "status" with
        | none =>
          simp only [executeWalPosition, hp] at hstatus
          exact absurd hstatus (by decide)
        | some v =>
          simp only [executeWalPosition, hp, Option.getD_some] at hstatus
          rw [hstatus]
      · exact Or.inl ⟨r, hr, hstatus⟩
  | openPosition payload =>
    simp only [Op.stmt, row_open] at hr
    rcases Option.or_eq_some_iff.mp hr with hold | ⟨-, hnew⟩
    · exact Or.inl ⟨r, hold, hstatus⟩
    · split at hnew
      · cases hnew
        exact absurd hstatus (by simp [openRow])
      · cases hnew
  | closePosition positionId closeReason realizedPnl feeTotal rMultiple =>
    simp only [Op.stmt, row_close] at hr
    split at hr
    · rename_i hpid
      exact Or.inr hpid.symm
    · exact Or.inl ⟨r, hr, hstatus⟩
  | updatePositionVersioned positionId newAvg newTp newSl expectedVersion =>
    simp only [Op.stmt, row_update] at hr
    obtain ⟨r₀, hr₀, rfl⟩ := Option.map_eq_some_iff.mp hr
    refine Or.inl ⟨r₀, hr₀, ?_⟩
    split at hstatus <;> exact hstatus
  | _ => exact Or.inl ⟨r, hr, hstatus⟩

variable (s c op) in
theorem closed_call (h : Closed (op.call s c).2.view pid) : Closed c.view pid ∨ ClosesRow pid op := by
  rcases hx : op.call s c with ⟨ok, c'⟩
  rw [hx] at h
  rcases (Op.call_view hx).1 with ⟨-, -, hsame⟩ | ⟨-, hrun, -⟩
  · rw [hsame] at h
    exact Or.inl h
  · rw [hrun] at h
    exact closed_stmt h

theorem closed_closePosition {positionId reason : String} {pnl fee : ℚ} {rMultiple : Option ℚ}
    (h : Closed (closePosition s positionId reason pnl fee rMultiple c).2.view pid) :
    Closed c.view pid ∨ positionId = pid :=
  closed_call c s (.closePosition positionId reason pnl fee rMultiple) h

end Calls

/-! ## Fill events and attempts -/

section Fills
variable {cfg : OrderManagerConfig} {e : FillCall} {c c' : Conn Db} {pid : String} {ok : Bool}

theorem closed_attempt {a : CallScript × CallScript} (hx : FillMemory.attempt e a c = (ok, c'))
    (h : Closed c'.view pid) : Closed c.view pid := by
  unfold FillMemory.attempt at hx
  split at hx
  · cases hx
    exact h
  · rename_i version _
    have hcall : ∀ r c₁, updatePositionVersioned a.2 e.positionId e.fillPrice e.fillPrice e.fillPrice (version + 1) c =
        (r, c₁) → Closed c₁.view pid → Closed c.view pid := by
      intro r c₁ hu hc₁
      refine (closed_call c a.2 (.updatePositionVersioned e.positionId e.fillPrice e.fillPrice e.fillPrice
        (version + 1)) ?_).resolve_right id
      simp only [Op.call, hu]
      exact hc₁
    split at hx <;> rename_i hu <;> cases hx <;> exact hcall _ _ hu h

theorem closed_attempts {as : List (CallScript × CallScript)} (hx : FillMemory.attempts e as c = (ok, c'))
    (h : Closed c'.view pid) : Closed c.view pid := by
  induction as generalizing c with
  | nil =>
    cases hx
    exact h
  | cons a as ih =>
    unfold FillMemory.attempts at hx
    split at hx
    · rename_i hone
      cases hx
      exact closed_attempt hone h
    · rename_i hone
      exact closed_attempt hone (ih hx)

theorem closed_openFirst {m : FillMemory} (h : Closed (m.openFirst e c).2.view pid) : Closed c.view pid := by
  unfold FillMemory.openFirst at h
  split at h
  · exact h
  · refine (closed_call c e.opening (.openPosition (m.firstPayload e)) ?_).resolve_right id
    show Closed (openPosition e.opening (m.firstPayload e) c).2.view pid
    split at h <;> rename_i hx <;> rw [hx] <;> exact h

/-- No fill event closes a row before it waits for the exchange. -/
theorem closed_onFillEvent {m : FillMemory} (h : Closed (FillMemory.onFillEvent cfg e (m, c)).2.2.view pid) :
    Closed c.view pid := by
  unfold FillMemory.onFillEvent at h
  split at h
  · exact h
  · exact h
  · split at h <;> rename_i hx
    · exact closed_attempts hx h
    · exact closed_attempts hx (closed_openFirst h)

end Fills

namespace CloseWorld

/-- The step ends an operation on the position whose call of the exchange succeeded: `emergency_close` returned, or
an attempt has a result for which the row is closed. -/
def Succeeded (cfg : CloseConfig) (w : CloseWorld) (pid : String) : CloseEvent → Prop
  | .resume id answer _ => match w.tasks id with
    | some (.flip positionId) => positionId = pid ∧ answer.Returns
    | some (.posting symbol _) => symbol = pid ∧ ∃ r : CloseResult, postResult cfg.closer answer = .result r ∧ r.Closes
    | some (.direct symbol _) => symbol = pid ∧ (directResult answer).Closes
    | _ => False
  | _ => False

/-- A row gets the status `closed` only in a step that the exchange has backed. -/
def Backed (cfg : CloseConfig) (w : CloseWorld) (e : CloseEvent) : Prop :=
  ∀ pid, Closed (step cfg w e).conn.view pid → Closed w.conn.view pid ∨ Succeeded cfg w pid e

/-- When `emergency_close` has raised in a flip, the statement of the close does not run, or finds no row that is not
closed. -/
def Honest (w : CloseWorld) : CloseEvent → Prop
  | .resume id answer s => ∀ positionId, w.tasks id = some (.flip positionId) → ¬ answer.Returns →
    s.connected = true → s.statement = .done → ∀ r, row w.conn.view positionId = some r → r .status = .text "closed"
  | _ => True

section Steps
variable {cfg : CloseConfig} {w : CloseWorld} {e : CloseEvent} {id : ℕ} {answer : Answer} {s : CallScript}
  {pid symbol positionId : String} {attempt : ℕ}

theorem nextAttempt_conn (cfg : EmergencyCloserConfig) (w : CloseWorld) (id : ℕ) (symbol : String) (attempt : ℕ) :
    (nextAttempt cfg w id symbol attempt).conn = w.conn := by
  unfold nextAttempt
  split <;> rfl

theorem closed_afterAttempt {r : CloseResult} (h : Closed (w.afterAttempt id symbol attempt r s).conn.view pid) :
    Closed w.conn.view pid ∨ (symbol = pid ∧ r.Closes) := by
  unfold afterAttempt at h
  split at h
  · rename_i hcloses
    exact (closed_closePosition h).imp_right fun heq => ⟨heq, hcloses⟩
  · exact Or.inl h

theorem closed_persist (h : Closed (emergencyPersistState s symbol w.conn).view pid) : Closed w.conn.view pid := by
  refine (closed_call w.conn s (.executeWal (emergencyPayload symbol)) h).resolve_right fun hstatus => ?_
  have hnone : emergencyPayload symbol "status" = none := rfl
  rw [ClosesRow, hnone] at hstatus
  cases hstatus

/-- Only a flip can close a row without the exchange. -/
theorem backed_of_not_flip (hflip : ∀ positionId, w.tasks id ≠ some (.flip positionId)) :
    Backed cfg w (.resume id answer s) := by
  intro pid h
  simp only [step] at h
  cases htask : w.tasks id with
  | none =>
    rw [htask] at h
    exact Or.inl h
  | some t =>
    rw [htask] at h
    simp only [Succeeded, htask]
    cases t with
    | flip positionId => exact absurd htask (hflip positionId)
    | created symbol =>
      simp only [resume, nextAttempt_conn] at h
      exact Or.inl (closed_persist h)
    | posting symbol attempt =>
      simp only [resume] at h
      split at h
      · rename_i r hr
        exact (closed_afterAttempt h).imp_right fun ⟨heq, hcloses⟩ => ⟨heq, r, hr, hcloses⟩
      · exact Or.inl h
      · exact Or.inl h
    | direct symbol attempt => exact closed_afterAttempt h
    | sleeping symbol attempt =>
      simp only [resume, nextAttempt_conn] at h
      exact Or.inl h
    | finished symbol => exact Or.inl h

variable (cfg answer) in
/-- A flip closes the row whenever the statement runs. -/
theorem closed_flip_iff (htask : w.tasks id = some (.flip positionId)) :
    Closed (step cfg w (.resume id answer s)).conn.view pid ↔
      Closed w.conn.view pid ∨
        (positionId = pid ∧ s.connected = true ∧ s.statement = .done ∧ ∃ r, row w.conn.view pid = some r) := by
  simp only [step, htask, resume]
  rcases hx : (Op.closePosition positionId "FLIP" 0 0 none).call s w.conn with ⟨ok, c'⟩
  have hcall : (closePosition s positionId "FLIP" 0 0 none w.conn).2 = c' := congrArg Prod.snd hx
  rw [hcall]
  rcases (Op.call_view hx).1 with ⟨hno, -, hsame⟩ | ⟨hex, hrun, -⟩
  · rw [hsame]
    refine ⟨Or.inl, fun h => h.resolve_right fun h' => hno ⟨h'.2.1, trivial, h'.2.2.1⟩⟩
  · unfold Closed
    rw [hrun]
    simp only [Op.stmt, row_close]
    by_cases hpid : pid = positionId
    · rw [if_pos hpid]
      constructor
      · rintro ⟨r, hr, -⟩
        obtain ⟨r₀, hr₀, -⟩ := Option.map_eq_some_iff.mp hr
        exact Or.inr ⟨hpid.symm, hex.1, hex.2.2, r₀, hr₀⟩
      · rintro (⟨r, hr, -⟩ | ⟨-, -, -, r, hr⟩) <;> exact ⟨_, by rw [hr]; rfl, rfl⟩
    · rw [if_neg hpid]
      exact ⟨Or.inl, fun h => h.resolve_right fun h' => hpid h'.1.symm⟩

theorem backed_iff_honest (cfg : CloseConfig) (w : CloseWorld) (e : CloseEvent) : Backed cfg w e ↔ Honest w e := by
  cases e with
  | fill e =>
    refine iff_of_true (fun pid h => Or.inl ?_) trivial
    have hclosed := @closed_onFillEvent cfg.orders e w.conn pid w.memory
    refine hclosed ?_
    simp only [step] at h
    split at h <;> rename_i hx <;> rw [hx] <;> exact h
  | emergency symbol =>
    refine iff_of_true (fun pid h => Or.inl ?_) trivial
    simp only [step] at h
    split at h <;> exact h
  | resume id answer s =>
    by_cases hflip : ∃ positionId, w.tasks id = some (.flip positionId)
    · obtain ⟨positionId, htask⟩ := hflip
      constructor
      · intro hbacked p hp hno hconn hdone r hr
        rw [htask] at hp
        cases hp
        have hclosed := (closed_flip_iff cfg answer htask).mpr (Or.inr ⟨rfl, hconn, hdone, r, hr⟩)
        rcases hbacked positionId hclosed with ⟨r', hr', hstatus⟩ | hsucc
        · rw [hr] at hr'
          cases hr'
          exact hstatus
        · simp only [Succeeded, htask] at hsucc
          exact absurd hsucc.2 hno
      · intro hhonest pid h
        rcases (closed_flip_iff cfg answer htask).mp h with hold | ⟨rfl, hconn, hdone, r, hr⟩
        · exact Or.inl hold
        · by_cases hreturns : answer.Returns
          · refine Or.inr ?_
            simp only [Succeeded, htask]
            exact ⟨trivial, hreturns⟩
          · exact Or.inl ⟨r, hr, hhonest positionId htask hreturns hconn hdone r hr⟩
    · rw [not_exists] at hflip
      exact iff_of_true (backed_of_not_flip hflip) fun positionId htask => absurd htask (hflip positionId)

end Steps

/-- **Rows are closed only when the exchange has closed the position**, exactly in the runs in which no flip closes a row
after `emergency_close` has raised. -/
theorem backed_iff (cfg : CloseConfig) (w : CloseWorld) (es : List CloseEvent) :
    Runs.Guarded (Backed cfg) (step cfg) w es ↔ Runs.Guarded Honest (step cfg) w es :=
  Runs.guarded_iff_guarded (I := fun _ => True) trivial
    (fun w e _ _ hhonest => ⟨trivial, (backed_iff_honest cfg w e).mpr hhonest⟩)
    fun w e _ _ hnot hbacked => hnot ((backed_iff_honest cfg w e).mp hbacked)

/-- A long order is filled, the sign of its next fill is the other one, and `emergency_close` raises. -/
def failedFlip : List CloseEvent :=
  [.fill ⟨"oid1", 1, 100, "pos1", fun _ => ({}, {}), {}⟩, .fill ⟨"oid1", -1, 100, "pos1", fun _ => ({}, {}), {}⟩,
    .resume 0 .exception {}]

theorem not_backed_failedFlip : ¬ Runs.Guarded (Backed {}) (step {}) (start {}) failedFlip := by
  intro h
  have hflip := h (failedFlip.take 2) (.resume 0 .exception {}) ⟨[], rfl⟩ "pos1"
  have hbefore : (row (Runs.run (step {}) (start {}) (failedFlip.take 2)).conn.view "pos1").map (· .status) =
      some (.text "open") := by decide +kernel
  have hafter : (row (step {} (Runs.run (step {}) (start {}) (failedFlip.take 2))
      (.resume 0 .exception {})).conn.view "pos1").map (· .status) = some (.text "closed") := by decide +kernel
  have htask : (Runs.run (step {}) (start {}) (failedFlip.take 2)).tasks 0 = some (.flip "pos1") := by decide +kernel
  obtain ⟨r, hr, hstatus⟩ := Option.map_eq_some_iff.mp hafter
  rcases hflip ⟨r, hr, hstatus⟩ with ⟨r', hr', hstatus'⟩ | hsucc
  · rw [hr', Option.map_some, hstatus'] at hbefore
    exact absurd hbefore (by decide)
  · simp only [Succeeded, htask] at hsucc
    exact hsucc.2

end CloseWorld

end MikoV2.Emergency
