import Mathlib.Algebra.Order.Ring.Int
import Mathlib.Algebra.Order.Ring.Rat
import MikoV2.Lib.Runs
import MikoV2.Risk.WhaleRadar
import MikoV2.Writer.Rows

/-!
# Optimistic versions

Callers read the version of a position and update it under the next one. The update compares the version that is
stored; `execute_wal` replaces the row and stores whatever version its payload says.

* `NeverBack` : no stored version decreases from one database to another; `neverBack_stmt` : the statements that have
  this;
* `Callers` : the callers, what they have read, and the updates that returned `True`;
* `Protected` : no version decreases, no version is granted twice, a stale read is refused;
* `protected_iff` : this holds of the runs in which `execute_wal` never meets a row with a greater version.
-/

namespace MikoV2.Writer
open Transactions

/-! ## Stored versions -/

def storedVersion (db : Db) (pid : String) : Option ℤ := (row db pid).map fun r => intVersion (r .version)

/-- No stored version decreases, and no row disappears. -/
def NeverBack (db db' : Db) : Prop :=
  ∀ pid v, storedVersion db pid = some v → ∃ v', storedVersion db' pid = some v' ∧ v ≤ v'

/-- The column holds natural numbers. -/
def Numbered (db : Db) : Prop := ∀ pid r, row db pid = some r → ∃ n : ℕ, r .version = .num n

/-- The payload has a natural version or none. -/
def NaturalVersion (payload : Payload) : Prop := ∀ v, payload "version" = some v → ∃ n : ℕ, v = .num n

/-- The payloads that the operation is called with. -/
def Op.Natural : Op → Prop
  | .executeWal payload => NaturalVersion payload
  | .openPosition payload => NaturalVersion payload
  | _ => True

/-- `execute_wal` meets no row whose version is greater than the one that it stores. -/
def Op.NotBehind (db : Db) : Op → Prop
  | .executeWal payload => payload "order_id" = none → ∀ pid v, payload.get "position_id" = .text pid →
    storedVersion db pid = some v → v ≤ intVersion (executeWalPosition payload .version)
  | _ => True

section Stored
variable {db db' db'' : Db} {pid : String} {r : PositionRow} {op : Op} {nowMs : ℤ}

@[simp] theorem intVersion_int (z : ℤ) : intVersion (.num z) = z := by simp [intVersion]

@[simp] theorem intVersion_nat (n : ℕ) : intVersion (.num n) = n := intVersion_int n

theorem NeverBack.refl (db : Db) : NeverBack db db := fun _ v h => ⟨v, h, le_refl v⟩

theorem NeverBack.trans (h : NeverBack db db') (h' : NeverBack db' db'') : NeverBack db db'' := by
  intro pid v hv
  obtain ⟨v', hv', hle⟩ := h pid v hv
  obtain ⟨v'', hv'', hle'⟩ := h' pid v' hv'
  exact ⟨v'', hv'', hle.trans hle'⟩

theorem storedVersion_of_row (h : row db pid = some r) : storedVersion db pid = some (intVersion (r .version)) := by
  rw [storedVersion, h, Option.map_some]

theorem natural_version {payload : Payload} (h : NaturalVersion payload) :
    ∃ n : ℕ, (payload "version").getD (.num 0) = .num n := by
  cases hv : payload "version" with
  | none => exact ⟨0, by simp⟩
  | some v =>
    obtain ⟨n, rfl⟩ := h v hv
    exact ⟨n, rfl⟩

theorem executeWalStmt_order {payload : Payload} (h : payload "order_id" ≠ none) :
    row (executeWalStmt payload nowMs db).2 pid = row db pid := by
  unfold executeWalStmt
  rw [if_pos (Option.isSome_iff_ne_none.mpr h)]
  rfl

theorem executeWalStmt_position {payload : Payload} (h : payload "order_id" = none) :
    row (executeWalStmt payload nowMs db).2 pid =
      if payload.get "position_id" = .text pid then some (executeWalPosition payload) else row db pid := by
  unfold executeWalStmt
  rw [h]
  exact row_insertOrReplace _

theorem Numbered.stmt (h : Numbered db) (hop : op.Natural) : Numbered (op.stmt nowMs db).2 := by
  intro pid r hr
  cases op with
  | executeWal payload =>
    by_cases horder : payload "order_id" = none
    · simp only [Op.stmt] at hr
      rw [executeWalStmt_position horder] at hr
      split at hr
      · cases hr
        exact natural_version hop
      · exact h pid r hr
    · simp only [Op.stmt] at hr
      rw [executeWalStmt_order horder] at hr
      exact h pid r hr
  | openPosition payload =>
    simp only [Op.stmt, row_open] at hr
    rcases Option.or_eq_some_iff.mp hr with hold | ⟨-, hnew⟩
    · exact h pid r hold
    · split at hnew
      · cases hnew
        exact natural_version hop
      · cases hnew
  | closePosition positionId closeReason realizedPnl feeTotal rMultiple =>
    simp only [Op.stmt, row_close] at hr
    split at hr
    · obtain ⟨r₀, hr₀, rfl⟩ := Option.map_eq_some_iff.mp hr
      exact h pid r₀ hr₀
    · exact h pid r hr
  | updatePositionVersioned positionId newAvg newTp newSl expectedVersion =>
    simp only [Op.stmt, row_update] at hr
    obtain ⟨r₀, hr₀, rfl⟩ := Option.map_eq_some_iff.mp hr
    obtain ⟨n, hn⟩ := h pid r₀ hr₀
    split
    · rename_i hmatch
      rw [hn] at hmatch
      have hnum : (n : ℚ) = ((expectedVersion - 1 : ℤ) : ℚ) := SqlValue.num.inj hmatch.2
      have hint : (n : ℤ) = expectedVersion - 1 := by exact_mod_cast hnum
      refine ⟨n + 1, ?_⟩
      have hexp : expectedVersion = ((n + 1 : ℕ) : ℤ) := by omega
      show SqlValue.num (expectedVersion : ℚ) = .num ((n + 1 : ℕ) : ℚ)
      rw [hexp, Int.cast_natCast]
    · exact ⟨n, hn⟩
  | _ => exact h pid r hr

/-- Only `execute_wal` can take a version back. -/
theorem neverBack_stmt (hop : op.NotBehind db) : NeverBack db (op.stmt nowMs db).2 := by
  intro pid v hv
  obtain ⟨r, hr, rfl⟩ := Option.map_eq_some_iff.mp hv
  unfold storedVersion
  cases op with
  | executeWal payload =>
    simp only [Op.stmt]
    by_cases horder : payload "order_id" = none
    · rw [executeWalStmt_position horder]
      split
      · rename_i hpid
        exact ⟨_, rfl, hop horder pid _ hpid hv⟩
      · exact ⟨_, hv, le_refl _⟩
    · rw [executeWalStmt_order horder]
      exact ⟨_, hv, le_refl _⟩
  | openPosition payload =>
    simp only [Op.stmt, row_open, hr, Option.some_or, Option.map_some]
    exact ⟨_, rfl, le_refl _⟩
  | closePosition positionId closeReason realizedPnl feeTotal rMultiple =>
    simp only [Op.stmt, row_close]
    split
    · rw [hr]
      exact ⟨_, rfl, le_refl _⟩
    · exact ⟨_, hv, le_refl _⟩
  | updatePositionVersioned positionId newAvg newTp newSl expectedVersion =>
    simp only [Op.stmt, row_update, hr, Option.map_some]
    split
    · rename_i hmatch
      refine ⟨_, rfl, ?_⟩
      show intVersion (r .version) ≤ intVersion (.num expectedVersion)
      rw [hmatch.2, intVersion_int, intVersion_int]
      omega
    · exact ⟨_, rfl, le_refl _⟩
  | _ => exact ⟨_, hv, le_refl _⟩

end Stored

/-! ## Callers -/

/-- What a caller has read, and whether an update of the position has returned `True` since. -/
structure Reading where
  positionId : String
  version : ℤ
  stale : Bool

structure Callers where
  conn : Conn Db
  reads : ℕ → Option Reading
  /-- the positions and expected versions of the updates that returned `True` -/
  granted : List (String × ℤ)

inductive CallerEvent where
  | read (caller : ℕ) (positionId : String) (s : CallScript)
  /-- `update_position_versioned` of the position that the caller has read, under the next version -/
  | update (caller : ℕ) (newAvg newTp newSl : ℚ) (s : CallScript)
  | other (op : Op) (s : CallScript)

namespace Callers

def start (db : Db) : Callers := ⟨Conn.openDb db, fun _ => none, []⟩

/-- The call of a caller that updates what it has read. -/
def updateOp (r : Reading) (newAvg newTp newSl : ℚ) : Op :=
  .updatePositionVersioned r.positionId newAvg newTp newSl (r.version + 1)

/-- The position and the version of an update that returns `True`. -/
def grant (w : Callers) : CallerEvent → Option (String × ℤ)
  | .update caller newAvg newTp newSl s => match w.reads caller with
    | none => none
    | some r => if ((updateOp r newAvg newTp newSl).call s w.conn).1 then some (r.positionId, r.version + 1) else none
  | _ => none

/-- The readings of the position become stale. -/
def outdate (g : Option (String × ℤ)) (reads : ℕ → Option Reading) : ℕ → Option Reading := fun caller =>
  (reads caller).map fun r => if g.any (·.1 = r.positionId) then { r with stale := true } else r

def step (w : Callers) (e : CallerEvent) : Callers := match e with
  | .read caller positionId s => match getVersion s positionId w.conn with
    | none => w
    | some version => { w with reads := Function.update w.reads caller (some ⟨positionId, version, false⟩) }
  | .update caller newAvg newTp newSl s => match w.reads caller with
    | none => w
    | some r => ⟨((updateOp r newAvg newTp newSl).call s w.conn).2, outdate (w.grant e) w.reads,
      (w.grant e).toList ++ w.granted⟩
  | .other op s => { w with conn := (op.call s w.conn).2 }

/-- No stored version decreases, on disk or for the connection; no version is granted twice; a stale reading is
refused. -/
structure Protected (w : Callers) (e : CallerEvent) : Prop where
  view : NeverBack w.conn.view (w.step e).conn.view
  disk : NeverBack w.conn.disk (w.step e).conn.disk
  once : ∀ g, w.grant e = some g → g ∉ w.granted
  fresh : ∀ caller newAvg newTp newSl s r, e = .update caller newAvg newTp newSl s → w.reads caller = some r →
    r.stale = true → w.grant e = none

/-- The other operations are not versioned updates, and their payloads have natural versions. -/
def Regular : CallerEvent → Prop
  | .other op _ => op.Natural ∧ ∀ positionId newAvg newTp newSl expectedVersion,
    op ≠ .updatePositionVersioned positionId newAvg newTp newSl expectedVersion
  | _ => True

/-- An `execute_wal` whose statement runs meets no row with a greater version than the one that it stores. -/
def Keeps (w : Callers) : CallerEvent → Prop
  | .other op s => op.Executes s → op.NotBehind w.conn.view
  | _ => True

/-- What the runs keep. -/
structure Ordered (w : Callers) : Prop where
  keyed : KeyedDb w.conn.view
  numbered : Numbered w.conn.view
  behind : NeverBack w.conn.disk w.conn.view
  granted : ∀ g ∈ w.granted, ∃ v, storedVersion w.conn.view g.1 = some v ∧ g.2 ≤ v
  reads : ∀ caller r, w.reads caller = some r →
    r.version = 0 ∨ ∃ v, storedVersion w.conn.view r.positionId = some v ∧ r.version ≤ v
  stale : ∀ caller r, w.reads caller = some r → r.stale = true →
    ∃ v, storedVersion w.conn.view r.positionId = some v ∧ r.version + 1 ≤ v

section Steps
variable {w : Callers} {e : CallerEvent} {op : Op} {s : CallScript} {r : Reading} {newAvg newTp newSl : ℚ} {caller : ℕ}

/-- A call that takes no version back. -/
theorem call_neverBack {c : Conn Db} (hop : op.Executes s → op.NotBehind c.view) (hb : NeverBack c.disk c.view) :
    NeverBack c.view (op.call s c).2.view ∧ NeverBack c.disk (op.call s c).2.disk ∧
      NeverBack (op.call s c).2.disk (op.call s c).2.view := by
  rcases hx : op.call s c with ⟨ok, c'⟩
  obtain ⟨hview, hdisk⟩ := Op.call_view hx
  have hv : NeverBack c.view c'.view := by
    rcases hview with ⟨-, -, hsame⟩ | ⟨hex, hrun, -⟩
    · rw [hsame]
      exact NeverBack.refl _
    · rw [hrun]
      exact neverBack_stmt (hop hex)
  refine ⟨hv, ?_⟩
  rcases hdisk with hsame | hsame
  · rw [hsame]
    exact ⟨NeverBack.refl _, hb.trans hv⟩
  · rw [hsame]
    exact ⟨hb.trans hv, NeverBack.refl _⟩

theorem call_keyed {c : Conn Db} (hk : KeyedDb c.view) (hn : Numbered c.view) (hop : op.Natural) :
    KeyedDb (op.call s c).2.view ∧ Numbered (op.call s c).2.view := by
  rcases hx : op.call s c with ⟨ok, c'⟩
  rcases (Op.call_view hx).1 with ⟨-, -, hsame⟩ | ⟨-, hrun, -⟩
  · rw [hsame]
    exact ⟨hk, hn⟩
  · rw [hrun]
    exact ⟨hk.stmt op _, hn.stmt hop⟩

/-- An update that returns `True` found the version before the expected one, and stored the expected one. -/
theorem updateOp_true {c : Conn Db} (hk : KeyedDb c.view) (h : ((updateOp r newAvg newTp newSl).call s c).1 = true) :
    storedVersion c.view r.positionId = some r.version ∧
      storedVersion ((updateOp r newAvg newTp newSl).call s c).2.view r.positionId = some (r.version + 1) := by
  rcases hx : (updateOp r newAvg newTp newSl).call s c with ⟨ok, c'⟩
  rw [hx] at h
  rcases (Op.call_view hx).1 with ⟨-, hfalse, -⟩ | ⟨-, hrun, hmatches⟩
  · exact absurd (hfalse.symm.trans h) Bool.false_ne_true
  · obtain ⟨row, hmem, hpid, hversion⟩ := hmatches h
    have hrow := hk.row hmem hpid
    rw [add_sub_cancel_right] at hversion
    refine ⟨?_, ?_⟩
    · rw [storedVersion_of_row hrow, hversion, intVersion_int]
    · rw [hrun]
      simp only [updateOp, Op.stmt, storedVersion, row_update, hrow, Option.map_some, add_sub_cancel_right, hversion,
        and_self, if_true]
      exact congrArg some (intVersion_int _)

theorem grant_some {g : String × ℤ} (h : w.grant (.update caller newAvg newTp newSl s) = some g) :
    ∃ r, w.reads caller = some r ∧ g = (r.positionId, r.version + 1) ∧
      ((updateOp r newAvg newTp newSl).call s w.conn).1 = true := by
  cases hr : w.reads caller with
  | none => simp [grant, hr] at h
  | some r =>
    simp only [grant, hr, Option.ite_none_right_eq_some, Option.some.injEq] at h
    exact ⟨r, rfl, h.2.symm, h.1⟩

theorem step_read {positionId : String} {version : ℤ} (h : getVersion s positionId w.conn = some version) :
    w.step (.read caller positionId s) =
      { w with reads := Function.update w.reads caller (some ⟨positionId, version, false⟩) } := by
  simp only [step, h]

theorem step_update (h : w.reads caller = some r) : w.step (.update caller newAvg newTp newSl s) =
    ⟨((updateOp r newAvg newTp newSl).call s w.conn).2, outdate (w.grant (.update caller newAvg newTp newSl s)) w.reads,
      (w.grant (.update caller newAvg newTp newSl s)).toList ++ w.granted⟩ := by
  simp only [step, h]

theorem Ordered.read (h : Ordered w) (positionId : String) (s : CallScript) :
    Ordered (w.step (.read caller positionId s)) := by
  cases hread : getVersion s positionId w.conn with
  | none =>
    simp only [step, hread]
    exact h
  | some version =>
    rw [step_read hread]
    have hversion : version = 0 ∨ ∃ v, storedVersion w.conn.view positionId = some v ∧ version ≤ v := by
      unfold getVersion at hread
      split at hread
      · split at hread <;> cases hread
        · cases hrow : row w.conn.view positionId with
          | none => exact Or.inl rfl
          | some r => exact Or.inr ⟨_, storedVersion_of_row hrow, le_refl _⟩
        · exact Or.inl rfl
      · cases hread
    refine ⟨h.keyed, h.numbered, h.behind, h.granted, fun c r hr => ?_, fun c r hr hstale => ?_⟩
    · simp only [Function.update_apply] at hr
      split at hr
      · cases hr
        exact hversion
      · exact h.reads c r hr
    · simp only [Function.update_apply] at hr
      split at hr
      · cases hr
        cases hstale
      · exact h.stale c r hr hstale

theorem Ordered.other (h : Ordered w) (hop : op.Natural) (hkeeps : op.Executes s → op.NotBehind w.conn.view) :
    Ordered (w.step (.other op s)) := by
  obtain ⟨hk, hn⟩ := call_keyed (s := s) h.keyed h.numbered hop
  obtain ⟨hview, -, hbehind⟩ := call_neverBack hkeeps h.behind
  have hmore : ∀ pid x, (∃ v, storedVersion w.conn.view pid = some v ∧ x ≤ v) →
      ∃ v, storedVersion (op.call s w.conn).2.view pid = some v ∧ x ≤ v := by
    rintro pid x ⟨v, hv, hle⟩
    obtain ⟨v', hv', hle'⟩ := hview pid v hv
    exact ⟨v', hv', hle.trans hle'⟩
  exact ⟨hk, hn, hbehind, fun g hg => hmore _ _ (h.granted g hg), fun c r hr => (h.reads c r hr).imp id (hmore _ _),
    fun c r hr hstale => hmore _ _ (h.stale c r hr hstale)⟩

theorem Ordered.update (h : Ordered w) : Ordered (w.step (.update caller newAvg newTp newSl s)) := by
  cases hr : w.reads caller with
  | none =>
    simp only [step, hr]
    exact h
  | some r =>
    rw [step_update hr]
    have hop : Ordered (w.step (.other (updateOp r newAvg newTp newSl) s)) := h.other trivial fun _ => trivial
    refine ⟨hop.keyed, hop.numbered, hop.behind, fun g hg => ?_, fun c r' hr' => ?_, fun c r' hr' hstale => ?_⟩
    · rcases List.mem_append.mp hg with hnew | hold
      · obtain ⟨r₁, hr₁, rfl, htrue⟩ := grant_some (Option.mem_toList.mp hnew)
        rw [hr] at hr₁
        cases hr₁
        exact ⟨_, (updateOp_true h.keyed htrue).2, le_refl _⟩
      · exact hop.granted g hold
    · obtain ⟨r₀, hr₀, rfl⟩ := Option.map_eq_some_iff.mp hr'
      have hold := hop.reads c r₀ hr₀
      split <;> exact hold
    · obtain ⟨r₀, hr₀, rfl⟩ := Option.map_eq_some_iff.mp hr'
      split at hstale <;> rename_i hany
      · -- the update has stored a version above everything that had been read of the position
        rw [if_pos hany]
        obtain ⟨g, hg, hpid⟩ := (Option.any_eq_true _ _).mp hany
        obtain ⟨r₁, hr₁, rfl, htrue⟩ := grant_some hg
        rw [hr] at hr₁
        cases hr₁
        obtain ⟨hbefore, hafter⟩ := updateOp_true h.keyed htrue
        have hsame : r.positionId = r₀.positionId := by simpa using hpid
        refine ⟨_, by rw [← hsame]; exact hafter, ?_⟩
        obtain ⟨row, hrow, hversion⟩ := Option.map_eq_some_iff.mp hbefore
        obtain ⟨n, hn⟩ := h.numbered _ _ hrow
        rw [hn, intVersion_nat] at hversion
        rcases h.reads c r₀ hr₀ with hzero | ⟨v, hv, hle⟩
        · show r₀.version + 1 ≤ r.version + 1
          omega
        · rw [← hsame, hbefore] at hv
          cases hv
          show r₀.version + 1 ≤ r.version + 1
          omega
      · rw [if_neg hany]
        exact hop.stale c r₀ hr₀ hstale

theorem Ordered.step (h : Ordered w) (he : Regular e) (hkeeps : Keeps w e) : Ordered (w.step e) := by
  cases e with
  | read caller positionId s => exact h.read positionId s
  | update caller newAvg newTp newSl s => exact h.update
  | other op s => exact h.other he.1 hkeeps

/-- What is granted was stored just before, so it was neither granted before nor read before another grant. -/
theorem Ordered.protected (h : Ordered w) (hkeeps : Keeps w e) : Protected w e := by
  have hcall : NeverBack w.conn.view (w.step e).conn.view ∧ NeverBack w.conn.disk (w.step e).conn.disk := by
    cases e with
    | read caller positionId s =>
      have hsame : (w.step (.read caller positionId s)).conn = w.conn := by
        simp only [Callers.step]
        split <;> rfl
      rw [hsame]
      exact ⟨NeverBack.refl _, NeverBack.refl _⟩
    | update caller newAvg newTp newSl s =>
      cases hr : w.reads caller with
      | none =>
        simp only [Callers.step, hr]
        exact ⟨NeverBack.refl _, NeverBack.refl _⟩
      | some r =>
        rw [step_update hr]
        have hkeep : (updateOp r newAvg newTp newSl).Executes s →
            (updateOp r newAvg newTp newSl).NotBehind w.conn.view := fun _ => trivial
        exact (call_neverBack hkeep h.behind).imp id And.left
    | other op s => exact (call_neverBack hkeeps h.behind).imp id And.left
  refine ⟨hcall.1, hcall.2, fun g hg hmem => ?_, fun caller newAvg newTp newSl s r he hr hstale => ?_⟩
  · cases e with
    | update caller newAvg newTp newSl s =>
      obtain ⟨r, -, rfl, htrue⟩ := grant_some hg
      obtain ⟨v, hv, hle⟩ := h.granted _ hmem
      rw [(updateOp_true h.keyed htrue).1] at hv
      cases hv
      exact absurd hle (by simp)
    | _ => cases hg
  · subst he
    cases hg : w.grant (.update caller newAvg newTp newSl s) with
    | none => rfl
    | some g =>
      obtain ⟨r₁, hr₁, -, htrue⟩ := grant_some hg
      rw [hr] at hr₁
      cases hr₁
      obtain ⟨v, hv, hle⟩ := h.stale caller r hr hstale
      rw [(updateOp_true h.keyed htrue).1] at hv
      cases hv
      exact absurd hle (by simp)

/-- A replaced row takes its version back. -/
theorem not_protected (hnot : ¬ Keeps w e) : ¬ Protected w e := by
  intro hprotected
  cases e with
  | other op s =>
    obtain ⟨hex, hback⟩ := Classical.not_imp.mp hnot
    cases op with
    | executeWal payload =>
      refine hback fun horder pid v hpid hv => ?_
      rcases hx : (Op.executeWal payload).call s w.conn with ⟨ok, c'⟩
      obtain ⟨v', hv', hle⟩ := hprotected.view pid v hv
      have hview : (w.step (.other (.executeWal payload) s)).conn.view = (executeWalStmt payload s.nowMs w.conn.view).2 := by
        simp only [Callers.step, hx]
        rcases (Op.call_view hx).1 with ⟨hno, -, -⟩ | ⟨-, hrun, -⟩
        · exact absurd hex hno
        · exact hrun
      rw [hview, storedVersion, executeWalStmt_position horder, if_pos hpid] at hv'
      cases hv'
      exact hle
    | _ => exact hback trivial
  | _ => exact hnot trivial

end Steps

/-- **Versions protect against lost updates** exactly in the runs in which no `execute_wal` meets a row with a greater
version than the one that it stores. -/
theorem protected_iff {db : Db} (hk : KeyedDb db) (hn : Numbered db) {es : List CallerEvent}
    (hes : ∀ e ∈ es, Regular e) :
    Runs.Guarded Protected step (start db) es ↔ Runs.Guarded Keeps step (start db) es := by
  have h0 : Ordered (start db) :=
    { keyed := hk
      numbered := hn
      behind := NeverBack.refl db
      granted := nofun
      reads := nofun
      stale := nofun }
  refine Runs.guarded_iff_guarded h0 (fun w e he h hkeeps => ?_) fun w e _ _ hnot => not_protected hnot
  exact ⟨h.step (hes e he) hkeeps, h.protected hkeeps⟩

/-- The payload of a new position. -/
def openPayload : Payload := Payload.ofList [("position_id", .text "BTCUSDT"), ("avg", .num 100)]

/-- A position is opened and two callers update it, one after the other. -/
def twoUpdates : List CallerEvent :=
  [.other (.openPosition openPayload) {}, .read 0 "BTCUSDT" {}, .update 0 101 101 101 {}, .read 1 "BTCUSDT" {},
    .update 1 102 102 102 {}]

theorem protected_iff_twoUpdates : Runs.Guarded Protected step (start {}) twoUpdates := by
  refine (protected_iff keyedDb_empty (fun pid r hr => nomatch hr) ?_).mpr ?_
  · intro e he
    simp only [twoUpdates, List.mem_cons, List.not_mem_nil, or_false] at he
    rcases he with rfl | rfl | rfl | rfl | rfl
    · refine ⟨fun v hv => ?_, fun _ _ _ _ _ => nofun⟩
      have hnone : openPayload "version" = none := by decide
      rw [hnone] at hv
      cases hv
    all_goals exact trivial
  · refine Runs.guarded_of_forall fun e he w => ?_
    simp only [twoUpdates, List.mem_cons, List.not_mem_nil, or_false] at he
    rcases he with rfl | rfl | rfl | rfl | rfl
    · exact fun _ => trivial
    all_goals exact trivial

/-- A trade is recorded between the two updates. -/
def tradeBetween : List CallerEvent :=
  [.other (.openPosition openPayload) {}, .read 0 "BTCUSDT" {}, .update 0 101 101 101 {},
    .other (.executeWal (Risk.WhaleRadar.tradePayload "BTCUSDT" 100)) {}, .read 1 "BTCUSDT" {}, .update 1 102 102 102 {}]

/-- Both updates return `True` for the same expected version. -/
theorem not_protected_tradeBetween :
    ¬ Runs.Guarded Protected step (start {}) tradeBetween ∧
      (Runs.run step (start {}) tradeBetween).granted = [("BTCUSDT", 1), ("BTCUSDT", 1)] := by
  refine ⟨fun h => ?_, by decide⟩
  have htrade := h (tradeBetween.take 3) (.other (.executeWal (Risk.WhaleRadar.tradePayload "BTCUSDT" 100)) {})
    ⟨[.read 1 "BTCUSDT" {}, .update 1 102 102 102 {}], rfl⟩
  obtain ⟨v, hv, hle⟩ := htrade.view "BTCUSDT" 1 (by decide)
  have hzero : storedVersion ((Runs.run step (start {}) (tradeBetween.take 3)).step
      (.other (.executeWal (Risk.WhaleRadar.tradePayload "BTCUSDT" 100)) {})).conn.view "BTCUSDT" = some 0 := by
    decide
  rw [hzero] at hv
  cases hv
  exact absurd hle (by decide)

end Callers

end MikoV2.Writer
