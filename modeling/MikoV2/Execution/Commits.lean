import Mathlib.Tactic.Ring
import MikoV2.Execution.OrderManager
import MikoV2.Lib.Runs

/-!
# Advance after commit

The manager remembers a fill once the versioned update has returned, whatever it returned, and inserts the row
of a new position after that.

* `Written` : the row of the position on disk was last written by the event;
* `CommitsFirst` : a remembered fill is written, and one that is not written can be delivered again;
* `UpdatesRow`, `Commits` : the update of the first round that returns finds the version it expects and reaches
  the disk, or the insert does; `commitsFirst_iff` : the runs of such events are those that commit first.
-/

namespace MikoV2.Execution
open Sqlite Store

namespace OrderManager

/-- The row of the position on disk was last written by the event with number `n`, at its price. -/
def Written (m : OrderManager) (e : FillEvent) (n : ℕ) : Prop :=
  ∃ row, m.conn.disk e.positionId = some row ∧ row.stamp = some n ∧ row.avg = e.fillPrice

/-- The event advances the memory only after its commit, and can be delivered again when nothing was committed. -/
structure CommitsFirst (cfg : OrderManagerConfig) (m : OrderManager) (e : FillEvent) (n : ℕ) : Prop where
  advance : (onFillEvent cfg m e n).2.filledByOrder ≠ m.filledByOrder → Written (onFillEvent cfg m e n).2 e n
  again : ¬ Written (onFillEvent cfg m e n).2 e n → Processes cfg m e → Processes cfg (onFillEvent cfg m e n).2 e

/-- The insert of the row is made, and neither raises nor fails. -/
def Inserts (m : OrderManager) (e : FillEvent) : Prop :=
  m.positionOpened e.positionId = false ∧
    e.opening.raises = false ∧ e.opening.statementFails = false ∧ e.opening.commitFails = false

/-- The round reads the version that the row has when it updates it, and its statement does not fail. `version` is
the version of the row before the round. -/
def Hits (a : Attempt) (version : ℤ) : Prop :=
  (if a.read.statementFails then version + a.rivals.length = 0 else a.rivals = []) ∧ a.update.statementFails = false

/-- The first round that returns hits the row. The rounds before it may have let other writers raise its version. -/
def UpdatesRow : List Attempt → ℤ → Prop
  | [], _ => False
  | a :: as, version =>
    if a.Returns then Hits a version
    else UpdatesRow as (if a.read.raises then version else version + a.rivals.length)

/-- The commit of the update in the first round that returns does not fail. -/
def UpdateCommits (as : List Attempt) : Prop := ∃ a, as.find? (·.Returns) = some a ∧ a.update.commitFails = false

/-- An event that is remembered reaches the disk: the versioned update changes the row, and it is committed with
it or with the insert that follows; or there is no row, and the insert makes it. -/
def Commits (cfg : OrderManagerConfig) (m : OrderManager) (e : FillEvent) : Prop :=
  Processes cfg m e → (∃ a ∈ rounds cfg e, a.Returns) → match m.conn.view e.positionId with
    | none => m.Inserts e
    | some row => UpdatesRow (rounds cfg e) row.version ∧ (UpdateCommits (rounds cfg e) ∨ m.Inserts e)

/-! ## Records -/

/-- The records in the table are of events before the one with number `n`. -/
def Below (n : ℕ) (db : Positions) : Prop := ∀ pid row, db pid = some row → ∀ k, row.stamp = some k → k < n

section Records
variable {n k : ℕ} {db : Positions} {c c' : Conn Positions} {pid : String} {row : PositionRow}

theorem Below.mono (h : Below n db) (hle : n ≤ k) : Below k db := fun p r hr j hj => lt_of_lt_of_le (h p r hr j hj) hle

theorem Below.update (h : Below n db) (hrow : ∀ j, row.stamp = some j → j < n) :
    Below n (Function.update db pid (some row)) := by
  intro p r hr j hj
  by_cases hp : p = pid
  · subst hp
    rw [Function.update_self] at hr
    cases hr
    exact hrow j hj
  · rw [Function.update_of_ne hp] at hr
    exact h p r hr j hj

theorem Below.insertStmt (h : Below n db) (hrow : ∀ j, row.stamp = some j → j < n) :
    Below n (insertStmt pid row db).2 := by
  unfold Store.insertStmt
  split
  · exact h
  · exact h.update hrow

theorem Below.closeStmt {reason : String} {pnl fee : ℚ} {r : Option ℚ} {closedAtMs : ℤ} (h : Below n db) :
    Below n (closeStmt pid reason pnl fee r closedAtMs db).2 := by
  unfold Store.closeStmt
  split
  · exact h
  · rename_i row hrow
    exact h.update fun j hj => h pid row hrow j hj

/-- What is pending and what is on disk. -/
def Unwritten (n : ℕ) (c : Conn Positions) : Prop := Below n c.view ∧ Below n c.disk

theorem Unwritten.mono (h : Unwritten n c) : Unwritten (n + 1) c :=
  ⟨h.1.mono (Nat.le_succ n), h.2.mono (Nat.le_succ n)⟩

theorem Unwritten.open {s : CallScript} {ok : Bool} (h : Unwritten n c) (hrow : ∀ j, row.stamp = some j → j < n)
    (hopen : openPosition s pid row c = (ok, c')) : Unwritten n c' := by
  unfold openPosition at hopen
  split at hopen
  · cases hopen
    exact h
  · rcases hx : c.write s.faults .statement .commit (Store.insertStmt pid row) with ⟨r, c₁⟩
    rw [hx] at hopen
    cases hopen
    exact write_keeps (fun d hd => hd.insertStmt hrow) h.1 h.2 hx

theorem Unwritten.close {s : CallScript} {reason : String} {pnl fee : ℚ} {r : Option ℚ} {closedAtMs : ℤ} {ok : Bool}
    (h : Unwritten n c) (hclose : closePosition s pid reason pnl fee r closedAtMs c = (ok, c')) : Unwritten n c' := by
  unfold closePosition at hclose
  split at hclose
  · cases hclose
    exact h
  · rcases hx : c.write s.faults .statement .commit (Store.closeStmt pid reason pnl fee r closedAtMs) with ⟨r, c₁⟩
    rw [hx] at hclose
    cases hclose
    exact write_keeps (fun d hd => hd.closeStmt) h.1 h.2 hx

variable (pid) in
/-- Other writers raise the version of a row and leave no record. -/
theorem rivalUpdates_spec (rivals : List (ℚ × ℚ × ℚ)) (h : Unwritten n c) :
    Unwritten n (rivalUpdates pid rivals c) ∧
      (c.view pid = none → (rivalUpdates pid rivals c).view pid = none) ∧
      ∀ row, c.view pid = some row →
        ∃ row', (rivalUpdates pid rivals c).view pid = some row' ∧ row'.version = row.version + rivals.length := by
  induction rivals generalizing c with
  | nil => exact ⟨h, id, fun row hrow => ⟨row, hrow, by simp⟩⟩
  | cons r rivals ih =>
    unfold rivalUpdates
    rw [List.foldl_cons]
    cases hview : c.view pid with
    | none =>
      simp only
      obtain ⟨hun, hnone, -⟩ := ih h
      refine ⟨hun, fun _ => hnone hview, fun row hrow => ?_⟩
      cases hrow
    | some row =>
      simp only
      have hnew : Below n (Function.update c.view pid
          (some (row.revise r.1 r.2.1 r.2.2 (row.version + 1) none))) := h.1.update fun j hj => by cases hj
      obtain ⟨hun, -, hsome⟩ := ih (c := { c with
        view := Function.update c.view pid (some (row.revise r.1 r.2.1 r.2.2 (row.version + 1) none))
        disk := Function.update c.view pid (some (row.revise r.1 r.2.1 r.2.2 (row.version + 1) none)) }) ⟨hnew, hnew⟩
      refine ⟨hun, fun hnone => ?_, ?_⟩
      · cases hnone
      · rintro _ ⟨⟩
        obtain ⟨row', hrow', hversion⟩ := hsome _ (Function.update_self _ _ _)
        refine ⟨row', hrow', ?_⟩
        rw [hversion]
        simp only [PositionRow.revise, List.length_cons]
        push_cast
        ring

/-- The row of the position was written by the event with number `n`, and what is on disk is not newer. -/
def Pending (e : FillEvent) (n : ℕ) (c : Conn Positions) : Prop :=
  Below (n + 1) c.view ∧ Below (n + 1) c.disk ∧
    ∃ row, c.view e.positionId = some row ∧ row.stamp = some n ∧ row.avg = e.fillPrice

variable {e : FillEvent} {a : Attempt} {as : List Attempt} {ok : Bool}

/-- What a round does with the version it reads, unless the read raises. -/
theorem attempt_eq (hread : a.read.raises = false) :
    attempt e n a c = ((updatePositionVersioned a.update (some n) e.positionId e.fillPrice e.fillPrice e.fillPrice
        ((if a.read.statementFails then 0 else (c.view e.positionId).elim 0 (·.version)) + 1)
        (rivalUpdates e.positionId a.rivals c)).map Option.isSome id) := by
  unfold attempt getVersion
  rw [if_neg (Bool.eq_false_iff.mp hread)]
  by_cases hfails : a.read.statementFails = true
  · rw [if_pos hfails, if_pos hfails]
    simp only
    split <;> rename_i hx <;> rw [hx] <;> rfl
  · rw [if_neg hfails, if_neg hfails]
    simp only
    split <;> rename_i hx <;> rw [hx] <;> rfl

/-- The version that a round reads, when its read does not raise. -/
def versionRead (e : FillEvent) (a : Attempt) (c : Conn Positions) : ℤ :=
  if a.read.statementFails then 0 else (c.view e.positionId).elim 0 (·.version)

/-- A round hits the row when its version is the one that was read once the other writers have raised it. -/
theorem hits_iff (hrow : c.view e.positionId = some row) (hst : a.update.statementFails = false) :
    row.version + a.rivals.length = versionRead e a c ↔ Hits a row.version := by
  unfold Hits versionRead
  rw [hrow]
  by_cases hfails : a.read.statementFails = true
  · simp [hfails, hst]
  · simp [hfails, hst]

/-- A round that returns is its update, under the version that follows the one it has read. -/
theorem attempt_returns (ha : attempt e n a c = (ok, c')) (hr : a.Returns) :
    ∃ r, updatePositionVersioned a.update (some n) e.positionId e.fillPrice e.fillPrice e.fillPrice
      (versionRead e a c + 1) (rivalUpdates e.positionId a.rivals c) = (r, c') ∧ ok = r.isSome := by
  rw [attempt_eq hr.1] at ha
  rcases hx : updatePositionVersioned a.update (some n) e.positionId e.fillPrice e.fillPrice e.fillPrice
      (versionRead e a c + 1) (rivalUpdates e.positionId a.rivals c) with ⟨r, c₂⟩
  unfold versionRead at hx
  rw [hx] at ha
  cases ha
  exact ⟨r, rfl, rfl⟩

/-- A round that raises leaves what the other writers did. -/
theorem attempt_raised (h : Unwritten n c) (ha : attempt e n a c = (ok, c')) (hr : ¬ a.Returns) :
    ok = false ∧ Unwritten n c' ∧ (c.view e.positionId = none → c'.view e.positionId = none) ∧
      ∀ row, c.view e.positionId = some row → ∃ row', c'.view e.positionId = some row' ∧
        row'.version = if a.read.raises then row.version else row.version + a.rivals.length := by
  by_cases hread : a.read.raises = true
  · unfold attempt getVersion at ha
    rw [if_pos hread] at ha
    cases ha
    exact ⟨rfl, h, id, fun row hrow => ⟨row, hrow, by rw [if_pos hread]⟩⟩
  · obtain ⟨hun, hnone, hsome⟩ := rivalUpdates_spec e.positionId a.rivals h
    have hreadf : a.read.raises = false := Bool.eq_false_iff.mpr hread
    have hraises : a.update.raises = true := by
      by_contra hno
      exact hr ⟨hreadf, Bool.eq_false_iff.mpr hno⟩
    rw [attempt_eq hreadf] at ha
    unfold updatePositionVersioned at ha
    rw [if_pos hraises] at ha
    cases ha
    refine ⟨rfl, hun, hnone, fun row hrow => ?_⟩
    rw [if_neg hread]
    exact hsome row hrow

/-- A round that returns without hitting the row leaves what the other writers did. -/
theorem attempt_missed (h : Unwritten n c) (ha : attempt e n a c = (ok, c')) (hr : a.Returns)
    (hmiss : ∀ row, c.view e.positionId = some row → ¬ Hits a row.version) :
    ok = true ∧ Unwritten n c' ∧ (c.view e.positionId = none → c'.view e.positionId = none) ∧
      ∀ row, c.view e.positionId = some row → ∃ row', c'.view e.positionId = some row' ∧
        row'.version = row.version + a.rivals.length := by
  obtain ⟨hun, hnone, hsome⟩ := rivalUpdates_spec e.positionId a.rivals h
  obtain ⟨r, hx, rfl⟩ := attempt_returns ha hr
  rcases updatePositionVersioned_cases hx with ⟨hraises, -, -⟩ | ⟨-, rfl, hv, hd, -⟩ | ⟨row₁, -, hst, hrow₁, hversion, -, -⟩
  · exact absurd (hr.2.symm.trans hraises) Bool.false_ne_true
  · have hun' : Unwritten n c' := by
      unfold Unwritten
      rw [hv, hd]
      exact hun
    refine ⟨rfl, hun', fun hn => (congrFun hv e.positionId).trans (hnone hn), fun row hrow => ?_⟩
    obtain ⟨row', hrow', hversion⟩ := hsome row hrow
    exact ⟨row', (congrFun hv e.positionId).trans hrow', hversion⟩
  -- an update that found its version has hit the row
  · cases hview : c.view e.positionId with
    | none =>
      rw [hnone hview] at hrow₁
      cases hrow₁
    | some row =>
      obtain ⟨row', hrow', hversion'⟩ := hsome row hview
      rw [hrow'] at hrow₁
      cases hrow₁
      refine absurd ((hits_iff hview hst).mp ?_) (hmiss row hview)
      omega

/-- A round that hits the row writes it, and its commit decides whether the disk follows. -/
theorem attempt_hit (h : Unwritten n c) (ha : attempt e n a c = (ok, c')) (hr : a.Returns)
    (hrow : c.view e.positionId = some row) (hhit : Hits a row.version) :
    ok = true ∧ Pending e n c' ∧
      ((a.update.commitFails = false ∧ c'.disk = c'.view) ∨ (a.update.commitFails = true ∧ Below n c'.disk)) := by
  obtain ⟨hun, -, hsome⟩ := rivalUpdates_spec e.positionId a.rivals h
  obtain ⟨row', hrow', hversion'⟩ := hsome row hrow
  have hread := (hits_iff hrow hhit.2).mpr hhit
  obtain ⟨r, hx, rfl⟩ := attempt_returns ha hr
  rcases updatePositionVersioned_cases hx with ⟨hraises, -, -⟩ | ⟨-, -, -, -, hwhy⟩ | ⟨row₁, -, -, -, -, hv, hcommit⟩
  · exact absurd (hr.2.symm.trans hraises) Bool.false_ne_true
  · rcases hwhy with hfails | hother
    · exact absurd (hhit.2.symm.trans hfails) Bool.false_ne_true
    · refine absurd ?_ (hother row' hrow')
      omega
  · have hview' : Below (n + 1) c'.view := by
      rw [hv]
      refine (hun.1.mono (Nat.le_succ n)).update fun j hj => ?_
      cases hj
      exact Nat.lt_succ_self n
    have hwritten : c'.view e.positionId = _ := congrFun hv e.positionId
    rw [Function.update_self] at hwritten
    rcases hcommit with ⟨hc, rfl, hd⟩ | ⟨hc, rfl, hd⟩
    · have hdisk' : Below n c'.disk := by
        rw [hd]
        exact hun.2
      exact ⟨rfl, ⟨hview', hdisk'.mono (Nat.le_succ n), _, hwritten, rfl, rfl⟩, Or.inr ⟨hc, hdisk'⟩⟩
    · have hdisk' : Below (n + 1) c'.disk := by
        rw [hd]
        exact hview'
      exact ⟨rfl, ⟨hview', hdisk', _, hwritten, rfl, rfl⟩, Or.inl ⟨hc, hd⟩⟩

/-- The retry loop: nothing is written without a row, or when no round hits it. -/
theorem attempts_spec (h : Unwritten n c) (ha : attempts e n as c = (ok, c')) :
    (ok = false → Unwritten n c') ∧
      (c.view e.positionId = none → Unwritten n c' ∧ c'.view e.positionId = none) ∧
      ∀ row, c.view e.positionId = some row →
        (UpdatesRow as row.version ∧ Pending e n c' ∧
          ((UpdateCommits as ∧ c'.disk = c'.view) ∨ (¬ UpdateCommits as ∧ Below n c'.disk))) ∨
        (¬ UpdatesRow as row.version ∧ Unwritten n c' ∧ ∃ row', c'.view e.positionId = some row') := by
  induction as generalizing c with
  | nil =>
    cases ha
    exact ⟨fun _ => h, fun hn => ⟨h, hn⟩, fun row hrow => Or.inr ⟨id, h, row, hrow⟩⟩
  | cons a as ih =>
    unfold attempts at ha
    rcases hx : attempt e n a c with ⟨ok₁, c₁⟩
    rw [hx] at ha
    by_cases hr : a.Returns
    · have hcommits : UpdateCommits (a :: as) ↔ a.update.commitFails = false := by
        unfold UpdateCommits
        simp [hr]
      simp only [UpdatesRow, hr, if_true, hcommits]
      by_cases hhit : ∃ row, c.view e.positionId = some row ∧ Hits a row.version
      · obtain ⟨row, hrow, hhit⟩ := hhit
        obtain ⟨rfl, hpending, hdisk⟩ := attempt_hit h hx hr hrow hhit
        cases ha
        refine ⟨fun hok => absurd hok (by decide), fun hn => ?_, fun row' hrow' => ?_⟩
        · rw [hrow] at hn
          cases hn
        · rw [hrow] at hrow'
          cases hrow'
          refine Or.inl ⟨hhit, hpending, hdisk.imp_right fun hd => ⟨?_, hd.2⟩⟩
          rw [hd.1]
          simp
      · have hmiss : ∀ row, c.view e.positionId = some row → ¬ Hits a row.version :=
          fun row hrow hh => hhit ⟨row, hrow, hh⟩
        obtain ⟨rfl, hun, hnone, hsome⟩ := attempt_missed h hx hr hmiss
        cases ha
        refine ⟨fun hok => absurd hok (by decide), fun hn => ⟨hun, hnone hn⟩, fun row hrow => ?_⟩
        obtain ⟨row', hrow', -⟩ := hsome row hrow
        exact Or.inr ⟨hmiss row hrow, hun, row', hrow'⟩
    · have hcommits : UpdateCommits (a :: as) ↔ UpdateCommits as := by
        unfold UpdateCommits
        simp [hr]
      obtain ⟨rfl, hun, hnone, hsome⟩ := attempt_raised h hx hr
      obtain ⟨hfalse, hnone', hsome'⟩ := ih hun ha
      refine ⟨hfalse, fun hn => hnone' (hnone hn), fun row hrow => ?_⟩
      obtain ⟨row', hrow', hversion⟩ := hsome row hrow
      unfold UpdatesRow
      rw [if_neg hr, hcommits, ← hversion]
      exact hsome' row' hrow'

end Records

/-! ## Events -/

section Events
variable {cfg : OrderManagerConfig} {m m' : OrderManager} {e : FillEvent} {n : ℕ} {outcome : FillOutcome}

theorem flip_unwritten (h : Unwritten n m.conn) : Unwritten n (m.flip e).conn := h.close rfl

/-- A remembered fill changes the memory. -/
theorem newFill_ne_existing (h : Processes cfg m e) :
    m.filledByOrder e.orderId ≠ some (newFill (m.existing e.orderId) e.fillQty) := by
  intro hsame
  apply (lt_newFill h).ne
  conv_lhs => rw [existing, hsame, Option.getD_some]

/-- The insert leaves the disk alone, or publishes the pending table with a row in it. -/
theorem openFirst_spec (m : OrderManager) (e : FillEvent) (n : ℕ) :
    (¬ m.Inserts e ∧ (m.openFirst e n).conn.disk = m.conn.disk) ∨
      (m.Inserts e ∧ (m.openFirst e n).conn.disk = (insertStmt e.positionId (m.firstRow e n) m.conn.view).2) := by
  unfold openFirst Inserts
  by_cases hopened : m.positionOpened e.positionId = true
  · rw [if_pos hopened]
    refine Or.inl ⟨fun h => ?_, rfl⟩
    exact Bool.false_ne_true (h.1.symm.trans hopened)
  · rw [if_neg hopened]
    rcases hx : openPosition e.opening e.positionId (m.firstRow e n) m.conn with ⟨ok, c⟩
    rcases openPosition_cases hx with ⟨rfl, hwhy, hd⟩ | ⟨rfl, hno, hv, hd⟩
    · refine Or.inl ⟨fun h => ?_, hd⟩
      rcases hwhy with hr | hr | hr
      · exact Bool.false_ne_true (h.2.1.symm.trans hr)
      · exact Bool.false_ne_true (h.2.2.1.symm.trans hr)
      · exact Bool.false_ne_true (h.2.2.2.symm.trans hr)
    · exact Or.inr ⟨⟨Bool.eq_false_iff.mpr hopened, hno⟩, hd.trans hv⟩

theorem openFirst_below (h : Below (n + 1) m.conn.view ∧ Below (n + 1) m.conn.disk) :
    Unwritten (n + 1) (m.openFirst e n).conn := by
  unfold openFirst
  split
  · exact h
  · have hrow : ∀ j, (m.firstRow e n).stamp = some j → j < n + 1 := by
      rintro j ⟨⟩
      exact Nat.lt_succ_self n
    split <;> rename_i hx <;> exact Unwritten.open h hrow hx

theorem Below.not_written (h : Below n m.conn.disk) : ¬ Written m e n := by
  rintro ⟨row, hrow, hstamp, -⟩
  exact lt_irrefl n (h e.positionId row hrow n hstamp)

variable (m') in
/-- What a remembered event leaves on disk, after the retry loop has left `c`. -/
theorem written_openFirst_iff {c : Conn Positions} (h : Unwritten n m.conn)
    (hx : attempts e n (rounds cfg e) m.conn = (true, c)) (hc : m'.conn = c) (hm : m'.Inserts e ↔ m.Inserts e) :
    (Written (m'.openFirst e n) e n ↔ match m.conn.view e.positionId with
      | none => m.Inserts e
      | some row => UpdatesRow (rounds cfg e) row.version ∧ (UpdateCommits (rounds cfg e) ∨ m.Inserts e)) ∧
      Below (n + 1) c.view ∧ Below (n + 1) c.disk := by
  obtain ⟨-, hnone, hsome⟩ := attempts_spec h hx
  have hopen := openFirst_spec m' e n
  rw [hm, hc] at hopen
  cases hview : m.conn.view e.positionId with
  | none =>
    obtain ⟨hun, hv⟩ := hnone hview
    refine ⟨?_, hun.mono⟩
    rcases hopen with ⟨hno, hd⟩ | ⟨hyes, hd⟩
    · refine iff_of_false (Below.not_written ?_) hno
      rw [hd]
      exact hun.2
    · refine iff_of_true ⟨m'.firstRow e n, ?_, rfl, rfl⟩ hyes
      rw [hd]
      unfold insertStmt
      rw [hv]
      exact Function.update_self _ _ _
  | some row =>
    rcases hsome row hview with ⟨hhit, ⟨hbv, hbd, row', hrow', hstamp, havg⟩, hdisk⟩ | ⟨hmiss, hun, row', hrow'⟩
    · have hkeep : (insertStmt e.positionId (m'.firstRow e n) c.view).2 = c.view := by
        unfold insertStmt
        rw [hrow']
      refine ⟨?_, hbv, hbd⟩
      simp only [hhit, true_and]
      rcases hopen with ⟨hno, hd⟩ | ⟨hyes, hd⟩
      · rw [or_iff_left hno]
        rcases hdisk with ⟨hcommit, hdv⟩ | ⟨hcommit, hold⟩
        · refine iff_of_true ⟨row', ?_, hstamp, havg⟩ hcommit
          rw [hd, hdv]
          exact hrow'
        · refine iff_of_false (Below.not_written ?_) hcommit
          rw [hd]
          exact hold
      · refine iff_of_true ⟨row', ?_, hstamp, havg⟩ (Or.inr hyes)
        rw [hd, hkeep]
        exact hrow'
    · have hkeep : (insertStmt e.positionId (m'.firstRow e n) c.view).2 = c.view := by
        unfold insertStmt
        rw [hrow']
      refine ⟨iff_of_false (Below.not_written ?_) fun hh => hmiss hh.1, hun.mono⟩
      rcases hopen with ⟨-, hd⟩ | ⟨-, hd⟩
      · rw [hd]
        exact hun.2
      · rw [hd, hkeep]
        exact hun.1

/-- An event that leaves the memory alone commits first, unless it could no longer be delivered. -/
theorem commitsFirst_of_kept (hx : (onFillEvent cfg m e n).2 = m') (hmem : m'.filledByOrder = m.filledByOrder) :
    CommitsFirst cfg m e n := by
  refine ⟨fun hne => ?_, fun _ hp => ?_⟩
  · rw [hx] at hne
    exact absurd hmem hne
  · rw [hx]
    unfold Processes existing
    rw [hmem]
    exact hp

/-- An event whose rounds all raise writes nothing of its own. -/
theorem attempts_exhausted (h : Unwritten n m.conn) (hno : ∀ a ∈ rounds cfg e, ¬ a.Returns) :
    Unwritten n (attempts e n (rounds cfg e) m.conn).2 := by
  rcases hy : attempts e n (rounds cfg e) m.conn with ⟨ok, c⟩
  have hreturns := attempts_returns e n (rounds cfg e) m.conn
  rw [hy] at hreturns
  cases ok with
  | false => exact (attempts_spec h hy).1 rfl
  | true =>
    obtain ⟨a, ha, hr⟩ := hreturns.mp rfl
    exact absurd hr (hno a ha)

/-- A remembered event commits first exactly when it is written. -/
theorem commitsFirst_recorded (h : Unwritten n m.conn) (hcheck : Processes cfg m e)
    (hyes : ∃ a ∈ rounds cfg e, a.Returns) (hx : (onFillEvent cfg m e n).2 = m')
    (hm' : m' = ({ m with
      conn := (attempts e n (rounds cfg e) m.conn).2
      filledByOrder := Function.update m.filledByOrder e.orderId (some (newFill (m.existing e.orderId) e.fillQty))
      positionByOrder := Function.update m.positionByOrder e.orderId (some e.positionId) } :
        OrderManager).openFirst e n) :
    (CommitsFirst cfg m e n ↔ Commits cfg m e) ∧ Unwritten (n + 1) m'.conn := by
  rcases hy : attempts e n (rounds cfg e) m.conn with ⟨ok, c⟩
  have hok : ok = true := by
    have hreturns := (attempts_returns e n (rounds cfg e) m.conn).mpr hyes
    rwa [hy] at hreturns
  subst hok
  rw [hy] at hm'
  obtain ⟨hwritten, hbelow⟩ := written_openFirst_iff { m with
    conn := c
    filledByOrder := Function.update m.filledByOrder e.orderId (some (newFill (m.existing e.orderId) e.fillQty))
    positionByOrder := Function.update m.positionByOrder e.orderId (some e.positionId) } h hy rfl Iff.rfl
  rw [← hm'] at hwritten
  have hmem : m'.filledByOrder ≠ m.filledByOrder := by
    intro hsame
    refine newFill_ne_existing hcheck ?_
    rw [← hsame, hm', openFirst_memory]
    exact Function.update_self _ _ _
  have hcommits : Commits cfg m e ↔ Written m' e n := by
    rw [hwritten]
    unfold Commits
    exact ⟨fun hc => hc hcheck hyes, fun hc _ _ => hc⟩
  rw [hcommits]
  refine ⟨⟨fun hf => ?_, fun hw => ⟨fun _ => ?_, fun hnw => ?_⟩⟩, ?_⟩
  · have hadvance := hf.advance (by rw [hx]; exact hmem)
    rwa [hx] at hadvance
  · rw [hx]
    exact hw
  · rw [hx] at hnw
    exact absurd hw hnw
  · rw [hm']
    exact openFirst_below hbelow

variable (cfg e) in
/-- One event: it commits first exactly when it commits, and leaves only records of events up to itself. -/
theorem commitsFirst_event (h : Unwritten n m.conn) :
    (CommitsFirst cfg m e n ↔ Commits cfg m e) ∧ Unwritten (n + 1) (onFillEvent cfg m e n).2.conn := by
  rcases hx : onFillEvent cfg m e n with ⟨outcome, m'⟩
  have hnext : (onFillEvent cfg m e n).2 = m' := by rw [hx]
  rcases onFillEvent_cases hx with ⟨hcheck, hm'⟩ | ⟨-, hno, -, hm'⟩ | ⟨hcheck, hyes, -, hm'⟩
  · have hnot : ¬ Processes cfg m e := by
      intro hnone
      have hsame : (none : Option FillOutcome) = some outcome := hnone.symm.trans hcheck
      cases hsame
    have hmem : m'.filledByOrder = m.filledByOrder := by
      rw [hm']
      split <;> rfl
    have hun : Unwritten n m'.conn := by
      rw [hm']
      split
      · exact flip_unwritten h
      · exact h
    exact ⟨iff_of_true (commitsFirst_of_kept hnext hmem) fun hp => absurd hp hnot, hun.mono⟩
  · have hmem : m'.filledByOrder = m.filledByOrder := by rw [hm']
    have hun : Unwritten n m'.conn := by
      rw [hm']
      exact attempts_exhausted h hno
    refine ⟨iff_of_true (commitsFirst_of_kept hnext hmem) fun _ hr => ?_, hun.mono⟩
    obtain ⟨a, ha, hret⟩ := hr
    exact absurd hret (hno a ha)
  · exact commitsFirst_recorded h hcheck hyes hnext hm'

/-- A manager with any memory, on a table without records and with nothing pending. -/
def start (m : OrderManager) (db : Positions) : OrderManager :=
  { m with conn := Conn.openDb fun pid => (db pid).map fun row => { row with stamp := none } }

theorem start_unwritten (m : OrderManager) (db : Positions) : Unwritten 0 (start m db).conn := by
  have hbelow : Below 0 fun pid => (db pid).map fun row => { row with stamp := none } := by
    intro pid row hrow k hk
    obtain ⟨old, -, rfl⟩ := Option.map_eq_some_iff.mp hrow
    cases hk
  exact ⟨hbelow, hbelow⟩

/-- **Advance after commit**, in the runs of any fill events with any failures, exactly when every event that is
remembered commits: the row is there and the update hits it and reaches the disk, or the insert makes it. -/
theorem commitsFirst_iff (db : Positions) (es : List FillEvent) :
    Runs.Guarded (fun w e => CommitsFirst cfg w.2 e w.1) (step cfg) (0, start m db) es ↔
      Runs.Guarded (fun w e => Commits cfg w.2 e) (step cfg) (0, start m db) es := by
  apply Runs.guarded_iff_guarded (I := fun w => Unwritten w.1 w.2.conn) (start_unwritten m db)
  · intro w e _ hun hok
    obtain ⟨hiff, hnext⟩ := commitsFirst_event cfg e hun
    exact ⟨hnext, hiff.mpr hok⟩
  · intro w e _ hun hok hfirst
    exact hok ((commitsFirst_event cfg e hun).1.mp hfirst)

/-- The first fill of a position, whose insert raises: it is remembered, there is no row, and the second delivery
is dropped. -/
theorem not_commitsFirst_openRaises :
    ¬ Runs.Guarded (fun w e => CommitsFirst {} w.2 e w.1) (step {}) (0, start (fresh fun _ => none) fun _ => none)
      [⟨"oid1", 1, 100, "pos1", fun _ => {}, { raises := true }, {}, 0⟩] := by
  intro h
  have hfirst := (Runs.guarded_cons.mp h).1
  obtain ⟨row, hrow, -⟩ := hfirst.advance fun hsame => absurd (congrFun hsame "oid1") (by decide +kernel)
  have hsome := Option.isSome_of_eq_some hrow
  exact absurd hsome (by decide +kernel)

end Events

end OrderManager

end MikoV2.Execution
