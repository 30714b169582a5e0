import Mathlib.Algebra.BigOperators.Group.Finset.Basic
import Mathlib.Algebra.Order.Ring.Rat
import Mathlib.Data.Finset.Basic
import Mathlib.Tactic.Linarith
import Mathlib.Tactic.Ring
import MikoV2.Execution.Fills
import MikoV2.Store.EquityTracker

/-!
# The size of a position

The row of a position gets its quantities from the first fill of the position; the fills after it update the price
and the version only.

* `filled` : what the orders of a position have filled; `TrueSizes` : the rows hold it, and it is marked to market;
* `SameSizes` : two tables with the same quantities; `attempts_sizes` : the retry loop keeps them;
* `onFillEvent_sizes` : what an event does to the quantities and the memory they are compared with;
* `trueSizes_iff` : the rows hold the sizes exactly when every position is filled by a single event.
-/

namespace MikoV2.Execution
open Sqlite Store

/-- A positive fill whose calls of the database succeed. -/
structure FillEvent.Clean (e : FillEvent) : Prop where
  positive : 0 < e.fillQty
  read : ∀ i, (e.attempts i).read.Succeeds
  update : ∀ i, (e.attempts i).update.Succeeds
  opening : e.opening.Succeeds

namespace OrderManager

/-- The cumulative quantities of the orders that fill the position, over the orders of the run. -/
def filled (m : OrderManager) (orders : Finset String) (p : String) : ℚ :=
  ∑ o ∈ orders with m.positionByOrder o = some p, m.existing o

/-- Every opened position has a row with the size that its orders have filled, and is marked to market at it. -/
structure TrueSizes (orders : Finset String) (m : OrderManager) : Prop where
  rows : ∀ p, m.positionOpened p = true → ∃ row, m.conn.disk p = some row ∧
    row.qtyOpen = m.filled orders p ∧ row.qtyRemaining = m.filled orders p
  marked : ∀ opens : List (String × PositionRow × Option ℚ),
    (∀ x ∈ opens, m.positionOpened x.1 = true ∧ m.conn.view x.1 = some x.2.1) →
    unrealized (opens.map (·.2)) = (opens.map fun x => gain x.2.1 x.2.2 (m.filled orders x.1)).sum

/-- A manager before its first fill, on any table with nothing pending. It may have restored partial fills. -/
structure Idle (m : OrderManager) : Prop where
  orders : ∀ o, m.positionByOrder o = none
  positions : ∀ p, m.positionOpened p = false
  restored : ∀ o, 0 ≤ m.existing o
  settled : m.conn.view = m.conn.disk

/-- The event is remembered. -/
def Accepts (cfg : OrderManagerConfig) (m : OrderManager) (e : FillEvent) : Prop := 0 < cfg.maxRetry ∧ Processes cfg m e

/-- An event that is remembered is the first of its order and of its position, and a row that the table had already
has its size. -/
def FillsOnce (cfg : OrderManagerConfig) (w : ℕ × OrderManager) (e : FillEvent) : Prop :=
  Accepts cfg w.2 e → w.2.positionByOrder e.orderId = none ∧ w.2.positionOpened e.positionId = false ∧
    ∀ row, w.2.conn.view e.positionId = some row → row.qtyOpen = e.fillQty ∧ row.qtyRemaining = e.fillQty

/-! ## Tables with the same quantities -/

/-- The two quantities of a row. -/
def sizes (row : PositionRow) : ℚ × ℚ := (row.qtyOpen, row.qtyRemaining)

/-- The tables have the same positions, with the same quantities. -/
def SameSizes (db db' : Positions) : Prop := ∀ p, (db' p).map sizes = (db p).map sizes

section Same
variable {db db' db'' : Positions} {e : FillEvent} {stamp : ℕ} {c c' : Conn Positions} {ok : Bool}

theorem SameSizes.refl (db : Positions) : SameSizes db db := fun _ => rfl

theorem SameSizes.trans (h : SameSizes db db') (h' : SameSizes db' db'') : SameSizes db db'' :=
  fun p => (h' p).trans (h p)

theorem SameSizes.update {p : String} {row row' : PositionRow} (hrow : db p = some row) (hs : sizes row' = sizes row) :
    SameSizes db (Function.update db p (some row')) := by
  intro q
  by_cases hq : q = p
  · subst hq
    rw [Function.update_self, hrow, Option.map_some, Option.map_some, hs]
  · rw [Function.update_of_ne hq]

theorem insertStmt_some {p : String} {row row' : PositionRow} (h : db p = some row) :
    (insertStmt p row' db).2 p = some row := by
  unfold insertStmt
  rw [h]
  exact h

theorem insertStmt_none {p : String} {row' : PositionRow} (h : db p = none) :
    (insertStmt p row' db).2 p = some row' := by
  unfold insertStmt
  rw [h]
  exact Function.update_self _ _ _

theorem insertStmt_of_ne {p q : String} {row' : PositionRow} (hq : q ≠ p) : (insertStmt p row' db).2 q = db q := by
  unfold insertStmt
  split
  · rfl
  · exact Function.update_of_ne hq _ _

/-- The calls keep the quantities and leave nothing pending. -/
def KeepsSizes (c c' : Conn Positions) : Prop :=
  SameSizes c.view c'.view ∧ (c.view = c.disk → c'.view = c'.disk)

theorem KeepsSizes.refl (c : Conn Positions) : KeepsSizes c c := ⟨SameSizes.refl _, id⟩

theorem KeepsSizes.trans {c'' : Conn Positions} (h : KeepsSizes c c') (h' : KeepsSizes c' c'') : KeepsSizes c c'' :=
  ⟨h.1.trans h'.1, fun hc => h'.2 (h.2 hc)⟩

theorem rivalUpdates_sizes (p : String) (rivals : List (ℚ × ℚ × ℚ)) (c : Conn Positions) :
    KeepsSizes c (rivalUpdates p rivals c) := by
  induction rivals generalizing c with
  | nil => exact KeepsSizes.refl c
  | cons r rivals ih =>
    unfold rivalUpdates
    rw [List.foldl_cons]
    refine KeepsSizes.trans ?_ (ih _)
    cases hrow : c.view p with
    | none => exact KeepsSizes.refl c
    | some row => exact ⟨SameSizes.update hrow rfl, fun _ => rfl⟩

theorem attempt_sizes {a : Attempt} (hupdate : a.update.Succeeds) (h : attempt e stamp a c = (ok, c')) :
    KeepsSizes c c' := by
  unfold attempt at h
  split at h
  · cases h
    exact KeepsSizes.refl c
  rename_i version hversion
  rcases hx : updatePositionVersioned a.update (some stamp) e.positionId e.fillPrice e.fillPrice e.fillPrice
    (version + 1) (rivalUpdates e.positionId a.rivals c) with ⟨r, c₁⟩
  rw [hx] at h
  have hrivals := rivalUpdates_sizes e.positionId a.rivals c
  have hkeeps : KeepsSizes (rivalUpdates e.positionId a.rivals c) c₁ := by
    rcases updatePositionVersioned_cases hx with ⟨hraises, -, -⟩ | ⟨-, -, hv, hd, -⟩ | ⟨row, -, -, hrow, -, hv, hend⟩
    · rw [hupdate.1] at hraises
      cases hraises
    · refine ⟨?_, fun hs => ?_⟩
      · rw [hv]
        exact SameSizes.refl _
      · rw [hv, hd, hs]
    · refine ⟨?_, fun _ => ?_⟩
      · rw [hv]
        exact SameSizes.update hrow rfl
      · rcases hend with ⟨hfail, -, -⟩ | ⟨-, -, hd⟩
        · rw [hupdate.2.2] at hfail
          cases hfail
        · exact hd.symm
  cases r <;> cases h <;> exact hrivals.trans hkeeps

theorem attempts_sizes {as : List Attempt} (hupdate : ∀ a ∈ as, a.update.Succeeds)
    (h : attempts e stamp as c = (ok, c')) : KeepsSizes c c' := by
  induction as generalizing c with
  | nil =>
    cases h
    exact KeepsSizes.refl _
  | cons a as ih =>
    unfold attempts at h
    have ha := hupdate a List.mem_cons_self
    split at h
    · rename_i c₁ hx
      cases h
      exact attempt_sizes ha hx
    · rename_i c₁ hx
      exact (attempt_sizes ha hx).trans (ih (fun b hb => hupdate b (List.mem_cons_of_mem a hb)) h)

end Same

/-! ## Events -/

/-- An event that is not remembered changes neither the memory nor the quantities. -/
structure Ignored (m m' : OrderManager) : Prop where
  existing : ∀ o, m'.existing o = m.existing o
  owner : m'.positionByOrder = m.positionByOrder
  opened : m'.positionOpened = m.positionOpened
  rows : KeepsSizes m.conn m'.conn

/-- One that is remembered assigns its order to its position, and inserts the row unless there is one. -/
structure Recorded (m : OrderManager) (e : FillEvent) (m' : OrderManager) : Prop where
  existing : ∀ o, m'.existing o = if o = e.orderId then e.fillQty else m.existing o
  owner : m'.positionByOrder = Function.update m.positionByOrder e.orderId (some e.positionId)
  opened : m'.positionOpened = Function.update m.positionOpened e.positionId true
  row : ∀ row, m.conn.view e.positionId = some row → (m'.conn.view e.positionId).map sizes = some (sizes row)
  inserted : m.conn.view e.positionId = none →
    (m'.conn.view e.positionId).map sizes = some (e.fillQty, e.fillQty)
  others : ∀ p, p ≠ e.positionId → (m'.conn.view p).map sizes = (m.conn.view p).map sizes
  settled : m'.conn.view = m'.conn.disk

section Events
variable {cfg : OrderManagerConfig} {m m' : OrderManager} {e : FillEvent} {stamp : ℕ} {orders : Finset String}

theorem Ignored.refl (m : OrderManager) : Ignored m m := ⟨fun _ => rfl, rfl, rfl, KeepsSizes.refl _⟩

/-- A positive fill that is accepted is remembered as it is. -/
theorem newFill_eq {x q : ℚ} (h : check cfg x q = none) : newFill x q = q := by
  have hlt := lt_newFill h
  unfold newFill at hlt ⊢
  split at hlt <;> rename_i hne
  · rw [if_pos hne]
    rcases le_total x q with hle | hle
    · exact max_eq_right hle
    · rw [max_eq_left hle] at hlt
      exact absurd hlt (lt_irrefl x)
  · rw [if_neg hne]

/-- It is no flip. -/
theorem check_ne_flip {x q : ℚ} (hx : 0 ≤ x) (hq : 0 < q) : check cfg x q ≠ some .flip := by
  have hsign : ¬ (x ≠ 0 ∧ ¬ (0 < x ↔ 0 < q)) := by
    rintro ⟨hne, hnot⟩
    exact hnot (iff_of_true (lt_of_le_of_ne hx (Ne.symm hne)) hq)
  unfold check
  rw [if_neg hsign]
  split
  · simp
  split
  · simp
  split
  · simp
  split <;> simp

variable (stamp) in
theorem openFirst_recorded (hclean : e.Clean)
    (hrow : m.positionOpened e.positionId = true → (m.conn.view e.positionId).isSome = true)
    (hs : m.conn.view = m.conn.disk) :
    (m.openFirst e stamp).positionByOrder = m.positionByOrder ∧
      (m.openFirst e stamp).positionOpened = Function.update m.positionOpened e.positionId true ∧
      (m.openFirst e stamp).conn.view = (insertStmt e.positionId (m.firstRow e stamp) m.conn.view).2 ∧
      (m.openFirst e stamp).conn.view = (m.openFirst e stamp).conn.disk := by
  unfold openFirst
  by_cases hopened : m.positionOpened e.positionId = true
  · rw [if_pos hopened]
    obtain ⟨row, hsome⟩ := Option.isSome_iff_exists.mp (hrow hopened)
    refine ⟨rfl, ?_, ?_, hs⟩
    · rw [← hopened, Function.update_eq_self]
    · unfold insertStmt
      rw [hsome]
  · rw [if_neg hopened]
    rcases hx : openPosition e.opening e.positionId (m.firstRow e stamp) m.conn with ⟨ok, c⟩
    rcases openPosition_cases hx with ⟨-, hfails, -⟩ | ⟨rfl, -, hview, hdisk⟩
    · have hok := hclean.opening
      rcases hfails with h | h | h
      · exact absurd (hok.1.symm.trans h) Bool.false_ne_true
      · exact absurd (hok.2.1.symm.trans h) Bool.false_ne_true
      · exact absurd (hok.2.2.symm.trans h) Bool.false_ne_true
    · exact ⟨rfl, rfl, hview, hdisk.symm⟩

/-- An event is ignored or recorded. -/
theorem onFillEvent_sizes (hclean : e.Clean) (hpos : 0 ≤ m.existing e.orderId)
    (hrow : m.positionOpened e.positionId = true → (m.conn.view e.positionId).isSome = true)
    (hs : m.conn.view = m.conn.disk) :
    (¬ Accepts cfg m e ∧ Ignored m (onFillEvent cfg m e stamp).2) ∨
      (Accepts cfg m e ∧ Recorded m e (onFillEvent cfg m e stamp).2) := by
  have hreturns : ∀ i, (e.attempts i).Returns := fun i => ⟨(hclean.read i).1, (hclean.update i).1⟩
  have hrounds : (∃ a ∈ rounds cfg e, a.Returns) ↔ 0 < cfg.maxRetry := exists_round hreturns
  have hupdate : ∀ a ∈ rounds cfg e, a.update.Succeeds := by
    intro a ha
    obtain ⟨i, -, rfl⟩ := List.mem_map.mp ha
    exact hclean.update i
  have hkeeps : KeepsSizes m.conn (attempts e stamp (rounds cfg e) m.conn).2 := attempts_sizes hupdate rfl
  rcases h : onFillEvent cfg m e stamp with ⟨outcome, m'⟩
  rcases onFillEvent_cases h with ⟨hcheck, rfl⟩ | ⟨-, hno, -, rfl⟩ | ⟨hcheck, hyes, -, rfl⟩
  · have hflip : outcome ≠ .flip := by
      rintro rfl
      exact check_ne_flip hpos hclean.positive hcheck
    rw [if_neg hflip]
    refine Or.inl ⟨fun hacc => ?_, Ignored.refl m⟩
    exact absurd (hacc.2.symm.trans hcheck) (by simp)
  · refine Or.inl ⟨fun hacc => ?_, fun _ => rfl, rfl, rfl, hkeeps⟩
    obtain ⟨a, ha, hr⟩ := hrounds.mpr hacc.1
    exact hno a ha hr
  · refine Or.inr ⟨⟨hrounds.mp hyes, hcheck⟩, ?_⟩
    rw [newFill_eq hcheck]
    set c := (attempts e stamp (rounds cfg e) m.conn).2
    set m₁ : OrderManager := { m with
      conn := c
      filledByOrder := Function.update m.filledByOrder e.orderId (some e.fillQty)
      positionByOrder := Function.update m.positionByOrder e.orderId (some e.positionId) }
    have hsome : m₁.positionOpened e.positionId = true → (m₁.conn.view e.positionId).isSome = true := by
      intro hopened
      have hsizes := congrArg Option.isSome (hkeeps.1 e.positionId)
      rw [Option.isSome_map, Option.isSome_map, hrow hopened] at hsizes
      exact hsizes
    obtain ⟨howner, hopened, hview, hdisk⟩ := openFirst_recorded stamp hclean hsome (hkeeps.2 hs)
    have hfirst : sizes (m₁.firstRow e stamp) = (e.fillQty, e.fillQty) := by
      show ((|e.fillQty| : ℚ), |e.fillQty|) = _
      rw [abs_of_pos hclean.positive]
    refine ⟨fun o => ?_, howner, hopened, fun row hv => ?_, fun hv => ?_, fun p hp => ?_, hdisk⟩
    · unfold existing
      rw [openFirst_memory]
      show (Function.update m.filledByOrder e.orderId (some e.fillQty) o).getD 0 = _
      by_cases ho : o = e.orderId
      · rw [if_pos ho, ho, Function.update_self, Option.getD_some]
      · rw [if_neg ho, Function.update_of_ne ho]
    · have hsame := hkeeps.1 e.positionId
      rw [hv, Option.map_some] at hsame
      obtain ⟨row', hrow', hsizes⟩ := Option.map_eq_some_iff.mp hsame
      rw [hview, insertStmt_some hrow', Option.map_some, hsizes]
    · have hsame := hkeeps.1 e.positionId
      rw [hv, Option.map_none, Option.map_eq_none_iff] at hsame
      rw [hview, insertStmt_none hsame, Option.map_some, hfirst]
    · rw [hview, insertStmt_of_ne hp]
      exact hkeeps.1 p

/-! ## Sizes -/

theorem filled_ignored (h : Ignored m m') (p : String) : m'.filled orders p = m.filled orders p := by
  unfold filled
  rw [h.owner]
  exact Finset.sum_congr rfl fun o _ => h.existing o

/-- The order brings its quantity to its position, and takes what it had from the one it had. -/
theorem filled_recorded (h : Recorded m e m') (ho : e.orderId ∈ orders) (p : String) :
    m'.filled orders p + (if m.positionByOrder e.orderId = some p then m.existing e.orderId else 0) =
      m.filled orders p + (if p = e.positionId then e.fillQty else 0) := by
  unfold filled
  rw [Finset.sum_filter, Finset.sum_filter, ← Finset.add_sum_erase _ _ ho, ← Finset.add_sum_erase orders _ ho]
  have hrest : ∀ o ∈ orders.erase e.orderId, (if m'.positionByOrder o = some p then m'.existing o else 0) =
      if m.positionByOrder o = some p then m.existing o else 0 := by
    intro o hmem
    have hne := Finset.ne_of_mem_erase hmem
    rw [h.owner, Function.update_of_ne hne, h.existing, if_neg hne]
  have hown : (if m'.positionByOrder e.orderId = some p then m'.existing e.orderId else 0) =
      if p = e.positionId then e.fillQty else 0 := by
    rw [h.owner, Function.update_self, h.existing, if_pos rfl]
    by_cases hp : p = e.positionId
    · rw [if_pos hp, if_pos (congrArg some hp.symm)]
    · rw [if_neg hp, if_neg fun hsome => hp (Option.some.inj hsome).symm]
  rw [Finset.sum_congr rfl hrest, hown]
  ring

/-- What the runs keep: the sizes, and that the orders with a position have filled something of an opened one. -/
structure Sized (orders : Finset String) (m : OrderManager) : Prop where
  sizes : TrueSizes orders m
  settled : m.conn.view = m.conn.disk
  nonneg : ∀ o, 0 ≤ m.existing o
  owned : ∀ o p, m.positionByOrder o = some p → m.positionOpened p = true ∧ 0 < m.existing o

/-- With nothing pending, only the quantities of the rows matter. -/
theorem trueSizes_of_rows (hs : m.conn.view = m.conn.disk) (h : ∀ p, m.positionOpened p = true →
    (m.conn.view p).map OrderManager.sizes = some (m.filled orders p, m.filled orders p)) : TrueSizes orders m := by
  have hrow : ∀ p, m.positionOpened p = true → ∃ row, m.conn.view p = some row ∧
      row.qtyOpen = m.filled orders p ∧ row.qtyRemaining = m.filled orders p := by
    intro p hp
    obtain ⟨row, hrow, hsizes⟩ := Option.map_eq_some_iff.mp (h p hp)
    exact ⟨row, hrow, congrArg Prod.fst hsizes, congrArg Prod.snd hsizes⟩
  refine ⟨fun p hp => ?_, fun opens hopens => unrealized_eq opens _ fun x hx => ?_⟩
  · rw [← hs]
    exact hrow p hp
  · obtain ⟨row, hview, -, hrem⟩ := hrow x.1 (hopens x hx).1
    rw [(hopens x hx).2] at hview
    cases hview
    exact hrem

theorem TrueSizes.view (h : TrueSizes orders m) (hs : m.conn.view = m.conn.disk) {p : String}
    (hp : m.positionOpened p = true) :
    (m.conn.view p).map OrderManager.sizes = some (m.filled orders p, m.filled orders p) := by
  obtain ⟨row, hrow, hopen, hrem⟩ := h.rows p hp
  rw [hs, hrow, Option.map_some]
  unfold OrderManager.sizes
  rw [hopen, hrem]

/-- A position that is not opened has no orders. -/
theorem Sized.filled_closed (h : Sized orders m) {p : String} (hp : m.positionOpened p = false) :
    m.filled orders p = 0 := by
  unfold filled
  rw [Finset.filter_false_of_mem, Finset.sum_empty]
  intro o _ howner
  exact Bool.false_ne_true (hp.symm.trans (h.owned o p howner).1)

theorem Sized.ignored (h : Sized orders m) (hm : Ignored m m') : Sized orders m' := by
  have hs := hm.rows.2 h.settled
  refine ⟨trueSizes_of_rows hs fun p hp => ?_, hs, fun o => ?_, fun o p howner => ?_⟩
  · rw [hm.opened] at hp
    rw [hm.rows.1 p, filled_ignored hm]
    exact h.sizes.view h.settled hp
  · rw [hm.existing]
    exact h.nonneg o
  · rw [hm.owner] at howner
    rw [hm.opened, hm.existing]
    exact h.owned o p howner

/-- The first fill of an order and of a position. -/
theorem Sized.recorded (h : Sized orders m) (hm : Recorded m e m') (hq : 0 < e.fillQty) (ho : e.orderId ∈ orders)
    (howner : m.positionByOrder e.orderId = none) (hclosed : m.positionOpened e.positionId = false)
    (hrow : ∀ row, m.conn.view e.positionId = some row → row.qtyOpen = e.fillQty ∧ row.qtyRemaining = e.fillQty) :
    Sized orders m' := by
  have hfilled : ∀ p, m'.filled orders p = m.filled orders p + if p = e.positionId then e.fillQty else 0 := by
    intro p
    have := filled_recorded hm ho p
    rwa [howner, if_neg (by simp), add_zero] at this
  refine ⟨trueSizes_of_rows hm.settled fun p hp => ?_, hm.settled, fun o => ?_, fun o p hown => ?_⟩
  · rw [hfilled]
    by_cases hpos : p = e.positionId
    · rw [hpos, h.filled_closed hclosed, if_pos rfl, zero_add]
      cases hview : m.conn.view e.positionId with
      | none => exact hm.inserted hview
      | some row =>
        rw [hm.row row hview]
        unfold OrderManager.sizes
        rw [(hrow row hview).1, (hrow row hview).2]
    · rw [hm.opened, Function.update_of_ne hpos] at hp
      rw [hm.others p hpos, if_neg hpos, add_zero]
      exact h.sizes.view h.settled hp
  · rw [hm.existing]
    split
    · exact hq.le
    · exact h.nonneg o
  · rw [hm.opened, hm.existing]
    rw [hm.owner] at hown
    by_cases ho' : o = e.orderId
    · rw [ho', Function.update_self, Option.some.injEq] at hown
      rw [if_pos ho', hown, Function.update_self]
      exact ⟨rfl, hq⟩
    · rw [Function.update_of_ne ho'] at hown
      obtain ⟨hopened, hpos⟩ := h.owned o p hown
      have hp : p ≠ e.positionId := by
        rintro rfl
        exact Bool.false_ne_true (hclosed.symm.trans hopened)
      rw [if_neg ho', Function.update_of_ne hp]
      exact ⟨hopened, hpos⟩

/-- After a recorded event the sizes hold only if it was the first of its order and of its position. -/
theorem Sized.fillsOnce (h : Sized orders m) (hm : Recorded m e m') (hq : 0 < e.fillQty) (hacc : Accepts cfg m e)
    (ho : e.orderId ∈ orders) (h' : TrueSizes orders m') :
    m.positionByOrder e.orderId = none ∧ m.positionOpened e.positionId = false ∧
      ∀ row, m.conn.view e.positionId = some row → row.qtyOpen = e.fillQty ∧ row.qtyRemaining = e.fillQty := by
  have hlt : m.existing e.orderId < e.fillQty := by
    have := lt_newFill hacc.2
    rwa [newFill_eq hacc.2] at this
  have hfilled := filled_recorded hm ho
  have hopened' : m'.positionOpened e.positionId = true := by rw [hm.opened, Function.update_self]
  have hafter := h'.view hm.settled hopened'
  have hclosed : m.positionOpened e.positionId = false := by
    rw [← Bool.not_eq_true]
    intro hopened
    have hbefore := h.sizes.view h.settled hopened
    obtain ⟨row, hrow, hsizes⟩ := Option.map_eq_some_iff.mp hbefore
    rw [hm.row row hrow, hsizes] at hafter
    have hsame : m.filled orders e.positionId = m'.filled orders e.positionId :=
      congrArg Prod.fst (Option.some.inj hafter)
    have hsum := hfilled e.positionId
    rw [if_pos rfl, ← hsame] at hsum
    split at hsum <;> linarith
  have howner : m.positionByOrder e.orderId = none := by
    cases hown : m.positionByOrder e.orderId with
    | none => rfl
    | some p =>
      -- the position that the order had keeps its row and loses the order
      obtain ⟨hopened, hpos⟩ := h.owned _ _ hown
      have hp : p ≠ e.positionId := by
        rintro rfl
        exact Bool.false_ne_true (hclosed.symm.trans hopened)
      have hstill : m'.positionOpened p = true := by rw [hm.opened, Function.update_of_ne hp, hopened]
      have hrow := h'.view hm.settled hstill
      rw [hm.others p hp, h.sizes.view h.settled hopened] at hrow
      have hsame : m.filled orders p = m'.filled orders p := congrArg Prod.fst (Option.some.inj hrow)
      have hsum := hfilled p
      rw [hown, if_pos rfl, if_neg hp, ← hsame] at hsum
      linarith
  refine ⟨howner, hclosed, fun row hrow => ?_⟩
  have hsum := hfilled e.positionId
  rw [howner, if_neg (by simp), if_pos rfl, h.filled_closed hclosed, add_zero, zero_add] at hsum
  rw [hm.row row hrow, hsum] at hafter
  have hsizes := Option.some.inj hafter
  exact ⟨congrArg Prod.fst hsizes, congrArg Prod.snd hsizes⟩

end Events

/-! ## Runs -/

section Main
variable {cfg : OrderManagerConfig} {m : OrderManager} {es : List FillEvent}

/-- The orders of a run. -/
def ordersOf (es : List FillEvent) : Finset String := (es.map (·.orderId)).toFinset

/-- **The rows hold the sizes of the positions** exactly when every event that is remembered is the first of its order
and of its position. -/
theorem trueSizes_iff (hm : m.Idle) (hes : ∀ e ∈ es, e.Clean) :
    Runs.Always (fun w => TrueSizes (ordersOf es) w.2) (step cfg) (0, m) es ↔
      Runs.Guarded (FillsOnce cfg) (step cfg) (0, m) es := by
  have hstart : Sized (ordersOf es) m := by
    refine ⟨trueSizes_of_rows hm.settled fun p hp => ?_, hm.settled, hm.restored, fun o p howner => ?_⟩
    · exact absurd ((hm.positions p).symm.trans hp) Bool.false_ne_true
    · rw [hm.orders o] at howner
      cases howner
  have hcases : ∀ w : ℕ × OrderManager, ∀ e ∈ es, Sized (ordersOf es) w.2 →
      (¬ Accepts cfg w.2 e ∧ Ignored w.2 (step cfg w e).2) ∨ (Accepts cfg w.2 e ∧ Recorded w.2 e (step cfg w e).2) := by
    intro w e he h
    refine onFillEvent_sizes (hes e he) (h.nonneg _) (fun hopened => ?_) h.settled
    obtain ⟨row, hrow, -⟩ := Option.map_eq_some_iff.mp (h.sizes.view h.settled hopened)
    rw [hrow]
    rfl
  have hmem : ∀ e ∈ es, e.orderId ∈ ordersOf es := fun e he => List.mem_toFinset.mpr (List.mem_map_of_mem he)
  refine (Runs.always_iff_guarded (P := fun w => TrueSizes (ordersOf es) w.2) (s := (0, m)) hstart.sizes).trans ?_
  refine Runs.guarded_iff_guarded (I := fun w => Sized (ordersOf es) w.2) hstart (fun w e he h hok => ?_)
    fun w e he h hnot hsizes => hnot fun hacc => ?_
  · have hnext : Sized (ordersOf es) (step cfg w e).2 := by
      rcases hcases w e he h with ⟨-, hig⟩ | ⟨hacc, hrec⟩
      · exact h.ignored hig
      · obtain ⟨howner, hclosed, hrow⟩ := hok hacc
        exact h.recorded hrec (hes e he).positive (hmem e he) howner hclosed hrow
    exact ⟨hnext, hnext.sizes⟩
  · rcases hcases w e he h with ⟨hno, -⟩ | ⟨-, hrec⟩
    · exact absurd hacc hno
    · exact h.fillsOnce hrec (hes e he).positive hacc (hmem e he) hsizes

end Main

theorem fresh_idle (db : Positions) : (fresh db).Idle := ⟨fun _ => rfl, fun _ => rfl, fun _ => le_refl 0, rfl⟩

/-- An order filled at once, delivered twice. -/
def wholeFill : List FillEvent :=
  [⟨"oid1", 1, 100, "pos1", fun _ => {}, {}, {}, 0⟩, ⟨"oid1", 1, 100, "pos1", fun _ => {}, {}, {}, 0⟩]

theorem trueSizes_iff_wholeFill :
    Runs.Always (fun w => TrueSizes (ordersOf wholeFill) w.2) (step {}) (0, fresh fun _ => none) wholeFill := by
  refine (trueSizes_iff (fresh_idle _) fun e he => ?_).mpr ?_
  · simp only [wholeFill, List.mem_cons, List.not_mem_nil, or_false, or_self] at he
    rw [he]
    exact ⟨by norm_num, fun _ => ⟨rfl, rfl, rfl⟩, fun _ => ⟨rfl, rfl, rfl⟩, ⟨rfl, rfl, rfl⟩⟩
  · refine Runs.guarded_cons.mpr ⟨fun _ => ⟨rfl, rfl, fun row hrow => ?_⟩, ?_⟩
    · cases hrow
    · refine Runs.guarded_cons.mpr ⟨fun hacc => ?_, Runs.guarded_nil⟩
      exact absurd hacc.2 (by unfold Processes; decide +kernel)

/-- An order filled in two steps. -/
def growingFills : List FillEvent :=
  [⟨"oid1", 1, 100, "pos1", fun _ => {}, {}, {}, 0⟩, ⟨"oid1", 3, 100, "pos1", fun _ => {}, {}, {}, 0⟩]

theorem not_trueSizes_growingFills : (∀ e ∈ growingFills, e.Clean) ∧
    ¬ Runs.Always (fun w => TrueSizes (ordersOf growingFills) w.2) (step {}) (0, fresh fun _ => none) growingFills := by
  refine ⟨fun e he => ?_, fun h => ?_⟩
  · simp only [growingFills, List.mem_cons, List.not_mem_nil, or_false] at he
    rcases he with rfl | rfl <;>
      exact ⟨by norm_num, fun _ => ⟨rfl, rfl, rfl⟩, fun _ => ⟨rfl, rfl, rfl⟩, ⟨rfl, rfl, rfl⟩⟩
  obtain ⟨row, hrow, hopen, -⟩ := h.last.rows "pos1" (by decide +kernel)
  have hone : ((Runs.run (step {}) (0, fresh fun _ => none) growingFills).2.conn.disk "pos1").map sizes =
      some (1, 1) := by decide +kernel
  have hthree : (Runs.run (step {}) (0, fresh fun _ => none) growingFills).2.filled (ordersOf growingFills) "pos1" = 3 :=
    by decide +kernel
  rw [hrow, Option.map_some] at hone
  rw [hthree] at hopen
  have hsame : row.qtyOpen = 1 := congrArg Prod.fst (Option.some.inj hone)
  rw [hopen] at hsame
  norm_num at hsame


end OrderManager

end MikoV2.Execution
