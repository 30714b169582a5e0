import Mathlib.Tactic.Linarith
import MikoV2.Execution.OrderManager
import MikoV2.Lib.Runs

/-!
# Cumulative fills

The fill events of one order have one sign and come in any order, with repetitions.

* `accept` : what an event makes of the remembered fill; `filled_run` : a run folds it over the order's fills;
* `Top` : nothing remembered, or the greatest fill; `top_fold` : what the fold remembers of a long order;
* `Cumulative` : the fill of greatest magnitude is remembered, whatever the order of the events;
* `cumulative_iff` : this holds exactly when the order's first fill is one that a long order can have.
-/

namespace MikoV2.Execution
open Store

/-- The fills of an order, in the order in which they come. -/
def fillsOf (o : String) (es : List FillEvent) : List ℚ := (es.filter (·.orderId = o)).map (·.fillQty)

/-- The fills of the order have one sign and at least the size of a lot, and the calls of the database return. -/
structure OneSided (cfg : OrderManagerConfig) (o : String) (es : List FillEvent) : Prop where
  sign : (∀ q ∈ fillsOf o es, 0 < q) ∨ (∀ q ∈ fillsOf o es, q < 0)
  lots : ∀ q ∈ fillsOf o es, cfg.minLot / cfg.epsilonDivisor ≤ |q|
  returns : ∀ e ∈ es, e.orderId = o → ∀ i, (e.attempts i).Returns

namespace OrderManager

/-- The manager after a run of events. -/
def after (cfg : OrderManagerConfig) (m : OrderManager) (es : List FillEvent) : ℕ × OrderManager :=
  Runs.run (step cfg) (0, m) es

/-- Fills are cumulative: the greatest is remembered, an event changes something exactly when it is greater than
all before, no event is taken for a flip, and the order of the events does not matter. -/
structure Cumulative (cfg : OrderManagerConfig) (m : OrderManager) (o : String) (es : List FillEvent) : Prop where
  greatest : (∀ q ∈ fillsOf o es, |q| ≤ |(after cfg m es).2.existing o|) ∧
    (fillsOf o es ≠ [] → (after cfg m es).2.existing o ∈ fillsOf o es)
  advances : ∀ pre e, pre ++ [e] <+: es → e.orderId = o →
    ((after cfg m (pre ++ [e])).2 ≠ (after cfg m pre).2 ↔ ∀ q ∈ fillsOf o pre, |q| < |e.fillQty|)
  noFlip : ∀ pre e, pre ++ [e] <+: es → e.orderId = o →
    (onFillEvent cfg (after cfg m pre).2 e (after cfg m pre).1).1 ≠ .flip
  anyOrder : ∀ es' : List FillEvent, es'.Perm es → (after cfg m es').2.filledByOrder o = (after cfg m es).2.filledByOrder o

/-! ## What is remembered -/

/-- The remembered fill after an event whose calls of the database return. -/
def accept (cfg : OrderManagerConfig) (v : Option ℚ) (q : ℚ) : Option ℚ :=
  if 0 < cfg.maxRetry ∧ check cfg (v.getD 0) q = none then some (newFill (v.getD 0) q) else v

section Events
variable {cfg : OrderManagerConfig} {m : OrderManager} {e : FillEvent} {stamp : ℕ} {o : String} {es : List FillEvent}

theorem filled_other (ho : e.orderId ≠ o) : (onFillEvent cfg m e stamp).2.filledByOrder o = m.filledByOrder o := by
  rcases h : onFillEvent cfg m e stamp with ⟨outcome, m'⟩
  rcases onFillEvent_cases h with ⟨-, rfl⟩ | ⟨-, -, -, rfl⟩ | ⟨-, -, -, rfl⟩
  · split <;> rfl
  · rfl
  · rw [openFirst_memory]
    exact Function.update_of_ne (Ne.symm ho) _ _

theorem exists_round (hreturns : ∀ i, (e.attempts i).Returns) : (∃ a ∈ rounds cfg e, a.Returns) ↔ 0 < cfg.maxRetry := by
  simp only [rounds, List.mem_map, List.mem_range]
  constructor
  · rintro ⟨_, ⟨i, hi, -⟩, -⟩
    omega
  · exact fun hpos => ⟨_, ⟨0, hpos, rfl⟩, hreturns 0⟩

theorem filled_own (hreturns : ∀ i, (e.attempts i).Returns) :
    (onFillEvent cfg m e stamp).2.filledByOrder e.orderId = accept cfg (m.filledByOrder e.orderId) e.fillQty := by
  rcases h : onFillEvent cfg m e stamp with ⟨outcome, m'⟩
  unfold accept
  rcases onFillEvent_cases h with ⟨hcheck, rfl⟩ | ⟨-, hno, -, rfl⟩ | ⟨hcheck, hyes, -, rfl⟩
  · have hnot : ¬ (0 < cfg.maxRetry ∧ check cfg ((m.filledByOrder e.orderId).getD 0) e.fillQty = none) := by
      rintro ⟨-, hnone⟩
      have hsame : (none : Option FillOutcome) = some outcome := hnone.symm.trans hcheck
      cases hsame
    rw [if_neg hnot]
    by_cases hflip : outcome = .flip
    · rw [if_pos hflip]
      rfl
    · rw [if_neg hflip]
  · rw [if_neg]
    rintro ⟨hpos, -⟩
    obtain ⟨a, ha, hr⟩ := (exists_round hreturns).mpr hpos
    exact hno a ha hr
  · rw [if_pos ⟨(exists_round hreturns).mp hyes, hcheck⟩, openFirst_memory]
    exact Function.update_self _ _ _

theorem fillsOf_append (es es' : List FillEvent) : fillsOf o (es ++ es') = fillsOf o es ++ fillsOf o es' := by
  simp [fillsOf]

theorem after_append (es : List FillEvent) (e : FillEvent) :
    after cfg m (es ++ [e]) = step cfg (after cfg m es) e := by
  unfold after
  rw [Runs.run_append]
  rfl

variable (cfg m o) in
theorem filled_run (hreturns : ∀ e ∈ es, e.orderId = o → ∀ i, (e.attempts i).Returns) :
    (after cfg m es).2.filledByOrder o = (fillsOf o es).foldl (accept cfg) (m.filledByOrder o) := by
  induction es using List.reverseRecOn with
  | nil => rfl
  | append_singleton es e ih =>
    have ih := ih fun d hd => hreturns d (List.mem_append_left _ hd)
    rw [after_append, fillsOf_append, List.foldl_append, ← ih]
    by_cases ho : e.orderId = o
    · subst ho
      have hone : fillsOf e.orderId [e] = [e.fillQty] := by simp [fillsOf]
      rw [hone]
      exact filled_own (hreturns e (List.mem_append_right _ (List.mem_singleton_self e)) rfl)
    · have hnone : fillsOf o [e] = [] := by simp [fillsOf, ho]
      rw [hnone]
      exact filled_other ho

/-- Unless it is a flip, an event changes something exactly when the fill is remembered. -/
theorem step_ne_iff (hreturns : ∀ i, (e.attempts i).Returns) (hflip : (onFillEvent cfg m e stamp).1 ≠ .flip) :
    (onFillEvent cfg m e stamp).2 ≠ m ↔ 0 < cfg.maxRetry ∧ check cfg (m.existing e.orderId) e.fillQty = none := by
  rcases h : onFillEvent cfg m e stamp with ⟨outcome, m'⟩
  rw [h] at hflip
  rcases onFillEvent_cases h with ⟨hcheck, rfl⟩ | ⟨-, hno, -, rfl⟩ | ⟨hcheck, hyes, -, rfl⟩
  · refine iff_of_false (fun hne => hne (if_neg hflip)) fun hall => ?_
    have hsame : (none : Option FillOutcome) = some outcome := hall.2.symm.trans hcheck
    cases hsame
  · have hpos : ¬ 0 < cfg.maxRetry := by
      intro hpos
      obtain ⟨a, ha, hr⟩ := (exists_round hreturns).mpr hpos
      exact hno a ha hr
    have hrounds : rounds cfg e = [] := by
      unfold rounds
      rw [show cfg.maxRetry = 0 by omega]
      rfl
    refine iff_of_false (fun hne => hne ?_) fun hall => hpos hall.1
    simp only [hrounds, attempts]
  · refine iff_of_true (fun hsame => ?_) ⟨(exists_round hreturns).mp hyes, hcheck⟩
    have hfilled := congrArg (fun m : OrderManager => m.existing e.orderId) hsame
    simp only [existing, openFirst_memory, Function.update_self, Option.getD_some] at hfilled
    exact (lt_newFill hcheck).ne' hfilled

end Events

/-! ## One side -/

section Sides
variable {cfg : OrderManagerConfig} {q x : ℚ} {fs fs' : List ℚ} {v v' : Option ℚ}

theorem isCloseToZero_iff : isCloseToZero q = true ↔ |q| ≤ 1 / 10 ^ 9 := by
  have habs := abs_nonneg q
  unfold isCloseToZero
  rw [decide_eq_true_iff, le_max_iff]
  constructor
  · rintro (h | h)
    · norm_num at h ⊢
      linarith
    · exact h
  · exact Or.inr

/-- A first fill is accepted when it is positive and not close to zero. -/
theorem check_first (hdiv : cfg.epsilonDivisor ≠ 0) (hlot : cfg.minLot / cfg.epsilonDivisor ≤ |q|) :
    check cfg 0 q = none ↔ 1 / 10 ^ 9 < q := by
  have hclose := isCloseToZero_iff (q := q)
  unfold check newFill
  simp only [ne_eq, not_true_eq_false, false_and, if_false, sub_zero, hdiv, not_lt.mpr hlot]
  by_cases hq : 1 / 10 ^ 9 < q
  · have hpos : 0 < q := lt_trans (by norm_num) hq
    have hfar : ¬ isCloseToZero q = true := by
      rw [hclose, abs_of_pos hpos]
      exact not_le.mpr hq
    simpa [hfar, hpos] using hq
  · refine iff_of_false ?_ hq
    by_cases hzero : isCloseToZero q = true
    · simp [hzero]
    · have hneg : q ≤ 0 := by
        by_contra hpos
        rw [hclose, abs_of_pos (not_le.mp hpos)] at hzero
        exact hzero (not_lt.mp hq)
      simp [hzero, hneg]

/-- A later fill of a long order is accepted when it is greater. -/
theorem check_later (hdiv : cfg.epsilonDivisor ≠ 0) (hlot : cfg.minLot / cfg.epsilonDivisor ≤ |q|) (hx : 1 / 10 ^ 9 < x)
    (hq : 0 < q) : (check cfg x q = none ↔ x < q) ∧ check cfg x q ≠ some .flip := by
  have hclose := isCloseToZero_iff (q := q)
  have hxpos : 0 < x := lt_trans (by norm_num) hx
  unfold check newFill
  simp only [ne_eq, hxpos.ne', not_false_eq_true, hxpos, hq, not_true_eq_false, and_false, if_false, if_true, hdiv,
    not_lt.mpr hlot]
  by_cases hlt : x < q
  · have hfar : ¬ isCloseToZero q = true := by
      rw [hclose, abs_of_pos hq]
      exact not_le.mpr (hx.trans hlt)
    have hmax : ¬ max x q - x ≤ 0 := by
      rw [max_eq_right hlt.le]
      linarith
    simp [hfar, hmax, hlt]
  · have hmax : max x q - x ≤ 0 := by
      rw [max_eq_left (not_lt.mp hlt)]
      simp
    by_cases hzero : isCloseToZero q = true <;> simp [hzero, hmax, hlt]

/-- The remembered fill of a long order: none that is not close to zero came, or the greatest. -/
def Top (fs : List ℚ) : Option ℚ → Prop
  | none => ∀ q ∈ fs, q ≤ 1 / 10 ^ 9
  | some x => x ∈ fs ∧ 1 / 10 ^ 9 < x ∧ ∀ q ∈ fs, q ≤ x

theorem Top.unique (h : Top fs v) (h' : Top fs' v') (hp : fs'.Perm fs) : v' = v := by
  cases v with
  | none =>
    cases v' with
    | none => rfl
    | some x' =>
      have := h x' (hp.subset h'.1)
      have := h'.2.1
      linarith
  | some x =>
    cases v' with
    | none =>
      have := h' x (hp.symm.subset h.1)
      have := h.2.1
      linarith
    | some x' =>
      have h1 := h.2.2 x' (hp.subset h'.1)
      have h2 := h'.2.2 x (hp.symm.subset h.1)
      rw [le_antisymm h1 h2]

theorem top_fold (hdiv : cfg.epsilonDivisor ≠ 0) (hretry : 0 < cfg.maxRetry) (hpos : ∀ q ∈ fs, 0 < q)
    (hlots : ∀ q ∈ fs, cfg.minLot / cfg.epsilonDivisor ≤ |q|) : Top fs (fs.foldl (accept cfg) none) := by
  induction fs using List.reverseRecOn with
  | nil => simp [Top]
  | append_singleton fs q ih =>
    have hq := hpos q (by simp)
    have hlot := hlots q (by simp)
    have ih := ih (fun p hp => hpos p (List.mem_append_left _ hp)) fun p hp => hlots p (List.mem_append_left _ hp)
    rw [List.foldl_append]
    show Top _ (accept cfg (fs.foldl (accept cfg) none) q)
    cases hv : fs.foldl (accept cfg) none with
    | none =>
      rw [hv] at ih
      unfold accept
      rw [Option.getD_none]
      have hcheck := check_first hdiv hlot
      by_cases hfar : 1 / 10 ^ 9 < q
      · rw [if_pos ⟨hretry, hcheck.mpr hfar⟩]
        refine ⟨by simp [newFill], by simpa [newFill] using hfar, fun p hp => ?_⟩
        rcases List.mem_append.mp hp with hold | hnew
        · have := ih p hold
          simp only [newFill, ne_eq, not_true_eq_false, if_false]
          linarith
        · rw [List.mem_singleton.mp hnew]
          simp [newFill]
      · rw [if_neg fun h => hfar (hcheck.mp h.2)]
        intro p hp
        rcases List.mem_append.mp hp with hold | hnew
        · exact ih p hold
        · rw [List.mem_singleton.mp hnew]
          exact not_lt.mp hfar
    | some x =>
      rw [hv] at ih
      obtain ⟨hmem, hx, hle⟩ := ih
      unfold accept
      rw [Option.getD_some]
      have hcheck := (check_later hdiv hlot hx hq).1
      have hxne : x ≠ 0 := (lt_trans (by norm_num) hx).ne'
      by_cases hlt : x < q
      · rw [if_pos ⟨hretry, hcheck.mpr hlt⟩]
        unfold newFill
        rw [if_pos hxne, max_eq_right hlt.le]
        refine ⟨by simp, hx.trans hlt, fun p hp => ?_⟩
        rcases List.mem_append.mp hp with hold | hnew
        · exact (hle p hold).trans hlt.le
        · exact (List.mem_singleton.mp hnew).le
      · rw [if_neg fun h => hlt (hcheck.mp h.2)]
        refine ⟨List.mem_append_left _ hmem, hx, fun p hp => ?_⟩
        rcases List.mem_append.mp hp with hold | hnew
        · exact hle p hold
        · rw [List.mem_singleton.mp hnew]
          exact not_lt.mp hlt

end Sides

/-! ## Runs -/

section Main
variable {cfg : OrderManagerConfig} {m : OrderManager} {o : String} {es pre : List FillEvent} {e : FillEvent}

theorem onFillEvent_flip_iff {stamp : ℕ} :
    (onFillEvent cfg m e stamp).1 = .flip ↔ check cfg (m.existing e.orderId) e.fillQty = some .flip := by
  rcases h : onFillEvent cfg m e stamp with ⟨outcome, m'⟩
  rcases onFillEvent_cases h with ⟨hcheck, -⟩ | ⟨hnone, -, rfl, -⟩ | ⟨hnone, -, rfl, -⟩
  · rw [hcheck]
    simp
  · unfold Processes at hnone
    simp [hnone]
  · unfold Processes at hnone
    simp [hnone]

/-- The first fill of an order and the events before it. -/
theorem exists_first {q : ℚ} (h : (fillsOf o es).head? = some q) :
    ∃ pre e, pre ++ [e] <+: es ∧ e.orderId = o ∧ e.fillQty = q ∧ fillsOf o pre = [] := by
  induction es with
  | nil => cases h
  | cons d es ih =>
    by_cases ho : d.orderId = o
    · refine ⟨[], d, by simp, ho, ?_, rfl⟩
      simpa [fillsOf, ho] using h
    · have htail : fillsOf o (d :: es) = fillsOf o es := by simp [fillsOf, ho]
      rw [htail] at h
      obtain ⟨pre, e, hpre, hrest⟩ := ih h
      refine ⟨d :: pre, e, by simpa using hpre, hrest.1, hrest.2.1, ?_⟩
      simpa [fillsOf, ho] using hrest.2.2

/-- What an event of the order finds: its predecessors among the fills, and itself. -/
theorem fillsOf_prefix (hpre : pre ++ [e] <+: es) (ho : e.orderId = o) :
    ∃ rest, fillsOf o es = fillsOf o pre ++ e.fillQty :: rest := by
  obtain ⟨rest, rfl⟩ := hpre
  refine ⟨fillsOf o rest, ?_⟩
  simp [fillsOf, ho]

theorem returns_before (hes : OneSided cfg o es) (hpre : pre ++ [e] <+: es) (ho : e.orderId = o) :
    (∀ d ∈ pre, d.orderId = o → ∀ i, (d.attempts i).Returns) ∧ ∀ i, (e.attempts i).Returns :=
  ⟨fun d hd => hes.returns d (hpre.subset (List.mem_append_left _ hd)),
    hes.returns e (hpre.subset (List.mem_append_right _ (List.mem_singleton_self e))) ho⟩

/-- In a long order whose first fill counts, the fill of an event is accepted when it is greater than all before,
and is never taken for a flip. -/
theorem long_event (hdiv : cfg.epsilonDivisor ≠ 0) (hm : m.filledByOrder o = none) (hes : OneSided cfg o es)
    (hpos : ∀ q ∈ fillsOf o es, 0 < q) (hretry : 0 < cfg.maxRetry)
    (hfirst : ∀ q, (fillsOf o es).head? = some q → 1 / 10 ^ 9 < q) (hpre : pre ++ [e] <+: es) (ho : e.orderId = o) :
    (check cfg ((after cfg m pre).2.existing o) e.fillQty = none ↔ ∀ q ∈ fillsOf o pre, |q| < |e.fillQty|) ∧
      check cfg ((after cfg m pre).2.existing o) e.fillQty ≠ some .flip := by
  obtain ⟨rest, hrest⟩ := fillsOf_prefix hpre ho
  have hmem : ∀ q ∈ fillsOf o pre, q ∈ fillsOf o es := fun q hq => by
    rw [hrest]
    exact List.mem_append_left _ hq
  have hown : e.fillQty ∈ fillsOf o es := by
    rw [hrest]
    simp
  have hq := hpos _ hown
  have hlot := hes.lots _ hown
  have htop : Top (fillsOf o pre) ((fillsOf o pre).foldl (accept cfg) none) :=
    top_fold hdiv hretry (fun q hq => hpos q (hmem q hq)) fun q hq => hes.lots q (hmem q hq)
  have hfilled := filled_run cfg m o (returns_before hes hpre ho).1
  rw [hm] at hfilled
  unfold existing
  rw [hfilled]
  cases hv : (fillsOf o pre).foldl (accept cfg) none with
  | none =>
    rw [hv] at htop
    have hnil : fillsOf o pre = [] := by
      cases hp : fillsOf o pre with
      | nil => rfl
      | cons p ps =>
        have hbig := hfirst p (by rw [hrest, hp]; rfl)
        have hsmall : p ≤ 1 / 10 ^ 9 := htop p (by rw [hp]; exact List.mem_cons_self)
        exact absurd hsmall (not_le.mpr hbig)
    have hbig : 1 / 10 ^ 9 < e.fillQty := hfirst _ (by rw [hrest, hnil]; rfl)
    have haccepted := (check_first hdiv hlot).mpr hbig
    rw [Option.getD_none, haccepted, hnil]
    simp
  | some x =>
    rw [hv] at htop
    obtain ⟨hx, hbig, hle⟩ := htop
    obtain ⟨hiff, hflip⟩ := check_later hdiv hlot hbig hq
    refine ⟨hiff.trans ?_, hflip⟩
    rw [abs_of_pos hq]
    constructor
    · intro hlt p hp
      rw [abs_of_pos (hpos p (hmem p hp))]
      exact (hle p hp).trans_lt hlt
    · intro hall
      have := hall x hx
      rwa [abs_of_pos (hpos x (hmem x hx))] at this

/-- What is remembered for the order after its events in any order. -/
theorem filled_perm {es' : List FillEvent} (hm : m.filledByOrder o = none) (hes : OneSided cfg o es)
    (hperm : es'.Perm es) : (fillsOf o es').Perm (fillsOf o es) ∧
      (after cfg m es').2.filledByOrder o = (fillsOf o es').foldl (accept cfg) none := by
  refine ⟨(hperm.filter _).map _, ?_⟩
  rw [filled_run cfg m o fun d hd => hes.returns d (hperm.subset hd), hm]

/-- The first fill of an order whose fills are cumulative has been accepted. -/
theorem Cumulative.first {q : ℚ} (h : Cumulative cfg m o es) (hdiv : cfg.epsilonDivisor ≠ 0)
    (hm : m.filledByOrder o = none) (hes : OneSided cfg o es) (hq : (fillsOf o es).head? = some q) :
    0 < cfg.maxRetry ∧ 1 / 10 ^ 9 < q := by
  obtain ⟨pre, e, hpre, ho, rfl, hnil⟩ := exists_first hq
  obtain ⟨hbefore, hown⟩ := returns_before hes hpre ho
  have hchanged := (h.advances pre e hpre ho).mpr (by rw [hnil]; simp)
  rw [after_append] at hchanged
  obtain ⟨hretry, hcheck⟩ := (step_ne_iff hown (h.noFlip pre e hpre ho)).mp hchanged
  have hfilled := filled_run cfg m o hbefore
  rw [hm, hnil] at hfilled
  have hzero : (after cfg m pre).2.existing e.orderId = 0 := by
    unfold existing
    rw [ho, hfilled]
    rfl
  rw [hzero] at hcheck
  obtain ⟨rest, hrest⟩ := fillsOf_prefix hpre ho
  have hlot := hes.lots e.fillQty (by rw [hrest]; simp)
  exact ⟨hretry, (check_first hdiv hlot).mp hcheck⟩

/-- An order without events. -/
theorem cumulative_nil (hm : m.filledByOrder o = none) (hes : OneSided cfg o es) (hfs : fillsOf o es = []) :
    Cumulative cfg m o es := by
  have hrun := (filled_perm hm hes (List.Perm.refl es)).2
  have hno : ∀ pre e, pre ++ [e] <+: es → e.orderId = o → False := by
    intro pre e hpre ho
    obtain ⟨rest, hrest⟩ := fillsOf_prefix hpre ho
    rw [hfs] at hrest
    simp at hrest
  refine ⟨by simp [hfs], fun pre e hpre ho => (hno pre e hpre ho).elim,
    fun pre e hpre ho => (hno pre e hpre ho).elim, fun es' hperm => ?_⟩
  obtain ⟨hp, hfold⟩ := filled_perm hm hes hperm
  rw [hfs] at hp
  rw [hfold, hrun, hfs, hp.eq_nil]

/-- A long order whose first fill counts. -/
theorem cumulative_long (hdiv : cfg.epsilonDivisor ≠ 0) (hm : m.filledByOrder o = none) (hes : OneSided cfg o es)
    (hpos : ∀ q ∈ fillsOf o es, 0 < q) (hretry : 0 < cfg.maxRetry)
    (hfirst : ∀ q, (fillsOf o es).head? = some q → 1 / 10 ^ 9 < q) : Cumulative cfg m o es := by
  have hrun := (filled_perm hm hes (List.Perm.refl es)).2
  have htop := top_fold hdiv hretry hpos hes.lots
  have hevent : ∀ pre e, pre ++ [e] <+: es → e.orderId = o → _ := fun pre e hpre ho =>
    long_event hdiv hm hes hpos hretry hfirst hpre ho
  refine ⟨?_, fun pre e hpre ho => ?_, fun pre e hpre ho => ?_, fun es' hperm => ?_⟩
  · cases hfs : fillsOf o es with
    | nil => simp
    | cons q fs =>
      rw [← hfs]
      have hbig := hfirst q (by rw [hfs]; rfl)
      cases hv : (fillsOf o es).foldl (accept cfg) none with
      | none =>
        rw [hv] at htop
        have hsmall : q ≤ 1 / 10 ^ 9 := htop q (by rw [hfs]; exact List.mem_cons_self)
        exact absurd hsmall (not_le.mpr hbig)
      | some x =>
        rw [hv] at htop
        obtain ⟨hx, hxbig, hle⟩ := htop
        have hexisting : (after cfg m es).2.existing o = x := by
          unfold existing
          rw [hrun, hv]
          rfl
        rw [hexisting, abs_of_pos (hpos x hx)]
        refine ⟨fun p hp => ?_, fun _ => hx⟩
        rw [abs_of_pos (hpos p hp)]
        exact hle p hp
  · have hflip := (hevent pre e hpre ho).2
    rw [← ho] at hflip
    rw [after_append]
    refine (step_ne_iff (returns_before hes hpre ho).2 fun hf => hflip (onFillEvent_flip_iff.mp hf)).trans ?_
    rw [ho]
    exact (and_iff_right hretry).trans (hevent pre e hpre ho).1
  · intro hf
    have hflip := onFillEvent_flip_iff.mp hf
    rw [ho] at hflip
    exact (hevent pre e hpre ho).2 hflip
  · obtain ⟨hp, hfold⟩ := filled_perm hm hes hperm
    rw [hfold, hrun]
    have htop' := top_fold hdiv hretry (fun p hp' => hpos p (hp.subset hp')) fun p hp' => hes.lots p (hp.subset hp')
    exact htop.unique htop' hp

/-- **Fills are cumulative** exactly when the first fill of the order is positive and not close to zero (and the
retry loop has a round): for long orders, and for no short order. -/
theorem cumulative_iff (hdiv : cfg.epsilonDivisor ≠ 0) (hm : m.filledByOrder o = none) (hes : OneSided cfg o es) :
    Cumulative cfg m o es ↔ ∀ q, (fillsOf o es).head? = some q → 0 < cfg.maxRetry ∧ 1 / 10 ^ 9 < q := by
  constructor
  · exact fun h q hq => h.first hdiv hm hes hq
  · intro hfirst
    cases hfs : fillsOf o es with
    | nil => exact cumulative_nil hm hes hfs
    | cons q fs =>
      obtain ⟨hretry, hbig⟩ := hfirst q (by rw [hfs]; rfl)
      have hpos : ∀ p ∈ fillsOf o es, 0 < p := by
        refine hes.sign.resolve_right fun hneg => ?_
        have hq := hneg q (by rw [hfs]; exact List.mem_cons_self)
        linarith [show (0 : ℚ) < 1 / 10 ^ 9 by norm_num]
      exact cumulative_long hdiv hm hes hpos hretry fun p hp => (hfirst p hp).2

end Main

/-- A long order filled in two steps, the first delivered twice. -/
def longFills : List FillEvent :=
  [⟨"oid1", 1, 100, "pos1", fun _ => {}, {}, {}, 0⟩, ⟨"oid1", 1, 100, "pos1", fun _ => {}, {}, {}, 0⟩,
    ⟨"oid1", 3, 101, "pos1", fun _ => {}, {}, {}, 0⟩]

theorem longFills_oneSided : OneSided {} "oid1" longFills where
  sign := Or.inl (by decide +kernel)
  lots := by decide +kernel
  returns := by
    intro e he _ i
    simp only [longFills, List.mem_cons, List.not_mem_nil, or_false] at he
    rcases he with rfl | rfl | rfl <;> exact ⟨rfl, rfl⟩

theorem cumulative_iff_longFills : Cumulative {} (fresh fun _ => none) "oid1" longFills :=
  (cumulative_iff (by decide +kernel) rfl longFills_oneSided).mpr (by decide +kernel)

/-- A short order filled in one step. -/
def shortFill : List FillEvent := [⟨"oid1", -1, 100, "pos1", fun _ => {}, {}, {}, 0⟩]

theorem not_cumulative_shortFill :
    OneSided {} "oid1" shortFill ∧ ¬ Cumulative {} (fresh fun _ => none) "oid1" shortFill := by
  refine ⟨⟨Or.inr (by decide +kernel), by decide +kernel, ?_⟩, fun h => ?_⟩
  · intro e he _ i
    rw [List.mem_singleton.mp he]
    exact ⟨rfl, rfl⟩
  · have hforgotten : (after {} (fresh fun _ => none) shortFill).2.existing "oid1" = 0 := by decide +kernel
    have hmem := h.greatest.2 (by decide +kernel)
    rw [hforgotten] at hmem
    exact absurd hmem (by decide +kernel)

end OrderManager

end MikoV2.Execution
