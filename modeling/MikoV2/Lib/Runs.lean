import Mathlib.Data.List.Infix
import Mathlib.Tactic.Common

/-!
# Runs of a deterministic system

A system is a step function `step : σ → α → σ`; a run is a list of actions. `Always P` says that `P` holds
in every state a run passes through, `Guarded ok` that every action of the run is taken in a state in which
`ok` allows it.

* `invariant` : what every step keeps, a run keeps;
* `always_of_guarded` : what every allowed step keeps holds along every guarded run;
* `always_iff_guarded` : a state property along a run is a property of its steps;
* `lockstep` : two systems kept in a relation by their steps; `history_invariant`, `history_of_guarded` : an invariant
  of the actions so far;
* `guarded_iff_guarded` : a property of steps that the allowed steps have and the others lack holds along
  exactly the guarded runs;
* `runM` : a run of steps that may raise, `runM_eq_none` : at which action; `runM_history` : an invariant of the actions
  so far, while they return;
* `runM_map` : what commutes with every step commutes with a run.
-/

namespace Runs

variable {σ α : Type}

/-- The state after the actions `as`. -/
def run (step : σ → α → σ) (s : σ) (as : List α) : σ := as.foldl step s

/-- `P` holds in every state the run passes through, the first and the last included. -/
def Always (P : σ → Prop) (step : σ → α → σ) (s : σ) (as : List α) : Prop :=
  ∀ pre, pre <+: as → P (run step s pre)

/-- Every action of the run is allowed in the state in which it is taken. -/
def Guarded (ok : σ → α → Prop) (step : σ → α → σ) (s : σ) (as : List α) : Prop :=
  ∀ pre a, pre ++ [a] <+: as → ok (run step s pre) a

variable {step : σ → α → σ} {P I : σ → Prop} {ok : σ → α → Prop} {s : σ} {a : α} {as : List α}

@[simp] theorem run_nil : run step s [] = s := rfl

@[simp] theorem run_cons : run step s (a :: as) = run step (step s a) as := rfl

theorem run_append (as bs : List α) : run step s (as ++ bs) = run step (run step s as) bs :=
  List.foldl_append

theorem run_map {β : Type} (f : β → α) (bs : List β) : run step s (bs.map f) = run (fun s b => step s (f b)) s bs :=
  List.foldl_map

theorem always_nil : Always P step s [] ↔ P s := by
  refine ⟨fun h => h [] (List.prefix_refl _), fun h pre hpre => ?_⟩
  rw [List.prefix_nil.mp hpre]
  exact h

theorem always_cons : Always P step s (a :: as) ↔ P s ∧ Always P step (step s a) as := by
  constructor
  · intro h
    refine ⟨h [] (List.nil_prefix), fun pre hpre => ?_⟩
    exact h (a :: pre) (by simpa using hpre)
  · rintro ⟨h0, h⟩ pre hpre
    cases pre with
    | nil => exact h0
    | cons b pre =>
      obtain ⟨rfl, htail⟩ := List.cons_prefix_cons.mp hpre
      exact h pre htail

theorem guarded_nil : Guarded ok step s [] := by
  intro pre a hpre
  simp at hpre

theorem guarded_cons : Guarded ok step s (a :: as) ↔ ok s a ∧ Guarded ok step (step s a) as := by
  constructor
  · intro h
    refine ⟨h [] a (by simp), fun pre b hpre => ?_⟩
    exact h (a :: pre) b (by simpa using hpre)
  · rintro ⟨h0, h⟩ pre b hpre
    cases pre with
    | nil =>
      obtain ⟨rfl, -⟩ := List.cons_prefix_cons.mp hpre
      exact h0
    | cons c pre =>
      obtain ⟨rfl, htail⟩ := List.cons_prefix_cons.mp hpre
      exact h pre b htail

theorem guarded_append {bs : List α} :
    Guarded ok step s (as ++ bs) ↔ Guarded ok step s as ∧ Guarded ok step (run step s as) bs := by
  induction as generalizing s with
  | nil => exact ⟨fun h => ⟨guarded_nil, h⟩, fun h => h.2⟩
  | cons a as ih => rw [List.cons_append, guarded_cons, guarded_cons, ih, run_cons, and_assoc]

/-- Actions that are allowed in every state. -/
theorem guarded_of_forall (h : ∀ a ∈ as, ∀ s, ok s a) : Guarded ok step s as := by
  intro pre a hpre
  exact h a (hpre.subset (List.mem_append_right _ (List.mem_singleton_self a))) _

theorem guarded_and {ok' : σ → α → Prop} :
    Guarded (fun s a => ok s a ∧ ok' s a) step s as ↔ Guarded ok step s as ∧ Guarded ok' step s as := by
  constructor
  · intro h
    exact ⟨fun pre a hpre => (h pre a hpre).1, fun pre a hpre => (h pre a hpre).2⟩
  · rintro ⟨h, h'⟩ pre a hpre
    exact ⟨h pre a hpre, h' pre a hpre⟩

theorem Always.last (h : Always P step s as) : P (run step s as) := h as (List.prefix_refl _)

theorem Always.mono {Q : σ → Prop} (h : Always P step s as) (hPQ : ∀ s, P s → Q s) : Always Q step s as :=
  fun pre hpre => hPQ _ (h pre hpre)

/-- **Invariants.** What every step keeps, a run keeps. -/
theorem invariant (h0 : I s) (hstep : ∀ s a, I s → I (step s a)) (as : List α) : I (run step s as) := by
  induction as generalizing s with
  | nil => exact h0
  | cons a as ih => exact ih (hstep s a h0)

/-- What every allowed step keeps holds along every guarded run. -/
theorem always_of_guarded (h0 : I s) (hstep : ∀ s a, I s → ok s a → I (step s a))
    (h : Guarded ok step s as) : Always I step s as := by
  induction as generalizing s with
  | nil => exact always_nil.mpr h0
  | cons a as ih =>
    obtain ⟨ha, has⟩ := guarded_cons.mp h
    exact always_cons.mpr ⟨h0, ih (hstep s a h0 ha) has⟩

/-- A state property along a run, step by step. -/
theorem always_iff_guarded (h0 : P s) : Always P step s as ↔ Guarded (fun s a => P (step s a)) step s as := by
  induction as generalizing s with
  | nil => exact ⟨fun _ => guarded_nil, fun _ => always_nil.mpr h0⟩
  | cons a as ih =>
    rw [always_cons, guarded_cons]
    constructor
    · rintro ⟨-, has⟩
      have ha : P (step s a) := has [] List.nil_prefix
      exact ⟨ha, (ih ha).mp has⟩
    · rintro ⟨ha, has⟩
      exact ⟨h0, (ih ha).mpr has⟩

/-- **Exact guards.** `I` is kept by the steps `ok` allows, which all do what `Q` asks; a step that is not
allowed does not, whenever `I` held before it. Then `Q` holds of every step exactly when the run is guarded.
Both may use what `fresh` says of every action of the run. -/
theorem guarded_iff_guarded_of {Q fresh : σ → α → Prop} (hfresh : Guarded fresh step s as) (h0 : I s)
    (hstep : ∀ s, ∀ a ∈ as, I s → fresh s a → ok s a → I (step s a) ∧ Q s a)
    (hbreak : ∀ s, ∀ a ∈ as, I s → fresh s a → ¬ ok s a → ¬ Q s a) :
    Guarded Q step s as ↔ Guarded ok step s as := by
  induction as generalizing s with
  | nil => exact ⟨fun _ => guarded_nil, fun _ => guarded_nil⟩
  | cons a as ih =>
    have hhead : a ∈ a :: as := List.mem_cons_self
    obtain ⟨hfa, hfas⟩ := guarded_cons.mp hfresh
    have ih' : I (step s a) → (Guarded Q step (step s a) as ↔ Guarded ok step (step s a) as) := fun h =>
      ih hfas h (fun s b hb => hstep s b (List.mem_cons_of_mem _ hb))
        fun s b hb => hbreak s b (List.mem_cons_of_mem _ hb)
    rw [guarded_cons, guarded_cons]
    constructor
    · rintro ⟨hQ, has⟩
      have ha : ok s a := by
        by_contra hok
        exact hbreak s a hhead h0 hfa hok hQ
      exact ⟨ha, (ih' (hstep s a hhead h0 hfa ha).1).mp has⟩
    · rintro ⟨ha, has⟩
      have hI := hstep s a hhead h0 hfa ha
      exact ⟨hI.2, (ih' hI.1).mpr has⟩

theorem guarded_iff_guarded {Q : σ → α → Prop} (h0 : I s)
    (hstep : ∀ s, ∀ a ∈ as, I s → ok s a → I (step s a) ∧ Q s a)
    (hbreak : ∀ s, ∀ a ∈ as, I s → ¬ ok s a → ¬ Q s a) :
    Guarded Q step s as ↔ Guarded ok step s as :=
  guarded_iff_guarded_of (guarded_of_forall fun _ _ _ => trivial) h0 (fun s a ha h _ => hstep s a ha h)
    fun s a ha h _ => hbreak s a ha h

/-- **Lockstep.** Two systems whose steps keep a relation stay related along every run. -/
theorem lockstep {τ : Type} {R : σ → τ → Prop} {step' : τ → α → τ} {t : τ} {ok : α → Prop}
    (hstep : ∀ s t a, ok a → R s t → R (step s a) (step' t a)) (hok : ∀ a ∈ as, ok a) (h : R s t) :
    R (run step s as) (run step' t as) := by
  induction as generalizing s t with
  | nil => exact h
  | cons a as ih =>
    have ha : ok a := hok a List.mem_cons_self
    exact ih (fun b hb => hok b (List.mem_cons_of_mem a hb)) (hstep s t a ha h)

/-- An invariant that may speak of the actions so far. -/
theorem history_invariant {J : List α → σ → Prop} (h0 : J [] s)
    (hstep : ∀ pre a, J pre (run step s pre) → J (pre ++ [a]) (step (run step s pre) a)) :
    ∀ as, J as (run step s as) := by
  intro as
  induction as using List.reverseRecOn with
  | nil => exact h0
  | append_singleton pre a ih =>
    rw [run_append]
    exact hstep pre a ih

/-- An invariant of the actions so far, along the runs whose actions are allowed. -/
theorem history_of_guarded {J : List α → σ → Prop} (h0 : J [] s)
    (hstep : ∀ pre a, J pre (run step s pre) → ok (run step s pre) a → J (pre ++ [a]) (step (run step s pre) a)) :
    ∀ as, Guarded ok step s as → J as (run step s as) := by
  intro as
  induction as using List.reverseRecOn with
  | nil => exact fun _ => h0
  | append_singleton pre a ih =>
    intro h
    obtain ⟨hpre, ha⟩ := guarded_append.mp h
    rw [run_append]
    exact hstep pre a (ih hpre) (guarded_cons.mp ha).1

/-! ## Steps that may raise -/

/-- The state after the actions `as`; `none` when one of them raises. -/
def runM (step : σ → α → Option σ) (s : σ) (as : List α) : Option σ := as.foldlM step s

variable {stepM : σ → α → Option σ} {t : σ}

theorem runM_cons : runM stepM s (a :: as) = (stepM s a).bind fun m => runM stepM m as := List.foldlM_cons

theorem runM_append {bs : List α} :
    runM stepM s (as ++ bs) = some t ↔ ∃ m, runM stepM s as = some m ∧ runM stepM m bs = some t := by
  unfold runM
  rw [List.foldlM_append]
  exact Option.bind_eq_some_iff

theorem runM_concat_eq : runM stepM s (as ++ [a]) = (runM stepM s as).bind fun m => stepM m a := by
  unfold runM
  rw [List.foldlM_append]
  refine congrArg (Option.bind _) (funext fun m => ?_)
  exact bind_pure _

theorem runM_concat : runM stepM s (as ++ [a]) = some t ↔ ∃ m, runM stepM s as = some m ∧ stepM m a = some t := by
  rw [runM_append]
  have hone : ∀ m, runM stepM m [a] = stepM m a := fun m => by
    show (stepM m a >>= fun m => pure m) = _
    exact bind_pure _
  refine exists_congr fun m => and_congr_right fun _ => ?_
  rw [hone]

/-- An invariant of the actions so far, of the steps that return. -/
theorem runM_history {J : List α → σ → Prop} (h0 : J [] s)
    (hstep : ∀ pre a m t, J pre m → stepM m a = some t → J (pre ++ [a]) t) :
    ∀ as t, runM stepM s as = some t → J as t := by
  intro as
  induction as using List.reverseRecOn with
  | nil =>
    intro t h
    cases h
    exact h0
  | append_singleton pre a ih =>
    intro t h
    obtain ⟨m, hm, ha⟩ := runM_concat.mp h
    exact hstep pre a m t (ih m hm) ha

/-- A run that raises does so at one of its actions. -/
theorem runM_eq_none : runM stepM s as = none ↔
    ∃ pre a post m, as = pre ++ a :: post ∧ runM stepM s pre = some m ∧ stepM m a = none := by
  constructor
  · induction as generalizing s with
    | nil => exact fun h => (nomatch h)
    | cons a as ih =>
      intro h
      cases ha : stepM s a with
      | none => exact ⟨[], a, as, s, rfl, rfl, ha⟩
      | some m =>
        rw [runM_cons, ha, Option.bind_some] at h
        obtain ⟨pre, b, post, m', rfl, hpre, hb⟩ := ih h
        refine ⟨a :: pre, b, post, m', rfl, ?_, hb⟩
        rw [runM_cons, ha]
        exact hpre
  · rintro ⟨pre, a, post, m, rfl, hpre, ha⟩
    unfold runM at hpre ⊢
    rw [List.foldlM_append, hpre]
    show (stepM m a >>= fun m => post.foldlM stepM m) = none
    rw [ha]
    rfl

/-- A run returns when an invariant keeps its steps from raising. -/
theorem runM_returns {ok : α → Prop} (h0 : I s) (hstep : ∀ s a, ok a → I s → ∃ t, stepM s a = some t ∧ I t)
    (hok : ∀ a ∈ as, ok a) : ∃ t, runM stepM s as = some t ∧ I t := by
  induction as generalizing s with
  | nil => exact ⟨s, rfl, h0⟩
  | cons a as ih =>
    obtain ⟨m, hm, hI⟩ := hstep s a (hok a List.mem_cons_self) h0
    obtain ⟨t, ht, hIt⟩ := ih hI fun b hb => hok b (List.mem_cons_of_mem a hb)
    refine ⟨t, ?_, hIt⟩
    show (stepM s a >>= fun m => as.foldlM stepM m) = some t
    rw [hm]
    exact ht

/-- **Symmetries.** A change `f` of the states and `g` of the actions that every step commutes with, a run commutes
with. -/
theorem runM_map {τ β : Type} {stepM' : τ → β → Option τ} (f : σ → τ) (g : α → β)
    (hstep : ∀ s a, stepM' (f s) (g a) = (stepM s a).map f) (as : List α) :
    runM stepM' (f s) (as.map g) = (runM stepM s as).map f := by
  induction as generalizing s with
  | nil => rfl
  | cons a as ih =>
    rw [List.map_cons, runM_cons, runM_cons, hstep, Option.bind_map, Option.map_bind]
    exact congrArg (Option.bind _) (funext fun m => ih)

end Runs
