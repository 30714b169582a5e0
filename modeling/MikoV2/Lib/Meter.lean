import Mathlib.Algebra.Order.Field.Basic
import Mathlib.Algebra.BigOperators.Group.List.Basic
import Mathlib.Tactic.Linarith
import MikoV2.Lib.Runs

/-!
# Meters

A level that rises at a constant rate, up to a ceiling, and that draws lower. It is brought up to date when it is read,
so what a draw finds depends on the time of the draw before it.

* `fill` : the level at a time; `draw` : what a draw leaves; `Allowed` : it takes no more than there is;
* `between s t` : the draws after `s`, up to `t`; `inflow` : what the level rose by;
* `level_run` : the level stays between 0 and the ceiling;
* `amount_run`, `inflow_run` : nothing is drawn twice, and nothing flows in beyond the rate;
* `window` : the potential argument; between two times no more is drawn than the ceiling, and what flows in meanwhile.
-/

namespace Meter

variable {K : Type} [Field K] [LinearOrder K] [IsStrictOrderedRing K]

/-- The level, and when it was last brought up to date. -/
structure State (K : Type) where
  level : K
  last : K

/-- An amount drawn, and when; a reading draws 0. -/
structure Draw (K : Type) where
  now : K
  amount : K

/-- The level at the time `now`. -/
def fill (rate ceiling : K) (m : State K) (now : K) : K := min ceiling (m.level + (now - m.last) * rate)

def draw (rate ceiling : K) (m : State K) (d : Draw K) : State K := ⟨fill rate ceiling m d.now - d.amount, d.now⟩

/-- Time does not go back, and a draw takes no more than there is. -/
def Allowed (rate ceiling : K) (m : State K) (d : Draw K) : Prop :=
  m.last ≤ d.now ∧ 0 ≤ d.amount ∧ d.amount ≤ fill rate ceiling m d.now

/-- All that is drawn. -/
def total (ds : List (Draw K)) : K := (ds.map Draw.amount).sum

/-- The draws after `s`, up to `t`. -/
def between (s t : K) (ds : List (Draw K)) : List (Draw K) := ds.filter fun d => decide (s < d.now) && decide (d.now ≤ t)

/-- What the level rises by, from one draw to the next. -/
def inflow (rate ceiling : K) : State K → List (Draw K) → K
  | _, [] => 0
  | m, d :: ds => (fill rate ceiling m d.now - m.level) + inflow rate ceiling (draw rate ceiling m d) ds

variable {rate ceiling : K} {m : State K} {d : Draw K} {ds : List (Draw K)}

omit [IsStrictOrderedRing K] in
theorem fill_le (rate ceiling : K) (m : State K) (now : K) : fill rate ceiling m now ≤ ceiling := min_le_left _ _

/-- The level does not fall by itself, and rises at the rate at most. -/
theorem fill_between (hrate : 0 ≤ rate) (hlevel : m.level ≤ ceiling) {now : K} (hnow : m.last ≤ now) :
    m.level ≤ fill rate ceiling m now ∧ fill rate ceiling m now ≤ m.level + (now - m.last) * rate := by
  have hrise : 0 ≤ (now - m.last) * rate := mul_nonneg (sub_nonneg.mpr hnow) hrate
  exact ⟨le_min hlevel (le_add_of_nonneg_right hrise), min_le_right _ _⟩

omit [LinearOrder K] [IsStrictOrderedRing K] in
theorem total_concat (ds : List (Draw K)) (d : Draw K) : total (ds ++ [d]) = total ds + d.amount := by
  simp [total]

omit [Field K] [IsStrictOrderedRing K] in
theorem between_concat (s t : K) (ds : List (Draw K)) (d : Draw K) :
    between s t (ds ++ [d]) = between s t ds ++ between s t [d] := List.filter_append _ _

omit [IsStrictOrderedRing K] in
theorem run_concat (ds : List (Draw K)) (d : Draw K) :
    Runs.run (draw rate ceiling) m (ds ++ [d]) = draw rate ceiling (Runs.run (draw rate ceiling) m ds) d :=
  Runs.run_append _ _

/-! ## The level -/

theorem draw_level (h : Allowed rate ceiling m d) :
    0 ≤ (draw rate ceiling m d).level ∧ (draw rate ceiling m d).level ≤ ceiling := by
  obtain ⟨-, hnonneg, hle⟩ := h
  have hceiling := fill_le rate ceiling m d.now
  simp only [draw]
  exact ⟨sub_nonneg.mpr hle, by linarith⟩

/-- **The level** stays between 0 and the ceiling. -/
theorem level_run (h0 : 0 ≤ m.level ∧ m.level ≤ ceiling)
    (h : Runs.Guarded (Allowed rate ceiling) (draw rate ceiling) m ds) :
    0 ≤ (Runs.run (draw rate ceiling) m ds).level ∧ (Runs.run (draw rate ceiling) m ds).level ≤ ceiling :=
  (Runs.always_of_guarded (I := fun m => 0 ≤ m.level ∧ m.level ≤ ceiling) h0
    (fun _ _ _ hallowed => draw_level hallowed) h).last

/-- **Nothing is drawn twice.** What has been drawn and what is left is what there was and what flowed in. -/
theorem amount_run (rate ceiling : K) : ∀ (ds : List (Draw K)) (m : State K),
    total ds + (Runs.run (draw rate ceiling) m ds).level = m.level + inflow rate ceiling m ds := by
  intro ds
  induction ds with
  | nil =>
    intro m
    simp [total, inflow]
  | cons d ds ih =>
    intro m
    have ih := ih (draw rate ceiling m d)
    have hlevel : (draw rate ceiling m d).level = fill rate ceiling m d.now - d.amount := rfl
    have htotal : total (d :: ds) = d.amount + total ds := by simp [total]
    rw [Runs.run_cons, htotal, inflow]
    linarith

/-- What flows in is what the rate allows for the time. -/
theorem inflow_run (hrate : 0 ≤ rate) : ∀ {ds : List (Draw K)} {m : State K}, m.level ≤ ceiling →
    Runs.Guarded (Allowed rate ceiling) (draw rate ceiling) m ds →
      0 ≤ inflow rate ceiling m ds ∧
        inflow rate ceiling m ds ≤ ((Runs.run (draw rate ceiling) m ds).last - m.last) * rate := by
  intro ds
  induction ds with
  | nil =>
    intro m _ _
    simp [inflow]
  | cons d ds ih =>
    intro m hlevel h
    obtain ⟨hd, hds⟩ := Runs.guarded_cons.mp h
    obtain ⟨hge, hle⟩ := fill_between hrate hlevel hd.1
    obtain ⟨hnonneg, hbound⟩ := ih (draw_level hd).2 hds
    have hlast : (draw rate ceiling m d).last = d.now := rfl
    rw [hlast] at hbound
    rw [Runs.run_cons, inflow]
    constructor
    · linarith
    · linarith

/-! ## Windows -/

/-- The potential of a window: what has been drawn in it, and what can still be drawn. -/
structure Covered (rate ceiling s t : K) (ds : List (Draw K)) (m : State K) : Prop where
  level : m.level ≤ ceiling
  /-- No draw is later than the last one. -/
  past : ∀ d ∈ ds, d.now ≤ m.last
  before : m.last ≤ t → total (between s t ds) + m.level ≤ ceiling + rate * max 0 (m.last - s)
  after : total (between s t ds) ≤ ceiling + rate * (t - s)

omit [Field K] [IsStrictOrderedRing K] in
/-- Draws up to `s` are not in the window. -/
theorem between_of_early {s t : K} (h : ∀ d ∈ ds, d.now ≤ s) : between s t ds = [] := by
  refine List.filter_eq_nil_iff.mpr fun d hd => ?_
  simp [not_lt.mpr (h d hd)]

theorem Covered.step {s t : K} (hrate : 0 ≤ rate) (hst : s ≤ t) (h : Covered rate ceiling s t ds m)
    (hallowed : Allowed rate ceiling m d) : Covered rate ceiling s t (ds ++ [d]) (draw rate ceiling m d) := by
  obtain ⟨hnow, hnonneg, hle⟩ := hallowed
  obtain ⟨-, hfill⟩ := fill_between hrate h.level hnow
  have hceiling := fill_le rate ceiling m d.now
  have hlevel : (draw rate ceiling m d).level = fill rate ceiling m d.now - d.amount := rfl
  have hpast : ∀ e ∈ ds ++ [d], e.now ≤ d.now := by
    intro e he
    rcases List.mem_append.mp he with he | he
    · exact (h.past e he).trans hnow
    · rw [List.mem_singleton.mp he]
  have hbefore : d.now ≤ t → total (between s t (ds ++ [d])) + (draw rate ceiling m d).level ≤
      ceiling + rate * max 0 (d.now - s) := by
    intro ht
    by_cases hs : d.now ≤ s
    · rw [between_of_early fun e he => (hpast e he).trans hs, max_eq_left (sub_nonpos.mpr hs), hlevel]
      simp only [total, List.map_nil, List.sum_nil]
      linarith
    · have hin : between s t [d] = [d] := by simp [between, not_le.mp hs, ht]
      rw [between_concat, hin, total_concat, max_eq_right (by linarith [not_le.mp hs]), hlevel]
      by_cases hlast : m.last ≤ s
      · rw [between_of_early fun e he => (h.past e he).trans hlast]
        have hrise : 0 ≤ rate * (d.now - s) := mul_nonneg hrate (by linarith [not_le.mp hs])
        simp only [total, List.map_nil, List.sum_nil]
        linarith
      · have hold := h.before (hnow.trans ht)
        rw [max_eq_right (by linarith [not_le.mp hlast])] at hold
        linarith
  refine ⟨?_, hpast, hbefore, ?_⟩
  · rw [hlevel]
    linarith
  · by_cases ht : d.now ≤ t
    · have hcovered := hbefore ht
      have hmax : rate * max 0 (d.now - s) ≤ rate * (t - s) :=
        mul_le_mul_of_nonneg_left (max_le (by linarith) (by linarith)) hrate
      rw [hlevel] at hcovered
      linarith
    · have hout : between s t [d] = [] := by simp [between, not_le.mp ht]
      rw [between_concat, hout, List.append_nil]
      exact h.after

/-- **Windows.** After `s` and up to `t`, no more is drawn than the ceiling and what flows in from `s` to `t`. -/
theorem window (hrate : 0 ≤ rate) {s t : K} (hst : s ≤ t) (h0 : 0 ≤ m.level ∧ m.level ≤ ceiling)
    (h : Runs.Guarded (Allowed rate ceiling) (draw rate ceiling) m ds) :
    total (between s t ds) ≤ ceiling + rate * (t - s) := by
  have hrun : Covered rate ceiling s t ds (Runs.run (draw rate ceiling) m ds) := by
    induction ds using List.reverseRecOn with
    | nil =>
      have hflow : 0 ≤ rate * max 0 (m.last - s) := mul_nonneg hrate (le_max_left _ _)
      have hflow' : 0 ≤ rate * (t - s) := mul_nonneg hrate (by linarith)
      refine ⟨h0.2, nofun, fun _ => ?_, ?_⟩
      · simp only [between, List.filter_nil, total, List.map_nil, List.sum_nil, Runs.run_nil]
        linarith [h0.2]
      · simp only [between, List.filter_nil, total, List.map_nil, List.sum_nil]
        linarith [h0.1, h0.2]
    | append_singleton ds d ih =>
      obtain ⟨hds, hd⟩ := Runs.guarded_append.mp h
      rw [run_concat]
      exact (ih hds).step hrate hst (Runs.guarded_cons.mp hd).1
  exact hrun.after

end Meter
