import Mathlib.Algebra.Order.Field.Basic
import Mathlib.Data.List.Infix
import Mathlib.Order.Bounds.Basic
import Mathlib.Tactic.Common

/-!
# Two figures of a series

A loop over the values of a series keeps a number and the largest it has seen.

* `deepestFall` : how far the values fall below the highest one so far, as a part of it;
* `isGreatest_deepestFall` : it is the greatest of the falls; `one_le_deepestFall` : when nothing is left;
* `longestStreak` : the length of the current stretch of entries that meet a condition;
* `isGreatest_longestStreak` : it is the greatest length of such a stretch.
-/

namespace Series

/-! ## The deepest fall -/

section Falls
variable {K : Type} [Field K] [LinearOrder K]

/-- The peak and the deepest fall, with one more value. -/
def fallStep (st : K × K) (v : K) : K × K :=
  let peak := if v > st.1 then v else st.1
  let dd := if peak > 0 then (peak - v) / peak else 0
  (peak, if dd > st.2 then dd else st.2)

def deepestFall (first : K) (vs : List K) : K := (vs.foldl fallStep (first, 0)).2

/-- A value of the series is `d` below the highest one so far. -/
def FallsBy (vs : List K) (d : K) : Prop :=
  ∃ pre v post peak, vs = pre ++ v :: post ∧ IsGreatest {x | x ∈ pre ++ [v]} peak ∧ d = (peak - v) / peak

variable {vs : List K} {v d peak first : K}

/-- The first value does not fall. -/
theorem fallsBy_zero (first : K) (vs : List K) : FallsBy (first :: vs) 0 := by
  refine ⟨[], first, vs, first, rfl, ⟨List.mem_singleton_self first, fun x hx => (List.mem_singleton.mp hx).le⟩, ?_⟩
  rw [sub_self, zero_div]

/-- One more value. -/
theorem fallsBy_concat :
    FallsBy (vs ++ [v]) d ↔ FallsBy vs d ∨ ∃ peak, IsGreatest {x | x ∈ vs ++ [v]} peak ∧ d = (peak - v) / peak := by
  constructor
  · rintro ⟨pre, w, post, peak, hvs, hpeak, hd⟩
    rcases List.eq_nil_or_concat post with rfl | ⟨mid, last, rfl⟩
    · obtain ⟨rfl, hw⟩ := List.append_inj' hvs rfl
      obtain rfl : v = w := List.singleton_inj.mp hw
      exact .inr ⟨peak, hpeak, hd⟩
    · rw [List.concat_eq_append, ← List.cons_append, ← List.append_assoc] at hvs
      obtain ⟨rfl, -⟩ := List.append_inj' hvs rfl
      exact .inl ⟨pre, w, mid, peak, rfl, hpeak, hd⟩
  · rintro (⟨pre, w, post, peak, rfl, hpeak, hd⟩ | ⟨peak, hpeak, hd⟩)
    · exact ⟨pre, w, post ++ [v], peak, by simp, hpeak, hd⟩
    · exact ⟨vs, v, [], peak, rfl, hpeak, hd⟩

omit [Field K] in
/-- A value joins a series with a highest one. -/
theorem isGreatest_concat (h : IsGreatest {x | x ∈ vs} peak) :
    IsGreatest {x | x ∈ vs ++ [v]} (if v > peak then v else peak) := by
  split
  · rename_i hv
    refine ⟨List.mem_append_right _ (List.mem_singleton_self v), fun x hx => ?_⟩
    rcases List.mem_append.mp hx with hx | hx
    · exact (h.2 hx).trans hv.le
    · exact (List.mem_singleton.mp hx).le
  · rename_i hv
    refine ⟨List.mem_append_left _ h.1, fun x hx => ?_⟩
    rcases List.mem_append.mp hx with hx | hx
    · exact h.2 hx
    · exact (List.mem_singleton.mp hx).le.trans (not_lt.mp hv)

/-- The loop has the highest value and the greatest fall of what it has read. -/
theorem isGreatest_fallStep [IsStrictOrderedRing K] (hfirst : 0 < first) (vs : List K) :
    IsGreatest {x | x ∈ first :: vs} (vs.foldl fallStep (first, 0)).1 ∧
      IsGreatest {d | FallsBy (first :: vs) d} (vs.foldl fallStep (first, 0)).2 := by
  induction vs using List.reverseRecOn with
  | nil =>
    have hpeak : IsGreatest {x | x ∈ [first]} first :=
      ⟨List.mem_singleton_self first, fun x hx => (List.mem_singleton.mp hx).le⟩
    refine ⟨hpeak, fallsBy_zero first [], ?_⟩
    rintro d ⟨pre, v, post, peak, hvs, htop, rfl⟩
    cases pre with
    | nil =>
      obtain ⟨rfl, -⟩ := List.cons.inj hvs
      rw [htop.unique hpeak, sub_self, zero_div]
      exact le_rfl
    | cons w pre => simp at hvs
  | append_singleton vs v ih =>
    obtain ⟨hpeak, hfall⟩ := ih
    rw [List.foldl_append, List.foldl_cons, List.foldl_nil, ← List.cons_append]
    generalize vs.foldl fallStep (first, 0) = st at hpeak hfall
    have htop := isGreatest_concat (v := v) hpeak
    have hpos : 0 < (fallStep st v).1 := hfirst.trans_le (htop.2 (List.mem_append_left _ List.mem_cons_self))
    have hdd : (fallStep st v).2 = max st.2 (((fallStep st v).1 - v) / (fallStep st v).1) := by
      unfold fallStep at hpos ⊢
      dsimp only at hpos ⊢
      rw [if_pos hpos, max_def_lt]
    refine ⟨htop, ?_⟩
    rw [hdd]
    constructor
    · rcases max_choice st.2 (((fallStep st v).1 - v) / (fallStep st v).1) with h | h <;> rw [h]
      · exact fallsBy_concat.mpr (.inl hfall.1)
      · exact fallsBy_concat.mpr (.inr ⟨_, htop, rfl⟩)
    · intro d hd
      rcases fallsBy_concat.mp hd with hd | ⟨peak, hpeak, rfl⟩
      · exact (hfall.2 hd).trans (le_max_left ..)
      · rw [hpeak.unique htop]
        exact le_max_right ..

/-- **The deepest fall** is the greatest fall below the highest value so far. -/
theorem isGreatest_deepestFall [IsStrictOrderedRing K] (hfirst : 0 < first) (vs : List K) :
    IsGreatest {d | FallsBy (first :: vs) d} (deepestFall first vs) :=
  (isGreatest_fallStep hfirst vs).2

/-- The fall is the whole of the peak exactly when a value is not positive. -/
theorem one_le_deepestFall [IsStrictOrderedRing K] (hfirst : 0 < first) (vs : List K) :
    1 ≤ deepestFall first vs ↔ ∃ v ∈ first :: vs, v ≤ 0 := by
  have hdeep := isGreatest_deepestFall hfirst vs
  constructor
  · intro hone
    obtain ⟨pre, v, post, peak, hvs, hpeak, hd⟩ := hdeep.1
    have hmem : first ∈ pre ++ [v] := by
      cases pre with
      | nil => exact List.mem_singleton.mpr (List.cons.inj hvs).1
      | cons w pre =>
        rw [(List.cons.inj hvs).1]
        exact List.mem_cons_self
    have hpos : 0 < peak := hfirst.trans_le (hpeak.2 hmem)
    rw [hd, one_le_div hpos, le_sub_self_iff] at hone
    exact ⟨v, hvs ▸ List.mem_append_right _ List.mem_cons_self, hone⟩
  · rintro ⟨v, hv, hneg⟩
    obtain ⟨pre, post, hvs⟩ := List.append_of_mem hv
    obtain ⟨mid, hmid⟩ : ∃ mid, pre ++ [v] = first :: mid := by
      cases pre with
      | nil => exact ⟨[], by rw [(List.cons.inj hvs).1]; rfl⟩
      | cons w pre => exact ⟨pre ++ [v], by rw [(List.cons.inj hvs).1]; rfl⟩
    have htop := (isGreatest_fallStep hfirst mid).1
    rw [← hmid] at htop
    have hpos : 0 < (mid.foldl fallStep (first, 0)).1 :=
      hfirst.trans_le (htop.2 (hmid ▸ List.mem_cons_self))
    refine le_trans ?_ (hdeep.2 ⟨pre, v, post, _, hvs, htop, rfl⟩)
    rw [one_le_div hpos, le_sub_self_iff]
    exact hneg

end Falls

/-! ## The longest streak -/

section Streaks
variable {α : Type} (P : α → Prop) [DecidablePred P]

/-- The current and the longest stretch, with one more entry. -/
def streakStep (st : ℕ × ℕ) (a : α) : ℕ × ℕ :=
  if P a then (st.1 + 1, if st.1 + 1 > st.2 then st.1 + 1 else st.2) else (0, st.2)

def longestStreak (as : List α) : ℕ := (as.foldl (streakStep P) (0, 0)).2

omit [DecidablePred P] in
variable {P} in
/-- A stretch of one entry more is at the end, or was there before. -/
theorem isGreatest_infix_concat {as : List α} {a : α} {best cur : ℕ}
    (hbest : IsGreatest {n | ∃ m, m <:+: as ∧ (∀ b ∈ m, P b) ∧ m.length = n} best)
    (hcur : IsGreatest {n | ∃ m, m <:+ as ++ [a] ∧ (∀ b ∈ m, P b) ∧ m.length = n} cur) :
    IsGreatest {n | ∃ m, m <:+: as ++ [a] ∧ (∀ b ∈ m, P b) ∧ m.length = n} (max best cur) := by
  obtain ⟨⟨m, hm, hPm, hlen⟩, hbest⟩ := hbest
  obtain ⟨⟨t, ht, hPt, hlen'⟩, hcur⟩ := hcur
  constructor
  · rcases max_choice best cur with h | h <;> rw [h]
    · exact ⟨m, List.infix_concat_iff.mpr (.inr hm), hPm, hlen⟩
    · exact ⟨t, ht.isInfix, hPt, hlen'⟩
  · rintro n ⟨l, hl, hPl, rfl⟩
    rcases List.infix_concat_iff.mp hl with hl | hl
    · exact (hcur ⟨l, hl, hPl, rfl⟩).trans (le_max_right ..)
    · exact (hbest ⟨l, hl, hPl, rfl⟩).trans (le_max_left ..)

/-- The loop has the longest stretch at the end of what it has read, and the longest anywhere. -/
theorem isGreatest_streakStep (as : List α) :
    IsGreatest {n | ∃ m, m <:+ as ∧ (∀ a ∈ m, P a) ∧ m.length = n} (as.foldl (streakStep P) (0, 0)).1 ∧
      IsGreatest {n | ∃ m, m <:+: as ∧ (∀ a ∈ m, P a) ∧ m.length = n} (as.foldl (streakStep P) (0, 0)).2 := by
  induction as using List.reverseRecOn with
  | nil =>
    refine ⟨⟨⟨[], by simp⟩, ?_⟩, ⟨[], by simp⟩, ?_⟩
    · rintro n ⟨m, hm, -, rfl⟩
      rw [List.suffix_nil.mp hm]
      exact le_rfl
    · rintro n ⟨m, hm, -, rfl⟩
      rw [List.infix_nil.mp hm]
      exact le_rfl
  | append_singleton as a ih =>
    rw [List.foldl_append, List.foldl_cons, List.foldl_nil]
    generalize as.foldl (streakStep P) (0, 0) = st at ih
    obtain ⟨⟨⟨tail, htail, hall, hlen⟩, hcur⟩, hbest⟩ := ih
    by_cases ha : P a
    · have hnew : IsGreatest {n | ∃ m, m <:+ as ++ [a] ∧ (∀ b ∈ m, P b) ∧ m.length = n} (st.1 + 1) := by
        refine ⟨⟨tail ++ [a], List.suffix_concat_iff.mpr (.inr ⟨tail, rfl, htail⟩), ?_, by simp [hlen]⟩, ?_⟩
        · intro b hb
          rcases List.mem_append.mp hb with hb | hb
          · exact hall b hb
          · rwa [List.mem_singleton.mp hb]
        · rintro n ⟨m, hm, hPm, rfl⟩
          rcases List.suffix_concat_iff.mp hm with rfl | ⟨t, rfl, ht⟩
          · exact Nat.zero_le _
          · rw [List.length_append, List.length_singleton]
            exact Nat.add_le_add_right (hcur ⟨t, ht, fun b hb => hPm b (List.mem_append_left _ hb), rfl⟩) 1
      have hstep : streakStep P st a = (st.1 + 1, max st.2 (st.1 + 1)) := by
        unfold streakStep
        rw [if_pos ha, max_def_lt]
      rw [hstep]
      exact ⟨hnew, isGreatest_infix_concat hbest hnew⟩
    · have hnew : IsGreatest {n | ∃ m, m <:+ as ++ [a] ∧ (∀ b ∈ m, P b) ∧ m.length = n} 0 := by
        refine ⟨⟨[], List.nil_suffix, by simp⟩, ?_⟩
        rintro n ⟨m, hm, hPm, rfl⟩
        rcases List.suffix_concat_iff.mp hm with rfl | ⟨t, rfl, -⟩
        · exact le_rfl
        · exact absurd (hPm a (List.mem_append_right _ (List.mem_singleton_self a))) ha
      have hmax := isGreatest_infix_concat hbest hnew
      rw [max_eq_left (Nat.zero_le _)] at hmax
      unfold streakStep
      rw [if_neg ha]
      exact ⟨hnew, hmax⟩

/-- **The longest streak** is the greatest length of a stretch of entries that meet the condition. -/
theorem isGreatest_longestStreak (as : List α) :
    IsGreatest {n | ∃ m, m <:+: as ∧ (∀ a ∈ m, P a) ∧ m.length = n} (longestStreak P as) :=
  (isGreatest_streakStep P as).2

end Streaks

end Series
