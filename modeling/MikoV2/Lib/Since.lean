import Mathlib.Data.List.Infix
import Mathlib.Order.Basic
import Mathlib.Tactic.Common

/-!
# Since when a condition has held

A log is a list of events with times, `P` a condition on an event.

* `HeldSince` : the condition has held at every event from one at the time `t` on;
* `since` : the time of the first such event, kept event by event;
* `since_le_iff` : with times in order, it is the earliest since when the condition has held.
-/

namespace Since
variable {α T : Type}

/-- Every event from one at the time `t` on meets `P`. -/
def HeldSince (P : α → Prop) (time : α → T) (as : List α) (t : T) : Prop :=
  ∃ early a rest, as = early ++ a :: rest ∧ time a = t ∧ ∀ b ∈ a :: rest, P b

section Held
variable {P Q : α → Prop} {time : α → T} {as : List α} {b : α} {t : T}

theorem not_heldSince_nil : ¬ HeldSince P time [] t := by
  rintro ⟨early, a, rest, has, -⟩
  simp at has

/-- One more event. -/
theorem heldSince_concat : HeldSince P time (as ++ [b]) t ↔ P b ∧ (time b = t ∨ HeldSince P time as t) := by
  constructor
  · rintro ⟨early, a, rest, has, htime, hall⟩
    rcases List.eq_nil_or_concat rest with rfl | ⟨mid, last, rfl⟩
    · obtain ⟨-, hlast⟩ := List.append_inj' has rfl
      obtain rfl : b = a := List.singleton_inj.mp hlast
      exact ⟨hall b List.mem_cons_self, .inl htime⟩
    · rw [List.concat_eq_append, ← List.cons_append, ← List.append_assoc] at has
      obtain ⟨rfl, hlast⟩ := List.append_inj' has rfl
      obtain rfl : b = last := List.singleton_inj.mp hlast
      refine ⟨hall b (by simp), .inr ⟨early, a, mid, rfl, htime, fun c hc => hall c ?_⟩⟩
      rw [List.concat_eq_append, ← List.cons_append]
      exact List.mem_append_left _ hc
  · rintro ⟨hb, htime | ⟨early, a, rest, rfl, htime, hall⟩⟩
    · refine ⟨as, b, [], rfl, htime, fun c hc => ?_⟩
      rwa [List.mem_singleton.mp hc]
    · refine ⟨early, a, rest ++ [b], by simp, htime, fun c hc => ?_⟩
      rw [← List.cons_append] at hc
      rcases List.mem_append.mp hc with hold | hnew
      · exact hall c hold
      · rwa [List.mem_singleton.mp hnew]

theorem HeldSince.mono (h : HeldSince P time as t) (hPQ : ∀ a, P a → Q a) : HeldSince Q time as t := by
  obtain ⟨early, a, rest, has, htime, hall⟩ := h
  exact ⟨early, a, rest, has, htime, fun b hb => hPQ b (hall b hb)⟩

theorem HeldSince.mem (h : HeldSince P time as t) : ∃ a ∈ as, time a = t := by
  obtain ⟨early, a, rest, rfl, htime, -⟩ := h
  exact ⟨a, by simp, htime⟩

end Held

/-! ## The first event of the stretch -/

section First
variable (P : α → Prop) [DecidablePred P] (time : α → T)

/-- An event that meets the condition begins a stretch or prolongs it. -/
def step (start : Option T) (a : α) : Option T := if P a then some (start.getD (time a)) else none

/-- The time of the first event of the stretch of events, up to the last one, that meet the condition. -/
def since (as : List α) : Option T := as.foldl (step P time) none

variable {P time} {as : List α} {t : T}

theorem since_concat (b : α) :
    since P time (as ++ [b]) = if P b then some ((since P time as).getD (time b)) else none := by
  unfold since
  rw [List.foldl_append]
  rfl

theorem heldSince_of_since (h : since P time as = some t) : HeldSince P time as t := by
  induction as using List.reverseRecOn generalizing t with
  | nil => cases h
  | append_singleton as b ih =>
    rw [since_concat] at h
    by_cases hb : P b
    · rw [if_pos hb] at h
      refine heldSince_concat.mpr ⟨hb, ?_⟩
      cases hold : since P time as with
      | none =>
        rw [hold] at h
        exact .inl (Option.some.inj h)
      | some s =>
        rw [hold] at h
        exact .inr (ih (hold.trans h))
    · rw [if_neg hb] at h
      cases h

/-- With times in order the stretch is the longest. -/
theorem since_le [Preorder T] (htimes : as.Pairwise fun a b => time a ≤ time b) (h : HeldSince P time as t) :
    ∃ s, since P time as = some s ∧ s ≤ t := by
  induction as using List.reverseRecOn generalizing t with
  | nil => exact absurd h not_heldSince_nil
  | append_singleton as b ih =>
    obtain ⟨hold, -, hlast⟩ := List.pairwise_append.mp htimes
    obtain ⟨hb, hheld⟩ := heldSince_concat.mp h
    rw [since_concat, if_pos hb]
    refine ⟨_, rfl, ?_⟩
    rcases hheld with rfl | hheld
    · cases hfirst : since P time as with
      | none => exact le_refl _
      | some s =>
        obtain ⟨a, ha, rfl⟩ := (heldSince_of_since hfirst).mem
        exact hlast a ha b List.mem_cons_self
    · obtain ⟨s, hs, hle⟩ := ih hold hheld
      rw [hs]
      exact hle

/-- **Since when.** The condition has held since the bound, or before it, exactly when its stretch began by then. -/
theorem since_le_iff [Preorder T] (htimes : as.Pairwise fun a b => time a ≤ time b) {bound : T} :
    (∃ t ≤ bound, HeldSince P time as t) ↔ ∃ s ≤ bound, since P time as = some s := by
  constructor
  · rintro ⟨t, ht, hheld⟩
    obtain ⟨s, hs, hle⟩ := since_le htimes hheld
    exact ⟨s, hle.trans ht, hs⟩
  · rintro ⟨s, hs, hsince⟩
    exact ⟨s, hs, heldSince_of_since hsince⟩

end First

end Since
