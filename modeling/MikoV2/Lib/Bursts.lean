import Mathlib.Algebra.Order.Group.Int
import Mathlib.Data.Int.Interval
import Mathlib.Data.List.Range
import Mathlib.Tactic.Common

/-!
# Bursts of items on a line of time

Time is cut into slots of length `P`. Items come in bursts, at most one in a slot and of at most `size` items each.

* `Burst`, `flat` : the bursts and the items, each with the time of its burst; `Spaced` : how they come;
* `Spaced.sorted` : the items come in order of time;
* `length_slots` : how many slots meet a window; `Spaced.window_length` : how many items a window has;
* `filter_drop_eq` : the newest `n` items have all that is in a window of no more than `n`.
-/

namespace Bursts

variable {α : Type} {P lo hi : ℤ} {size n : ℕ}

structure Burst (α : Type) where
  time : ℤ
  items : List α

/-- The items, each with the time of its burst. -/
def flat (bs : List (Burst α)) : List (ℤ × α) := bs.flatMap fun b => b.items.map fun x => (b.time, x)

/-- The bursts are in slots of their own, in order, and small. -/
structure Spaced (P : ℤ) (size : ℕ) (bs : List (Burst α)) : Prop where
  slots : bs.Pairwise fun a b => a.time / P < b.time / P
  small : ∀ b ∈ bs, b.items.length ≤ size

variable {bs : List (Burst α)}

@[simp] theorem flat_nil : flat ([] : List (Burst α)) = [] := rfl

@[simp] theorem flat_append (bs bs' : List (Burst α)) : flat (bs ++ bs') = flat bs ++ flat bs' := List.flatMap_append

theorem flat_singleton (b : Burst α) : flat [b] = b.items.map fun x => (b.time, x) := List.append_nil _

theorem mem_flat {x : ℤ × α} : x ∈ flat bs ↔ ∃ b ∈ bs, b.time = x.1 ∧ x.2 ∈ b.items := by
  simp only [flat, List.mem_flatMap, List.mem_map]
  constructor
  · rintro ⟨b, hb, y, hy, rfl⟩
    exact ⟨b, hb, rfl, hy⟩
  · rintro ⟨b, hb, htime, hy⟩
    exact ⟨b, hb, x.2, hy, Prod.ext htime rfl⟩

theorem Spaced.nil (P : ℤ) (size : ℕ) : Spaced P size ([] : List (Burst α)) :=
  ⟨List.Pairwise.nil, fun _ hb => absurd hb List.not_mem_nil⟩

/-- One more burst, in a later slot. -/
theorem Spaced.concat (h : Spaced P size bs) {b : Burst α} (hslot : ∀ a ∈ bs, a.time / P < b.time / P)
    (hsmall : b.items.length ≤ size) : Spaced P size (bs ++ [b]) := by
  refine ⟨List.pairwise_append.mpr ⟨h.slots, List.pairwise_singleton _ _, ?_⟩, fun a ha => ?_⟩
  · intro a ha c hc
    rw [List.mem_singleton.mp hc]
    exact hslot a ha
  · rcases List.mem_append.mp ha with ha | ha
    · exact h.small a ha
    · rw [List.mem_singleton.mp ha]
      exact hsmall

/-- A later slot is a later time. -/
theorem lt_of_slot (hP : 0 < P) {s t : ℤ} (h : s / P < t / P) : s < t := by
  by_contra hle
  have hmono := Int.ediv_le_ediv hP (not_lt.mp hle)
  omega

theorem Spaced.sorted (hP : 0 < P) (h : Spaced P size bs) : (flat bs).Pairwise fun a b => a.1 ≤ b.1 := by
  obtain ⟨hslots, -⟩ := h
  induction bs with
  | nil => exact List.Pairwise.nil
  | cons b bs ih =>
    obtain ⟨hhead, hrest⟩ := List.pairwise_cons.mp hslots
    refine List.pairwise_append.mpr ⟨?_, ih hrest, ?_⟩
    · exact List.pairwise_map.mpr (List.pairwise_of_forall fun _ _ => le_rfl)
    · intro x hx y hy
      obtain ⟨_, -, rfl⟩ := List.mem_map.mp hx
      obtain ⟨c, hc, hcy, -⟩ := mem_flat.mp hy
      have hlt := lt_of_slot hP (hhead c hc)
      simp only
      omega

/-- An increasing list of numbers between two bounds. -/
theorem length_slots {l : List ℤ} (hl : l.Pairwise (· < ·)) (hlo : ∀ x ∈ l, lo ≤ x) (hhi : ∀ x ∈ l, x ≤ hi) :
    l.length ≤ (hi + 1 - lo).toNat := by
  have hsub : l.toFinset ⊆ Finset.Icc lo hi := by
    intro x hx
    rw [List.mem_toFinset] at hx
    exact Finset.mem_Icc.mpr ⟨hlo x hx, hhi x hx⟩
  have hcard := Finset.card_le_card hsub
  rw [List.toFinset_card_of_nodup (hl.imp ne_of_lt), Int.card_Icc] at hcard
  exact hcard

/-- A window meets no more slots than its length makes, and two. -/
theorem slots_between (hP : 0 < P) (lo hi : ℤ) : hi / P + 1 - lo / P ≤ (hi - lo) / P + 2 := by
  have hlo := Int.emod_lt_of_pos lo hP
  have hw := Int.emod_lt_of_pos (hi - lo) hP
  have hlo' := Int.mul_ediv_add_emod lo P
  have hw' := Int.mul_ediv_add_emod (hi - lo) P
  have hhi : hi < (lo / P + (hi - lo) / P + 2) * P := by
    rw [add_mul, add_mul, mul_comm (lo / P), mul_comm ((hi - lo) / P)]
    omega
  have hlt := (Int.ediv_lt_iff_lt_mul hP).mpr hhi
  omega

theorem length_flat (hsmall : ∀ b ∈ bs, b.items.length ≤ size) : (flat bs).length ≤ bs.length * size := by
  induction bs with
  | nil => simp
  | cons b bs ih =>
    have hhead := hsmall b List.mem_cons_self
    have hrest := ih fun c hc => hsmall c (List.mem_cons_of_mem b hc)
    have hlength : (flat (b :: bs)).length = b.items.length + (flat bs).length := by
      simp [flat]
    rw [hlength, List.length_cons, add_mul, one_mul]
    omega

theorem filter_flat (lo : ℤ) (bs : List (Burst α)) :
    (flat bs).filter (fun x => lo ≤ x.1) = flat (bs.filter fun b => lo ≤ b.time) := by
  induction bs with
  | nil => rfl
  | cons b bs ih =>
    have hcons : flat (b :: bs) = b.items.map (fun x => (b.time, x)) ++ flat bs := rfl
    rw [hcons, List.filter_append, ih, List.filter_map]
    by_cases hb : lo ≤ b.time
    · rw [List.filter_cons_of_pos (by simpa using hb)]
      simp [flat, Function.comp_def, hb]
    · rw [List.filter_cons_of_neg (by simpa using hb)]
      simp [Function.comp_def, hb]

/-- The items of a window. -/
theorem Spaced.window_length (hP : 0 < P) (h : Spaced P size bs) (hhi : ∀ b ∈ bs, b.time ≤ hi)
    (hroom : size * ((hi - lo) / P + 2) ≤ n) : ((flat bs).filter fun x => lo ≤ x.1).length ≤ n := by
  rw [filter_flat]
  generalize hbs' : bs.filter (fun b => lo ≤ b.time) = bs'
  have hmem : ∀ b ∈ bs', b ∈ bs ∧ lo ≤ b.time := by
    intro b hb
    rw [← hbs', List.mem_filter] at hb
    exact ⟨hb.1, of_decide_eq_true hb.2⟩
  have hslots : (bs'.map fun b => b.time / P).Pairwise (· < ·) := by
    rw [← hbs']
    exact List.pairwise_map.mpr (h.slots.filter _)
  have hlow : ∀ x ∈ bs'.map fun b => b.time / P, lo / P ≤ x := by
    intro x hx
    obtain ⟨b, hb, rfl⟩ := List.mem_map.mp hx
    exact Int.ediv_le_ediv hP (hmem b hb).2
  have hhigh : ∀ x ∈ bs'.map fun b => b.time / P, x ≤ hi / P := by
    intro x hx
    obtain ⟨b, hb, rfl⟩ := List.mem_map.mp hx
    exact Int.ediv_le_ediv hP (hhi b (hmem b hb).1)
  have hcount := length_slots hslots hlow hhigh
  have hbetween := slots_between hP lo hi
  have hflat := length_flat fun b hb => h.small b (hmem b hb).1
  rw [List.length_map] at hcount
  rcases Nat.eq_zero_or_pos bs'.length with hnone | hsome
  · rw [hnone, Nat.zero_mul] at hflat
    omega
  · have hfew : (bs'.length : ℤ) ≤ (hi - lo) / P + 2 := by omega
    have hmul := Int.mul_le_mul_of_nonneg_left hfew (Int.natCast_nonneg size)
    rw [← Nat.cast_mul, Nat.mul_comm] at hmul
    omega

/-- The newest `n` items have all that is in a window of no more than `n`. -/
theorem filter_drop_eq {p : α → Bool} {l : List α} (hup : l.Pairwise fun a b => p a → p b)
    (hn : (l.filter p).length ≤ n) : (l.drop (l.length - n)).filter p = l.filter p := by
  have hsplit := List.take_append_drop (l.length - n) l
  rw [← hsplit] at hup hn
  have hold : (l.take (l.length - n)).filter p = [] := by
    refine List.eq_nil_iff_forall_not_mem.mpr fun x hx => ?_
    have hxp := (List.mem_filter.mp hx).2
    have hxl := (List.mem_filter.mp hx).1
    have hnew : (l.drop (l.length - n)).filter p = l.drop (l.length - n) :=
      List.filter_eq_self.mpr fun y hy => (List.pairwise_append.mp hup).2.2 x hxl y hy hxp
    have hone : 0 < ((l.take (l.length - n)).filter p).length := List.length_pos_of_mem hx
    have hlen : 0 < (l.take (l.length - n)).length := List.length_pos_of_mem hxl
    rw [List.length_take] at hlen
    rw [List.filter_append, List.length_append, hnew, List.length_drop] at hn
    omega
  calc (l.drop (l.length - n)).filter p
      = (l.take (l.length - n)).filter p ++ (l.drop (l.length - n)).filter p := by rw [hold, List.nil_append]
    _ = l.filter p := by rw [← List.filter_append, hsplit]

end Bursts
