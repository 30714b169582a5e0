import Mathlib.Algebra.Order.BigOperators.Group.List
import Mathlib.Algebra.Order.Field.Basic
import Mathlib.Algebra.Order.Group.MinMax
import Mathlib.Algebra.BigOperators.Group.List.Basic
import Mathlib.Data.Finset.Max
import Mathlib.Tactic.Linarith
import Mathlib.Tactic.Ring

/-!
# Filling from the front

A quantity is drawn from a list of levels, each with a price and a quantity, from the front on. A negative quantity
counts as none.

* `capacity` : what the levels have; `take` : what is drawn from each; `cost` : what it costs;
* `Fits` : a way to draw from the levels; `fits_take`, `sum_take` : `take` is one, of as much as there is;
* `cost_take_le`, `le_cost_take` : where the prices do not fall, or do not rise, no other way is better;
* `exists_price_le`, `exists_le_price` : the average price lies between prices of levels that were drawn from.
-/

namespace Greedy

variable {K : Type} [Field K]

def cost (ls : List (K × K)) (ts : List K) : K := (List.zipWith (fun l t => t * l.1) ls ts).sum

@[simp] theorem cost_cons (l : K × K) (ls : List (K × K)) (t : K) (ts : List K) :
    cost (l :: ls) (t :: ts) = t * l.1 + cost ls ts := by
  unfold cost
  rw [List.zipWith_cons_cons, List.sum_cons]

@[simp] theorem cost_nil (ts : List K) : cost [] ts = 0 := rfl

/-- The levels with the opposite prices. -/
def negPrices (ls : List (K × K)) : List (K × K) := ls.map fun l => (-l.1, l.2)

theorem cost_negPrices (ls : List (K × K)) : ∀ ts : List K, cost (negPrices ls) ts = -cost ls ts := by
  induction ls with
  | nil => exact fun _ => neg_zero.symm
  | cons l ls ih =>
    rintro (_ | ⟨t, ts⟩)
    · exact neg_zero.symm
    · have hrest := ih ts
      show cost ((-l.1, l.2) :: negPrices ls) (t :: ts) = _
      rw [cost_cons, cost_cons, hrest]
      ring

variable [LinearOrder K] {ls : List (K × K)} {xs : List K}

/-- What a level has. -/
def avail (l : K × K) : K := max l.2 0

def capacity (ls : List (K × K)) : K := (ls.map avail).sum

/-- What is drawn from each level, of `r` in all. -/
def take (r : K) : List (K × K) → List K
  | [] => []
  | l :: ls => min r (avail l) :: take (r - min r (avail l)) ls

/-- A level gives no more than it has. -/
def Fits (ls : List (K × K)) (ts : List K) : Prop := List.Forall₂ (fun l t => 0 ≤ t ∧ t ≤ avail l) ls ts

/-- The levels that were drawn from. -/
def used (ls : List (K × K)) (ts : List K) : List (K × K) := ((ls.zip ts).filter fun x => 0 < x.2).map Prod.fst

theorem avail_nonneg (l : K × K) : 0 ≤ avail l := le_max_right _ _

theorem take_negPrices (ls : List (K × K)) : ∀ r : K, take r (negPrices ls) = take r ls := by
  induction ls with
  | nil => exact fun _ => rfl
  | cons l ls ih => exact fun r => congrArg (min r (avail l) :: ·) (ih _)

theorem mem_used_of_mem {l : K × K} {x : K} {a : K × K} (ha : a ∈ used ls xs) : a ∈ used (l :: ls) (x :: xs) := by
  obtain ⟨y, hy, rfl⟩ := List.mem_map.mp ha
  obtain ⟨hmem, hpos⟩ := List.mem_filter.mp hy
  exact List.mem_map_of_mem (List.mem_filter.mpr ⟨List.mem_cons_of_mem _ hmem, hpos⟩)

theorem mem_used_head {l : K × K} {x : K} (hx : 0 < x) : l ∈ used (l :: ls) (x :: xs) :=
  List.mem_map.mpr ⟨(l, x), List.mem_filter.mpr ⟨List.mem_cons_self, decide_eq_true hx⟩, rfl⟩

theorem used_negPrices (ls : List (K × K)) : ∀ ts : List K,
    used (negPrices ls) ts = (used ls ts).map fun l => (-l.1, l.2) := by
  induction ls with
  | nil => exact fun _ => rfl
  | cons l ls ih =>
    rintro (_ | ⟨t, ts⟩)
    · rfl
    · have hrest := ih ts
      unfold used negPrices at hrest ⊢
      rw [List.map_cons, List.zip_cons_cons, List.zip_cons_cons, List.filter_cons, List.filter_cons]
      split <;> simp [hrest]

theorem used_ne_nil (hfits : Fits ls xs) (hpos : 0 < xs.sum) : used ls xs ≠ [] := by
  induction hfits with
  | nil => exact absurd hpos (lt_irrefl _)
  | @cons l x ls xs hx hrest ih =>
    rcases hx.1.eq_or_lt with hzero | hx0
    · rw [List.sum_cons, ← hzero, zero_add] at hpos
      obtain ⟨a, ha⟩ := List.exists_mem_of_ne_nil _ (ih hpos)
      exact List.ne_nil_of_mem (mem_used_of_mem ha)
    · exact List.ne_nil_of_mem (mem_used_head hx0)

theorem cost_take_zero (ls : List (K × K)) : cost ls (take 0 ls) = 0 := by
  induction ls with
  | nil => rfl
  | cons l ls ih => rw [take, min_eq_left (avail_nonneg l), sub_zero, cost_cons, zero_mul, zero_add, ih]

theorem take_append (ls ms : List (K × K)) : ∀ r : K,
    take r (ls ++ ms) = take r ls ++ take (r - (take r ls).sum) ms := by
  induction ls with
  | nil => intro r; simp [take]
  | cons l ls ih =>
    intro r
    rw [List.cons_append, take, ih, take, List.sum_cons, List.cons_append, sub_add_eq_sub_sub]

variable [IsStrictOrderedRing K] {r p m : K}

theorem capacity_nonneg (ls : List (K × K)) : 0 ≤ capacity ls := by
  refine List.sum_nonneg fun q hq => ?_
  obtain ⟨l, -, rfl⟩ := List.mem_map.mp hq
  exact avail_nonneg l

theorem capacity_le_append (ls ms : List (K × K)) : capacity ls ≤ capacity (ls ++ ms) := by
  have hsum : capacity (ls ++ ms) = capacity ls + capacity ms := by
    unfold capacity
    rw [List.map_append, List.sum_append]
  rw [hsum]
  exact le_add_of_nonneg_right (capacity_nonneg ms)

/-! ## What is drawn -/

theorem fits_take : ∀ (ls : List (K × K)) {r : K}, 0 ≤ r → Fits ls (take r ls)
  | [], _, _ => List.Forall₂.nil
  | l :: ls, _, hr =>
    List.Forall₂.cons ⟨le_min hr (avail_nonneg l), min_le_right _ _⟩ (fits_take ls (sub_nonneg.mpr (min_le_left _ _)))

/-- All of `r`, or all that there is. -/
theorem sum_take : ∀ (ls : List (K × K)) {r : K}, 0 ≤ r → (take r ls).sum = min r (capacity ls)
  | [], _, hr => (min_eq_right hr).symm
  | l :: ls, r, hr => by
    have hrest : capacity (l :: ls) = avail l + capacity ls := rfl
    have hpos := capacity_nonneg ls
    rw [take, List.sum_cons, sum_take ls (sub_nonneg.mpr (min_le_left _ _)), hrest]
    rcases le_total r (avail l) with hle | hle
    · rw [min_eq_left hle, sub_self, min_eq_left hpos, min_eq_left (hle.trans (le_add_of_nonneg_right hpos)), add_zero]
    · rw [min_eq_right hle, ← min_add_add_left, add_sub_cancel]

/-- No more than there is can be drawn. -/
theorem take_min_capacity : ∀ (ls : List (K × K)) {r : K}, 0 ≤ r → take (min r (capacity ls)) ls = take r ls
  | [], _, _ => rfl
  | l :: ls, r, hr => by
    have hrest : capacity (l :: ls) = avail l + capacity ls := rfl
    have hpos := capacity_nonneg ls
    have hfirst : min (min r (capacity (l :: ls))) (avail l) = min r (avail l) := by
      have hless : min (avail l + capacity ls) (avail l) = avail l := min_eq_right (le_add_of_nonneg_right hpos)
      rw [hrest, min_assoc, hless]
    rw [take, take, hfirst, hrest]
    rcases le_total r (avail l) with hle | hle
    · have hall : r ≤ avail l + capacity ls := hle.trans (le_add_of_nonneg_right hpos)
      rw [min_eq_left hall]
    · have hmin : min r (avail l + capacity ls) - avail l = min (r - avail l) (capacity ls) := by
        rw [← min_sub_sub_right, add_sub_cancel_left]
      rw [min_eq_right hle, hmin, take_min_capacity ls (sub_nonneg.mpr hle)]

/-- Levels at the back that nothing is left for cost nothing. -/
theorem cost_take_append (ls ms : List (K × K)) (hr : 0 ≤ r) (hall : r ≤ capacity ls) :
    cost (ls ++ ms) (take r (ls ++ ms)) = cost ls (take r ls) := by
  have hlength : ls.length = (take r ls).length := List.Forall₂.length_eq (fits_take ls hr)
  have hleft : r - (take r ls).sum = 0 := by rw [sum_take ls hr, min_eq_left hall, sub_self]
  rw [take_append, hleft]
  unfold cost at *
  rw [List.zipWith_append hlength, List.sum_append]
  exact (add_eq_left).mpr (cost_take_zero ms)

theorem Fits.sum_nonneg (h : Fits ls xs) : 0 ≤ xs.sum := by
  induction h with
  | nil => exact le_rfl
  | cons hx _ ih =>
    rw [List.sum_cons]
    exact add_nonneg hx.1 ih

/-! ## No other way is better -/

/-- What is drawn beyond `take` costs at least the least price. -/
theorem cost_take_add_le {ls : List (K × K)} {xs : List K} (hsorted : ls.Pairwise fun a b => a.1 ≤ b.1)
    (hp : ∀ l ∈ ls, p ≤ l.1) (hr : 0 ≤ r) (hfits : Fits ls xs) (hsum : (take r ls).sum ≤ xs.sum) :
    cost ls (take r ls) + (xs.sum - (take r ls).sum) * p ≤ cost ls xs := by
  induction hfits generalizing r p with
  | nil => simp [take]
  | @cons l x ls xs hx hrest ih =>
    obtain ⟨hfirst, hsorted⟩ := List.pairwise_cons.mp hsorted
    have hpl : p ≤ l.1 := hp l List.mem_cons_self
    rw [take] at hsum ⊢
    rw [List.sum_cons, List.sum_cons] at hsum ⊢
    rw [cost_cons, cost_cons]
    -- the rest of `take` is no more than the rest of the other way
    have hless : (take (r - min r (avail l)) ls).sum ≤ xs.sum := by
      rcases le_total r (avail l) with hle | hle
      · rw [min_eq_left hle, sub_self, sum_take ls le_rfl, min_eq_left (capacity_nonneg ls)]
        exact Fits.sum_nonneg hrest
      · rw [min_eq_right hle] at hsum ⊢
        linarith [hx.2]
    have hcost := ih hsorted (fun a ha => hfirst a ha) (sub_nonneg.mpr (min_le_left _ _)) hless
    have hover := mul_le_mul_of_nonneg_left hpl (sub_nonneg.mpr hsum)
    linarith [hcost, hover]

/-- Where the prices do not fall, no way to draw as much costs less. -/
theorem cost_take_le (hsorted : ls.Pairwise fun a b => a.1 ≤ b.1) (hr : 0 ≤ r) (hfits : Fits ls xs)
    (hsum : xs.sum = (take r ls).sum) : cost ls (take r ls) ≤ cost ls xs := by
  cases ls with
  | nil => simp
  | cons l ls =>
    have hp : ∀ a ∈ l :: ls, l.1 ≤ a.1 := by
      intro a ha
      rcases List.mem_cons.mp ha with rfl | ha
      · exact le_rfl
      · exact (List.pairwise_cons.mp hsorted).1 a ha
    have hall := cost_take_add_le hsorted hp hr hfits hsum.ge
    rwa [hsum, sub_self, zero_mul, add_zero] at hall

/-- Where the prices do not rise, no way to draw as much yields more. -/
theorem le_cost_take (hsorted : ls.Pairwise fun a b => b.1 ≤ a.1) (hr : 0 ≤ r) (hfits : Fits ls xs)
    (hsum : xs.sum = (take r ls).sum) : cost ls xs ≤ cost ls (take r ls) := by
  have hneg : (negPrices ls).Pairwise fun a b => a.1 ≤ b.1 :=
    List.pairwise_map.mpr (hsorted.imp fun h => neg_le_neg h)
  have hfits' : Fits (negPrices ls) xs := List.forall₂_map_left_iff.mpr hfits
  have hle := cost_take_le hneg hr hfits' (by rw [take_negPrices, hsum])
  rw [take_negPrices, cost_negPrices, cost_negPrices] at hle
  exact neg_le_neg_iff.mp hle

/-! ## The average price -/

/-- Levels of which none is cheaper than `m` cost at least `m` each. -/
theorem le_cost (hfits : Fits ls xs) (hm : ∀ l ∈ used ls xs, m ≤ l.1) : m * xs.sum ≤ cost ls xs := by
  induction hfits with
  | nil => simp
  | @cons l x ls xs hx hrest ih =>
    have hall := ih fun a ha => hm a (mem_used_of_mem ha)
    rw [List.sum_cons, cost_cons, mul_add]
    refine add_le_add ?_ hall
    rcases hx.1.eq_or_lt with hzero | hpos
    · rw [← hzero, mul_zero, zero_mul]
    · rw [mul_comm m x]
      exact mul_le_mul_of_nonneg_left (hm l (mem_used_head hpos)) hpos.le

/-- One of the levels is no dearer than the average. -/
theorem exists_price_le (hfits : Fits ls xs) (hpos : 0 < xs.sum) : ∃ l ∈ used ls xs, l.1 ≤ cost ls xs / xs.sum := by
  obtain ⟨a, ha⟩ := List.exists_mem_of_ne_nil _ (used_ne_nil hfits hpos)
  obtain ⟨l, hl, hleast⟩ := (used ls xs).toFinset.exists_min_image Prod.fst ⟨a, List.mem_toFinset.mpr ha⟩
  refine ⟨l, List.mem_toFinset.mp hl, (le_div_iff₀ hpos).mpr ?_⟩
  exact le_cost hfits fun b hb => hleast b (List.mem_toFinset.mpr hb)

/-- One of the levels is no cheaper than the average. -/
theorem exists_le_price (hfits : Fits ls xs) (hpos : 0 < xs.sum) : ∃ l ∈ used ls xs, cost ls xs / xs.sum ≤ l.1 := by
  have hfits' : Fits (negPrices ls) xs := List.forall₂_map_left_iff.mpr hfits
  obtain ⟨l, hl, hle⟩ := exists_price_le hfits' hpos
  rw [used_negPrices] at hl
  obtain ⟨a, ha, rfl⟩ := List.mem_map.mp hl
  rw [cost_negPrices, neg_div] at hle
  exact ⟨a, ha, neg_le_neg_iff.mp hle⟩

end Greedy
