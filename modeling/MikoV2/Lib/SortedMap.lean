import Mathlib.Data.Finset.Card
import Mathlib.Data.List.Sort
import Mathlib.Tactic.Common

/-!
# Finite maps as sorted lists

The entries of a finite map, by strictly increasing key `k p` of their point `p`; `k` is injective.

* `put` : a point gets a value or goes; `mem_put`, `Sorted.put` : what it does;
* `put_append`, `put_append_cons` : `put` where the position of the point is known;
* `points l` : the points with an entry; `points_put` : what `put` does to them;
* `Lists m l` : `l` lists the map `m`; `Lists.put`, `lists_lookup` : how such lists come about;
* `Best m l` : `l` is the first so many entries of `m`; `best_iff` : it agrees with `m`, and what it leaves
  out lies behind it.
-/

namespace SortedMap

variable {α β κ : Type} [LinearOrder κ] {k : α → κ} {l l₁ l₂ full : List (α × β)} {m : α → Option β}
  {p : α} {v : Option β}

/-- Keys strictly increase. -/
def Sorted (k : α → κ) (l : List (α × β)) : Prop := l.Pairwise fun x y => k x.1 < k y.1

/-- The entry of `p` becomes `v`, or goes. -/
def put (k : α → κ) (p : α) (v : Option β) (l : List (α × β)) : List (α × β) :=
  l.filter (fun x => decide (k x.1 < k p)) ++ (v.map fun v => (p, v)).toList ++
    l.filter (fun x => decide (k p < k x.1))

/-- `l` lists the map `m` in the order of its keys. -/
structure Lists (k : α → κ) (m : α → Option β) (l : List (α × β)) : Prop where
  sorted : Sorted k l
  mem : ∀ p v, (p, v) ∈ l ↔ m p = some v

/-- `l` is the first so many entries of the map `m`. -/
def Best (k : α → κ) (m : α → Option β) (l : List (α × β)) : Prop := ∃ full n, Lists k m full ∧ l = full.take n

/-! ## Sorted lists -/

theorem Sorted.eq_of_mem_iff (h₁ : Sorted k l₁) (h₂ : Sorted k l₂) (h : ∀ x, x ∈ l₁ ↔ x ∈ l₂) : l₁ = l₂ := by
  have hirrefl : Std.Irrefl fun x y : α × β => k x.1 < k y.1 := ⟨fun x => lt_irrefl _⟩
  have hanti : Std.Antisymm fun x y : α × β => k x.1 < k y.1 := ⟨fun x y hxy hyx => absurd hxy (lt_asymm hyx)⟩
  exact List.Pairwise.eq_of_mem_iff h₁ h₂ h

theorem Sorted.append_iff : Sorted k (l₁ ++ l₂) ↔
    Sorted k l₁ ∧ Sorted k l₂ ∧ ∀ x ∈ l₁, ∀ y ∈ l₂, k x.1 < k y.1 :=
  List.pairwise_append

theorem Sorted.take (h : Sorted k l) (n : ℕ) : Sorted k (l.take n) := List.Pairwise.sublist (List.take_sublist n l) h

/-- All but the last entry are those with an entry behind them. -/
theorem Sorted.mem_dropLast (h : Sorted k l) {x : α × β} : x ∈ l.dropLast ↔ x ∈ l ∧ ∃ y ∈ l, k x.1 < k y.1 := by
  rcases List.eq_nil_or_concat l with rfl | ⟨l, z, rfl⟩
  · simp
  · rw [List.concat_eq_append] at h ⊢
    obtain ⟨-, -, hbefore⟩ := Sorted.append_iff.mp h
    have hlast : ∀ y ∈ l ++ [z], ¬ k z.1 < k y.1 := by
      intro y hy hlt
      rcases List.mem_append.mp hy with hy | hy
      · exact absurd (hbefore y hy z (List.mem_singleton_self z)) (lt_asymm hlt)
      · rw [List.mem_singleton.mp hy] at hlt
        exact lt_irrefl _ hlt
    rw [List.dropLast_concat]
    constructor
    · intro hx
      exact ⟨List.mem_append_left _ hx, z, by simp, hbefore x hx z (List.mem_singleton_self z)⟩
    · rintro ⟨hx, y, hy, hlt⟩
      refine (List.mem_append.mp hx).resolve_right fun hz => ?_
      rw [List.mem_singleton.mp hz] at hlt
      exact hlast y hy hlt

/-- A sorted list begins with another one when it has its entries, and its others behind them. -/
theorem Sorted.take_length (h₁ : Sorted k l) (h₂ : Sorted k full) (hsub : ∀ x ∈ l, x ∈ full)
    (hbehind : ∀ y ∈ full, y ∉ l → ∀ x ∈ l, k x.1 < k y.1) : l = full.take l.length := by
  classical
  have hrest : Sorted k (full.filter fun y => decide (y ∉ l)) := List.Pairwise.sublist List.filter_sublist h₂
  have happend : Sorted k (l ++ full.filter fun y => decide (y ∉ l)) := by
    refine Sorted.append_iff.mpr ⟨h₁, hrest, fun x hx y hy => ?_⟩
    obtain ⟨hyfull, hyl⟩ := List.mem_filter.mp hy
    exact hbehind y hyfull (of_decide_eq_true hyl) x hx
  have heq : l ++ (full.filter fun y => decide (y ∉ l)) = full := by
    refine happend.eq_of_mem_iff h₂ fun x => ?_
    by_cases hx : x ∈ l
    · simp [hx, hsub x hx]
    · simp [hx]
  calc l = (l ++ full.filter fun y => decide (y ∉ l)).take l.length := by simp
    _ = full.take l.length := by rw [heq]

/-! ## `put` -/

theorem mem_put (hk : Function.Injective k) {x : α × β} :
    x ∈ put k p v l ↔ (x.1 ≠ p ∧ x ∈ l) ∨ (x.1 = p ∧ v = some x.2) := by
  have hnew : x ∈ (v.map fun v => (p, v)).toList ↔ x.1 = p ∧ v = some x.2 := by
    cases v with
    | none => simp
    | some v => simp [Prod.ext_iff, eq_comm]
  unfold put
  simp only [List.mem_append, List.mem_filter, decide_eq_true_eq, hnew]
  constructor
  · rintro ((⟨hx, hlt⟩ | hx) | ⟨hx, hlt⟩)
    · exact Or.inl ⟨fun he => by rw [he] at hlt; exact lt_irrefl _ hlt, hx⟩
    · exact Or.inr hx
    · exact Or.inl ⟨fun he => by rw [he] at hlt; exact lt_irrefl _ hlt, hx⟩
  · rintro (⟨hne, hx⟩ | hx)
    · rcases lt_trichotomy (k x.1) (k p) with hlt | heq | hlt
      · exact Or.inl (Or.inl ⟨hx, hlt⟩)
      · exact absurd (hk heq) hne
      · exact Or.inr ⟨hx, hlt⟩
    · exact Or.inl (Or.inr hx)

theorem Sorted.put (h : Sorted k l) : Sorted k (put k p v l) := by
  have hnew : ∀ x ∈ (v.map fun v => (p, v)).toList, x.1 = p := by
    cases v <;> simp
  refine Sorted.append_iff.mpr ⟨Sorted.append_iff.mpr ⟨?_, ?_, ?_⟩, ?_, ?_⟩
  · exact List.Pairwise.sublist List.filter_sublist h
  · cases v with
    | none => exact List.Pairwise.nil
    | some v => exact List.pairwise_singleton _ _
  · intro x hx y hy
    rw [hnew y hy]
    exact of_decide_eq_true (List.mem_filter.mp hx).2
  · exact List.Pairwise.sublist List.filter_sublist h
  · intro x hx y hy
    have hlt : k p < k y.1 := of_decide_eq_true (List.mem_filter.mp hy).2
    rcases List.mem_append.mp hx with hx | hx
    · exact lt_trans (of_decide_eq_true (List.mem_filter.mp hx).2) hlt
    · rw [hnew x hx]
      exact hlt

/-- The point is absent, and its place is known. -/
theorem put_append (h₁ : ∀ x ∈ l₁, k x.1 < k p) (h₂ : ∀ x ∈ l₂, k p < k x.1) :
    put k p v (l₁ ++ l₂) = l₁ ++ (v.map fun v => (p, v)).toList ++ l₂ := by
  have hleft : (l₁ ++ l₂).filter (fun x => decide (k x.1 < k p)) = l₁ := by
    rw [List.filter_append, List.filter_eq_self.mpr fun x hx => decide_eq_true (h₁ x hx),
      List.filter_eq_nil_iff.mpr fun x hx => by simpa using le_of_lt (h₂ x hx), List.append_nil]
  have hright : (l₁ ++ l₂).filter (fun x => decide (k p < k x.1)) = l₂ := by
    rw [List.filter_append, List.filter_eq_nil_iff.mpr fun x hx => by simpa using le_of_lt (h₁ x hx),
      List.filter_eq_self.mpr fun x hx => decide_eq_true (h₂ x hx), List.nil_append]
  rw [put, hleft, hright]

/-- The point is present, and its place is known. -/
theorem put_append_cons {w : β} (h₁ : ∀ x ∈ l₁, k x.1 < k p) (h₂ : ∀ x ∈ l₂, k p < k x.1) :
    put k p v (l₁ ++ (p, w) :: l₂) = l₁ ++ (v.map fun v => (p, v)).toList ++ l₂ := by
  rw [← put_append h₁ h₂]
  unfold put
  simp

/-! ## Points -/

section Points
variable [DecidableEq α]

/-- The points with an entry. -/
def points (l : List (α × β)) : Finset α := (l.map Prod.fst).toFinset

theorem mem_points : p ∈ points l ↔ ∃ v, (p, v) ∈ l := by
  simp [points]

theorem Sorted.card_points (h : Sorted k l) : (points l).card = l.length := by
  have hnodup : (l.map Prod.fst).Nodup := by
    rw [List.nodup_iff_pairwise_ne, List.pairwise_map]
    exact List.Pairwise.imp (fun hlt heq => by rw [heq] at hlt; exact lt_irrefl _ hlt) h
  rw [points, List.toFinset_card_of_nodup hnodup, List.length_map]

theorem points_put (hk : Function.Injective k) :
    points (put k p v l) = if v.isSome then insert p (points l) else (points l).erase p := by
  ext q
  rw [mem_points]
  cases v with
  | none => simp [mem_put hk, mem_points]
  | some v =>
    by_cases hq : q = p
    · simp [mem_put hk, hq]
    · simp [mem_put hk, mem_points, hq]

end Points

/-! ## Lists of a map -/

theorem Lists.put [DecidableEq α] (hk : Function.Injective k) (h : Lists k m l) :
    Lists k (Function.update m p v) (put k p v l) := by
  refine ⟨h.sorted.put, fun q w => ?_⟩
  rw [mem_put hk]
  by_cases hq : q = p
  · simp [hq]
  · simp [hq, h.mem]

theorem lists_lookup [DecidableEq α] (h : Sorted k l) : Lists k (fun p => l.lookup p) l := by
  refine ⟨h, fun p v => ?_⟩
  induction l with
  | nil => simp
  | cons x l ih =>
    obtain ⟨hx, hl⟩ := List.pairwise_cons.mp h
    rcases x with ⟨q, w⟩
    rw [List.mem_cons, ih hl, List.lookup_cons]
    by_cases hp : p = q
    · subst hp
      have hnone : l.lookup p ≠ some v := fun hv => lt_irrefl _ (hx (p, v) ((ih hl).mpr hv))
      simp [hnone, eq_comm]
    · simp [hp, beq_eq_false_iff_ne.mpr hp]

/-- **Prefixes of a map.** -/
theorem best_iff (hfull : Lists k m full) (h : Sorted k l) : Best k m l ↔
    (∀ x ∈ l, m x.1 = some x.2) ∧ ∀ p v, m p = some v → (p, v) ∉ l → ∀ x ∈ l, k x.1 < k p := by
  constructor
  · rintro ⟨full, n, hfull, rfl⟩
    refine ⟨fun x hx => (hfull.mem x.1 x.2).mp (List.mem_of_mem_take hx), fun p v hp hnot x hx => ?_⟩
    have hmem : (p, v) ∈ full.take n ++ full.drop n := by
      rw [List.take_append_drop]
      exact (hfull.mem p v).mpr hp
    have hsorted : Sorted k (full.take n ++ full.drop n) := by
      rw [List.take_append_drop]
      exact hfull.sorted
    exact (Sorted.append_iff.mp hsorted).2.2 x hx (p, v) ((List.mem_append.mp hmem).resolve_left hnot)
  · rintro ⟨hsub, hbehind⟩
    refine ⟨full, l.length, hfull, h.take_length hfull.sorted (fun x hx => (hfull.mem x.1 x.2).mpr (hsub x hx)) ?_⟩
    intro y hy hyl
    exact hbehind y.1 y.2 ((hfull.mem y.1 y.2).mp hy) hyl

end SortedMap
