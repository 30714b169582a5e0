import Mathlib.Algebra.BigOperators.Group.List.Basic
import Mathlib.Data.List.Nodup
import Mathlib.Data.Prod.Basic
import Mathlib.Tactic.Common

/-!
# Insertion-ordered dictionaries

`Dict K V` is a Python `dict`: the items in insertion order, with distinct keys. Assigning to a key that
is present replaces the value in place, to an absent key appends; deleting keeps the order of the rest.

* `get?_set`, `get?_erase` : reading after an update;
* `mem_items` : the items are exactly what `get?` finds;
* `items_perm_erase` : what deleting a key takes away; `foldl_add` : a sum that a loop accumulates;
* `map_items_set_of_eq` : an update in place that a projection does not see;
* `mapWithKey`, `mapValues` : the values through a function, which commutes with every access;
* `items_update_of_keys`, `items_update_of_disjoint`, `mem_items_update` : a loop of assignments over items;
  `get?_setDefaults` : of assignments to the keys that are absent.
-/

namespace Py

/-- `for x in l: acc += f(x)`. -/
theorem foldl_add {α M : Type} [AddMonoid M] (f : α → M) (l : List α) :
    ∀ a, l.foldl (fun acc x => acc + f x) a = a + (l.map f).sum := by
  induction l with
  | nil => exact fun a => (add_zero a).symm
  | cons x l ih =>
    intro a
    rw [List.foldl_cons, ih, List.map_cons, List.sum_cons, add_assoc]

/-- A Python `dict`: items in insertion order, keys distinct. -/
structure Dict (K V : Type) where
  items : List (K × V)
  nodup : (items.map Prod.fst).Nodup

namespace Dict

variable {K V β : Type}

@[ext] theorem ext {d e : Dict K V} (h : d.items = e.items) : d = e := by
  cases d; cases e; cases h; rfl

/-- `{}`. -/
def empty : Dict K V := ⟨[], List.nodup_nil⟩

@[simp] theorem items_empty : (empty : Dict K V).items = [] := rfl

/-- `list(d.keys())`. -/
def keys (d : Dict K V) : List K := d.items.map Prod.fst

/-- `list(d.values())`. -/
def values (d : Dict K V) : List V := d.items.map Prod.snd

theorem nodup_keys (d : Dict K V) : d.keys.Nodup := d.nodup

@[simp] theorem keys_empty : (empty : Dict K V).keys = [] := rfl

section Access
variable [DecidableEq K]

/-- `d.get(k)`. -/
def get? (d : Dict K V) (k : K) : Option V := (d.items.find? fun e => e.1 = k).map Prod.snd

@[simp] theorem get?_empty (k : K) : (empty : Dict K V).get? k = none := rfl

theorem mem_items {d : Dict K V} {k : K} {v : V} : (k, v) ∈ d.items ↔ d.get? k = some v := by
  obtain ⟨l, hl⟩ := d
  simp only [get?]
  induction l with
  | nil => simp
  | cons e l ih =>
    obtain ⟨k', v'⟩ := e
    simp only [List.map_cons, List.nodup_cons, List.mem_map, not_exists, not_and] at hl
    rw [List.find?_cons]
    by_cases hk : k' = k
    · subst hk
      have hnot : (k', v) ∉ l := fun h => hl.1 (k', v) h rfl
      simp [hnot, eq_comm]
    · have hne : (k, v) ≠ (k', v') := fun h => hk (congrArg Prod.fst h).symm
      simp only [hk, decide_false, List.mem_cons, hne, false_or]
      exact ih hl.2

theorem mem_keys {d : Dict K V} {k : K} : k ∈ d.keys ↔ ∃ v, d.get? k = some v := by
  simp only [keys, List.mem_map, Prod.exists, mem_items]
  constructor
  · rintro ⟨a, v, h, rfl⟩
    exact ⟨v, h⟩
  · rintro ⟨v, h⟩
    exact ⟨k, v, h, rfl⟩

theorem get?_eq_none {d : Dict K V} {k : K} : d.get? k = none ↔ k ∉ d.keys := by
  rw [mem_keys, not_exists]
  constructor
  · intro h v hv
    rw [h] at hv
    cases hv
  · intro h
    cases hg : d.get? k with
    | none => rfl
    | some v => exact absurd hg (h v)

/-- The items after `d[k] = v`. -/
def setItems (l : List (K × V)) (k : K) (v : V) : List (K × V) :=
  if k ∈ l.map Prod.fst then l.map fun e => if e.1 = k then (k, v) else e else l ++ [(k, v)]

theorem map_fst_replace (l : List (K × V)) (k : K) (v : V) :
    (l.map fun e => if e.1 = k then (k, v) else e).map Prod.fst = l.map Prod.fst := by
  rw [List.map_map]
  refine List.map_congr_left fun e _ => ?_
  simp only [Function.comp]
  split
  · rename_i h; exact h.symm
  · rfl

theorem nodup_setItems {l : List (K × V)} (hl : (l.map Prod.fst).Nodup) (k : K) (v : V) :
    ((setItems l k v).map Prod.fst).Nodup := by
  unfold setItems
  split
  · rw [map_fst_replace]; exact hl
  · rename_i h
    rw [List.map_append, List.nodup_append]
    refine ⟨hl, by simp, fun a ha b hb => ?_⟩
    simp only [List.map_cons, List.map_nil, List.mem_singleton] at hb
    subst hb
    exact fun hab => h (hab ▸ ha)

/-- `d[k] = v`. -/
def set (d : Dict K V) (k : K) (v : V) : Dict K V := ⟨setItems d.items k v, nodup_setItems d.nodup k v⟩

/-- `del d[k]` (and `d.pop(k, None)`). -/
def erase (d : Dict K V) (k : K) : Dict K V :=
  ⟨d.items.filter fun e => e.1 ≠ k, d.nodup.sublist (List.filter_sublist.map Prod.fst)⟩

@[simp] theorem items_erase (d : Dict K V) (k : K) : (d.erase k).items = d.items.filter fun e => e.1 ≠ k := rfl

theorem items_set_of_mem {d : Dict K V} {k : K} (h : k ∈ d.keys) (v : V) :
    (d.set k v).items = d.items.map fun e => if e.1 = k then (k, v) else e := if_pos h

theorem items_set_of_not_mem {d : Dict K V} {k : K} (h : k ∉ d.keys) (v : V) :
    (d.set k v).items = d.items ++ [(k, v)] := if_neg h

theorem keys_set_of_mem {d : Dict K V} {k : K} (h : k ∈ d.keys) (v : V) : (d.set k v).keys = d.keys := by
  rw [keys, items_set_of_mem h, map_fst_replace]; rfl

theorem keys_set_of_not_mem {d : Dict K V} {k : K} (h : k ∉ d.keys) (v : V) :
    (d.set k v).keys = d.keys ++ [k] := by
  rw [keys, items_set_of_not_mem h, List.map_append]; rfl

theorem mem_keys_set {d : Dict K V} {k k' : K} {v : V} : k' ∈ (d.set k v).keys ↔ k' ∈ d.keys ∨ k' = k := by
  by_cases h : k ∈ d.keys
  · rw [keys_set_of_mem h]
    exact ⟨Or.inl, fun h' => h'.elim id fun e => e ▸ h⟩
  · rw [keys_set_of_not_mem h, List.mem_append, List.mem_singleton]

theorem get?_set (d : Dict K V) (k k' : K) (v : V) :
    (d.set k v).get? k' = if k' = k then some v else d.get? k' := by
  refine Option.ext fun w => ?_
  rw [← mem_items]
  by_cases h : k ∈ d.keys
  · rw [items_set_of_mem h, List.mem_map]
    constructor
    · rintro ⟨⟨a, b⟩, hab, he⟩
      by_cases hak : a = k
      · simp only [hak, if_true, Prod.mk.injEq] at he
        simp [← he.1, ← he.2]
      · simp only [hak, if_false, Prod.mk.injEq] at he
        rw [← he.1, if_neg hak, ← he.2]
        exact mem_items.mp hab
    · intro hw
      split at hw
      · rename_i hkk
        obtain ⟨u, hu⟩ := mem_keys.mp h
        exact ⟨(k, u), mem_items.mpr hu, by simp [hkk, Option.some.inj hw]⟩
      · rename_i hkk
        exact ⟨(k', w), mem_items.mpr hw, by simp [hkk]⟩
  · rw [items_set_of_not_mem h, List.mem_append, List.mem_singleton, mem_items]
    split
    · rename_i hkk
      subst hkk
      rw [get?_eq_none.mpr h]
      simp [eq_comm]
    · rename_i hkk
      simp [hkk]

theorem mem_keys_erase {d : Dict K V} {k k' : K} : k' ∈ (d.erase k).keys ↔ k' ∈ d.keys ∧ k' ≠ k := by
  simp only [keys, erase, List.mem_map, List.mem_filter, decide_eq_true_eq]
  constructor
  · rintro ⟨e, ⟨he, hk⟩, rfl⟩
    exact ⟨⟨e, he, rfl⟩, hk⟩
  · rintro ⟨⟨e, he, rfl⟩, hk⟩
    exact ⟨e, ⟨he, hk⟩, rfl⟩

theorem keys_erase (d : Dict K V) (k : K) : (d.erase k).keys = d.keys.filter fun k' => k' ≠ k := by
  unfold keys
  rw [items_erase, List.filter_map]
  rfl

theorem erase_of_not_mem {d : Dict K V} {k : K} (h : k ∉ d.keys) : d.erase k = d := by
  refine ext (List.filter_eq_self.mpr fun e he => ?_)
  rw [decide_eq_true_eq]
  intro hk
  exact h (hk ▸ List.mem_map_of_mem he)

theorem get?_erase (d : Dict K V) (k k' : K) :
    (d.erase k).get? k' = if k' = k then none else d.get? k' := by
  refine Option.ext fun w => ?_
  rw [← mem_items]
  simp only [erase, List.mem_filter, decide_eq_true_eq, mem_items]
  split
  · rename_i h; simp [h]
  · rename_i h; simp [h]

/-- Dictionaries that answer alike have the same items, up to their order. -/
theorem items_perm {d e : Dict K V} (h : ∀ k, d.get? k = e.get? k) : d.items.Perm e.items := by
  refine (List.perm_ext_iff_of_nodup (List.Nodup.of_map _ d.nodup) (List.Nodup.of_map _ e.nodup)).mpr fun x => ?_
  rw [← Prod.mk.eta (p := x), mem_items, mem_items, h]

/-- A present key's item, and the items without it. -/
theorem items_perm_erase {d : Dict K V} {k : K} {v : V} (h : d.get? k = some v) :
    d.items.Perm ((k, v) :: (d.erase k).items) := by
  have hcons : ((k, v) :: (d.erase k).items).Nodup := by
    refine List.nodup_cons.mpr ⟨fun hmem => ?_, List.Nodup.of_map _ (d.erase k).nodup⟩
    rw [mem_items, get?_erase, if_pos rfl] at hmem
    cases hmem
  refine (List.perm_ext_iff_of_nodup (List.Nodup.of_map _ d.nodup) hcons).mpr fun e => ?_
  obtain ⟨k', v'⟩ := e
  rw [List.mem_cons, mem_items, mem_items, get?_erase]
  by_cases hk : k' = k
  · rw [hk, h, if_pos rfl]
    simp [eq_comm]
  · rw [if_neg hk]
    simp [hk]

/-- An assignment in place that the projection `f` does not see. -/
theorem map_items_set_of_eq {d : Dict K V} {k : K} {u v : V} (f : K × V → β) (h : d.get? k = some u)
    (hf : f (k, v) = f (k, u)) : (d.set k v).items.map f = d.items.map f := by
  rw [items_set_of_mem (mem_keys.mpr ⟨u, h⟩), List.map_map]
  refine List.map_congr_left fun e he => ?_
  simp only [Function.comp]
  split
  · rename_i hk
    obtain ⟨a, b⟩ := e
    have hk : a = k := hk
    subst hk
    rw [hf, Option.some.inj (h.symm.trans (mem_items.mp he))]
  · rfl

/-- `for k, v in l: d[k] = v`. -/
def update (d : Dict K V) (l : List (K × V)) : Dict K V := l.foldl (fun d e => d.set e.1 e.2) d

@[simp] theorem update_nil (d : Dict K V) : d.update [] = d := rfl

theorem update_cons (d : Dict K V) (e : K × V) (l : List (K × V)) :
    d.update (e :: l) = (d.set e.1 e.2).update l := rfl

/-- An item after a loop of assignments was there before or was assigned by it. -/
theorem mem_keys_update : ∀ (l : List (K × V)) (d : Dict K V) {k : K},
    k ∈ (d.update l).keys ↔ k ∈ d.keys ∨ k ∈ l.map Prod.fst
  | [], d, k => by simp
  | e :: l, d, k => by
    rw [update_cons, mem_keys_update l, mem_keys_set, List.map_cons, List.mem_cons, or_assoc]

theorem mem_items_update : ∀ (l : List (K × V)) (d : Dict K V) {e : K × V}, e ∈ (d.update l).items →
    e ∈ d.items ∨ e ∈ l
  | [], _, _, h => Or.inl h
  | x :: l, d, e, h => by
    rw [update_cons] at h
    rcases mem_items_update l _ h with h | h
    · have hget := mem_items.mp h
      rw [get?_set] at hget
      split at hget
      · rename_i hk
        refine Or.inr (List.mem_cons.mpr (Or.inl (Prod.ext hk ?_)))
        exact (Option.some.inj hget).symm
      · exact Or.inl (mem_items.mpr hget)
    · exact Or.inr (List.mem_cons_of_mem _ h)

theorem get?_update_of_not_mem : ∀ (l : List (K × V)) (d : Dict K V) {k : K}, k ∉ l.map Prod.fst →
    (d.update l).get? k = d.get? k
  | [], _, _, _ => rfl
  | x :: l, d, k, h => by
    rw [List.map_cons, List.mem_cons, not_or] at h
    rw [update_cons, get?_update_of_not_mem l _ h.2, get?_set, if_neg h.1]

/-- `for k, v in l: d.setdefault(k, v)`: what is there stays, and of the rest the first. -/
theorem get?_setDefaults (k : K) : ∀ (l : List (K × V)) (d : Dict K V),
    (l.foldl (fun d e => if e.1 ∈ d.keys then d else d.set e.1 e.2) d).get? k =
      (d.get? k).or ((l.find? fun e => e.1 = k).map Prod.snd)
  | [], d => by simp
  | e :: l, d => by
    rw [List.foldl_cons, get?_setDefaults k l, List.find?_cons]
    by_cases hmem : e.1 ∈ d.keys
    · rw [if_pos hmem]
      by_cases hk : e.1 = k
      · obtain ⟨v, hv⟩ := mem_keys.mp hmem
        rw [← hk, hv]
        rfl
      · simp [hk]
    · rw [if_neg hmem, get?_set]
      by_cases hk : e.1 = k
      · have hnone : d.get? k = none := get?_eq_none.mpr (hk ▸ hmem)
        simp [hk, hnone]
      · simp [hk, Ne.symm hk]

/-- A loop that assigns to distinct keys leaves each with its value. -/
theorem get?_update_of_mem : ∀ (l : List (K × V)) (d : Dict K V) {e : K × V}, (l.map Prod.fst).Nodup → e ∈ l →
    (d.update l).get? e.1 = some e.2
  | x :: l, d, e, hn, h => by
    rw [List.map_cons, List.nodup_cons] at hn
    rw [update_cons]
    rcases List.mem_cons.mp h with rfl | h
    · rw [get?_update_of_not_mem l _ hn.1, get?_set, if_pos rfl]
    · exact get?_update_of_mem l _ hn.2 h

/-- Assigning to fresh keys appends the items. -/
theorem items_update_of_disjoint : ∀ (l : List (K × V)) (d : Dict K V), (l.map Prod.fst).Nodup →
    (∀ e ∈ l, e.1 ∉ d.keys) → (d.update l).items = d.items ++ l
  | [], d, _, _ => by simp
  | e :: l, d, hn, hd => by
    have hn' := List.nodup_cons.mp hn
    have he := hd e (by simp)
    rw [update_cons, items_update_of_disjoint l _ hn'.2, items_set_of_not_mem he]
    · simp
    · intro x hx
      rw [keys_set_of_not_mem he, List.mem_append, List.mem_singleton, not_or]
      exact ⟨hd x (by simp [hx]), fun h => hn'.1 (List.mem_map.mpr ⟨x, hx, h⟩)⟩

/-- Assigning to the keys `d` has, in its order, replaces every value: the items left of the loop's
position are already new, those right of it still old. -/
theorem items_update_aux : ∀ (l done rest : List (K × V)) (d : Dict K V), d.items = done ++ rest →
    rest.map Prod.fst = l.map Prod.fst → (d.update l).items = done ++ l
  | [], done, rest, d, hd, hk => by
    have : rest = [] := by simpa using hk
    simp [hd, this]
  | e :: l, done, [], d, _, hk => by simp at hk
  | e :: l, done, r :: rest, d, hd, hk => by
    simp only [List.map_cons, List.cons.injEq] at hk
    have hnd := d.nodup
    rw [hd, List.map_append, List.map_cons, List.nodup_middle, List.nodup_cons, List.mem_append,
      not_or] at hnd
    have hmem : e.1 ∈ d.keys := by
      rw [keys, hd]
      simp [hk.1]
    have hout : ∀ x ∈ done ++ rest, ¬ x.1 = e.1 := by
      intro x hx hxe
      rw [← hk.1] at hxe
      rcases List.mem_append.mp hx with hx | hx
      · exact hnd.1.1 (List.mem_map.mpr ⟨x, hx, hxe⟩)
      · exact hnd.1.2 (List.mem_map.mpr ⟨x, hx, hxe⟩)
    have hfix : ∀ l' : List (K × V), (∀ x ∈ l', x ∈ done ++ rest) →
        (l'.map fun x => if x.1 = e.1 then (e.1, e.2) else x) = l' := by
      intro l' hl'
      conv_rhs => rw [← List.map_id l']
      exact List.map_congr_left fun x hx => if_neg (hout x (hl' x hx))
    rw [update_cons, items_update_aux l (done ++ [e]) rest _ _ hk.2, List.append_assoc]
    · rfl
    · rw [items_set_of_mem hmem, hd, List.map_append, List.map_cons, if_pos hk.1,
        hfix done (by simp +contextual), hfix rest (by simp +contextual), List.append_assoc]
      rfl

theorem items_update_of_keys {d : Dict K V} {l : List (K × V)} (h : d.keys = l.map Prod.fst) :
    (d.update l).items = l :=
  items_update_aux l [] d.items d rfl h

/-- `{k: f(k, v) for k, v in d.items()}`. -/
def mapWithKey {W : Type} (f : K → V → W) (d : Dict K V) : Dict K W where
  items := d.items.map fun e => (e.1, f e.1 e.2)
  nodup := by
    rw [List.map_map]
    exact d.nodup

section MapWithKey
variable {W : Type} (f : K → V → W) (d : Dict K V)

omit [DecidableEq K] in
@[simp] theorem keys_mapWithKey : (d.mapWithKey f).keys = d.keys := by
  unfold keys mapWithKey
  rw [List.map_map]
  rfl

@[simp] theorem get?_mapWithKey (k : K) : (d.mapWithKey f).get? k = (d.get? k).map (f k) := by
  unfold get? mapWithKey
  rw [List.find?_map, Option.map_map, Option.map_map]
  have hfind : (fun e : K × V => decide (e.1 = k)) = (fun e : K × W => decide (e.1 = k)) ∘ fun e => (e.1, f e.1 e.2) := rfl
  rw [← hfind]
  refine Option.map_congr fun e he => ?_
  have hk := List.find?_some he
  rw [decide_eq_true_eq] at hk
  rw [Function.comp_apply, Function.comp_apply, hk]

@[simp] theorem mapWithKey_erase (k : K) : (d.erase k).mapWithKey f = (d.mapWithKey f).erase k := by
  apply ext
  simp only [mapWithKey, items_erase, List.filter_map]
  rfl

@[simp] theorem mapWithKey_set (k : K) (v : V) : (d.set k v).mapWithKey f = (d.mapWithKey f).set k (f k v) := by
  apply ext
  by_cases h : k ∈ d.keys
  · rw [items_set_of_mem ((keys_mapWithKey f d).symm ▸ h)]
    simp only [mapWithKey, items_set_of_mem h, List.map_map]
    refine List.map_congr_left fun e _ => ?_
    simp only [Function.comp]
    split <;> rfl
  · rw [items_set_of_not_mem ((keys_mapWithKey f d).symm ▸ h)]
    simp only [mapWithKey, items_set_of_not_mem h, List.map_append, List.map_cons, List.map_nil]

end MapWithKey

/-- `{k: f(v) for k, v in d.items()}`. -/
def mapValues {W : Type} (f : V → W) (d : Dict K V) : Dict K W where
  items := d.items.map fun e => (e.1, f e.2)
  nodup := by
    rw [List.map_map]
    exact d.nodup

section MapValues
variable {W : Type} (f : V → W) (d : Dict K V)

omit [DecidableEq K] in
@[simp] theorem keys_mapValues : (d.mapValues f).keys = d.keys := keys_mapWithKey (fun _ => f) d

@[simp] theorem get?_mapValues (k : K) : (d.mapValues f).get? k = (d.get? k).map f :=
  get?_mapWithKey (fun _ => f) d k

@[simp] theorem mapValues_erase (k : K) : (d.erase k).mapValues f = (d.mapValues f).erase k :=
  mapWithKey_erase (fun _ => f) d k

@[simp] theorem mapValues_set (k : K) (v : V) : (d.set k v).mapValues f = (d.mapValues f).set k (f v) :=
  mapWithKey_set (fun _ => f) d k v

end MapValues

end Access

end Dict

end Py
