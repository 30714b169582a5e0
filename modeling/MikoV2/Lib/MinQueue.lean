import Mathlib.Data.List.Sort
import Mathlib.Tactic.Common

/-!
# A queue that hands out a least entry

`MinQueue r` holds its entries in the order `r`, so that the next one out is its head. The order is a field
of the structure: an unsorted queue cannot be built.

* `push`, `pop`, with `push_perm` and `pop_some` : what they do to the entries;
* `ByAge` : of two entries of one class, the older one comes first;
* `ByAge.oldest` : so the next one out is the oldest of its class;
* `ByAge.rekey` : an entry that went out may come back in front of where it was, `ByAge.push` : and a
  newcomer behind all of its class;
* `ClassFifo` : numbered arrivals that leave each once, class by class in order; `arrive`, `leave` : its steps.
-/

/-- Entries sorted by `r`. -/
structure MinQueue {α : Type} (r : α → α → Prop) where
  items : List α
  sorted : items.Pairwise r

namespace MinQueue

variable {α : Type} {r : α → α → Prop}

def empty : MinQueue r := ⟨[], List.Pairwise.nil⟩

@[simp] theorem empty_items : (empty : MinQueue r).items = [] := rfl

/-- The least entry and the queue without it. -/
def pop (q : MinQueue r) : Option (α × MinQueue r) :=
  match q with
  | ⟨[], _⟩ => none
  | ⟨a :: rest, h⟩ => some (a, ⟨rest, h.tail⟩)

theorem pop_none {q : MinQueue r} : q.pop = none ↔ q.items = [] := by
  rcases q with ⟨_ | ⟨a, rest⟩, h⟩ <;> simp [pop]

theorem pop_of_items {q rest : MinQueue r} {a : α} (h : q.items = a :: rest.items) : q.pop = some (a, rest) := by
  rcases q with ⟨_ | ⟨b, tail⟩, hs⟩
  · cases h
  · cases h
    rfl

/-- What goes out was the head, and no entry left comes before it. -/
theorem pop_some {q rest : MinQueue r} {a : α} (h : q.pop = some (a, rest)) :
    q.items = a :: rest.items ∧ ∀ b ∈ rest.items, r a b := by
  rcases q with ⟨_ | ⟨b, tail⟩, hs⟩
  · simp [pop] at h
  · have hparts := Option.some.inj h
    have ha : b = a := congrArg Prod.fst hparts
    have hrest : (⟨tail, hs.tail⟩ : MinQueue r) = rest := congrArg Prod.snd hparts
    subst ha hrest
    exact ⟨rfl, fun c hc => List.rel_of_pairwise_cons hs hc⟩

section Push
variable [DecidableRel r] [Std.Total r] [IsTrans α r]

def push (a : α) (q : MinQueue r) : MinQueue r := ⟨q.items.orderedInsert r a, q.sorted.orderedInsert a q.items⟩

theorem push_perm (a : α) (q : MinQueue r) : (q.push a).items.Perm (a :: q.items) := List.perm_orderedInsert r a q.items

@[simp] theorem mem_push {a b : α} {q : MinQueue r} : b ∈ (q.push a).items ↔ b = a ∨ b ∈ q.items := by
  rw [(push_perm a q).mem_iff, List.mem_cons]

@[simp] theorem length_push (a : α) (q : MinQueue r) : (q.push a).items.length = q.items.length + 1 :=
  (push_perm a q).length_eq

end Push

end MinQueue

/-! ## Classes -/

/-- Of two entries of one class, the older one comes first. -/
def ByAge {α γ : Type} (r : α → α → Prop) (cls : α → γ) (stamp : α → ℕ) (l : List α) : Prop :=
  ∀ a ∈ l, ∀ b ∈ l, cls a = cls b → stamp a < stamp b → r a b

namespace ByAge

variable {α γ : Type} {r : α → α → Prop} {cls : α → γ} {stamp : α → ℕ} {l l' : List α} {a m m' : α}

theorem nil : ByAge r cls stamp [] := by
  intro a ha
  cases ha

theorem subset (h : ByAge r cls stamp l) (hsub : ∀ a ∈ l', a ∈ l) : ByAge r cls stamp l' :=
  fun a ha b hb => h a (hsub a ha) b (hsub b hb)

/-- The classes may be read off differently, as long as they agree on the entries. -/
theorem congr {cls' : α → γ} (h : ByAge r cls stamp l) (hcls : ∀ a ∈ l, cls' a = cls a) :
    ByAge r cls' stamp l := by
  intro a ha b hb hab
  rw [hcls a ha, hcls b hb] at hab
  exact h a ha b hb hab

/-- A newcomer goes behind every entry of its class. -/
theorem push (h : ByAge r cls stamp l) (hnew : ∀ b ∈ l, cls b = cls a → stamp b < stamp a ∧ r b a) :
    ByAge r cls stamp (a :: l) := by
  intro b hb c hc hcls hlt
  rcases List.mem_cons.mp hb with rfl | hbl
  · rcases List.mem_cons.mp hc with rfl | hcl
    · omega
    · have := (hnew c hcl hcls.symm).1
      omega
  · rcases List.mem_cons.mp hc with rfl | hcl
    · exact (hnew b hbl hcls).2
    · exact h b hbl c hcl hcls hlt

/-- The least entry is the oldest of its class. -/
theorem oldest (h : ByAge r cls stamp (m :: l)) (hleast : ∀ b ∈ l, r m b)
    (hanti : ∀ b ∈ l, r m b → r b m → stamp b = stamp m) :
    ∀ b ∈ l, cls b = cls m → stamp m ≤ stamp b := by
  intro b hb hcls
  by_contra hlt
  have hbm : r b m := h b (List.mem_cons_of_mem m hb) m List.mem_cons_self hcls (by omega)
  have := hanti b hb (hleast b hb) hbm
  omega

/-- The least entry may come back in front of where it was. -/
theorem rekey [IsTrans α r] (h : ByAge r cls stamp (m :: l)) (hcls : cls m' = cls m) (hstamp : stamp m' = stamp m)
    (hle : r m' m) (holdest : ∀ b ∈ l, cls b = cls m → stamp m ≤ stamp b) :
    ByAge r cls stamp (m' :: l) := by
  intro b hb c hc hbc hlt
  rcases List.mem_cons.mp hb with rfl | hbl
  · rcases List.mem_cons.mp hc with rfl | hcl
    · omega
    · have hmc : r m c :=
        h m List.mem_cons_self c (List.mem_cons_of_mem m hcl) (by rw [← hcls]; exact hbc) (by omega)
      exact IsTrans.trans _ m c hle hmc
  · rcases List.mem_cons.mp hc with rfl | hcl
    · have := holdest b hbl (by rw [hbc, hcls])
      omega
    · exact h b (List.mem_cons_of_mem m hbl) c (List.mem_cons_of_mem m hcl) hbc hlt

end ByAge

/-! ## First in, first out -/

/-- Tickets `0, 1, …, n - 1` were handed out; each is still `inside` or went `out`, and each class went out in
the order of its tickets. -/
structure ClassFifo {γ : Type} [DecidableEq γ] (cls : ℕ → γ) (n : ℕ) (inside out : List ℕ) : Prop where
  parts : (inside ++ out).Perm (List.range n)
  first : ∀ c, out.filter (cls · = c) <+: (List.range n).filter (cls · = c)

namespace ClassFifo

variable {γ : Type} [DecidableEq γ] {cls cls' : ℕ → γ} {n m : ℕ} {inside inside' out : List ℕ}

theorem nil : ClassFifo cls 0 [] [] := ⟨List.Perm.nil, fun _ => List.prefix_refl _⟩

theorem perm (h : ClassFifo cls n inside out) (hp : inside'.Perm inside) : ClassFifo cls n inside' out :=
  ⟨(hp.append_right out).trans h.parts, h.first⟩

theorem inside_lt (h : ClassFifo cls n inside out) (hm : m ∈ inside) : m < n :=
  List.mem_range.mp (h.parts.subset (List.mem_append_left out hm))

theorem out_lt (h : ClassFifo cls n inside out) (hm : m ∈ out) : m < n :=
  List.mem_range.mp (h.parts.subset (List.mem_append_right inside hm))

theorem nodup (h : ClassFifo cls n inside out) : (inside ++ out).Nodup := h.parts.nodup_iff.mpr List.nodup_range

/-- A newcomer takes the next ticket. -/
theorem arrive (h : ClassFifo cls n inside out) (hcls : ∀ s < n, cls' s = cls s) :
    ClassFifo cls' (n + 1) (n :: inside) out := by
  constructor
  · rw [List.range_succ, List.cons_append]
    exact (h.parts.cons n).trans (List.perm_append_singleton n (List.range n)).symm
  · intro c
    have hout : out.filter (cls' · = c) = out.filter (cls · = c) :=
      List.filter_congr fun s hs => by rw [hcls s (h.out_lt hs)]
    have hrange : (List.range n).filter (cls' · = c) = (List.range n).filter (cls · = c) :=
      List.filter_congr fun s hs => by rw [hcls s (List.mem_range.mp hs)]
    rw [List.range_succ, List.filter_append, hout, hrange]
    exact (h.first c).trans (List.prefix_append _ _)

/-- The oldest of its class goes out. -/
theorem leave (h : ClassFifo cls n (m :: inside) out) (holdest : ∀ s ∈ inside, cls s = cls m → m ≤ s) :
    ClassFifo cls n inside (out ++ [m]) := by
  have hparts : (inside ++ (out ++ [m])).Perm (List.range n) := by
    rw [← List.append_assoc]
    exact (List.perm_append_singleton m (inside ++ out)).trans h.parts
  refine ⟨hparts, fun c => ?_⟩
  obtain ⟨rest, hrest⟩ := h.first c
  rw [List.filter_append]
  by_cases hc : cls m = c
  swap
  · have hnone : [m].filter (cls · = c) = [] := by simp [hc]
    rw [hnone, List.append_nil]
    exact ⟨rest, hrest⟩
  have hone : [m].filter (cls · = c) = [m] := by simp [hc]
  rw [hone]
  have hsorted : (out.filter (cls · = c) ++ rest).Pairwise (· < ·) := by
    rw [hrest]
    exact List.pairwise_lt_range.sublist List.filter_sublist
  have hnot : ∀ s ∈ rest, s ∉ out := by
    intro s hs hso
    have hmem : s ∈ (List.range n).filter (cls · = c) := hrest ▸ List.mem_append_right _ hs
    have hso' : s ∈ out.filter (cls · = c) := List.mem_filter.mpr ⟨hso, (List.mem_filter.mp hmem).2⟩
    exact absurd ((List.pairwise_append.mp hsorted).2.2 s hso' s hs) (lt_irrefl s)
  have hm : m ∈ rest := by
    have hmem : m ∈ (List.range n).filter (cls · = c) :=
      List.mem_filter.mpr ⟨List.mem_range.mpr (h.inside_lt List.mem_cons_self), by simp [hc]⟩
    rw [← hrest] at hmem
    refine (List.mem_append.mp hmem).resolve_left fun hmo => ?_
    have hnd := h.nodup
    rw [List.cons_append, List.nodup_cons] at hnd
    exact hnd.1 (List.mem_append_right _ (List.mem_filter.mp hmo).1)
  cases rest with
  | nil => cases hm
  | cons s rest =>
    -- the head of what is left of the class is inside, so it is no older than `m`
    have hs : s ∈ m :: inside := by
      have hmem : s ∈ (List.range n).filter (cls · = c) := hrest ▸ List.mem_append_right _ List.mem_cons_self
      have hall := h.parts.symm.subset (List.mem_filter.mp hmem).1
      exact (List.mem_append.mp hall).resolve_right (hnot s List.mem_cons_self)
    have hcls : cls s = c := by
      have hmem : s ∈ (List.range n).filter (cls · = c) := hrest ▸ List.mem_append_right _ List.mem_cons_self
      simpa using (List.mem_filter.mp hmem).2
    have hms : m ≤ s := by
      rcases List.mem_cons.mp hs with rfl | hin
      · exact le_refl _
      · exact holdest s hin (hcls.trans hc.symm)
    have hsm : s ≤ m := by
      rcases List.mem_cons.mp hm with rfl | hin
      · exact le_refl _
      · exact (List.rel_of_pairwise_cons (List.pairwise_append.mp hsorted).2.1 hin).le
    have heq : s = m := by omega
    subst heq
    exact ⟨rest, by rw [← hrest, List.append_assoc, List.singleton_append]⟩

end ClassFifo
