import MikoV2.DataLayer.Holes
import MikoV2.DataLayer.TrimLoops
import Mathlib.Data.Nat.Cast.Order.Ring

/-!
# The slice assignments of a batch

Inserting and deleting a level moves the cells behind it by a slice assignment, and the arrays end at `MAX_BUFFER`.

* `slices` : the lengths of both sides of the assignment that a diff needs;
* `Applied` : a diff goes into a side as it stands; `applied_iff` : when there is room for its price;
* `EachApplied` : every diff of the second pass does; `eachApplied_iff` : side by side;
* `pricesAfter` : the prices of a side after a diff, `FewPrices` : they are never more than the capacity;
* `noOverrun_iff` : the batches whose second pass stays inside the arrays.
-/

namespace MikoV2.DataLayer
open SortedMap Loop

variable {Msg : Type} {name : SideName} {s s' : Side} {d : Diff}

/-- The length of `a[lo:hi]`: numpy cuts it at the end of the array. -/
def sliceLen (lo hi : ℕ) : ℕ := min hi MAX_BUFFER - min lo MAX_BUFFER

/-- The lengths of the target and of the source of the slice assignments that a diff needs, if it needs them. -/
def slices (name : SideName) (s : Side) (d : Diff) : Option (ℕ × ℕ) :=
  let (idx, found) := find name s d.price
  if found then
    if d.qty = 0 ∧ idx < s.len - 1 then some (sliceLen idx (s.len - 1), sliceLen (idx + 1) s.len) else none
  else if d.qty ≠ 0 ∧ idx < MAX_BUFFER ∧ idx < s.len then
    some (sliceLen (idx + 1) (s.len + 1), sliceLen idx s.len)
  else none

/-- A diff takes a side to `s'`: its slices fit, the side stays inside the arrays, and the price has its quantity. -/
structure Applied (name : SideName) (s : Side) (d : Diff) (s' : Side) : Prop where
  slices : ∀ target source, slices name s d = some (target, source) → target = source
  returns : applyLevel name s d.price d.qty = some s'
  inside : s'.len ≤ MAX_BUFFER
  complete : (levels s').lookup d.price = quantity d.qty

/-- The second pass applies every diff to the side that is there when it comes to it. -/
def EachApplied : List Diff → L2Book Msg → Prop
  | [], _ => True
  | d :: diffs, b => ∃ s, Applied d.side (b.side d.side) d s ∧ EachApplied diffs (b.setSide d.side s)

/-- A batch of the book's epoch is applied completely, inside the arrays. -/
def NoOverrun (b : L2Book Msg) (diffs : List Diff) : Prop :=
  (∃ bids asks, Ends (roomRound (batchNew .bid diffs b.bids)) b.bids bids ∧
    Ends (roomRound (batchNew .ask diffs b.asks)) b.asks asks ∧ EachApplied diffs { b with bids, asks }) ∧
    ∃ b', applyBatch b diffs b.seqEpoch = .returned true b'

/-- The prices of a side after a diff. -/
def pricesAfter (prices : Finset ℚ) (d : Diff) : Finset ℚ :=
  if d.qty = 0 then prices.erase d.price else insert d.price prices

/-- From the levels that are kept, the diffs of a side never need more prices than the arrays have cells. -/
def FewPrices (name : SideName) (diffs : List Diff) (s : Side) : Prop :=
  ∀ pre, pre <+: ofSide name diffs →
    (pre.foldl pricesAfter (points ((levels s).take (kept (batchNew name diffs s) s.len)))).card ≤ MAX_BUFFER

/-! ## One diff -/

theorem pricesAfter_eq (prices : Finset ℚ) (d : Diff) : pricesAfter prices d =
    if (quantity d.qty).isSome then insert d.price prices else prices.erase d.price := by
  unfold pricesAfter quantity
  by_cases hq : d.qty = 0
  · simp [hq]
  · simp [hq]

theorem points_put_quantity (l : List (ℚ × ℚ)) :
    points (put (sortKey name) d.price (quantity d.qty) l) = pricesAfter (points l) d := by
  rw [points_put (sortKey_injective name), pricesAfter_eq]

/-- A found price is a price of the side. -/
theorem find_mem (hsorted : SortedSide name s) {price : ℚ} :
    (find name s price).2 = true ↔ price ∈ points (levels s) := by
  constructor
  · intro hfound
    obtain ⟨hdrop, -⟩ := drop_found hsorted hfound
    refine mem_points.mpr ⟨s.qty (find name s price).1, List.mem_of_mem_drop (i := (find name s price).1) ?_⟩
    rw [hdrop]
    exact List.mem_cons_self
  · intro hprice
    obtain ⟨q, hq⟩ := mem_points.mp hprice
    by_contra hnot
    rw [← List.take_append_drop (find name s price).1 (levels s)] at hq
    rcases List.mem_append.mp hq with hq | hq
    · exact lt_irrefl _ (take_find hsorted price _ hq)
    · exact lt_irrefl _ (drop_find hsorted (Bool.eq_false_iff.mpr hnot) _ hq)

/-- With room for one more level, nothing is cut. -/
theorem applyLevel_put (hsorted : SortedSide name s) (hfits : s.len ≤ MAX_BUFFER)
    (hroom : (pricesAfter (points (levels s)) d).card ≤ MAX_BUFFER)
    (happ : applyLevel name s d.price d.qty = some s') :
    levels s' = put (sortKey name) d.price (quantity d.qty) (levels s) := by
  rw [applyLevel_levels hsorted hfits happ, List.take_of_length_le]
  rwa [← Sorted.card_points (Sorted.put hsorted), points_put_quantity]

/-- The price of a diff, on a side that the diff has gone into. -/
theorem lookup_put (hsorted : SortedSide name s) :
    (put (sortKey name) d.price (quantity d.qty) (levels s)).lookup d.price = quantity d.qty := by
  have hput := (lists_lookup hsorted).put (sortKey_injective name) (p := d.price) (v := quantity d.qty)
  have hlookup := lists_lookup hput.sorted
  refine Option.ext fun q => ?_
  rw [← hlookup.mem, hput.mem, Function.update_self]

/-- A full side has no cell for a new price: its slices do not fit, or it is passed over. -/
theorem not_applied_full (hsorted : SortedSide name s) (hlen : s.len = MAX_BUFFER)
    (hnew : d.price ∉ points (levels s)) (hqty : d.qty ≠ 0) : ¬ Applied name s d s' := by
  intro h
  have hfound : (find name s d.price).2 = false := Bool.eq_false_iff.mpr fun hf => hnew ((find_mem hsorted).mp hf)
  have hidx := find_le name s d.price
  by_cases hlast : (find name s d.price).1 < s.len
  · have hslices : slices name s d = some (sliceLen ((find name s d.price).1 + 1) (s.len + 1),
        sliceLen (find name s d.price).1 s.len) := by
      unfold slices
      simp only [hfound, Bool.false_eq_true, if_false]
      rw [if_pos ⟨hqty, by omega, hlast⟩]
    have heq := h.slices _ _ hslices
    unfold sliceLen at heq
    omega
  · have hreturns := h.returns
    have hcap : ¬ (find name s d.price).1 < MAX_BUFFER := by omega
    unfold applyLevel at hreturns
    simp only [hfound, Bool.false_eq_true, if_false] at hreturns
    rw [if_neg hqty, if_neg hcap] at hreturns
    cases hreturns
    have hquantity : (levels s).lookup d.price = some d.qty := h.complete.trans (if_neg hqty)
    exact hnew (mem_points.mpr ⟨d.qty, ((lists_lookup hsorted).mem _ _).mpr hquantity⟩)

/-- The slices of a diff fit where its price finds room. -/
theorem slices_fit (hsorted : SortedSide name s) (hfits : s.len ≤ MAX_BUFFER)
    (hroom : d.qty ≠ 0 → d.price ∉ points (levels s) → s.len < MAX_BUFFER) :
    ∀ target source, slices name s d = some (target, source) → target = source := by
  intro target source h
  have hidx := find_le name s d.price
  unfold slices at h
  by_cases hfound : (find name s d.price).2 = true
  · simp only [hfound, if_true] at h
    split at h
    · cases h
      unfold sliceLen
      omega
    · cases h
  · simp only [hfound, Bool.false_eq_true, if_false] at h
    split at h
    · rename_i hnew
      have hlt := hroom hnew.1 fun hprice => hfound ((find_mem hsorted).mpr hprice)
      cases h
      unfold sliceLen
      omega
    · cases h

/-- Without room for a new price the prices become too many. -/
theorem card_pricesAfter_le (hsorted : SortedSide name s) (hfits : s.len ≤ MAX_BUFFER) :
    (pricesAfter (points (levels s)) d).card ≤ MAX_BUFFER ↔
      (d.qty ≠ 0 → d.price ∉ points (levels s) → s.len < MAX_BUFFER) := by
  have hcard : (points (levels s)).card = s.len := by rw [Sorted.card_points hsorted, length_levels]
  unfold pricesAfter
  by_cases hq : d.qty = 0
  · rw [if_pos hq]
    have hle := Finset.card_erase_le (s := points (levels s)) (a := d.price)
    exact iff_of_true (by omega) fun hne => absurd hq hne
  · rw [if_neg hq]
    by_cases hp : d.price ∈ points (levels s)
    · rw [Finset.insert_eq_of_mem hp]
      exact iff_of_true (by omega) fun _ hnot => absurd hp hnot
    · rw [Finset.card_insert_of_notMem hp, hcard]
      exact ⟨fun h _ _ => h, fun h => h hq hp⟩

/-- **One diff** goes into a side exactly when its prices have room. -/
theorem applied_iff (hsorted : SortedSide name s) (hfits : s.len ≤ MAX_BUFFER) :
    (∃ s', Applied name s d s') ↔ (pricesAfter (points (levels s)) d).card ≤ MAX_BUFFER := by
  constructor
  · rintro ⟨s', h⟩
    rw [card_pricesAfter_le hsorted hfits]
    intro hqty hnew
    by_contra hfull
    exact not_applied_full hsorted (by omega) hnew hqty h
  · intro hcard
    have hroom := (card_pricesAfter_le hsorted hfits).mp hcard
    have hreturns : ∃ s', applyLevel name s d.price d.qty = some s' := by
      by_cases hlt : s.len < MAX_BUFFER
      · obtain ⟨s', happ, -⟩ := applyLevel_of_lt name d.price d.qty hlt
        exact ⟨s', happ⟩
      · -- a full side takes what is no new price
        unfold applyLevel
        dsimp only
        by_cases hfound : (find name s d.price).2 = true
        · rw [if_pos hfound]
          split
          · exact ⟨_, rfl⟩
          · exact ⟨_, rfl⟩
        · have hzero : d.qty = 0 := by
            by_contra hqty
            exact hlt (hroom hqty fun hprice => hfound ((find_mem hsorted).mpr hprice))
          rw [if_neg hfound, if_pos hzero]
          exact ⟨s, rfl⟩
    obtain ⟨s', happ⟩ := hreturns
    refine ⟨s', slices_fit hsorted hfits hroom, happ, (applyLevel_sorted hsorted hfits happ).2, ?_⟩
    rw [applyLevel_put hsorted hfits hcard happ, lookup_put hsorted]

/-- The side after a diff that goes into it. -/
theorem Applied.levels_eq (h : Applied name s d s') (hsorted : SortedSide name s) (hfits : s.len ≤ MAX_BUFFER) :
    levels s' = put (sortKey name) d.price (quantity d.qty) (levels s) ∧ SortedSide name s' ∧
      points (levels s') = pricesAfter (points (levels s)) d := by
  have hput := applyLevel_put hsorted hfits ((applied_iff hsorted hfits).mp ⟨s', h⟩) h.returns
  exact ⟨hput, (applyLevel_sorted hsorted hfits h.returns).1, by rw [hput, points_put_quantity]⟩

/-! ## A side -/

/-- The diffs of a side go into it, one after the other. -/
def SideApplied (name : SideName) : List Diff → Side → Prop
  | [], _ => True
  | d :: diffs, s => ∃ s', Applied name s d s' ∧ SideApplied name diffs s'

/-- **A side** takes its diffs exactly when its prices have room throughout. -/
theorem sideApplied_iff : ∀ (diffs : List Diff) {s : Side}, SortedSide name s → s.len ≤ MAX_BUFFER →
    (SideApplied name diffs s ↔
      ∀ pre, pre <+: diffs → (pre.foldl pricesAfter (points (levels s))).card ≤ MAX_BUFFER) := by
  intro diffs
  induction diffs with
  | nil =>
    intro s hsorted hfits
    refine iff_of_true trivial fun pre hpre => ?_
    rw [List.prefix_nil.mp hpre, List.foldl_nil, Sorted.card_points hsorted, length_levels]
    exact hfits
  | cons d diffs ih =>
    intro s hsorted hfits
    constructor
    · rintro ⟨s', happ, hrest⟩ pre hpre
      obtain ⟨-, hsorted', hpoints⟩ := happ.levels_eq hsorted hfits
      rcases List.prefix_cons_iff.mp hpre with rfl | ⟨pre, rfl, htail⟩
      · rw [List.foldl_nil, Sorted.card_points hsorted, length_levels]
        exact hfits
      · rw [List.foldl_cons, ← hpoints]
        exact (ih hsorted' happ.inside).mp hrest pre htail
    · intro h
      obtain ⟨s', happ⟩ := (applied_iff hsorted hfits).mpr (h [d] (by simp))
      obtain ⟨-, hsorted', hpoints⟩ := happ.levels_eq hsorted hfits
      refine ⟨s', happ, (ih hsorted' happ.inside).mpr fun pre hpre => ?_⟩
      rw [hpoints]
      exact h (d :: pre) (List.cons_prefix_cons.mpr ⟨rfl, hpre⟩)

/-! ## A batch -/

/-- The second pass, side by side. -/
theorem eachApplied_iff : ∀ (diffs : List Diff) (b : L2Book Msg),
    EachApplied diffs b ↔ ∀ name, SideApplied name (ofSide name diffs) (b.side name) := by
  intro diffs
  induction diffs with
  | nil => exact fun b => iff_of_true trivial fun name => trivial
  | cons d diffs ih =>
    intro b
    have hown : ofSide d.side (d :: diffs) = d :: ofSide d.side diffs := List.filter_cons_of_pos (by simp)
    have hother : ∀ {name}, name ≠ d.side → ofSide name (d :: diffs) = ofSide name diffs := fun hne =>
      List.filter_cons_of_neg (by simpa using Ne.symm hne)
    constructor
    · rintro ⟨s, happ, hrest⟩ name
      have hside := (ih _).mp hrest name
      by_cases hne : name = d.side
      · subst hne
        rw [setSide_same] at hside
        rw [hown]
        exact ⟨s, happ, hside⟩
      · rw [setSide_other _ _ hne] at hside
        rw [hother hne]
        exact hside
    · intro h
      have hd := h d.side
      rw [hown] at hd
      obtain ⟨s, happ, hrest⟩ := hd
      refine ⟨s, happ, (ih _).mpr fun name => ?_⟩
      by_cases hne : name = d.side
      · subst hne
        rw [setSide_same]
        exact hrest
      · rw [setSide_other _ _ hne, ← hother hne]
        exact h name

/-- A second pass that applies every diff goes through. -/
theorem EachApplied.returns : ∀ {diffs : List Diff} {b : L2Book Msg}, EachApplied diffs b →
    (applyDiffs diffs b).1 = true := by
  intro diffs
  induction diffs with
  | nil => exact fun _ => rfl
  | cons d diffs ih =>
    rintro b ⟨s, happ, hrest⟩
    unfold applyDiffs
    rw [happ.returns]
    exact ih hrest

/-- What the trim leaves of a sorted side is sorted, and inside the arrays. -/
theorem sorted_kept {new : ℕ} (hsorted : SortedSide name s) (hfits : s.len ≤ MAX_BUFFER)
    (h : Ends (roomRound new) s s') :
    SortedSide name s' ∧ s'.len ≤ MAX_BUFFER ∧ points (levels s') = points ((levels s).take (kept new s.len)) := by
  have hlevels := roomLoop_levels (ends_roomRound.mp h)
  refine ⟨?_, ?_, by rw [hlevels]⟩
  · unfold SortedSide
    rw [hlevels]
    exact Sorted.take hsorted _
  · rw [← length_levels, hlevels, List.length_take, length_levels]
    exact le_trans (min_le_right _ _) hfits

/-- The second pass on the sides that the trim leaves. -/
theorem eachApplied_trimmed {b : L2Book Msg} {diffs : List Diff} {bids asks : Side}
    (hsorted : ∀ name, SortedSide name (b.side name)) (hfits : ∀ name, (b.side name).len ≤ MAX_BUFFER)
    (hbids : Ends (roomRound (batchNew .bid diffs b.bids)) b.bids bids)
    (hasks : Ends (roomRound (batchNew .ask diffs b.asks)) b.asks asks) :
    EachApplied diffs { b with bids, asks } ↔ ∀ name, FewPrices name diffs (b.side name) := by
  rw [eachApplied_iff]
  refine forall_congr' fun name => ?_
  cases name with
  | bid =>
    obtain ⟨hsorted', hfits', hpoints⟩ := sorted_kept (hsorted .bid) (hfits .bid) hbids
    show SideApplied .bid (ofSide .bid diffs) bids ↔ _
    rw [sideApplied_iff _ hsorted' hfits', hpoints]
    exact Iff.rfl
  | ask =>
    obtain ⟨hsorted', hfits', hpoints⟩ := sorted_kept (hsorted .ask) (hfits .ask) hasks
    show SideApplied .ask (ofSide .ask diffs) asks ↔ _
    rw [sideApplied_iff _ hsorted' hfits', hpoints]
    exact Iff.rfl

/-- A batch that is applied completely had room for its prices. -/
theorem NoOverrun.fewPrices {b : L2Book Msg} {diffs : List Diff} (h : NoOverrun b diffs)
    (hsorted : ∀ name, SortedSide name (b.side name)) (hfits : ∀ name, (b.side name).len ≤ MAX_BUFFER) :
    ∀ name, FewPrices name diffs (b.side name) := by
  obtain ⟨⟨bids, asks, hbids, hasks, heach⟩, -⟩ := h
  exact (eachApplied_trimmed hsorted hfits hbids hasks).mp heach

/-- **Overruns.** A batch whose trim loops exit is applied completely, inside the arrays, exactly when its diffs never
need more prices than the arrays have cells. -/
theorem noOverrun_iff {b : L2Book Msg} {diffs : List Diff} (hsorted : ∀ name, SortedSide name (b.side name))
    (hfits : ∀ name, (b.side name).len ≤ MAX_BUFFER)
    (hexits : ∀ name, Exits (roomRound (batchNew name diffs (b.side name))) (b.side name)) :
    NoOverrun b diffs ↔ ∀ name, FewPrices name diffs (b.side name) := by
  refine ⟨fun h => h.fewPrices hsorted hfits, fun hfew => ?_⟩
  obtain ⟨bids, hbids⟩ := hexits .bid
  obtain ⟨asks, hasks⟩ := hexits .ask
  have heach := (eachApplied_trimmed hsorted hfits hbids hasks).mpr hfew
  refine ⟨⟨bids, asks, hbids, hasks, heach⟩, applyBatch_returned_iff.mpr ⟨rfl, bids, asks, ?_, ?_, heach.returns⟩⟩
  · exact ends_roomRound.mp hbids
  · exact ends_roomRound.mp hasks

/-- A batch with fewer diffs than the arrays have cells. -/
theorem exits_of_length_lt {diffs : List Diff} (h : diffs.length < MAX_BUFFER) :
    Exits (roomRound (batchNew name diffs s)) s :=
  roomRound_exits_iff.mpr (lt_of_le_of_lt List.countP_le_length h)

/-- A batch on the full book that changes the quantity of its last level. -/
theorem noOverrun_iff_fullBook : NoOverrun fullBook [⟨.ask, 5000, 2⟩] ↔
    ∀ name, FewPrices name [⟨.ask, 5000, 2⟩] (fullBook.side name) :=
  noOverrun_iff fullBook_sorted fullBook_fits fun name => exits_of_length_lt (by decide)

/-! ## A full side -/

/-- `n` levels of the full book, behind the first 4000, get a new quantity, and a better price comes last. -/
def overrunDiffs (n : ℕ) : List Diff :=
  (List.range n).map (fun i => ⟨.ask, (4000 + i : ℕ) + 1, 2⟩) ++ [⟨.ask, 1 / 2, 1⟩]

theorem length_overrunDiffs (n : ℕ) : (overrunDiffs n).length = n + 1 := by simp [overrunDiffs]

theorem ofSide_overrunDiffs (n : ℕ) : ofSide .ask (overrunDiffs n) = overrunDiffs n := by
  refine List.filter_eq_self.mpr fun d hd => ?_
  simp only [overrunDiffs, List.mem_append, List.mem_map, List.mem_singleton] at hd
  rcases hd with ⟨i, -, rfl⟩ | rfl
  · rfl
  · rfl

theorem fullBook_price {i n : ℕ} (hi : i < n) (hn : n ≤ MAX_BUFFER) :
    ((i : ℚ) + 1) ∈ points ((levels (fullBook.side .ask)).take n) := by
  refine mem_points.mpr ⟨1, List.mem_iff_getElem.mpr ⟨i, ?_, ?_⟩⟩
  · rw [List.length_take, length_levels]
    exact lt_min hi (lt_of_lt_of_le hi hn)
  · rw [List.getElem_take, getElem_levels]
    rfl

/-- Only the better price is counted. -/
theorem batchNew_overrun {n : ℕ} (hn : n ≤ 1000) : batchNew .ask (overrunDiffs n) (fullBook.side .ask) ≤ 1 := by
  unfold batchNew overrunDiffs
  rw [List.countP_append, List.countP_eq_zero.mpr, Nat.zero_add]
  · exact List.countP_le_length
  · intro d hd
    obtain ⟨i, hi, rfl⟩ := List.mem_map.mp hd
    have hlt : 4000 + i < MAX_BUFFER := by
      have := List.mem_range.mp hi
      unfold MAX_BUFFER
      omega
    have hprice := fullBook_price hlt (le_refl _)
    rw [List.take_of_length_le (by rw [length_levels]; exact le_refl _)] at hprice
    have hfound := (find_mem (fullBook_sorted .ask)).mpr hprice
    dsimp only
    rw [hfound, Bool.not_true, Bool.and_false]
    exact Bool.false_ne_true

/-- One new level costs a full side a block. -/
theorem kept_full {new : ℕ} (h : new ≤ 1) : kept new MAX_BUFFER = 4000 := by
  unfold kept MAX_BUFFER TRIM_BLOCK
  split
  · omega
  · omega

/-- Diffs that set prices only add theirs. -/
theorem mem_foldl_pricesAfter {p : ℚ} : ∀ (diffs : List Diff) (prices : Finset ℚ), (∀ d ∈ diffs, d.qty ≠ 0) →
    (p ∈ prices ∨ ∃ d ∈ diffs, d.price = p) → p ∈ diffs.foldl pricesAfter prices := by
  intro diffs
  induction diffs with
  | nil => exact fun prices _ hp => hp.resolve_right (by simp)
  | cons d diffs ih =>
    intro prices hset hp
    rw [List.foldl_cons]
    refine ih _ (fun e he => hset e (List.mem_cons_of_mem _ he)) ?_
    rw [pricesAfter, if_neg (hset d List.mem_cons_self), Finset.mem_insert]
    rcases hp with hp | ⟨e, he, rfl⟩
    · exact Or.inl (Or.inr hp)
    · rcases List.mem_cons.mp he with rfl | he
      · exact Or.inl (Or.inl rfl)
      · exact Or.inr ⟨e, he, rfl⟩

/-- The prices that the full book and the diffs need. -/
theorem prices_overrun (n : ℕ) {prices : Finset ℚ} (hkept : ∀ i < 4000, ((i : ℕ) : ℚ) + 1 ∈ prices) :
    insert (1 / 2 : ℚ) ((Finset.range (4000 + n)).image fun i : ℕ => (i : ℚ) + 1) ⊆
      (overrunDiffs n).foldl pricesAfter prices := by
  have hset : ∀ d ∈ overrunDiffs n, d.qty ≠ 0 := by
    intro d hd
    simp only [overrunDiffs, List.mem_append, List.mem_map, List.mem_singleton] at hd
    rcases hd with ⟨i, -, rfl⟩ | rfl
    · show (2 : ℚ) ≠ 0
      decide
    · show (1 : ℚ) ≠ 0
      decide
  intro p hp
  apply mem_foldl_pricesAfter (overrunDiffs n) prices hset
  rcases Finset.mem_insert.mp hp with rfl | hp
  · exact Or.inr ⟨⟨.ask, 1 / 2, 1⟩, by simp [overrunDiffs], rfl⟩
  · obtain ⟨i, hi, rfl⟩ := Finset.mem_image.mp hp
    have hlt := Finset.mem_range.mp hi
    by_cases hkeep : i < 4000
    · exact Or.inl (hkept i hkeep)
    · refine Or.inr ⟨⟨.ask, (4000 + (i - 4000) : ℕ) + 1, 2⟩, ?_, ?_⟩
      · exact List.mem_append_left _ (List.mem_map.mpr ⟨i - 4000, List.mem_range.mpr (by omega), rfl⟩)
      · show (((4000 + (i - 4000) : ℕ) : ℚ) + 1) = (i : ℚ) + 1
        rw [Nat.add_sub_cancel' (by omega)]

/-- The levels that were found are trimmed and need their cells again, and the better price finds none. -/
theorem not_noOverrun_fullBook : ¬ ∀ (b : L2Book Unit) (diffs : List Diff), (∀ name, SortedSide name (b.side name)) →
    (∀ name, (b.side name).len ≤ MAX_BUFFER) →
    (∀ name, Exits (roomRound (batchNew name diffs (b.side name))) (b.side name)) → NoOverrun b diffs := by
  intro h
  have hlength : (overrunDiffs 1000).length < MAX_BUFFER := by
    rw [length_overrunDiffs]
    decide
  have hnoOverrun := h fullBook (overrunDiffs 1000) fullBook_sorted fullBook_fits fun name => exits_of_length_lt hlength
  have hfew := hnoOverrun.fewPrices fullBook_sorted fullBook_fits .ask (overrunDiffs 1000) (by rw [ofSide_overrunDiffs])
  rw [show (fullBook.side .ask).len = MAX_BUFFER from rfl, kept_full (batchNew_overrun (le_refl 1000))] at hfew
  have hnew : (1 / 2 : ℚ) ∉ (Finset.range 5000).image fun i : ℕ => (i : ℚ) + 1 := by
    intro hp
    obtain ⟨i, -, hi⟩ := Finset.mem_image.mp hp
    have hpos : (0 : ℚ) ≤ i := Nat.cast_nonneg i
    have hlt : (1 / 2 : ℚ) < 1 := by decide +kernel
    rw [← hi] at hlt
    exact absurd hlt (not_lt.mpr (le_add_of_nonneg_left hpos))
  have hinj : Function.Injective fun i : ℕ => (i : ℚ) + 1 := fun i j hij => Nat.cast_injective (add_right_cancel hij)
  have hall := prices_overrun 1000 fun i hi => fullBook_price hi (show 4000 ≤ MAX_BUFFER by decide)
  have hcard := le_trans (Finset.card_le_card hall) hfew
  rw [Finset.card_insert_of_notMem hnew, Finset.card_image_of_injective _ hinj, Finset.card_range] at hcard
  unfold MAX_BUFFER at hcard
  omega

end MikoV2.DataLayer
