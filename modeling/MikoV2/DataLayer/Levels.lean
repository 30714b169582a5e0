import MikoV2.DataLayer.L2Buffer
import MikoV2.Lib.SortedMap
import MikoV2.Lib.Runs

/-!
# The levels of a side

What the arrays of a side hold, as a list, and what the operations of `L2Buffer` do to it.

* `levels` : the prices and quantities in use, in the order of the arrays;
* `searchsorted_spec`, `find_spec` : on a sorted side the search splits the levels at the price;
* `applyLevel_levels` : a level of a diff is one `put`, cut at the capacity;
* `kept` : how many levels `trim` keeps, `trim_levels` : it keeps the first ones;
* `applyDiffs_side` : the second pass of `apply_batch`, side by side.
-/

namespace MikoV2.DataLayer
open SortedMap

variable {Msg : Type}

/-- The levels in use. -/
def levels (s : Side) : List (ℚ × ℚ) := (List.range s.len).map fun i => (s.price i, s.qty i)

@[simp] theorem length_levels (s : Side) : (levels s).length = s.len := by simp [levels]

@[simp] theorem getElem_levels (s : Side) {i : ℕ} (h : i < (levels s).length) :
    (levels s)[i] = (s.price i, s.qty i) := by simp [levels]

/-- Prices strictly descend on the bid side, and ascend on the ask side. -/
def SortedSide (name : SideName) (s : Side) : Prop := Sorted (sortKey name) (levels s)

theorem sortKey_injective (name : SideName) : Function.Injective (sortKey name) := by
  intro p q h
  cases name with
  | bid => exact neg_injective h
  | ask => exact h

theorem SortedSide.lt {name : SideName} {s : Side} (h : SortedSide name s) {i j : ℕ} (hij : i < j) (hj : j < s.len) :
    sortKey name (s.price i) < sortKey name (s.price j) := by
  have hpair := List.pairwise_iff_getElem.mp h i j (by simp; omega) (by simpa using hj) hij
  simpa using hpair

/-! ## The search -/

/-- The halving keeps what is before `lo` below the value and what is from `hi` on at it or above. -/
theorem searchsortedFrom_spec {a : ℕ → ℚ} {v : ℚ} {n : ℕ} (hmono : ∀ i j, i < j → j < n → a i < a j) :
    ∀ fuel lo hi, lo ≤ hi → hi ≤ n → hi - lo ≤ fuel → (∀ i < lo, a i < v) → (∀ i, hi ≤ i → i < n → v ≤ a i) →
      (∀ i < searchsortedFrom a v fuel lo hi, a i < v) ∧
        ∀ i, searchsortedFrom a v fuel lo hi ≤ i → i < n → v ≤ a i := by
  intro fuel
  induction fuel with
  | zero =>
    intro lo hi hlo hn hfuel hbelow habove
    have heq : lo = hi := by omega
    subst heq
    exact ⟨hbelow, habove⟩
  | succ fuel ih =>
    intro lo hi hlo hn hfuel hbelow habove
    unfold searchsortedFrom
    by_cases hlt : lo < hi
    · rw [if_pos hlt]
      dsimp only
      have hmid : lo + (hi - lo) / 2 < hi := by omega
      by_cases hv : a (lo + (hi - lo) / 2) < v
      · rw [if_pos hv]
        refine ih _ _ (by omega) hn (by omega) (fun i hi' => ?_) habove
        rcases Nat.lt_succ_iff_lt_or_eq.mp hi' with hi' | rfl
        · exact lt_trans (hmono i _ hi' (by omega)) hv
        · exact hv
      · rw [if_neg hv]
        refine ih _ _ (by omega) (by omega) (by omega) hbelow fun i hi' hin => ?_
        rcases eq_or_lt_of_le hi' with rfl | hi'
        · exact not_lt.mp hv
        · exact le_trans (not_lt.mp hv) (le_of_lt (hmono _ i hi' hin))
    · rw [if_neg hlt]
      have heq : lo = hi := by omega
      subst heq
      exact ⟨hbelow, habove⟩

theorem searchsorted_spec {a : ℕ → ℚ} {n : ℕ} (hmono : ∀ i j, i < j → j < n → a i < a j) (v : ℚ) :
    (∀ i < searchsorted a v n, a i < v) ∧ ∀ i, searchsorted a v n ≤ i → i < n → v ≤ a i :=
  searchsortedFrom_spec hmono n 0 n (Nat.zero_le n) (le_refl n) (by omega) (fun i hi => absurd hi (Nat.not_lt_zero i))
    fun i hi hin => absurd hin (not_lt.mpr hi)

/-- On a sorted side, the levels before the index are better than the price; when it is found it is there, and
the others are behind it. -/
theorem find_spec {name : SideName} {s : Side} (h : SortedSide name s) (price : ℚ) :
    (∀ i < (find name s price).1, sortKey name (s.price i) < sortKey name price) ∧
      ((find name s price).2 = true → (find name s price).1 < s.len ∧ s.price (find name s price).1 = price) ∧
      ((find name s price).2 = false →
        ∀ i, (find name s price).1 ≤ i → i < s.len → sortKey name price < sortKey name (s.price i)) := by
  by_cases hlen : s.len > 0
  · obtain ⟨hbelow, habove⟩ := searchsorted_spec (a := fun i => sortKey name (s.price i))
      (fun i j hij hj => h.lt hij hj) (sortKey name price)
    unfold find
    rw [if_pos hlen]
    dsimp only
    refine ⟨hbelow, fun hfound => ?_, fun hfound i hi hin => ?_⟩
    · simpa using hfound
    · refine lt_of_le_of_ne (habove i hi hin) fun heq => ?_
      have hprice : price = s.price i := sortKey_injective name heq
      rcases eq_or_lt_of_le hi with rfl | hlt
      · rw [← hprice] at hfound
        simp [hin] at hfound
      · have hle := habove _ (le_refl _) (lt_trans hlt hin)
        have hlt' := h.lt hlt hin
        rw [← hprice] at hlt'
        exact absurd hle (not_le.mpr hlt')
  · unfold find
    rw [if_neg hlen]
    refine ⟨fun i hi => absurd hi (Nat.not_lt_zero i), fun hfound => absurd hfound Bool.false_ne_true, ?_⟩
    intro _ i _ hin
    omega

/-! ## A level of a diff -/

/-- The new quantity of a price: 0 deletes it. -/
def quantity (qty : ℚ) : Option ℚ := if qty = 0 then none else some qty

theorem levels_eq {s : Side} {l : List (ℚ × ℚ)} (hlen : l.length = s.len)
    (h : ∀ i (hi : i < l.length), l[i] = (s.price i, s.qty i)) : levels s = l := by
  refine List.ext_getElem (by rw [length_levels, hlen]) fun i hi hi' => ?_
  rw [getElem_levels, h i hi']

/-- Where the search points, the levels split into the better ones and the rest. -/
theorem take_find {name : SideName} {s : Side} (h : SortedSide name s) (price : ℚ) :
    ∀ x ∈ (levels s).take (find name s price).1, sortKey name x.1 < sortKey name price := by
  intro x hx
  obtain ⟨i, hi, rfl⟩ := List.mem_iff_getElem.mp hx
  rw [List.length_take, length_levels] at hi
  rw [List.getElem_take, getElem_levels]
  exact (find_spec h price).1 i (by omega)

theorem drop_find {name : SideName} {s : Side} (h : SortedSide name s) {price : ℚ}
    (hfound : (find name s price).2 = false) :
    ∀ x ∈ (levels s).drop (find name s price).1, sortKey name price < sortKey name x.1 := by
  intro x hx
  obtain ⟨i, hi, rfl⟩ := List.mem_iff_getElem.mp hx
  rw [List.length_drop, length_levels] at hi
  rw [List.getElem_drop, getElem_levels]
  exact (find_spec h price).2.2 hfound _ (by omega) (by omega)

/-- A price that is found: its level, and the worse ones after it. -/
theorem drop_found {name : SideName} {s : Side} (h : SortedSide name s) {price : ℚ}
    (hfound : (find name s price).2 = true) :
    (levels s).drop (find name s price).1 =
        (price, s.qty (find name s price).1) :: (levels s).drop ((find name s price).1 + 1) ∧
      ∀ x ∈ (levels s).drop ((find name s price).1 + 1), sortKey name price < sortKey name x.1 := by
  obtain ⟨hlt, hprice⟩ := (find_spec h price).2.1 hfound
  constructor
  · rw [List.drop_eq_getElem_cons (by simpa using hlt), getElem_levels, hprice]
  · intro x hx
    obtain ⟨i, hi, rfl⟩ := List.mem_iff_getElem.mp hx
    rw [List.length_drop, length_levels] at hi
    rw [List.getElem_drop, getElem_levels]
    have hkey := h.lt (show (find name s price).1 < (find name s price).1 + 1 + i by omega) (by omega)
    rwa [hprice] at hkey

/-- Cells from `idx` on move down. -/
theorem levels_delete {s : Side} {idx : ℕ} (hidx : idx < s.len) :
    levels {
        price := fun i => if i = s.len - 1 then 0 else if idx ≤ i ∧ i < s.len - 1 then s.price (i + 1) else s.price i
        qty := fun i => if i = s.len - 1 then 0 else if idx ≤ i ∧ i < s.len - 1 then s.qty (i + 1) else s.qty i
        len := s.len - 1 } = (levels s).take idx ++ (levels s).drop (idx + 1) := by
  have hlen : ((levels s).take idx ++ (levels s).drop (idx + 1)).length = s.len - 1 := by
    simp
    omega
  refine levels_eq hlen fun i hi => ?_
  rw [hlen] at hi
  have hlast : i ≠ s.len - 1 := by omega
  by_cases hlt : i < idx
  · rw [List.getElem_append_left (by simp; omega), List.getElem_take, getElem_levels]
    have hnot : ¬ (idx ≤ i ∧ i < s.len - 1) := by omega
    simp only [if_neg hlast, if_neg hnot]
  · have hmin : idx + 1 + (i - min idx s.len) = i + 1 := by omega
    rw [List.getElem_append_right (by simp; omega), List.getElem_drop, getElem_levels]
    have hin : idx ≤ i ∧ i < s.len - 1 := by omega
    simp only [if_neg hlast, if_pos hin, List.length_take, length_levels, hmin]

theorem levels_set {s : Side} {idx : ℕ} (hidx : idx < s.len) (qty : ℚ) :
    levels { s with qty := Function.update s.qty idx qty } =
      (levels s).take idx ++ [(s.price idx, qty)] ++ (levels s).drop (idx + 1) := by
  have hlen : ((levels s).take idx ++ [(s.price idx, qty)] ++ (levels s).drop (idx + 1)).length = s.len := by
    simp
    omega
  refine levels_eq hlen fun i hi => ?_
  rw [hlen] at hi
  rcases lt_trichotomy i idx with hlt | rfl | hlt
  · rw [List.getElem_append_left (by simp; omega), List.getElem_append_left (by simp; omega), List.getElem_take,
      getElem_levels]
    have hne : i ≠ idx := by omega
    simp [hne]
  · rw [List.getElem_append_left (by simp; omega), List.getElem_append_right (by simp)]
    simp
  · rw [List.getElem_append_right (by simp; omega), List.getElem_drop, getElem_levels]
    have hmin : idx + 1 + (i - (min idx s.len + 1)) = i := by omega
    have hne : i ≠ idx := by omega
    simp only [List.length_append, List.length_take, length_levels, List.length_singleton, hmin]
    simp [hne]

/-- Cells from `idx` on move up, those beyond the capacity fall off. -/
theorem levels_insert {s : Side} {idx len : ℕ} (hidx : idx ≤ s.len) (price qty : ℚ)
    (hlen : len = min (s.len + 1) MAX_BUFFER) :
    levels {
        price := fun i =>
          if i = idx then price
          else if idx < i ∧ i ≤ s.len ∧ i < MAX_BUFFER then s.price (i - 1) else s.price i
        qty := fun i =>
          if i = idx then qty
          else if idx < i ∧ i ≤ s.len ∧ i < MAX_BUFFER then s.qty (i - 1) else s.qty i
        len := len } =
      ((levels s).take idx ++ [(price, qty)] ++ (levels s).drop idx).take MAX_BUFFER := by
  have hlist : (((levels s).take idx ++ [(price, qty)] ++ (levels s).drop idx).take MAX_BUFFER).length = len := by
    simp
    omega
  refine levels_eq hlist fun i hi => ?_
  rw [hlist] at hi
  rw [List.getElem_take]
  rcases lt_trichotomy i idx with hlt | rfl | hlt
  · have hnot : ¬ (idx < i ∧ i ≤ s.len ∧ i < MAX_BUFFER) := by omega
    rw [List.getElem_append_left (by simp; omega), List.getElem_append_left (by simp; omega), List.getElem_take,
      getElem_levels]
    simp only [if_neg (show i ≠ idx by omega), if_neg hnot]
  · rw [List.getElem_append_left (by simp; omega), List.getElem_append_right (by simp)]
    simp
  · have hin : idx < i ∧ i ≤ s.len ∧ i < MAX_BUFFER := by omega
    have hmin : idx + (i - (min idx s.len + 1)) = i - 1 := by omega
    rw [List.getElem_append_right (by simp; omega), List.getElem_drop, getElem_levels]
    simp only [if_neg (show i ≠ idx by omega), if_pos hin, List.length_append, List.length_take, length_levels,
      List.length_singleton, hmin]

/-- **A level of a diff.** The price gets its quantity, or goes, and what is beyond the capacity falls off. -/
theorem applyLevel_levels {name : SideName} {s s' : Side} {price qty : ℚ} (h : SortedSide name s)
    (hlen : s.len ≤ MAX_BUFFER) (happ : applyLevel name s price qty = some s') :
    levels s' = (put (sortKey name) price (quantity qty) (levels s)).take MAX_BUFFER := by
  have hidx := find_le name s price
  have hsplit := List.take_append_drop (find name s price).1 (levels s)
  have htake := take_find h price
  unfold applyLevel at happ
  by_cases hfound : (find name s price).2 = true
  · obtain ⟨hdrop, hbehind⟩ := drop_found h hfound
    obtain ⟨hlt, hprice⟩ := (find_spec h price).2.1 hfound
    have hput := put_append_cons (v := quantity qty) (w := s.qty (find name s price).1) htake hbehind
    rw [← hdrop, hsplit] at hput
    simp only [hfound, if_true] at happ
    by_cases hq : qty = 0
    · rw [if_pos hq] at happ
      cases happ
      have hquantity : quantity qty = none := if_pos hq
      rw [hquantity, Option.map_none, Option.toList_none, List.append_nil] at hput
      rw [hquantity, hput, ← levels_delete hlt, List.take_of_length_le]
      rw [length_levels]
      dsimp only
      omega
    · rw [if_neg hq] at happ
      cases happ
      have hquantity : quantity qty = some qty := if_neg hq
      rw [hquantity, Option.map_some, Option.toList_some] at hput
      have hset := levels_set hlt qty
      rw [hprice] at hset
      rw [hquantity, hput, ← hset, List.take_of_length_le]
      rw [length_levels]
      exact hlen
  · have hput := put_append (v := quantity qty) htake (drop_find h (Bool.eq_false_iff.mpr hfound))
    rw [hsplit] at hput
    simp only [hfound, if_false, Bool.false_eq_true] at happ
    by_cases hq : qty = 0
    · rw [if_pos hq] at happ
      cases happ
      have hquantity : quantity qty = none := if_pos hq
      rw [hquantity, Option.map_none, Option.toList_none, List.append_nil, hsplit] at hput
      rw [hquantity, hput, List.take_of_length_le]
      rw [length_levels]
      exact hlen
    · rw [if_neg hq] at happ
      have hquantity : quantity qty = some qty := if_neg hq
      rw [hquantity, Option.map_some, Option.toList_some] at hput
      rw [hquantity, hput]
      by_cases hcap : (find name s price).1 < MAX_BUFFER
      · rw [if_pos hcap] at happ
        split at happ
        · cases happ
        · cases happ
          refine levels_insert hidx price qty ?_
          split
          · omega
          · omega
      · rw [if_neg hcap] at happ
        cases happ
        have hall : (levels s).take (find name s price).1 = levels s :=
          List.take_of_length_le (by rw [length_levels]; omega)
        have hfull : (levels s).length = MAX_BUFFER := by
          rw [length_levels]
          omega
        rw [hall, ← hfull, List.append_assoc, List.take_left]

/-- A level keeps a side sorted and within the capacity. -/
theorem applyLevel_sorted {name : SideName} {s s' : Side} {price qty : ℚ} (h : SortedSide name s)
    (hlen : s.len ≤ MAX_BUFFER) (happ : applyLevel name s price qty = some s') :
    SortedSide name s' ∧ s'.len ≤ MAX_BUFFER := by
  have hlevels := applyLevel_levels h hlen happ
  constructor
  · unfold SortedSide
    rw [hlevels]
    exact (Sorted.put h).take _
  · rw [← length_levels, hlevels, List.length_take]
    exact min_le_left _ _

/-! ## Trimming -/

/-- The levels that `trim` keeps of `len`, for a batch that brings `new` ones. -/
def kept (new len : ℕ) : ℕ :=
  if len + new < MAX_BUFFER then len else len - TRIM_BLOCK * ((len + new - MAX_BUFFER) / TRIM_BLOCK + 1)

theorem kept_le (new len : ℕ) : kept new len ≤ len := by
  unfold kept
  split
  · exact le_refl _
  · exact Nat.sub_le _ _

/-- One block less is kept of one block less. -/
theorem kept_block {new len : ℕ} (hfull : len + new ≥ MAX_BUFFER) (hblock : TRIM_BLOCK ≤ len) :
    kept new (len - TRIM_BLOCK) = kept new len := by
  have hnot : ¬ len + new < MAX_BUFFER := by omega
  unfold kept
  rw [if_neg hnot]
  unfold TRIM_BLOCK at hblock ⊢
  split
  · omega
  · omega

theorem kept_of_short {new len : ℕ} (hfull : len + new ≥ MAX_BUFFER) (hshort : len < TRIM_BLOCK) :
    kept new len = 0 := by
  have hnot : ¬ len + new < MAX_BUFFER := by omega
  unfold kept
  rw [if_neg hnot]
  unfold TRIM_BLOCK at hshort ⊢
  omega

/-- Clearing the cells from `lo` on and cutting there keeps the levels before `lo`. -/
theorem levels_cut (s : Side) {lo : ℕ} (h : lo ≤ s.len) :
    levels { s.clear lo s.len with len := lo } = (levels s).take lo := by
  have hlen : ((levels s).take lo).length = lo := by
    simp
    omega
  refine levels_eq hlen fun i hi => ?_
  rw [hlen] at hi
  have hnot : ¬ (lo ≤ i ∧ i < s.len) := by omega
  rw [List.getElem_take, getElem_levels]
  simp only [Side.clear, if_neg hnot]

theorem trimLoop_levels (new : ℕ) : ∀ fuel (s : Side), s.len < fuel →
    levels (trimLoop new fuel s) = (levels s).take (kept new s.len) := by
  intro fuel
  induction fuel with
  | zero => exact fun s h => absurd h (Nat.not_lt_zero _)
  | succ fuel ih =>
    intro s h
    unfold trimLoop
    by_cases hfull : s.len + new ≥ MAX_BUFFER
    · rw [if_pos hfull]
      dsimp only
      by_cases hempty : s.len = 0
      · rw [if_pos (by omega)]
        have hnil : levels s = [] := List.eq_nil_of_length_eq_zero (by simpa using hempty)
        simp [hnil]
      · rw [if_neg (by simp only [TRIM_BLOCK]; omega), ih _ (by simp only [TRIM_BLOCK]; omega),
          levels_cut s (Nat.sub_le _ _), List.take_take]
        congr 1
        dsimp only
        by_cases hblock : TRIM_BLOCK ≤ s.len
        · rw [min_eq_left hblock, kept_block hfull hblock, min_eq_left]
          rw [← kept_block hfull hblock]
          exact kept_le _ _
        · have hnone : s.len - min TRIM_BLOCK s.len = 0 := by omega
          rw [hnone, kept_of_short hfull (by omega)]
          exact Nat.min_eq_right (Nat.zero_le _)
    · rw [if_neg hfull]
      have hall : kept new s.len = s.len := if_pos (by omega)
      rw [hall, ← length_levels, List.take_length]

/-- **`trim`.** The first levels stay. -/
theorem trim_levels (new : ℕ) (s : Side) : levels (trim new s) = (levels s).take (kept new s.len) :=
  trimLoop_levels new _ s (Nat.lt_succ_self _)

/-- The loop of `apply_batch` around `trim` calls it once at most. -/
theorem roomLoop_levels {new : ℕ} {s s' : Side} (h : roomLoop new 2 s = some s') :
    levels s' = (levels s).take (kept new s.len) := by
  unfold roomLoop at h
  split at h
  · unfold roomLoop at h
    split at h
    · cases h
    · cases h
      exact trim_levels new s
  · rename_i hroom
    cases h
    have hall : kept new s.len = s.len := if_pos (by omega)
    rw [hall, ← length_levels, List.take_length]

/-! ## The second pass, side by side -/

/-- The diffs of a side. -/
def ofSide (name : SideName) (diffs : List Diff) : List Diff := diffs.filter fun d => decide (d.side = name)

/-- A side goes through the diffs of its own. -/
theorem applyDiffs_side (name : SideName) : ∀ (diffs : List Diff) (b b' : L2Book Msg),
    applyDiffs diffs b = (true, b') →
    Runs.runM (fun s d => applyLevel name s d.price d.qty) (b.side name) (ofSide name diffs) = some (b'.side name)
  | [], b, b', h => by
    cases h
    rfl
  | d :: diffs, b, b', h => by
    unfold applyDiffs at h
    split at h
    · cases h
    · rename_i s hs
      have ih := applyDiffs_side name diffs _ b' h
      by_cases hn : d.side = name
      · subst hn
        rw [setSide_same] at ih
        rw [ofSide, List.filter_cons_of_pos (by simp)]
        show (applyLevel d.side (b.side d.side) d.price d.qty >>= fun s =>
          Runs.runM (fun s e => applyLevel d.side s e.price e.qty) s (ofSide d.side diffs)) = _
        rw [hs]
        exact ih
      · rw [setSide_other _ _ (Ne.symm hn)] at ih
        rw [ofSide, List.filter_cons_of_neg (by simpa using hn)]
        exact ih

end MikoV2.DataLayer
