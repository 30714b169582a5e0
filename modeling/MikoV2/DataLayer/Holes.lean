import MikoV2.DataLayer.Levels

/-!
# Holes in a trimmed side

A batch on a book near its capacity first trims the sides and then applies its diffs to what is left. What
the book should hold after it is the best part of an unbounded side that gets the same diffs.

* `ideal` : the unbounded side, `NoHole` : a side is the best part of it;
* `Account` : the prices a side holds and those it lost, diff by diff;
* `Tracks` : the account is true of the side, `Tracks.step` : one diff keeps it so;
* `NothingBehind` : no price of the batch stands behind a lost one;
* `noHole_iff` : the condition is exact, on every book and every batch that returns.
-/

namespace MikoV2.DataLayer
open SortedMap

variable {Msg : Type}

/-! ## The unbounded side -/

/-- A price of the unbounded side after a diff. -/
def setPrice (m : ℚ → Option ℚ) (d : Diff) : ℚ → Option ℚ := Function.update m d.price (quantity d.qty)

/-- The side as a map without a bound, after the diffs one after another. -/
def ideal (name : SideName) (diffs : List Diff) (s : Side) : ℚ → Option ℚ :=
  (ofSide name diffs).foldl setPrice fun price => (levels s).lookup price

/-- `s'` is the best part of what the diffs make of `s`. -/
def NoHole (name : SideName) (diffs : List Diff) (s s' : Side) : Prop :=
  Best (sortKey name) (ideal name diffs s) (levels s')

/-! ## The account -/

/-- The prices a side holds, and those it lost to the capacity. -/
structure Account where
  live : Finset ℚ
  lost : Finset ℚ
deriving DecidableEq

/-- One price too many, and the worst goes. -/
def fitting (name : SideName) (live : Finset ℚ) : Finset ℚ :=
  if live.card ≤ MAX_BUFFER then live else live.filter fun p => ∃ q ∈ live, sortKey name p < sortKey name q

def Account.step (name : SideName) (a : Account) (d : Diff) : Account :=
  let live := if (quantity d.qty).isSome then insert d.price a.live else a.live.erase d.price
  ⟨fitting name live, a.lost.erase d.price ∪ (live \ fitting name live)⟩

theorem Account.step_set {name : SideName} {a : Account} {d : Diff} {q : ℚ} (h : quantity d.qty = some q) :
    a.step name d = ⟨fitting name (insert d.price a.live),
      a.lost.erase d.price ∪ (insert d.price a.live \ fitting name (insert d.price a.live))⟩ := by
  simp [Account.step, h]

/-- The trim loses the last levels; then every diff keeps the account. -/
def account (name : SideName) (diffs : List Diff) (s : Side) : Account :=
  let n := kept (batchNew name diffs s) s.len
  (ofSide name diffs).foldl (Account.step name) ⟨points ((levels s).take n), points ((levels s).drop n)⟩

/-- No price of the batch that the side holds at the end stands behind a price it lost. -/
def NothingBehind (name : SideName) (diffs : List Diff) (s : Side) : Prop :=
  ∀ d ∈ ofSide name diffs, d.price ∈ (account name diffs s).live →
    ∀ p ∈ (account name diffs s).lost, sortKey name d.price < sortKey name p

theorem fitting_subset (name : SideName) (live : Finset ℚ) : fitting name live ⊆ live := by
  unfold fitting
  split
  · exact Finset.Subset.refl _
  · exact Finset.filter_subset _ _

theorem fitting_of_card_le {name : SideName} {live : Finset ℚ} (h : live.card ≤ MAX_BUFFER) :
    fitting name live = live := if_pos h

/-- What falls off is behind what stays. -/
theorem lt_of_fitting {name : SideName} {live : Finset ℚ} {p q : ℚ} (hp : p ∈ fitting name live)
    (hq : q ∈ live \ fitting name live) : sortKey name p < sortKey name q := by
  obtain ⟨hqlive, hqout⟩ := Finset.mem_sdiff.mp hq
  have hplive := fitting_subset name live hp
  have hne : sortKey name p ≠ sortKey name q := by
    intro heq
    rw [sortKey_injective name heq] at hp
    exact hqout hp
  refine lt_of_le_of_ne (not_lt.mp fun hlt => hqout ?_) hne
  unfold fitting at hqout ⊢
  split at hqout
  · exact absurd hqlive hqout
  · rw [if_neg ‹_›]
    exact Finset.mem_filter.mpr ⟨hqlive, p, hplive, hlt⟩

/-- Cutting a sorted list with one entry too many. -/
theorem points_take {name : SideName} {l : List (ℚ × ℚ)} (h : Sorted (sortKey name) l)
    (hlen : l.length ≤ MAX_BUFFER + 1) : points (l.take MAX_BUFFER) = fitting name (points l) := by
  unfold fitting
  rw [h.card_points]
  split
  · rw [List.take_of_length_le ‹_›]
  · have hlast : l.take MAX_BUFFER = l.dropLast := by
      rw [List.dropLast_eq_take]
      congr 1
      omega
    rw [hlast]
    ext p
    rw [Finset.mem_filter, mem_points, mem_points]
    constructor
    · rintro ⟨v, hv⟩
      obtain ⟨hin, y, hy, hlt⟩ := h.mem_dropLast.mp hv
      exact ⟨⟨v, hin⟩, y.1, mem_points.mpr ⟨y.2, hy⟩, hlt⟩
    · rintro ⟨⟨v, hin⟩, q, hq, hlt⟩
      obtain ⟨w, hw⟩ := mem_points.mp hq
      exact ⟨v, h.mem_dropLast.mpr ⟨hin, (q, w), hw, hlt⟩⟩

/-! ## One diff -/

/-- The account `a` and the unbounded side `m` are true of the side `s`, after the diffs `pre`. -/
structure Tracks (name : SideName) (pre : List Diff) (a : Account) (m : ℚ → Option ℚ) (s : Side) : Prop where
  sorted : SortedSide name s
  fits : s.len ≤ MAX_BUFFER
  live : a.live = points (levels s)
  held : ∀ x ∈ levels s, m x.1 = some x.2
  lost : ∀ p ∈ a.lost, p ∉ a.live ∧ ∃ q, m p = some q
  rest : ∀ p q, m p = some q → p ∈ a.live ∨ p ∈ a.lost
  ahead : ∀ p ∈ a.live, (∀ d ∈ pre, d.price ≠ p) → ∀ q ∈ a.lost, sortKey name p < sortKey name q

variable {name : SideName} {pre : List Diff} {a : Account} {m : ℚ → Option ℚ} {s s' : Side} {d : Diff}

/-- The prices of the side before the cut. -/
theorem Tracks.points_put (h : Tracks name pre a m s) :
    points (put (sortKey name) d.price (quantity d.qty) (levels s)) =
      if (quantity d.qty).isSome then insert d.price a.live else a.live.erase d.price := by
  rw [SortedMap.points_put (sortKey_injective name), h.live]

/-- Before the cut, the side agrees with the unbounded one. -/
theorem Tracks.held_put (h : Tracks name pre a m s) :
    ∀ x ∈ put (sortKey name) d.price (quantity d.qty) (levels s), setPrice m d x.1 = some x.2 := by
  intro x hx
  rcases (mem_put (sortKey_injective name)).mp hx with ⟨hne, hx⟩ | ⟨heq, hv⟩
  · rw [setPrice, Function.update_of_ne hne]
    exact h.held x hx
  · rw [setPrice, heq, Function.update_self]
    exact hv

/-- Before the cut there is one level too many at most. -/
theorem Tracks.length_put (h : Tracks name pre a m s) :
    (put (sortKey name) d.price (quantity d.qty) (levels s)).length ≤ MAX_BUFFER + 1 := by
  have hcard : a.live.card = s.len := by rw [h.live, Sorted.card_points h.sorted, length_levels]
  have hfits := h.fits
  rw [← Sorted.card_points (Sorted.put h.sorted), h.points_put]
  split
  · have hle := Finset.card_insert_le d.price a.live
    omega
  · have hle := Finset.card_erase_le (s := a.live) (a := d.price)
    omega

/-- **One diff** keeps the account true. -/
theorem Tracks.step (h : Tracks name pre a m s) (happ : applyLevel name s d.price d.qty = some s') :
    Tracks name (pre ++ [d]) (a.step name d) (setPrice m d) s' := by
  have hlevels := applyLevel_levels h.sorted h.fits happ
  obtain ⟨hsorted, hfits⟩ := applyLevel_sorted h.sorted h.fits happ
  have hput := h.points_put (d := d)
  have hheld := h.held_put (d := d)
  have hlive : (a.step name d).live = points (levels s') := by
    rw [hlevels, points_take (Sorted.put h.sorted) h.length_put, hput]
    rfl
  -- the prices before the cut, but for that of the diff, were live before
  have hbefore : ∀ p ∈ points (put (sortKey name) d.price (quantity d.qty) (levels s)), p ≠ d.price → p ∈ a.live := by
    intro p hp hne
    obtain ⟨q, hq⟩ := mem_points.mp hp
    rcases (mem_put (sortKey_injective name)).mp hq with ⟨-, hq⟩ | ⟨heq, -⟩
    · rw [h.live]
      exact mem_points.mpr ⟨q, hq⟩
    · exact absurd heq hne
  have hstep : (a.step name d).live = fitting name (points (put (sortKey name) d.price (quantity d.qty) (levels s))) ∧
      (a.step name d).lost = a.lost.erase d.price ∪
        (points (put (sortKey name) d.price (quantity d.qty) (levels s)) \
          fitting name (points (put (sortKey name) d.price (quantity d.qty) (levels s)))) := by
    rw [hput]
    exact ⟨rfl, rfl⟩
  refine ⟨hsorted, hfits, hlive, ?_, ?_, ?_, ?_⟩
  · intro x hx
    rw [hlevels] at hx
    exact hheld x (List.mem_of_mem_take hx)
  · intro p hp
    rw [hstep.2] at hp
    rw [hstep.1]
    rcases Finset.mem_union.mp hp with hp | hp
    · obtain ⟨hne, hp⟩ := Finset.mem_erase.mp hp
      obtain ⟨hnot, q, hq⟩ := h.lost p hp
      refine ⟨fun hin => hnot (hbefore p (fitting_subset _ _ hin) hne), q, ?_⟩
      rw [setPrice, Function.update_of_ne hne]
      exact hq
    · obtain ⟨hin, hout⟩ := Finset.mem_sdiff.mp hp
      obtain ⟨q, hq⟩ := mem_points.mp hin
      exact ⟨hout, q, hheld (p, q) hq⟩
  · intro p q hp
    rw [hstep.1, hstep.2]
    have hcases : p ∈ points (put (sortKey name) d.price (quantity d.qty) (levels s)) ∨ p ∈ a.lost.erase d.price := by
      by_cases hne : p = d.price
      · subst hne
        rw [setPrice, Function.update_self] at hp
        exact Or.inl (mem_points.mpr ⟨q, (mem_put (sortKey_injective name)).mpr (Or.inr ⟨rfl, hp⟩)⟩)
      · rw [setPrice, Function.update_of_ne hne] at hp
        rcases h.rest p q hp with hin | hin
        · rw [h.live] at hin
          obtain ⟨v, hv⟩ := mem_points.mp hin
          exact Or.inl (mem_points.mpr ⟨v, (mem_put (sortKey_injective name)).mpr (Or.inl ⟨hne, hv⟩)⟩)
        · exact Or.inr (Finset.mem_erase.mpr ⟨hne, hin⟩)
    rcases hcases with hin | hin
    · by_cases hfit : p ∈ fitting name (points (put (sortKey name) d.price (quantity d.qty) (levels s)))
      · exact Or.inl hfit
      · exact Or.inr (Finset.mem_union_right _ (Finset.mem_sdiff.mpr ⟨hin, hfit⟩))
    · exact Or.inr (Finset.mem_union_left _ hin)
  · intro p hp hunnamed q hq
    rw [hstep.1] at hp
    rw [hstep.2] at hq
    rcases Finset.mem_union.mp hq with hq | hq
    · have hne : p ≠ d.price := Ne.symm (hunnamed d (by simp))
      exact h.ahead p (hbefore p (fitting_subset _ _ hp) hne)
        (fun e he => hunnamed e (List.mem_append_left _ he)) q (Finset.mem_of_mem_erase hq)
    · exact lt_of_fitting hp hq

/-- The account is true of the side after the trim. -/
theorem tracks_start (hsorted : SortedSide name s) (hfits : s.len ≤ MAX_BUFFER) {n : ℕ} {s₀ : Side}
    (htrim : levels s₀ = (levels s).take n) :
    Tracks name [] ⟨points ((levels s).take n), points ((levels s).drop n)⟩ (fun p => (levels s).lookup p) s₀ := by
  have hlookup := lists_lookup hsorted
  have hsplit := List.take_append_drop n (levels s)
  have happend : Sorted (sortKey name) ((levels s).take n ++ (levels s).drop n) := by
    rw [hsplit]
    exact hsorted
  have hbehind : ∀ p ∈ points ((levels s).take n), ∀ q ∈ points ((levels s).drop n),
      sortKey name p < sortKey name q := by
    intro p hp q hq
    obtain ⟨v, hv⟩ := mem_points.mp hp
    obtain ⟨w, hw⟩ := mem_points.mp hq
    exact (Sorted.append_iff.mp happend).2.2 (p, v) hv (q, w) hw
  refine ⟨?_, ?_, by rw [htrim], ?_, ?_, ?_, ?_⟩
  · unfold SortedSide
    rw [htrim]
    exact Sorted.take hsorted n
  · rw [← length_levels, htrim, List.length_take, length_levels]
    exact le_trans (min_le_right _ _) hfits
  · intro x hx
    rw [htrim] at hx
    exact (hlookup.mem x.1 x.2).mp (List.mem_of_mem_take hx)
  · intro p hp
    obtain ⟨v, hv⟩ := mem_points.mp hp
    exact ⟨fun hlive => lt_irrefl _ (hbehind p hlive p hp), v, (hlookup.mem p v).mp (List.mem_of_mem_drop hv)⟩
  · intro p v hp
    have hin := (hlookup.mem p v).mpr hp
    rw [← hsplit] at hin
    rcases List.mem_append.mp hin with hin | hin
    · exact Or.inl (mem_points.mpr ⟨v, hin⟩)
    · exact Or.inr (mem_points.mpr ⟨v, hin⟩)
  · exact fun p hp _ q hq => hbehind p hp q hq

/-! ## A batch -/

/-- A batch of the book's epoch goes through the trim and the diffs, side by side. -/
theorem applyBatch_side {b b' : L2Book Msg} {diffs : List Diff} {batchEpoch : ℕ} {ok : Bool}
    (he : batchEpoch = b.seqEpoch) (h : applyBatch b diffs batchEpoch = .returned ok b') (name : SideName) :
    ∃ s, levels s = (levels (b.side name)).take (kept (batchNew name diffs (b.side name)) (b.side name).len) ∧
      Runs.runM (fun s d => applyLevel name s d.price d.qty) s (ofSide name diffs) = some (b'.side name) := by
  unfold applyBatch at h
  rw [if_neg (not_not.mpr he)] at h
  rcases hbid : roomLoop (batchNew .bid diffs b.bids) 2 b.bids with _ | bids
  · rw [hbid] at h
    cases h
  · rcases hask : roomLoop (batchNew .ask diffs b.asks) 2 b.asks with _ | asks
    · rw [hbid, hask] at h
      cases h
    · rw [hbid, hask] at h
      rcases hd : applyDiffs diffs { b with bids, asks } with ⟨_ | _, b₁⟩
      · simp only [hd] at h
        cases h
      · simp only [hd] at h
        cases h
        have hside := applyDiffs_side name diffs _ _ hd
        cases name with
        | bid => exact ⟨bids, roomLoop_levels hbid, hside⟩
        | ask => exact ⟨asks, roomLoop_levels hask, hside⟩

/-- The account is true of the side after the diffs. -/
theorem tracks_run {diffs : List Diff} {s₀ : Side} (hsorted : SortedSide name s) (hfits : s.len ≤ MAX_BUFFER)
    (htrim : levels s₀ = (levels s).take (kept (batchNew name diffs s) s.len))
    (hrun : Runs.runM (fun s d => applyLevel name s d.price d.qty) s₀ (ofSide name diffs) = some s') :
    Tracks name (ofSide name diffs) (account name diffs s) (ideal name diffs s) s' := by
  refine Runs.runM_history
    (J := fun pre t => Tracks name pre
      (pre.foldl (Account.step name) ⟨points ((levels s).take (kept (batchNew name diffs s) s.len)),
        points ((levels s).drop (kept (batchNew name diffs s) s.len))⟩)
      (pre.foldl setPrice fun price => (levels s).lookup price) t)
    (tracks_start hsorted hfits htrim) ?_ _ _ hrun
  intro pre d t t' ht happ
  rw [List.foldl_concat, List.foldl_concat]
  exact ht.step happ

/-- The unbounded side is listed. -/
theorem lists_ideal (hsorted : SortedSide name s) (diffs : List Diff) :
    ∃ full, Lists (sortKey name) (ideal name diffs s) full := by
  unfold ideal
  have hrun : ∀ (ds : List Diff) (m : ℚ → Option ℚ), (∃ full, Lists (sortKey name) m full) →
      ∃ full, Lists (sortKey name) (ds.foldl setPrice m) full := by
    intro ds
    induction ds with
    | nil => exact fun m h => h
    | cons d ds ih =>
      rintro m ⟨full, hfull⟩
      exact ih _ ⟨_, hfull.put (sortKey_injective name)⟩
  exact hrun _ _ ⟨_, lists_lookup hsorted⟩

/-- A side that the account is true of has no hole exactly when no price of the batch is behind a lost one. -/
theorem Tracks.noHole {diffs : List Diff} (hsorted : SortedSide name s)
    (h : Tracks name (ofSide name diffs) (account name diffs s) (ideal name diffs s) s') :
    NoHole name diffs s s' ↔ NothingBehind name diffs s := by
  obtain ⟨full, hfull⟩ := lists_ideal hsorted diffs
  unfold NoHole
  rw [best_iff hfull h.sorted]
  constructor
  · rintro ⟨-, hbehind⟩ d - hlive p hp
    obtain ⟨hnot, q, hq⟩ := h.lost p hp
    rw [h.live] at hlive hnot
    obtain ⟨v, hv⟩ := mem_points.mp hlive
    exact hbehind p q hq (fun hin => hnot (mem_points.mpr ⟨q, hin⟩)) (d.price, v) hv
  · intro hcond
    refine ⟨h.held, fun p q hq hout x hx => ?_⟩
    have hxlive : x.1 ∈ (account name diffs s).live := by
      rw [h.live]
      exact mem_points.mpr ⟨x.2, hx⟩
    have hlost : p ∈ (account name diffs s).lost := by
      refine (h.rest p q hq).resolve_left fun hlive => ?_
      rw [h.live] at hlive
      obtain ⟨v, hv⟩ := mem_points.mp hlive
      have heq : some v = some q := by rw [← h.held (p, v) hv, hq]
      rw [Option.some.inj heq] at hv
      exact hout hv
    by_cases hnamed : ∃ d ∈ ofSide name diffs, d.price = x.1
    · obtain ⟨d, hd, hprice⟩ := hnamed
      rw [← hprice] at hxlive ⊢
      exact hcond d hd hxlive p hlost
    · exact h.ahead x.1 hxlive (fun d hd hprice => hnamed ⟨d, hd, hprice⟩) p hlost

/-! ## A batch that is refused -/

/-- The last quantity that the diffs give a price. -/
def word (name : SideName) (diffs : List Diff) (price : ℚ) : Option ℚ :=
  (((ofSide name diffs).filter fun d => decide (d.price = price)).getLast?).map Diff.qty

/-- The diffs ask nothing of the side but what it holds, and levels behind its last one. -/
def Idle (name : SideName) (diffs : List Diff) (s : Side) : Prop :=
  ∀ p q, word name diffs p = some q →
    (p ∈ points (levels s) → q ≠ 0 ∧ (p, q) ∈ levels s) ∧
      (p ∉ points (levels s) → q ≠ 0 → ∀ x ∈ levels s, sortKey name x.1 < sortKey name p)

/-- The unbounded side holds the last quantity given, or what it held. -/
theorem ideal_eq (name : SideName) (diffs : List Diff) (s : Side) (p : ℚ) : ideal name diffs s p =
    match word name diffs p with
    | none => (levels s).lookup p
    | some q => quantity q := by
  unfold ideal word
  induction ofSide name diffs using List.reverseRecOn with
  | nil => rfl
  | append_singleton ds d ih =>
    rw [List.foldl_concat, setPrice, List.filter_append]
    by_cases hp : d.price = p
    · subst hp
      simp
    · rw [Function.update_of_ne (Ne.symm hp), ih]
      simp [hp]

theorem noHole_self_iff {diffs : List Diff} (hsorted : SortedSide name s) :
    NoHole name diffs s s ↔ Idle name diffs s := by
  obtain ⟨full, hfull⟩ := lists_ideal hsorted diffs
  have hlookup := lists_lookup hsorted
  unfold NoHole
  rw [best_iff hfull hsorted]
  constructor
  · rintro ⟨hheld, hbehind⟩ p q hword
    have hideal : ideal name diffs s p = quantity q := by rw [ideal_eq, hword]
    constructor
    · intro hp
      obtain ⟨v, hv⟩ := mem_points.mp hp
      have hq : quantity q = some v := by rw [← hideal, hheld (p, v) hv]
      unfold quantity at hq
      split at hq
      · cases hq
      · cases hq
        exact ⟨‹_›, hv⟩
    · intro hp hq
      refine hbehind p q ?_ fun hin => hp (mem_points.mpr ⟨q, hin⟩)
      rw [hideal]
      exact if_neg hq
  · intro hidle
    constructor
    · rintro ⟨p, v⟩ hx
      rw [ideal_eq]
      split
      · exact (hlookup.mem p v).mp hx
      · rename_i q hword
        obtain ⟨hq, hin⟩ := (hidle p q hword).1 (mem_points.mpr ⟨v, hx⟩)
        have hv : some q = some v := by
          rw [← (hlookup.mem p q).mp hin, ← (hlookup.mem p v).mp hx]
        rw [← hv]
        exact if_neg hq
    · intro p v hp hout
      rw [ideal_eq] at hp
      split at hp
      · exact absurd ((hlookup.mem p v).mpr hp) hout
      · rename_i q hword
        unfold quantity at hp
        split at hp
        · cases hp
        · cases hp
          refine (hidle p v hword).2 (fun hin => ?_) ‹_›
          exact hout ((hidle p v hword).1 hin).2

/-! ## Exactness -/

/-- **Trimming and holes.** On a sorted book within its capacity, a batch that returns leaves the best part of
the unbounded book exactly when no price of it ends up behind one that was lost; a batch of another epoch, which
is refused, exactly when it asked for nothing in front of the last levels. -/
theorem noHole_iff {b b' : L2Book Msg} {diffs : List Diff} {batchEpoch : ℕ} {ok : Bool}
    (hsorted : ∀ name, SortedSide name (b.side name)) (hfits : ∀ name, (b.side name).len ≤ MAX_BUFFER)
    (h : applyBatch b diffs batchEpoch = .returned ok b') :
    (∀ name, NoHole name diffs (b.side name) (b'.side name)) ↔
      ∀ name, if batchEpoch = b.seqEpoch then NothingBehind name diffs (b.side name)
        else Idle name diffs (b.side name) := by
  refine forall_congr' fun name => ?_
  by_cases he : batchEpoch = b.seqEpoch
  · rw [if_pos he]
    obtain ⟨s₀, htrim, hrun⟩ := applyBatch_side he h name
    exact (tracks_run (hsorted name) (hfits name) htrim hrun).noHole (hsorted name)
  · rw [if_neg he]
    unfold applyBatch at h
    rw [if_pos he] at h
    cases h
    exact noHole_self_iff (hsorted name)

/-- A full ask side, at the prices 1 to 5000. -/
def fullBook : L2Book Unit := { asks := { price := fun i => i + 1, qty := fun _ => 1, len := MAX_BUFFER } }

theorem fullBook_sorted : ∀ name, SortedSide name (fullBook.side name) := by
  intro name
  unfold SortedSide Sorted levels
  rw [List.pairwise_map]
  cases name with
  | bid => exact List.Pairwise.nil
  | ask =>
    refine List.pairwise_lt_range.imp fun hlt => ?_
    show ((_ : ℕ) : ℚ) + 1 < ((_ : ℕ) : ℚ) + 1
    exact add_lt_add_left (by exact_mod_cast hlt) 1

theorem fullBook_fits : ∀ name, (fullBook.side name).len ≤ MAX_BUFFER := by
  intro name
  cases name with
  | bid => exact Nat.zero_le _
  | ask => exact le_refl _

/-- A batch that changes the quantity of the last level returns. -/
theorem fullBook_returns : ∃ b', applyBatch fullBook [⟨.ask, 5000, 2⟩] 0 = .returned true b' := by
  have h : (match applyBatch fullBook [⟨.ask, 5000, 2⟩] 0 with
    | .returned true _ => true
    | _ => false) = true := by decide +kernel
  split at h
  · exact ⟨_, ‹_›⟩
  · cases h

theorem noHole_iff_fullBook : ∃ b', applyBatch fullBook [⟨.ask, 5000, 2⟩] 0 = .returned true b' ∧
    ((∀ name, NoHole name [⟨.ask, 5000, 2⟩] (fullBook.side name) (b'.side name)) ↔
      ∀ name, if 0 = fullBook.seqEpoch then NothingBehind name [⟨.ask, 5000, 2⟩] (fullBook.side name)
        else Idle name [⟨.ask, 5000, 2⟩] (fullBook.side name)) := by
  obtain ⟨b', h⟩ := fullBook_returns
  exact ⟨b', h, noHole_iff fullBook_sorted fullBook_fits h⟩

/-- The last 1000 levels are trimmed; the last one comes back as new, behind the 999 that are lost. -/
theorem not_noHole_fullBook : (∀ name, SortedSide name (fullBook.side name)) ∧
    (∀ name, (fullBook.side name).len ≤ MAX_BUFFER) ∧
    ∃ b', applyBatch fullBook [⟨.ask, 5000, 2⟩] 0 = .returned true b' ∧
      ¬ ∀ name, NoHole name [⟨.ask, 5000, 2⟩] (fullBook.side name) (b'.side name) := by
  obtain ⟨b', h⟩ := fullBook_returns
  refine ⟨fullBook_sorted, fullBook_fits, b', h, fun hnoHole => ?_⟩
  obtain ⟨s₀, htrim, hrun⟩ := applyBatch_side rfl h .ask
  have htracks := tracks_run (fullBook_sorted .ask) (fullBook_fits .ask) htrim hrun
  have hbehind := (htracks.noHole (fullBook_sorted .ask)).mp (hnoHole .ask)
  have hkept : kept (batchNew .ask [⟨.ask, 5000, 2⟩] (fullBook.side .ask)) (fullBook.side .ask).len = 4000 := by
    decide +kernel
  have haccount : account .ask [⟨.ask, 5000, 2⟩] (fullBook.side .ask) = Account.step .ask
      ⟨points ((levels (fullBook.side .ask)).take 4000), points ((levels (fullBook.side .ask)).drop 4000)⟩
      ⟨.ask, 5000, 2⟩ := by
    rw [← hkept]
    rfl
  have hquantity : quantity 2 = some 2 := by decide +kernel
  rw [Account.step_set hquantity] at haccount
  have hcard : (insert (5000 : ℚ) (points ((levels (fullBook.side .ask)).take 4000))).card ≤ MAX_BUFFER := by
    have hle := Finset.card_insert_le (5000 : ℚ) (points ((levels (fullBook.side .ask)).take 4000))
    rw [Sorted.card_points (Sorted.take (fullBook_sorted .ask) 4000), List.length_take] at hle
    unfold MAX_BUFFER
    omega
  have hlive : (5000 : ℚ) ∈ (account .ask [⟨.ask, 5000, 2⟩] (fullBook.side .ask)).live := by
    rw [haccount]
    dsimp only
    rw [fitting_of_card_le hcard]
    exact Finset.mem_insert_self _ _
  have hlost : (4500 : ℚ) ∈ (account .ask [⟨.ask, 5000, 2⟩] (fullBook.side .ask)).lost := by
    have hlevel : ((4500 : ℚ), (1 : ℚ)) ∈ (levels (fullBook.side .ask)).drop 4000 := by
      refine List.mem_iff_getElem.mpr ⟨499, ?_, ?_⟩
      · rw [List.length_drop, length_levels]
        decide
      · rw [List.getElem_drop, getElem_levels]
        decide +kernel
    have hne : (4500 : ℚ) ≠ 5000 := by decide +kernel
    rw [haccount]
    dsimp only
    rw [Finset.mem_union, Finset.mem_erase]
    exact Or.inl ⟨hne, mem_points.mpr ⟨1, hlevel⟩⟩
  have hlt := hbehind ⟨.ask, 5000, 2⟩ (by decide) hlive 4500 hlost
  exact absurd hlt (by decide +kernel)

end MikoV2.DataLayer
