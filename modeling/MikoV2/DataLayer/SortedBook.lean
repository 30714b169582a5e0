import MikoV2.DataLayer.Slices

/-!
# A book below its capacity

As long as no trim is needed, a side of the book is a sorted map, and a batch sets its prices.

* `Represents m s` : the levels of `s` list the map `m`, and the cells behind them are clear;
* `Represents.step` : one diff; `Represents.run` : the diffs of a side;
* `fewPrices_of_noTrim` : without a trim there is room for every price of the batch;
* `applyBatch_represents` : a batch that triggers no trim makes of each side what its diffs make of the map.
-/

namespace MikoV2.DataLayer
open SortedMap Loop

variable {Msg : Type} {name : SideName} {m : ℚ → Option ℚ} {s s' : Side} {d : Diff} {diffs : List Diff}

/-- The cells behind the levels are zero, up to the end of the arrays. -/
def Clear (s : Side) : Prop := ∀ i, s.len ≤ i → i < MAX_BUFFER → s.price i = 0 ∧ s.qty i = 0

/-- A side lists a map in the order of its prices, each of them once, with nothing behind its levels. -/
structure Represents (name : SideName) (m : ℚ → Option ℚ) (s : Side) : Prop where
  listed : Lists (sortKey name) m (levels s)
  clear : Clear s

/-- No side is trimmed for the batch. -/
def NoTrim (b : L2Book Msg) (diffs : List Diff) : Prop :=
  ∀ name, (b.side name).len + batchNew name diffs (b.side name) < MAX_BUFFER

/-! ## A side -/

/-- A sorted side represents what it holds. -/
theorem represents_self (hsorted : SortedSide name s) (hclear : Clear s) :
    Represents name (fun price => (levels s).lookup price) s := ⟨lists_lookup hsorted, hclear⟩

theorem Represents.sorted (h : Represents name m s) : SortedSide name s := h.listed.sorted

/-- What a price has on the side. -/
theorem Represents.lookup (h : Represents name m s) (price : ℚ) : (levels s).lookup price = m price := by
  refine Option.ext fun q => ?_
  rw [← (lists_lookup h.sorted).mem, h.listed.mem]

/-- The cells that a level gives up are cleared, and those it takes were clear. -/
theorem clear_applyLevel {price qty : ℚ} (hclear : Clear s) (h : applyLevel name s price qty = some s') : Clear s' := by
  have hidx := find_le name s price
  unfold applyLevel at h
  intro i hlen hi
  by_cases hfound : (find name s price).2 = true
  · simp only [hfound, if_true] at h
    have hlt : (find name s price).1 < s.len := by
      unfold find at hfound ⊢
      split at hfound
      · rw [if_pos ‹_›]
        simp only [Bool.and_eq_true, decide_eq_true_eq] at hfound
        exact hfound.1
      · cases hfound
    split at h
    · cases h
      by_cases hlast : i = s.len - 1
      · simp only [hlast, if_true, and_self]
      · have hbehind : s.len ≤ i := by
          dsimp only at hlen
          omega
        have hnot : ¬ ((find name s price).1 ≤ i ∧ i < s.len - 1) := by omega
        simp only [if_neg hlast, if_neg hnot]
        exact hclear i hbehind hi
    · cases h
      have hne : i ≠ (find name s price).1 := by
        dsimp only at hlen
        omega
      simp only [Function.update_of_ne hne]
      exact hclear i hlen hi
  · simp only [hfound, Bool.false_eq_true, if_false] at h
    split at h
    · cases h
      exact hclear i hlen hi
    · split at h
      · split at h
        · cases h
        · cases h
          have hbehind : s.len + 1 ≤ i := by
            dsimp only at hlen
            split at hlen
            · exact hlen
            · omega
          have hne : i ≠ (find name s price).1 := by omega
          have hnot : ¬ ((find name s price).1 < i ∧ i ≤ s.len ∧ i < MAX_BUFFER) := by omega
          simp only [if_neg hne, if_neg hnot]
          exact hclear i (by omega) hi
      · cases h
        exact hclear i hlen hi

/-- **One diff** sets its price in the map. -/
theorem Represents.step (h : Represents name m s) (hfits : s.len ≤ MAX_BUFFER) (happ : Applied name s d s') :
    Represents name (setPrice m d) s' := by
  refine ⟨?_, clear_applyLevel h.clear happ.returns⟩
  rw [(happ.levels_eq h.sorted hfits).1]
  exact h.listed.put (sortKey_injective name)

/-- The diffs of a side, one after the other. -/
theorem Represents.run : ∀ {diffs : List Diff} {m : ℚ → Option ℚ} {s : Side}, Represents name m s → s.len ≤ MAX_BUFFER →
    SideApplied name diffs s →
    Runs.runM (fun s d => applyLevel name s d.price d.qty) s diffs = some s' →
      Represents name (diffs.foldl setPrice m) s' := by
  intro diffs
  induction diffs with
  | nil =>
    intro m s h _ _ hrun
    cases hrun
    exact h
  | cons d diffs ih =>
    rintro m s h hfits ⟨t, happ, hrest⟩ hrun
    rw [Runs.runM_cons, happ.returns] at hrun
    exact ih (h.step hfits happ) happ.inside hrest hrun

/-! ## A batch -/

/-- The new prices of a side are those of its diffs that are counted. -/
theorem foldl_pricesAfter_subset {prices : Finset ℚ} : ∀ {pre : List Diff} {start : Finset ℚ}, start ⊆ prices →
    (∀ d ∈ pre, d.qty ≠ 0 → d.price ∈ prices) → pre.foldl pricesAfter start ⊆ prices := by
  intro pre
  induction pre with
  | nil => exact fun hstart _ => hstart
  | cons d pre ih =>
    intro start hstart hpre
    rw [List.foldl_cons]
    refine ih ?_ fun e he => hpre e (List.mem_cons_of_mem _ he)
    unfold pricesAfter
    split
    · exact (Finset.erase_subset _ _).trans hstart
    · exact Finset.insert_subset (hpre d List.mem_cons_self ‹_›) hstart

/-- Without a trim, the prices of a side and the new ones fit at any time. -/
theorem fewPrices_of_noTrim (hsorted : SortedSide name s) (h : s.len + batchNew name diffs s < MAX_BUFFER) :
    FewPrices name diffs s := by
  have hkept : kept (batchNew name diffs s) s.len = s.len := if_pos h
  intro pre hpre
  rw [hkept, List.take_of_length_le (by rw [length_levels])]
  have hsub : pre.foldl pricesAfter (points (levels s)) ⊆
      points (levels s) ∪ ((newLevels name diffs s).map Diff.price).toFinset := by
    refine foldl_pricesAfter_subset Finset.subset_union_left fun d hd hqty => ?_
    obtain ⟨hin, hside⟩ := List.mem_filter.mp (hpre.subset hd)
    by_cases hprice : d.price ∈ points (levels s)
    · exact Finset.mem_union_left _ hprice
    · refine Finset.mem_union_right _ (List.mem_toFinset.mpr (List.mem_map_of_mem (List.mem_filter.mpr ⟨hin, ?_⟩)))
      have hfound : (find name s d.price).2 = false := Bool.eq_false_iff.mpr fun hf => hprice ((find_mem hsorted).mp hf)
      rw [hside, hfound]
      simpa using hqty
  have hcard := Finset.card_le_card hsub
  have hunion := Finset.card_union_le (points (levels s)) ((newLevels name diffs s).map Diff.price).toFinset
  have hnew := List.toFinset_card_le ((newLevels name diffs s).map Diff.price)
  rw [List.length_map, ← batchNew_eq] at hnew
  rw [Sorted.card_points hsorted, length_levels] at hunion
  omega

/-- A batch whose diffs go through on the sides that the trim leaves. -/
theorem applyBatch_of_ends {b b' : L2Book Msg} {bids asks : Side}
    (hbids : Ends (roomRound (batchNew .bid diffs b.bids)) b.bids bids)
    (hasks : Ends (roomRound (batchNew .ask diffs b.asks)) b.asks asks)
    (hdiffs : applyDiffs diffs { b with bids, asks } = (true, b')) :
    applyBatch b diffs b.seqEpoch = .returned true b' := by
  unfold applyBatch
  rw [if_neg (not_not.mpr rfl), ends_roomRound.mp hbids, ends_roomRound.mp hasks]
  dsimp only
  rw [hdiffs]

/-- **Below the capacity.** On sorted and clear sides, a batch of the book's epoch that triggers no trim returns `True`.
Each side then represents the map of its levels after the diffs, and a side without diffs is as it was. -/
theorem applyBatch_represents {b : L2Book Msg} (hsorted : ∀ name, SortedSide name (b.side name))
    (hclear : ∀ name, Clear (b.side name)) (hroom : NoTrim b diffs) :
    ∃ b', applyBatch b diffs b.seqEpoch = .returned true b' ∧
      (∀ name, Represents name (ideal name diffs (b.side name)) (b'.side name)) ∧
      (∀ name, (∀ d ∈ diffs, d.side ≠ name) → b'.side name = b.side name) := by
  have hfits : ∀ name, (b.side name).len ≤ MAX_BUFFER := fun name => by
    have := hroom name
    omega
  have hdone : ∀ name, Ends (roomRound (batchNew name diffs (b.side name))) (b.side name) (b.side name) := fun name =>
    (ends_done (roomRound_fits (not_le.mpr (hroom name)))).mpr rfl
  have heach : EachApplied diffs b := (eachApplied_trimmed hsorted hfits (hdone .bid) (hdone .ask)).mpr fun name =>
    fewPrices_of_noTrim (hsorted name) (hroom name)
  have hdiffs : applyDiffs diffs b = (true, (applyDiffs diffs b).2) := Prod.ext heach.returns rfl
  have hside := fun name => applyDiffs_side name diffs b _ hdiffs
  refine ⟨_, applyBatch_of_ends (hdone .bid) (hdone .ask) hdiffs, fun name => ?_, fun name hnone => ?_⟩
  · have hself := represents_self (hsorted name) (hclear name)
    exact hself.run (hfits name) ((eachApplied_iff diffs b).mp heach name) (hside name)
  · have hnil : ofSide name diffs = [] := List.filter_eq_nil_iff.mpr fun d hd => by simpa using hnone d hd
    have hrun := hside name
    rw [hnil] at hrun
    exact (Option.some.inj hrun).symm

/-- Two bids, and a batch that puts one between them, takes the first, and opens the ask side. -/
theorem applyBatch_represents_twoBids :
    let bids : Side := ⟨fun i => if i = 0 then 100 else if i = 1 then 98 else 0, fun i => if i < 2 then 1 else 0, 2⟩
    let b : L2Book Unit := { bids := bids }
    let diffs : List Diff := [⟨.bid, 99, 3⟩, ⟨.bid, 100, 0⟩, ⟨.ask, 101, 2⟩]
    ∃ b', applyBatch b diffs b.seqEpoch = .returned true b' ∧
      (∀ name, Represents name (ideal name diffs (b.side name)) (b'.side name)) ∧
      (∀ name, (∀ d ∈ diffs, d.side ≠ name) → b'.side name = b.side name) := by
  intro bids b diffs
  refine applyBatch_represents (fun name => ?_) (fun name i hlen _ => ?_) fun name => ?_
  · unfold SortedSide Sorted
    cases name with
    | bid => decide
    | ask => exact List.Pairwise.nil
  · cases name with
    | bid =>
      have hi : 2 ≤ i := hlen
      simp only [L2Book.side, b, bids]
      rw [if_neg (by omega), if_neg (by omega), if_neg (by omega)]
      exact ⟨rfl, rfl⟩
    | ask => exact ⟨rfl, rfl⟩
  · cases name with
    | bid => decide
    | ask => decide

end MikoV2.DataLayer
