import MikoV2.Backtest.Isolation

/-!
# The replay stream is the sorted union of the tables

* `stream` : the stream of one symbol; `matchingEvents` : the events of the rows that a query of some symbols matches;
* `heapqMerge_perm` : merging neither drops an element nor doubles one;
* `tables_perm` : the queries of different symbols match each row that one of them matches once;
* `SortedUnion` : one event for each matching row, in the order of the merge key, whatever the order of the symbols
  and however often each is given, and that of one symbol is its own stream; `streamMulti_sortedUnion`.
-/

namespace MikoV2.Backtest

variable (db : EventDb) (symbols : List String) (tsFrom tsTo : ℤ)

/-- `stream(ts_from, ts_to)` of the transport of one symbol. -/
def stream (symbol : String) : List AnyEvent :=
  heapqMerge AnyEvent.mergeLe
    [ohlcvGen db symbol tsFrom tsTo, depthGen db symbol tsFrom tsTo, tickerGen db symbol tsFrom tsTo]

/-- The events of the rows of the symbols in the range, table by table. -/
def matchingEvents : List AnyEvent :=
  ((db.ohlcv.filter fun r => r.symbol ∈ symbols ∧ tsFrom ≤ r.sec * 1000 ∧ r.sec * 1000 ≤ tsTo).map
      fun r => .ohlcv r.event) ++
    ((db.depth.filter fun r => r.symbol ∈ symbols ∧ tsFrom ≤ r.timestampMs ∧ r.timestampMs ≤ tsTo).map fun r =>
      .depth r.event) ++
    (db.ticker.filter fun r => r.symbol ∈ symbols ∧ tsFrom ≤ r.tsMs ∧ r.tsMs ≤ tsTo).map fun r => .ticker r.event

structure SortedUnion : Prop where
  /-- one event for each matching row -/
  rows : (streamMulti db symbols tsFrom tsTo).Perm (matchingEvents db symbols tsFrom tsTo)
  /-- by `(ts_ms, type rank, symbol, source_seq)` -/
  sorted : (streamMulti db symbols tsFrom tsTo).Pairwise fun a b => a.mergeKey ≤ b.mergeKey
  /-- for every list of the same symbols -/
  list : ∀ symbols', (∀ s, s ∈ symbols' ↔ s ∈ symbols) →
    streamMulti db symbols' tsFrom tsTo = streamMulti db symbols tsFrom tsTo
  /-- the events of one symbol are its own stream -/
  own : ∀ s ∈ symbols,
    (streamMulti db symbols tsFrom tsTo).filter (fun ev => ev.symbol = s) = stream db tsFrom tsTo s

/-! ## Merging -/

theorem heapqMerge_perm {α : Type} (le : α → α → Bool) (gens : List (List α)) :
    (heapqMerge le gens).Perm gens.flatten := by
  induction gens with
  | nil => exact List.Perm.refl []
  | cons g gens ih =>
    rw [List.flatten_cons]
    exact (List.merge_perm_append _).trans (ih.append_left g)

/-! ## Queries -/

section Queries
variable {ρ α : Type} (key : ρ → String) (inRange : ρ → Prop) [DecidablePred inRange] (le : ρ → ρ → Bool) (f : ρ → α)
  (rows : List ρ)

/-- The rows of one more symbol. -/
theorem filter_cons_perm {s : String} {syms : List String} (hs : s ∉ syms) :
    (rows.filter fun r => key r ∈ s :: syms ∧ inRange r).Perm
      ((rows.filter fun r => key r = s ∧ inRange r) ++ rows.filter fun r => key r ∈ syms ∧ inRange r) := by
  refine (List.filter_append_perm (fun r => decide (key r = s)) _).symm.trans ?_
  rw [List.filter_filter, List.filter_filter]
  refine List.Perm.of_eq (congrArg₂ _ (List.filter_congr fun r _ => ?_) (List.filter_congr fun r _ => ?_))
  · by_cases hr : key r = s
    · simp [hr]
    · simp [hr]
  · by_cases hr : key r = s
    · simp [hr, hs]
    · simp [hr]

/-- The queries of different symbols, one after the other, match what one query of all of them matches. -/
theorem tables_perm {syms : List String} (h : syms.Nodup) :
    (syms.map fun s => ((rows.filter fun r => key r = s ∧ inRange r).mergeSort le).map f).flatten.Perm
      ((rows.filter fun r => key r ∈ syms ∧ inRange r).map f) := by
  induction syms with
  | nil => simp
  | cons s syms ih =>
    obtain ⟨hs, hsyms⟩ := List.nodup_cons.mp h
    rw [List.map_cons, List.flatten_cons]
    refine List.Perm.trans ?_ ((filter_cons_perm key inRange rows hs).map f).symm
    rw [List.map_append]
    exact ((List.mergeSort_perm _ le).map f).append (ih hsyms)

end Queries

/-- `sorted(set(symbols))` depends on the set. -/
theorem sortedSymbols_congr {symbols symbols' : List String} (h : ∀ s, s ∈ symbols' ↔ s ∈ symbols) :
    sortedSymbols symbols' = sortedSymbols symbols := by
  have hsorted : ∀ l : List String, (sortedSymbols l).Pairwise (· ≤ ·) := fun l =>
    (List.pairwise_mergeSort (by simpa using fun a b c => le_trans) (by simpa using le_total) l.dedup).imp
      of_decide_eq_true
  refine List.Perm.eq_of_pairwise (fun a b _ _ => le_antisymm) (hsorted symbols') (hsorted symbols) ?_
  refine (List.perm_ext_iff_of_nodup (nodup_sortedSymbols symbols') (nodup_sortedSymbols symbols)).mpr fun s => ?_
  rw [mem_sortedSymbols, mem_sortedSymbols, h]

theorem streamMulti_perm : (streamMulti db symbols tsFrom tsTo).Perm (matchingEvents db symbols tsFrom tsTo) := by
  have hnodup := nodup_sortedSymbols symbols
  unfold streamMulti matchingEvents
  refine (heapqMerge_perm _ _).trans ?_
  rw [List.flatten_append, List.flatten_append]
  have hmem : ∀ s, s ∈ symbols ↔ s ∈ sortedSymbols symbols := fun s => mem_sortedSymbols.symm
  simp only [hmem]
  refine (List.Perm.append ?_ ?_).append ?_
  · exact tables_perm _ _ _ _ _ hnodup
  · exact tables_perm _ _ _ _ _ hnodup
  · exact tables_perm _ _ _ _ _ hnodup

/-- **The stream of many symbols is the sorted union of their rows**, for every content of the tables. -/
theorem streamMulti_sortedUnion : SortedUnion db symbols tsFrom tsTo where
  rows := streamMulti_perm db symbols tsFrom tsTo
  sorted := (pairwise_heapqMerge mergeLe_trans mergeLe_total (streamMulti_gens_sorted db tsFrom tsTo _)).imp
    of_decide_eq_true
  list := fun symbols' h => by
    unfold streamMulti
    rw [sortedSymbols_congr h]
  own := fun _ hs => streamMulti_symbol db tsFrom tsTo hs

end MikoV2.Backtest
