import MikoV2.Backtest.Accounting

/-!
# Signals of one symbol

* `filter_heapqMerge` : what is left of merged streams is the merge of what is left of each;
* `streamMulti_symbol` : the events of a symbol in the stream of many are its own stream, `ohlcvs_symbolStream` its bars;
* `strategyStep`, `strategies_run` : the strategy of a symbol sees the events of the symbol only;
* `detect`, `Raises` : a detector on the bars of a symbol; `run_raises_iff` : a run raises when one of its detectors does;
* `independent_iff` : what a run reports of a symbol does not depend on the others, unless one of them raises.
-/

namespace MikoV2.Backtest
open Py (Dict)

/-! ## Streams -/

section Merge
variable {α : Type} {le : α → α → Bool} (p : α → Bool)

/-- Elements that stay come from the list that holds the least of them: nothing before them in their own list is
greater. -/
theorem filter_merge (htrans : ∀ a b c, le a b = true → le b c = true → le a c = true) :
    ∀ (xs ys : List α), xs.Pairwise (fun a b => le a b = true) → ys.Pairwise (fun a b => le a b = true) →
      (List.merge xs ys le).filter p = List.merge (xs.filter p) (ys.filter p) le := by
  intro xs
  induction xs with
  | nil =>
    intro ys _ _
    rw [List.nil_merge, List.filter_nil, List.nil_merge]
  | cons x xs ihx =>
    intro ys hx hy
    induction ys with
    | nil => rw [List.merge_right, List.filter_nil, List.merge_right]
    | cons y ys ihy =>
      rw [List.cons_merge_cons]
      by_cases hle : le x y = true
      · rw [if_pos hle]
        have ih := ihx (y :: ys) hx.tail hy
        by_cases hp : p x = true
        · rw [List.filter_cons_of_pos hp, ih, List.filter_cons_of_pos hp]
          cases hf : (y :: ys).filter p with
          | nil => rw [List.merge_right, List.merge_right]
          | cons z zs =>
            have hz : z ∈ y :: ys := List.mem_of_mem_filter (by rw [hf]; exact List.mem_cons_self)
            have hyz : le x z = true := by
              rcases List.mem_cons.mp hz with rfl | hz
              · exact hle
              · exact htrans x y z hle (List.rel_of_pairwise_cons hy hz)
            rw [List.cons_merge_cons, if_pos hyz]
        · rw [List.filter_cons_of_neg hp, ih, List.filter_cons_of_neg hp]
      · rw [if_neg hle]
        have ih := ihy hy.tail
        by_cases hp : p y = true
        · rw [List.filter_cons_of_pos hp, ih, List.filter_cons_of_pos hp]
          cases hf : (x :: xs).filter p with
          | nil => rw [List.nil_merge, List.nil_merge]
          | cons z zs =>
            have hz : z ∈ x :: xs := List.mem_of_mem_filter (by rw [hf]; exact List.mem_cons_self)
            have hzy : ¬ le z y = true := by
              intro hzy
              rcases List.mem_cons.mp hz with rfl | hz
              · exact hle hzy
              · exact hle (htrans x z y (List.rel_of_pairwise_cons hx hz) hzy)
            rw [List.cons_merge_cons, if_neg hzy]
        · rw [List.filter_cons_of_neg hp, ih, List.filter_cons_of_neg hp]

theorem filter_heapqMerge (htrans : ∀ a b c, le a b = true → le b c = true → le a c = true)
    (htotal : ∀ a b, (le a b || le b a) = true) {gens : List (List α)}
    (h : ∀ g ∈ gens, g.Pairwise fun a b => le a b = true) :
    (heapqMerge le gens).filter p = heapqMerge le (gens.map (List.filter p)) := by
  induction gens with
  | nil => rfl
  | cons g gens ih =>
    have hg := h g List.mem_cons_self
    have hrest : ∀ g' ∈ gens, g'.Pairwise fun a b => le a b = true := fun g' hg' => h g' (List.mem_cons_of_mem g hg')
    have hmerge := filter_merge p htrans g (heapqMerge le gens) hg (pairwise_heapqMerge htrans htotal hrest)
    rw [ih hrest] at hmerge
    exact hmerge

end Merge

/-- The streams of other keys are empty. -/
theorem foldr_merge_single {K α : Type} [DecidableEq K] {le : α → α → Bool} {s : K} {f : K → List α} {l : List K}
    (hl : l.Nodup) (hs : s ∈ l) (hf : ∀ k, k ≠ s → f k = []) (rest : List α) :
    (l.map f).foldr (fun g rest => List.merge g rest le) rest = List.merge (f s) rest le := by
  have hskip : ∀ m : List K, s ∉ m → (m.map f).foldr (fun g rest => List.merge g rest le) rest = rest := by
    intro m
    induction m with
    | nil => exact fun _ => rfl
    | cons k m ih =>
      intro hm
      rw [List.mem_cons, not_or] at hm
      rw [List.map_cons, List.foldr_cons, ih hm.2, hf k (Ne.symm hm.1), List.nil_merge]
  induction l with
  | nil => cases hs
  | cons k l ih =>
    obtain ⟨hk, hl⟩ := List.nodup_cons.mp hl
    rw [List.map_cons, List.foldr_cons]
    by_cases heq : k = s
    · rw [heq] at hk ⊢
      rw [hskip l hk]
    · rw [ih hl ((List.mem_cons.mp hs).resolve_left (Ne.symm heq)), hf k heq, List.nil_merge]

theorem mem_sortedSymbols {symbols : List String} {s : String} : s ∈ sortedSymbols symbols ↔ s ∈ symbols := by
  unfold sortedSymbols
  rw [List.mem_mergeSort, List.mem_dedup]

theorem nodup_sortedSymbols (symbols : List String) : (sortedSymbols symbols).Nodup :=
  (List.mergeSort_perm _ _).nodup_iff.mpr (List.nodup_dedup symbols)

section Streams
variable (db : EventDb) (tsFrom tsTo : ℤ) {s k : String}

/-- The events of one symbol, table by table. -/
def symbolStream (s : String) : List AnyEvent :=
  heapqMerge AnyEvent.mergeLe [ohlcvGen db s tsFrom tsTo, depthGen db s tsFrom tsTo, tickerGen db s tsFrom tsTo]

theorem streamMulti_gens_sorted (syms : List String) :
    ∀ g ∈ (syms.map fun s => ohlcvGen db s tsFrom tsTo) ++ (syms.map fun s => depthGen db s tsFrom tsTo) ++
      (syms.map fun s => tickerGen db s tsFrom tsTo), g.Pairwise fun a b => a.mergeLe b = true := by
  intro g hg
  simp only [List.mem_append, List.mem_map] at hg
  obtain (⟨s, -, rfl⟩ | ⟨s, -, rfl⟩) | ⟨s, -, rfl⟩ := hg
  · exact ohlcvGen_sorted ..
  · exact depthGen_sorted ..
  · exact tickerGen_sorted ..

/-- The events of a generator are those of its symbol. -/
theorem filter_gen {gen : List AnyEvent} (h : ∀ ev ∈ gen, ev.symbol = k) :
    gen.filter (fun ev => ev.symbol = s) = if k = s then gen else [] := by
  split
  · rename_i hk
    exact List.filter_eq_self.mpr fun ev hev => decide_eq_true ((h ev hev).trans hk)
  · rename_i hk
    exact List.filter_eq_nil_iff.mpr fun ev hev hs => hk ((h ev hev).symm.trans (of_decide_eq_true hs))

theorem ohlcvGen_symbol : ∀ ev ∈ ohlcvGen db s tsFrom tsTo, ev.symbol = s ∧ ev.rank = 0 := by
  intro ev hev
  obtain ⟨row, hrow, rfl⟩ := List.mem_map.mp hev
  rw [List.mem_mergeSort, List.mem_filter, decide_eq_true_eq] at hrow
  exact ⟨hrow.2.1, rfl⟩

theorem depthGen_symbol : ∀ ev ∈ depthGen db s tsFrom tsTo, ev.symbol = s ∧ ev.rank = 1 := by
  intro ev hev
  obtain ⟨row, hrow, rfl⟩ := List.mem_map.mp hev
  rw [List.mem_mergeSort, List.mem_filter, decide_eq_true_eq] at hrow
  exact ⟨hrow.2.1, rfl⟩

theorem tickerGen_symbol : ∀ ev ∈ tickerGen db s tsFrom tsTo, ev.symbol = s ∧ ev.rank = 2 := by
  intro ev hev
  obtain ⟨row, hrow, rfl⟩ := List.mem_map.mp hev
  rw [List.mem_mergeSort, List.mem_filter, decide_eq_true_eq] at hrow
  exact ⟨hrow.2.1, rfl⟩

/-- **The events of a symbol** in the stream of many are its own stream. -/
theorem streamMulti_symbol {symbols : List String} (hs : s ∈ symbols) :
    (streamMulti db symbols tsFrom tsTo).filter (fun ev => ev.symbol = s) = symbolStream db tsFrom tsTo s := by
  have hmem := mem_sortedSymbols.mpr hs
  have hnodup := nodup_sortedSymbols symbols
  unfold streamMulti
  rw [filter_heapqMerge _ mergeLe_trans mergeLe_total (streamMulti_gens_sorted db tsFrom tsTo _)]
  unfold symbolStream heapqMerge
  rw [List.map_append, List.map_append, List.map_map, List.map_map, List.map_map, List.foldr_append, List.foldr_append]
  have hgen : ∀ (gen : String → List AnyEvent) (rest : List AnyEvent), (∀ k, ∀ ev ∈ gen k, ev.symbol = k) →
      ((sortedSymbols symbols).map (List.filter (fun ev : AnyEvent => ev.symbol = s) ∘ gen)).foldr
        (fun g rest => List.merge g rest AnyEvent.mergeLe) rest = List.merge (gen s) rest AnyEvent.mergeLe := by
    intro gen rest hgen
    rw [foldr_merge_single hnodup hmem (fun k hk => ?_)]
    · rw [Function.comp_apply, filter_gen (hgen s), if_pos rfl]
    · rw [Function.comp_apply, filter_gen (hgen k), if_neg hk]
  rw [hgen (fun s => tickerGen db s tsFrom tsTo) _ fun k ev hev => (tickerGen_symbol db tsFrom tsTo ev hev).1,
    hgen (fun s => depthGen db s tsFrom tsTo) _ fun k ev hev => (depthGen_symbol db tsFrom tsTo ev hev).1,
    hgen (fun s => ohlcvGen db s tsFrom tsTo) _ fun k ev hev => (ohlcvGen_symbol db tsFrom tsTo ev hev).1]
  rfl

theorem streamMulti_other {symbols : List String} (hs : s ∉ symbols) :
    (streamMulti db symbols tsFrom tsTo).filter (fun ev => ev.symbol = s) = [] := by
  rw [List.filter_eq_nil_iff]
  intro ev hev
  rw [decide_eq_true_eq]
  intro hk
  refine hs (mem_sortedSymbols.mp ?_)
  unfold streamMulti at hev
  simp only [mem_heapqMerge, List.mem_append, List.mem_map] at hev
  obtain ⟨g, (⟨k, hmem, rfl⟩ | ⟨k, hmem, rfl⟩) | ⟨k, hmem, rfl⟩, hev⟩ := hev
  · rwa [← hk, (ohlcvGen_symbol db tsFrom tsTo ev hev).1]
  · rwa [← hk, (depthGen_symbol db tsFrom tsTo ev hev).1]
  · rwa [← hk, (tickerGen_symbol db tsFrom tsTo ev hev).1]

end Streams

/-- A table in the order of its seconds is queried without sorting. -/
theorem ohlcvGen_of_sorted {db : EventDb} {s : String} {tsFrom tsTo : ℤ}
    (h : (db.ohlcv.filter fun r => r.symbol = s ∧ tsFrom ≤ r.sec * 1000 ∧ r.sec * 1000 ≤ tsTo).Pairwise
      fun a b => a.sec ≤ b.sec) :
    ohlcvGen db s tsFrom tsTo =
      (db.ohlcv.filter fun r => r.symbol = s ∧ tsFrom ≤ r.sec * 1000 ∧ r.sec * 1000 ≤ tsTo).map fun r => .ohlcv r.event := by
  unfold ohlcvGen
  rw [List.mergeSort_of_pairwise (h.imp fun hab => decide_eq_true hab)]

/-- The stream of one symbol whose bars are in order, without other events. -/
theorem streamMulti_bars {db : EventDb} (hdepth : db.depth = []) (hticker : db.ticker = [])
    (hsorted : db.ohlcv.Pairwise fun a b => a.sec ≤ b.sec) (s : String) (tsFrom tsTo : ℤ) :
    streamMulti db [s] tsFrom tsTo =
      (db.ohlcv.filter fun r => r.symbol = s ∧ tsFrom ≤ r.sec * 1000 ∧ r.sec * 1000 ≤ tsTo).map fun r => .ohlcv r.event := by
  have hsyms : sortedSymbols [s] = [s] := by simp [sortedSymbols]
  have hbars : ohlcvGen db s tsFrom tsTo = _ := ohlcvGen_of_sorted (hsorted.sublist List.filter_sublist)
  unfold streamMulti depthGen tickerGen
  rw [hsyms, hdepth, hticker, ← hbars]
  simp [heapqMerge]

namespace MultiSymbolRunner

variable {cfg : PositionSim.PositionSimConfig} {scfg : StrategyConfig} {dcfg : DetectorConfig}
  {r r' : MultiSymbolRunner} {s : String}

/-! ## Strategies -/

/-- What an event of its symbol does to a strategy; `none` when its detector raises. -/
def strategyStep (scfg : StrategyConfig) (dcfg : DetectorConfig) (st : Option Strategy) : AnyEvent → Option (Option Strategy)
  | .ohlcv ev => ((st.getD {}).onOhlcv scfg dcfg ev).map fun out => some out.2
  | .depth _ => some st
  | .ticker _ => some (some (st.getD {}))

theorem get?_ensureSymbol_other {symbol : String} (hs : s ≠ symbol) (r : MultiSymbolRunner) :
    (ensureSymbol symbol r).strategies.get? s = r.strategies.get? s := by
  unfold ensureSymbol
  split
  · rfl
  · exact (Dict.get?_set ..).trans (if_neg hs)

/-- The strategies after a bar, when its strategy returns. -/
theorem onOhlcv_strategies {ev : OHLCVEvent} (h : onOhlcv cfg scfg dcfg ev r = some r') : ∃ out,
    ((r.strategies.get? ev.symbol).getD {}).onOhlcv scfg dcfg ev = some out ∧
      r'.strategies = (ensureSymbol ev.symbol r).strategies.set ev.symbol out.2 := by
  obtain ⟨entries, strat, fed, hstrat, -, -, hstrategies, rfl⟩ := onOhlcv_cases h
  exact ⟨_, hstrat, by rw [foldl_execute_strategies, noteCooldown_strategies, hstrategies]⟩

theorem onOhlcv_isSome (cfg : PositionSim.PositionSimConfig) (ev : OHLCVEvent) (r : MultiSymbolRunner) :
    (onOhlcv cfg scfg dcfg ev r).isSome = (((r.strategies.get? ev.symbol).getD {}).onOhlcv scfg dcfg ev).isSome := by
  unfold onOhlcv
  dsimp only
  rw [get?_ensureSymbol, Option.getD_some]
  split
  · rename_i h
    rw [h]
    rfl
  · rename_i h
    rw [h]
    rfl

/-- An event changes the strategy of its symbol as that strategy alone would change, and no other. -/
theorem onEvent_strategy {a : AnyEvent} (h : onEvent cfg scfg dcfg r a = some r') :
    strategyStep scfg dcfg (r.strategies.get? a.symbol) a = some (r'.strategies.get? a.symbol) ∧
      ∀ s, s ≠ a.symbol → r'.strategies.get? s = r.strategies.get? s := by
  cases a with
  | ohlcv ev =>
    obtain ⟨out, hout, hset⟩ := onOhlcv_strategies h
    refine ⟨?_, fun s (hs : s ≠ ev.symbol) => ?_⟩
    · show (((r.strategies.get? ev.symbol).getD {}).onOhlcv scfg dcfg ev).map _ = some (r'.strategies.get? ev.symbol)
      rw [hout, hset, Dict.get?_set, if_pos rfl]
      rfl
    · rw [hset, Dict.get?_set, if_neg hs]
      exact get?_ensureSymbol_other hs r
  | depth ev =>
    cases h
    exact ⟨rfl, fun s _ => rfl⟩
  | ticker ev =>
    cases h
    refine ⟨?_, fun s hs => get?_ensureSymbol_other hs r⟩
    show some (some _) = some ((ensureSymbol ev.symbol r).strategies.get? ev.symbol)
    rw [get?_ensureSymbol]
    rfl

theorem onEvent_isSome (cfg : PositionSim.PositionSimConfig) (a : AnyEvent) (r : MultiSymbolRunner) :
    (onEvent cfg scfg dcfg r a).isSome = (strategyStep scfg dcfg (r.strategies.get? a.symbol) a).isSome := by
  cases a with
  | ohlcv ev =>
    show (onOhlcv cfg scfg dcfg ev r).isSome = _
    rw [onOhlcv_isSome]
    exact (Option.isSome_map ..).symm
  | depth ev => rfl
  | ticker ev => rfl

/-- The strategy of a symbol on the events of the symbol. -/
def strategyRun (scfg : StrategyConfig) (dcfg : DetectorConfig) (s : String) (evs : List AnyEvent) :
    Option (Option Strategy) :=
  Runs.runM (strategyStep scfg dcfg) none (evs.filter fun ev => ev.symbol = s)

theorem strategyRun_concat (evs : List AnyEvent) (a : AnyEvent) : strategyRun scfg dcfg s (evs ++ [a]) =
    if a.symbol = s then (strategyRun scfg dcfg s evs).bind fun st => strategyStep scfg dcfg st a
    else strategyRun scfg dcfg s evs := by
  unfold strategyRun
  rw [List.filter_append]
  split
  · rename_i hs
    rw [List.filter_cons_of_pos (by simpa using hs), List.filter_nil]
    refine Option.ext fun st => ?_
    rw [Runs.runM_concat, Option.bind_eq_some_iff]
  · rename_i hs
    rw [List.filter_cons_of_neg (by simpa using hs), List.filter_nil, List.append_nil]

/-- **Strategies.** In a run that returns, the strategy of every symbol is where the events of the symbol alone
would have taken it. -/
theorem strategies_run {windowId foldId : ℤ} {evs : List AnyEvent}
    (h : Runs.runM (onEvent cfg scfg dcfg) (init cfg windowId foldId) evs = some r) (s : String) :
    strategyRun scfg dcfg s evs = some (r.strategies.get? s) := by
  refine Runs.runM_history (J := fun evs r => strategyRun scfg dcfg s evs = some (r.strategies.get? s)) rfl
    (fun pre a m t ih ha => ?_) evs r h
  obtain ⟨hown, hother⟩ := onEvent_strategy ha
  rw [strategyRun_concat, ih]
  split
  · rename_i hs
    rw [← hs]
    exact hown
  · rename_i hs
    rw [hother s (Ne.symm hs)]

/-- A run raises exactly when the strategy of some symbol does. -/
theorem run_isSome_iff (cfg : PositionSim.PositionSimConfig) (windowId foldId : ℤ) (evs : List AnyEvent) :
    (Runs.runM (onEvent cfg scfg dcfg) (init cfg windowId foldId) evs).isSome ↔
      ∀ s, (strategyRun scfg dcfg s evs).isSome := by
  induction evs using List.reverseRecOn with
  | nil => exact iff_of_true rfl fun s => rfl
  | append_singleton evs a ih =>
    constructor
    · intro h s
      obtain ⟨r, hr⟩ := Option.isSome_iff_exists.mp h
      rw [strategies_run hr s]
      rfl
    · intro h
      have hevs : ∀ s, (strategyRun scfg dcfg s evs).isSome := by
        intro s
        have hs := h s
        rw [strategyRun_concat] at hs
        split at hs
        · exact Option.isSome_of_isSome_bind hs
        · exact hs
      obtain ⟨r, hr⟩ := Option.isSome_iff_exists.mp (ih.mpr hevs)
      have ha := h a.symbol
      rw [strategyRun_concat, if_pos rfl, strategies_run hr a.symbol, Option.bind_some, ← onEvent_isSome cfg] at ha
      obtain ⟨r', hr'⟩ := Option.isSome_iff_exists.mp ha
      rw [Runs.runM_concat.mpr ⟨r, hr, hr'⟩]
      rfl

/-! ## Detectors -/

/-- A bar goes to the detector; `none` when it raises. -/
def detect (dcfg : DetectorConfig) (d : SignalDetector) (ev : OHLCVEvent) : Option SignalDetector :=
  match feedOhlcv1s dcfg d ev with
  | (none, _) => none
  | (some _, d') => some d'

/-- The detector of a symbol divides by zero on one of the symbol's bars. -/
def Raises (dcfg : DetectorConfig) (db : EventDb) (tsFrom tsTo : ℤ) (s : String) : Prop :=
  Runs.runM (detect dcfg) {} (ohlcvs (ohlcvGen db s tsFrom tsTo)) = none

instance (dcfg : DetectorConfig) (db : EventDb) (tsFrom tsTo : ℤ) (s : String) : Decidable (Raises dcfg db tsFrom tsTo s) :=
  inferInstanceAs (Decidable (_ = none))

theorem onOhlcv_detector (scfg : StrategyConfig) (dcfg : DetectorConfig) (st : Strategy) (ev : OHLCVEvent) :
    (st.onOhlcv scfg dcfg ev).map (fun out => out.2.detector) = detect dcfg st.detector ev := by
  unfold Strategy.onOhlcv detect
  rcases feedOhlcv1s dcfg st.detector ev with ⟨_ | signals, d⟩
  · rfl
  · show some (tryEntry scfg ev.tsMs ev.close _).2.detector = some d
    rw [(tryEntry_same ..).detector, (foldl_record_same ..).detector]

/-- A strategy raises when its detector does. -/
theorem strategy_detector (scfg : StrategyConfig) (dcfg : DetectorConfig) (evs : List AnyEvent) :
    ∀ st, (Runs.runM (strategyStep scfg dcfg) st evs).map (fun st => (st.getD {}).detector) =
      Runs.runM (detect dcfg) (st.getD {}).detector (ohlcvs evs) := by
  induction evs with
  | nil => exact fun st => rfl
  | cons a evs ih =>
    intro st
    rw [Runs.runM_cons, Option.map_bind]
    cases a with
    | ohlcv ev =>
      have hbars : ohlcvs (.ohlcv ev :: evs) = ev :: ohlcvs evs := rfl
      have hdetector := onOhlcv_detector scfg dcfg (st.getD {}) ev
      rw [hbars, Runs.runM_cons, ← hdetector]
      cases hout : (st.getD {}).onOhlcv scfg dcfg ev with
      | none =>
        show ((((st.getD {}).onOhlcv scfg dcfg ev).map fun out => some out.2).bind _) = _
        rw [hout]
        rfl
      | some out =>
        show ((((st.getD {}).onOhlcv scfg dcfg ev).map fun out => some out.2).bind _) = _
        rw [hout]
        exact ih (some out.2)
    | depth ev => exact ih st
    | ticker ev => exact ih (some (st.getD {}))

theorem ohlcvs_eq_filter (evs : List AnyEvent) : ohlcvs evs = ohlcvs (evs.filter fun ev => ev.rank = 0) := by
  induction evs with
  | nil => rfl
  | cons a evs ih =>
    cases a with
    | ohlcv ev =>
      show ev :: ohlcvs evs = ev :: ohlcvs (evs.filter _)
      rw [ih]
    | depth ev => exact ih
    | ticker ev => exact ih

/-- The bars of a symbol are those of its table. -/
theorem ohlcvs_symbolStream (db : EventDb) (tsFrom tsTo : ℤ) (s : String) :
    ohlcvs (symbolStream db tsFrom tsTo s) = ohlcvs (ohlcvGen db s tsFrom tsTo) := by
  have hsorted : ∀ g ∈ [ohlcvGen db s tsFrom tsTo, depthGen db s tsFrom tsTo, tickerGen db s tsFrom tsTo],
      g.Pairwise fun a b => a.mergeLe b = true := by
    intro g hg
    simp only [List.mem_cons, List.not_mem_nil, or_false] at hg
    rcases hg with rfl | rfl | rfl
    · exact ohlcvGen_sorted ..
    · exact depthGen_sorted ..
    · exact tickerGen_sorted ..
  have hbars : (ohlcvGen db s tsFrom tsTo).filter (fun ev => ev.rank = 0) = ohlcvGen db s tsFrom tsTo :=
    List.filter_eq_self.mpr fun ev hev => decide_eq_true (ohlcvGen_symbol db tsFrom tsTo ev hev).2
  have hdepth : (depthGen db s tsFrom tsTo).filter (fun ev => ev.rank = 0) = [] := by
    refine List.filter_eq_nil_iff.mpr fun ev hev => ?_
    rw [(depthGen_symbol db tsFrom tsTo ev hev).2]
    decide
  have hticker : (tickerGen db s tsFrom tsTo).filter (fun ev => ev.rank = 0) = [] := by
    refine List.filter_eq_nil_iff.mpr fun ev hev => ?_
    rw [(tickerGen_symbol db tsFrom tsTo ev hev).2]
    decide
  rw [ohlcvs_eq_filter]
  unfold symbolStream
  rw [filter_heapqMerge _ mergeLe_trans mergeLe_total hsorted]
  simp only [List.map_cons, List.map_nil, hbars, hdepth, hticker, heapqMerge, List.foldr_cons, List.foldr_nil,
    List.merge_right]

/-- The strategy of a symbol of a run raises when its detector does on its table. -/
theorem strategyRun_streamMulti {db : EventDb} {symbols : List String} {tsFrom tsTo : ℤ} (hs : s ∈ symbols) :
    strategyRun scfg dcfg s (streamMulti db symbols tsFrom tsTo) =
        Runs.runM (strategyStep scfg dcfg) none (symbolStream db tsFrom tsTo s) ∧
      (strategyRun scfg dcfg s (streamMulti db symbols tsFrom tsTo) = none ↔ Raises dcfg db tsFrom tsTo s) := by
  unfold strategyRun Raises
  rw [streamMulti_symbol db tsFrom tsTo hs]
  refine ⟨rfl, ?_⟩
  have hdetector := strategy_detector scfg dcfg (symbolStream db tsFrom tsTo s) none
  rw [ohlcvs_symbolStream] at hdetector
  rw [← Option.map_eq_none_iff (f := fun st : Option Strategy => (st.getD {}).detector), hdetector]
  rfl

/-- **When a run raises**: when the detector of one of its symbols does. -/
theorem run_raises_iff (cfg : PositionSim.PositionSimConfig) (scfg : StrategyConfig) (dcfg : DetectorConfig)
    (windowId foldId : ℤ) (db : EventDb) (symbols : List String) (tsFrom tsTo : ℤ) :
    Runs.runM (onEvent cfg scfg dcfg) (init cfg windowId foldId) (streamMulti db symbols tsFrom tsTo) = none ↔
      ∃ s ∈ symbols, Raises dcfg db tsFrom tsTo s := by
  rw [← Option.not_isSome_iff_eq_none, run_isSome_iff, not_forall]
  refine exists_congr fun s => ?_
  rw [Option.not_isSome_iff_eq_none]
  by_cases hs : s ∈ symbols
  · rw [(strategyRun_streamMulti hs).2, and_iff_right hs]
  · refine iff_of_false ?_ fun h => hs h.1
    unfold strategyRun
    rw [streamMulti_other db tsFrom tsTo hs]
    exact Option.some_ne_none _

/-! ## What a run reports of a symbol -/

/-- `strategies[s].entries` and the result's `signal_counts[s]`; `none` when the run raises. -/
def reported (cfg : PositionSim.PositionSimConfig) (scfg : StrategyConfig) (dcfg : DetectorConfig) (windowId foldId : ℤ)
    (db : EventDb) (symbols : List String) (tsFrom tsTo : ℤ) (s : String) :
    Option (Option (List EntrySignal) × Option (SignalKind → ℕ)) :=
  (Runs.runM (onEvent cfg scfg dcfg) (init cfg windowId foldId) (streamMulti db symbols tsFrom tsTo)).map fun r =>
    ((r.strategies.get? s).map Strategy.entries,
      (close cfg dcfg tsTo ((streamMulti db symbols tsFrom tsTo).foldl countEvent {}) r).signalCounts.get? s)

/-- What a run that returns reports is read off the strategy that the symbol's own stream makes. -/
theorem reported_eq {windowId foldId tsFrom tsTo : ℤ} {db : EventDb} {symbols : List String} (hs : s ∈ symbols)
    (h : ¬ ∃ k ∈ symbols, Raises dcfg db tsFrom tsTo k) :
    reported cfg scfg dcfg windowId foldId db symbols tsFrom tsTo s =
      (Runs.runM (strategyStep scfg dcfg) none (symbolStream db tsFrom tsTo s)).map fun st =>
        (st.map Strategy.entries, st.map fun st => (st.finalize dcfg).2.signalCounts) := by
  have hsome := fun hnone => h ((run_raises_iff cfg scfg dcfg windowId foldId db symbols tsFrom tsTo).mp hnone)
  obtain ⟨r, hr⟩ := Option.ne_none_iff_exists'.mp hsome
  have hst := strategies_run hr s
  rw [(strategyRun_streamMulti hs).1] at hst
  unfold reported
  rw [hr, hst]
  show some ((r.strategies.get? s).map Strategy.entries, (r.strategies.mapValues _).get? s) = _
  rw [Dict.get?_mapValues]
  rfl

/-- **Signals of one symbol** do not depend on the others, exactly when no detector raises or the symbol's own
does. -/
theorem independent_iff (cfg : PositionSim.PositionSimConfig) (scfg : StrategyConfig) (dcfg : DetectorConfig)
    (windowId foldId : ℤ) (db : EventDb) (symbols : List String) (tsFrom tsTo : ℤ) (s : String) (hs : s ∈ symbols) :
    reported cfg scfg dcfg windowId foldId db symbols tsFrom tsTo s =
        reported cfg scfg dcfg windowId foldId db [s] tsFrom tsTo s ↔
      ((∃ k ∈ symbols, Raises dcfg db tsFrom tsTo k) → Raises dcfg db tsFrom tsTo s) := by
  have hnone : ∀ symbols, reported cfg scfg dcfg windowId foldId db symbols tsFrom tsTo s = none ↔
      ∃ k ∈ symbols, Raises dcfg db tsFrom tsTo k := by
    intro symbols
    rw [← run_raises_iff cfg scfg dcfg windowId foldId db symbols tsFrom tsTo]
    exact Option.map_eq_none_iff
  have halone : (∃ k ∈ [s], Raises dcfg db tsFrom tsTo k) ↔ Raises dcfg db tsFrom tsTo s := by simp
  by_cases hraises : ∃ k ∈ symbols, Raises dcfg db tsFrom tsTo k
  · rw [(hnone symbols).mpr hraises, eq_comm, hnone [s], halone]
    exact ⟨fun h _ => h, fun h => h hraises⟩
  · refine iff_of_true ?_ fun h => absurd h hraises
    have hown : ¬ ∃ k ∈ [s], Raises dcfg db tsFrom tsTo k := by
      rw [halone]
      exact fun h => hraises ⟨s, hs, h⟩
    rw [reported_eq hs hraises, reported_eq (List.mem_singleton_self s) hown]

/-- No detector raises on a table whose rows do not close at zero. -/
theorem not_raises_of_nonzero {db : EventDb} (h : ∀ row ∈ db.ohlcv, row.close.getD 0 ≠ 0) (dcfg : DetectorConfig)
    (tsFrom tsTo : ℤ) (s : String) : ¬ Raises dcfg db tsFrom tsTo s := by
  intro hraises
  have hnone := (run_raises_iff {} {} dcfg 0 0 db [s] tsFrom tsTo).mpr ⟨s, List.mem_singleton_self s, hraises⟩
  obtain ⟨result, hresult⟩ : ∃ result, runOn {} {} dcfg 0 0 tsTo (streamMulti db [s] tsFrom tsTo) = some result :=
    runOn_returns 0 0 tsTo (nonzero_streamMulti h [s] tsFrom tsTo)
  unfold runOn at hresult
  rw [hnone] at hresult
  cases hresult

theorem independent_iff_gap : "BTC_USDT" ∈ ["BTC_USDT", "ETH_USDT"] ∧
    reported gapConfig gapStrategy {} 0 0 gapDb ["BTC_USDT", "ETH_USDT"] 0 200000 "BTC_USDT" =
      reported gapConfig gapStrategy {} 0 0 gapDb ["BTC_USDT"] 0 200000 "BTC_USDT" := by
  refine ⟨by decide, (independent_iff _ _ _ _ _ _ _ _ _ _ (by decide)).mpr ?_⟩
  rintro ⟨k, -, hk⟩
  exact absurd hk (not_raises_of_nonzero (by decide) _ _ _ k)

/-- The close of one row of the second symbol is `NULL`, in the middle of its gap. -/
def nullCloseDb : EventDb where
  ohlcv := [barRow "BTC_USDT" 100 100, barRow "BTC_USDT" 105 102, barRow "ETH_USDT" 100 100,
    { barRow "ETH_USDT" 105 102 with close := none }, barRow "ETH_USDT" 110 104, barRow "ETH_USDT" 115 104]
  depth := []
  ticker := []

/-- The run of both symbols raises, the run of the first alone does not. -/
theorem not_independent_nullClose :
    ¬ reported gapConfig gapStrategy {} 0 0 nullCloseDb ["BTC_USDT", "ETH_USDT"] 0 200000 "BTC_USDT" =
      reported gapConfig gapStrategy {} 0 0 nullCloseDb ["BTC_USDT"] 0 200000 "BTC_USDT" := by
  have heth : Raises {} nullCloseDb 0 200000 "ETH_USDT" := by
    unfold Raises
    rw [ohlcvGen_of_sorted (by decide +kernel)]
    decide +kernel
  have hbtc : ¬ Raises {} nullCloseDb 0 200000 "BTC_USDT" := by
    unfold Raises
    rw [ohlcvGen_of_sorted (by decide +kernel)]
    decide +kernel
  have hboth := (run_raises_iff gapConfig gapStrategy {} 0 0 nullCloseDb ["BTC_USDT", "ETH_USDT"] 0 200000).mpr
    ⟨"ETH_USDT", by decide, heth⟩
  have hone : ¬ _ := mt (run_raises_iff gapConfig gapStrategy {} 0 0 nullCloseDb ["BTC_USDT"] 0 200000).mp
    (by simpa using hbtc)
  unfold reported
  rw [hboth]
  exact fun h => hone (Option.map_eq_none_iff.mp h.symm)

end MultiSymbolRunner

end MikoV2.Backtest
