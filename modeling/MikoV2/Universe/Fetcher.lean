import Mathlib.Algebra.Order.Ring.Rat
import MikoV2.Lib.Sorting
import MikoV2.Universe.Hysteresis

/-!
# `BulkMetricsFetcher`

A scan ranks the symbols that one call for all tickers returns. The rotation follows its top five.

* `candidate`, `scored`, `fetchAndRank` : the filter, the score and the ranking;
* `scanOf` : the result of `scan` on a ranking;
* `fetchAndRank_best` : the ranking is the best of the eligible tickers;
* `UniverseEvent`, `eventStep` : the two answers that a scan awaits, and the rotations between them;
* `Selects`, `selection_run` : what has been ranked and what is subscribed, after any run.
-/

namespace MikoV2.Universe
open Py (Dict PySet)

structure FetcherConfig where
  minOiUsd : ℚ := 1000000
  minVolume24Usd : ℚ := 10000000
  minSpreadBps : ℚ := 3 / 10
  maxSpreadBps : ℚ := 20
  topN : ℤ := 20
  weightVolume : ℚ := 4 / 10
  weightOi : ℚ := 3 / 10
  weightFunding : ℚ := 3 / 10

/-- An item of `fetch_all_tickers`. -/
structure Ticker where
  symbol : String
  lastPrice : ℚ
  bid1 : ℚ
  ask1 : ℚ
  holdVol : ℚ
  amount24 : ℚ
  fundingRate : ℚ

structure RankedSymbol where
  symbol : String
  lastPrice : ℚ
  volume24Usd : ℚ
  oiUsd : ℚ
  spreadBps : ℚ
  fundingRate : ℚ
  score : ℚ

/-- `for sym, cs in sizes.items(): if sym not in self._contract_sizes: …`. -/
def updateContractSizes (sizes contractSizes : Dict String ℚ) : Dict String ℚ :=
  sizes.items.foldl (fun d e => if e.1 ∈ d.keys then d else d.set e.1 e.2) contractSizes

def spreadBps (bid ask : ℚ) : ℚ :=
  if bid ≤ 0 ∨ ask ≤ 0 then 9999
  else
    let mid := (bid + ask) / 2
    if mid ≤ 0 then 9999 else (ask - bid) / mid * 10000

/-- `l[:n]`. -/
def sliceTo {α : Type} (l : List α) (n : ℤ) : List α := l.take (if 0 ≤ n then n.toNat else l.length - (-n).toNat)

section Fetch
variable (cfg : FetcherConfig) (excluded : List String) (contractSizes : Dict String ℚ)

/-- The body of the first loop of `fetch_and_rank`; `none` where it goes on without the item. -/
def candidate (item : Ticker) : Option RankedSymbol :=
  if item.symbol ∈ excluded then none
  else match contractSizes.get? item.symbol with
    | none => none
    | some cs =>
      if cs ≤ 0 then none
      else if item.lastPrice ≤ 0 ∨ item.holdVol ≤ 0 then none
      else
        let oiUsd := item.holdVol * cs * item.lastPrice
        if oiUsd < cfg.minOiUsd then none
        else if item.amount24 < cfg.minVolume24Usd then none
        else
          let spread := spreadBps item.bid1 item.ask1
          if spread < cfg.minSpreadBps ∨ cfg.maxSpreadBps < spread then none
          else some ⟨item.symbol, item.lastPrice, item.amount24, oiUsd, spread, item.fundingRate, 0⟩

/-- `max(…) or 1.0`. -/
def maxOrOne (l : List ℚ) : ℚ :=
  let m := l.max?.getD 0
  if m = 0 then 1 else m

/-- The second loop of `fetch_and_rank`. -/
def scored (candidates : List RankedSymbol) : List RankedSymbol :=
  let maxVol := maxOrOne (candidates.map RankedSymbol.volume24Usd)
  let maxOi := maxOrOne (candidates.map RankedSymbol.oiUsd)
  candidates.map fun s =>
    let fAbs := |s.fundingRate|
    let fScore := if fAbs > 5 / 1000 then -1 else fAbs / (5 / 1000)
    { s with score := cfg.weightVolume * (s.volume24Usd / maxVol) + cfg.weightOi * (s.oiUsd / maxOi) +
        cfg.weightFunding * fScore }

def fetchAndRank (raw : List Ticker) : List RankedSymbol :=
  let candidates := raw.filterMap (candidate cfg excluded contractSizes)
  if candidates = [] then []
  else sliceTo ((scored cfg candidates).mergeSort fun a b => b.score ≤ a.score) cfg.topN

end Fetch

/-! ## The ranking -/

section Ranking
variable {cfg : FetcherConfig} {excluded : List String} {contractSizes : Dict String ℚ} {item : Ticker} {r : RankedSymbol}
  {raw : List Ticker}

/-- The ticker passes the filters, and its symbol is ranked with its data. -/
structure Eligible (cfg : FetcherConfig) (excluded : List String) (contractSizes : Dict String ℚ) (item : Ticker)
    (r : RankedSymbol) : Prop where
  included : item.symbol ∉ excluded
  sized : ∃ cs, contractSizes.get? item.symbol = some cs ∧ 0 < cs ∧ r.oiUsd = item.holdVol * cs * item.lastPrice
  traded : 0 < item.lastPrice ∧ 0 < item.holdVol
  oi : cfg.minOiUsd ≤ r.oiUsd
  volume : cfg.minVolume24Usd ≤ r.volume24Usd
  spread : cfg.minSpreadBps ≤ r.spreadBps ∧ r.spreadBps ≤ cfg.maxSpreadBps
  data : r.symbol = item.symbol ∧ r.lastPrice = item.lastPrice ∧ r.volume24Usd = item.amount24 ∧
    r.spreadBps = spreadBps item.bid1 item.ask1 ∧ r.fundingRate = item.fundingRate

theorem candidate_eq_some : candidate cfg excluded contractSizes item = some r ↔
    Eligible cfg excluded contractSizes item r ∧ r.score = 0 := by
  unfold candidate
  constructor
  · intro h
    split at h
    · cases h
    · rename_i hincluded
      split at h
      · cases h
      · rename_i cs hcs
        split at h
        · cases h
        · rename_i hpos
          split at h
          · cases h
          · rename_i htraded
            dsimp only at h
            split at h
            · cases h
            · rename_i hoi
              split at h
              · cases h
              · rename_i hvolume
                split at h
                · cases h
                · rename_i hspread
                  cases h
                  rw [not_or, not_le, not_le] at htraded
                  rw [not_or, not_lt, not_lt] at hspread
                  exact ⟨⟨hincluded, ⟨cs, hcs, not_le.mp hpos, rfl⟩, htraded, not_lt.mp hoi, not_lt.mp hvolume, hspread,
                    rfl, rfl, rfl, rfl, rfl⟩, rfl⟩
  · rintro ⟨⟨hincluded, ⟨cs, hcs, hpos, hoi⟩, htraded, hminOi, hvolume, hspread, hdata⟩, hscore⟩
    obtain ⟨symbol, lastPrice, volume24Usd, oiUsd, spread, fundingRate, score⟩ := r
    obtain ⟨rfl, rfl, rfl, rfl, rfl⟩ := hdata
    dsimp only at hoi hminOi hvolume hspread hscore
    subst hoi hscore
    rw [if_neg hincluded, hcs]
    dsimp only
    rw [if_neg (not_le.mpr hpos), if_neg (by rw [not_or, not_le, not_le]; exact htraded), if_neg (not_lt.mpr hminOi),
      if_neg (not_lt.mpr hvolume), if_neg (by rw [not_or, not_lt, not_lt]; exact hspread)]

/-- A spread below the sentinel is that of a quoted market. -/
theorem Eligible.quoted (h : Eligible cfg excluded contractSizes item r) (hmax : cfg.maxSpreadBps < 9999) :
    0 < item.bid1 ∧ 0 < item.ask1 := by
  by_contra hnot
  have hsentinel : spreadBps item.bid1 item.ask1 = 9999 := by
    unfold spreadBps
    rw [if_pos]
    by_contra hquoted
    rw [not_or, not_le, not_le] at hquoted
    exact hnot hquoted
  have hle := h.spread.2
  rw [h.data.2.2.2.1, hsentinel] at hle
  exact absurd hle (not_le.mpr hmax)

theorem fetchAndRank_nil (h : raw.filterMap (candidate cfg excluded contractSizes) = []) :
    fetchAndRank cfg excluded contractSizes raw = [] := by
  unfold fetchAndRank
  exact if_pos h

/-- How many symbols are ranked, at most. -/
def rankedLen (topN : ℤ) (n : ℕ) : ℕ := if 0 ≤ topN then topN.toNat else n - (-topN).toNat

/-- **The ranking** is the best of the eligible tickers, by score. -/
theorem fetchAndRank_best (cfg : FetcherConfig) (excluded : List String) (contractSizes : Dict String ℚ)
    (raw : List Ticker) :
    let candidates := raw.filterMap (candidate cfg excluded contractSizes)
    Sorting.Best RankedSymbol.score (rankedLen cfg.topN candidates.length) (scored cfg candidates)
      (fetchAndRank cfg excluded contractSizes raw) := by
  unfold fetchAndRank
  dsimp only
  split
  · rename_i hnone
    rw [hnone]
    exact ⟨List.Pairwise.nil, by simp [scored], ⟨[], List.Perm.refl _, fun a ha => (nomatch ha)⟩,
      fun k => List.nil_prefix⟩
  · have hlen : (scored cfg (raw.filterMap (candidate cfg excluded contractSizes))).length =
        (raw.filterMap (candidate cfg excluded contractSizes)).length := List.length_map _
    unfold sliceTo
    rw [List.length_mergeSort, hlen]
    exact Sorting.best_take_mergeSort ..

/-- A ranked symbol is that of an eligible ticker. -/
theorem mem_fetchAndRank (h : r ∈ fetchAndRank cfg excluded contractSizes raw) :
    ∃ item ∈ raw, Eligible cfg excluded contractSizes item r := by
  obtain ⟨c, hc, rfl⟩ := List.mem_map.mp ((fetchAndRank_best cfg excluded contractSizes raw).subset h)
  obtain ⟨item, hitem, hcandidate⟩ := List.mem_filterMap.mp hc
  obtain ⟨hc, -⟩ := candidate_eq_some.mp hcandidate
  exact ⟨item, hitem, hc.included, hc.sized, hc.traded, hc.oi, hc.volume, hc.spread, hc.data⟩

end Ranking

/-! ## A scan -/

/-- The result of `scan`. -/
structure FullScanResult extends ScanResult where
  top20 : List String
  ranked : List RankedSymbol
  excludedSymbols : List String

/-- `ordered` in `scan`. -/
def orderedSymbols (always ranked : List String) : List String :=
  ranked.foldl (fun ordered s => if s ∈ ordered then ordered else ordered ++ [s]) always

def scanOf (cfg : Config) (always : List String) (ranked : List RankedSymbol) : FullScanResult :=
  let ordered := orderedSymbols always (ranked.map RankedSymbol.symbol)
  { top5 := ordered.take 5
    top10 := ordered.take 10
    top20 := ordered.take 20
    ranked
    excludedSymbols := (PySet.ofList cfg.excludedSymbols).sorted }

theorem scanOf_scanResult (cfg : Config) (u : UniverseService) (ranked : List RankedSymbol) :
    (scanOf cfg u.always ranked).toScanResult = scanResult u (ranked.map RankedSymbol.symbol) := rfl

/-- After the symbols that are always included come those of the ranking, each once. -/
theorem orderedSymbols_eq (ranked : List String) : ∀ always : List String, ∃ added,
    orderedSymbols always ranked = always ++ added ∧ added.Sublist ranked ∧ added.Nodup ∧ (∀ s ∈ added, s ∉ always) ∧
      ∀ s ∈ ranked, s ∈ always ++ added := by
  unfold orderedSymbols
  induction ranked with
  | nil => exact fun always => ⟨[], (List.append_nil _).symm, List.Sublist.refl _, List.nodup_nil, fun s hs => (nomatch hs),
      fun s hs => (nomatch hs)⟩
  | cons s ranked ih =>
    intro always
    rw [List.foldl_cons]
    by_cases hmem : s ∈ always
    · rw [if_pos hmem]
      obtain ⟨added, heq, hsub, hnodup, hnew, hall⟩ := ih always
      refine ⟨added, heq, hsub.trans (List.sublist_cons_self s ranked), hnodup, hnew, fun k hk => ?_⟩
      rcases List.mem_cons.mp hk with rfl | hk
      · exact List.mem_append_left _ hmem
      · exact hall k hk
    · rw [if_neg hmem]
      obtain ⟨added, heq, hsub, hnodup, hnew, hall⟩ := ih (always ++ [s])
      rw [List.append_assoc, List.singleton_append] at heq
      refine ⟨s :: added, heq, hsub.cons_cons s, List.nodup_cons.mpr ⟨fun hs => ?_, hnodup⟩, fun k hk => ?_, fun k hk => ?_⟩
      · exact hnew s hs (List.mem_append_right _ (List.mem_singleton_self s))
      · rcases List.mem_cons.mp hk with rfl | hk
        · exact hmem
        · exact fun hk' => hnew k hk (List.mem_append_left _ hk')
      · rcases List.mem_cons.mp hk with rfl | hk
        · exact List.mem_append_right _ List.mem_cons_self
        · have hk := hall k hk
          rwa [List.append_assoc, List.singleton_append] at hk

/-- What a scan says, of the tickers and the contract sizes that it has read. -/
structure Ranks (cfg : Config) (fcfg : FetcherConfig) (always : List String) (contractSizes : Dict String ℚ)
    (raw : List Ticker) (scan : FullScanResult) : Prop where
  best : let candidates := raw.filterMap (candidate fcfg cfg.excludedSymbols contractSizes)
    Sorting.Best RankedSymbol.score (rankedLen fcfg.topN candidates.length) (scored fcfg candidates) scan.ranked
  eligible : ∀ r ∈ scan.ranked, ∃ item ∈ raw, Eligible fcfg cfg.excludedSymbols contractSizes item r
  tops : ∃ added, added.Sublist (scan.ranked.map RankedSymbol.symbol) ∧ added.Nodup ∧ (∀ s ∈ added, s ∉ always) ∧
    (∀ r ∈ scan.ranked, r.symbol ∈ always ++ added) ∧ scan.top5 = (always ++ added).take 5 ∧
    scan.top10 = (always ++ added).take 10 ∧ scan.top20 = (always ++ added).take 20

theorem scanOf_ranks (cfg : Config) (fcfg : FetcherConfig) (always : List String) (contractSizes : Dict String ℚ)
    (raw : List Ticker) : Ranks cfg fcfg always contractSizes raw
      (scanOf cfg always (fetchAndRank fcfg cfg.excludedSymbols contractSizes raw)) := by
  obtain ⟨added, heq, hsub, hnodup, hnew, hall⟩ := orderedSymbols_eq
    ((fetchAndRank fcfg cfg.excludedSymbols contractSizes raw).map RankedSymbol.symbol) always
  refine ⟨fetchAndRank_best .., fun r hr => mem_fetchAndRank hr, added, hsub, hnodup, hnew, fun r hr => ?_, ?_, ?_, ?_⟩
  · exact hall _ (List.mem_map_of_mem hr)
  all_goals exact congrArg (List.take _) heq

theorem Ranks.top20_subset {cfg : Config} {fcfg : FetcherConfig} {always : List String} {contractSizes : Dict String ℚ}
    {raw : List Ticker} {scan : FullScanResult} (h : Ranks cfg fcfg always contractSizes raw scan) :
    ∀ s ∈ scan.top20, s ∈ always ∨ ∃ r ∈ scan.ranked, r.symbol = s := by
  obtain ⟨added, hsub, -, -, -, -, -, h20⟩ := h.tops
  intro s hs
  rw [h20] at hs
  rcases List.mem_append.mp (List.mem_of_mem_take hs) with hs | hs
  · exact .inl hs
  · exact .inr (List.mem_map.mp (hsub.subset hs))

/-! ## Runs -/

/-- The service, its fetcher, and the last scan, which the runner keeps too. -/
structure ScanService where
  service : UniverseService
  contractSizes : Dict String ℚ
  bulkLoaded : Bool := false
  lastResult : Option FullScanResult := none

/-- What happens to the service. A scan awaits the contract details, and then the tickers; `none` where the call raises. -/
inductive UniverseEvent
  | seed (symbols : List String)
  | contractDetails (bulk : Option (Dict String ℚ))
  | tickers (raw : Option (List Ticker))
  | rotate (nowMs : ℤ)

section Run
variable (cfg : Config) (fcfg : FetcherConfig)

def ScanService.init (alwaysInclude : List String) (contractSizes : Dict String ℚ) : ScanService :=
  { service := .init cfg alwaysInclude, contractSizes }

def eventStep (u : ScanService) : UniverseEvent → ScanService
  | .seed symbols => { u with service := seedSubscriptions cfg symbols u.service }
  | .contractDetails bulk =>
    match bulk with
    | none => u
    | some bulk =>
      if u.bulkLoaded then u
      else { u with contractSizes := updateContractSizes bulk u.contractSizes, bulkLoaded := true }
  | .tickers raw =>
    match raw with
    | none => u
    | some raw => { u with
        lastResult := some (scanOf cfg u.service.always (fetchAndRank fcfg cfg.excludedSymbols u.contractSizes raw)) }
  | .rotate nowMs =>
    match u.lastResult with
    | none => u
    | some scan => { u with service := (applyScan cfg scan.toScanResult nowMs u.service).2 }

end Run

/-- The contract details that a run has loaded: those of the first call that returns. -/
def firstBulk (evs : List UniverseEvent) : Option (Dict String ℚ) :=
  evs.findSome? fun
    | .contractDetails bulk => bulk
    | _ => none

/-- The contract sizes in a run. -/
def sizesAfter (contractSizes : Dict String ℚ) (evs : List UniverseEvent) : Dict String ℚ :=
  match firstBulk evs with
  | none => contractSizes
  | some bulk => updateContractSizes bulk contractSizes

/-- What is loaded does not overwrite what is there. -/
theorem get?_updateContractSizes (sizes contractSizes : Dict String ℚ) (symbol : String) :
    (updateContractSizes sizes contractSizes).get? symbol = (contractSizes.get? symbol).or (sizes.get? symbol) :=
  Dict.get?_setDefaults symbol sizes.items contractSizes

theorem firstBulk_concat (evs : List UniverseEvent) (ev : UniverseEvent) :
    firstBulk (evs ++ [ev]) = (firstBulk evs).or (firstBulk [ev]) := List.findSome?_append

/-! ## What a run selects -/

section Selection
variable {cfg : Config} {fcfg : FetcherConfig} {alwaysInclude : List String} {contractSizes : Dict String ℚ}
  {evs : List UniverseEvent} {u : ScanService} {scan : FullScanResult} {symbol : String} {nowMs : ℤ}

/-- The symbols that are always included. -/
def safeAlways (cfg : Config) (alwaysInclude : List String) : List String :=
  alwaysInclude.filter (· ∉ cfg.excludedSymbols)

/-- A scan of the run has this result. -/
def Scanned (cfg : Config) (fcfg : FetcherConfig) (alwaysInclude : List String) (contractSizes : Dict String ℚ)
    (evs : List UniverseEvent) (scan : FullScanResult) : Prop :=
  ∃ pre raw, pre ++ [.tickers (some raw)] <+: evs ∧
    Ranks cfg fcfg (safeAlways cfg alwaysInclude) (sizesAfter contractSizes pre) raw scan

theorem Scanned.mono (h : Scanned cfg fcfg alwaysInclude contractSizes evs scan) (ev : UniverseEvent) :
    Scanned cfg fcfg alwaysInclude contractSizes (evs ++ [ev]) scan := by
  obtain ⟨pre, raw, hpre, hranks⟩ := h
  exact ⟨pre, raw, hpre.trans (List.prefix_append evs [ev]), hranks⟩

/-- The last scan of the run has this result. -/
def Latest (cfg : Config) (fcfg : FetcherConfig) (alwaysInclude : List String) (contractSizes : Dict String ℚ)
    (evs : List UniverseEvent) (scan : FullScanResult) : Prop :=
  ∃ pre raw post, evs = pre ++ .tickers (some raw) :: post ∧ (∀ raw', .tickers (some raw') ∉ post) ∧
    Ranks cfg fcfg (safeAlways cfg alwaysInclude) (sizesAfter contractSizes pre) raw scan

theorem Latest.scanned (h : Latest cfg fcfg alwaysInclude contractSizes evs scan) :
    Scanned cfg fcfg alwaysInclude contractSizes evs scan := by
  obtain ⟨pre, raw, post, rfl, -, hranks⟩ := h
  refine ⟨pre, raw, ⟨post, ?_⟩, hranks⟩
  rw [List.append_assoc, List.singleton_append]

theorem Latest.mono (h : Latest cfg fcfg alwaysInclude contractSizes evs scan) {ev : UniverseEvent}
    (hev : ∀ raw, ev ≠ .tickers (some raw)) : Latest cfg fcfg alwaysInclude contractSizes (evs ++ [ev]) scan := by
  obtain ⟨pre, raw, post, rfl, hpost, hranks⟩ := h
  refine ⟨pre, raw, post ++ [ev], by rw [List.append_assoc, List.cons_append], fun raw' hmem => ?_, hranks⟩
  rcases List.mem_append.mp hmem with hmem | hmem
  · exact hpost raw' hmem
  · exact hev raw' (List.mem_singleton.mp hmem).symm

/-- No excluded symbol is in a scan. -/
theorem Scanned.included (h : Scanned cfg fcfg alwaysInclude contractSizes evs scan) :
    ∀ s ∈ scan.top20, s ∉ cfg.excludedSymbols := by
  obtain ⟨pre, raw, -, hranks⟩ := h
  intro s hs
  rcases hranks.top20_subset s hs with hs | ⟨r, hr, rfl⟩
  · exact of_decide_eq_true (List.mem_filter.mp hs).2
  · obtain ⟨item, -, heligible⟩ := hranks.eligible r hr
    rw [heligible.data.1]
    exact heligible.included

theorem Scanned.tops (h : Scanned cfg fcfg alwaysInclude contractSizes evs scan) :
    scan.top5 ⊆ scan.top20 ∧ scan.top10 ⊆ scan.top20 := by
  obtain ⟨pre, raw, -, hranks⟩ := h
  obtain ⟨added, -, -, -, -, h5, h10, h20⟩ := hranks.tops
  rw [h5, h10, h20]
  exact ⟨List.take_subset_take_left _ (by decide), List.take_subset_take_left _ (by decide)⟩

/-- A symbol that a rotation leaves subscribed was so before, or is in the top five. -/
theorem mem_subscribed_rotate (h : symbol ∈ (applyScan cfg scan.toScanResult nowMs u.service).2.subscribed) :
    symbol ∈ u.service.subscribed ∨ symbol ∈ scan.top5 := by
  have hreports := applyScan_reports cfg scan.toScanResult nowMs u.service symbol
  have hsub := (decide_eq_true h).symm.trans hreports.subscribed
  rcases rotate_change cfg scan.top5 nowMs u.service symbol with ⟨-, hsame⟩ | ⟨-, hchange⟩
  · rw [hsame] at hsub
    exact .inl (of_decide_eq_true hsub.symm)
  · generalize (rotate cfg scan.top5 nowMs u.service).symbol nowMs symbol = after at hchange hsub
    cases hchange with
    | settled _ => exact .inl (of_decide_eq_true hsub.symm)
    | opened _ => exact .inl (of_decide_eq_true hsub.symm)
    | waits _ _ => exact .inl (of_decide_eq_true hsub.symm)
    | follows _ _ _ _ => exact .inr (of_decide_eq_true hsub.symm)

/-- A rotation subscribes a symbol of the top five only. -/
theorem mem_toSubscribe_rotate (h : symbol ∈ (applyScan cfg scan.toScanResult nowMs u.service).1.toSubscribe) :
    symbol ∈ scan.top5 := by
  have htoSub := (applyScan_reports cfg scan.toScanResult nowMs u.service symbol).toSub.mp h
  rcases rotate_change cfg scan.top5 nowMs u.service symbol with ⟨-, hsame⟩ | ⟨-, hchange⟩
  · rw [hsame] at htoSub
    cases htoSub
  · generalize (rotate cfg scan.top5 nowMs u.service).symbol nowMs symbol = after at hchange htoSub
    cases hchange with
    | settled _ => cases htoSub
    | opened _ => cases htoSub
    | waits _ _ => cases htoSub
    | follows _ _ _ _ => simpa [UniverseService.symbol] using htoSub

theorem applyScan_always (cfg : Config) (scan : ScanResult) (nowMs : ℤ) (u : UniverseService) :
    (applyScan cfg scan nowMs u).2.always = u.always := by
  have hone : ∀ (r : Rotation) (s : String), (rotateSymbol cfg scan.top5 nowMs r s).service.always = r.service.always := by
    intro r s
    unfold rotateSymbol clearPending
    dsimp only
    split
    · rfl
    · split
      · rfl
      · split
        · rfl
        · split
          · split <;> rfl
          · rfl
  have hall : ∀ (l : List String) (r : Rotation),
      (l.foldl (rotateSymbol cfg scan.top5 nowMs) r).service.always = r.service.always := by
    intro l
    induction l with
    | nil => exact fun r => rfl
    | cons s l ih => exact fun r => (ih _).trans (hone r s)
  unfold applyScan rotate
  dsimp only
  rw [hall]
  exact (recordFlaps_same cfg scan.top5 nowMs u).always

/-- Where the symbol of a subscription comes from. -/
def Origin (cfg : Config) (fcfg : FetcherConfig) (alwaysInclude : List String) (contractSizes : Dict String ℚ)
    (evs : List UniverseEvent) (s : String) : Prop :=
  (∃ symbols, .seed symbols ∈ evs ∧ s ∈ symbols) ∨
    ∃ scan, Scanned cfg fcfg alwaysInclude contractSizes evs scan ∧ s ∈ scan.top5

/-- What has been ranked and what is subscribed. -/
structure Selects (cfg : Config) (fcfg : FetcherConfig) (alwaysInclude : List String) (contractSizes : Dict String ℚ)
    (evs : List UniverseEvent) (u : ScanService) : Prop where
  always : u.service.always = safeAlways cfg alwaysInclude
  sizes : u.contractSizes = sizesAfter contractSizes evs
  loaded : u.bulkLoaded = (firstBulk evs).isSome
  latest : ∀ scan, u.lastResult = some scan → Latest cfg fcfg alwaysInclude contractSizes evs scan
  subscribed : ∀ s ∈ u.service.subscribed, s ∉ cfg.excludedSymbols ∧
    Origin cfg fcfg alwaysInclude contractSizes evs s

theorem Origin.mono (h : Origin cfg fcfg alwaysInclude contractSizes evs symbol) (ev : UniverseEvent) :
    Origin cfg fcfg alwaysInclude contractSizes (evs ++ [ev]) symbol := by
  rcases h with ⟨symbols, hseed, hmem⟩ | ⟨scan, hscan, hmem⟩
  · exact .inl ⟨symbols, List.mem_append_left _ hseed, hmem⟩
  · exact .inr ⟨scan, hscan.mono ev, hmem⟩

/-- An event that loads no contract details. -/
theorem Selects.quiet {ev : UniverseEvent} {u' : ScanService} (h : Selects cfg fcfg alwaysInclude contractSizes evs u)
    (hev : firstBulk [ev] = none) (halways : u'.service.always = u.service.always)
    (hsizes : u'.contractSizes = u.contractSizes) (hloaded : u'.bulkLoaded = u.bulkLoaded)
    (hlatest : (∀ raw, ev ≠ .tickers (some raw)) ∧ u'.lastResult = u.lastResult ∨
      ∀ scan, u'.lastResult = some scan → Latest cfg fcfg alwaysInclude contractSizes (evs ++ [ev]) scan)
    (hsubscribed : ∀ s ∈ u'.service.subscribed, s ∈ u.service.subscribed ∨
      s ∉ cfg.excludedSymbols ∧ Origin cfg fcfg alwaysInclude contractSizes (evs ++ [ev]) s) :
    Selects cfg fcfg alwaysInclude contractSizes (evs ++ [ev]) u' := by
  have hfirst : firstBulk (evs ++ [ev]) = firstBulk evs := by rw [firstBulk_concat, hev, Option.or_none]
  refine ⟨halways.trans h.always, ?_, ?_, fun scan hs => ?_, fun s hs => ?_⟩
  · unfold sizesAfter
    rw [hsizes, hfirst]
    exact h.sizes
  · rw [hloaded, hfirst]
    exact h.loaded
  · rcases hlatest with ⟨hquiet, hsame⟩ | hlatest
    · exact (h.latest scan (hsame ▸ hs)).mono hquiet
    · exact hlatest scan hs
  · exact (hsubscribed s hs).elim (fun hs => (h.subscribed s hs).imp_right fun ho => ho.mono ev) id

theorem Selects.contractDetails (h : Selects cfg fcfg alwaysInclude contractSizes evs u) (bulk : Dict String ℚ) :
    Selects cfg fcfg alwaysInclude contractSizes (evs ++ [.contractDetails (some bulk)])
      (eventStep cfg fcfg u (.contractDetails (some bulk))) := by
  have hbulk : firstBulk (evs ++ [.contractDetails (some bulk)]) = (firstBulk evs).or (some bulk) := firstBulk_concat ..
  have hlatest : ∀ scan, u.lastResult = some scan →
      Latest cfg fcfg alwaysInclude contractSizes (evs ++ [.contractDetails (some bulk)]) scan :=
    fun scan hs => (h.latest scan hs).mono fun raw hev => (nomatch hev)
  have hsubscribed := fun s hs => (h.subscribed s hs).imp_right fun ho => ho.mono (.contractDetails (some bulk))
  unfold eventStep
  dsimp only
  cases hfirst : firstBulk evs with
  | some first =>
    have hl : u.bulkLoaded = true := by rw [h.loaded, hfirst]; rfl
    rw [if_pos hl]
    refine ⟨h.always, ?_, ?_, hlatest, hsubscribed⟩
    · rw [h.sizes]
      unfold sizesAfter
      rw [hbulk, hfirst]
      rfl
    · rw [hl, hbulk, hfirst]
      rfl
  | none =>
    have hl : u.bulkLoaded = false := by rw [h.loaded, hfirst]; rfl
    have hbefore : u.contractSizes = contractSizes := by
      rw [h.sizes]
      unfold sizesAfter
      rw [hfirst]
    rw [if_neg (by rw [hl]; exact Bool.false_ne_true)]
    refine ⟨h.always, ?_, ?_, hlatest, hsubscribed⟩
    · unfold sizesAfter
      rw [hbulk, hfirst]
      exact congrArg (updateContractSizes bulk) hbefore
    · rw [hbulk, hfirst]
      rfl

theorem Selects.event (h : Selects cfg fcfg alwaysInclude contractSizes evs u) (ev : UniverseEvent) :
    Selects cfg fcfg alwaysInclude contractSizes (evs ++ [ev]) (eventStep cfg fcfg u ev) := by
  cases ev with
  | seed symbols =>
    refine h.quiet rfl rfl rfl rfl (.inl ⟨fun raw hev => (nomatch hev), rfl⟩) fun s hs => ?_
    rcases (PySet.mem_foldl_add _).mp hs with hs | hs
    · exact .inl hs
    · obtain ⟨hmem, hincluded⟩ := List.mem_filter.mp hs
      exact .inr ⟨of_decide_eq_true hincluded,
        .inl ⟨symbols, List.mem_append_right _ (List.mem_singleton_self _), hmem⟩⟩
  | contractDetails bulk =>
    cases bulk with
    | none => exact h.quiet rfl rfl rfl rfl (.inl ⟨fun raw hev => (nomatch hev), rfl⟩) fun s hs => .inl hs
    | some bulk => exact h.contractDetails bulk
  | tickers raw =>
    cases raw with
    | none => exact h.quiet rfl rfl rfl rfl (.inl ⟨fun raw hev => (nomatch hev), rfl⟩) fun s hs => .inl hs
    | some raw =>
      refine h.quiet rfl rfl rfl rfl (.inr fun scan hs => ?_) fun s hs => .inl hs
      cases hs
      refine ⟨evs, raw, [], rfl, fun raw' hmem => (nomatch hmem), ?_⟩
      rw [h.always, ← h.sizes]
      exact scanOf_ranks ..
  | rotate nowMs =>
    unfold eventStep
    dsimp only
    cases hlast : u.lastResult with
    | none => exact h.quiet rfl rfl rfl rfl (.inl ⟨fun raw hev => (nomatch hev), rfl⟩) fun s hs => .inl hs
    | some scan =>
      have hscan := (h.latest scan hlast).scanned.mono (.rotate nowMs)
      have halways := applyScan_always cfg scan.toScanResult nowMs u.service
      have hsubscribed : ∀ s ∈ (applyScan cfg scan.toScanResult nowMs u.service).2.subscribed,
          s ∈ u.service.subscribed ∨ s ∈ scan.top5 := fun s hs => mem_subscribed_rotate hs
      dsimp only
      generalize applyScan cfg scan.toScanResult nowMs u.service = out at halways hsubscribed ⊢
      refine h.quiet rfl halways rfl rfl (.inl ⟨fun raw hev => (nomatch hev), hlast.symm⟩) fun s hs => ?_
      rcases hsubscribed s hs with hs | hs
      · exact .inl hs
      · exact .inr ⟨hscan.included s (hscan.tops.1 hs), .inr ⟨scan, hscan, hs⟩⟩

theorem selects_run (cfg : Config) (fcfg : FetcherConfig) (alwaysInclude : List String) (contractSizes : Dict String ℚ)
    (evs : List UniverseEvent) : Selects cfg fcfg alwaysInclude contractSizes evs
      (Runs.run (eventStep cfg fcfg) (.init cfg alwaysInclude contractSizes) evs) := by
  refine Runs.history_invariant (J := Selects cfg fcfg alwaysInclude contractSizes) ?_ (fun pre ev h => h.event ev) evs
  exact ⟨rfl, rfl, rfl, fun scan hs => (nomatch hs), fun s hs => absurd hs (PySet.not_mem_empty s)⟩

/-- What holds in every state of a run. -/
structure Selection (cfg : Config) (fcfg : FetcherConfig) (alwaysInclude : List String) (contractSizes : Dict String ℚ)
    (evs : List UniverseEvent) (u : ScanService) : Prop where
  /-- a contract size is the given one, or else that of the first details that were loaded -/
  sizes : ∀ s, u.contractSizes.get? s = (contractSizes.get? s).or ((firstBulk evs).bind fun bulk => bulk.get? s)
  /-- the last scan is that of the last tickers, with the sizes known then -/
  latest : ∀ scan, u.lastResult = some scan → Latest cfg fcfg alwaysInclude contractSizes evs scan
  /-- a subscribed symbol has been seeded or in a top five -/
  subscribed : ∀ s ∈ u.service.subscribed, Origin cfg fcfg alwaysInclude contractSizes evs s
  /-- an excluded symbol is nowhere -/
  excluded : ∀ s ∈ cfg.excludedSymbols, s ∉ u.service.subscribed ∧ ∀ scan, u.lastResult = some scan → s ∉ scan.top20 ∧
    ∀ nowMs, s ∉ (applyScan cfg scan.toScanResult nowMs u.service).1.toSubscribe ∧
      s ∉ (applyScan cfg scan.toScanResult nowMs u.service).1.watchSymbols

/-- **Selection.** After any run of scans, rotations and seeds. -/
theorem selection_run (cfg : Config) (fcfg : FetcherConfig) (alwaysInclude : List String) (contractSizes : Dict String ℚ)
    (evs : List UniverseEvent) : Selection cfg fcfg alwaysInclude contractSizes evs
      (Runs.run (eventStep cfg fcfg) (.init cfg alwaysInclude contractSizes) evs) := by
  have h := selects_run cfg fcfg alwaysInclude contractSizes evs
  refine ⟨fun s => ?_, h.latest, fun s hs => (h.subscribed s hs).2, fun s hexcluded => ⟨fun hs => ?_, fun scan hscan => ?_⟩⟩
  · rw [h.sizes]
    unfold sizesAfter
    cases firstBulk evs with
    | none => exact (Option.or_none).symm
    | some bulk => exact get?_updateContractSizes ..
  · exact (h.subscribed s hs).1 hexcluded
  · have hscanned := (h.latest scan hscan).scanned
    refine ⟨fun hs => hscanned.included s hs hexcluded, fun nowMs => ⟨fun hs => ?_, fun hs => ?_⟩⟩
    · exact hscanned.included s (hscanned.tops.1 (mem_toSubscribe_rotate hs)) hexcluded
    · have hwatch : s ∈ (PySet.ofList (scan.top10.filter (· ∉ scan.top5))).sorted := hs
      rw [PySet.mem_sorted, PySet.mem_ofList] at hwatch
      exact hscanned.included s (hscanned.tops.2 (List.mem_of_mem_filter hwatch)) hexcluded

end Selection

end MikoV2.Universe
