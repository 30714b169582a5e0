import Mathlib.Algebra.Order.Ring.Rat
import Mathlib.Data.List.Dedup
import Mathlib.Data.String.Basic
import Mathlib.Data.List.Sort
import Mathlib.Data.Prod.Lex
import Mathlib.Order.Nat
import Mathlib.Tactic.Common

/-!
# `ReplayTransport`

The rows of the three tables become events, and the events of all symbols one stream.

* `ohlcvGen`, `depthGen`, `tickerGen` : the events of one symbol and table, in the order of the query;
* `heapqMerge` : `heapq.merge`, which takes the first of the least heads again and again;
* `streamMulti` : the stream of a run;
* `Replay` : what a stream is: sorted by `ts_ms`, a bar stamped with its second. `streamMulti_replay`.
-/

namespace MikoV2.Backtest

structure OHLCVEvent where
  sec : ℤ
  tsMs : ℤ
  «open» : ℚ
  high : ℚ
  low : ℚ
  close : ℚ
  buyVol : ℚ := 0
  sellVol : ℚ := 0
  tradeCount : ℕ := 0
  symbol : String := "BTC_USDT"
  sourceSeq : ℤ := 0
deriving DecidableEq

structure DepthEvent where
  tsMs : ℤ
  version : ℤ
  bids : List (ℚ × ℚ)
  asks : List (ℚ × ℚ)
  depth : ℤ
  symbol : String := "BTC_USDT"
  sourceSeq : ℤ := 0
deriving DecidableEq

structure TickerEvent where
  tsMs : ℤ
  lastPrice : ℚ
  fairPrice : ℚ
  indexPrice : ℚ
  holdVol : ℚ
  oiUsdt : ℚ
  fundingRate : ℚ
  nextSettleMs : ℤ
  symbol : String := "BTC_USDT"
  sourceSeq : ℤ := 0
deriving DecidableEq

inductive AnyEvent
  | ohlcv (ev : OHLCVEvent)
  | depth (ev : DepthEvent)
  | ticker (ev : TickerEvent)
deriving DecidableEq

namespace AnyEvent

def tsMs : AnyEvent → ℤ
  | ohlcv ev => ev.tsMs
  | depth ev => ev.tsMs
  | ticker ev => ev.tsMs

def symbol : AnyEvent → String
  | ohlcv ev => ev.symbol
  | depth ev => ev.symbol
  | ticker ev => ev.symbol

def sourceSeq : AnyEvent → ℤ
  | ohlcv ev => ev.sourceSeq
  | depth ev => ev.sourceSeq
  | ticker ev => ev.sourceSeq

/-- `_event_rank`. -/
def rank : AnyEvent → ℕ
  | ohlcv _ => 0
  | depth _ => 1
  | ticker _ => 2

/-- `_merge_key`; tuples are compared from the left. -/
def mergeKey (ev : AnyEvent) : ℤ ×ₗ ℕ ×ₗ String ×ₗ ℤ :=
  toLex (ev.tsMs, toLex (ev.rank, toLex (ev.symbol, ev.sourceSeq)))

def mergeLe (a b : AnyEvent) : Bool := a.mergeKey ≤ b.mergeKey

theorem tsMs_le_of_mergeLe {a b : AnyEvent} (h : mergeLe a b = true) : a.tsMs ≤ b.tsMs := by
  rw [mergeLe, decide_eq_true_eq, Prod.Lex.le_iff] at h
  rcases h with h | ⟨h, -⟩
  · exact le_of_lt h
  · exact le_of_eq h

end AnyEvent

/-! ## Tables -/

/-- A row of `trades_ohlcv_1s`; the value columns may be `NULL`. -/
structure OhlcvRow where
  symbol : String
  sec : ℤ
  «open» : Option ℚ
  high : Option ℚ
  low : Option ℚ
  close : Option ℚ
  buyVol : Option ℚ
  sellVol : Option ℚ
  tradeCount : Option ℕ

/-- A row of `orderbook_snapshots`; the sides are `none` for what `json.loads` refuses. -/
structure DepthRow where
  id : ℤ
  symbol : String
  timestampMs : ℤ
  version : Option ℤ
  sides : Option (List (ℚ × ℚ) × List (ℚ × ℚ))
  depth : Option ℤ

structure TickerRow where
  id : ℤ
  symbol : String
  tsMs : ℤ
  lastPrice : Option ℚ
  fairPrice : Option ℚ
  indexPrice : Option ℚ
  holdVol : Option ℚ
  oiUsdt : Option ℚ
  fundingRate : Option ℚ
  nextSettleMs : Option ℤ

structure EventDb where
  ohlcv : List OhlcvRow
  depth : List DepthRow
  ticker : List TickerRow

def OhlcvRow.event (r : OhlcvRow) : OHLCVEvent where
  sec := r.sec
  tsMs := r.sec * 1000
  «open» := r.open.getD 0
  high := r.high.getD 0
  low := r.low.getD 0
  close := r.close.getD 0
  buyVol := r.buyVol.getD 0
  sellVol := r.sellVol.getD 0
  tradeCount := r.tradeCount.getD 0
  symbol := r.symbol
  sourceSeq := r.sec

def DepthRow.event (r : DepthRow) : DepthEvent where
  tsMs := r.timestampMs
  version := r.version.getD 0
  bids := (r.sides.getD ([], [])).1
  asks := (r.sides.getD ([], [])).2
  depth := r.depth.getD 0
  symbol := r.symbol
  sourceSeq := r.id

def TickerRow.event (r : TickerRow) : TickerEvent where
  tsMs := r.tsMs
  lastPrice := r.lastPrice.getD 0
  fairPrice := r.fairPrice.getD 0
  indexPrice := r.indexPrice.getD 0
  holdVol := r.holdVol.getD 0
  oiUsdt := r.oiUsdt.getD 0
  fundingRate := r.fundingRate.getD 0
  nextSettleMs := r.nextSettleMs.getD 0
  symbol := r.symbol
  sourceSeq := r.id

/-! ## Generators -/

section Generators
variable (db : EventDb) (symbol : String) (tsFrom tsTo : ℤ)

/-- `… WHERE symbol=? AND sec*1000 >= ? AND sec*1000 <= ? ORDER BY sec ASC`. -/
def ohlcvGen : List AnyEvent :=
  ((db.ohlcv.filter fun r => r.symbol = symbol ∧ tsFrom ≤ r.sec * 1000 ∧ r.sec * 1000 ≤ tsTo).mergeSort
    fun a b => a.sec ≤ b.sec).map fun r => .ohlcv r.event

/-- `… ORDER BY timestamp_ms ASC, id ASC`. -/
def depthGen : List AnyEvent :=
  ((db.depth.filter fun r => r.symbol = symbol ∧ tsFrom ≤ r.timestampMs ∧ r.timestampMs ≤ tsTo).mergeSort
    fun a b => a.timestampMs < b.timestampMs ∨ a.timestampMs = b.timestampMs ∧ a.id ≤ b.id).map fun r =>
      .depth r.event

/-- `… ORDER BY ts_ms ASC, id ASC`. -/
def tickerGen : List AnyEvent :=
  ((db.ticker.filter fun r => r.symbol = symbol ∧ tsFrom ≤ r.tsMs ∧ r.tsMs ≤ tsTo).mergeSort
    fun a b => a.tsMs < b.tsMs ∨ a.tsMs = b.tsMs ∧ a.id ≤ b.id).map fun r => .ticker r.event

end Generators

/-! ## The stream -/

/-- `heapq.merge(*gens, key=…)`: of the heads, the first least one goes out. -/
def heapqMerge {α : Type} (le : α → α → Bool) (gens : List (List α)) : List α :=
  gens.foldr (fun g rest => g.merge rest le) []

/-- `sorted(set(symbols))`. -/
def sortedSymbols (symbols : List String) : List String := symbols.dedup.mergeSort fun a b => a ≤ b

def streamMulti (db : EventDb) (symbols : List String) (tsFrom tsTo : ℤ) : List AnyEvent :=
  let syms := sortedSymbols symbols
  heapqMerge AnyEvent.mergeLe
    ((syms.map fun s => ohlcvGen db s tsFrom tsTo) ++ (syms.map fun s => depthGen db s tsFrom tsTo) ++
      syms.map fun s => tickerGen db s tsFrom tsTo)

/-- A bar is stamped with its second. -/
def AnyEvent.Stamped : AnyEvent → Prop
  | ohlcv ev => ev.tsMs = ev.sec * 1000
  | _ => True

/-- A stream of a replay from `tsFrom` to `tsTo`. -/
structure Replay (tsFrom tsTo : ℤ) (evs : List AnyEvent) : Prop where
  sorted : evs.Pairwise fun a b => a.tsMs ≤ b.tsMs
  stamped : ∀ ev ∈ evs, ev.Stamped
  inside : ∀ ev ∈ evs, tsFrom ≤ ev.tsMs ∧ ev.tsMs ≤ tsTo

theorem Replay.take {tsFrom tsTo : ℤ} {pre evs : List AnyEvent} (h : Replay tsFrom tsTo evs) (hpre : pre <+: evs) :
    Replay tsFrom tsTo pre :=
  ⟨h.sorted.sublist hpre.sublist, fun ev hev => h.stamped ev (hpre.subset hev),
    fun ev hev => h.inside ev (hpre.subset hev)⟩

section Merge
variable {α : Type} {le : α → α → Bool}

theorem mem_heapqMerge {a : α} {gens : List (List α)} : a ∈ heapqMerge le gens ↔ ∃ g ∈ gens, a ∈ g := by
  induction gens with
  | nil => simp [heapqMerge]
  | cons g gens ih =>
    have hmerge : heapqMerge le (g :: gens) = g.merge (heapqMerge le gens) le := rfl
    rw [hmerge, List.mem_merge, ih, List.exists_mem_cons_iff]

theorem pairwise_heapqMerge (htrans : ∀ a b c, le a b = true → le b c = true → le a c = true)
    (htotal : ∀ a b, (le a b || le b a) = true) {gens : List (List α)}
    (h : ∀ g ∈ gens, g.Pairwise fun a b => le a b = true) :
    (heapqMerge le gens).Pairwise fun a b => le a b = true := by
  induction gens with
  | nil => exact List.Pairwise.nil
  | cons g gens ih =>
    have hg := h g (by simp)
    have hrest := ih fun g' hg' => h g' (List.mem_cons_of_mem g hg')
    exact List.pairwise_merge htrans htotal _ _ hg hrest

end Merge

theorem mergeLe_trans (a b c : AnyEvent) (hab : a.mergeLe b = true) (hbc : b.mergeLe c = true) :
    a.mergeLe c = true := by
  rw [AnyEvent.mergeLe, decide_eq_true_eq] at *
  exact le_trans hab hbc

theorem mergeLe_total (a b : AnyEvent) : (a.mergeLe b || b.mergeLe a) = true := by
  rw [Bool.or_eq_true, AnyEvent.mergeLe, AnyEvent.mergeLe, decide_eq_true_eq, decide_eq_true_eq]
  exact le_total _ _

/-- Events of one table and symbol, sorted by stamp and sequence number. -/
theorem pairwise_gen {ρ : Type} {f : ρ → AnyEvent} {rows : List ρ} {le : ρ → ρ → Bool}
    (htrans : ∀ a b c, le a b = true → le b c = true → le a c = true)
    (htotal : ∀ a b, (le a b || le b a) = true)
    (hle : ∀ a ∈ rows, ∀ b ∈ rows, le a b = true → (f a).mergeLe (f b) = true) :
    ((rows.mergeSort le).map f).Pairwise fun a b => a.mergeLe b = true := by
  rw [List.pairwise_map]
  refine (List.pairwise_mergeSort htrans htotal rows).imp_of_mem fun ha hb h => ?_
  exact hle _ (List.mem_mergeSort.mp ha) _ (List.mem_mergeSort.mp hb) h

section Generators
variable (db : EventDb) (symbol : String) (tsFrom tsTo : ℤ)

theorem ohlcvGen_sorted : (ohlcvGen db symbol tsFrom tsTo).Pairwise fun a b => a.mergeLe b = true := by
  refine pairwise_gen (by simp; omega) (by simp; omega) fun a ha b hb h => ?_
  simp only [List.mem_filter, decide_eq_true_eq] at ha hb h
  rw [AnyEvent.mergeLe, decide_eq_true_eq]
  simp only [AnyEvent.mergeKey, AnyEvent.tsMs, AnyEvent.rank, AnyEvent.symbol, AnyEvent.sourceSeq, OhlcvRow.event,
    Prod.Lex.le_iff, ofLex_toLex, ha.2.1, hb.2.1, lt_irrefl, false_or, true_and]
  omega

theorem depthGen_sorted : (depthGen db symbol tsFrom tsTo).Pairwise fun a b => a.mergeLe b = true := by
  refine pairwise_gen (by simp; omega) (by simp; omega) fun a ha b hb h => ?_
  simp only [List.mem_filter, decide_eq_true_eq] at ha hb h
  rw [AnyEvent.mergeLe, decide_eq_true_eq]
  simp only [AnyEvent.mergeKey, AnyEvent.tsMs, AnyEvent.rank, AnyEvent.symbol, AnyEvent.sourceSeq, DepthRow.event,
    Prod.Lex.le_iff, ofLex_toLex, ha.2.1, hb.2.1, lt_irrefl, false_or, true_and]
  omega

theorem tickerGen_sorted : (tickerGen db symbol tsFrom tsTo).Pairwise fun a b => a.mergeLe b = true := by
  refine pairwise_gen (by simp; omega) (by simp; omega) fun a ha b hb h => ?_
  simp only [List.mem_filter, decide_eq_true_eq] at ha hb h
  rw [AnyEvent.mergeLe, decide_eq_true_eq]
  simp only [AnyEvent.mergeKey, AnyEvent.tsMs, AnyEvent.rank, AnyEvent.symbol, AnyEvent.sourceSeq, TickerRow.event,
    Prod.Lex.le_iff, ofLex_toLex, ha.2.1, hb.2.1, lt_irrefl, false_or, true_and]
  omega

end Generators

/-- **The stream of a run is a replay.** -/
theorem streamMulti_replay (db : EventDb) (symbols : List String) (tsFrom tsTo : ℤ) :
    Replay tsFrom tsTo (streamMulti db symbols tsFrom tsTo) := by
  have hmem : ∀ ev ∈ streamMulti db symbols tsFrom tsTo, ev.Stamped ∧ tsFrom ≤ ev.tsMs ∧ ev.tsMs ≤ tsTo := by
    intro ev hev
    unfold streamMulti at hev
    simp only [mem_heapqMerge, List.mem_append, List.mem_map] at hev
    obtain ⟨g, (⟨s, -, rfl⟩ | ⟨s, -, rfl⟩) | ⟨s, -, rfl⟩, hev⟩ := hev
    · obtain ⟨r, hr, rfl⟩ := List.mem_map.mp hev
      rw [List.mem_mergeSort, List.mem_filter, decide_eq_true_eq] at hr
      exact ⟨rfl, hr.2.2⟩
    · obtain ⟨r, hr, rfl⟩ := List.mem_map.mp hev
      rw [List.mem_mergeSort, List.mem_filter, decide_eq_true_eq] at hr
      exact ⟨trivial, hr.2.2⟩
    · obtain ⟨r, hr, rfl⟩ := List.mem_map.mp hev
      rw [List.mem_mergeSort, List.mem_filter, decide_eq_true_eq] at hr
      exact ⟨trivial, hr.2.2⟩
  refine ⟨?_, fun ev hev => (hmem ev hev).1, fun ev hev => (hmem ev hev).2⟩
  refine (pairwise_heapqMerge mergeLe_trans mergeLe_total fun g hg => ?_).imp AnyEvent.tsMs_le_of_mergeLe
  simp only [List.mem_append, List.mem_map] at hg
  obtain (⟨s, -, rfl⟩ | ⟨s, -, rfl⟩) | ⟨s, -, rfl⟩ := hg
  · exact ohlcvGen_sorted ..
  · exact depthGen_sorted ..
  · exact tickerGen_sorted ..

end MikoV2.Backtest
