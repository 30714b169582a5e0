import MikoV2.Backtest.SimSteps
import MikoV2.Lib.Buckets
import MikoV2.Lib.Runs

/-!
# The candles of a sequence of bars

* `aggregate` : the candle of the bars of one bucket; `Aggregates`, `aggregate_spec` : what it is;
* `Builder` : the open candle and all the closed ones, without a capacity; `Builder.feed` : one bar;
* `builder` : the builder after some bars; `builder_append` : it is fed bar by bar;
* `finished` : the closed candles, `finished_spec` : each is the candle of the bars on time of its bucket;
  `active_spec` : so is the open one;
* `Built` : the simulator holds the builder's open candle and the newest of its closed ones; `built_run`.
-/

namespace MikoV2.Backtest.PositionSim
open Stream (Buckets onTime ofEvents Spec)
open Py (Dict)

variable {cfg : PositionSimConfig} {s : PositionSimulator} {symbol : String} {c : Candle5s} {ev : OHLCVEvent}
  {g bars : List OHLCVEvent}

/-! ## One bucket -/

/-- The bucket of a bar. -/
def barBucket (ev : OHLCVEvent) : ℤ := bucketSec ev.sec

/-- The candle of the bars of one bucket, in the order of arrival. -/
def aggregate : List OHLCVEvent → Option Candle5s
  | [] => none
  | ev :: evs => some (evs.foldl mergeBar (newCandle ev))

/-- First open, highest high, lowest low, last close. -/
structure Aggregates (c : Candle5s) (g : List OHLCVEvent) : Prop where
  tsMs : c.tsMs = c.sec * 1000
  bucket : ∀ ev ∈ g, barBucket ev = c.sec
  «open» : g.head?.map OHLCVEvent.open = some c.open
  close : g.getLast?.map OHLCVEvent.close = some c.close
  high_le : ∀ ev ∈ g, ev.high ≤ c.high
  high_mem : ∃ ev ∈ g, ev.high = c.high
  low_le : ∀ ev ∈ g, c.low ≤ ev.low
  low_mem : ∃ ev ∈ g, ev.low = c.low

theorem mergeBar_high (c : Candle5s) (ev : OHLCVEvent) : (mergeBar c ev).high = max c.high ev.high :=
  (max_def_lt c.high ev.high).symm

theorem mergeBar_low (c : Candle5s) (ev : OHLCVEvent) : (mergeBar c ev).low = min c.low ev.low := by
  rw [min_comm]
  exact (min_def_lt ev.low c.low).symm

theorem Aggregates.single (ev : OHLCVEvent) : Aggregates (newCandle ev) [ev] where
  tsMs := rfl
  bucket := fun x hx => by rw [List.mem_singleton.mp hx]; rfl
  «open» := rfl
  close := rfl
  high_le := fun x hx => by rw [List.mem_singleton.mp hx]; exact le_refl _
  high_mem := ⟨ev, List.mem_singleton_self ev, rfl⟩
  low_le := fun x hx => by rw [List.mem_singleton.mp hx]; exact le_refl _
  low_mem := ⟨ev, List.mem_singleton_self ev, rfl⟩

theorem Aggregates.merge (h : Aggregates c g) (hev : barBucket ev = c.sec) : Aggregates (mergeBar c ev) (g ++ [ev]) := by
  have hne : g ≠ [] := by
    obtain ⟨x, hx, -⟩ := h.high_mem
    exact List.ne_nil_of_mem hx
  refine ⟨h.tsMs, fun x hx => ?_, ?_, ?_, fun x hx => ?_, ?_, fun x hx => ?_, ?_⟩
  · rcases List.mem_append.mp hx with hx | hx
    · exact h.bucket x hx
    · rw [List.mem_singleton.mp hx]
      exact hev
  · rw [List.head?_append_of_ne_nil _ hne]
    exact h.open
  · rw [List.getLast?_append]
    rfl
  · rw [mergeBar_high, le_max_iff]
    rcases List.mem_append.mp hx with hx | hx
    · exact Or.inl (h.high_le x hx)
    · rw [List.mem_singleton.mp hx]
      exact Or.inr (le_refl _)
  · rw [mergeBar_high]
    rcases max_choice c.high ev.high with hm | hm
    · obtain ⟨x, hx, he⟩ := h.high_mem
      exact ⟨x, List.mem_append_left _ hx, by rw [hm, he]⟩
    · exact ⟨ev, List.mem_append_right _ (List.mem_singleton_self ev), hm.symm⟩
  · rw [mergeBar_low, min_le_iff]
    rcases List.mem_append.mp hx with hx | hx
    · exact Or.inl (h.low_le x hx)
    · rw [List.mem_singleton.mp hx]
      exact Or.inr (le_refl _)
  · rw [mergeBar_low]
    rcases min_choice c.low ev.low with hm | hm
    · obtain ⟨x, hx, he⟩ := h.low_mem
      exact ⟨x, List.mem_append_left _ hx, by rw [hm, he]⟩
    · exact ⟨ev, List.mem_append_right _ (List.mem_singleton_self ev), hm.symm⟩

theorem aggregate_append {a : OHLCVEvent} {as : List OHLCVEvent} (hg : g = a :: as) (ev : OHLCVEvent) :
    aggregate (g ++ [ev]) = (aggregate g).map fun c => mergeBar c ev := by
  rw [hg]
  show some ((as ++ [ev]).foldl mergeBar (newCandle a)) = _
  rw [List.foldl_append]
  rfl

/-- Bars of one bucket aggregate to their candle. -/
theorem aggregate_spec (hne : g ≠ []) (hg : ∀ x ∈ g, ∀ y ∈ g, barBucket x = barBucket y) :
    ∃ c, aggregate g = some c ∧ Aggregates c g := by
  induction g using List.reverseRecOn with
  | nil => exact absurd rfl hne
  | append_singleton g ev ih =>
    cases g with
    | nil => exact ⟨newCandle ev, rfl, .single ev⟩
    | cons a as =>
      obtain ⟨c, hc, hspec⟩ := ih (List.cons_ne_nil a as) fun x hx y hy =>
        hg x (List.mem_append_left _ hx) y (List.mem_append_left _ hy)
      refine ⟨mergeBar c ev, ?_, hspec.merge ?_⟩
      · rw [aggregate_append rfl, hc]
        rfl
      · rw [← hspec.bucket a List.mem_cons_self]
        exact hg ev (List.mem_append_right _ (List.mem_singleton_self ev)) a (List.mem_append_left _ List.mem_cons_self)

/-! ## The builder -/

structure Builder where
  active : Option Candle5s := none
  closed : List Candle5s := []

/-- The bar joins the open candle, closes it, or is late. -/
def Builder.feed (b : Builder) (ev : OHLCVEvent) : Builder :=
  match b.active with
  | none => { b with active := some (newCandle ev) }
  | some a =>
    if bucketSec ev.sec > a.sec then ⟨some (newCandle ev), b.closed ++ [a]⟩
    else if bucketSec ev.sec = a.sec then { b with active := some (mergeBar a ev) }
    else b

namespace Builder
variable {b : Builder} {a : Candle5s}

theorem feed_of_none (h : b.active = none) (ev : OHLCVEvent) : b.feed ev = ⟨some (newCandle ev), b.closed⟩ := by
  unfold feed
  rw [h]

theorem feed_of_later (h : b.active = some a) (hev : a.sec < barBucket ev) :
    b.feed ev = ⟨some (newCandle ev), b.closed ++ [a]⟩ := by
  unfold feed
  rw [h]
  exact if_pos hev

theorem feed_of_same (h : b.active = some a) (hev : barBucket ev = a.sec) :
    b.feed ev = ⟨some (mergeBar a ev), b.closed⟩ := by
  unfold feed
  rw [h]
  dsimp only
  rw [if_neg (show ¬ bucketSec ev.sec > a.sec from not_lt_of_ge (le_of_eq hev)),
    if_pos (show bucketSec ev.sec = a.sec from hev)]

theorem feed_of_late (h : b.active = some a) (hev : barBucket ev < a.sec) : b.feed ev = b := by
  unfold feed
  rw [h]
  dsimp only
  rw [if_neg (show ¬ bucketSec ev.sec > a.sec from not_lt_of_gt hev), if_neg (show ¬ bucketSec ev.sec = a.sec from hev.ne)]

/-- The candles of some buckets. -/
def ofBuckets (b : Buckets OHLCVEvent) : Builder := ⟨aggregate b.active, b.closed.filterMap aggregate⟩

theorem ofBuckets_feed {b : Buckets OHLCVEvent} (hspec : Spec barBucket bars b) (ev : OHLCVEvent) :
    ofBuckets (Stream.feed barBucket b ev) = (ofBuckets b).feed ev := by
  cases hact : b.active with
  | nil =>
    have hfeed : Stream.feed barBucket b ev = { b with active := [ev] } := by
      unfold Stream.feed
      rw [hact]
    have hnone : (ofBuckets b).active = none := by
      unfold ofBuckets
      rw [hact]
      rfl
    rw [hfeed, feed_of_none hnone]
    rfl
  | cons a as =>
    have hconst := hspec.constant b.active (List.mem_append_right _ (List.mem_singleton_self _))
    obtain ⟨c, hc, hagg⟩ := aggregate_spec (by rw [hact]; exact List.cons_ne_nil a as) hconst
    have hsec : barBucket a = c.sec := hagg.bucket a (by rw [hact]; exact List.mem_cons_self)
    have hsome : (ofBuckets b).active = some c := hc
    rcases lt_trichotomy (barBucket ev) (barBucket a) with hlt | heq | hgt
    · rw [Stream.feed_of_late hact hlt, feed_of_late hsome (hsec ▸ hlt)]
    · rw [Stream.feed_of_same hact heq, feed_of_same hsome (heq.trans hsec)]
      unfold ofBuckets
      rw [aggregate_append hact, hc]
      rfl
    · rw [Stream.feed_of_later hact hgt, feed_of_later hsome (hsec ▸ hgt)]
      unfold ofBuckets
      rw [List.filterMap_append, List.filterMap_cons, hc]
      rfl

end Builder

/-- The builder after the bars `bars`. -/
def builder (bars : List OHLCVEvent) : Builder := .ofBuckets (ofEvents barBucket bars)

/-- The candles that the bars finish. -/
def finished (bars : List OHLCVEvent) : List Candle5s := (builder bars).closed

theorem builder_append (bars : List OHLCVEvent) (ev : OHLCVEvent) :
    builder (bars ++ [ev]) = (builder bars).feed ev := by
  unfold builder
  rw [Stream.ofEvents_append]
  exact Builder.ofBuckets_feed (Stream.spec_ofEvents barBucket bars) ev

/-- What finished candles are: their buckets increase, each is the candle of the bars on time of its bucket, and
the buckets finished are those of the bars on time after which a bar of a later bucket has arrived. -/
structure Finished (bars : List OHLCVEvent) (cs : List Candle5s) : Prop where
  increasing : cs.Pairwise fun c c' => c.sec < c'.sec
  aggregates : ∀ c ∈ cs, Aggregates c ((onTime barBucket bars).filter fun ev => barBucket ev = c.sec)
  complete : ∀ ev ∈ onTime barBucket bars,
    (∃ c ∈ cs, c.sec = barBucket ev) ↔ ∃ ev' ∈ bars, barBucket ev < barBucket ev'

/-- **The finished candles.** -/
theorem finished_spec (bars : List OHLCVEvent) : Finished bars (finished bars) := by
  have hspec := Stream.spec_ofEvents barBucket bars
  unfold finished builder Builder.ofBuckets
  generalize ofEvents barBucket bars = b at hspec
  have hcandle : ∀ g ∈ b.closed, ∃ c, aggregate g = some c ∧ Aggregates c g := fun g hg =>
    aggregate_spec (hspec.nonempty g hg) (hspec.constant g (List.mem_append_left _ hg))
  refine ⟨?_, fun c hc => ?_, fun ev hev => ?_⟩
  · rw [List.pairwise_filterMap]
    refine (List.pairwise_append.mp hspec.sorted).1.imp_of_mem fun hg hg' hlt c hc c' hc' => ?_
    obtain ⟨d, hd, hagg⟩ := hcandle _ hg
    obtain ⟨d', hd', hagg'⟩ := hcandle _ hg'
    rw [hc] at hd
    rw [hc'] at hd'
    cases hd
    cases hd'
    obtain ⟨x, hx, -⟩ := hagg.high_mem
    obtain ⟨x', hx', -⟩ := hagg'.high_mem
    rw [← hagg.bucket x hx, ← hagg'.bucket x' hx']
    exact hlt x hx x' hx'
  · obtain ⟨g, hg, hgc⟩ := List.mem_filterMap.mp hc
    obtain ⟨d, hd, hagg⟩ := hcandle g hg
    rw [hgc] at hd
    cases hd
    obtain ⟨x, hx, -⟩ := hagg.high_mem
    have hfilter := hspec.eq_filter (List.mem_append_left _ hg) hx
    rw [hagg.bucket x hx] at hfilter
    rw [← hfilter]
    exact hagg
  · rw [← hspec.mem_closed_iff hev]
    constructor
    · rintro ⟨c, hc, hsec⟩
      obtain ⟨g, hg, hgc⟩ := List.mem_filterMap.mp hc
      obtain ⟨d, hd, hagg⟩ := hcandle g hg
      rw [hgc] at hd
      cases hd
      obtain ⟨x, hx, -⟩ := hagg.high_mem
      refine ⟨g, hg, ?_⟩
      rw [hspec.eq_filter (List.mem_append_left _ hg) hx, List.mem_filter, decide_eq_true_eq, hagg.bucket x hx]
      exact ⟨hev, hsec.symm⟩
    · rintro ⟨g, hg, hevg⟩
      obtain ⟨d, hd, hagg⟩ := hcandle g hg
      exact ⟨d, List.mem_filterMap.mpr ⟨g, hg, hd⟩, (hagg.bucket ev hevg).symm⟩

/-- The open candle is the candle of the bars on time of its bucket, and no bar has a later one. -/
theorem active_spec (h : (builder bars).active = some c) :
    Aggregates c ((onTime barBucket bars).filter fun ev => barBucket ev = c.sec) ∧ ∀ ev ∈ bars, barBucket ev ≤ c.sec := by
  have hspec := Stream.spec_ofEvents barBucket bars
  unfold builder Builder.ofBuckets at h
  dsimp only at h
  generalize ofEvents barBucket bars = b at h hspec
  have hconst := hspec.constant b.active (List.mem_append_right _ (List.mem_singleton_self _))
  have hne : b.active ≠ [] := by
    intro hnil
    rw [hnil] at h
    cases h
  obtain ⟨d, hd, hagg⟩ := aggregate_spec hne hconst
  rw [h] at hd
  cases hd
  refine ⟨?_, fun ev hev => ?_⟩
  · obtain ⟨x, hx, -⟩ := hagg.high_mem
    have hfilter := hspec.eq_filter (List.mem_append_right _ (List.mem_singleton_self _)) hx
    rw [hagg.bucket x hx] at hfilter
    rw [← hfilter]
    exact hagg
  · obtain ⟨a, ha, hle⟩ := hspec.newest ev hev
    rw [← hagg.bucket a ha]
    exact hle

theorem active_isSome (hne : bars ≠ []) : ∃ c, (builder bars).active = some c := by
  have hspec := Stream.spec_ofEvents barBucket bars
  unfold builder Builder.ofBuckets
  dsimp only
  generalize ofEvents barBucket bars = b at hspec
  obtain ⟨x, hx⟩ := List.exists_mem_of_ne_nil bars hne
  obtain ⟨a, ha, -⟩ := hspec.newest x hx
  obtain ⟨c, hc, -⟩ := aggregate_spec (List.ne_nil_of_mem ha)
    (hspec.constant b.active (List.mem_append_right _ (List.mem_singleton_self _)))
  exact ⟨c, hc⟩

/-- The open candle is that of some bar. -/
theorem active_of_bar (h : (builder bars).active = some c) : ∃ ev ∈ bars, barBucket ev = c.sec := by
  obtain ⟨ev, hev, -⟩ := (active_spec h).1.high_mem
  rw [List.mem_filter, decide_eq_true_eq] at hev
  exact ⟨ev, Stream.mem_of_mem_onTime hev.1, hev.2⟩

/-- While the buckets do not decrease, the open candle is that of the last bar. -/
theorem active_sec_of_sorted (hsorted : (bars ++ [ev]).Pairwise fun a b => barBucket a ≤ barBucket b)
    (h : (builder (bars ++ [ev])).active = some c) : c.sec = barBucket ev := by
  have hle : barBucket ev ≤ c.sec := (active_spec h).2 ev (List.mem_append_right _ (List.mem_singleton_self ev))
  obtain ⟨y, hy, hyc⟩ := active_of_bar h
  refine le_antisymm ?_ hle
  rw [← hyc]
  rcases List.mem_append.mp hy with hy | hy
  · exact (List.pairwise_append.mp hsorted).2.2 y hy ev (List.mem_singleton_self ev)
  · rw [List.mem_singleton.mp hy]

/-! ## The simulator builds them -/

/-- The newest `cap` of a list. -/
def lastN {α : Type} (cap : ℕ) (l : List α) : List α := l.drop (l.length - cap)

theorem dequeAppend_lastN {α : Type} (cap : ℕ) (l : List α) (x : α) :
    dequeAppend cap (lastN cap l) x = lastN cap (l ++ [x]) := by
  unfold dequeAppend lastN
  rw [← List.drop_append_of_le_length (Nat.sub_le l.length cap), List.drop_drop, List.length_drop,
    List.length_append, List.length_singleton]
  congr 1
  omega

/-- The simulator holds the builder's open candle and the newest of its closed ones. -/
structure Built (cap : ℕ) (b : Builder) (symbol : String) (s : PositionSimulator) : Prop where
  active : s.active.get? symbol = b.active
  candles : s.candles symbol = lastN cap b.closed

theorem Built.congr {cap : ℕ} {b : Builder} {s' : PositionSimulator} (h : Built cap b symbol s)
    (ha : s'.active.get? symbol = s.active.get? symbol) (hc : s'.candles symbol = s.candles symbol) :
    Built cap b symbol s' := ⟨ha.trans h.active, hc.trans h.candles⟩

theorem finalizeActive_of_some (h : s.active.get? symbol = some c) :
    finalizeActive cfg symbol s = checkExitsOnCandle cfg c symbol
      { s with
        active := s.active.erase symbol
        candles := Function.update s.candles symbol (dequeAppend (candleCap cfg) (s.candles symbol) c) } := by
  unfold finalizeActive
  rw [h]

theorem finalizeActive_of_none (h : s.active.get? symbol = none) : finalizeActive cfg symbol s = s := by
  unfold finalizeActive
  rw [h]

/-- Closing a candle appends it to the history of its symbol. -/
theorem finalizeActive_candles (h : s.active.get? symbol = some c) :
    (finalizeActive cfg symbol s).active = s.active.erase symbol ∧
      (finalizeActive cfg symbol s).candles =
        Function.update s.candles symbol (dequeAppend (candleCap cfg) (s.candles symbol) c) := by
  rw [finalizeActive_of_some h]
  exact ⟨(checkExitsOnCandle_feed ..).active, (checkExitsOnCandle_feed ..).candles⟩

theorem mergeCandle_of_later {a : Candle5s} (h : s.active.get? ev.symbol = some a) (hev : a.sec < barBucket ev) :
    mergeCandle cfg ev s = { finalizeActive cfg ev.symbol s with
      active := (finalizeActive cfg ev.symbol s).active.set ev.symbol (newCandle ev) } := by
  unfold mergeCandle
  rw [h]
  exact if_pos hev

theorem mergeCandle_of_same {a : Candle5s} (h : s.active.get? ev.symbol = some a) (hev : barBucket ev = a.sec) :
    mergeCandle cfg ev s = { s with active := s.active.set ev.symbol (mergeBar a ev) } := by
  unfold mergeCandle
  rw [h]
  dsimp only
  rw [if_neg (show ¬ bucketSec ev.sec > a.sec from not_lt_of_ge (le_of_eq hev)),
    if_pos (show bucketSec ev.sec = a.sec from hev)]

theorem mergeCandle_of_late {a : Candle5s} (h : s.active.get? ev.symbol = some a) (hev : barBucket ev < a.sec) :
    mergeCandle cfg ev s = s := by
  unfold mergeCandle
  rw [h]
  dsimp only
  rw [if_neg (show ¬ bucketSec ev.sec > a.sec from not_lt_of_gt hev),
    if_neg (show ¬ bucketSec ev.sec = a.sec from hev.ne)]

theorem mergeCandle_of_none (h : s.active.get? ev.symbol = none) :
    mergeCandle cfg ev s = { s with active := s.active.set ev.symbol (newCandle ev) } := by
  unfold mergeCandle
  rw [h]

/-- A bar of the symbol feeds its builder. -/
theorem Built.merge {b : Builder} (h : Built (candleCap cfg) b ev.symbol s) :
    Built (candleCap cfg) (b.feed ev) ev.symbol (mergeCandle cfg ev s) := by
  cases hact : b.active with
  | none =>
    have hget := h.active.trans hact
    rw [mergeCandle_of_none hget, Builder.feed_of_none hact]
    exact ⟨(Dict.get?_set ..).trans (if_pos rfl), h.candles⟩
  | some a =>
    have hget := h.active.trans hact
    rcases lt_trichotomy (barBucket ev) a.sec with hlt | heq | hgt
    · rw [mergeCandle_of_late hget hlt, Builder.feed_of_late hact hlt]
      exact h
    · rw [mergeCandle_of_same hget heq, Builder.feed_of_same hact heq]
      exact ⟨(Dict.get?_set ..).trans (if_pos rfl), h.candles⟩
    · rw [mergeCandle_of_later hget hgt, Builder.feed_of_later hact hgt]
      refine ⟨(Dict.get?_set ..).trans (if_pos rfl), ?_⟩
      show (finalizeActive cfg ev.symbol s).candles ev.symbol = _
      rw [(finalizeActive_candles hget).2, Function.update_self, h.candles, dequeAppend_lastN]

/-- A bar of another symbol leaves the candles of the symbol alone. -/
theorem mergeCandle_other {k : String} (hk : k ≠ ev.symbol) :
    (mergeCandle cfg ev s).active.get? k = s.active.get? k ∧ (mergeCandle cfg ev s).candles k = s.candles k := by
  cases hget : s.active.get? ev.symbol with
  | none =>
    rw [mergeCandle_of_none hget]
    exact ⟨(Dict.get?_set ..).trans (if_neg hk), rfl⟩
  | some a =>
    rcases lt_trichotomy (barBucket ev) a.sec with hlt | heq | hgt
    · rw [mergeCandle_of_late hget hlt]
      exact ⟨rfl, rfl⟩
    · rw [mergeCandle_of_same hget heq]
      exact ⟨(Dict.get?_set ..).trans (if_neg hk), rfl⟩
    · obtain ⟨hact, hcan⟩ := finalizeActive_candles hget
      rw [mergeCandle_of_later hget hgt]
      refine ⟨(Dict.get?_set ..).trans ((if_neg hk).trans ?_), ?_⟩
      · rw [hact, Dict.get?_erase, if_neg hk]
      · show (finalizeActive cfg ev.symbol s).candles k = _
        rw [hcan, Function.update_of_ne hk]

theorem onOhlcv_active (cfg : PositionSimConfig) (ev : OHLCVEvent) (s : PositionSimulator) :
    (onOhlcv cfg ev s).active = (mergeCandle cfg ev s).active :=
  (fundingCheck_funded cfg ev.symbol ev.tsMs (mergeCandle cfg ev s)).feed.active

theorem onOhlcv_candles (cfg : PositionSimConfig) (ev : OHLCVEvent) (s : PositionSimulator) :
    (onOhlcv cfg ev s).candles = (mergeCandle cfg ev s).candles :=
  (fundingCheck_funded cfg ev.symbol ev.tsMs (mergeCandle cfg ev s)).feed.candles

/-- The bars of the symbol among the bars of all. -/
def barsOf (symbol : String) (evs : List OHLCVEvent) : List OHLCVEvent := evs.filter fun ev => ev.symbol = symbol

theorem barsOf_append (symbol : String) (evs : List OHLCVEvent) (ev : OHLCVEvent) :
    barsOf symbol (evs ++ [ev]) = if ev.symbol = symbol then barsOf symbol evs ++ [ev] else barsOf symbol evs := by
  unfold barsOf
  rw [List.filter_append]
  by_cases h : ev.symbol = symbol
  · simp [h]
  · simp [h]

theorem Built.onOhlcv (h : Built (candleCap cfg) (builder bars) symbol s) (ev : OHLCVEvent) :
    Built (candleCap cfg) (builder (if ev.symbol = symbol then bars ++ [ev] else bars)) symbol
      (onOhlcv cfg ev s) := by
  by_cases hk : ev.symbol = symbol
  · subst hk
    rw [if_pos rfl, builder_append]
    exact h.merge.congr (by rw [onOhlcv_active]) (by rw [onOhlcv_candles])
  · rw [if_neg hk]
    obtain ⟨hact, hcan⟩ := mergeCandle_other (Ne.symm hk)
    exact h.congr (by rw [onOhlcv_active, hact]) (by rw [onOhlcv_candles, hcan])

theorem Built.init (cfg : PositionSimConfig) (windowId foldId : ℤ) (symbol : String) :
    Built (candleCap cfg) (builder []) symbol (PositionSim.init cfg windowId foldId) where
  active := rfl
  candles := (List.drop_nil).symm

/-- The bar of a call. -/
def barOf : Action → Option OHLCVEvent
  | .onOhlcv ev => some ev
  | _ => none

/-- A call that does not flush the open candles. -/
def Unflushed : Action → Prop
  | .finalize .. => False
  | _ => True

theorem onEntry_feed (cfg : PositionSimConfig) (signal : EntrySignal) (symbol : String) (s : PositionSimulator) :
    SameFeed s (onEntry cfg signal symbol s).2 := by
  unfold onEntry
  split <;> exact ⟨rfl, rfl, rfl, rfl, rfl⟩

/-- **The simulator's candles** after any calls but `finalize`: the open candle of each symbol, and the newest
finished ones. -/
theorem built_run (cfg : PositionSimConfig) (windowId foldId : ℤ) (symbol : String) (acts : List Action)
    (hacts : ∀ a ∈ acts, Unflushed a) :
    Built (candleCap cfg) (builder (barsOf symbol (acts.filterMap barOf))) symbol
      (Runs.run (step cfg) (PositionSim.init cfg windowId foldId) acts) := by
  induction acts using List.reverseRecOn with
  | nil => exact .init cfg windowId foldId symbol
  | append_singleton acts a ih =>
    have hbuilt := ih fun b hb => hacts b (List.mem_append_left _ hb)
    have ha := hacts a (List.mem_append_right _ (List.mem_singleton_self a))
    rw [Runs.run_append, List.filterMap_append]
    cases a with
    | onOhlcv ev =>
      show Built _ (builder (barsOf symbol (acts.filterMap barOf ++ [ev]))) _ _
      rw [barsOf_append]
      exact hbuilt.onOhlcv ev
    | onTicker ev =>
      rw [show List.filterMap barOf [Action.onTicker ev] = [] from rfl, List.append_nil]
      exact hbuilt.congr rfl rfl
    | onEntry signal k =>
      have hfeed := onEntry_feed cfg signal k (Runs.run (step cfg) (PositionSim.init cfg windowId foldId) acts)
      rw [show List.filterMap barOf [Action.onEntry signal k] = [] from rfl, List.append_nil]
      exact hbuilt.congr (congrArg (fun d => d.get? symbol) hfeed.active) (congrFun hfeed.candles symbol)
    | finalize lastTsMs lastPrices => exact absurd ha id

end MikoV2.Backtest.PositionSim
