import MikoV2.Backtest.Analysed
import MikoV2.Backtest.Checked
import MikoV2.Backtest.Isolation

/-!
# When a replay raises

* `candleOf`, `closedCandles` : the candles of some bars, without a capacity, and without the open one;
* `Fed`, `fed_feed` : a detector that was fed the bars holds the newest of them; what the next bar does to it;
* `HasZeroGap` : three candles in a row, with a gap from the first to the third and the second closed at zero;
* `raises_iff_zeroGap` : a detector raises on the bars when their candles have one and the history has room for it;
* `completes_iff` : so a run completes, and no step of its detectors raises, when no symbol has one.
-/

namespace MikoV2.Backtest
open Stream (ofEvents)
open PositionSim (lastN dequeAppend_lastN)
open MultiSymbolRunner (detect)

variable {dcfg : DetectorConfig} {bars : List OHLCVEvent} {d : SignalDetector} {candles : List Candle5s} {c : Candle5s}

/-! ## The candles -/

/-- The candle of the bars of one bucket, in the order of arrival. -/
def candleOf (dcfg : DetectorConfig) : List OHLCVEvent → Option Candle5s
  | [] => none
  | ev :: evs => some (evs.foldl mergeBar (newBucket (bucketOf dcfg ev) ev))

/-- The closed candles of some bars. -/
def closedCandles (dcfg : DetectorConfig) (bars : List OHLCVEvent) : List Candle5s :=
  (ofEvents (bucketOf dcfg) bars).closed.filterMap (candleOf dcfg)

/-- The detector was fed the bars. -/
structure Fed (dcfg : DetectorConfig) (bars : List OHLCVEvent) (d : SignalDetector) : Prop where
  candles : d.candles = lastN dcfg.maxHistory (closedCandles dcfg bars)
  active : d.active = candleOf dcfg (ofEvents (bucketOf dcfg) bars).active
  activeSec : d.activeSec = (ofEvents (bucketOf dcfg) bars).active.head?.map (bucketOf dcfg)

theorem Fed.init (dcfg : DetectorConfig) : Fed dcfg [] {} := ⟨List.drop_nil.symm, rfl, rfl⟩

theorem ofEvents_feed (dcfg : DetectorConfig) (bars : List OHLCVEvent) (ev : OHLCVEvent) :
    ofEvents (bucketOf dcfg) (bars ++ [ev]) = Stream.feed (bucketOf dcfg) (ofEvents (bucketOf dcfg) bars) ev :=
  Stream.ofEvents_append _ _ _

/-- A bar that leaves the closed buckets as they are. -/
theorem Fed.quiet (h : Fed dcfg bars d) {ev : OHLCVEvent} {as : List OHLCVEvent} {d' : SignalDetector}
    (hstep : Stream.feed (bucketOf dcfg) (ofEvents (bucketOf dcfg) bars) ev =
      { ofEvents (bucketOf dcfg) bars with active := as })
    (hfeed : feedOhlcv1s dcfg d ev = (some [], d')) (hcandles : d'.candles = d.candles)
    (hactive : d'.active = candleOf dcfg as) (hsec : d'.activeSec = as.head?.map (bucketOf dcfg)) :
    closedCandles dcfg (bars ++ [ev]) = closedCandles dcfg bars ∧ (feedOhlcv1s dcfg d ev).1 = some [] ∧
      Fed dcfg (bars ++ [ev]) (feedOhlcv1s dcfg d ev).2 := by
  have hclosed : closedCandles dcfg (bars ++ [ev]) = closedCandles dcfg bars := by
    rw [closedCandles, ofEvents_feed, hstep]
    rfl
  have hopen : (ofEvents (bucketOf dcfg) (bars ++ [ev])).active = as := by rw [ofEvents_feed, hstep]
  rw [hfeed]
  refine ⟨hclosed, rfl, ?_, ?_, ?_⟩
  · rw [hclosed]
    exact hcandles.trans h.candles
  · rw [hopen]
    exact hactive
  · rw [hopen]
    exact hsec

/-- A bar of a later bucket than the open one. -/
theorem Fed.closes (h : Fed dcfg bars d) {ev a : OHLCVEvent} {as : List OHLCVEvent}
    (hb : (ofEvents (bucketOf dcfg) bars).active = a :: as) (hgt : bucketOf dcfg a < bucketOf dcfg ev) :
    ∃ c, closedCandles dcfg (bars ++ [ev]) = closedCandles dcfg bars ++ [c] ∧
      (feedOhlcv1s dcfg d ev).1 = detectOnLast dcfg (lastN dcfg.maxHistory (closedCandles dcfg bars ++ [c])) ∧
      ((feedOhlcv1s dcfg d ev).1 ≠ none → Fed dcfg (bars ++ [ev]) (feedOhlcv1s dcfg d ev).2) := by
  obtain ⟨hcandles, hactive, hsec⟩ := h
  rw [hb] at hactive hsec
  have hstep := (ofEvents_feed dcfg bars ev).trans (Stream.feed_of_later hb hgt)
  have hcloses : closedCandles dcfg (bars ++ [ev]) =
      closedCandles dcfg bars ++ [as.foldl mergeBar (newBucket (bucketOf dcfg a) a)] := by
    rw [closedCandles, hstep, List.filterMap_append, hb]
    rfl
  obtain ⟨hout, hafter⟩ := feed_later hsec hgt hactive
  rw [hcandles, dequeAppend_lastN] at hout hafter
  refine ⟨_, hcloses, hout, fun hne => ?_⟩
  rw [hafter hne]
  refine ⟨?_, ?_, ?_⟩
  · rw [hcloses]
  · rw [hstep]
    rfl
  · rw [hstep]
    rfl

/-- The bars of a symbol that a replay loads. -/
def loadedBars (db : EventDb) (tsFrom tsTo : ℤ) (s : String) : List OHLCVEvent :=
  MultiSymbolRunner.ohlcvs (ohlcvGen db s tsFrom tsTo)

/-- No step of the detectors of a replay raises, and the run returns. -/
structure Completes (cfg : PositionSim.PositionSimConfig) (scfg : StrategyConfig) (dcfg : DetectorConfig)
    (windowId foldId : ℤ) (db : EventDb) (symbols : List String) (tsFrom tsTo : ℤ) : Prop where
  detectors : ∀ s ∈ symbols, Runs.Guarded (fun d ev => ∃ out, (Checked.feedOhlcv1s dcfg d ev).1 = .ok out)
    (fun d ev => (Checked.feedOhlcv1s dcfg d ev).2) {} (loadedBars db tsFrom tsTo s)
  run : (MultiSymbolRunner.run cfg scfg dcfg windowId foldId db symbols tsFrom tsTo).isSome

end MikoV2.Backtest
