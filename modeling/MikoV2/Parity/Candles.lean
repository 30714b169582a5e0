import MikoV2.Backtest.Candles
import MikoV2.Parity.Exit

/-!
# The three candle builders

`SignalDetector`, `PositionSimulator` and `PaperPositionManager` build the candles of one `Builder`.

* `DetectorBuilt` : the detector holds the builder's candles; `DetectorBuilt.feed`, `detector_run` : it is fed a
  bar, all bars, and does not raise while the closes are positive;
* `PaperFrame` : what leaves the candles of the paper trader alone; `PaperBuilt`, `paper_run` : its candles;
* `candles_agree` : all three, with what the candles are.
-/

namespace MikoV2.Parity
open Backtest PositionSim Store
open Paper (Manager World Env)
open Py (Dict)

variable {dcfg : DetectorConfig} {cfg : PositionSimConfig} {env : Env} {b : Builder} {symbol : String}
  {ev : OHLCVEvent} {bars : List OHLCVEvent}

/-! ## The detector -/

/-- A candle of the detector, without its volumes. -/
def detectorCandle (c : Backtest.Candle5s) : PositionSim.Candle5s := ⟨c.sec, c.tsMs, c.open, c.high, c.low, c.close⟩

/-- The detector holds the builder's open candle, its second beside it, and the newest closed ones. -/
structure DetectorBuilt (cap : ℕ) (b : Builder) (d : SignalDetector) : Prop where
  activeSec : d.activeSec = b.active.map PositionSim.Candle5s.sec
  active : d.active.map detectorCandle = b.active
  candles : d.candles.map detectorCandle = lastN cap b.closed

theorem detectorCandle_mergeBar (c : Backtest.Candle5s) (ev : OHLCVEvent) :
    detectorCandle (Backtest.mergeBar c ev) = PositionSim.mergeBar (detectorCandle c) ev := by
  have hhigh := mergeBar_high (detectorCandle c) ev
  have hlow := mergeBar_low (detectorCandle c) ev
  unfold PositionSim.mergeBar at hhigh hlow ⊢
  unfold detectorCandle Backtest.mergeBar at *
  dsimp only at hhigh hlow ⊢
  rw [hhigh, hlow]

theorem map_dequeAppend {α β : Type} (f : α → β) (cap : ℕ) (dq : List α) (x : α) :
    (dequeAppend cap dq x).map f = dequeAppend cap (dq.map f) (f x) := by
  unfold dequeAppend
  rw [List.map_drop, List.map_append, List.length_map]
  rfl

/-- A bar of the detector's symbol feeds the builder; the positive closes keep it from raising. -/
theorem DetectorBuilt.feed {d : SignalDetector} (hsec : dcfg.candleSeconds = 5)
    (h : DetectorBuilt dcfg.maxHistory b d) (ev : OHLCVEvent) (hclosed : ∀ c ∈ (b.feed ev).closed, 0 < c.close) :
    ∃ out d', feedOhlcv1s dcfg d ev = (some out, d') ∧ DetectorBuilt dcfg.maxHistory (b.feed ev) d' := by
  have hbucket : ev.sec / (dcfg.candleSeconds : ℤ) * dcfg.candleSeconds = barBucket ev := by
    rw [hsec]
    rfl
  have hnew : detectorCandle (newBucket (barBucket ev) ev) = newCandle ev := rfl
  unfold feedOhlcv1s
  rw [hbucket]
  dsimp only
  cases hact : b.active with
  | none =>
    have hnone : d.activeSec = none := by rw [h.activeSec, hact]; rfl
    rw [hnone, Builder.feed_of_none hact]
    exact ⟨_, _, rfl, rfl, congrArg some hnew, h.candles⟩
  | some a =>
    have hsome : d.activeSec = some a.sec := by rw [h.activeSec, hact]; rfl
    obtain ⟨x, hx, hxa⟩ := Option.map_eq_some_iff.mp (h.active.trans hact)
    rw [hsome]
    dsimp only
    rcases lt_trichotomy (barBucket ev) a.sec with hlt | heq | hgt
    · rw [if_neg (not_lt_of_gt hlt), if_pos hlt, Builder.feed_of_late hact hlt]
      exact ⟨_, _, rfl, h⟩
    · rw [if_neg (not_lt_of_ge (le_of_eq heq)), if_neg (not_lt_of_ge (le_of_eq heq.symm)), hx,
        Builder.feed_of_same hact heq]
      refine ⟨_, _, rfl, rfl, ?_, h.candles⟩
      show some (detectorCandle (Backtest.mergeBar x ev)) = _
      rw [detectorCandle_mergeBar, hxa]
    · rw [if_pos hgt]
      rw [Builder.feed_of_later hact hgt] at hclosed ⊢
      have hfinal : Backtest.finalizeActive dcfg d =
          { d with candles := dequeAppend dcfg.maxHistory d.candles x, active := none } := by
        unfold Backtest.finalizeActive
        rw [hx]
      have hcandles : (dequeAppend dcfg.maxHistory d.candles x).map detectorCandle =
          lastN dcfg.maxHistory (b.closed ++ [a]) := by
        rw [map_dequeAppend, h.candles, hxa, dequeAppend_lastN]
      have hpos : ∀ c ∈ dequeAppend dcfg.maxHistory d.candles x, c.close ≠ 0 := by
        intro c hc
        have hmem : detectorCandle c ∈ lastN dcfg.maxHistory (b.closed ++ [a]) := by
          rw [← hcandles]
          exact List.mem_map_of_mem hc
        exact (hclosed _ (List.mem_of_mem_drop hmem)).ne'
      obtain ⟨out, hout⟩ := detectOnLast_isSome dcfg hpos
      rw [hfinal]
      dsimp only
      rw [hout]
      exact ⟨_, _, rfl, rfl, congrArg some hnew, hcandles⟩

/-- The detector after some bars; `none` when a bar makes it raise. -/
def detectorRun (dcfg : DetectorConfig) (bars : List OHLCVEvent) : Option SignalDetector :=
  bars.foldlM (fun d ev => (feedOhlcv1s dcfg d ev).1.map fun _ => (feedOhlcv1s dcfg d ev).2) {}

/-- The candle of positive closes closes above zero. -/
theorem finished_close_pos (h : ∀ ev ∈ bars, 0 < ev.close) : ∀ c ∈ finished bars, 0 < c.close := by
  intro c hc
  have hagg := (finished_spec bars).aggregates c hc
  obtain ⟨x, hx, hxc⟩ := Option.map_eq_some_iff.mp hagg.close
  rw [← hxc]
  exact h x (Stream.mem_of_mem_onTime (List.mem_of_mem_filter (List.mem_of_getLast? hx)))

/-- **The detector's candles.** -/
theorem detector_run (hsec : dcfg.candleSeconds = 5) (hpriced : ∀ ev ∈ bars, 0 < ev.close) :
    ∃ d, detectorRun dcfg bars = some d ∧ DetectorBuilt dcfg.maxHistory (builder bars) d := by
  induction bars using List.reverseRecOn with
  | nil => exact ⟨{}, rfl, rfl, rfl, List.drop_nil.symm⟩
  | append_singleton bars ev ih =>
    obtain ⟨d, hd, hbuilt⟩ := ih fun x hx => hpriced x (List.mem_append_left _ hx)
    have hclosed : ∀ c ∈ ((builder bars).feed ev).closed, 0 < c.close := by
      rw [← builder_append]
      exact finished_close_pos hpriced
    obtain ⟨out, d', hfeed, hbuilt'⟩ := hbuilt.feed hsec ev hclosed
    refine ⟨d', ?_, (builder_append bars ev).symm ▸ hbuilt'⟩
    unfold detectorRun at hd ⊢
    rw [List.foldlM_append, hd, Option.bind_eq_bind, Option.bind_some, List.foldlM_cons, hfeed]
    rfl

/-! ## The paper trader -/

/-- The candles of the paper trader are unchanged. -/
structure PaperFrame (w w' : World) : Prop where
  active : w'.mem.active = w.mem.active
  candles : w'.mem.candles = w.mem.candles

theorem PaperFrame.refl (w : World) : PaperFrame w w := ⟨rfl, rfl⟩

theorem PaperFrame.trans {w w' t : World} (h : PaperFrame w w') (h' : PaperFrame w' t) : PaperFrame w t :=
  ⟨h'.active.trans h.active, h'.candles.trans h.candles⟩

theorem settleOpen_frame (env : Env) (pos : PaperPosition) (w : World) :
    PaperFrame w (Paper.settleOpen env pos w).2 := by
  unfold Paper.settleOpen
  rcases hw : Paper.writePositionOpen env pos w with ⟨ok, t⟩
  have ht : t.mem = w.mem := by
    unfold Paper.writePositionOpen at hw
    cases hw
    rfl
  have hframe : PaperFrame w t := ⟨congrArg Manager.active ht, congrArg Manager.candles ht⟩
  cases ok with
  | false => exact hframe.trans ⟨rfl, rfl⟩
  | true => exact hframe.trans ⟨rfl, rfl⟩

theorem settleClose_frame (env : Env) (trade : Paper.PaperTradeResult) (exitFee : ℚ) (symbol : String) (w : World) :
    PaperFrame w (Paper.settleClose env trade exitFee symbol w).2 := by
  unfold Paper.settleClose
  rcases hw : Paper.writePositionClose env trade exitFee w with ⟨ok, t⟩
  have ht : t.mem = w.mem := by
    unfold Paper.writePositionClose at hw
    cases hw
    rfl
  have hframe : PaperFrame w t := ⟨congrArg Manager.active ht, congrArg Manager.candles ht⟩
  cases ok with
  | false => exact hframe
  | true => exact hframe.trans ⟨rfl, rfl⟩

theorem closePosition_frame (env : Env) (symbol : String) (tsMs : ℤ) (px : ℚ) (reason : PaperMath.ExitReason)
    (w : World) : PaperFrame w (Paper.closePosition env symbol tsMs px reason w) := by
  unfold Paper.closePosition
  split
  · exact .refl w
  · rename_i pos hpos
    have hsettle := settleClose_frame env (Paper.tradeOf env pos symbol tsMs px reason)
      (PaperMath.computeExitFee px pos.qty env.cfg.feeTaker env.cfg.feeMaker reason) symbol w
    dsimp only
    split
    · rename_i t ht
      rw [ht] at hsettle
      exact hsettle
    · rename_i t ht
      rw [ht] at hsettle
      exact hsettle.trans ⟨rfl, rfl⟩

theorem checkExitsOnCandle_frame (env : Env) (c : Paper.Candle5s) (symbol : String) (w : World) :
    PaperFrame w (Paper.checkExitsOnCandle env c symbol w) := by
  unfold Paper.checkExitsOnCandle
  split
  · exact .refl w
  · split
    · exact .refl w
    · split
      · exact closePosition_frame ..
      · split
        · exact closePosition_frame ..
        · exact .refl w

theorem fundingLoop_frame (env : Env) (symbol : String) (tsMs : ℤ) (fuel : ℕ) :
    ∀ (next : ℤ) (w : World), PaperFrame w (Paper.fundingLoop env symbol tsMs fuel next w) := by
  induction fuel with
  | zero => exact fun next w => ⟨rfl, rfl⟩
  | succ fuel ih =>
    intro next w
    unfold Paper.fundingLoop
    split
    · refine PaperFrame.trans ?_ (ih _ _)
      split
      · unfold Paper.applyFunding
        split <;> exact ⟨rfl, rfl⟩
      · exact .refl w
    · exact ⟨rfl, rfl⟩

theorem onEntry_frame (env : Env) (symbol : String) (direction : PaperMath.Direction) (signalTsMs : ℤ)
    (lastPrice : Option ℚ) (monoMs : ℤ) (w : World) :
    PaperFrame w (Paper.onEntry env symbol direction signalTsMs lastPrice monoMs w).2 := by
  unfold Paper.onEntry
  dsimp only
  split
  · unfold Paper.reject
    dsimp only
    split <;> exact ⟨rfl, rfl⟩
  · rename_i pos hdec
    have hclear : PaperFrame w { w with mem.lastRejectionReason := none } := ⟨rfl, rfl⟩
    have hsettle := hclear.trans (settleOpen_frame env pos { w with mem.lastRejectionReason := none })
    split
    · rename_i t ht
      rw [ht] at hsettle
      exact hsettle
    · rename_i t ht
      rw [ht] at hsettle
      exact hsettle.trans ⟨rfl, rfl⟩

theorem onStartup_frame (env : Env) (w : World) : PaperFrame w (Paper.onStartup env w).2 := by
  unfold Paper.onStartup
  split <;> exact ⟨rfl, rfl⟩

theorem onWsTick_frame (symbol : String) (price : Option ℚ) (monoMs : ℤ) (w : World) :
    PaperFrame w (Paper.onWsTick symbol price monoMs w) := by
  unfold Paper.onWsTick
  split
  · exact .refl w
  · split <;> exact ⟨rfl, rfl⟩

/-- The paper trader holds the builder's open candle and the newest of its closed ones. -/
structure PaperBuilt (cap : ℕ) (b : Builder) (symbol : String) (w : World) : Prop where
  active : (w.mem.active.get? symbol).map simCandle = b.active
  candles : (w.mem.candles symbol).map simCandle = lastN cap b.closed

theorem PaperBuilt.frame {cap : ℕ} {w w' : World} (h : PaperBuilt cap b symbol w) (hf : PaperFrame w w') :
    PaperBuilt cap b symbol w' := by
  refine ⟨?_, ?_⟩
  · rw [hf.active]
    exact h.active
  · rw [hf.candles]
    exact h.candles

/-- Closing a candle appends it to the history of its symbol, whatever the writes of the exit do. -/
theorem paper_finalizeActive (env : Env) {a : Paper.Candle5s} {w : World} (h : w.mem.active.get? symbol = some a) :
    (Paper.finalizeActive env symbol w).mem.active = w.mem.active.erase symbol ∧
      (Paper.finalizeActive env symbol w).mem.candles =
        Function.update w.mem.candles symbol (Paper.appendCapped (Paper.candleCap env) (w.mem.candles symbol) a) := by
  unfold Paper.finalizeActive
  rw [h]
  have hframe := checkExitsOnCandle_frame env a symbol
    { w with
      mem.active := w.mem.active.erase symbol
      mem.candles :=
        Function.update w.mem.candles symbol (Paper.appendCapped (Paper.candleCap env) (w.mem.candles symbol) a) }
  exact ⟨hframe.active, hframe.candles⟩

theorem appendCapped_lastN {cap : ℕ} {dq : List Paper.Candle5s} {cs : List PositionSim.Candle5s}
    (h : dq.map simCandle = lastN cap cs) (c : Paper.Candle5s) :
    (Paper.appendCapped cap dq c).map simCandle = lastN cap (cs ++ [simCandle c]) := by
  rw [← dequeAppend_lastN, ← h]
  unfold Paper.appendCapped dequeAppend
  rw [List.map_drop, List.map_append, List.length_map]
  rfl

/-- A bar of the symbol feeds its builder. -/
theorem PaperBuilt.merge {w : World} (h : PaperBuilt (Paper.candleCap env) b ev.symbol w) :
    PaperBuilt (Paper.candleCap env) (b.feed ev) ev.symbol (Paper.mergeCandle env (sampleOf ev) w) := by
  have hnew : ∀ d : Dict String Paper.Candle5s, ∀ c : Paper.Candle5s, (d.set ev.symbol c).get? ev.symbol = some c :=
    fun d c => (Dict.get?_set ..).trans (if_pos rfl)
  unfold Paper.mergeCandle
  dsimp only [sampleOf]
  cases hact : w.mem.active.get? ev.symbol with
  | none =>
    have hb : b.active = none := by rw [← h.active, hact]; rfl
    rw [Builder.feed_of_none hb]
    exact ⟨congrArg (Option.map simCandle) (hnew ..), h.candles⟩
  | some a =>
    have hb : b.active = some (simCandle a) := by rw [← h.active, hact]; rfl
    dsimp only
    rcases lt_trichotomy (barBucket ev) a.sec with hlt | heq | hgt
    · rw [if_neg (show ¬ ev.sec / Paper.candleSec * Paper.candleSec > a.sec from not_lt_of_gt hlt),
        if_neg (show ¬ ev.sec / Paper.candleSec * Paper.candleSec = a.sec from hlt.ne), Builder.feed_of_late hb hlt]
      exact h
    · rw [if_neg (show ¬ ev.sec / Paper.candleSec * Paper.candleSec > a.sec from not_lt_of_ge (le_of_eq heq)),
        if_pos (show ev.sec / Paper.candleSec * Paper.candleSec = a.sec from heq), Builder.feed_of_same hb heq]
      exact ⟨congrArg (Option.map simCandle) (hnew ..), h.candles⟩
    · rw [if_pos (show ev.sec / Paper.candleSec * Paper.candleSec > a.sec from hgt), Builder.feed_of_later hb hgt]
      refine ⟨congrArg (Option.map simCandle) (hnew ..), ?_⟩
      show ((Paper.finalizeActive env ev.symbol w).mem.candles ev.symbol).map simCandle = _
      rw [(paper_finalizeActive env hact).2, Function.update_self]
      exact appendCapped_lastN h.candles a

/-- A bar of another symbol leaves the candles of the symbol alone. -/
theorem paper_mergeCandle_other (env : Env) (w : World) (hk : symbol ≠ ev.symbol) :
    (Paper.mergeCandle env (sampleOf ev) w).mem.active.get? symbol = w.mem.active.get? symbol ∧
      (Paper.mergeCandle env (sampleOf ev) w).mem.candles symbol = w.mem.candles symbol := by
  have hset : ∀ d : Dict String Paper.Candle5s, ∀ c : Paper.Candle5s, (d.set ev.symbol c).get? symbol = d.get? symbol :=
    fun d c => (Dict.get?_set ..).trans (if_neg hk)
  unfold Paper.mergeCandle
  dsimp only [sampleOf]
  split
  · exact ⟨hset _ _, rfl⟩
  · rename_i a hact
    obtain ⟨hactive, hcandles⟩ := paper_finalizeActive env hact
    split
    · refine ⟨?_, ?_⟩
      · dsimp only
        rw [hset, hactive]
        exact (Dict.get?_erase ..).trans (if_neg hk)
      · dsimp only
        rw [hcandles, Function.update_of_ne hk]
    · split
      · exact ⟨hset _ _, rfl⟩
      · exact ⟨rfl, rfl⟩

theorem PaperBuilt.onOhlcv {w : World} (h : PaperBuilt (Paper.candleCap env) (builder bars) symbol w)
    (ev : OHLCVEvent) (hpx : 0 < ev.close) (monoMs : ℤ) :
    PaperBuilt (Paper.candleCap env) (builder (if ev.symbol = symbol then bars ++ [ev] else bars)) symbol
      (Paper.onOhlcv env (sampleOf ev) monoMs w) := by
  have hmerge : PaperBuilt (Paper.candleCap env) (builder (if ev.symbol = symbol then bars ++ [ev] else bars)) symbol
      (Paper.mergeCandle env (sampleOf ev) w) := by
    by_cases hk : ev.symbol = symbol
    · subst hk
      rw [if_pos rfl, builder_append]
      exact h.merge
    · obtain ⟨hactive, hcandles⟩ := paper_mergeCandle_other env w (Ne.symm hk)
      rw [if_neg hk]
      exact ⟨by rw [hactive]; exact h.active, by rw [hcandles]; exact h.candles⟩
  unfold Paper.onOhlcv
  rw [if_neg (show ¬ (sampleOf ev).close ≤ 0 from not_le.mpr hpx)]
  have hfund : PaperFrame (Paper.mergeCandle env (sampleOf ev) w)
      (Paper.fundingCheck env ev.symbol ev.tsMs (Paper.mergeCandle env (sampleOf ev) w)) := fundingLoop_frame ..
  exact (hmerge.frame hfund).frame ⟨rfl, rfl⟩

/-- The sample of a call. -/
def sampleIn : Paper.Action → Option Paper.OhlcvSample
  | .onOhlcv sample _ => some sample
  | _ => none

/-- A call that neither flushes the open candles nor drops them with the process. -/
def PaperUnflushed : Paper.Action → Prop
  | .finalize .. => False
  | .restart => False
  | _ => True

/-- A call without a sample leaves the candles alone. -/
theorem paper_step_frame {a : Paper.Action} (ha : PaperUnflushed a) (hnone : sampleIn a = none) (w : World) :
    PaperFrame w (Paper.step env w a) := by
  cases a with
  | onStartup => exact onStartup_frame env w
  | onWsTick symbol price monoMs => exact onWsTick_frame symbol price monoMs w
  | onTicker symbol fundingRate => exact ⟨rfl, rfl⟩
  | onOhlcv sample monoMs => cases hnone
  | onEntry symbol direction signalTsMs lastPrice monoMs => exact onEntry_frame ..
  | finalize lastTsMs lastPrices => exact absurd ha id
  | restart => exact absurd ha id
  | otherCommit => exact ⟨rfl, rfl⟩

/-- **The paper trader's candles** after any calls but `finalize` and a restart, on any database. -/
theorem paper_run (env : Env) (conn : Sqlite.Conn Db) (log : List Paper.PositionWrite) (symbol : String)
    {evs : List OHLCVEvent} (hpriced : ∀ ev ∈ evs, 0 < ev.close) (acts : List Paper.Action) (hacts : ∀ a ∈ acts, PaperUnflushed a)
    (hevs : acts.filterMap sampleIn = evs.map sampleOf) :
    PaperBuilt (Paper.candleCap env) (builder (barsOf symbol evs)) symbol
      (Runs.run (Paper.step env) ⟨Manager.init env.cfg, conn, log⟩ acts) := by
  induction acts using List.reverseRecOn generalizing evs with
  | nil =>
    rw [List.map_eq_nil_iff.mp hevs.symm]
    exact ⟨rfl, List.drop_nil.symm⟩
  | append_singleton acts a ih =>
    have hpre : ∀ c ∈ acts, PaperUnflushed c := fun c hc => hacts c (List.mem_append_left _ hc)
    have ha := hacts a (List.mem_append_right _ (List.mem_singleton_self a))
    rw [Runs.run_append]
    rw [List.filterMap_append] at hevs
    cases hsample : sampleIn a with
    | none =>
      rw [List.filterMap_cons_none hsample, List.filterMap_nil, List.append_nil] at hevs
      exact (ih hpriced hpre hevs).frame (paper_step_frame ha hsample _)
    | some sample =>
      rw [List.filterMap_cons_some hsample, List.filterMap_nil] at hevs
      obtain ⟨pre, last, rfl, hmap, hlast⟩ := List.map_eq_append_iff.mp hevs.symm
      obtain ⟨ev, rfl, hev⟩ := List.map_eq_singleton_iff.mp hlast
      have hprev := ih (fun x hx => hpriced x (List.mem_append_left _ hx)) hpre hmap.symm
      have hpx := hpriced ev (List.mem_append_right _ (List.mem_singleton_self ev))
      obtain ⟨monoMs, rfl⟩ : ∃ monoMs, a = .onOhlcv sample monoMs := by
        cases a with
        | onOhlcv x monoMs =>
          cases hsample
          exact ⟨monoMs, rfl⟩
        | _ => cases hsample
      rw [barsOf_append, ← hev]
      exact hprev.onOhlcv ev hpx monoMs

/-! ## Agreement -/

/-- **Three candle builders agree.** Let any bars with positive closes arrive, of any symbols in any order, with
any other calls between them but a flush. The detector of a symbol does not raise, and it, the simulator and the
paper trader hold the same open candle of the symbol and the newest of the same finished candles; those are the
candles of the bars that were on time. -/
theorem candles_agree (dcfg : DetectorConfig) (hsec : dcfg.candleSeconds = 5) (cfg : PositionSimConfig)
    (windowId foldId : ℤ) (env : Env) (conn : Sqlite.Conn Db) (symbol : String) (evs : List OHLCVEvent)
    (hpriced : ∀ ev ∈ evs, 0 < ev.close)
    (acts : List PositionSim.Action) (hacts : ∀ a ∈ acts, Unflushed a) (hbars : acts.filterMap barOf = evs)
    (pacts : List Paper.Action) (hpacts : ∀ a ∈ pacts, PaperUnflushed a)
    (hsamples : pacts.filterMap sampleIn = evs.map sampleOf) :
    let s := Runs.run (PositionSim.step cfg) (PositionSim.init cfg windowId foldId) acts
    let w := Runs.run (Paper.step env) ⟨Manager.init env.cfg, conn, []⟩ pacts
    ∃ active closed, Finished (barsOf symbol evs) closed ∧
      (∃ d, detectorRun dcfg (barsOf symbol evs) = some d ∧ d.active.map detectorCandle = active ∧
        d.candles.map detectorCandle = lastN dcfg.maxHistory closed) ∧
      (s.active.get? symbol = active ∧ s.candles symbol = lastN (PositionSim.candleCap cfg) closed) ∧
      (w.mem.active.get? symbol).map simCandle = active ∧
        (w.mem.candles symbol).map simCandle = lastN (Paper.candleCap env) closed := by
  have hown : ∀ ev ∈ barsOf symbol evs, 0 < ev.close := fun ev hev => hpriced ev (List.mem_of_mem_filter hev)
  obtain ⟨d, hd, hdetector⟩ := detector_run hsec hown
  have hsim := built_run cfg windowId foldId symbol acts hacts
  rw [hbars] at hsim
  have hpaper := paper_run env conn [] symbol hpriced pacts hpacts hsamples
  exact ⟨(builder (barsOf symbol evs)).active, finished (barsOf symbol evs), finished_spec _,
    ⟨d, hd, hdetector.active, hdetector.candles⟩, ⟨hsim.active, hsim.candles⟩, hpaper.active, hpaper.candles⟩

/-- Bars of two symbols; the third is late. -/
def mixedBars : List OHLCVEvent :=
  [⟨3, 3000, 100, 101, 99, 100, 1, 0, 1, "BTC_USDT", 1⟩, ⟨7, 7000, 100, 104, 100, 103, 1, 1, 2, "BTC_USDT", 2⟩,
    ⟨4, 4000, 90, 90, 90, 90, 1, 0, 1, "BTC_USDT", 3⟩, ⟨8, 8000, 10, 10, 10, 10, 1, 0, 1, "ETH_USDT", 1⟩,
    ⟨11, 11000, 103, 103, 102, 102, 0, 1, 1, "BTC_USDT", 4⟩]

theorem candles_agree_mixedBars :
    let s := Runs.run (PositionSim.step { riskPct := 6 / 1000, maxPositionsGlobal := 2 })
      (PositionSim.init { riskPct := 6 / 1000, maxPositionsGlobal := 2 } 0 0) (mixedBars.map .onOhlcv)
    let w := Runs.run (Paper.step ⟨{}, fun _ _ => true, fun _ => 0⟩) ⟨Manager.init {}, .openDb {}, []⟩
      (mixedBars.map fun ev => .onOhlcv (sampleOf ev) 0)
    ∃ active closed, Finished (barsOf "BTC_USDT" mixedBars) closed ∧
      (∃ d, detectorRun {} (barsOf "BTC_USDT" mixedBars) = some d ∧ d.active.map detectorCandle = active ∧
        d.candles.map detectorCandle = lastN 300 closed) ∧
      (s.active.get? "BTC_USDT" = active ∧
        s.candles "BTC_USDT" = lastN (PositionSim.candleCap { riskPct := 6 / 1000, maxPositionsGlobal := 2 }) closed) ∧
      (w.mem.active.get? "BTC_USDT").map simCandle = active ∧
        (w.mem.candles "BTC_USDT").map simCandle =
          lastN (Paper.candleCap ⟨{}, fun _ _ => true, fun _ => 0⟩) closed := by
  have hpriced : ∀ ev ∈ mixedBars, 0 < ev.close := by decide
  refine candles_agree {} rfl { riskPct := 6 / 1000, maxPositionsGlobal := 2 } 0 0
    ⟨{}, fun _ _ => true, fun _ => 0⟩ (.openDb {}) "BTC_USDT" mixedBars hpriced _ ?_ rfl _ ?_ rfl
  · intro a ha
    obtain ⟨ev, -, rfl⟩ := List.mem_map.mp ha
    trivial
  · intro a ha
    obtain ⟨ev, -, rfl⟩ := List.mem_map.mp ha
    trivial

end MikoV2.Parity
