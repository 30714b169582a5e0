import MikoV2.Backtest.PositionSim
import MikoV2.Paper.Moves

/-!
# The exits of the backtest and of the paper trader

`PositionSimulator` and `PaperPositionManager` in lockstep. The manager is related to the simulator that
forgets the ids of its positions and has the same prices, candles, funding clock and realized equity.

* `SameParams` : the configurations agree on what both have;
* `Mirrors` : the states agree; each method keeps it while the close writes do not raise;
* `Lockstep` : the states agree and the trades recorded since the start are the same, one for one;
* `exit_parity` : a run of bars, tickers and closings keeps both.
-/

namespace MikoV2.Parity
open Backtest PositionSim Store
open Paper (Manager World Env PaperTradeResult PaperPositionConfig)
open PaperMath (Direction ExitReason computePnlGross computeExitFee computeRMultiple computeFundingDelta)
open Py (Dict)

/-! ## The same data in both -/

/-- A position of the paper trader as the simulator has it. -/
def simPosition (p : PaperPosition) : Position :=
  ⟨p.symbol, p.direction, p.entryTsMs, p.entryBucketSec, p.entryPrice, p.qty, p.slPrice, p.tpPrice, p.entryFee,
    p.fundingPaid⟩

def simCandle (c : Paper.Candle5s) : PositionSim.Candle5s := ⟨c.sec, c.tsMs, c.open, c.high, c.low, c.close⟩

/-- A trade of the paper trader as a simulator with these labels records it. -/
def simTrade (windowId foldId : ℤ) (t : PaperTradeResult) : Trade :=
  ⟨t.symbol, t.direction, t.entryTsMs, t.entryPrice, t.qty, t.slPrice, t.tpPrice, t.exitTsMs, t.exitPrice,
    t.exitReason, t.feePaid, t.fundingPaid, t.pnlGross, t.pnlNet, t.rMultiple, windowId, foldId⟩

/-- The runner's map from a bar to what the paper trader takes. -/
def sampleOf (ev : OHLCVEvent) : Paper.OhlcvSample := ⟨ev.symbol, ev.sec, ev.tsMs, ev.open, ev.high, ev.low, ev.close⟩

/-- The parameters that both configurations have are equal, and so is the capacity for candles. -/
structure SameParams (cfg : PositionSimConfig) (pcfg : PaperPositionConfig) : Prop where
  initialEquity : cfg.initialEquity = pcfg.initialEquity
  riskPct : cfg.riskPct = pcfg.riskPct
  atrPeriod : cfg.atrPeriod = pcfg.atrPeriod
  slAtrMultiplier : cfg.slAtrMultiplier = pcfg.slAtrMultiplier
  tpRMultiple : cfg.tpRMultiple = pcfg.tpRMultiple
  maxSlDistancePct : cfg.maxSlDistancePct = pcfg.maxSlDistancePct
  minSlDistancePct : cfg.minSlDistancePct = pcfg.minSlDistancePct
  entrySlippageBps : cfg.entrySlippageBps = pcfg.entrySlippageBps
  feeTaker : cfg.feeTaker = pcfg.feeTaker
  feeMaker : cfg.feeMaker = pcfg.feeMaker
  includeFunding : cfg.includeFunding = pcfg.includeFunding
  maxPositionsPerSymbol : cfg.maxPositionsPerSymbol = pcfg.maxPositionsPerSymbol
  maxPositionsGlobal : cfg.maxPositionsGlobal = pcfg.maxPositionsGlobal
  candleCap : max (cfg.atrPeriod * 4) 100 = max (pcfg.atrPeriod * 4) pcfg.candleCapMin

/-- The same open positions, active and closed candles, prices, funding state and realized equity. -/
structure Mirrors (s : PositionSimulator) (m : Manager) : Prop where
  positions : s.positions = m.positions.mapValues simPosition
  candles : ∀ symbol, s.candles symbol = (m.candles symbol).map simCandle
  active : s.active = m.active.mapValues simCandle
  lastPrice : s.lastPrice = m.lastPrice
  lastFundingRate : s.lastFundingRate = m.lastFundingRate
  nextFundingMs : s.nextFundingMs = m.nextFundingMs
  realizedEquity : s.realizedEquity = m.realizedEquity

/-- The close writes of the paper trader do not raise. -/
structure ClosesWrite (env : Env) : Prop where
  updatePosition : ∀ n, env.faults n .updatePosition = false
  commitClose : ∀ n, env.faults n .commitClose = false

/-- In step since the simulator had `trades` and the manager `closed`: the states agree, and what was recorded
since then is the same list of trades. -/
structure Lockstep (trades : List Trade) (closed : List PaperTradeResult) (s : PositionSimulator) (m : Manager) :
    Prop extends Mirrors s m where
  recorded : ∃ new, m.closedTrades = closed ++ new ∧
    s.trades = trades ++ new.map (simTrade s.windowId s.foldId)

variable {cfg : PositionSimConfig} {env : Env} {trades : List Trade} {closed : List PaperTradeResult}
  {s : PositionSimulator} {w : World} {symbol : String}

/-! ## Closing -/

/-- With its writes succeeding, a close of the paper trader updates the memory. -/
theorem closePosition_mem (hw : ClosesWrite env) (symbol : String) (tsMs : ℤ) (exitPrice : ℚ)
    (reason : ExitReason) (w : World) :
    (Paper.closePosition env symbol tsMs exitPrice reason w).mem =
      match w.mem.positions.get? symbol with
      | none => w.mem
      | some pos =>
        let trade := Paper.tradeOf env pos symbol tsMs exitPrice reason
        { w.mem with
          positions := w.mem.positions.erase symbol
          closedTrades := w.mem.closedTrades ++ [trade]
          realizedEquity := w.mem.realizedEquity + trade.pnlNet } := by
  unfold Paper.closePosition
  cases hget : w.mem.positions.get? symbol with
  | none => rfl
  | some pos =>
    have hok := Sqlite.write_isSome hw.updatePosition hw.commitClose
      (Prod.mk.eta (p := w.conn.write env.faults .updatePosition .commitClose
        (Paper.updatePosition (Paper.tradeOf env pos symbol tsMs exitPrice reason)
          (computeExitFee exitPrice pos.qty env.cfg.feeTaker env.cfg.feeMaker reason)
          (env.wallMs w.conn.issued)))).symm
    unfold Paper.settleClose Paper.writePositionClose
    dsimp only
    rw [hok]
    rfl

theorem tradeOf_eq (hc : SameParams cfg env.cfg) (s : PositionSimulator) (pos : PaperPosition) (symbol : String)
    (tsMs : ℤ) (exitPrice : ℚ) (reason : ExitReason) :
    tradeOf cfg s (simPosition pos) symbol tsMs exitPrice reason =
      simTrade s.windowId s.foldId (Paper.tradeOf env pos symbol tsMs exitPrice reason) := by
  have hR : (if |pos.entryPrice - pos.slPrice| > 0 then
      if pos.direction = .LONG then (exitPrice - pos.entryPrice) / |pos.entryPrice - pos.slPrice|
      else (pos.entryPrice - exitPrice) / |pos.entryPrice - pos.slPrice| else 0) =
      computeRMultiple pos.entryPrice exitPrice pos.slPrice pos.direction := by
    unfold computeRMultiple
    dsimp only
    by_cases h : |pos.entryPrice - pos.slPrice| > 0
    · rw [if_pos h, if_neg (not_le.mpr h)]
    · rw [if_neg h, if_pos (not_lt.mp h)]
  unfold tradeOf Paper.tradeOf simTrade simPosition computePnlGross computeExitFee
  simp only [hc.feeMaker, hc.feeTaker, hR]

theorem Lockstep.close (hc : SameParams cfg env.cfg) (hw : ClosesWrite env)
    (h : Lockstep trades closed s w.mem) (symbol : String) (tsMs : ℤ) (exitPrice : ℚ) (reason : ExitReason) :
    Lockstep trades closed (closePosition cfg symbol tsMs exitPrice reason s)
      (Paper.closePosition env symbol tsMs exitPrice reason w).mem := by
  have hget : s.positions.get? symbol = (w.mem.positions.get? symbol).map simPosition := by
    rw [h.positions, Dict.get?_mapValues]
  rw [closePosition_mem hw]
  unfold PositionSim.closePosition
  rw [hget]
  cases hpos : w.mem.positions.get? symbol with
  | none => exact h
  | some pos =>
    have htrade := tradeOf_eq hc s pos symbol tsMs exitPrice reason
    obtain ⟨new, hnew, hrec⟩ := h.recorded
    dsimp only [Option.map_some]
    refine ⟨⟨?_, h.candles, h.active, h.lastPrice, h.lastFundingRate, h.nextFundingMs, ?_⟩, ?_⟩
    · rw [h.positions, Dict.mapValues_erase]
    · rw [htrade, h.realizedEquity]
      rfl
    · refine ⟨new ++ [Paper.tradeOf env pos symbol tsMs exitPrice reason], ?_, ?_⟩
      · rw [hnew, List.append_assoc]
      · rw [hrec, htrade, List.map_append, List.append_assoc]
        rfl

/-! ## Candles -/

theorem hitSl_eq (pos : PaperPosition) (c : Paper.Candle5s) :
    hitSl (simPosition pos) (simCandle c) = Paper.hitSl pos c := by
  unfold hitSl Paper.hitSl simPosition simCandle
  cases pos.direction <;> rfl

theorem hitTp_eq (pos : PaperPosition) (c : Paper.Candle5s) :
    hitTp (simPosition pos) (simCandle c) = Paper.hitTp pos c := by
  unfold hitTp Paper.hitTp simPosition simCandle
  cases pos.direction <;> rfl

theorem Lockstep.checkExits (hc : SameParams cfg env.cfg) (hw : ClosesWrite env)
    (h : Lockstep trades closed s w.mem) (c : Paper.Candle5s) (symbol : String) :
    Lockstep trades closed (checkExitsOnCandle cfg (simCandle c) symbol s)
      (Paper.checkExitsOnCandle env c symbol w).mem := by
  have hget : s.positions.get? symbol = (w.mem.positions.get? symbol).map simPosition := by
    rw [h.positions, Dict.get?_mapValues]
  unfold checkExitsOnCandle Paper.checkExitsOnCandle
  rw [hget]
  cases hpos : w.mem.positions.get? symbol with
  | none => exact h
  | some pos =>
    dsimp only [Option.map_some]
    rw [hitSl_eq, hitTp_eq]
    by_cases hsec : c.sec ≤ pos.entryBucketSec
    · rw [if_pos hsec, if_pos (show (simCandle c).sec ≤ (simPosition pos).entryBucketSec from hsec)]
      exact h
    · rw [if_neg hsec, if_neg (show ¬ (simCandle c).sec ≤ (simPosition pos).entryBucketSec from hsec)]
      split
      · exact h.close hc hw ..
      · split
        · exact h.close hc hw ..
        · exact h

theorem dequeAppend_map (hc : SameParams cfg env.cfg) (dq : List Paper.Candle5s) (c : Paper.Candle5s) :
    dequeAppend (candleCap cfg) (dq.map simCandle) (simCandle c) =
      (Paper.appendCapped (Paper.candleCap env) dq c).map simCandle := by
  have hcap : candleCap cfg = Paper.candleCap env := hc.candleCap
  unfold dequeAppend Paper.appendCapped
  rw [hcap, List.map_drop, List.map_append, List.length_map]
  rfl

theorem Lockstep.finalizeActive (hc : SameParams cfg env.cfg) (hw : ClosesWrite env)
    (h : Lockstep trades closed s w.mem) (symbol : String) :
    Lockstep trades closed (finalizeActive cfg symbol s) (Paper.finalizeActive env symbol w).mem := by
  have hget : s.active.get? symbol = (w.mem.active.get? symbol).map simCandle := by
    rw [h.active, Dict.get?_mapValues]
  unfold PositionSim.finalizeActive Paper.finalizeActive
  rw [hget]
  cases hact : w.mem.active.get? symbol with
  | none => exact h
  | some b =>
    dsimp only [Option.map_some]
    refine Lockstep.checkExits hc hw ?_ b symbol
    refine ⟨⟨h.positions, ?_, ?_, h.lastPrice, h.lastFundingRate, h.nextFundingMs, h.realizedEquity⟩, h.recorded⟩
    · intro k
      dsimp only
      by_cases hk : k = symbol
      · rw [hk, Function.update_self, Function.update_self, h.candles, dequeAppend_map hc]
      · rw [Function.update_of_ne hk, Function.update_of_ne hk, h.candles]
    · rw [h.active, Dict.mapValues_erase]

theorem Lockstep.setActive (h : Lockstep trades closed s w.mem) (symbol : String) {c : PositionSim.Candle5s}
    {c' : Paper.Candle5s} (hc : c = simCandle c') :
    Lockstep trades closed { s with active := s.active.set symbol c }
      { w.mem with active := w.mem.active.set symbol c' } := by
  refine ⟨⟨h.positions, h.candles, ?_, h.lastPrice, h.lastFundingRate, h.nextFundingMs, h.realizedEquity⟩, h.recorded⟩
  rw [h.active, Dict.mapValues_set, hc]

theorem Lockstep.mergeCandle (hc : SameParams cfg env.cfg) (hw : ClosesWrite env)
    (h : Lockstep trades closed s w.mem) (ev : OHLCVEvent) :
    Lockstep trades closed (mergeCandle cfg ev s) (Paper.mergeCandle env (sampleOf ev) w).mem := by
  have hget : s.active.get? ev.symbol = (w.mem.active.get? ev.symbol).map simCandle := by
    rw [h.active, Dict.get?_mapValues]
  unfold PositionSim.mergeCandle Paper.mergeCandle
  dsimp only [sampleOf]
  rw [hget]
  cases hact : w.mem.active.get? ev.symbol with
  | none => exact h.setActive ev.symbol rfl
  | some b =>
    dsimp only [Option.map_some]
    by_cases hlater : bucketSec ev.sec > b.sec
    · rw [if_pos (show bucketSec ev.sec > (simCandle b).sec from hlater),
        if_pos (show ev.sec / Paper.candleSec * Paper.candleSec > b.sec from hlater)]
      exact (h.finalizeActive hc hw ev.symbol).setActive ev.symbol rfl
    · rw [if_neg (show ¬ bucketSec ev.sec > (simCandle b).sec from hlater),
        if_neg (show ¬ ev.sec / Paper.candleSec * Paper.candleSec > b.sec from hlater)]
      by_cases hsame : bucketSec ev.sec = b.sec
      · rw [if_pos (show bucketSec ev.sec = (simCandle b).sec from hsame),
          if_pos (show ev.sec / Paper.candleSec * Paper.candleSec = b.sec from hsame)]
        exact h.setActive ev.symbol rfl
      · rw [if_neg (show ¬ bucketSec ev.sec = (simCandle b).sec from hsame),
          if_neg (show ¬ ev.sec / Paper.candleSec * Paper.candleSec = b.sec from hsame)]
        exact h

/-! ## Funding -/

theorem Lockstep.applyFunding (h : Lockstep trades closed s w.mem) (symbol : String) :
    Lockstep trades closed (applyFunding symbol s) (Paper.applyFunding symbol w).mem := by
  have hget : s.positions.get? symbol = (w.mem.positions.get? symbol).map simPosition := by
    rw [h.positions, Dict.get?_mapValues]
  unfold PositionSim.applyFunding Paper.applyFunding
  rw [hget]
  cases hpos : w.mem.positions.get? symbol with
  | none => exact h
  | some pos =>
    dsimp only [Option.map_some]
    refine ⟨⟨?_, h.candles, h.active, h.lastPrice, h.lastFundingRate, h.nextFundingMs, h.realizedEquity⟩, h.recorded⟩
    rw [Dict.mapValues_set, ← h.positions, h.lastFundingRate]
    unfold simPosition computeFundingDelta
    dsimp only
    split
    · rfl
    · rw [sub_eq_add_neg]

theorem Lockstep.setNextFunding (h : Lockstep trades closed s w.mem) (symbol : String) (next : ℤ) :
    Lockstep trades closed { s with nextFundingMs := Function.update s.nextFundingMs symbol (some next) }
      { w.mem with nextFundingMs := Function.update w.mem.nextFundingMs symbol (some next) } := by
  refine ⟨⟨h.positions, h.candles, h.active, h.lastPrice, h.lastFundingRate, ?_, h.realizedEquity⟩, h.recorded⟩
  rw [h.nextFundingMs]

theorem Lockstep.fundingLoop (hc : SameParams cfg env.cfg) (symbol : String) (tsMs : ℤ) (fuel : ℕ) :
    ∀ (next : ℤ) (s : PositionSimulator) (w : World), Lockstep trades closed s w.mem →
      Lockstep trades closed (fundingLoop cfg symbol tsMs fuel next s)
        (Paper.fundingLoop env symbol tsMs fuel next w).mem := by
  induction fuel with
  | zero => exact fun next s w h => h.setNextFunding symbol next
  | succ fuel ih =>
    intro next s w h
    unfold PositionSim.fundingLoop Paper.fundingLoop
    rw [hc.includeFunding]
    split
    · refine ih _ _ _ ?_
      split
      · exact h.applyFunding symbol
      · exact h
    · exact h.setNextFunding symbol next

theorem Lockstep.onOhlcv (hc : SameParams cfg env.cfg) (hw : ClosesWrite env)
    (h : Lockstep trades closed s w.mem) (ev : OHLCVEvent) (hpx : 0 < ev.close) (monoMs : ℤ) :
    Lockstep trades closed (onOhlcv cfg ev s) (Paper.onOhlcv env (sampleOf ev) monoMs w).mem := by
  have hmerge := h.mergeCandle hc hw ev
  have hfund : Lockstep trades closed (fundingCheck cfg ev.symbol ev.tsMs (PositionSim.mergeCandle cfg ev s))
      (Paper.fundingCheck env ev.symbol ev.tsMs (Paper.mergeCandle env (sampleOf ev) w)).mem := by
    unfold fundingCheck Paper.fundingCheck
    rw [hmerge.nextFundingMs]
    exact Lockstep.fundingLoop hc ev.symbol ev.tsMs _ _ _ _ hmerge
  unfold PositionSim.onOhlcv Paper.onOhlcv
  rw [if_neg (show ¬ (sampleOf ev).close ≤ 0 from not_le.mpr hpx)]
  refine ⟨⟨hfund.positions, hfund.candles, hfund.active, ?_, hfund.lastFundingRate, hfund.nextFundingMs,
    hfund.realizedEquity⟩, hfund.recorded⟩
  show Function.update _ ev.symbol _ = Function.update _ ev.symbol _
  rw [hfund.lastPrice]
  rfl

/-! ## Closing out -/

theorem Lockstep.finalizePosition (hc : SameParams cfg env.cfg) (hw : ClosesWrite env)
    (h : Lockstep trades closed s w.mem) (lastTsMs : ℤ) (lastPrices : String → Option ℚ) (symbol : String) :
    Lockstep trades closed (finalizePosition cfg lastTsMs lastPrices s symbol)
      (Paper.finalizePosition env lastTsMs lastPrices w symbol).mem := by
  have hget : s.positions.get? symbol = (w.mem.positions.get? symbol).map simPosition := by
    rw [h.positions, Dict.get?_mapValues]
  unfold PositionSim.finalizePosition Paper.finalizePosition
  rw [hget, h.lastPrice]
  cases hpos : w.mem.positions.get? symbol with
  | none => exact h
  | some pos => exact h.close hc hw ..

theorem Lockstep.finalize (hc : SameParams cfg env.cfg) (hw : ClosesWrite env)
    (h : Lockstep trades closed s w.mem) (lastTsMs : ℤ) (lastPrices : String → Option ℚ) :
    Lockstep trades closed (finalize cfg lastTsMs lastPrices s) (Paper.finalize env lastTsMs lastPrices w).mem := by
  have hactive : ∀ (l : List String) (s : PositionSimulator) (w : World), Lockstep trades closed s w.mem →
      Lockstep trades closed (l.foldl (fun s symbol => PositionSim.finalizeActive cfg symbol s) s)
        (l.foldl (fun w symbol => Paper.finalizeActive env symbol w) w).mem := by
    intro l
    induction l with
    | nil => exact fun s w h => h
    | cons symbol l ih => exact fun s w h => ih _ _ (h.finalizeActive hc hw symbol)
  have hpositions : ∀ (l : List String) (s : PositionSimulator) (w : World), Lockstep trades closed s w.mem →
      Lockstep trades closed (l.foldl (PositionSim.finalizePosition cfg lastTsMs lastPrices) s)
        (l.foldl (Paper.finalizePosition env lastTsMs lastPrices) w).mem := by
    intro l
    induction l with
    | nil => exact fun s w h => h
    | cons symbol l ih => exact fun s w h => ih _ _ (h.finalizePosition hc hw lastTsMs lastPrices symbol)
  have hkeys : s.active.keys = w.mem.active.keys := by rw [h.active, Dict.keys_mapValues]
  have hclosed := hactive w.mem.active.keys s w h
  have hkeys' := congrArg Dict.keys hclosed.positions
  rw [Dict.keys_mapValues] at hkeys'
  unfold PositionSim.finalize Paper.finalize
  dsimp only
  rw [hkeys, hkeys']
  exact hpositions _ _ _ hclosed

/-! ## Runs -/

/-- What both receive: a bar and the reading of the monotonic clock, a ticker, the end. -/
inductive Event
  | ohlcv (ev : OHLCVEvent) (monoMs : ℤ)
  | ticker (ev : TickerEvent)
  | finalize (lastTsMs : ℤ) (lastPrices : String → Option ℚ)

def Event.sim : Event → Action
  | ohlcv ev _ => .onOhlcv ev
  | ticker ev => .onTicker ev
  | finalize lastTsMs lastPrices => .finalize lastTsMs lastPrices

def Event.paper : Event → Paper.Action
  | ohlcv ev monoMs => .onOhlcv (sampleOf ev) monoMs
  | ticker ev => .onTicker ev.symbol (some ev.fundingRate)
  | finalize lastTsMs lastPrices => .finalize lastTsMs lastPrices

/-- A bar has a positive close. -/
def Event.Priced : Event → Prop
  | ohlcv ev _ => 0 < ev.close
  | _ => True

theorem Lockstep.step (hc : SameParams cfg env.cfg) (hw : ClosesWrite env) (h : Lockstep trades closed s w.mem)
    (e : Event) (he : e.Priced) :
    Lockstep trades closed (PositionSim.step cfg s e.sim) (Paper.step env w e.paper).mem := by
  cases e with
  | ohlcv ev monoMs => exact h.onOhlcv hc hw ev he monoMs
  | ticker ev =>
    refine ⟨⟨h.positions, h.candles, h.active, h.lastPrice, ?_, h.nextFundingMs, h.realizedEquity⟩, h.recorded⟩
    show Function.update s.lastFundingRate _ _ = Function.update w.mem.lastFundingRate _ _
    rw [h.lastFundingRate]
    rfl
  | finalize lastTsMs lastPrices => exact h.finalize hc hw lastTsMs lastPrices

/-- **Exit parity.** From states that agree, any run of bars with positive closes, tickers and closings records
the same trades in the same order and ends in states that agree. -/
theorem exit_parity (cfg : PositionSimConfig) (env : Env) (hc : SameParams cfg env.cfg) (hw : ClosesWrite env)
    (s : PositionSimulator) (w : World) (h : Mirrors s w.mem) (events : List Event)
    (hpriced : ∀ e ∈ events, e.Priced) :
    let s' := Runs.run (PositionSim.step cfg) s (events.map Event.sim)
    let w' := Runs.run (Paper.step env) w (events.map Event.paper)
    Mirrors s' w'.mem ∧
      ∃ new, w'.mem.closedTrades = w.mem.closedTrades ++ new ∧
        s'.trades = s.trades ++ new.map (simTrade s'.windowId s'.foldId) := by
  have hstart : Lockstep s.trades w.mem.closedTrades s w.mem :=
    ⟨h, [], (List.append_nil _).symm, (List.append_nil _).symm⟩
  dsimp only
  rw [Runs.run_map, Runs.run_map]
  have hrun := Runs.lockstep (R := fun s' (w' : World) => Lockstep s.trades w.mem.closedTrades s' w'.mem)
    (fun s' w' e he hl => hl.step hc hw e he) hpriced hstart
  exact ⟨hrun.toMirrors, hrun.recorded⟩

/-- A long position entered at 100 in the bucket 0, with its stop at 99 and its target at 102. -/
def heldLong : PaperPosition where
  positionId := "paper-BTC_USDT-1000"
  symbol := "BTC_USDT"
  direction := .LONG
  entryTsMs := 1000
  entryBucketSec := 0
  entryPrice := 100
  qty := 60
  slPrice := 99
  tpPrice := 102
  entryFee := 12 / 10

def holding : World where
  mem := { Manager.init {} with positions := Dict.empty.set "BTC_USDT" heldLong }
  conn := .openDb {}

def simHolding : PositionSimulator :=
  { init {} 0 0 with positions := holding.mem.positions.mapValues simPosition }

theorem exit_parity_stop :
    let events : List Event := [.ohlcv ⟨7, 7000, 100, 101, 98, 99, 0, 0, 0, "BTC_USDT", 7⟩ 0,
      .ohlcv ⟨11, 11000, 99, 99, 99, 99, 0, 0, 0, "BTC_USDT", 11⟩ 0, .finalize 12000 fun _ => none]
    let s' := Runs.run (PositionSim.step { riskPct := 6 / 1000, maxPositionsGlobal := 2 }) simHolding
      (events.map Event.sim)
    let w' := Runs.run (Paper.step ⟨{}, fun _ _ => false, fun _ => 0⟩) holding (events.map Event.paper)
    Mirrors s' w'.mem ∧ ∃ new, w'.mem.closedTrades = holding.mem.closedTrades ++ new ∧
      s'.trades = simHolding.trades ++ new.map (simTrade s'.windowId s'.foldId) := by
  have hsame : SameParams { riskPct := 6 / 1000, maxPositionsGlobal := 2 } {} := by constructor <;> rfl
  have hmirrors : Mirrors simHolding holding.mem := by constructor <;> intros <;> rfl
  refine exit_parity _ ⟨{}, fun _ _ => false, fun _ => 0⟩ hsame ⟨fun _ => rfl, fun _ => rfl⟩ _ _ hmirrors _ ?_
  intro e he
  simp only [List.mem_cons, List.not_mem_nil, or_false] at he
  rcases he with rfl | rfl | rfl
  · show (0 : ℚ) < 99
    decide
  · show (0 : ℚ) < 99
    decide
  · trivial

end MikoV2.Parity
