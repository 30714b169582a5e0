import MikoV2.Backtest.Strategy
import MikoV2.Lib.Dict
import MikoV2.Lib.Runs

/-!
# `PositionSimulator`

The positions of a backtest, over exact rationals: candles per symbol, exits at the stop or the target,
funding, and the equity that sizes the next entry. The formulas stand here as the source has them, without
`paper_math`.

* `entryDecision` : the position `on_entry` opens, or why it refuses; `tradeOf` : the trade of a close;
* `onOhlcv`, `onTicker`, `onEntry`, `finalize` : the public methods; `Action`, `step` : one call;
* `buildEquityCurve` : the curve of `reporting.py` over the trades.
-/

namespace MikoV2.Backtest.PositionSim
open PaperMath (Direction ExitReason)
open Py (Dict)

def candleSec : ℤ := 5

structure PositionSimConfig where
  initialEquity : ℚ := 10000
  riskPct : ℚ := 8 / 1000
  atrPeriod : ℕ := 14
  slAtrMultiplier : ℚ := 1 / 2
  tpRMultiple : ℚ := 2
  maxSlDistancePct : ℚ := 25 / 1000
  minSlDistancePct : ℚ := 2 / 1000
  entrySlippageBps : ℚ := 2
  feeTaker : ℚ := 2 / 10000
  feeMaker : ℚ := 0
  includeFunding : Bool := false
  maxPositionsPerSymbol : ℤ := 1
  maxPositionsGlobal : ℤ := 3

structure Trade where
  symbol : String
  direction : Direction
  entryTsMs : ℤ
  entryPrice : ℚ
  qty : ℚ
  slPrice : ℚ
  tpPrice : ℚ
  exitTsMs : ℤ
  exitPrice : ℚ
  exitReason : ExitReason
  feePaid : ℚ
  fundingPaid : ℚ
  pnlGross : ℚ
  pnlNet : ℚ
  rMultiple : ℚ
  windowId : ℤ := 0
  foldId : ℤ := 0
deriving DecidableEq

/-- `_Position`. -/
structure Position where
  symbol : String
  direction : Direction
  entryTsMs : ℤ
  entryBucketSec : ℤ
  entryPrice : ℚ
  qty : ℚ
  slPrice : ℚ
  tpPrice : ℚ
  entryFee : ℚ
  fundingPaid : ℚ := 0
deriving DecidableEq

structure Candle5s where
  sec : ℤ
  tsMs : ℤ
  «open» : ℚ
  high : ℚ
  low : ℚ
  close : ℚ
deriving DecidableEq

def Candle5s.bar (c : Candle5s) : PaperMath.Bar := ⟨c.high, c.low, c.close⟩

inductive Rejection
  | per_symbol_max_position
  | global_limit_full
deriving DecidableEq, Repr

/-- The fields of the simulator; `candles` has the empty deque for an absent symbol. -/
structure PositionSimulator where
  candles : String → List Candle5s := fun _ => []
  active : Dict String Candle5s := .empty
  positions : Dict String Position := .empty
  lastPrice : String → Option ℚ := fun _ => none
  lastFundingRate : String → Option ℚ := fun _ => none
  nextFundingMs : String → Option ℤ := fun _ => none
  realizedEquity : ℚ
  trades : List Trade := []
  lastRejectionReason : Option Rejection := none
  windowId : ℤ := 0
  foldId : ℤ := 0

/-- `PositionSimulator(config, window_id=…, fold_id=…)`. -/
def init (cfg : PositionSimConfig) (windowId foldId : ℤ) : PositionSimulator :=
  { realizedEquity := cfg.initialEquity, windowId, foldId }

/-! ## Accessors -/

/-- What one open position adds to `equity`. -/
def unrealized (lastPrice : String → Option ℚ) (sym : String) (pos : Position) : ℚ :=
  match lastPrice sym with
  | none => 0
  | some px =>
    let upnl := if pos.direction = .LONG then (px - pos.entryPrice) * pos.qty else (pos.entryPrice - px) * pos.qty
    upnl - pos.fundingPaid

def equity (s : PositionSimulator) : ℚ :=
  s.positions.items.foldl (fun eq e => eq + unrealized s.lastPrice e.1 e.2) s.realizedEquity

/-- `_next_funding_ts`, the same text as `next_funding_ts_ms`. -/
def nextFundingTs : ℤ → ℤ := PaperMath.nextFundingTsMs

section Methods
variable (cfg : PositionSimConfig)

/-! ## Exits -/

/-- The trade that `_close_position` records. -/
def tradeOf (s : PositionSimulator) (pos : Position) (symbol : String) (tsMs : ℤ) (exitPrice : ℚ)
    (reason : ExitReason) : Trade :=
  let pnlGross :=
    if pos.direction = .LONG then (exitPrice - pos.entryPrice) * pos.qty else (pos.entryPrice - exitPrice) * pos.qty
  let exitFeeRate := if reason = .TP then cfg.feeMaker else cfg.feeTaker
  let exitFee := exitPrice * pos.qty * exitFeeRate
  let totalFee := pos.entryFee + exitFee
  let rDist := |pos.entryPrice - pos.slPrice|
  { symbol
    direction := pos.direction
    entryTsMs := pos.entryTsMs
    entryPrice := pos.entryPrice
    qty := pos.qty
    slPrice := pos.slPrice
    tpPrice := pos.tpPrice
    exitTsMs := tsMs
    exitPrice
    exitReason := reason
    feePaid := totalFee
    fundingPaid := pos.fundingPaid
    pnlGross
    pnlNet := pnlGross - totalFee - pos.fundingPaid
    rMultiple :=
      if rDist > 0 then
        if pos.direction = .LONG then (exitPrice - pos.entryPrice) / rDist else (pos.entryPrice - exitPrice) / rDist
      else 0
    windowId := s.windowId
    foldId := s.foldId }

def closePosition (symbol : String) (tsMs : ℤ) (exitPrice : ℚ) (reason : ExitReason) (s : PositionSimulator) :
    PositionSimulator :=
  match s.positions.get? symbol with
  | none => s
  | some pos =>
    let trade := tradeOf cfg s pos symbol tsMs exitPrice reason
    { s with
      positions := s.positions.erase symbol
      trades := s.trades ++ [trade]
      realizedEquity := s.realizedEquity + trade.pnlNet }

def hitSl (pos : Position) (c : Candle5s) : Bool :=
  match pos.direction with
  | .LONG => c.low ≤ pos.slPrice
  | .SHORT => c.high ≥ pos.slPrice

def hitTp (pos : Position) (c : Candle5s) : Bool :=
  match pos.direction with
  | .LONG => c.high ≥ pos.tpPrice
  | .SHORT => c.low ≤ pos.tpPrice

/-- The candle of the entry is skipped; a candle that touches both prices exits at the stop. -/
def checkExitsOnCandle (c : Candle5s) (symbol : String) (s : PositionSimulator) : PositionSimulator :=
  match s.positions.get? symbol with
  | none => s
  | some pos =>
    if c.sec ≤ pos.entryBucketSec then s
    else if hitSl pos c then closePosition cfg symbol c.tsMs pos.slPrice .SL s
    else if hitTp pos c then closePosition cfg symbol c.tsMs pos.tpPrice .TP s
    else s

/-! ## Feeds -/

def candleCap : ℕ := max (cfg.atrPeriod * 4) 100

def finalizeActive (symbol : String) (s : PositionSimulator) : PositionSimulator :=
  match s.active.get? symbol with
  | none => s
  | some b =>
    checkExitsOnCandle cfg b symbol
      { s with
        active := s.active.erase symbol
        candles := Function.update s.candles symbol (dequeAppend (candleCap cfg) (s.candles symbol) b) }

def applyFunding (symbol : String) (s : PositionSimulator) : PositionSimulator :=
  match s.positions.get? symbol with
  | none => s
  | some pos =>
    let rate := (s.lastFundingRate symbol).getD 0
    let notional := pos.entryPrice * pos.qty
    let fundingPaid :=
      if pos.direction = .LONG then pos.fundingPaid + rate * notional else pos.fundingPaid - rate * notional
    { s with positions := s.positions.set symbol { pos with fundingPaid } }

/-- The bucket of a second. -/
def bucketSec (sec : ℤ) : ℤ := sec / candleSec * candleSec

def newCandle (ev : OHLCVEvent) : Candle5s :=
  ⟨bucketSec ev.sec, bucketSec ev.sec * 1000, ev.open, ev.high, ev.low, ev.close⟩

/-- A bar of the active candle's bucket. -/
def mergeBar (active : Candle5s) (ev : OHLCVEvent) : Candle5s :=
  { active with
    high := if ev.high > active.high then ev.high else active.high
    low := if ev.low < active.low then ev.low else active.low
    close := ev.close }

/-- The bar joins the active candle, closes it, or is dropped when it is late. -/
def mergeCandle (ev : OHLCVEvent) (s : PositionSimulator) : PositionSimulator :=
  match s.active.get? ev.symbol with
  | none => { s with active := s.active.set ev.symbol (newCandle ev) }
  | some active =>
    if bucketSec ev.sec > active.sec then
      let s := finalizeActive cfg ev.symbol s
      { s with active := s.active.set ev.symbol (newCandle ev) }
    else if bucketSec ev.sec = active.sec then
      { s with active := s.active.set ev.symbol (mergeBar active ev) }
    else s

/-- `while ev.ts_ms >= self._next_funding_ms[symbol]`, for at most `fuel` rounds. -/
def fundingLoop (symbol : String) (tsMs : ℤ) : ℕ → ℤ → PositionSimulator → PositionSimulator
  | 0, next, s => { s with nextFundingMs := Function.update s.nextFundingMs symbol (some next) }
  | fuel + 1, next, s =>
    if tsMs ≥ next then
      let s := if cfg.includeFunding then applyFunding symbol s else s
      fundingLoop symbol tsMs fuel (nextFundingTs (next + 1)) s
    else { s with nextFundingMs := Function.update s.nextFundingMs symbol (some next) }

/-- Every round moves the boundary by a millisecond at least, so `tsMs - next + 1` rounds are enough. -/
def fundingCheck (symbol : String) (tsMs : ℤ) (s : PositionSimulator) : PositionSimulator :=
  let next := (s.nextFundingMs symbol).getD (nextFundingTs tsMs)
  fundingLoop cfg symbol tsMs (tsMs - next + 1).toNat next s

def onOhlcv (ev : OHLCVEvent) (s : PositionSimulator) : PositionSimulator :=
  let s := fundingCheck cfg ev.symbol ev.tsMs (mergeCandle cfg ev s)
  { s with lastPrice := Function.update s.lastPrice ev.symbol (some ev.close) }

def onTicker (ev : TickerEvent) (s : PositionSimulator) : PositionSimulator :=
  { s with lastFundingRate := Function.update s.lastFundingRate ev.symbol (some ev.fundingRate) }

/-! ## Entry -/

def slippagePct : ℚ := cfg.entrySlippageBps / 10000

/-- `_atr`: the same text as `compute_atr`, on the candles of the symbol. -/
def atr (s : PositionSimulator) (symbol : String) : Option ℚ :=
  PaperMath.computeAtr ((s.candles symbol).map Candle5s.bar) cfg.atrPeriod

/-- The position that `on_entry` opens, or the rejection reason it leaves (`none` for the silent ones). -/
def entryDecision (s : PositionSimulator) (signal : EntrySignal) (symbol : String) :
    Except (Option Rejection) Position :=
  if symbol ∈ s.positions.keys then .error (some .per_symbol_max_position)
  else if (s.positions.keys.length : ℤ) ≥ cfg.maxPositionsGlobal then .error (some .global_limit_full)
  else if cfg.maxPositionsPerSymbol < 1 then .error (some .per_symbol_max_position)
  else match atr cfg s symbol with
    | none => .error none
    | some atr =>
      if atr ≤ 0 then .error none
      else
        let signalClose := signal.price
        if signalClose ≤ 0 then .error none
        else
          let slDistanceRaw := cfg.slAtrMultiplier * atr
          let slDistanceCap := cfg.maxSlDistancePct * signalClose
          let slDistanceFloor := cfg.minSlDistancePct * signalClose
          let slDistance := max (min slDistanceRaw slDistanceCap) slDistanceFloor
          if slDistance ≤ 0 then .error none
          else
            let slipPct := slippagePct cfg
            let entryFill :=
              if signal.direction = .LONG then signalClose * (1 + slipPct) else signalClose * (1 - slipPct)
            let slPrice := if signal.direction = .LONG then entryFill - slDistance else entryFill + slDistance
            let tpPrice :=
              if signal.direction = .LONG then entryFill + cfg.tpRMultiple * slDistance
              else entryFill - cfg.tpRMultiple * slDistance
            let riskAmount := equity s * cfg.riskPct
            let qty := riskAmount / slDistance
            if qty ≤ 0 then .error none
            else
              .ok {
                symbol
                direction := signal.direction
                entryTsMs := signal.tsMs
                entryBucketSec := bucketSec (signal.tsMs / 1000)
                entryPrice := entryFill
                qty
                slPrice
                tpPrice
                entryFee := entryFill * qty * cfg.feeTaker }

def onEntry (signal : EntrySignal) (symbol : String) (s : PositionSimulator) : Bool × PositionSimulator :=
  match entryDecision cfg s signal symbol with
  | .error reason => (false, { s with lastRejectionReason := reason })
  | .ok pos => (true, { s with lastRejectionReason := none, positions := s.positions.set symbol pos })

/-! ## Finalize -/

def finalizePosition (lastTsMs : ℤ) (lastPrices : String → Option ℚ) (s : PositionSimulator) (symbol : String) :
    PositionSimulator :=
  match s.positions.get? symbol with
  | none => s
  | some pos =>
    let px := match lastPrices symbol with
      | some px => if px ≤ 0 then s.lastPrice symbol else some px
      | none => s.lastPrice symbol
    closePosition cfg symbol lastTsMs (px.getD pos.entryPrice) .END_OF_BACKTEST s

def finalize (lastTsMs : ℤ) (lastPrices : String → Option ℚ) (s : PositionSimulator) : PositionSimulator :=
  let s := s.active.keys.foldl (fun s symbol => finalizeActive cfg symbol s) s
  s.positions.keys.foldl (finalizePosition cfg lastTsMs lastPrices) s

/-! ## Calls -/

inductive Action
  | onOhlcv (ev : OHLCVEvent)
  | onTicker (ev : TickerEvent)
  | onEntry (signal : EntrySignal) (symbol : String)
  | finalize (lastTsMs : ℤ) (lastPrices : String → Option ℚ)

def step (s : PositionSimulator) : Action → PositionSimulator
  | .onOhlcv ev => onOhlcv cfg ev s
  | .onTicker ev => onTicker ev s
  | .onEntry signal symbol => (onEntry cfg signal symbol s).2
  | .finalize lastTsMs lastPrices => finalize cfg lastTsMs lastPrices s

end Methods

/-! ## Reporting -/

structure EquityPoint where
  tsMs : ℤ
  equity : ℚ

/-- The points after the trades. -/
def curvePoints : ℚ → List Trade → List EquityPoint
  | _, [] => []
  | eq, t :: trades => ⟨t.exitTsMs, eq + t.pnlNet⟩ :: curvePoints (eq + t.pnlNet) trades

/-- `build_equity_curve`. -/
def buildEquityCurve (trades : List Trade) (initialEquity : ℚ) : List EquityPoint :=
  match trades with
  | [] => []
  | t :: _ => ⟨t.entryTsMs, initialEquity⟩ :: curvePoints initialEquity trades

end MikoV2.Backtest.PositionSim
