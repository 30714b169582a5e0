import Mathlib.Algebra.BigOperators.Ring.List
import Mathlib.Tactic.FieldSimp
import MikoV2.Backtest.Units
import MikoV2.Backtest.WalkForward

/-!
# A backtest does not depend on its units

`Units` quotes every symbol in a unit of its own and counts money in another one: the prices of `s` are multiplied by
`unit s`, the initial equity by `capital`. Then every run does the same at the same times: its positions are
`capital / unit s` times as large, its fees, funding and profits `capital` times.

* `Units.sim`, `Units.runner`, `Units.db` : states and tables in the new units;
* `equity_units` : the equity is in money; `entryDecision_units` : the same entries, of the scaled size;
* `onOhlcv_units`, `finalize_units` : the simulator; `onEvent_units`, `close_units` : the runner;
* `streamMulti_units` : the stream of the scaled tables;
* `run_units`, `walkForward_units` : a run and a walk-forward run of the scaled tables.
-/

namespace MikoV2.Backtest
open PositionSim (PositionSimulator PositionSimConfig Position Trade)
open PaperMath (Direction ExitReason)
open Py (Dict)

/-- Units of price, one for each symbol, and of money. -/
structure Units where
  unit : String → ℚ
  capital : ℚ
  unit_pos : ∀ symbol, 0 < unit symbol
  capital_pos : 0 < capital

namespace Units
variable (u : Units)

/-! ## States in other units -/

def config (cfg : PositionSimConfig) : PositionSimConfig := { cfg with initialEquity := u.capital * cfg.initialEquity }

def candle (symbol : String) (c : PositionSim.Candle5s) : PositionSim.Candle5s :=
  { c with
    «open» := u.unit symbol * c.open
    high := u.unit symbol * c.high
    low := u.unit symbol * c.low
    close := u.unit symbol * c.close }

def position (symbol : String) (pos : Position) : Position :=
  { pos with
    entryPrice := u.unit symbol * pos.entryPrice
    qty := u.capital / u.unit symbol * pos.qty
    slPrice := u.unit symbol * pos.slPrice
    tpPrice := u.unit symbol * pos.tpPrice
    entryFee := u.capital * pos.entryFee
    fundingPaid := u.capital * pos.fundingPaid }

/-- Prices in the unit of the symbol, amounts in money; times, the reason and the multiple of the risk stay. -/
def trade (t : Trade) : Trade :=
  { t with
    entryPrice := u.unit t.symbol * t.entryPrice
    qty := u.capital / u.unit t.symbol * t.qty
    slPrice := u.unit t.symbol * t.slPrice
    tpPrice := u.unit t.symbol * t.tpPrice
    exitPrice := u.unit t.symbol * t.exitPrice
    feePaid := u.capital * t.feePaid
    fundingPaid := u.capital * t.fundingPaid
    pnlGross := u.capital * t.pnlGross
    pnlNet := u.capital * t.pnlNet }

def sim (s : PositionSimulator) : PositionSimulator :=
  { s with
    candles := fun symbol => (s.candles symbol).map (u.candle symbol)
    active := s.active.mapWithKey u.candle
    positions := s.positions.mapWithKey u.position
    lastPrice := fun symbol => (s.lastPrice symbol).map (u.unit symbol * ·)
    realizedEquity := u.capital * s.realizedEquity
    trades := s.trades.map u.trade }

def runner (r : MultiSymbolRunner) : MultiSymbolRunner :=
  { r with sim := u.sim r.sim, strategies := r.strategies.mapWithKey fun symbol st => st.scale (u.unit symbol) }

def result (result : MultiSymbolResult) : MultiSymbolResult := { result with trades := result.trades.map u.trade }

/-! ## Tables in other units -/

def ohlcvRow (r : OhlcvRow) : OhlcvRow :=
  { r with
    «open» := r.open.map (u.unit r.symbol * ·)
    high := r.high.map (u.unit r.symbol * ·)
    low := r.low.map (u.unit r.symbol * ·)
    close := r.close.map (u.unit r.symbol * ·) }

def depthRow (r : DepthRow) : DepthRow :=
  { r with
    sides := r.sides.map fun s =>
      (s.1.map fun l => (u.unit r.symbol * l.1, l.2), s.2.map fun l => (u.unit r.symbol * l.1, l.2)) }

def tickerRow (r : TickerRow) : TickerRow :=
  { r with
    lastPrice := r.lastPrice.map (u.unit r.symbol * ·)
    fairPrice := r.fairPrice.map (u.unit r.symbol * ·)
    indexPrice := r.indexPrice.map (u.unit r.symbol * ·) }

def db (db : EventDb) : EventDb := ⟨db.ohlcv.map u.ohlcvRow, db.depth.map u.depthRow, db.ticker.map u.tickerRow⟩

def depthEvent (ev : DepthEvent) : DepthEvent :=
  { ev with
    bids := ev.bids.map fun l => (u.unit ev.symbol * l.1, l.2)
    asks := ev.asks.map fun l => (u.unit ev.symbol * l.1, l.2) }

def tickerEvent (ev : TickerEvent) : TickerEvent :=
  { ev with
    lastPrice := u.unit ev.symbol * ev.lastPrice
    fairPrice := u.unit ev.symbol * ev.fairPrice
    indexPrice := u.unit ev.symbol * ev.indexPrice }

def event : AnyEvent → AnyEvent
  | .ohlcv ev => .ohlcv (ev.scale (u.unit ev.symbol))
  | .depth ev => .depth (u.depthEvent ev)
  | .ticker ev => .ticker (u.tickerEvent ev)

end Units

variable {u : Units} {cfg : PositionSimConfig} {s : PositionSimulator}

/-! ## The simulator -/

namespace PositionSim

/-- A difference of prices times a quantity is money. -/
theorem gross_units (symbol : String) (a b qty : ℚ) :
    (u.unit symbol * a - u.unit symbol * b) * (u.capital / u.unit symbol * qty) = u.capital * ((a - b) * qty) := by
  have hk := (u.unit_pos symbol).ne'
  field_simp

theorem unrealized_units (symbol : String) (pos : Position) :
    unrealized (u.sim s).lastPrice symbol (u.position symbol pos) = u.capital * unrealized s.lastPrice symbol pos := by
  have hlast : (u.sim s).lastPrice symbol = (s.lastPrice symbol).map (u.unit symbol * ·) := rfl
  unfold unrealized
  rw [hlast]
  cases s.lastPrice symbol with
  | none => exact (mul_zero u.capital).symm
  | some px =>
    simp only [Option.map_some, Units.position, gross_units]
    rw [← mul_ite, ← mul_sub]

/-- The equity is an amount of money. -/
theorem equity_units : equity (u.sim s) = u.capital * equity s := by
  have hitems : (u.sim s).positions.items = s.positions.items.map fun e => (e.1, u.position e.1 e.2) := rfl
  unfold equity
  rw [hitems, List.foldl_map]
  refine List.foldl_hom (u.capital * ·) fun eq e => ?_
  rw [unrealized_units, mul_add]

theorem tradeOf_units (pos : Position) (symbol : String) (tsMs : ℤ) (exitPrice : ℚ) (reason : ExitReason) :
    tradeOf cfg (u.sim s) (u.position symbol pos) symbol tsMs (u.unit symbol * exitPrice) reason =
      u.trade (tradeOf cfg s pos symbol tsMs exitPrice reason) := by
  have hk := u.unit_pos symbol
  have hne := hk.ne'
  have hdist : |u.unit symbol * pos.entryPrice - u.unit symbol * pos.slPrice| =
      u.unit symbol * |pos.entryPrice - pos.slPrice| := by
    rw [← mul_sub, abs_mul, abs_of_pos hk]
  have hfee : ∀ rate : ℚ,
      u.capital * pos.entryFee + u.unit symbol * exitPrice * (u.capital / u.unit symbol * pos.qty) * rate =
      u.capital * (pos.entryFee + exitPrice * pos.qty * rate) := fun rate => by field_simp
  have hmultiple : ∀ a b d : ℚ, (u.unit symbol * a - u.unit symbol * b) / (u.unit symbol * d) = (a - b) / d := fun a b d => by
    rw [← mul_sub, mul_div_mul_left _ _ hne]
  simp only [tradeOf, Units.trade, Units.position, Units.sim, hdist, gross_units, hfee, hmultiple, gt_iff_lt,
    mul_pos_iff_of_pos_left hk]
  simp only [← mul_ite, ← mul_sub]

theorem closePosition_units (symbol : String) (tsMs : ℤ) (exitPrice : ℚ) (reason : ExitReason) :
    closePosition cfg symbol tsMs (u.unit symbol * exitPrice) reason (u.sim s) =
      u.sim (closePosition cfg symbol tsMs exitPrice reason s) := by
  have hget : (u.sim s).positions.get? symbol = (s.positions.get? symbol).map (u.position symbol) :=
    Dict.get?_mapWithKey ..
  unfold closePosition
  rw [hget]
  cases s.positions.get? symbol with
  | none => rfl
  | some pos =>
    simp only [Option.map_some, tradeOf_units]
    simp only [Units.sim, Dict.mapWithKey_erase, List.map_append, List.map_cons, List.map_nil, mul_add, Units.trade]

theorem hitSl_units (symbol : String) (pos : Position) (c : Candle5s) :
    hitSl (u.position symbol pos) (u.candle symbol c) = hitSl pos c := by
  have hk := u.unit_pos symbol
  simp only [hitSl, Units.position, Units.candle, ge_iff_le, mul_le_mul_iff_right₀ hk]

theorem hitTp_units (symbol : String) (pos : Position) (c : Candle5s) :
    hitTp (u.position symbol pos) (u.candle symbol c) = hitTp pos c := by
  have hk := u.unit_pos symbol
  simp only [hitTp, Units.position, Units.candle, ge_iff_le, mul_le_mul_iff_right₀ hk]

theorem checkExitsOnCandle_units (c : Candle5s) (symbol : String) :
    checkExitsOnCandle cfg (u.candle symbol c) symbol (u.sim s) =
      u.sim (checkExitsOnCandle cfg c symbol s) := by
  have hget : (u.sim s).positions.get? symbol = (s.positions.get? symbol).map (u.position symbol) :=
    Dict.get?_mapWithKey ..
  unfold checkExitsOnCandle
  rw [hget]
  cases s.positions.get? symbol with
  | none => rfl
  | some pos =>
    dsimp only [Option.map_some]
    rw [hitSl_units, hitTp_units]
    have hbucket : ((u.candle symbol c).sec ≤ (u.position symbol pos).entryBucketSec) = (c.sec ≤ pos.entryBucketSec) := rfl
    simp only [hbucket]
    split
    · rfl
    · split
      · exact closePosition_units symbol c.tsMs pos.slPrice .SL
      · split
        · exact closePosition_units symbol c.tsMs pos.tpPrice .TP
        · rfl

theorem finalizeActive_units (symbol : String) :
    finalizeActive cfg symbol (u.sim s) = u.sim (finalizeActive cfg symbol s) := by
  have hget : (u.sim s).active.get? symbol = (s.active.get? symbol).map (u.candle symbol) := Dict.get?_mapWithKey ..
  unfold finalizeActive
  rw [hget]
  cases s.active.get? symbol with
  | none => rfl
  | some b =>
    rw [← checkExitsOnCandle_units]
    refine congrArg (checkExitsOnCandle cfg (u.candle symbol b) symbol) ?_
    simp only [Units.sim, Dict.mapWithKey_erase, PositionSimulator.mk.injEq, and_true]
    funext k
    by_cases hk : k = symbol
    · rw [hk, Function.update_self, Function.update_self]
      exact dequeAppend_map (u.candle symbol) _ _ b
    · rw [Function.update_of_ne hk, Function.update_of_ne hk]

theorem applyFunding_units (symbol : String) : applyFunding symbol (u.sim s) = u.sim (applyFunding symbol s) := by
  have hk := (u.unit_pos symbol).ne'
  have hget : (u.sim s).positions.get? symbol = (s.positions.get? symbol).map (u.position symbol) :=
    Dict.get?_mapWithKey ..
  have hrate : (u.sim s).lastFundingRate = s.lastFundingRate := rfl
  unfold applyFunding
  rw [hget, hrate]
  cases s.positions.get? symbol with
  | none => rfl
  | some pos =>
    have hnotional : u.unit symbol * pos.entryPrice * (u.capital / u.unit symbol * pos.qty) =
        u.capital * (pos.entryPrice * pos.qty) := by field_simp
    have hpaid : ∀ rate : ℚ, u.capital * pos.fundingPaid + rate * (u.capital * (pos.entryPrice * pos.qty)) =
        u.capital * (pos.fundingPaid + rate * (pos.entryPrice * pos.qty)) := fun rate => by ring
    have hgot : ∀ rate : ℚ, u.capital * pos.fundingPaid - rate * (u.capital * (pos.entryPrice * pos.qty)) =
        u.capital * (pos.fundingPaid - rate * (pos.entryPrice * pos.qty)) := fun rate => by ring
    simp only [Option.map_some, Units.position, Units.sim, Dict.mapWithKey_set, hnotional, hpaid, hgot, ← mul_ite]

theorem mergeBar_units {symbol : String} {active : Candle5s} {ev : OHLCVEvent} (hev : ev.symbol = symbol) :
    mergeBar (u.candle symbol active) (ev.scale (u.unit ev.symbol)) = u.candle symbol (mergeBar active ev) := by
  have hk := u.unit_pos symbol
  simp only [mergeBar, Units.candle, OHLCVEvent.scale, hev, gt_iff_lt, mul_lt_mul_iff_right₀ hk, ← mul_ite]

theorem mergeCandle_units (ev : OHLCVEvent) :
    mergeCandle cfg (ev.scale (u.unit ev.symbol)) (u.sim s) = u.sim (mergeCandle cfg ev s) := by
  have hsymbol : (ev.scale (u.unit ev.symbol)).symbol = ev.symbol := rfl
  have hsec : (ev.scale (u.unit ev.symbol)).sec = ev.sec := rfl
  have hnew : newCandle (ev.scale (u.unit ev.symbol)) = u.candle ev.symbol (newCandle ev) := rfl
  have hget : (u.sim s).active.get? ev.symbol = (s.active.get? ev.symbol).map (u.candle ev.symbol) :=
    Dict.get?_mapWithKey ..
  have hset : ∀ (t : PositionSimulator) (c : Candle5s),
      { u.sim t with active := (u.sim t).active.set ev.symbol (u.candle ev.symbol c) } =
        u.sim { t with active := t.active.set ev.symbol c } := fun t c => by
    simp only [Units.sim, Dict.mapWithKey_set]
  unfold mergeCandle
  rw [hsymbol, hget]
  cases s.active.get? ev.symbol with
  | none =>
    dsimp only [Option.map_none]
    rw [hnew]
    exact hset s _
  | some active =>
    have hactive : (u.candle ev.symbol active).sec = active.sec := rfl
    dsimp only [Option.map_some]
    rw [hsec, hactive, hnew, finalizeActive_units, mergeBar_units rfl]
    split
    · exact hset _ _
    · split
      · exact hset s _
      · rfl

theorem fundingLoop_units (symbol : String) (tsMs : ℤ) : ∀ (fuel : ℕ) (next : ℤ) (s : PositionSimulator),
    fundingLoop cfg symbol tsMs fuel next (u.sim s) = u.sim (fundingLoop cfg symbol tsMs fuel next s) := by
  intro fuel
  induction fuel with
  | zero => exact fun next s => rfl
  | succ fuel ih =>
    intro next s
    unfold fundingLoop
    rw [applyFunding_units, ← apply_ite u.sim, ih]
    split <;> rfl

/-- **A bar** in other units. -/
theorem onOhlcv_units (ev : OHLCVEvent) :
    onOhlcv cfg (ev.scale (u.unit ev.symbol)) (u.sim s) = u.sim (onOhlcv cfg ev s) := by
  have hfunding : ∀ t : PositionSimulator,
      fundingCheck cfg ev.symbol ev.tsMs (u.sim t) = u.sim (fundingCheck cfg ev.symbol ev.tsMs t) :=
    fun t => fundingLoop_units ev.symbol ev.tsMs _ _ t
  have hsymbol : (ev.scale (u.unit ev.symbol)).symbol = ev.symbol := rfl
  have htsMs : (ev.scale (u.unit ev.symbol)).tsMs = ev.tsMs := rfl
  have hclose : (ev.scale (u.unit ev.symbol)).close = u.unit ev.symbol * ev.close := rfl
  unfold onOhlcv
  dsimp only
  rw [mergeCandle_units, hsymbol, htsMs, hclose, hfunding]
  simp only [Units.sim, PositionSimulator.mk.injEq, true_and, and_true]
  funext k
  by_cases hk : k = ev.symbol
  · rw [hk, Function.update_self, Function.update_self, Option.map_some]
  · rw [Function.update_of_ne hk, Function.update_of_ne hk]

/-! ### Entries -/

theorem trueRange_scale {k : ℚ} (hk : 0 < k) (prev cur : PaperMath.Bar) :
    PaperMath.trueRange ⟨k * prev.high, k * prev.low, k * prev.close⟩ ⟨k * cur.high, k * cur.low, k * cur.close⟩ =
      k * PaperMath.trueRange prev cur := by
  have habs : ∀ a b : ℚ, |k * a - k * b| = k * |a - b| := fun a b => by rw [← mul_sub, abs_mul, abs_of_pos hk]
  simp only [PaperMath.trueRange, habs, mul_max_of_nonneg _ _ hk.le, mul_sub]

theorem computeAtr_scale {k : ℚ} (hk : 0 < k) (period : ℕ) (candles : List PaperMath.Bar) :
    PaperMath.computeAtr (candles.map fun b => ⟨k * b.high, k * b.low, k * b.close⟩) period =
      (PaperMath.computeAtr candles period).map (k * ·) := by
  unfold PaperMath.computeAtr
  rw [List.length_map]
  split
  · rfl
  · dsimp only
    rw [← List.map_drop, ← List.map_tail, List.zipWith_map]
    have hranges : List.zipWith (fun a b : PaperMath.Bar => PaperMath.trueRange ⟨k * a.high, k * a.low, k * a.close⟩
        ⟨k * b.high, k * b.low, k * b.close⟩) (candles.drop (candles.length - period - 1))
          (candles.drop (candles.length - period - 1)).tail =
        (List.zipWith PaperMath.trueRange (candles.drop (candles.length - period - 1))
          (candles.drop (candles.length - period - 1)).tail).map (k * ·) := by
      rw [List.map_zipWith]
      simp only [trueRange_scale hk]
    rw [hranges]
    cases List.zipWith PaperMath.trueRange (candles.drop (candles.length - period - 1))
      (candles.drop (candles.length - period - 1)).tail with
    | nil => rfl
    | cons tr trs =>
      rw [List.map_cons]
      dsimp only [Option.map_some]
      rw [← List.map_cons, List.length_map, List.sum_map_mul_left, List.map_id', mul_div_assoc]

theorem atr_units (symbol : String) : atr cfg (u.sim s) symbol = (atr cfg s symbol).map (u.unit symbol * ·) := by
  have hbars : ((u.sim s).candles symbol).map Candle5s.bar = ((s.candles symbol).map Candle5s.bar).map fun b =>
      ⟨u.unit symbol * b.high, u.unit symbol * b.low, u.unit symbol * b.close⟩ := by
    show ((s.candles symbol).map (u.candle symbol)).map Candle5s.bar = _
    rw [List.map_map, List.map_map]
    rfl
  unfold atr
  rw [hbars]
  exact computeAtr_scale (u.unit_pos symbol) cfg.atrPeriod _

/-- The same entries, of the scaled size, and the same refusals. -/
theorem entryDecision_units (signal : EntrySignal) (symbol : String) :
    entryDecision cfg (u.sim s) (signal.scale (u.unit symbol)) symbol =
      (entryDecision cfg s signal symbol).map (u.position symbol) := by
  have hk := u.unit_pos symbol
  have hne := hk.ne'
  have hkeys : (u.sim s).positions.keys = s.positions.keys := Dict.keys_mapWithKey ..
  obtain ⟨direction, tsMs, price, reason, signals⟩ := signal
  show entryDecision cfg (u.sim s) ⟨direction, tsMs, u.unit symbol * price, reason, signals⟩ symbol = _
  unfold entryDecision
  rw [hkeys, atr_units, equity_units]
  dsimp only
  by_cases hheld : symbol ∈ s.positions.keys
  · rw [if_pos hheld, if_pos hheld]
    rfl
  rw [if_neg hheld, if_neg hheld]
  by_cases hfull : (s.positions.keys.length : ℤ) ≥ cfg.maxPositionsGlobal
  · rw [if_pos hfull, if_pos hfull]
    rfl
  rw [if_neg hfull, if_neg hfull]
  by_cases hsymbol : cfg.maxPositionsPerSymbol < 1
  · rw [if_pos hsymbol, if_pos hsymbol]
    rfl
  rw [if_neg hsymbol, if_neg hsymbol]
  cases atr cfg s symbol with
  | none => rfl
  | some atr =>
    dsimp only [Option.map_some]
    by_cases hatr : atr ≤ 0
    · rw [if_pos hatr, if_pos (mul_nonpos_of_nonneg_of_nonpos hk.le hatr)]
      rfl
    rw [if_neg hatr, if_neg (not_le.mpr (mul_pos hk (not_le.mp hatr)))]
    by_cases hprice : price ≤ 0
    · rw [if_pos hprice, if_pos (mul_nonpos_of_nonneg_of_nonpos hk.le hprice)]
      rfl
    rw [if_neg hprice, if_neg (not_le.mpr (mul_pos hk (not_le.mp hprice)))]
    have hdist : max (min (cfg.slAtrMultiplier * (u.unit symbol * atr)) (cfg.maxSlDistancePct * (u.unit symbol * price)))
        (cfg.minSlDistancePct * (u.unit symbol * price)) =
          u.unit symbol * max (min (cfg.slAtrMultiplier * atr) (cfg.maxSlDistancePct * price))
            (cfg.minSlDistancePct * price) := by
      rw [mul_max_of_nonneg _ _ hk.le, mul_min_of_nonneg _ _ hk.le]
      simp only [mul_left_comm]
    rw [hdist]
    generalize max (min (cfg.slAtrMultiplier * atr) (cfg.maxSlDistancePct * price))
      (cfg.minSlDistancePct * price) = dist
    by_cases hstop : dist ≤ 0
    · rw [if_pos hstop, if_pos (mul_nonpos_of_nonneg_of_nonpos hk.le hstop)]
      rfl
    rw [if_neg hstop, if_neg (not_le.mpr (mul_pos hk (not_le.mp hstop)))]
    have hqty : u.capital * equity s * cfg.riskPct / (u.unit symbol * dist) =
        u.capital / u.unit symbol * (equity s * cfg.riskPct / dist) := by
      rw [mul_assoc, mul_div_mul_comm]
    have hratio : 0 < u.capital / u.unit symbol := div_pos u.capital_pos hk
    rw [hqty]
    by_cases hsize : equity s * cfg.riskPct / dist ≤ 0
    · rw [if_pos hsize, if_pos (mul_nonpos_of_nonneg_of_nonpos hratio.le hsize)]
      rfl
    rw [if_neg hsize, if_neg (not_le.mpr (mul_pos hratio (not_le.mp hsize)))]
    have hfee : ∀ fill qty : ℚ, u.unit symbol * fill * (u.capital / u.unit symbol * qty) * cfg.feeTaker =
        u.capital * (fill * qty * cfg.feeTaker) := fun fill qty => by field_simp
    have htarget : cfg.tpRMultiple * (u.unit symbol * dist) = u.unit symbol * (cfg.tpRMultiple * dist) := mul_left_comm ..
    simp only [Except.map, Units.position, htarget, mul_assoc (u.unit symbol) price, ← mul_ite, ← mul_sub, ← mul_add,
      hfee, mul_zero]

theorem onEntry_units (signal : EntrySignal) (symbol : String) :
    onEntry cfg (signal.scale (u.unit symbol)) symbol (u.sim s) =
      ((onEntry cfg signal symbol s).1, u.sim (onEntry cfg signal symbol s).2) := by
  unfold onEntry
  rw [entryDecision_units]
  cases entryDecision cfg s signal symbol with
  | error reason => rfl
  | ok pos => simp only [Except.map, Units.sim, Dict.mapWithKey_set]

/-! ### The end of a run -/

theorem finalizePosition_units (lastTsMs : ℤ) (symbol : String) :
    finalizePosition cfg lastTsMs (fun _ => none) (u.sim s) symbol =
      u.sim (finalizePosition cfg lastTsMs (fun _ => none) s symbol) := by
  have hget : (u.sim s).positions.get? symbol = (s.positions.get? symbol).map (u.position symbol) :=
    Dict.get?_mapWithKey ..
  unfold finalizePosition
  rw [hget]
  cases s.positions.get? symbol with
  | none => rfl
  | some pos =>
    have hprice : ((u.sim s).lastPrice symbol).getD (u.position symbol pos).entryPrice =
        u.unit symbol * (s.lastPrice symbol).getD pos.entryPrice := by
      show ((s.lastPrice symbol).map _).getD (u.unit symbol * pos.entryPrice) = _
      cases s.lastPrice symbol <;> rfl
    dsimp only [Option.map_some]
    rw [hprice]
    exact closePosition_units symbol lastTsMs _ .END_OF_BACKTEST

theorem finalize_units (lastTsMs : ℤ) :
    finalize cfg lastTsMs (fun _ => none) (u.sim s) = u.sim (finalize cfg lastTsMs (fun _ => none) s) := by
  have hactive : ∀ (l : List String) (s : PositionSimulator),
      l.foldl (fun s symbol => finalizeActive cfg symbol s) (u.sim s) =
        u.sim (l.foldl (fun s symbol => finalizeActive cfg symbol s) s) := fun l s =>
    List.foldl_hom u.sim fun s symbol => finalizeActive_units symbol
  have hpositions : ∀ (l : List String) (s : PositionSimulator),
      l.foldl (finalizePosition cfg lastTsMs fun _ => none) (u.sim s) =
        u.sim (l.foldl (finalizePosition cfg lastTsMs fun _ => none) s) := fun l s =>
    List.foldl_hom u.sim fun s symbol => finalizePosition_units lastTsMs symbol
  have hkeys : (u.sim s).active.keys = s.active.keys := Dict.keys_mapWithKey ..
  have hheld : ∀ s : PositionSimulator, (u.sim s).positions.keys = s.positions.keys := fun s => Dict.keys_mapWithKey ..
  unfold finalize
  dsimp only
  rw [hkeys, hactive, hheld, hpositions]

end PositionSim

/-! ## The runner -/

namespace MultiSymbolRunner
variable {scfg : StrategyConfig} {dcfg : DetectorConfig} {r : MultiSymbolRunner}

theorem ensureSymbol_units (symbol : String) : ensureSymbol symbol (u.runner r) = u.runner (ensureSymbol symbol r) := by
  have hkeys : (u.runner r).strategies.keys = r.strategies.keys := Dict.keys_mapWithKey ..
  unfold ensureSymbol
  rw [hkeys]
  split
  · rfl
  · simp only [Units.runner, Dict.mapWithKey_set]
    rfl

theorem recordDrop_units (reason : DropReason) (symbol : String) (tsMs : ℤ) :
    recordDrop reason symbol tsMs (u.runner r) = u.runner (recordDrop reason symbol tsMs r) := by
  have hdropped : (u.runner r).dropped = r.dropped := rfl
  unfold recordDrop
  rw [hdropped]
  split <;> rfl

theorem execute_units (symbol : String) (tsMs : ℤ) (r : MultiSymbolRunner) (entry : EntrySignal) :
    execute cfg symbol tsMs (u.runner r) (entry.scale (u.unit symbol)) = u.runner (execute cfg symbol tsMs r entry) := by
  have hsim : (u.runner r).sim = u.sim r.sim := rfl
  unfold execute
  rw [hsim, PositionSim.onEntry_units]
  rcases PositionSim.onEntry cfg entry symbol r.sim with ⟨- | -, sim⟩
  · exact recordDrop_units (r := { r with sim }) ..
  · rfl

theorem foldl_execute_units (symbol : String) (tsMs : ℤ) (entries : List EntrySignal) (r : MultiSymbolRunner) :
    (entries.map (EntrySignal.scale (u.unit symbol))).foldl (execute cfg symbol tsMs) (u.runner r) =
      u.runner (entries.foldl (execute cfg symbol tsMs) r) := by
  rw [List.foldl_map]
  exact List.foldl_hom u.runner fun r entry => execute_units symbol tsMs r entry

theorem noteCooldown_units (ev : OHLCVEvent) (entries : List EntrySignal) (reason : Option StrategyRejection) (k : ℚ) :
    noteCooldown (ev.scale k) (entries.map (EntrySignal.scale k)) reason (u.runner r) =
      u.runner (noteCooldown ev entries reason r) := by
  have hstate : (u.runner r).cooldownState = r.cooldownState := rfl
  have hsymbol : (ev.scale k).symbol = ev.symbol := rfl
  have htsMs : (ev.scale k).tsMs = ev.tsMs := rfl
  unfold noteCooldown
  simp only [List.map_eq_nil_iff, hstate, hsymbol, htsMs, recordDrop_units]
  split <;> rfl

theorem onOhlcv_units (ev : OHLCVEvent) :
    onOhlcv cfg scfg dcfg (ev.scale (u.unit ev.symbol)) (u.runner r) = (onOhlcv cfg scfg dcfg ev r).map u.runner := by
  have hsymbol : (ev.scale (u.unit ev.symbol)).symbol = ev.symbol := rfl
  have hsec : (ev.scale (u.unit ev.symbol)).sec = ev.sec := rfl
  have htsMs : (ev.scale (u.unit ev.symbol)).tsMs = ev.tsMs := rfl
  have hget : ∀ t : MultiSymbolRunner, ((u.runner t).strategies.get? ev.symbol).getD {} =
      Strategy.scale (u.unit ev.symbol) ((t.strategies.get? ev.symbol).getD {}) := fun t => by
    show ((t.strategies.mapWithKey fun symbol st => Strategy.scale (u.unit symbol) st).get? ev.symbol).getD {} = _
    rw [Dict.get?_mapWithKey]
    cases t.strategies.get? ev.symbol <;> rfl
  unfold onOhlcv
  dsimp only
  rw [hsymbol, hsec, htsMs, ensureSymbol_units]
  generalize ensureSymbol ev.symbol r = fed
  have hsim : (u.runner fed).sim = u.sim fed.sim := rfl
  have hseen : (u.runner fed).seenOhlcvSecs = fed.seenOhlcvSecs := rfl
  rw [hget, Strategy.onOhlcv_scale scfg dcfg _ (u.unit_pos ev.symbol), hsim, hseen, PositionSim.onOhlcv_units]
  cases ((fed.strategies.get? ev.symbol).getD {}).onOhlcv scfg dcfg ev with
  | none => rfl
  | some out =>
    obtain ⟨entries, strat⟩ := out
    dsimp only [Option.map_some]
    refine congrArg some ?_
    rw [← foldl_execute_units, ← noteCooldown_units (k := u.unit ev.symbol)]
    simp only [Units.runner, Dict.mapWithKey_set]
    rfl

theorem onEvent_units (r : MultiSymbolRunner) (ev : AnyEvent) :
    onEvent cfg scfg dcfg (u.runner r) (u.event ev) = (onEvent cfg scfg dcfg r ev).map u.runner := by
  cases ev with
  | ohlcv ev => exact onOhlcv_units ev
  | depth ev => rfl
  | ticker ev =>
    refine congrArg some ?_
    show onTicker (u.tickerEvent ev) (u.runner r) = u.runner (onTicker ev r)
    unfold onTicker
    have hsymbol : (u.tickerEvent ev).symbol = ev.symbol := rfl
    rw [hsymbol, ensureSymbol_units]
    rfl

theorem close_units (tsTo : ℤ) (stats : BacktestStats) :
    close cfg dcfg tsTo stats (u.runner r) = u.result (close cfg dcfg tsTo stats r) := by
  have hflushed : ∀ e : String × Strategy, (e.2.scale (u.unit e.1)).finalize dcfg =
      ((e.2.finalize dcfg).1, (e.2.finalize dcfg).2.scale (u.unit e.1)) := fun e =>
    Strategy.finalize_scale dcfg e.2 (u.unit_pos e.1)
  have hitems : (u.runner r).strategies.items = r.strategies.items.map fun e => (e.1, e.2.scale (u.unit e.1)) := rfl
  have hcounts : ((u.runner r).strategies.mapValues fun st => (st.finalize dcfg).2.signalCounts) =
      r.strategies.mapValues fun st => (st.finalize dcfg).2.signalCounts := by
    refine Dict.ext ?_
    show ((u.runner r).strategies.items.map _) = r.strategies.items.map _
    rw [hitems, List.map_map]
    refine List.map_congr_left fun e _ => ?_
    simp only [Function.comp_apply, hflushed]
    rfl
  have hsim : (u.runner r).sim = u.sim r.sim := rfl
  unfold close
  dsimp only
  rw [hcounts, hsim, PositionSim.finalize_units, hitems, List.map_map, List.map_map, List.map_map]
  simp only [Units.result, MultiSymbolResult.mk.injEq, and_true]
  refine ⟨congrArg _ (List.map_congr_left fun e _ => ?_), rfl, rfl⟩
  simp only [Function.comp_apply, hflushed]

theorem init_units (windowId foldId : ℤ) :
    init (u.config cfg) windowId foldId = u.runner (init cfg windowId foldId) := rfl

end MultiSymbolRunner

/-! ## Streams -/

theorem heapqMerge_map {α : Type} {le : α → α → Bool} {f : α → α} (hf : ∀ a b, le a b = le (f a) (f b))
    (gens : List (List α)) : heapqMerge le (gens.map (List.map f)) = (heapqMerge le gens).map f := by
  induction gens with
  | nil => rfl
  | cons g gens ih =>
    have hmerge : heapqMerge le (g :: gens) = g.merge (heapqMerge le gens) le := rfl
    rw [hmerge, List.map_merge fun a _ b _ => hf a b, ← ih]
    rfl

section Streams
variable (u : Units) (db : EventDb) (tsFrom tsTo : ℤ)

theorem mergeLe_units (a b : AnyEvent) : a.mergeLe b = (u.event a).mergeLe (u.event b) := by
  have hkey : ∀ ev : AnyEvent, (u.event ev).mergeKey = ev.mergeKey := fun ev => by cases ev <;> rfl
  rw [AnyEvent.mergeLe, AnyEvent.mergeLe, hkey, hkey]

theorem getD_unit (k : ℚ) (o : Option ℚ) : (o.map (k * ·)).getD 0 = k * o.getD 0 := by
  cases o with
  | none => exact (mul_zero k).symm
  | some x => rfl

/-- The query of a table whose rows are changed in place. -/
theorem query_map {ρ : Type} {f : ρ → ρ} {p : ρ → Prop} [DecidablePred p] {le : ρ → ρ → Bool} {event event' : ρ → AnyEvent}
    (hp : ∀ r, p (f r) ↔ p r) (hle : ∀ a b, le a b = le (f a) (f b)) (hevent : ∀ r, event' (f r) = event r)
    (rows : List ρ) :
    (((rows.map f).filter fun r => p r).mergeSort le).map event' = ((rows.filter fun r => p r).mergeSort le).map event := by
  have hfilter : ((rows.map f).filter fun r => p r) = (rows.filter fun r => p r).map f := by
    rw [List.filter_map]
    refine congrArg (List.map f) (List.filter_congr fun r _ => ?_)
    exact decide_eq_decide.mpr (hp r)
  rw [hfilter, ← List.map_mergeSort fun a _ b _ => hle a b, List.map_map]
  exact List.map_congr_left fun r _ => hevent r

theorem ohlcvGen_units (symbol : String) :
    ohlcvGen (u.db db) symbol tsFrom tsTo = (ohlcvGen db symbol tsFrom tsTo).map u.event := by
  unfold ohlcvGen
  rw [List.map_map]
  refine query_map (f := u.ohlcvRow) (fun _ => Iff.rfl) (fun _ _ => rfl) (fun r => ?_) db.ohlcv
  simp only [Function.comp_apply, Units.event, OHLCVEvent.scale, OhlcvRow.event, Units.ohlcvRow, getD_unit]

theorem depthGen_units (symbol : String) :
    depthGen (u.db db) symbol tsFrom tsTo = (depthGen db symbol tsFrom tsTo).map u.event := by
  unfold depthGen
  rw [List.map_map]
  refine query_map (f := u.depthRow) (fun _ => Iff.rfl) (fun _ _ => rfl) (fun r => ?_) db.depth
  rw [Function.comp_apply, Units.event]
  refine congrArg AnyEvent.depth ?_
  obtain ⟨id, symbol, timestampMs, version, - | ⟨bids, asks⟩, depth⟩ := r <;> rfl

theorem tickerGen_units (symbol : String) :
    tickerGen (u.db db) symbol tsFrom tsTo = (tickerGen db symbol tsFrom tsTo).map u.event := by
  unfold tickerGen
  rw [List.map_map]
  refine query_map (f := u.tickerRow) (fun _ => Iff.rfl) (fun _ _ => rfl) (fun r => ?_) db.ticker
  simp only [Function.comp_apply, Units.event, Units.tickerEvent, TickerRow.event, Units.tickerRow, getD_unit]

theorem streamMulti_units (symbols : List String) :
    streamMulti (u.db db) symbols tsFrom tsTo = (streamMulti db symbols tsFrom tsTo).map u.event := by
  unfold streamMulti
  dsimp only
  rw [← heapqMerge_map (mergeLe_units u)]
  simp only [List.map_append, List.map_map, ohlcvGen_units, depthGen_units, tickerGen_units]
  rfl

end Streams

/-! ## Whole runs -/

section Runs
variable (u : Units) (cfg : PositionSimConfig) (scfg : StrategyConfig) (dcfg : DetectorConfig) (db : EventDb)
  (symbols : List String)

theorem countEvent_units (evs : List AnyEvent) (stats : BacktestStats) :
    (evs.map u.event).foldl MultiSymbolRunner.countEvent stats = evs.foldl MultiSymbolRunner.countEvent stats := by
  rw [List.foldl_map]
  refine congrArg (fun f => evs.foldl f stats) (funext fun stats => funext fun ev => ?_)
  cases ev <;> rfl

/-- The configurations differ in the initial equity only, which no step reads. -/
theorem onEvent_config : MultiSymbolRunner.onEvent (u.config cfg) scfg dcfg = MultiSymbolRunner.onEvent cfg scfg dcfg := by
  have hloop : ∀ symbol tsMs fuel next s, PositionSim.fundingLoop (u.config cfg) symbol tsMs fuel next s =
      PositionSim.fundingLoop cfg symbol tsMs fuel next s := by
    intro symbol tsMs fuel
    induction fuel with
    | zero => exact fun next s => rfl
    | succ fuel ih =>
      intro next s
      unfold PositionSim.fundingLoop
      rw [ih]
      rfl
  have hbar : ∀ ev s, PositionSim.onOhlcv (u.config cfg) ev s = PositionSim.onOhlcv cfg ev s := fun ev s => by
    unfold PositionSim.onOhlcv PositionSim.fundingCheck
    rw [hloop]
    rfl
  funext r ev
  cases ev with
  | ohlcv ev =>
    show MultiSymbolRunner.onOhlcv (u.config cfg) scfg dcfg ev r = MultiSymbolRunner.onOhlcv cfg scfg dcfg ev r
    unfold MultiSymbolRunner.onOhlcv
    dsimp only
    rw [hbar]
    rfl
  | depth ev => rfl
  | ticker ev => rfl

theorem runM_units (windowId foldId : ℤ) (evs : List AnyEvent) :
    Runs.runM (MultiSymbolRunner.onEvent (u.config cfg) scfg dcfg) (MultiSymbolRunner.init (u.config cfg) windowId foldId)
        (evs.map u.event) =
      (Runs.runM (MultiSymbolRunner.onEvent cfg scfg dcfg) (MultiSymbolRunner.init cfg windowId foldId) evs).map
        u.runner := by
  rw [onEvent_config, MultiSymbolRunner.init_units]
  exact Runs.runM_map u.runner u.event MultiSymbolRunner.onEvent_units evs

theorem runOn_units (windowId foldId tsTo : ℤ) (evs : List AnyEvent) :
    MultiSymbolRunner.runOn (u.config cfg) scfg dcfg windowId foldId tsTo (evs.map u.event) =
      (MultiSymbolRunner.runOn cfg scfg dcfg windowId foldId tsTo evs).map u.result := by
  unfold MultiSymbolRunner.runOn
  rw [runM_units, Option.map_map, Option.map_map, countEvent_units]
  refine congrArg (fun f => Option.map f _) (funext fun r => ?_)
  exact MultiSymbolRunner.close_units tsTo _

/-- **A run in other units** makes the same trades at the same times, for the same reasons and with the same multiples of
the risk, and raises when the other does. -/
theorem run_units (windowId foldId tsFrom tsTo : ℤ) :
    MultiSymbolRunner.run (u.config cfg) scfg dcfg windowId foldId (u.db db) symbols tsFrom tsTo =
      (MultiSymbolRunner.run cfg scfg dcfg windowId foldId db symbols tsFrom tsTo).map u.result := by
  unfold MultiSymbolRunner.run
  rw [streamMulti_units]
  exact runOn_units ..

def Units.foldResult (fr : FoldResult) : FoldResult := { fr with trades := fr.trades.map u.trade }

def Units.walkForward (result : WalkForwardResult) : WalkForwardResult :=
  { result with
    folds := result.folds.map u.foldResult
    combinedTrades := result.combinedTrades.map u.trade }

namespace WalkForward
variable (wcfg : WalkForwardConfig)

theorem runFold_units (window : FoldWindow) :
    runFold (u.config cfg) scfg dcfg (u.db db) symbols window =
      (runFold cfg scfg dcfg db symbols window).map u.foldResult := by
  have hstream : foldStream (u.db db) symbols window = (foldStream db symbols window).map u.event :=
    streamMulti_units ..
  unfold runFold
  rw [hstream, runM_units, Option.map_map, Option.map_map]
  refine congrArg (fun f => Option.map f _) (funext fun r => ?_)
  simp only [Function.comp_apply, countEvent_units, Units.foldResult, FoldResult.mk.injEq, true_and]
  have hclose : ∀ stats, MultiSymbolRunner.close (u.config cfg) dcfg window.testEndMs stats (u.runner r) =
      u.result (MultiSymbolRunner.close cfg dcfg window.testEndMs stats r) := fun stats =>
    MultiSymbolRunner.close_units window.testEndMs stats
  simp only [hclose, Units.result, true_and]
  refine ⟨?_, rfl⟩
  rw [List.filter_map]
  rfl

theorem runFolds_units (windows : List FoldWindow) :
    runFolds wcfg (u.config cfg) scfg dcfg (u.db db) symbols windows =
      (runFolds wcfg cfg scfg dcfg db symbols windows).map (List.map u.foldResult) := by
  induction windows with
  | nil => rfl
  | cons window windows ih =>
    unfold runFolds
    rw [runFold_units, ih]
    cases runFold cfg scfg dcfg db symbols window with
    | none => rfl
    | some fr =>
      have hstats : (u.foldResult fr).stats = fr.stats := rfl
      dsimp only [Option.map_some]
      rw [hstats]
      split
      · rfl
      · cases runFolds wcfg cfg scfg dcfg db symbols windows <;> rfl

/-- **A walk-forward run in other units** has the same folds with the same trades, and ends with the same error. -/
theorem walkForward_units (tsFrom tsTo : ℤ) :
    run wcfg (u.config cfg) scfg dcfg (u.db db) symbols tsFrom tsTo =
      (run wcfg cfg scfg dcfg db symbols tsFrom tsTo).map u.walkForward := by
  unfold run
  cases generateFolds wcfg tsFrom tsTo with
  | none => rfl
  | some windows =>
    dsimp only
    split
    · rfl
    · rw [runFolds_units]
      cases runFolds wcfg cfg scfg dcfg db symbols windows with
      | error e => rfl
      | ok folds =>
        refine congrArg Except.ok ?_
        simp only [Units.walkForward, WalkForwardResult.mk.injEq, true_and, and_true]
        refine ⟨?_, ?_⟩
        · rw [List.flatMap_map, List.map_flatMap]
          rfl
        · rw [List.flatMap_map]
          rfl

end WalkForward

end Runs

end MikoV2.Backtest
