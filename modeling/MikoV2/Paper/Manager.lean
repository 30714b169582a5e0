import Mathlib.Algebra.Order.Ring.Rat
import Mathlib.Logic.Function.Basic
import MikoV2.Lib.Dict
import MikoV2.Store.Tables

/-!
# `PaperPositionManager`

The manager's memory (`Manager`) over one connection to the database, call by call. Each public method is
one step: the lock of `on_entry` is free whenever a call starts, so nothing suspends inside it.

* `entryGate`, `entrySizing`, `entryDecision` : the position `on_entry` would open, or why it refuses;
* `onEntry`, `onOhlcv`, `finalize`, `onStartup`, `onWsTick`, `onTicker` : the public methods;
* `writePositionOpen`, `writePositionClose`, `writeEvent` : the writers, each a statement and a commit;
* `World` : memory, connection and the writers' outcomes so far; `step` : one call.
-/

namespace MikoV2.Paper
open PaperMath Store
open Py (Dict)

def candleSec : ℤ := 5

structure PaperPositionConfig where
  initialEquity : ℚ := 10000
  riskPct : ℚ := 6 / 1000
  atrPeriod : ℕ := 14
  slAtrMultiplier : ℚ := 1 / 2
  tpRMultiple : ℚ := 2
  maxSlDistancePct : ℚ := 25 / 1000
  minSlDistancePct : ℚ := 2 / 1000
  entrySlippageBps : ℚ := 2
  feeTaker : ℚ := 2 / 10000
  feeMaker : ℚ := 0
  includeFunding : Bool := false
  maxPositionsPerSymbol : ℤ := 1
  maxPositionsGlobal : ℤ := 2
  stalePriceMs : ℤ := 5000
  configProfileTag : String := "PAPER_PROD"
  candleCapMin : ℕ := 100

structure OhlcvSample where
  symbol : String
  sec : ℤ
  tsMs : ℤ
  «open» : ℚ
  high : ℚ
  low : ℚ
  close : ℚ

structure Candle5s where
  sec : ℤ
  tsMs : ℤ
  «open» : ℚ
  high : ℚ
  low : ℚ
  close : ℚ

def Candle5s.bar (c : Candle5s) : Bar := ⟨c.high, c.low, c.close⟩

structure PaperTradeResult where
  positionId : String
  symbol : String
  direction : Direction
  entryTsMs : ℤ
  entryPrice : ℚ
  qty : ℚ
  slPrice : ℚ
  tpPrice : ℚ
  exitTsMs : ℤ
  exitPrice : ℚ
  exitReason : ExitReason
  feePaid : ℚ
  fundingPaid : ℚ
  pnlGross : ℚ
  pnlNet : ℚ
  rMultiple : ℚ
  entryBucketSec : ℤ
deriving DecidableEq

inductive Rejection
  | stale_price
  | invalid_price
  | per_symbol_max_position
  | global_limit_full
  | atr_not_ready
  | invalid_sl_distance
  | invalid_qty
  | db_write_failed
deriving DecidableEq, Repr

def Rejection.text : Rejection → String
  | stale_price => "stale_price"
  | invalid_price => "invalid_price"
  | per_symbol_max_position => "per_symbol_max_position"
  | global_limit_full => "global_limit_full"
  | atr_not_ready => "atr_not_ready"
  | invalid_sl_distance => "invalid_sl_distance"
  | invalid_qty => "invalid_qty"
  | db_write_failed => "db_write_failed"

def exitText : ExitReason → String
  | .TP => "TP"
  | .SL => "SL"
  | .END_OF_BACKTEST => "END_OF_BACKTEST"

/-- The fields of the manager; `candles` has the empty deque for an absent symbol. -/
structure Manager where
  positions : Dict String PaperPosition := .empty
  candles : String → List Candle5s := fun _ => []
  active : Dict String Candle5s := .empty
  lastPrice : String → Option ℚ := fun _ => none
  lastPriceMonoMs : String → Option ℤ := fun _ => none
  lastFundingRate : String → Option ℚ := fun _ => none
  nextFundingMs : String → Option ℤ := fun _ => none
  realizedEquity : ℚ
  closedTrades : List PaperTradeResult := []
  lastRejectionReason : Option Rejection := none

/-- `PaperPositionManager(config, conn)`. -/
def Manager.init (cfg : PaperPositionConfig) : Manager := { realizedEquity := cfg.initialEquity }

/-- What a position writer returned: `none` for `False`, otherwise the rows its statement changed. -/
inductive PositionWrite
  | opened (pos : PaperPosition) (rows : Option ℕ)
  | closed (trade : PaperTradeResult) (exitFee : ℚ) (rows : Option ℕ)
deriving DecidableEq

/-- The manager, its connection, and the outcomes of the position writers so far. -/
structure World where
  mem : Manager
  conn : Sqlite.Conn Db
  log : List PositionWrite := []

/-- What the manager does not control: its configuration, which calls raise, the wall clock at each call. -/
structure Env where
  cfg : PaperPositionConfig
  faults : Sqlite.Faults Call
  wallMs : ℕ → ℤ

/-! ## Accessors -/

def unrealized (lastPrice : String → Option ℚ) (sym : String) (pos : PaperPosition) : ℚ :=
  match lastPrice sym with
  | none => 0
  | some px =>
    let upnl := if pos.direction = .LONG then (px - pos.entryPrice) * pos.qty else (pos.entryPrice - px) * pos.qty
    upnl - pos.fundingPaid

def equity (m : Manager) : ℚ :=
  m.positions.items.foldl (fun eq e => eq + unrealized m.lastPrice e.1 e.2) m.realizedEquity

def getOpenPositionQty (m : Manager) (symbol : String) : ℚ :=
  match m.positions.get? symbol with
  | some pos => pos.qty
  | none => 0

section Methods
variable (env : Env)

/-! ## Writers -/

def openRow (pos : PaperPosition) (now : ℤ) : PaperPositionRow where
  positionId := pos.positionId
  symbol := pos.symbol
  direction := pos.direction
  entryTsMs := pos.entryTsMs
  entryPrice := pos.entryPrice
  qty := pos.qty
  slPrice := pos.slPrice
  tpPrice := pos.tpPrice
  entryFee := pos.entryFee
  fundingPaid := pos.fundingPaid
  entryBucketSec := pos.entryBucketSec
  status := .OPEN
  configProfileTag := env.cfg.configProfileTag
  riskPct := env.cfg.riskPct
  maxPositionsGlobal := env.cfg.maxPositionsGlobal
  maxPositionsPerSymbol := env.cfg.maxPositionsPerSymbol
  initialEquity := env.cfg.initialEquity
  entrySlippageBps := env.cfg.entrySlippageBps
  createdAtMs := now

/-- `INSERT OR IGNORE INTO paper_positions`. -/
def insertPosition (pos : PaperPosition) (now : ℤ) (db : Db) : ℕ × Db :=
  let (n, t) := Sqlite.insertOrIgnore PaperPositionRow.clash (openRow env pos now) db.positions
  (n, { db with positions := t })

def closeRow (trade : PaperTradeResult) (exitFee : ℚ) (now : ℤ) (r : PaperPositionRow) : PaperPositionRow :=
  { r with
    status := .CLOSED
    exitTsMs := some trade.exitTsMs
    exitPrice := some trade.exitPrice
    exitReason := some trade.exitReason
    exitFee := some exitFee
    pnlGross := some trade.pnlGross
    pnlNet := some trade.pnlNet
    rMultiple := some trade.rMultiple
    closedAtMs := some now }

/-- `UPDATE paper_positions SET … WHERE position_id=? AND status='OPEN'`. -/
def updatePosition (trade : PaperTradeResult) (exitFee : ℚ) (now : ℤ) (db : Db) : ℕ × Db :=
  let (n, t) := Sqlite.update (fun r => decide (r.positionId = trade.positionId) && r.isOpen)
    (closeRow trade exitFee now) db.positions
  (n, { db with positions := t })

/-- `INSERT OR IGNORE INTO paper_events`. -/
def insertEvent (ev : PaperEventRow) (db : Db) : ℕ × Db :=
  let (n, t) := Sqlite.insertOrIgnore PaperEventRow.clash ev db.events
  (n, { db with events := t })

def writePositionOpen (pos : PaperPosition) (s : World) : Bool × World :=
  let (rows, conn) := s.conn.write env.faults .insertPosition .commitOpen
    (insertPosition env pos (env.wallMs s.conn.issued))
  (rows.isSome, { s with conn, log := s.log ++ [.opened pos rows] })

def writePositionClose (trade : PaperTradeResult) (exitFee : ℚ) (s : World) : Bool × World :=
  let (rows, conn) := s.conn.write env.faults .updatePosition .commitClose
    (updatePosition trade exitFee (env.wallMs s.conn.issued))
  (rows.isSome, { s with conn, log := s.log ++ [.closed trade exitFee rows] })

def writeEvent (positionId : Option String) (symbol : String) (eventType : EventType) (reason : Option String)
    (sourceSeq : Option ℤ) (tsMs : ℤ) (s : World) : World :=
  { s with
    conn := (s.conn.write env.faults .insertEvent .commitEvent
      (insertEvent ⟨positionId, symbol, eventType, reason, sourceSeq, tsMs, env.wallMs s.conn.issued⟩)).2 }

/-! ## Startup -/

/-- Loads the `OPEN` rows into `positions`; returns how many. -/
def onStartup (s : World) : ℕ × World :=
  match s.conn.execute env.faults .selectOpen (fun db => (openRows db, db)) with
  | (none, conn) => (0, { s with conn })
  | (some rows, conn) =>
    (rows.length, { s with
      mem.positions := s.mem.positions.update (rows.map fun r => (r.symbol, r.toPosition))
      conn })

/-! ## Feeds -/

/-- `price` is `none` for `None`, NaN and the infinities. -/
def onWsTick (symbol : String) (price : Option ℚ) (monoMs : ℤ) (s : World) : World :=
  match price with
  | none => s
  | some px =>
    if px ≤ 0 then s
    else
      { s with
        mem.lastPrice := Function.update s.mem.lastPrice symbol (some px)
        mem.lastPriceMonoMs := Function.update s.mem.lastPriceMonoMs symbol (some monoMs) }

/-- `fundingRate` is `none` for `None` and for what `float` refuses. -/
def onTicker (symbol : String) (fundingRate : Option ℚ) (s : World) : World :=
  { s with mem.lastFundingRate := Function.update s.mem.lastFundingRate symbol (some (fundingRate.getD 0)) }

/-! ## Exits -/

def tradeOf (pos : PaperPosition) (symbol : String) (tsMs : ℤ) (exitPrice : ℚ) (reason : ExitReason) :
    PaperTradeResult :=
  let pnlGross := computePnlGross pos.entryPrice exitPrice pos.qty pos.direction
  let exitFee := computeExitFee exitPrice pos.qty env.cfg.feeTaker env.cfg.feeMaker reason
  let totalFee := pos.entryFee + exitFee
  { positionId := pos.positionId
    symbol
    direction := pos.direction
    entryTsMs := pos.entryTsMs
    entryPrice := pos.entryPrice
    qty := pos.qty
    slPrice := pos.slPrice
    tpPrice := pos.tpPrice
    exitTsMs := tsMs
    exitPrice
    exitReason := reason
    feePaid := totalFee
    fundingPaid := pos.fundingPaid
    pnlGross
    pnlNet := pnlGross - totalFee - pos.fundingPaid
    rMultiple := computeRMultiple pos.entryPrice exitPrice pos.slPrice pos.direction
    entryBucketSec := pos.entryBucketSec }

/-- The write of a close and, when it returned `True`, the memory after it. -/
def settleClose (trade : PaperTradeResult) (exitFee : ℚ) (symbol : String) (s : World) : Bool × World :=
  match writePositionClose env trade exitFee s with
  | (false, s) => (false, s)
  | (true, s) =>
    (true, { s with
      mem.positions := s.mem.positions.erase symbol
      mem.closedTrades := s.mem.closedTrades ++ [trade]
      mem.realizedEquity := s.mem.realizedEquity + trade.pnlNet })

def closePosition (symbol : String) (tsMs : ℤ) (exitPrice : ℚ) (reason : ExitReason) (s : World) : World :=
  match s.mem.positions.get? symbol with
  | none => s
  | some pos =>
    let exitFee := computeExitFee exitPrice pos.qty env.cfg.feeTaker env.cfg.feeMaker reason
    let trade := tradeOf env pos symbol tsMs exitPrice reason
    match settleClose env trade exitFee symbol s with
    | (false, s) => s
    | (true, s) =>
      writeEvent env (some trade.positionId) symbol .EXIT (some (exitText reason)) (some (tsMs / 1000)) tsMs s

def hitSl (pos : PaperPosition) (c : Candle5s) : Bool :=
  match pos.direction with
  | .LONG => c.low ≤ pos.slPrice
  | .SHORT => c.high ≥ pos.slPrice

def hitTp (pos : PaperPosition) (c : Candle5s) : Bool :=
  match pos.direction with
  | .LONG => c.high ≥ pos.tpPrice
  | .SHORT => c.low ≤ pos.tpPrice

/-- The candle of the entry is skipped; a candle that touches both prices exits at the stop. -/
def checkExitsOnCandle (c : Candle5s) (symbol : String) (s : World) : World :=
  match s.mem.positions.get? symbol with
  | none => s
  | some pos =>
    if c.sec ≤ pos.entryBucketSec then s
    else if hitSl pos c then closePosition env symbol c.tsMs pos.slPrice .SL s
    else if hitTp pos c then closePosition env symbol c.tsMs pos.tpPrice .TP s
    else s

/-! ## Candles and funding -/

def candleCap : ℕ := max (env.cfg.atrPeriod * 4) env.cfg.candleCapMin

/-- `deque(maxlen=cap).append`. -/
def appendCapped (cap : ℕ) (dq : List Candle5s) (c : Candle5s) : List Candle5s :=
  (dq ++ [c]).drop (dq.length + 1 - cap)

def finalizeActive (symbol : String) (s : World) : World :=
  match s.mem.active.get? symbol with
  | none => s
  | some b =>
    let dq := appendCapped (candleCap env) (s.mem.candles symbol) b
    checkExitsOnCandle env b symbol
      { s with
        mem.active := s.mem.active.erase symbol
        mem.candles := Function.update s.mem.candles symbol dq }

def applyFunding (symbol : String) (s : World) : World :=
  match s.mem.positions.get? symbol with
  | none => s
  | some pos =>
    let rate := (s.mem.lastFundingRate symbol).getD 0
    let notional := pos.entryPrice * pos.qty
    let fundingPaid := pos.fundingPaid + computeFundingDelta rate notional pos.direction
    { s with mem.positions := s.mem.positions.set symbol { pos with fundingPaid } }

/-- The 1 s sample joins the active 5 s candle, closes it, or is dropped when it is late. -/
def mergeCandle (sample : OhlcvSample) (s : World) : World :=
  let symbol := sample.symbol
  let bucketSec := sample.sec / candleSec * candleSec
  let candle : Candle5s := ⟨bucketSec, bucketSec * 1000, sample.open, sample.high, sample.low, sample.close⟩
  match s.mem.active.get? symbol with
  | none => { s with mem.active := s.mem.active.set symbol candle }
  | some active =>
    if bucketSec > active.sec then
      let s := finalizeActive env symbol s
      { s with mem.active := s.mem.active.set symbol candle }
    else if bucketSec = active.sec then
      let active := { active with
        high := if sample.high > active.high then sample.high else active.high
        low := if sample.low < active.low then sample.low else active.low
        close := sample.close }
      { s with mem.active := s.mem.active.set symbol active }
    else s

/-- `while sample.ts_ms >= self._next_funding_ms[symbol]`, for at most `fuel` rounds. -/
def fundingLoop (symbol : String) (tsMs : ℤ) : ℕ → ℤ → World → World
  | 0, next, s => { s with mem.nextFundingMs := Function.update s.mem.nextFundingMs symbol (some next) }
  | fuel + 1, next, s =>
    if tsMs ≥ next then
      let s := if env.cfg.includeFunding then applyFunding symbol s else s
      fundingLoop symbol tsMs fuel (nextFundingTsMs (next + 1)) s
    else { s with mem.nextFundingMs := Function.update s.mem.nextFundingMs symbol (some next) }

/-- Every round moves the boundary by a millisecond at least, so `tsMs - next + 1` rounds are enough. -/
def fundingCheck (symbol : String) (tsMs : ℤ) (s : World) : World :=
  let next := (s.mem.nextFundingMs symbol).getD (nextFundingTsMs tsMs)
  fundingLoop env symbol tsMs (tsMs - next + 1).toNat next s

/-- `monoMs` is the reading of the monotonic clock at the end of the call. -/
def onOhlcv (sample : OhlcvSample) (monoMs : ℤ) (s : World) : World :=
  if sample.close ≤ 0 then s
  else
    let s := fundingCheck env sample.symbol sample.tsMs (mergeCandle env sample s)
    { s with
      mem.lastPrice := Function.update s.mem.lastPrice sample.symbol (some sample.close)
      mem.lastPriceMonoMs := Function.update s.mem.lastPriceMonoMs sample.symbol
        (some ((s.mem.lastPriceMonoMs sample.symbol).getD monoMs)) }

/-! ## Entry -/

/-- `paper-{symbol}-{signal_ts_ms}`. -/
def positionId (symbol : String) (signalTsMs : ℤ) : String := "paper-" ++ symbol ++ "-" ++ toString signalTsMs

/-- A refusal and whether `on_entry` writes a `REJECT` event for it. -/
structure Refusal where
  reason : Rejection
  event : Bool

/-- The checks of `on_entry` before sizing: a fresh valid price, and the limits. -/
def entryGate (m : Manager) (symbol : String) (lastPrice : Option ℚ) (nowMono : ℤ) : Except Refusal ℚ :=
  match m.lastPriceMonoMs symbol with
  | none => .error ⟨.stale_price, true⟩
  | some lastMono =>
    if nowMono - lastMono > env.cfg.stalePriceMs then .error ⟨.stale_price, true⟩
    else match lastPrice with
      | none => .error ⟨.invalid_price, true⟩
      | some px =>
        if px ≤ 0 then .error ⟨.invalid_price, true⟩
        else if symbol ∈ m.positions.keys then .error ⟨.per_symbol_max_position, true⟩
        else if (m.positions.keys.length : ℤ) ≥ env.cfg.maxPositionsGlobal then .error ⟨.global_limit_full, true⟩
        else if env.cfg.maxPositionsPerSymbol < 1 then .error ⟨.per_symbol_max_position, true⟩
        else .ok px

/-- The sizing of `on_entry`: from the candles and the price to the position. -/
def entrySizing (m : Manager) (symbol : String) (direction : Direction) (signalTsMs : ℤ) (lastPrice : ℚ) :
    Except Refusal PaperPosition :=
  let cfg := env.cfg
  match computeAtr ((m.candles symbol).map Candle5s.bar) cfg.atrPeriod with
  | none => .error ⟨.atr_not_ready, true⟩
  | some atr =>
    if atr ≤ 0 then .error ⟨.atr_not_ready, true⟩
    else
      let entryFill := applyEntrySlippage lastPrice direction cfg.entrySlippageBps
      -- the one refusal without an event
      if entryFill ≤ 0 then .error ⟨.invalid_price, false⟩
      else
        let slDistance :=
          computeSlDistance atr entryFill cfg.slAtrMultiplier cfg.maxSlDistancePct cfg.minSlDistancePct
        if slDistance ≤ 0 then .error ⟨.invalid_sl_distance, true⟩
        else
          let qty := computeQty (equity m) cfg.riskPct slDistance
          if qty ≤ 0 then .error ⟨.invalid_qty, true⟩
          else
            .ok {
              positionId := positionId symbol signalTsMs
              symbol
              direction
              entryTsMs := signalTsMs
              entryBucketSec := signalTsMs / 1000 / candleSec * candleSec
              entryPrice := entryFill
              qty
              slPrice := computeSlPrice entryFill slDistance direction
              tpPrice := computeTpPrice entryFill slDistance cfg.tpRMultiple direction
              entryFee := computeEntryFee entryFill qty cfg.feeTaker }

/-- The position that `on_entry` hands to the writer, or its refusal. -/
def entryDecision (m : Manager) (symbol : String) (direction : Direction) (signalTsMs : ℤ)
    (lastPrice : Option ℚ) (nowMono : ℤ) : Except Refusal PaperPosition :=
  match entryGate env m symbol lastPrice nowMono with
  | .error refusal => .error refusal
  | .ok px => entrySizing env m symbol direction signalTsMs px

/-- The write of an open and, when it returned `True`, the memory after it. -/
def settleOpen (pos : PaperPosition) (s : World) : Bool × World :=
  match writePositionOpen env pos s with
  | (false, s) => (false, { s with mem.lastRejectionReason := some .db_write_failed })
  | (true, s) => (true, { s with mem.positions := s.mem.positions.set pos.symbol pos })

/-- The refusal is recorded and, for all but one of them, a `REJECT` event written. -/
def reject (symbol : String) (signalTsMs : ℤ) (refusal : Refusal) (s : World) : World :=
  let s := { s with mem.lastRejectionReason := some refusal.reason }
  if refusal.event then
    writeEvent env none symbol .REJECT (some refusal.reason.text) (some signalTsMs) signalTsMs s
  else s

def onEntry (symbol : String) (direction : Direction) (signalTsMs : ℤ) (lastPrice : Option ℚ) (monoMs : ℤ)
    (s : World) : Bool × World :=
  let s := { s with mem.lastRejectionReason := none }
  match entryDecision env s.mem symbol direction signalTsMs lastPrice monoMs with
  | .error refusal => (false, reject env symbol signalTsMs refusal s)
  | .ok pos =>
    match settleOpen env pos s with
    | (false, s) => (false, s)
    | (true, s) => (true, writeEvent env (some pos.positionId) symbol .ENTRY none (some signalTsMs) signalTsMs s)

/-! ## Finalize -/

def finalizePosition (lastTsMs : ℤ) (lastPrices : String → Option ℚ) (s : World) (symbol : String) : World :=
  match s.mem.positions.get? symbol with
  | none => s
  | some pos =>
    let px := match lastPrices symbol with
      | some px => if px ≤ 0 then s.mem.lastPrice symbol else some px
      | none => s.mem.lastPrice symbol
    closePosition env symbol lastTsMs (px.getD pos.entryPrice) .END_OF_BACKTEST s

def finalize (lastTsMs : ℤ) (lastPrices : String → Option ℚ) (s : World) : World :=
  let s := s.mem.active.keys.foldl (fun s symbol => finalizeActive env symbol s) s
  s.mem.positions.keys.foldl (finalizePosition env lastTsMs lastPrices) s

/-! ## Runs -/

/-- The process dies and a new manager is built with the same configuration on the same file. -/
def crash (s : World) : World := { s with mem := Manager.init env.cfg, conn := s.conn.reopen }

def restart (s : World) : World := (onStartup env (crash env s)).2

/-- The calls a manager receives; `restart` is a crash followed by `on_startup` of the new manager,
`otherCommit` a commit that another user of the connection makes. -/
inductive Action
  | onStartup
  | onWsTick (symbol : String) (price : Option ℚ) (monoMs : ℤ)
  | onTicker (symbol : String) (fundingRate : Option ℚ)
  | onOhlcv (sample : OhlcvSample) (monoMs : ℤ)
  | onEntry (symbol : String) (direction : Direction) (signalTsMs : ℤ) (lastPrice : Option ℚ) (monoMs : ℤ)
  | finalize (lastTsMs : ℤ) (lastPrices : String → Option ℚ)
  | restart
  | otherCommit

/-- What reaches the manager from the rest of the runner, and commits made for other tables. -/
inductive Feed
  | wsTick (symbol : String) (price : Option ℚ) (monoMs : ℤ)
  | ticker (symbol : String) (fundingRate : Option ℚ)
  | ohlcv (sample : OhlcvSample) (monoMs : ℤ)
  | otherCommit

def Feed.action : Feed → Action
  | wsTick symbol price monoMs => .onWsTick symbol price monoMs
  | ticker symbol fundingRate => .onTicker symbol fundingRate
  | ohlcv sample monoMs => .onOhlcv sample monoMs
  | otherCommit => .otherCommit

def step (s : World) : Action → World
  | .onStartup => (onStartup env s).2
  | .onWsTick symbol price monoMs => onWsTick symbol price monoMs s
  | .onTicker symbol fundingRate => onTicker symbol fundingRate s
  | .onOhlcv sample monoMs => onOhlcv env sample monoMs s
  | .onEntry symbol direction signalTsMs lastPrice monoMs =>
    (onEntry env symbol direction signalTsMs lastPrice monoMs s).2
  | .finalize lastTsMs lastPrices => finalize env lastTsMs lastPrices s
  | .restart => restart env s
  | .otherCommit => { s with conn := (s.conn.commit env.faults .otherCommit).2 }

/-- A new manager on a freshly created schema. -/
def fresh : World := ⟨Manager.init env.cfg, .openDb {}, []⟩

end Methods

end MikoV2.Paper
