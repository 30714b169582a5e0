import MikoV2.Backtest.ReplayTransport
import MikoV2.Lib.PySet
import MikoV2.Lib.Runs
import MikoV2.Lib.Sqlite
import MikoV2.Paper.Manager

/-!
# The deals of `ShadowRunner`

A deal joins the bucket of its second. A deal of a later second closes the bucket: it is stored, and fed to the
detector, the strategy and the paper manager. Once a minute, and at the end, `_flush_snapshot` stores the open
buckets as they are.

* `updateOhlcv` : one trade; `onDeal` : a batch of `push.deal`;
* `onOhlcv1s` : a closed bucket goes to its consumers; `flushOhlcvSync` : a bucket goes to the table;
* `flushSnapshot` : the books and the open buckets;
* `step` : batches and flushes in any order, with the subscriptions of the rotation between them.
-/

namespace MikoV2.Ohlcv
open Backtest
open Paper (OhlcvSample)
open Py (Dict PySet)
open Sqlite (Conn Faults)

/-- An element of a batch: no dict at all, or a dict, `none` where a value is missing or `float` or `int` refuses it. -/
inductive Deal
  | other
  | dict (p v : Option ℚ) (T t : Option ℤ)

/-- An accepted trade. -/
structure Trade where
  symbol : String
  price : ℚ
  usdtVol : ℚ
  side : ℤ
  tsMs : ℤ
deriving DecidableEq

/-- `ts_ms // 1000`. -/
def Trade.sec (t : Trade) : ℤ := t.tsMs / 1000

structure Bucket where
  sec : ℤ
  «open» : ℚ
  high : ℚ
  low : ℚ
  close : ℚ
  buyVol : ℚ := 0
  sellVol : ℚ := 0
  count : ℕ := 0

structure Metrics where
  tradesIn : ℕ := 0
  tradesLate : ℕ := 0
  tradesDropped : ℕ := 0
  tradesUnknownSide : ℕ := 0
  ohlcvFlushed : ℕ := 0

/-- The calls on the connection. -/
inductive Call
  | ohlcvInsert
  | ohlcvCommit
  | depthInsert
  | depthCommit
deriving DecidableEq, Repr

/-- The runner with a database; `initialised` are the symbols with a detector and a strategy. `accepted` and `late`,
and what went `toDetector`, `toStrategy` and `toPaper`, are the reader's record. -/
structure Runner where
  symbols : PySet String
  initialised : PySet String
  contractSize : Dict String ℚ
  ohlcvBuffer : Dict String Bucket := .empty
  lastPrice : Dict String ℚ := .empty
  lastExchangeTs : Dict String ℤ := .empty
  conn : Conn EventDb
  metrics : Metrics := {}
  accepted : List Trade := []
  late : List Trade := []
  toDetector : List OHLCVEvent := []
  toStrategy : List OHLCVEvent := []
  toPaper : List OhlcvSample := []

/-! ## Buckets -/

namespace Bucket

def new (sec : ℤ) (price : ℚ) : Bucket := ⟨sec, price, price, price, price, 0, 0, 0⟩

def add (t : Trade) (b : Bucket) : Bucket :=
  { b with
    high := if t.price > b.high then t.price else b.high
    low := if t.price < b.low then t.price else b.low
    close := t.price
    buyVol := if t.side = 1 then b.buyVol + t.usdtVol else b.buyVol
    sellVol := if t.side = 1 then b.sellVol else b.sellVol + t.usdtVol
    count := b.count + 1 }

/-- The event of `_on_ohlcv_1s`. -/
def event (symbol : String) (b : Bucket) : OHLCVEvent where
  sec := b.sec
  tsMs := b.sec * 1000
  «open» := b.open
  high := b.high
  low := b.low
  close := b.close
  buyVol := b.buyVol
  sellVol := b.sellVol
  tradeCount := b.count
  symbol := symbol
  sourceSeq := b.sec

def sample (symbol : String) (b : Bucket) : OhlcvSample :=
  ⟨symbol, b.sec, b.sec * 1000, b.open, b.high, b.low, b.close⟩

def row (symbol : String) (b : Bucket) : OhlcvRow where
  symbol := symbol
  sec := b.sec
  «open» := some b.open
  high := some b.high
  low := some b.low
  close := some b.close
  buyVol := some b.buyVol
  sellVol := some b.sellVol
  tradeCount := some b.count

end Bucket

/-- `UNIQUE(symbol, sec)`. -/
def ohlcvClash (row row' : OhlcvRow) : Bool := row'.symbol = row.symbol ∧ row'.sec = row.sec

section Runner
variable (faults : Faults Call)

/-! ## Storing and feeding -/

def flushOhlcvSync (symbol : String) (b : Bucket) (r : Runner) : Runner :=
  match r.conn.write faults .ohlcvInsert .ohlcvCommit fun db =>
      ((), { db with ohlcv := Sqlite.insertOrReplace ohlcvClash (b.row symbol) db.ohlcv }) with
  | (some _, conn) => { r with conn, metrics.ohlcvFlushed := r.metrics.ohlcvFlushed + 1 }
  | (none, conn) => { r with conn }

/-- The consumers do not raise; the paper manager keeps its tables to itself. -/
def onOhlcv1s (symbol : String) (b : Bucket) (r : Runner) : Runner :=
  let ev := b.event symbol
  { r with
    toDetector := if symbol ∈ r.initialised then r.toDetector ++ [ev] else r.toDetector
    toStrategy := if symbol ∈ r.initialised then r.toStrategy ++ [ev] else r.toStrategy
    lastExchangeTs := r.lastExchangeTs.set symbol ev.tsMs
    lastPrice := r.lastPrice.set symbol ev.close
    toPaper := r.toPaper ++ [b.sample symbol] }

/-! ## Deals -/

/-- The trade goes into the bucket, which is the open one from now on. -/
def fillBucket (t : Trade) (b : Bucket) (r : Runner) : Runner :=
  { r with
    ohlcvBuffer := r.ohlcvBuffer.set t.symbol (b.add t)
    lastPrice := r.lastPrice.set t.symbol t.price }

def updateOhlcv (t : Trade) (r : Runner) : Runner :=
  match r.ohlcvBuffer.get? t.symbol with
  | none => fillBucket t (.new t.sec t.price) r
  | some b =>
    if t.sec < b.sec then { r with metrics.tradesLate := r.metrics.tradesLate + 1, late := r.late ++ [t] }
    else if b.sec ≠ t.sec then
      fillBucket t (.new t.sec t.price) (onOhlcv1s t.symbol b (flushOhlcvSync faults t.symbol b r))
    else fillBucket t b r

/-- One element of a batch of the symbol, whose contract size is `cs`. -/
def onTrade (symbol : String) (cs : ℚ) (r : Runner) : Deal → Runner
  | .dict (some price) (some contracts) (some side) (some tsMs) =>
    if side ≠ 1 ∧ side ≠ 2 then { r with metrics.tradesUnknownSide := r.metrics.tradesUnknownSide + 1 }
    else
      let usdtVol := contracts * cs * price
      if usdtVol ≤ 0 then { r with metrics.tradesDropped := r.metrics.tradesDropped + 1 }
      else
        let t : Trade := ⟨symbol, price, usdtVol, side, tsMs⟩
        updateOhlcv faults t { r with metrics.tradesIn := r.metrics.tradesIn + 1, accepted := r.accepted ++ [t] }
  | _ => { r with metrics.tradesDropped := r.metrics.tradesDropped + 1 }

def onDeal (symbol : String) (trades : List Deal) (r : Runner) : Runner :=
  if symbol ∉ r.symbols then r
  else
    let cs := (r.contractSize.get? symbol).getD 0
    if cs ≤ 0 then { r with metrics.tradesDropped := r.metrics.tradesDropped + trades.length }
    else trades.foldl (onTrade faults symbol cs) r

/-! ## Flushes -/

/-- One row a book; a write that raises does not keep the next from being made. -/
def insertSnapshot (c : Conn EventDb) (row : DepthRow) : Conn EventDb :=
  (c.write faults .depthInsert .depthCommit fun db => ((), { db with depth := db.depth ++ [row] })).2

/-- `snapshots` are the rows of the books, which the deals have no part in. -/
def flushSnapshot (snapshots : List DepthRow) (r : Runner) : Runner :=
  let r := { r with conn := snapshots.foldl (insertSnapshot faults) r.conn }
  r.ohlcvBuffer.items.foldl (fun r e => flushOhlcvSync faults e.1 e.2 r) r

/-! ## Runs -/

def initSymbolState (symbol : String) (r : Runner) : Runner :=
  if symbol ∈ r.initialised then r
  else
    { r with
      initialised := r.initialised.add symbol
      lastPrice := r.lastPrice.set symbol 0
      lastExchangeTs := r.lastExchangeTs.set symbol 0 }

/-- The end of a subscription: the contract size, `none` when it cannot be fetched, and the symbol's state. -/
def finishSubscribe (symbol : String) (fetched : Option ℚ) (r : Runner) : Runner :=
  let r := match r.contractSize.get? symbol, fetched with
    | none, some cs => { r with contractSize := r.contractSize.set symbol cs }
    | _, _ => r
  initSymbolState symbol r

/-- A runner up to the end of `_bootstrap`, on a new database; `fetched` are the contract sizes. -/
def started (symbols : List String) (fetched : String → Option ℚ) : Runner where
  symbols := PySet.ofList symbols
  initialised := PySet.ofList symbols
  contractSize := symbols.foldl (fun d s => d.set s ((fetched s).getD (1 / 10000))) .empty
  lastPrice := symbols.foldl (fun d s => d.set s 0) .empty
  lastExchangeTs := symbols.foldl (fun d s => d.set s 0) .empty
  conn := Conn.openDb ⟨[], [], []⟩

/-- What the runner does with deals; a subscription of the rotation waits before its end. -/
inductive Event
  | deal (symbol : String) (trades : List Deal)
  | flush (snapshots : List DepthRow)
  | subscribe (symbol : String)
  | finishSubscribe (symbol : String) (fetched : Option ℚ)
  | unsubscribe (symbol : String)

def step (r : Runner) : Event → Runner
  | .deal symbol trades => onDeal faults symbol trades r
  | .flush snapshots => flushSnapshot faults snapshots r
  | .subscribe symbol => { r with symbols := r.symbols.add symbol }
  | .finishSubscribe symbol fetched => finishSubscribe symbol fetched r
  | .unsubscribe symbol => { r with symbols := r.symbols.discard symbol }

end Runner

/-- The candles fed to the consumers of the symbol, and the one still active. -/
def seen (s : String) (r : Runner) : List OHLCVEvent :=
  r.toDetector.filter (fun ev => ev.symbol = s) ++ ((r.ohlcvBuffer.get? s).map (Bucket.event s)).toList

end MikoV2.Ohlcv
