import Mathlib.Algebra.Order.Group.Unbundled.Abs
import Mathlib.Algebra.Order.Ring.Rat
import MikoV2.Writer.Calls

/-!
# The whale radar

`record_trade` keeps a large trade in memory, counts its price band, and writes a row for the symbol.

* `bandKey` : the band of a price; `recordTrade` : the source's function;
* `recordTrade_conn` : what it does to the connection.
-/

namespace MikoV2.Risk
open Writer Transactions

structure WhaleRadarConfig where
  bigOrderUsd : ℚ := 100000
  oiDeltaUsdMin : ℚ := 50000
  realMinLifetimeMs : ℤ := 3000
  realMinFillRatio : ℚ := 3 / 10
  spoofMaxRatio : ℚ := 1 / 10

/-- The arguments of `record_trade`. -/
structure Trade where
  symbol : String
  price : ℚ
  tickSize : ℚ
  orderLifetimeMs : ℤ
  fillRatio : ℚ
  oiDeltaUsd : ℚ
  exchangeTs : ℤ

/-- What the radar keeps of a trade. -/
structure TradeEntry where
  price : ℚ
  tickSize : ℚ
  band : ℤ
  lifetime : ℤ
  fillRatio : ℚ
  oiDeltaUsd : ℚ
  exchangeTs : ℤ
  isBig : Bool
  isReal : Bool
  isSpoof : Bool
  deriving DecidableEq

structure WhaleRadar where
  trades : String → List TradeEntry
  bands : String → Option (ℤ → Option ℕ)

namespace WhaleRadar

def fresh : WhaleRadar := ⟨fun _ => [], fun _ => none⟩

/-- `_band_key`: the price in steps of five ticks, truncated. -/
-- the width of the band that the source computes first is not used for the key
def bandKey (price tickSize : ℚ) : ℤ :=
  let tick := if tickSize ≤ 0 then 1 / 100 else tickSize
  (price / (tick * 5)).num.tdiv (price / (tick * 5)).den

def entry (cfg : WhaleRadarConfig) (t : Trade) : TradeEntry where
  price := t.price
  tickSize := t.tickSize
  band := bandKey t.price t.tickSize
  lifetime := t.orderLifetimeMs
  fillRatio := t.fillRatio
  oiDeltaUsd := t.oiDeltaUsd
  exchangeTs := t.exchangeTs
  isBig := cfg.bigOrderUsd ≤ |t.oiDeltaUsd|
  isReal := cfg.realMinLifetimeMs ≤ t.orderLifetimeMs ∧ cfg.realMinFillRatio ≤ t.fillRatio
  isSpoof := t.fillRatio ≤ cfg.spoofMaxRatio

/-- The payload of the row that is written for the symbol. -/
def tradePayload (symbol : String) (price : ℚ) : Payload :=
  Payload.ofList [("position_id", .text symbol), ("avg", .num price), ("original_planned_entry", .num price),
    ("version", .num 0)]

/-- `record_trade`; what `execute_wal` raises is dropped. -/
def recordTrade (cfg : WhaleRadarConfig) (s : CallScript) (t : Trade) (w : WhaleRadar × Conn Db) :
    WhaleRadar × Conn Db :=
  if |t.oiDeltaUsd| < cfg.oiDeltaUsdMin then w
  else
    let e := entry cfg t
    let counts := (w.1.bands t.symbol).getD fun _ => none
    let radar : WhaleRadar := {
      trades := Function.update w.1.trades t.symbol (w.1.trades t.symbol ++ [e])
      bands := Function.update w.1.bands t.symbol
        (some (Function.update counts e.band (some ((counts e.band).getD 0 + 1)))) }
    (radar, (executeWal s (tradePayload t.symbol t.price) w.2).2)

theorem recordTrade_conn (cfg : WhaleRadarConfig) (s : CallScript) (t : Trade) (w : WhaleRadar × Conn Db) :
    (recordTrade cfg s t w).2 =
      if |t.oiDeltaUsd| < cfg.oiDeltaUsdMin then w.2 else (executeWal s (tradePayload t.symbol t.price) w.2).2 := by
  unfold recordTrade
  split <;> rfl

end WhaleRadar

end MikoV2.Risk
