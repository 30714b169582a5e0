import MikoV2.Writer.Calls

/-!
# The funding monitor

`record_funding_rate` remembers the rate and writes a row for the symbol.
-/

namespace MikoV2.Risk
open Writer Transactions

structure FundingRate where
  rate : ℚ
  ts : ℤ
  deriving DecidableEq

structure FundingMonitor where
  fundingRates : String → Option FundingRate

namespace FundingMonitor

def fresh : FundingMonitor := ⟨fun _ => none⟩

/-- The payload of the row that is written for the symbol. -/
def ratePayload (symbol : String) (rate : ℚ) : Payload :=
  Payload.ofList [("position_id", .text symbol), ("avg", .num rate), ("original_planned_entry", .num rate),
    ("version", .num 0)]

/-- `record_funding_rate`; what `execute_wal` raises is dropped. -/
def recordFundingRate (s : CallScript) (symbol : String) (rate : ℚ) (timestampMs : ℤ) (w : FundingMonitor × Conn Db) :
    FundingMonitor × Conn Db :=
  (⟨Function.update w.1.fundingRates symbol (some ⟨rate, timestampMs⟩)⟩,
    (executeWal s (ratePayload symbol rate) w.2).2)

end FundingMonitor

end MikoV2.Risk
