import MikoV2.Backtest.Risk
import MikoV2.Paper.Restart
import MikoV2.Paper.Risk

/-!
# Risk is what was budgeted, in both

`risk_exact` : in every run of the simulator and of the paper trader, restarts included, positions are bracketed
and a trade at its stop or target pays exactly the share of the equity that its entry risked. A slippage counts
by its size: `not_bracketed_negativeSlippage` is a negative one that puts the stop of a long position below zero.
-/

namespace MikoV2.Parity
open Backtest PositionSim Runs
open Paper (Env)

/-- **Risk is exactly what was budgeted.** -/
theorem risk_exact (cfg : PositionSimConfig) (hcfg : cfg.Budgeted) (windowId foldId : ℤ) (calls : List Action)
    (env : Env) (hpaper : env.cfg.Budgeted) (paperCalls : List Paper.Action) :
    RiskKept cfg windowId foldId calls (run (step cfg) (init cfg windowId foldId) calls) ∧
      Paper.RiskKept env paperCalls (run (Paper.step env) (Paper.fresh env) paperCalls) :=
  ⟨riskKept_run hcfg windowId foldId calls, Paper.riskKept_run hpaper paperCalls⟩

/-- Three candles from 98 to 102, then a long entry at 100. -/
def wideBars : List Action :=
  [.onOhlcv ⟨0, 0, 100, 102, 98, 100, 0, 0, 0, "BTC_USDT", 0⟩,
    .onOhlcv ⟨5, 5000, 100, 102, 98, 100, 0, 0, 0, "BTC_USDT", 5⟩,
    .onOhlcv ⟨10, 10000, 100, 102, 98, 100, 0, 0, 0, "BTC_USDT", 10⟩,
    .onEntry ⟨.LONG, 10000, 100, "", []⟩ "BTC_USDT"]

theorem budgeted_default :
    ({ atrPeriod := 1 } : PositionSimConfig).Budgeted ∧ ({} : Paper.PaperPositionConfig).Budgeted := by
  refine ⟨⟨?_, ?_, ?_, ?_, ?_⟩, ⟨?_, ?_, ?_, ?_, ?_⟩⟩ <;> decide +kernel

theorem risk_exact_wideBars :
    RiskKept { atrPeriod := 1 } 0 0 wideBars (run (step { atrPeriod := 1 }) (init { atrPeriod := 1 } 0 0) wideBars) ∧
      Paper.RiskKept (Paper.reliable {} fun _ => 0) Paper.entryAndLoss
        (run (Paper.step (Paper.reliable {} fun _ => 0)) (Paper.fresh (Paper.reliable {} fun _ => 0))
          Paper.entryAndLoss) :=
  risk_exact _ budgeted_default.1 0 0 wideBars (Paper.reliable {} fun _ => 0) budgeted_default.2 Paper.entryAndLoss

/-- Entries fill 99 % below the price, while the distance of the stop is taken at the price. -/
def negativeSlippage : PositionSimConfig := { atrPeriod := 1, entrySlippageBps := -9900 }

theorem not_bracketed_negativeSlippage :
    (0 < negativeSlippage.riskPct ∧ 0 < negativeSlippage.tpRMultiple ∧ 0 < negativeSlippage.minSlDistancePct ∧
        negativeSlippage.minSlDistancePct ≤ negativeSlippage.maxSlDistancePct ∧
        slippagePct negativeSlippage + max 1 negativeSlippage.tpRMultiple * negativeSlippage.maxSlDistancePct < 1) ∧
      ¬ ∀ symbol pos, (run (step negativeSlippage) (init negativeSlippage 0 0) wideBars).positions.get? symbol =
          some pos → pos.Bracketed := by
  refine ⟨by decide +kernel, fun h => ?_⟩
  have hstop : ((run (step negativeSlippage) (init negativeSlippage 0 0) wideBars).positions.get? "BTC_USDT").map
      (fun pos => (pos.direction, pos.slPrice)) = some (.LONG, -1) := by decide +kernel
  obtain ⟨pos, hget, hpos⟩ := Option.map_eq_some_iff.mp hstop
  have hb := h _ _ hget
  unfold Position.Bracketed PaperMath.Bracket at hb
  rw [(Prod.mk.inj hpos).1, (Prod.mk.inj hpos).2] at hb
  exact absurd hb.1 (by decide)

end MikoV2.Parity
