import Mathlib.Tactic.Ring
import MikoV2.Backtest.SimSteps
import MikoV2.Paper.Restart

/-!
# What a close does to the equity

Documented: equity is the realized equity plus, for each open position, its gross result so far less its entry
fee and the funding it paid. Both `equity` properties leave the entry fee out, so a close at the last price,
which charges it, takes it off the equity together with the exit fee.

* `Ledger` : the realized equity of the simulator is the initial equity plus its trades;
* `equity_close` : a close at the last price takes the exit fee and the entry fee off the equity;
* `close_conserves_iff` : so it takes exactly the exit fee from those positions that paid no entry fee.
-/

namespace MikoV2.Backtest.PositionSim
open PaperMath Runs
open Py (Dict)

variable {cfg : PositionSimConfig} {s s' : PositionSimulator} {symbol : String} {pos : Position} {px : ℚ}

/-! ## The simulator -/

def exitFee (cfg : PositionSimConfig) (pos : Position) (px : ℚ) (reason : ExitReason) : ℚ :=
  px * pos.qty * if reason = .TP then cfg.feeMaker else cfg.feeTaker

def Ledger (cfg : PositionSimConfig) (s : PositionSimulator) : Prop :=
  s.realizedEquity = cfg.initialEquity + (s.trades.map Trade.pnlNet).sum

theorem Ledger.move {allow : Position → Prop} (h : Ledger cfg s) (hm : Move cfg allow s s') : Ledger cfg s' := by
  unfold Ledger at h ⊢
  cases hm with
  | quiet hq => rw [hq.realizedEquity, hq.trades, h]
  | funded fundingPaid hget => exact h
  | opened hfree hopen => exact h
  | closed tsMs px reason hget hexit =>
    rw [closePosition_of_some hget]
    simp [h, add_assoc]

theorem Ledger.init (cfg : PositionSimConfig) (windowId foldId : ℤ) : Ledger cfg (PositionSim.init cfg windowId foldId) :=
  (add_zero _).symm

theorem ledger_run (cfg : PositionSimConfig) (windowId foldId : ℤ) (calls : List Action) :
    Ledger cfg (run (step cfg) (PositionSim.init cfg windowId foldId) calls) := by
  refine invariant (I := Ledger cfg) (.init cfg windowId foldId) (fun s a h => ?_) calls
  have hmoves : Moves cfg (fun _ => True) s (step cfg s a) := step_moves fun _ _ _ _ _ => trivial
  exact hmoves.keeps (fun _ _ h hm => h.move hm) h

theorem equity_eq_sum (s : PositionSimulator) :
    equity s = s.realizedEquity + (s.positions.items.map fun e => unrealized s.lastPrice e.1 e.2).sum :=
  Py.foldl_add ..

/-- A close at the last price takes the exit fee and the entry fee off the equity. -/
theorem equity_close (hget : s.positions.get? symbol = some pos) (hpx : s.lastPrice symbol = some px) (tsMs : ℤ)
    (reason : ExitReason) :
    equity (closePosition cfg symbol tsMs px reason s) = equity s - exitFee cfg pos px reason - pos.entryFee := by
  have hsum := ((Dict.items_perm_erase hget).map fun e => unrealized s.lastPrice e.1 e.2).sum_eq
  have hmark : unrealized s.lastPrice symbol pos = (tradeOf cfg s pos symbol tsMs px reason).pnlGross -
      pos.fundingPaid := by
    unfold unrealized
    rw [hpx]
    rfl
  have hnet : (tradeOf cfg s pos symbol tsMs px reason).pnlNet =
      (tradeOf cfg s pos symbol tsMs px reason).pnlGross - (pos.entryFee + exitFee cfg pos px reason) -
        pos.fundingPaid := rfl
  rw [List.map_cons, List.sum_cons, hmark] at hsum
  rw [closePosition_of_some hget, equity_eq_sum, equity_eq_sum, hsum]
  dsimp only
  rw [hnet]
  ring

end MikoV2.Backtest.PositionSim

namespace MikoV2.Paper
open PaperMath Store Runs
open Py (Dict)

variable {env : Env} {s : World} {symbol : String} {pos : PaperPosition} {px : ℚ}

/-! ## The paper trader -/

def exitFee (env : Env) (pos : PaperPosition) (px : ℚ) (reason : ExitReason) : ℚ :=
  computeExitFee px pos.qty env.cfg.feeTaker env.cfg.feeMaker reason

theorem ledger_run (env : Env) (calls : List Action) : Ledger env (run (step env) (fresh env) calls) :=
  invariant (I := Ledger env) (.fresh env)
    (fun s a h => (step_moves_any env s a).keeps (fun _ _ h hm => h.move hm) h) calls

theorem equity_eq_sum (m : Manager) :
    equity m = m.realizedEquity + (m.positions.items.map fun e => unrealized m.lastPrice e.1 e.2).sum :=
  Py.foldl_add ..

/-- A close whose write went through. -/
theorem closePosition_of_closed (hget : s.mem.positions.get? symbol = some pos) {tsMs : ℤ} {reason : ExitReason}
    (hclosed : (closePosition env symbol tsMs px reason s).mem.positions.get? symbol = none) :
    (closePosition env symbol tsMs px reason s).mem.positions = s.mem.positions.erase symbol ∧
      (closePosition env symbol tsMs px reason s).mem.realizedEquity =
        s.mem.realizedEquity + (tradeOf env pos symbol tsMs px reason).pnlNet ∧
      (closePosition env symbol tsMs px reason s).mem.lastPrice = s.mem.lastPrice := by
  unfold closePosition settleClose writePositionClose at hclosed ⊢
  rw [hget] at hclosed ⊢
  dsimp only at hclosed ⊢
  rcases hw : s.conn.write env.faults .updatePosition .commitClose
    (updatePosition (tradeOf env pos symbol tsMs px reason) (exitFee env pos px reason)
      (env.wallMs s.conn.issued)) with ⟨rows, conn⟩
  unfold exitFee at hw
  rw [hw] at hclosed ⊢
  cases rows with
  | none =>
    have hopen : s.mem.positions.get? symbol = none := hclosed
    rw [hget] at hopen
    cases hopen
  | some n => exact ⟨rfl, rfl, rfl⟩

theorem equity_close (hget : s.mem.positions.get? symbol = some pos) (hpx : s.mem.lastPrice symbol = some px)
    {tsMs : ℤ} {reason : ExitReason}
    (hclosed : (closePosition env symbol tsMs px reason s).mem.positions.get? symbol = none) :
    equity (closePosition env symbol tsMs px reason s).mem =
      equity s.mem - exitFee env pos px reason - pos.entryFee := by
  obtain ⟨hpos, hreal, hlast⟩ := closePosition_of_closed hget hclosed
  have hsum := ((Dict.items_perm_erase hget).map fun e => unrealized s.mem.lastPrice e.1 e.2).sum_eq
  have hmark : unrealized s.mem.lastPrice symbol pos = (tradeOf env pos symbol tsMs px reason).pnlGross -
      pos.fundingPaid := by
    unfold unrealized
    rw [hpx]
    rfl
  have hnet : (tradeOf env pos symbol tsMs px reason).pnlNet =
      (tradeOf env pos symbol tsMs px reason).pnlGross - (pos.entryFee + exitFee env pos px reason) -
        pos.fundingPaid := rfl
  rw [List.map_cons, List.sum_cons, hmark] at hsum
  rw [equity_eq_sum, equity_eq_sum, hpos, hreal, hlast, hsum, hnet]
  ring

end MikoV2.Paper

namespace MikoV2.Parity
open Backtest PositionSim Runs
open Paper (Env)
open PaperMath (ExitReason)

/-- **A close conserves the equity exactly for the positions that paid no entry fee**, in every state that a run
of the simulator or of the paper trader reaches; the realized equity is always the sum of the trades. -/
theorem close_conserves_iff (cfg : PositionSimConfig) (windowId foldId : ℤ) (calls : List Action) (env : Env)
    (paperCalls : List Paper.Action) :
    let s := run (step cfg) (init cfg windowId foldId) calls
    let w := run (Paper.step env) (Paper.fresh env) paperCalls
    (s.realizedEquity = cfg.initialEquity + (s.trades.map Trade.pnlNet).sum ∧
      ∀ symbol pos px, s.positions.get? symbol = some pos → s.lastPrice symbol = some px → ∀ tsMs reason,
        (equity (closePosition cfg symbol tsMs px reason s) = equity s - exitFee cfg pos px reason ↔
          pos.entryFee = 0)) ∧
    w.mem.realizedEquity = env.cfg.initialEquity + (w.mem.closedTrades.map Paper.PaperTradeResult.pnlNet).sum ∧
      ∀ symbol pos px, w.mem.positions.get? symbol = some pos → w.mem.lastPrice symbol = some px → ∀ tsMs reason,
        (Paper.closePosition env symbol tsMs px reason w).mem.positions.get? symbol = none →
        (Paper.equity (Paper.closePosition env symbol tsMs px reason w).mem =
          Paper.equity w.mem - Paper.exitFee env pos px reason ↔ pos.entryFee = 0) := by
  intro s w
  refine ⟨⟨ledger_run cfg windowId foldId calls, ?_⟩, Paper.ledger_run env paperCalls, ?_⟩
  · intro symbol pos px hget hpx tsMs reason
    rw [equity_close hget hpx, sub_eq_self]
  · intro symbol pos px hget hpx tsMs reason hclosed
    rw [Paper.equity_close hget hpx hclosed, sub_eq_self]

/-- A long entry at the default taker fee, one bar after three. -/
def feeEntry : PositionSimulator :=
  run (step { atrPeriod := 1 }) (init { atrPeriod := 1 } 0 0)
    [.onOhlcv ⟨0, 0, 100, 102, 98, 100, 0, 0, 0, "BTC_USDT", 0⟩,
      .onOhlcv ⟨5, 5000, 100, 102, 98, 100, 0, 0, 0, "BTC_USDT", 5⟩,
      .onOhlcv ⟨10, 10000, 100, 102, 98, 100, 0, 0, 0, "BTC_USDT", 10⟩,
      .onEntry ⟨.LONG, 10000, 100, "", []⟩ "BTC_USDT"]

theorem not_conserved_feeEntry : ∃ pos, feeEntry.positions.get? "BTC_USDT" = some pos ∧
    feeEntry.lastPrice "BTC_USDT" = some 100 ∧
    equity (closePosition { atrPeriod := 1 } "BTC_USDT" 15000 100 .END_OF_BACKTEST feeEntry) ≠
      equity feeEntry - exitFee { atrPeriod := 1 } pos 100 .END_OF_BACKTEST := by
  have hopen : (feeEntry.positions.get? "BTC_USDT").map Position.entryFee = some (5001 / 6250) := by decide +kernel
  have hpx : feeEntry.lastPrice "BTC_USDT" = some 100 := by decide +kernel
  obtain ⟨pos, hget, hfee⟩ := Option.map_eq_some_iff.mp hopen
  refine ⟨pos, hget, hpx, ?_⟩
  rw [equity_close hget hpx, hfee, ne_eq, sub_eq_self]
  decide +kernel

end MikoV2.Parity
