import MikoV2.Backtest.SimSteps
import MikoV2.Trading.Risk

/-!
# The risk of a simulated trade

* `EnteredWith` : a position is the one that an entry of the run opened, at this equity;
* `entryDecision_sized` : what an accepted entry opens is sized for its share of the equity;
* `Provenance` : every position and every trade goes back to an entry, kept by every call;
* `RiskKept`, `riskKept_run` : what that says about the stop, the target and the outcome.
-/

namespace MikoV2.Backtest.PositionSim
open PaperMath Runs
open Py (Dict)

variable {cfg : PositionSimConfig} {windowId foldId : ℤ} {s s' : PositionSimulator} {symbol : String}
  {pos : Position} {pre calls : List Action} {eq : ℚ}

/-- The parameters of the configuration stay inside the price, whichever way the entry slips. -/
def PositionSimConfig.Budgeted (cfg : PositionSimConfig) : Prop :=
  Budget cfg.riskPct cfg.tpRMultiple cfg.minSlDistancePct cfg.maxSlDistancePct (slippagePct cfg)

def Position.Bracketed (pos : Position) : Prop := Bracket pos.direction pos.slPrice pos.entryPrice pos.tpPrice

/-- Some entry of the run, made when `equity` was `eq`, opened this position. -/
def EnteredWith (cfg : PositionSimConfig) (windowId foldId : ℤ) (calls : List Action) (pos : Position) (eq : ℚ) :
    Prop :=
  ∃ pre signal symbol opened, pre ++ [.onEntry signal symbol] <+: calls ∧
    entryDecision cfg (run (step cfg) (init cfg windowId foldId) pre) signal symbol = .ok opened ∧
    pos = { opened with fundingPaid := pos.fundingPaid } ∧
    eq = equity (run (step cfg) (init cfg windowId foldId) pre)

/-- The trade closes the position. -/
structure ClosesPosition (pos : Position) (t : Trade) : Prop where
  direction : t.direction = pos.direction
  entryTsMs : t.entryTsMs = pos.entryTsMs
  entryPrice : t.entryPrice = pos.entryPrice
  qty : t.qty = pos.qty
  slPrice : t.slPrice = pos.slPrice
  tpPrice : t.tpPrice = pos.tpPrice

theorem EnteredWith.mono (h : EnteredWith cfg windowId foldId pre pos eq) (hpre : pre <+: calls) :
    EnteredWith cfg windowId foldId calls pos eq := by
  obtain ⟨p, signal, symbol, opened, hp, hdec, hpos, heq⟩ := h
  exact ⟨p, signal, symbol, opened, hp.trans hpre, hdec, hpos, heq⟩

theorem EnteredWith.funded (h : EnteredWith cfg windowId foldId calls pos eq) (fundingPaid : ℚ) :
    EnteredWith cfg windowId foldId calls { pos with fundingPaid } eq := by
  obtain ⟨p, signal, symbol, opened, hp, hdec, hpos, heq⟩ := h
  refine ⟨p, signal, symbol, opened, hp, hdec, ?_, heq⟩
  rw [hpos]

/-! ## Sizing -/

/-- What an accepted entry opens risks its share of the equity. -/
theorem entryDecision_sized (hcfg : cfg.Budgeted) {signal : EntrySignal}
    (h : entryDecision cfg s signal symbol = .ok pos) :
    Sized pos.direction pos.slPrice pos.entryPrice pos.tpPrice pos.qty cfg.tpRMultiple (cfg.riskPct * equity s) := by
  obtain ⟨-, -, hpx, atr, -, rfl⟩ := entryDecision_ok h
  obtain ⟨hd, hcap⟩ := hcfg.clamp hpx (cfg.slAtrMultiplier * atr)
  have hslip : signal.price * (1 - |slippagePct cfg|) ≤
      if signal.direction = .LONG then signal.price * (1 + slippagePct cfg)
      else signal.price * (1 - slippagePct cfg) := by
    split
    · exact mul_le_mul_of_nonneg_left (by linarith [neg_abs_le (slippagePct cfg)]) hpx.le
    · exact mul_le_mul_of_nonneg_left (by linarith [le_abs_self (slippagePct cfg)]) hpx.le
  have hsized : Sized signal.direction _ _ _ _ cfg.tpRMultiple (cfg.riskPct * equity s) :=
    Sized.of_distance hcfg hpx hslip hd hcap
  rw [mul_comm cfg.riskPct] at hsized ⊢
  exact hsized

theorem EnteredWith.sized (hcfg : cfg.Budgeted) (h : EnteredWith cfg windowId foldId calls pos eq) :
    Sized pos.direction pos.slPrice pos.entryPrice pos.tpPrice pos.qty cfg.tpRMultiple (cfg.riskPct * eq) := by
  obtain ⟨p, signal, symbol, opened, -, hdec, hpos, heq⟩ := h
  have hsized := entryDecision_sized hcfg hdec
  rw [hpos, heq]
  exact hsized

/-! ## Provenance -/

/-- Every open position was entered, and every trade closes an entered position at its stop, its target or the
end. -/
structure Provenance (cfg : PositionSimConfig) (windowId foldId : ℤ) (calls : List Action) (s : PositionSimulator) :
    Prop where
  positions : ∀ symbol pos, s.positions.get? symbol = some pos → ∃ eq, EnteredWith cfg windowId foldId calls pos eq
  trades : ∀ t ∈ s.trades, ∃ pos eq tsMs px reason s₀ symbol, EnteredWith cfg windowId foldId calls pos eq ∧
    ExitAt pos px reason ∧ t = tradeOf cfg s₀ pos symbol tsMs px reason

theorem Provenance.mono (h : Provenance cfg windowId foldId pre s) (hpre : pre <+: calls) :
    Provenance cfg windowId foldId calls s := by
  refine ⟨fun symbol pos hget => ?_, fun t ht => ?_⟩
  · obtain ⟨eq, he⟩ := h.positions symbol pos hget
    exact ⟨eq, he.mono hpre⟩
  · obtain ⟨pos, eq, tsMs, px, reason, s₀, symbol, he, hexit, rfl⟩ := h.trades t ht
    exact ⟨pos, eq, tsMs, px, reason, s₀, symbol, he.mono hpre, hexit, rfl⟩

theorem Provenance.move {allow : Position → Prop}
    (hallow : ∀ pos, allow pos → ∃ eq, EnteredWith cfg windowId foldId calls pos eq)
    (h : Provenance cfg windowId foldId calls s) (hm : Move cfg allow s s') :
    Provenance cfg windowId foldId calls s' := by
  cases hm with
  | quiet hq =>
    refine ⟨?_, ?_⟩
    · rw [hq.positions]
      exact h.positions
    · rw [hq.trades]
      exact h.trades
  | @funded symbol pos fundingPaid hget =>
    refine ⟨fun k p hp => ?_, h.trades⟩
    rw [Dict.get?_set] at hp
    split at hp
    · cases hp
      obtain ⟨eq, he⟩ := h.positions symbol pos hget
      exact ⟨eq, he.funded fundingPaid⟩
    · exact h.positions k p hp
  | @opened symbol pos hfree hopen =>
    refine ⟨fun k p hp => ?_, h.trades⟩
    rw [Dict.get?_set] at hp
    split at hp
    · cases hp
      exact hallow pos hopen
    · exact h.positions k p hp
  | @closed symbol pos tsMs px reason hget hexit =>
    rw [closePosition_of_some hget]
    refine ⟨fun k p hp => ?_, fun t ht => ?_⟩
    · rw [Dict.get?_erase] at hp
      split at hp
      · cases hp
      · exact h.positions k p hp
    · rcases List.mem_append.mp ht with ht | ht
      · exact h.trades t ht
      · rw [List.mem_singleton.mp ht]
        obtain ⟨eq, he⟩ := h.positions symbol pos hget
        exact ⟨pos, eq, tsMs, px, reason, s, symbol, he, hexit, rfl⟩

theorem provenance_run (cfg : PositionSimConfig) (windowId foldId : ℤ) (calls : List Action) :
    Provenance cfg windowId foldId calls (run (step cfg) (init cfg windowId foldId) calls) := by
  refine history_invariant (J := Provenance cfg windowId foldId) ⟨fun symbol pos h => ?_, fun t ht => ?_⟩
    (fun pre a h => ?_) calls
  · cases h
  · cases ht
  · have hstep : Moves cfg (fun pos => ∃ eq, EnteredWith cfg windowId foldId (pre ++ [a]) pos eq)
        (run (step cfg) (init cfg windowId foldId) pre) _ :=
      step_moves fun signal symbol pos ha hdec =>
        ⟨_, pre, signal, symbol, pos, ha ▸ List.prefix_refl _, hdec, rfl, rfl⟩
    exact hstep.keeps (fun s s' hs hm => hs.move (fun _ h => h) hm) (h.mono (List.prefix_append pre [a]))

/-! ## Outcomes -/

/-- The position of a trade at the stop or the target decides its result. -/
theorem tradeOf_outcome {tsMs : ℤ} {px : ℚ} {reason : ExitReason} {r amount : ℚ}
    (h : Sized pos.direction pos.slPrice pos.entryPrice pos.tpPrice pos.qty r amount) (hexit : ExitAt pos px reason) :
    let t := tradeOf cfg s pos symbol tsMs px reason
    (t.exitReason = .SL → t.rMultiple = -1 ∧ t.pnlGross = -amount) ∧
      (t.exitReason = .TP → t.rMultiple = r ∧ t.pnlGross = r * amount) := by
  intro t
  have hpnl : t.pnlGross = computePnlGross pos.entryPrice px pos.qty pos.direction := rfl
  have hr : t.rMultiple = computeRMultiple pos.entryPrice px pos.slPrice pos.direction := by
    show (if |pos.entryPrice - pos.slPrice| > 0 then _ else _) = _
    unfold computeRMultiple
    dsimp only
    by_cases hd : |pos.entryPrice - pos.slPrice| > 0
    · rw [if_pos hd, if_neg (not_le.mpr hd)]
    · rw [if_neg hd, if_pos (not_lt.mp hd)]
  refine ⟨fun hsl => ?_, fun htp => ?_⟩
  · have hpx : px = pos.slPrice := by
      rw [show reason = .SL from hsl] at hexit
      exact hexit
    rw [hr, hpnl, hpx]
    exact ⟨h.stop.2, h.stop.1⟩
  · have hpx : px = pos.tpPrice := by
      rw [show reason = .TP from htp] at hexit
      exact hexit
    rw [hr, hpnl, hpx]
    exact ⟨h.take.2, h.take.1⟩

/-- Positions are bracketed, and a trade at its stop or target pays what the entry budgeted. -/
structure RiskKept (cfg : PositionSimConfig) (windowId foldId : ℤ) (calls : List Action) (s : PositionSimulator) :
    Prop where
  bracketed : ∀ symbol pos, s.positions.get? symbol = some pos → pos.Bracketed
  trades : ∀ t ∈ s.trades, ∃ pos eq, EnteredWith cfg windowId foldId calls pos eq ∧ ClosesPosition pos t ∧
    (t.exitReason = .SL → t.rMultiple = -1 ∧ t.pnlGross = -(cfg.riskPct * eq)) ∧
    (t.exitReason = .TP → t.rMultiple = cfg.tpRMultiple ∧ t.pnlGross = cfg.tpRMultiple * (cfg.riskPct * eq))

theorem riskKept_run (hcfg : cfg.Budgeted) (windowId foldId : ℤ) (calls : List Action) :
    RiskKept cfg windowId foldId calls (run (step cfg) (init cfg windowId foldId) calls) := by
  have hprov := provenance_run cfg windowId foldId calls
  refine ⟨fun symbol pos hget => ?_, fun t ht => ?_⟩
  · obtain ⟨eq, he⟩ := hprov.positions symbol pos hget
    exact (he.sized hcfg).bracket
  · obtain ⟨pos, eq, tsMs, px, reason, s₀, symbol, he, hexit, rfl⟩ := hprov.trades t ht
    exact ⟨pos, eq, he, ⟨rfl, rfl, rfl, rfl, rfl, rfl⟩, tradeOf_outcome (he.sized hcfg) hexit⟩

end MikoV2.Backtest.PositionSim
