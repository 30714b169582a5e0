import Mathlib.Algebra.BigOperators.Group.List.Lemmas
import Mathlib.Algebra.Order.BigOperators.Group.List
import MikoV2.Backtest.Accounting
import MikoV2.Backtest.Rescaled
import MikoV2.Lib.Series
import MikoV2.Parity.Equity

/-!
# The report of a backtest

`build_report` of the simulator and `compute_metrics` over its trades.

* `buildReport` : `none` is the `ZeroDivisionError`; `computeMetrics` : with the square root of `math` as a parameter;
* `buildReport_eq`, `isGreatest_drawdown` : the loop of the drawdown reads the equity curve;
* `reported_run` : what the report of a run says;
* `computeMetrics_units`, `metrics_units` : the metrics have no unit.
-/

namespace MikoV2.Backtest
open Py (Dict)

namespace PositionSim

/-! ## Reports -/

structure BacktestReport where
  initialEquity : ℚ
  finalEquity : ℚ
  totalTrades : ℕ
  winRate : ℚ
  avgRMultiple : ℚ
  maxDrawdownPct : ℚ
  totalReturnPct : ℚ

/-- One trade of the loop over equity, peak and drawdown. -/
def drawdownStep (st : ℚ × ℚ × ℚ) (t : Trade) : ℚ × ℚ × ℚ :=
  let (eq, peak, maxDd) := st
  let eq := eq + t.pnlNet
  let peak := if eq > peak then eq else peak
  let dd := if peak > 0 then (peak - eq) / peak else 0
  (eq, peak, if dd > maxDd then dd else maxDd)

/-- The total return is divided by the initial equity. -/
def buildReport (cfg : PositionSimConfig) (s : PositionSimulator) : Option BacktestReport :=
  let n := s.trades.length
  let eqFinal := equity s
  if n = 0 then
    some {
      initialEquity := cfg.initialEquity
      finalEquity := eqFinal
      totalTrades := 0
      winRate := 0
      avgRMultiple := 0
      maxDrawdownPct := 0
      totalReturnPct := 0 }
  else if cfg.initialEquity = 0 then none
  else
    let wins := s.trades.countP fun t => t.pnlNet > 0
    some {
      initialEquity := cfg.initialEquity
      finalEquity := eqFinal
      totalTrades := n
      winRate := wins / n
      avgRMultiple := (s.trades.map Trade.rMultiple).sum / n
      maxDrawdownPct := (s.trades.foldl drawdownStep (cfg.initialEquity, cfg.initialEquity, 0)).2.2
      totalReturnPct := (eqFinal - cfg.initialEquity) / cfg.initialEquity }

structure ExtendedMetrics where
  sharpeAnnualized : ℚ
  profitFactor : Option ℚ
  expectancyR : ℚ
  avgHoldingSec : ℚ
  maxConsecutiveLosses : ℕ

/-- The returns per trade, unless the equity is used up before one. -/
def tradeReturns : ℚ → List Trade → Option (List ℚ)
  | _, [] => some []
  | eq, t :: trades => if eq ≤ 0 then none else (tradeReturns (eq + t.pnlNet) trades).map (t.pnlNet / eq :: ·)

def secondsPerYear : ℚ := 365 * 24 * 3600

/-- `_sharpe_annualized`. -/
def sharpeAnnualized (sqrt : ℚ → ℚ) (trades : List Trade) (initialEquity : ℚ) : ℚ :=
  let n := trades.length
  if n < 2 then 0
  else match tradeReturns initialEquity trades with
    | none => 0
    | some rets =>
      let mean := rets.sum / n
      let var := (rets.map fun r => (r - mean) ^ (2 : ℕ)).sum / ((n : ℚ) - 1)
      let std := if var > 0 then sqrt var else 0
      if std = 0 then 0
      else
        let spanMs := (trades.map Trade.exitTsMs).max?.getD 0 - (trades.map Trade.entryTsMs).min?.getD 0
        if spanMs ≤ 0 then 0
        else
          let spanYears := (spanMs : ℚ) / 1000 / secondsPerYear
          if spanYears ≤ 0 then 0
          else mean / std * sqrt (n / spanYears)

def grossWin (trades : List Trade) : ℚ := ((trades.filter fun t => t.pnlNet > 0).map Trade.pnlNet).sum

def grossLoss (trades : List Trade) : ℚ := ((trades.filter fun t => t.pnlNet < 0).map fun t => -t.pnlNet).sum

def computeMetrics (sqrt : ℚ → ℚ) (trades : List Trade) (initialEquity : ℚ) : ExtendedMetrics :=
  let n := trades.length
  if n = 0 then
    { sharpeAnnualized := 0, profitFactor := none, expectancyR := 0, avgHoldingSec := 0, maxConsecutiveLosses := 0 }
  else
    { sharpeAnnualized := sharpeAnnualized sqrt trades initialEquity
      profitFactor := if grossLoss trades > 0 then some (grossWin trades / grossLoss trades) else none
      expectancyR := (trades.map Trade.rMultiple).sum / n
      avgHoldingSec := (trades.map fun t => ((t.exitTsMs - t.entryTsMs : ℤ) : ℚ)).sum / n / 1000
      maxConsecutiveLosses := Series.longestStreak (fun t => t.pnlNet < 0) trades }

variable {cfg : PositionSimConfig} {s s' : PositionSimulator} {trades : List Trade} {initial : ℚ}

/-! ## The realized equity -/

/-- Without open positions, the equity is the realized one. -/
theorem equity_of_empty (h : s.positions.items = []) : equity s = s.realizedEquity := by
  unfold equity
  rw [h]
  rfl

/-! ## No money, no trades -/

/-- Nothing is open, traded or owned. -/
structure Broke (s : PositionSimulator) : Prop where
  positions : s.positions.items = []
  trades : s.trades = []
  realizedEquity : s.realizedEquity = 0

theorem Broke.move (h : Broke s) (hm : Move cfg (fun _ => False) s s') : Broke s' := by
  have hfree : ∀ symbol pos, s.positions.get? symbol ≠ some pos := fun symbol pos hget => by
    have hmem := Dict.mem_items.mpr hget
    rw [h.positions] at hmem
    cases hmem
  cases hm with
  | quiet hq =>
    exact ⟨by rw [hq.positions]; exact h.positions, by rw [hq.trades]; exact h.trades,
      by rw [hq.realizedEquity]; exact h.realizedEquity⟩
  | funded fundingPaid hget => exact absurd hget (hfree _ _)
  | opened _ hallow => exact hallow.elim
  | closed tsMs px reason hget hexit => exact absurd hget (hfree _ _)

/-- An entry that risks a part of nothing has no quantity. -/
theorem Broke.refused (h : Broke s) (signal : EntrySignal) (symbol : String) (pos : Position) :
    entryDecision cfg s signal symbol ≠ .ok pos := by
  have heq : equity s = 0 := (equity_of_empty h.positions).trans h.realizedEquity
  unfold entryDecision
  rw [heq]
  intro hdec
  simp only [zero_mul, zero_div, le_refl, if_true] at hdec
  repeat' split at hdec
  all_goals cases hdec

theorem Broke.step (h : Broke s) (a : Action) : Broke (step cfg s a) := by
  have hmoves : Moves cfg (fun _ => False) s (PositionSim.step cfg s a) :=
    step_moves fun signal symbol pos _ hdec => h.refused signal symbol pos hdec
  exact hmoves.keeps (fun _ _ hs hm => hs.move hm) h

/-! ## The figures of a report -/

/-- The loop of the drawdown reads the points of the curve. -/
theorem foldl_drawdownStep (trades : List Trade) : ∀ (eq : ℚ) (st : ℚ × ℚ),
    (trades.foldl drawdownStep (eq, st)).2 = ((curvePoints eq trades).map EquityPoint.equity).foldl Series.fallStep st := by
  induction trades with
  | nil => exact fun eq st => rfl
  | cons t trades ih =>
    intro eq st
    rw [List.foldl_cons, curvePoints, List.map_cons, List.foldl_cons, ← ih]
    rfl

theorem curve_equity (t : Trade) (trades : List Trade) (initial : ℚ) :
    (buildEquityCurve (t :: trades) initial).map EquityPoint.equity =
      initial :: (curvePoints initial (t :: trades)).map EquityPoint.equity := rfl

/-- Every point of the curve after the first is the sum so far, so the last one is the sum of all. -/
theorem curvePoints_getLast (trades : List Trade) : ∀ (eq : ℚ), ∀ p ∈ (curvePoints eq trades).getLast?,
    p.equity = eq + (trades.map Trade.pnlNet).sum := by
  induction trades with
  | nil =>
    intro eq p hp
    cases hp
  | cons t trades ih =>
    intro eq p hp
    rw [List.map_cons, List.sum_cons, ← add_assoc]
    cases trades with
    | nil =>
      cases hp
      exact (add_zero _).symm
    | cons u trades => exact ih _ p hp

theorem buildEquityCurve_getLast {p : EquityPoint} (hp : p ∈ (buildEquityCurve trades initial).getLast?) :
    p.equity = initial + (trades.map Trade.pnlNet).sum := by
  cases trades with
  | nil => cases hp
  | cons t trades => exact curvePoints_getLast (t :: trades) initial p hp

/-! ## Wins and losses -/

theorem grossWin_sub_grossLoss (trades : List Trade) :
    grossWin trades - grossLoss trades = (trades.map Trade.pnlNet).sum := by
  unfold grossWin grossLoss
  induction trades with
  | nil => exact sub_zero 0
  | cons t trades ih =>
    rw [List.map_cons, List.sum_cons, ← ih]
    rcases lt_trichotomy t.pnlNet 0 with h | h | h
    · rw [List.filter_cons_of_neg (by simp [h.le]), List.filter_cons_of_pos (by simp [h]), List.map_cons, List.sum_cons]
      ring
    · rw [List.filter_cons_of_neg (by simp [h]), List.filter_cons_of_neg (by simp [h]), h, zero_add]
    · rw [List.filter_cons_of_pos (by simp [h]), List.filter_cons_of_neg (by simp [h.le]), List.map_cons, List.sum_cons]
      ring

theorem grossLoss_pos_iff : 0 < grossLoss trades ↔ ∃ t ∈ trades, t.pnlNet < 0 := by
  have hpos : ∀ x ∈ (trades.filter fun t => t.pnlNet < 0).map fun t => -t.pnlNet, 0 < x := by
    intro x hx
    obtain ⟨t, ht, rfl⟩ := List.mem_map.mp hx
    rw [List.mem_filter, decide_eq_true_eq] at ht
    exact neg_pos.mpr ht.2
  constructor
  · intro h
    by_contra hnone
    have hempty : (trades.filter fun t => t.pnlNet < 0) = [] := by
      refine List.filter_eq_nil_iff.mpr fun t ht hneg => hnone ⟨t, ht, ?_⟩
      exact of_decide_eq_true hneg
    unfold grossLoss at h
    rw [hempty] at h
    exact lt_irrefl _ h
  · rintro ⟨t, ht, hneg⟩
    refine List.sum_pos _ hpos ?_
    rw [Ne, List.map_eq_nil_iff]
    refine List.ne_nil_of_mem (a := t) (List.mem_filter.mpr ⟨ht, decide_eq_true hneg⟩)

/-- The factor exceeds one when the trades gained on the whole. -/
theorem one_lt_profitFactor (h : 0 < grossLoss trades) :
    1 < grossWin trades / grossLoss trades ↔ 0 < (trades.map Trade.pnlNet).sum := by
  rw [one_lt_div h, ← sub_pos, grossWin_sub_grossLoss]

/-! ## The report of a run -/

/-- What the report and the metrics say about the trades and their curve. -/
structure Reported (sqrt : ℚ → ℚ) (cfg : PositionSimConfig) (trades : List Trade) (report : BacktestReport) : Prop where
  balance : report.finalEquity = cfg.initialEquity + (trades.map Trade.pnlNet).sum
  curveEnd : ∀ p ∈ (buildEquityCurve trades cfg.initialEquity).getLast?, p.equity = report.finalEquity
  totalReturn : report.finalEquity = cfg.initialEquity * (1 + report.totalReturnPct)
  drawdown : 0 < cfg.initialEquity →
    IsGreatest {d | d = 0 ∨ Series.FallsBy ((buildEquityCurve trades cfg.initialEquity).map EquityPoint.equity) d}
      report.maxDrawdownPct
  ruin : 0 < cfg.initialEquity →
    (1 ≤ report.maxDrawdownPct ↔ ∃ p ∈ buildEquityCurve trades cfg.initialEquity, p.equity ≤ 0)
  expectancy : (computeMetrics sqrt trades cfg.initialEquity).expectancyR = report.avgRMultiple
  undefined : (computeMetrics sqrt trades cfg.initialEquity).profitFactor = none ↔ ∀ t ∈ trades, 0 ≤ t.pnlNet
  gained : ∀ pf ∈ (computeMetrics sqrt trades cfg.initialEquity).profitFactor,
    1 < pf ↔ cfg.initialEquity < report.finalEquity
  losses : IsGreatest {n | ∃ m, m <:+: trades ∧ (∀ t ∈ m, t.pnlNet < 0) ∧ m.length = n}
    (computeMetrics sqrt trades cfg.initialEquity).maxConsecutiveLosses

theorem maxConsecutiveLosses_eq (sqrt : ℚ → ℚ) (trades : List Trade) (initial : ℚ) :
    (computeMetrics sqrt trades initial).maxConsecutiveLosses = Series.longestStreak (fun t => t.pnlNet < 0) trades := by
  unfold computeMetrics
  dsimp only
  split
  · rename_i hempty
    rw [List.length_eq_zero_iff.mp hempty]
    rfl
  · rfl

theorem profitFactor_eq (sqrt : ℚ → ℚ) (trades : List Trade) (initial : ℚ) :
    (computeMetrics sqrt trades initial).profitFactor =
      if 0 < grossLoss trades then some (grossWin trades / grossLoss trades) else none := by
  unfold computeMetrics
  dsimp only
  split
  · rename_i hempty
    rw [List.length_eq_zero_iff.mp hempty]
    rfl
  · rfl

/-- A state without open positions, whose trades add up, has such a report. -/
theorem reported (sqrt : ℚ → ℚ) (hempty : s.positions.items = []) (hledger : Ledger cfg s)
    (hbroke : cfg.initialEquity = 0 → s.trades = []) :
    ∃ report, buildReport cfg s = some report ∧ Reported sqrt cfg s.trades report := by
  have heq : equity s = cfg.initialEquity + (s.trades.map Trade.pnlNet).sum := (equity_of_empty hempty).trans hledger
  unfold buildReport
  generalize s.trades = trades at heq hbroke ⊢
  generalize equity s = final at heq ⊢
  have hlosses := Series.isGreatest_longestStreak (fun t : Trade => t.pnlNet < 0) trades
  rw [← maxConsecutiveLosses_eq sqrt trades cfg.initialEquity] at hlosses
  have hundefined : (computeMetrics sqrt trades cfg.initialEquity).profitFactor = none ↔ ∀ t ∈ trades, 0 ≤ t.pnlNet := by
    rw [profitFactor_eq, ite_eq_right_iff, ← not_iff_not]
    push Not
    rw [← grossLoss_pos_iff]
    exact ⟨fun h => h.1, fun h => ⟨h, Option.some_ne_none _⟩⟩
  have hgained : ∀ pf ∈ (computeMetrics sqrt trades cfg.initialEquity).profitFactor,
      1 < pf ↔ cfg.initialEquity < final := by
    intro pf hpf
    rw [profitFactor_eq] at hpf
    split at hpf
    · rename_i hpos
      cases hpf
      rw [one_lt_profitFactor hpos, heq, lt_add_iff_pos_right]
    · cases hpf
  have hend : ∀ p ∈ (buildEquityCurve trades cfg.initialEquity).getLast?, p.equity = final :=
    fun p hp => (buildEquityCurve_getLast hp).trans heq.symm
  cases trades with
  | nil =>
    refine ⟨_, rfl, heq, hend, ?_, fun hpos => ?_, fun hpos => ?_, rfl, hundefined, hgained, hlosses⟩
    · show final = cfg.initialEquity * (1 + 0)
      rw [heq, List.map_nil, List.sum_nil]
      ring
    · refine ⟨.inl rfl, ?_⟩
      rintro d (rfl | ⟨pre, v, post, peak, hvs, -⟩)
      · exact le_rfl
      · simp [buildEquityCurve] at hvs
    · simp [buildEquityCurve]
  | cons t trades =>
    have hne : cfg.initialEquity ≠ 0 := fun h => List.cons_ne_nil t trades (hbroke h)
    have hcurve := curve_equity t trades cfg.initialEquity
    have hdd : ((t :: trades).foldl drawdownStep (cfg.initialEquity, cfg.initialEquity, 0)).2.2 =
        Series.deepestFall cfg.initialEquity ((curvePoints cfg.initialEquity (t :: trades)).map EquityPoint.equity) := by
      rw [foldl_drawdownStep]
      rfl
    dsimp only
    rw [if_neg (List.length_eq_zero_iff.not.mpr (List.cons_ne_nil t trades)), if_neg hne]
    refine ⟨_, rfl, heq, hend, ?_, fun hpos => ?_, fun hpos => ?_, rfl, hundefined, hgained, hlosses⟩
    · show final = cfg.initialEquity * (1 + (final - cfg.initialEquity) / cfg.initialEquity)
      field_simp
      ring
    · have hdeep := Series.isGreatest_deepestFall hpos
        ((curvePoints cfg.initialEquity (t :: trades)).map EquityPoint.equity)
      dsimp only
      rw [hdd, hcurve]
      refine ⟨.inr hdeep.1, ?_⟩
      rintro d (rfl | hd)
      · exact hdeep.2 (Series.fallsBy_zero ..)
      · exact hdeep.2 hd
    · dsimp only
      rw [hdd, Series.one_le_deepestFall hpos, ← hcurve]
      simp only [List.mem_map, exists_exists_and_eq_and]

/-- **The report of a run** that ends with `finalize` is always there, and its figures are those of the curve and of the
trades. -/
theorem reported_run (sqrt : ℚ → ℚ) (cfg : PositionSimConfig) (windowId foldId : ℤ) (calls : List Action)
    (lastTsMs : ℤ) (lastPrices : String → Option ℚ) :
    ∃ report, buildReport cfg (Runs.run (step cfg) (PositionSim.init cfg windowId foldId)
        (calls ++ [.finalize lastTsMs lastPrices])) = some report ∧
      Reported sqrt cfg (Runs.run (step cfg) (PositionSim.init cfg windowId foldId)
        (calls ++ [.finalize lastTsMs lastPrices])).trades report := by
  refine reported sqrt ?_ (ledger_run ..) fun hzero => ?_
  · rw [Runs.run_append]
    exact finalize_empty cfg lastTsMs lastPrices _
  · have hinit : Broke (PositionSim.init cfg windowId foldId) := ⟨rfl, rfl, hzero⟩
    exact (Runs.invariant hinit (fun _ a h => h.step a) _).trades

/-! ## Metrics in other units -/

variable {u : Units}

/-- An amount keeps its sign. -/
theorem capital_mul_neg_iff (u : Units) (x : ℚ) : u.capital * x < 0 ↔ x < 0 := by
  rw [← not_le, mul_nonneg_iff_of_pos_left u.capital_pos, not_le]

theorem tradeReturns_units (trades : List Trade) : ∀ eq : ℚ,
    tradeReturns (u.capital * eq) (trades.map u.trade) = tradeReturns eq trades := by
  induction trades with
  | nil => exact fun eq => rfl
  | cons t trades ih =>
    intro eq
    have hnet : (u.trade t).pnlNet = u.capital * t.pnlNet := rfl
    rw [List.map_cons, tradeReturns, tradeReturns, hnet, ← mul_add, ih, mul_div_mul_left _ _ u.capital_pos.ne']
    simp only [← not_lt, mul_pos_iff_of_pos_left u.capital_pos]

theorem sharpeAnnualized_units (sqrt : ℚ → ℚ) (trades : List Trade) (initial : ℚ) :
    sharpeAnnualized sqrt (trades.map u.trade) (u.capital * initial) = sharpeAnnualized sqrt trades initial := by
  have hexit : (trades.map u.trade).map Trade.exitTsMs = trades.map Trade.exitTsMs := List.map_map
  have hentry : (trades.map u.trade).map Trade.entryTsMs = trades.map Trade.entryTsMs := List.map_map
  unfold sharpeAnnualized
  rw [tradeReturns_units, hexit, hentry, List.length_map]

theorem grossWin_units (trades : List Trade) : grossWin (trades.map u.trade) = u.capital * grossWin trades := by
  have hkept : ((fun t : Trade => decide (t.pnlNet > 0)) ∘ u.trade) = fun t => decide (t.pnlNet > 0) := by
    funext t
    exact decide_eq_decide.mpr (mul_pos_iff_of_pos_left u.capital_pos)
  unfold grossWin
  rw [List.filter_map, hkept, List.map_map, ← List.sum_map_mul_left]
  rfl

theorem grossLoss_units (trades : List Trade) : grossLoss (trades.map u.trade) = u.capital * grossLoss trades := by
  have hkept : ((fun t : Trade => decide (t.pnlNet < 0)) ∘ u.trade) = fun t => decide (t.pnlNet < 0) := by
    funext t
    exact decide_eq_decide.mpr (capital_mul_neg_iff u t.pnlNet)
  unfold grossLoss
  rw [List.filter_map, hkept, List.map_map, ← List.sum_map_mul_left]
  refine congrArg List.sum (List.map_congr_left fun t _ => ?_)
  exact (mul_neg u.capital t.pnlNet).symm

theorem longestStreak_units (trades : List Trade) :
    Series.longestStreak (fun t : Trade => t.pnlNet < 0) (trades.map u.trade) =
      Series.longestStreak (fun t : Trade => t.pnlNet < 0) trades := by
  unfold Series.longestStreak
  rw [List.foldl_map]
  refine congrArg (fun f => (trades.foldl f (0, 0)).2) (funext fun st => funext fun t => ?_)
  have hneg : (u.trade t).pnlNet < 0 ↔ t.pnlNet < 0 := capital_mul_neg_iff u t.pnlNet
  unfold Series.streakStep
  simp only [hneg]

/-- The metrics are ratios, times and counts. -/
theorem computeMetrics_units (sqrt : ℚ → ℚ) (trades : List Trade) (initial : ℚ) :
    computeMetrics sqrt (trades.map u.trade) (u.capital * initial) = computeMetrics sqrt trades initial := by
  have hr : (trades.map u.trade).map Trade.rMultiple = trades.map Trade.rMultiple := List.map_map
  have hheld : ((trades.map u.trade).map fun t => ((t.exitTsMs - t.entryTsMs : ℤ) : ℚ)) =
      trades.map fun t => ((t.exitTsMs - t.entryTsMs : ℤ) : ℚ) := List.map_map
  unfold computeMetrics
  simp only [sharpeAnnualized_units, longestStreak_units, hr, hheld, List.length_map, grossWin_units, grossLoss_units,
    gt_iff_lt, mul_pos_iff_of_pos_left u.capital_pos, mul_div_mul_left _ _ u.capital_pos.ne']

/-- The loop of the drawdown in the new unit of money. -/
theorem drawdownStep_units (st : ℚ × ℚ × ℚ) (t : Trade) :
    drawdownStep (u.capital * st.1, u.capital * st.2.1, st.2.2) (u.trade t) =
      (u.capital * (drawdownStep st t).1, u.capital * (drawdownStep st t).2.1, (drawdownStep st t).2.2) := by
  have hnet : (u.trade t).pnlNet = u.capital * t.pnlNet := rfl
  have hpeak : (if u.capital * (st.1 + t.pnlNet) > u.capital * st.2.1 then u.capital * (st.1 + t.pnlNet)
      else u.capital * st.2.1) = u.capital * if st.1 + t.pnlNet > st.2.1 then st.1 + t.pnlNet else st.2.1 := by
    rw [mul_ite]
    simp only [gt_iff_lt, mul_lt_mul_iff_right₀ u.capital_pos]
  unfold drawdownStep
  simp only [hnet, ← mul_add, hpeak, gt_iff_lt, mul_pos_iff_of_pos_left u.capital_pos, ← mul_sub,
    mul_div_mul_left _ _ u.capital_pos.ne']

theorem foldl_drawdownStep_units (trades : List Trade) : ∀ st : ℚ × ℚ × ℚ,
    (trades.map u.trade).foldl drawdownStep (u.capital * st.1, u.capital * st.2.1, st.2.2) =
      (u.capital * (trades.foldl drawdownStep st).1, u.capital * (trades.foldl drawdownStep st).2.1,
        (trades.foldl drawdownStep st).2.2) := by
  induction trades with
  | nil => exact fun st => rfl
  | cons t trades ih =>
    intro st
    rw [List.map_cons, List.foldl_cons, drawdownStep_units, List.foldl_cons]
    exact ih (drawdownStep st t)

end PositionSim

/-- The equities of a report are money, its other figures are not. -/
def Units.report (u : Units) (report : PositionSim.BacktestReport) : PositionSim.BacktestReport :=
  { report with
    initialEquity := u.capital * report.initialEquity
    finalEquity := u.capital * report.finalEquity }

namespace PositionSim
variable {u : Units} {cfg : PositionSimConfig} {s : PositionSimulator}

theorem buildReport_units : buildReport (u.config cfg) (u.sim s) = (buildReport cfg s).map u.report := by
  have hconfig : (u.config cfg).initialEquity = u.capital * cfg.initialEquity := rfl
  have htrades : (u.sim s).trades = s.trades.map u.trade := rfl
  have hr : (s.trades.map u.trade).map Trade.rMultiple = s.trades.map Trade.rMultiple := List.map_map
  have hwins : (s.trades.map u.trade).countP (fun t => decide (t.pnlNet > 0)) = s.trades.countP fun t => t.pnlNet > 0 := by
    rw [List.countP_map]
    refine List.countP_congr fun t _ => ?_
    exact decide_eq_decide.mpr (mul_pos_iff_of_pos_left u.capital_pos) ▸ Iff.rfl
  have hloop := foldl_drawdownStep_units (u := u) s.trades (cfg.initialEquity, cfg.initialEquity, 0)
  unfold buildReport
  simp only [hconfig, htrades, hr, hwins, hloop, equity_units, List.length_map, ← mul_sub,
    mul_div_mul_left _ _ u.capital_pos.ne', mul_eq_zero, u.capital_pos.ne', false_or]
  split
  · simp [Units.report]
  · split <;> rfl

end PositionSim

/-! ## Runs in other units -/

namespace MultiSymbolRunner
open PositionSim

/-- The simulator that a run leaves. -/
def finalSim (cfg : PositionSimConfig) (scfg : StrategyConfig) (dcfg : DetectorConfig) (windowId foldId : ℤ) (db : EventDb)
    (symbols : List String) (tsFrom tsTo : ℤ) : Option PositionSimulator :=
  (Runs.runM (onEvent cfg scfg dcfg) (init cfg windowId foldId) (streamMulti db symbols tsFrom tsTo)).map fun r =>
    PositionSim.finalize cfg tsTo (fun _ => none) r.sim

/-- **The figures of a backtest have no unit.** A run over tables in other units has the same metrics, and the same
report up to the equities. -/
theorem metrics_units (u : Units) (sqrt : ℚ → ℚ) (cfg : PositionSimConfig) (scfg : StrategyConfig) (dcfg : DetectorConfig)
    (windowId foldId : ℤ) (db : EventDb) (symbols : List String) (tsFrom tsTo : ℤ) :
    (run (u.config cfg) scfg dcfg windowId foldId (u.db db) symbols tsFrom tsTo).map
        (fun result => computeMetrics sqrt result.trades (u.config cfg).initialEquity) =
      (run cfg scfg dcfg windowId foldId db symbols tsFrom tsTo).map
        (fun result => computeMetrics sqrt result.trades cfg.initialEquity) ∧
    (finalSim (u.config cfg) scfg dcfg windowId foldId (u.db db) symbols tsFrom tsTo).bind (buildReport (u.config cfg)) =
      ((finalSim cfg scfg dcfg windowId foldId db symbols tsFrom tsTo).bind (buildReport cfg)).map u.report := by
  constructor
  · unfold run
    rw [streamMulti_units, runOn_units, Option.map_map]
    refine congrArg (fun f => Option.map f _) (funext fun result => ?_)
    exact computeMetrics_units sqrt result.trades cfg.initialEquity
  · unfold finalSim
    rw [streamMulti_units, runM_units, Option.map_map]
    cases Runs.runM (onEvent cfg scfg dcfg) (init cfg windowId foldId) (streamMulti db symbols tsFrom tsTo) with
    | none => rfl
    | some r =>
      have hfinal : PositionSim.finalize (u.config cfg) tsTo (fun _ => none) (u.runner r).sim =
          u.sim (PositionSim.finalize cfg tsTo (fun _ => none) r.sim) := finalize_units tsTo
      show buildReport (u.config cfg) (PositionSim.finalize (u.config cfg) tsTo (fun _ => none) (u.runner r).sim) = _
      rw [hfinal, buildReport_units]
      rfl

end MultiSymbolRunner

end MikoV2.Backtest
