import MikoV2.Backtest.PositionSim
import MikoV2.Backtest.ReplayTransport

/-!
# `MultiSymbolRunner`

One stream of events of many symbols, one strategy per symbol, one simulator.

* `onOhlcv` : a bar goes to the simulator, then to the strategy, and the entries of the strategy back to the
  simulator; `none` when the detector raises, which ends the run;
* `onEvent`, `runOn`, `run` : one event, a stream, the stream of the tables;
* `runOn_returns` : the run of a stream returns when no bar closes at zero.
-/

namespace MikoV2.Backtest
open PositionSim (PositionSimulator PositionSimConfig Trade)
open Py (Dict)

inductive DropReason
  | cooldown_active
  | per_symbol_max_position
  | global_limit_full
  | sim_rejected_other
deriving DecidableEq, Repr

structure DroppedEntry where
  reason : DropReason
  symbol : String
  tsMs : ℤ
deriving DecidableEq

structure BacktestStats where
  eventsTotal : ℕ := 0
  ohlcvCount : ℕ := 0
  depthCount : ℕ := 0
  tickerCount : ℕ := 0
  callbackErrors : ℕ := 0
  errorsByType : String → ℕ := fun _ => 0

structure MultiSymbolResult where
  stats : BacktestStats
  trades : List Trade
  droppedEntries : List DroppedEntry
  signalCounts : Dict String (SignalKind → ℕ)

/-- A strategy owns the detector of its symbol. -/
structure MultiSymbolRunner where
  sim : PositionSimulator
  strategies : Dict String Strategy := .empty
  dropped : List DroppedEntry := []
  seenOhlcvSecs : Dict String (List ℤ) := .empty
  cooldownState : String → Bool := fun _ => false

/-- `_DROP_HARD_CAP`. -/
def dropHardCap : ℕ := 10000

namespace MultiSymbolRunner

/-- `MultiSymbolRunner(…, window_id=…, fold_id=…)`. -/
def init (cfg : PositionSimConfig) (windowId foldId : ℤ) : MultiSymbolRunner :=
  { sim := PositionSim.init cfg windowId foldId }

def ensureSymbol (symbol : String) (r : MultiSymbolRunner) : MultiSymbolRunner :=
  if symbol ∈ r.strategies.keys then r else { r with strategies := r.strategies.set symbol {} }

def recordDrop (reason : DropReason) (symbol : String) (tsMs : ℤ) (r : MultiSymbolRunner) : MultiSymbolRunner :=
  if r.dropped.length ≥ dropHardCap then r else { r with dropped := r.dropped ++ [⟨reason, symbol, tsMs⟩] }

/-- The drop recorded for an entry that the simulator refused. -/
def dropReason : Option PositionSim.Rejection → DropReason
  | some .per_symbol_max_position => .per_symbol_max_position
  | some .global_limit_full => .global_limit_full
  | none => .sim_rejected_other

section Methods
variable (cfg : PositionSimConfig) (scfg : StrategyConfig) (dcfg : DetectorConfig)

/-- One entry signal is executed. -/
def execute (symbol : String) (tsMs : ℤ) (r : MultiSymbolRunner) (entry : EntrySignal) : MultiSymbolRunner :=
  match PositionSim.onEntry cfg entry symbol r.sim with
  | (true, sim) => { r with sim }
  | (false, sim) => recordDrop (dropReason sim.lastRejectionReason) symbol tsMs { r with sim }

/-- A cooldown is recorded at the start of its episode only. -/
def noteCooldown (ev : OHLCVEvent) (entries : List EntrySignal) (reason : Option StrategyRejection)
    (r : MultiSymbolRunner) : MultiSymbolRunner :=
  let isCooldownBlock := decide (entries = [] ∧ reason = some .cooldown_active)
  let wasCooldownBlock := r.cooldownState ev.symbol
  let r := if isCooldownBlock && !wasCooldownBlock then recordDrop .cooldown_active ev.symbol ev.tsMs r else r
  { r with cooldownState := Function.update r.cooldownState ev.symbol isCooldownBlock }

def onOhlcv (ev : OHLCVEvent) (r : MultiSymbolRunner) : Option MultiSymbolRunner :=
  let r := ensureSymbol ev.symbol r
  let r := { r with
    seenOhlcvSecs := r.seenOhlcvSecs.set ev.symbol ((r.seenOhlcvSecs.get? ev.symbol).getD [] ++ [ev.sec])
    sim := PositionSim.onOhlcv cfg ev r.sim }
  match ((r.strategies.get? ev.symbol).getD {}).onOhlcv scfg dcfg ev with
  | none => none
  | some (entries, strat) =>
    let r := noteCooldown ev entries strat.lastRejectionReason
      { r with strategies := r.strategies.set ev.symbol strat }
    some (entries.foldl (execute cfg ev.symbol ev.tsMs) r)

def onTicker (ev : TickerEvent) (r : MultiSymbolRunner) : MultiSymbolRunner :=
  let r := ensureSymbol ev.symbol r
  { r with sim := PositionSim.onTicker ev r.sim }

/-- The dispatch of `run`. -/
def onEvent (r : MultiSymbolRunner) : AnyEvent → Option MultiSymbolRunner
  | .ohlcv ev => onOhlcv cfg scfg dcfg ev r
  | .depth _ => some r
  | .ticker ev => some (onTicker ev r)

/-- An event is counted. -/
def countEvent (stats : BacktestStats) : AnyEvent → BacktestStats
  | .ohlcv _ => { stats with eventsTotal := stats.eventsTotal + 1, ohlcvCount := stats.ohlcvCount + 1 }
  | .depth _ => { stats with eventsTotal := stats.eventsTotal + 1, depthCount := stats.depthCount + 1 }
  | .ticker _ => { stats with eventsTotal := stats.eventsTotal + 1, tickerCount := stats.tickerCount + 1 }

/-- A flush that raises is counted, and the loop goes on. -/
def countFlush (stats : BacktestStats) (ok : Bool) : BacktestStats :=
  if ok then stats
  else { stats with
    callbackErrors := stats.callbackErrors + 1
    errorsByType := Function.update stats.errorsByType "ZeroDivisionError" (stats.errorsByType "ZeroDivisionError" + 1) }

/-- `run` after its loop: the strategies are flushed, then the simulator is closed out at `tsTo`. -/
def close (tsTo : ℤ) (stats : BacktestStats) (r : MultiSymbolRunner) : MultiSymbolResult :=
  let flushed := r.strategies.items.map fun e => (e.1, e.2.finalize dcfg)
  { stats := (flushed.map fun e => e.2.1).foldl countFlush stats
    trades := (PositionSim.finalize cfg tsTo (fun _ => none) r.sim).trades
    droppedEntries := r.dropped
    signalCounts := r.strategies.mapValues fun st => (st.finalize dcfg).2.signalCounts }

/-- `run` on the events of a stream. -/
def runOn (windowId foldId tsTo : ℤ) (evs : List AnyEvent) : Option MultiSymbolResult :=
  (Runs.runM (onEvent cfg scfg dcfg) (init cfg windowId foldId) evs).map fun r =>
    close cfg dcfg tsTo (evs.foldl countEvent {}) r

def run (windowId foldId : ℤ) (db : EventDb) (symbols : List String) (tsFrom tsTo : ℤ) : Option MultiSymbolResult :=
  runOn cfg scfg dcfg windowId foldId tsTo (streamMulti db symbols tsFrom tsTo)

end Methods

/-! ## One bar -/

section Bar
variable {cfg : PositionSimConfig} {scfg : StrategyConfig} {dcfg : DetectorConfig} {r r' : MultiSymbolRunner}

theorem ensureSymbol_sim (symbol : String) (r : MultiSymbolRunner) : (ensureSymbol symbol r).sim = r.sim := by
  unfold ensureSymbol
  split <;> rfl

theorem ensureSymbol_dropped (symbol : String) (r : MultiSymbolRunner) :
    (ensureSymbol symbol r).dropped = r.dropped := by
  unfold ensureSymbol
  split <;> rfl

theorem get?_ensureSymbol (symbol : String) (r : MultiSymbolRunner) :
    (ensureSymbol symbol r).strategies.get? symbol = some ((r.strategies.get? symbol).getD {}) := by
  unfold ensureSymbol
  split
  · rename_i hmem
    obtain ⟨st, hst⟩ := Dict.mem_keys.mp hmem
    rw [hst]
    rfl
  · rename_i hnew
    rw [Dict.get?_eq_none.mpr hnew]
    exact (Dict.get?_set ..).trans (if_pos rfl)

/-- A bar is processed by the simulator and the symbol's strategy; the entries are executed on the runner `fed`
with both. -/
theorem onOhlcv_cases {ev : OHLCVEvent} (h : onOhlcv cfg scfg dcfg ev r = some r') : ∃ entries strat fed,
    ((r.strategies.get? ev.symbol).getD {}).onOhlcv scfg dcfg ev = some (entries, strat) ∧
      fed.sim = PositionSim.onOhlcv cfg ev r.sim ∧ fed.dropped = r.dropped ∧
      fed.strategies = (ensureSymbol ev.symbol r).strategies.set ev.symbol strat ∧
      r' = entries.foldl (execute cfg ev.symbol ev.tsMs) (noteCooldown ev entries strat.lastRejectionReason fed) := by
  unfold onOhlcv at h
  dsimp only at h
  rw [get?_ensureSymbol, Option.getD_some] at h
  split at h
  · cases h
  · rename_i entries strat hstrat
    cases h
    refine ⟨entries, strat, _, hstrat, ?_, ?_, rfl, rfl⟩
    · exact congrArg (PositionSim.onOhlcv cfg ev) (ensureSymbol_sim ev.symbol r)
    · exact ensureSymbol_dropped ev.symbol r

end Bar

/-! ## Runs that return -/

variable {cfg : PositionSimConfig} {scfg : StrategyConfig} {dcfg : DetectorConfig} {r : MultiSymbolRunner}

/-- No detector has a candle that closed at zero. -/
def AllNonzero (r : MultiSymbolRunner) : Prop :=
  ∀ symbol st, r.strategies.get? symbol = some st → Nonzero st.detector

theorem AllNonzero.ensureSymbol (h : AllNonzero r) (symbol : String) : AllNonzero (ensureSymbol symbol r) := by
  unfold MultiSymbolRunner.ensureSymbol
  split
  · exact h
  · intro k st hst
    have hset : (r.strategies.set symbol {}).get? k = some st := hst
    rw [Dict.get?_set] at hset
    split at hset
    · cases hset
      exact .init
    · exact h k st hset

theorem recordDrop_strategies (reason : DropReason) (symbol : String) (tsMs : ℤ) (r : MultiSymbolRunner) :
    (recordDrop reason symbol tsMs r).strategies = r.strategies := by
  unfold recordDrop
  split <;> rfl

theorem noteCooldown_strategies (ev : OHLCVEvent) (entries : List EntrySignal) (reason : Option StrategyRejection)
    (r : MultiSymbolRunner) : (noteCooldown ev entries reason r).strategies = r.strategies := by
  unfold noteCooldown
  dsimp only
  split
  · exact recordDrop_strategies ..
  · rfl

theorem foldl_execute_strategies (symbol : String) (tsMs : ℤ) (entries : List EntrySignal) :
    ∀ r : MultiSymbolRunner, (entries.foldl (execute cfg symbol tsMs) r).strategies = r.strategies := by
  induction entries with
  | nil => exact fun r => rfl
  | cons entry entries ih =>
    intro r
    rw [List.foldl_cons, ih]
    unfold execute
    split
    · rfl
    · exact recordDrop_strategies ..

theorem onOhlcv_returns {ev : OHLCVEvent} (hev : ev.close ≠ 0) (h : AllNonzero r) :
    ∃ r', onOhlcv cfg scfg dcfg ev r = some r' ∧ AllNonzero r' := by
  have hensured := h.ensureSymbol ev.symbol
  have hdetector : Nonzero (((ensureSymbol ev.symbol r).strategies.get? ev.symbol).getD {}).detector := by
    cases hget : (ensureSymbol ev.symbol r).strategies.get? ev.symbol with
    | none => exact .init
    | some st => exact hensured ev.symbol st hget
  obtain ⟨entries, st', hbar, hst'⟩ := Strategy.onOhlcv_returns scfg dcfg hdetector hev
  unfold onOhlcv
  dsimp only
  rw [hbar]
  refine ⟨_, rfl, fun k st hst => ?_⟩
  rw [foldl_execute_strategies, noteCooldown_strategies] at hst
  have hset : ((ensureSymbol ev.symbol r).strategies.set ev.symbol st').get? k = some st := hst
  rw [Dict.get?_set] at hset
  split at hset
  · cases hset
    exact hst'
  · exact hensured k st hset

/-- The event is not a bar that closes at zero. -/
def NonzeroEvent : AnyEvent → Prop
  | .ohlcv ev => ev.close ≠ 0
  | _ => True

/-- A run returns when no bar closes at zero. -/
theorem runOn_returns (windowId foldId tsTo : ℤ) {evs : List AnyEvent} (h : ∀ ev ∈ evs, NonzeroEvent ev) :
    ∃ result, runOn cfg scfg dcfg windowId foldId tsTo evs = some result := by
  have h0 : AllNonzero (init cfg windowId foldId) := fun symbol st hst => by cases hst
  have hstep : ∀ r a, NonzeroEvent a → AllNonzero r →
      ∃ t, onEvent cfg scfg dcfg r a = some t ∧ AllNonzero t := by
    intro r a ha hr
    cases a with
    | ohlcv ev => exact onOhlcv_returns ha hr
    | depth ev => exact ⟨r, rfl, hr⟩
    | ticker ev => exact ⟨_, rfl, hr.ensureSymbol ev.symbol⟩
  obtain ⟨r, hr, -⟩ := Runs.runM_returns h0 hstep h
  unfold runOn
  rw [hr]
  exact ⟨_, rfl⟩

end MultiSymbolRunner

end MikoV2.Backtest
