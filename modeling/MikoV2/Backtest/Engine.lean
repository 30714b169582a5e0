import MikoV2.Backtest.LookAhead

/-!
# `BacktestEngine`

The engine of one symbol hands the events of a stream to callbacks, and counts what they raise. `_run_once` of the
backtest script drives a strategy and a simulator with it, where `MultiSymbolRunner` has a loop of its own.

* `callAll`, `dispatch`, `engineRun` : the engine, for callbacks on any state;
* `onOhlcvCallback`, `onTickerCallback`, `runOnce` : the callbacks of the script, and its run of a symbol;
* `Alive`, `Alive.run` : while no bar raises, the two are in step;
* `Dead`, `Dead.feed` : after a bar that raises, every later one does; `Stopped.run` : what goes on after it;
* `Trade.retime`, `finalize_retime` : closing out at another time;
* `runOnce_spec` : the two runs agree, but for the time of the last close; where the other raises, this one goes on
  without entries.
-/

namespace MikoV2.Backtest
open PositionSim (PositionSimulator PositionSimConfig Trade)
open Py (Dict)

/-! ## The engine -/

namespace Engine

/-- A callback: the name of the exception that it raises, if it does, and the state after it. -/
abbrev Callback (σ E : Type) := σ → E → Option String × σ

structure BacktestEngine (σ : Type) where
  onOhlcv : List (Callback σ OHLCVEvent) := []
  onDepth : List (Callback σ DepthEvent) := []
  onTicker : List (Callback σ TickerEvent) := []

variable {σ E : Type}

/-- `stats.callback_errors += 1; stats.errors_by_type[…] += 1`. -/
def countError (stats : BacktestStats) : Option String → BacktestStats
  | none => stats
  | some name => { stats with
      callbackErrors := stats.callbackErrors + 1
      errorsByType := Function.update stats.errorsByType name (stats.errorsByType name + 1) }

/-- `for cb in callbacks: try: cb(ev) except …`. -/
def callAll (callbacks : List (Callback σ E)) (ev : E) (stats : BacktestStats) (s : σ) : BacktestStats × σ :=
  callbacks.foldl (fun x cb => (countError x.1 (cb x.2 ev).1, (cb x.2 ev).2)) (stats, s)

def dispatch (engine : BacktestEngine σ) (stats : BacktestStats) (s : σ) : AnyEvent → BacktestStats × σ
  | .ohlcv ev => callAll engine.onOhlcv ev { stats with ohlcvCount := stats.ohlcvCount + 1 } s
  | .depth ev => callAll engine.onDepth ev { stats with depthCount := stats.depthCount + 1 } s
  | .ticker ev => callAll engine.onTicker ev { stats with tickerCount := stats.tickerCount + 1 } s

def step (engine : BacktestEngine σ) (x : BacktestStats × σ) (ev : AnyEvent) : BacktestStats × σ :=
  dispatch engine { x.1 with eventsTotal := x.1.eventsTotal + 1 } x.2 ev

/-- `run` on the events of a stream. -/
def engineRun (engine : BacktestEngine σ) (evs : List AnyEvent) (s : σ) : BacktestStats × σ :=
  Runs.run (step engine) ({}, s) evs

end Engine

/-! ## The run of one symbol -/

section RunOnce
variable (cfg : PositionSimConfig) (scfg : StrategyConfig) (dcfg : DetectorConfig)

/-- `on_ohlcv` of the strategy with what it leaves behind when its detector raises. -/
def Strategy.feed (st : Strategy) (ev : OHLCVEvent) : Option (List EntrySignal) × Strategy :=
  match st.onOhlcv scfg dcfg ev with
  | some (entries, st) => (some entries, st)
  | none => (none, { st with detector := (feedOhlcv1s dcfg st.detector ev).2 })

structure RunState where
  strategy : Strategy := {}
  sim : PositionSimulator
  entryList : List EntrySignal := []
  lastClose : ℚ := 0
  lastTsMs : ℤ

/-- The callback `on_ohlcv` of `_run_once`. -/
def onOhlcvCallback (symbol : String) : Engine.Callback RunState OHLCVEvent := fun s ev =>
  let s := { s with lastClose := ev.close, lastTsMs := ev.tsMs, sim := PositionSim.onOhlcv cfg ev s.sim }
  match s.strategy.feed scfg dcfg ev with
  | (none, strategy) => (some "ZeroDivisionError", { s with strategy })
  | (some entries, strategy) =>
    (none, { s with
      strategy
      entryList := s.entryList ++ entries
      sim := entries.foldl (fun sim entry => (PositionSim.onEntry cfg entry symbol sim).2) s.sim })

def onTickerCallback : Engine.Callback RunState TickerEvent := fun s ev =>
  (none, { s with sim := PositionSim.onTicker ev s.sim })

def scriptEngine (symbol : String) : Engine.BacktestEngine RunState where
  onOhlcv := [onOhlcvCallback cfg scfg dcfg symbol]
  onTicker := [onTickerCallback]

structure RunResult where
  stats : BacktestStats
  entries : List EntrySignal
  signalCounts : SignalKind → ℕ
  sim : PositionSimulator

/-- `_run_once` after its engine has run; `none` when the flush of the strategy raises. -/
def finishOnce (symbol : String) (x : BacktestStats × RunState) : Option RunResult :=
  match x.2.strategy.finalize dcfg with
  | (false, _) => none
  | (true, strategy) => some
    { stats := x.1
      entries := x.2.entryList
      signalCounts := strategy.signalCounts
      sim := PositionSim.finalize cfg x.2.lastTsMs (fun k => if k = symbol then some x.2.lastClose else none) x.2.sim }

/-- `_run_once` over the range that `get_time_range` has found. -/
def runOnce (db : EventDb) (symbol : String) (lo hi : ℤ) : Option RunResult :=
  finishOnce cfg dcfg symbol (Engine.engineRun (scriptEngine cfg scfg dcfg symbol) (stream db lo hi symbol)
    { sim := PositionSim.init cfg 0 0, lastTsMs := lo })

end RunOnce

/-! ## In step -/

section InStep
open MultiSymbolRunner
variable {cfg : PositionSimConfig} {scfg : StrategyConfig} {dcfg : DetectorConfig} {symbol : String}
  {r r' : MultiSymbolRunner} {x : BacktestStats × RunState} {pre post : List AnyEvent} {a : AnyEvent} {e : OHLCVEvent}

/-- The script, where the runner has come as far. -/
structure Alive (symbol : String) (pre : List AnyEvent) (r : MultiSymbolRunner) (x : BacktestStats × RunState) : Prop where
  stats : x.1 = pre.foldl countEvent {}
  sim : x.2.sim = r.sim
  known : ∀ k ∈ r.strategies.keys, k = symbol
  strategy : x.2.strategy = (r.strategies.get? symbol).getD {}
  entries : x.2.entryList = x.2.strategy.entries
  price : r.sim.lastPrice symbol = some x.2.lastClose ∨ r.sim.lastPrice symbol = none ∧ x.2.lastClose = 0

theorem alive_init (cfg : PositionSimConfig) (symbol : String) (lo : ℤ) :
    Alive symbol [] (init cfg 0 0) ({}, { sim := PositionSim.init cfg 0 0, lastTsMs := lo }) :=
  ⟨rfl, rfl, fun _ hk => (nomatch hk), rfl, rfl, .inr ⟨rfl, rfl⟩⟩

theorem known_ensureSymbol (h : ∀ k ∈ r.strategies.keys, k = symbol) :
    ∀ k ∈ (ensureSymbol symbol r).strategies.keys, k = symbol := by
  unfold ensureSymbol
  split
  · exact h
  · intro k hk
    exact (Dict.mem_keys_set.mp hk).elim (h k) id

theorem onOhlcv_lastPrice (cfg : PositionSimConfig) (e : OHLCVEvent) (sim : PositionSimulator) :
    (PositionSim.onOhlcv cfg e sim).lastPrice e.symbol = some e.close := by
  unfold PositionSim.onOhlcv
  exact Function.update_self ..

theorem entries_lastPrice (cfg : PositionSimConfig) (symbol : String) (entries : List EntrySignal) (sim : PositionSimulator) :
    (entries.foldl (fun s entry => (PositionSim.onEntry cfg entry symbol s).2) sim).lastPrice = sim.lastPrice :=
  foldl_onEntry (I := fun s => s.lastPrice = sim.lastPrice)
    (fun s x _ hs => (PositionSim.onEntry_feed cfg x symbol s).lastPrice.trans hs) rfl

/-- **An event that the runner gets through**, the script gets through alike. -/
theorem Alive.event (h : Alive symbol pre r x) (hsym : a.symbol = symbol) (ha : onEvent cfg scfg dcfg r a = some r') :
    Alive symbol (pre ++ [a]) r' (Engine.step (scriptEngine cfg scfg dcfg symbol) x a) := by
  have hstats : (pre ++ [a]).foldl countEvent {} = countEvent x.1 a := by
    rw [List.foldl_append, ← h.stats]
    rfl
  cases a with
  | depth ev =>
    cases ha
    exact ⟨hstats.symm, h.sim, h.known, h.strategy, h.entries, h.price⟩
  | ticker ev =>
    have hsym : ev.symbol = symbol := hsym
    cases ha
    unfold onTicker
    refine ⟨hstats.symm, ?_, hsym ▸ known_ensureSymbol (hsym.symm ▸ h.known), ?_, h.entries, ?_⟩ <;> dsimp only
    · rw [ensureSymbol_sim, ← h.sim]
      rfl
    · rw [hsym, get?_ensureSymbol, Option.getD_some]
      exact h.strategy
    · rw [ensureSymbol_sim]
      exact h.price
  | ohlcv ev =>
    have hsym : ev.symbol = symbol := hsym
    obtain ⟨entries, strat, fed, hstrat, hsim, -, hstrategies, rfl⟩ := onOhlcv_cases ha
    rw [hsym] at hstrat hstrategies ⊢
    have hfeed : x.2.strategy.feed scfg dcfg ev = (some entries, strat) := by
      unfold Strategy.feed
      rw [h.strategy, hstrat]
    have hstep : Engine.step (scriptEngine cfg scfg dcfg symbol) x (.ohlcv ev) = (countEvent x.1 (.ohlcv ev),
        { x.2 with
          lastClose := ev.close
          lastTsMs := ev.tsMs
          strategy := strat
          entryList := x.2.entryList ++ entries
          sim := entries.foldl (fun sim entry => (PositionSim.onEntry cfg entry symbol sim).2)
            (PositionSim.onOhlcv cfg ev x.2.sim) }) := by
      show (Engine.countError _ (onOhlcvCallback cfg scfg dcfg symbol x.2 ev).1, _) = _
      unfold onOhlcvCallback
      dsimp only
      rw [hfeed]
      rfl
    have hentries : strat.entries = x.2.strategy.entries ++ entries := by
      rw [h.strategy]
      exact Strategy.onOhlcv_entries hstrat
    rw [hstep]
    refine ⟨hstats.symm, ?_, ?_, ?_, ?_, .inl ?_⟩
    · rw [foldl_execute_sim, noteCooldown_sim, hsim, h.sim]
    · rw [foldl_execute_strategies, noteCooldown_strategies, hstrategies]
      intro k hk
      exact (Dict.mem_keys_set.mp hk).elim (known_ensureSymbol h.known k) id
    · rw [foldl_execute_strategies, noteCooldown_strategies, hstrategies, Dict.get?_set, if_pos rfl, Option.getD_some]
    · rw [h.entries, hentries]
    · rw [foldl_execute_sim, noteCooldown_sim, hsim, entries_lastPrice]
      exact hsym ▸ onOhlcv_lastPrice cfg ev r.sim

/-! ## After an exception -/

/-- The detector has raised in the bucket `sec` and has kept its candles, but has not gone on to the bucket. -/
structure Dead (dcfg : DetectorConfig) (sec : ℤ) (d : SignalDetector) : Prop where
  active : d.active = none
  raises : detectOnLast dcfg d.candles = none
  behind : ∃ activeSec, d.activeSec = some activeSec ∧ activeSec < sec / dcfg.candleSeconds * dcfg.candleSeconds

theorem dead_of_raise {d : SignalDetector} (h : (feedOhlcv1s dcfg d e).1 = none) :
    Dead dcfg e.sec (feedOhlcv1s dcfg d e).2 := by
  unfold feedOhlcv1s at h ⊢
  dsimp only at h ⊢
  split at h
  · cases h
  · rename_i activeSec hsec
    split at h
    · rename_i hlater
      rw [if_pos hlater]
      split at h
      · rename_i hraise
        refine ⟨?_, hraise, activeSec, ?_, hlater⟩
        · unfold finalizeActive
          split
          · assumption
          · rfl
        · unfold finalizeActive
          split
          · exact hsec
          · exact hsec
      · cases h
    · split at h
      · cases h
      · split at h <;> cases h

/-- **Every later bar raises too**, and changes nothing. -/
theorem Dead.feed {d : SignalDetector} {sec : ℤ} (h : Dead dcfg sec d) (hle : sec ≤ e.sec) :
    feedOhlcv1s dcfg d e = (none, d) := by
  obtain ⟨activeSec, hsec, hlt⟩ := h.behind
  have hmono : sec / dcfg.candleSeconds * dcfg.candleSeconds ≤ e.sec / dcfg.candleSeconds * dcfg.candleSeconds :=
    Int.mul_le_mul_of_nonneg_right (Int.ediv_le_ediv (by exact_mod_cast dcfg.candleSeconds_pos) hle) (Int.natCast_nonneg _)
  have hsame : finalizeActive dcfg d = d := by
    unfold finalizeActive
    rw [h.active]
  unfold feedOhlcv1s
  dsimp only
  rw [hsec]
  dsimp only
  rw [if_pos (lt_of_lt_of_le hlt hmono), hsame, h.raises]

theorem Strategy.feed_eq_none (st : Strategy) (h : st.onOhlcv scfg dcfg e = none) :
    st.feed scfg dcfg e = (none, { st with detector := (feedOhlcv1s dcfg st.detector e).2 }) ∧
      (feedOhlcv1s dcfg st.detector e).1 = none := by
  unfold Strategy.feed
  rw [h]
  refine ⟨rfl, ?_⟩
  unfold Strategy.onOhlcv at h
  cases hout : feedOhlcv1s dcfg st.detector e with
  | mk out d =>
    cases out with
    | none => rfl
    | some signals =>
      rw [hout] at h
      cases h

theorem Strategy.feed_dead {st : Strategy} {sec : ℤ} (h : Dead dcfg sec st.detector) (hle : sec ≤ e.sec) :
    st.feed scfg dcfg e = (none, st) := by
  have hfeed := h.feed hle
  have hnone : st.onOhlcv scfg dcfg e = none := by
    unfold Strategy.onOhlcv
    rw [hfeed]
  rw [(st.feed_eq_none hnone).1, hfeed]

/-- What is left of the script's run after an exception: the simulator goes on without entries. -/
structure Stopped (dcfg : DetectorConfig) (sec : ℤ) (openings : List Opening) (st : Strategy) (errors : ℕ)
    (x : BacktestStats × RunState) : Prop where
  dead : Dead dcfg sec x.2.strategy.detector
  entries : x.2.entryList = st.entries
  signalCounts : x.2.strategy.signalCounts = st.signalCounts
  openings : (PositionSim.openings x.2.sim).Perm openings
  errors : x.1.callbackErrors = errors

/-- A bar that raises. -/
theorem step_raise {strategy : Strategy} (h : x.2.strategy.feed scfg dcfg e = (none, strategy)) :
    Engine.step (scriptEngine cfg scfg dcfg symbol) x (.ohlcv e) =
      (Engine.countError (countEvent x.1 (.ohlcv e)) (some "ZeroDivisionError"),
        { x.2 with
          lastClose := e.close
          lastTsMs := e.tsMs
          strategy
          sim := PositionSim.onOhlcv cfg e x.2.sim }) := by
  show (Engine.countError _ (onOhlcvCallback cfg scfg dcfg symbol x.2 e).1, _) = _
  unfold onOhlcvCallback
  dsimp only
  rw [h]
  rfl

theorem countEvents_errors (evs : List AnyEvent) : (evs.foldl countEvent {}).callbackErrors = 0 := by
  induction evs using List.reverseRecOn with
  | nil => rfl
  | append_singleton evs a ih =>
    rw [List.foldl_append]
    cases a <;> exact ih

/-- The bar at which the runner ends. -/
theorem Alive.stopped (h : Alive symbol pre r x) (hsym : e.symbol = symbol) (ha : onEvent cfg scfg dcfg r (.ohlcv e) = none) :
    Stopped dcfg e.sec (PositionSim.openings r.sim) ((r.strategies.get? symbol).getD {}) 1
      (Engine.step (scriptEngine cfg scfg dcfg symbol) x (.ohlcv e)) := by
  have hnone : ((r.strategies.get? symbol).getD {}).onOhlcv scfg dcfg e = none := by
    have hsome : (onOhlcv cfg scfg dcfg e r).isSome = _ := onOhlcv_isSome cfg e r
    have ha : onOhlcv cfg scfg dcfg e r = none := ha
    rw [ha, hsym] at hsome
    exact Option.not_isSome_iff_eq_none.mp (by rw [← hsome]; exact Bool.false_ne_true)
  obtain ⟨hfeed, hraise⟩ := Strategy.feed_eq_none (r.strategies.get? symbol |>.getD {}) hnone
  rw [← h.strategy] at hfeed hraise
  rw [step_raise hfeed]
  refine ⟨dead_of_raise hraise, ?_, ?_, ?_, ?_⟩ <;> dsimp only
  · rw [h.entries, h.strategy]
  · rw [h.strategy]
  · rw [h.sim]
    exact PositionSim.openings_of_moves (PositionSim.onOhlcv_moves cfg e r.sim)
  · show x.1.callbackErrors + 1 = 1
    rw [h.stats, countEvents_errors]

theorem Stopped.event (cfg : PositionSimConfig) (scfg : StrategyConfig) (symbol : String) {sec : ℤ}
    {openings : List Opening} {st : Strategy} {n : ℕ} (h : Stopped dcfg sec openings st n x)
    (hsec : ∀ ev, a = .ohlcv ev → sec ≤ ev.sec) :
    Stopped dcfg sec openings st (n + (ohlcvs [a]).length) (Engine.step (scriptEngine cfg scfg dcfg symbol) x a) := by
  cases a with
  | depth ev => exact ⟨h.dead, h.entries, h.signalCounts, h.openings, h.errors⟩
  | ticker ev => exact ⟨h.dead, h.entries, h.signalCounts, h.openings, h.errors⟩
  | ohlcv ev =>
    rw [step_raise (Strategy.feed_dead h.dead (hsec ev rfl))]
    refine ⟨h.dead, h.entries, h.signalCounts, ?_, congrArg (· + 1) h.errors⟩
    exact (PositionSim.openings_of_moves (PositionSim.onOhlcv_moves cfg ev x.2.sim)).trans h.openings

theorem Stopped.run (cfg : PositionSimConfig) (scfg : StrategyConfig) (symbol : String) {sec : ℤ} {openings : List Opening}
    {st : Strategy} {evs : List AnyEvent} :
    ∀ {n : ℕ} {x : BacktestStats × RunState}, Stopped dcfg sec openings st n x → (∀ ev, .ohlcv ev ∈ evs → sec ≤ ev.sec) →
      Stopped dcfg sec openings st (n + (ohlcvs evs).length)
        (Runs.run (Engine.step (scriptEngine cfg scfg dcfg symbol)) x evs) := by
  induction evs with
  | nil => exact fun h _ => h
  | cons a evs ih =>
    intro n x h hsec
    have hone := h.event cfg scfg symbol fun ev hev => hsec ev (hev ▸ List.mem_cons_self)
    have hrest := ih hone fun ev hev => hsec ev (List.mem_cons_of_mem a hev)
    have hlen : (ohlcvs (a :: evs)).length = (ohlcvs [a]).length + (ohlcvs evs).length := by
      rw [← List.length_append, ← ohlcvs_append]
      rfl
    rw [hlen, ← Nat.add_assoc]
    exact hrest

theorem Alive.run {evs : List AnyEvent} (hsym : ∀ ev ∈ evs, ev.symbol = symbol)
    (h : Runs.runM (onEvent cfg scfg dcfg) (init cfg 0 0) evs = some r) (lo : ℤ) :
    Alive symbol evs r (Engine.engineRun (scriptEngine cfg scfg dcfg symbol) evs
      { sim := PositionSim.init cfg 0 0, lastTsMs := lo }) := by
  refine Runs.runM_history (J := fun pre r => pre <+: evs → Alive symbol pre r (Engine.engineRun
    (scriptEngine cfg scfg dcfg symbol) pre { sim := PositionSim.init cfg 0 0, lastTsMs := lo }))
    (fun _ => alive_init cfg symbol lo) (fun pre a m t hm ha hpre => ?_) evs r h (List.prefix_refl evs)
  have hmem : a ∈ evs := hpre.subset (List.mem_append_right _ (List.mem_singleton_self a))
  unfold Engine.engineRun
  rw [Runs.run_append]
  exact (hm ((List.prefix_append pre [a]).trans hpre)).event (hsym a hmem) ha

end InStep

/-! ## Closing out at another time -/

namespace PositionSim

/-- A close at the end of a run, at another time. -/
def Trade.retime (tsMs : ℤ) (t : Trade) : Trade :=
  if t.exitReason = .END_OF_BACKTEST then { t with exitTsMs := tsMs } else t

variable {cfg : PositionSimConfig} {s s' : PositionSimulator} {tsMs : ℤ}

/-- But for the time of the last closes, the same. -/
structure Retimed (tsMs : ℤ) (s s' : PositionSimulator) : Prop where
  trades : s'.trades = s.trades.map (Trade.retime tsMs)
  positions : s'.positions = s.positions
  lastPrice : s'.lastPrice = s.lastPrice
  labels : s'.windowId = s.windowId ∧ s'.foldId = s.foldId

/-- The price at which `finalize` closes a symbol, if it knows one. -/
def closeOutPrice (lastPrice prices : String → Option ℚ) (symbol : String) : Option ℚ :=
  match prices symbol with
  | some px => if px ≤ 0 then lastPrice symbol else some px
  | none => lastPrice symbol

theorem finalizePosition_eq (cfg : PositionSimConfig) (tsTo : ℤ) (prices : String → Option ℚ) (s : PositionSimulator)
    (symbol : String) : finalizePosition cfg tsTo prices s symbol =
      match s.positions.get? symbol with
      | none => s
      | some pos => closePosition cfg symbol tsTo ((closeOutPrice s.lastPrice prices symbol).getD pos.entryPrice)
          .END_OF_BACKTEST s := by
  unfold finalizePosition closeOutPrice
  cases s.positions.get? symbol <;> rfl

theorem Retimed.finalizePosition (cfg : PositionSimConfig) (h : Retimed tsMs s s') (tsTo : ℤ)
    {prices prices' : String → Option ℚ} (hprice : closeOutPrice s.lastPrice prices' = closeOutPrice s.lastPrice prices)
    (symbol : String) :
    Retimed tsMs (finalizePosition cfg tsTo prices s symbol) (finalizePosition cfg tsMs prices' s' symbol) ∧
      (finalizePosition cfg tsTo prices s symbol).lastPrice = s.lastPrice := by
  rw [finalizePosition_eq, finalizePosition_eq, h.positions, h.lastPrice, hprice]
  cases hget : s.positions.get? symbol with
  | none => exact ⟨h, rfl⟩
  | some pos =>
    dsimp only
    rw [closePosition_of_some hget, closePosition_of_some (h.positions ▸ hget)]
    refine ⟨⟨?_, congrArg (·.erase symbol) h.positions, h.lastPrice, h.labels⟩, rfl⟩
    show s'.trades ++ _ = (s.trades ++ _).map _
    rw [h.trades, List.map_append, List.map_singleton]
    refine congrArg (fun t => _ ++ [t]) ?_
    unfold tradeOf
    rw [h.labels.1, h.labels.2]
    rfl

theorem Retimed.closeAll (tsTo : ℤ) {prices prices' : String → Option ℚ} (l : List String) :
    ∀ {s s' : PositionSimulator}, Retimed tsMs s s' → closeOutPrice s.lastPrice prices' = closeOutPrice s.lastPrice prices →
      Retimed tsMs (l.foldl (PositionSim.finalizePosition cfg tsTo prices) s)
        (l.foldl (PositionSim.finalizePosition cfg tsMs prices') s') := by
  induction l with
  | nil => exact fun h _ => h
  | cons k l ih =>
    intro s s' h hprice
    obtain ⟨hone, hsame⟩ := h.finalizePosition cfg tsTo hprice k
    exact ih hone (hsame ▸ hprice)

/-- A trade with another exit than the end of the run. -/
theorem Trade.retime_of_exit {t : Trade} (h : t.exitReason ≠ .END_OF_BACKTEST) (tsMs : ℤ) : t.retime tsMs = t := if_neg h

/-- **Closing out** at another time, with the last prices in hand. -/
theorem finalize_retime (cfg : PositionSimConfig) (tsTo tsMs : ℤ) {prices : String → Option ℚ} {s : PositionSimulator}
    (hexits : ∀ t ∈ s.trades, t.exitReason ≠ .END_OF_BACKTEST) (hprice : closeOutPrice s.lastPrice prices = s.lastPrice) :
    (finalize cfg tsMs prices s).trades = (finalize cfg tsTo (fun _ => none) s).trades.map (Trade.retime tsMs) := by
  have hflush : ∀ (l : List String) (s : PositionSimulator), (∀ t ∈ s.trades, t.exitReason ≠ .END_OF_BACKTEST) →
      (∀ t ∈ (l.foldl (fun s k => finalizeActive cfg k s) s).trades, t.exitReason ≠ .END_OF_BACKTEST) ∧
        (l.foldl (fun s k => finalizeActive cfg k s) s).lastPrice = s.lastPrice := by
    intro l
    induction l with
    | nil => exact fun s hs => ⟨hs, rfl⟩
    | cons k l ih =>
      intro s hs
      rw [List.foldl_cons]
      cases hact : s.active.get? k with
      | none =>
        rw [finalizeActive_of_none hact]
        exact ih s hs
      | some c =>
        obtain ⟨added, hadded, hcandle⟩ := (finalizeActive_check cfg hact).added
        have hfeed : (finalizeActive cfg k s).lastPrice = s.lastPrice := by
          unfold finalizeActive
          rw [hact]
          exact (checkExitsOnCandle_feed ..).lastPrice
        rw [← hfeed]
        refine ih _ ?_
        rw [hadded]
        exact List.forall_mem_append.mpr ⟨hs, fun t ht => (hcandle t ht).2.2⟩
  obtain ⟨hexits, hlast⟩ := hflush s.active.keys s hexits
  unfold finalize
  dsimp only
  generalize s.active.keys.foldl (fun s k => finalizeActive cfg k s) s = flushed at hexits hlast ⊢
  have hsame : Retimed tsMs flushed flushed := by
    refine ⟨?_, rfl, rfl, rfl, rfl⟩
    exact (List.map_id flushed.trades).symm.trans
      (List.map_congr_left fun t ht => (Trade.retime_of_exit (hexits t ht) tsMs).symm)
  exact (hsame.closeAll tsTo _ (by rw [hlast, hprice]; rfl)).trades

end PositionSim

/-! ## The two runs -/

section Agreement
open MultiSymbolRunner PositionSim
variable {cfg : PositionSimConfig} {scfg : StrategyConfig} {dcfg : DetectorConfig} {symbol : String} {db : EventDb}
  {lo hi : ℤ}

theorem streamMulti_singleton (db : EventDb) (symbol : String) (lo hi : ℤ) :
    streamMulti db [symbol] lo hi = stream db lo hi symbol := by
  have hsorted : sortedSymbols [symbol] = [symbol] := by simp [sortedSymbols]
  unfold streamMulti stream
  rw [hsorted]
  rfl

theorem stream_symbol {ev : AnyEvent} (h : ev ∈ stream db lo hi symbol) : ev.symbol = symbol := by
  unfold stream at h
  obtain ⟨g, hg, hev⟩ := mem_heapqMerge.mp h
  simp only [List.mem_cons, List.not_mem_nil, or_false] at hg
  rcases hg with rfl | rfl | rfl
  · exact (ohlcvGen_symbol db lo hi ev hev).1
  · exact (depthGen_symbol db lo hi ev hev).1
  · exact (tickerGen_symbol db lo hi ev hev).1

/-- The time of the last bar. -/
def lastBarMs (lo : ℤ) (evs : List AnyEvent) : ℤ := ((ohlcvs evs).getLast?.map OHLCVEvent.tsMs).getD lo

/-- The script has made the run of the runner, and has closed out at the time of the last bar. -/
structure Agrees (symbol : String) (lastMs : ℤ) (once : RunResult) (result : MultiSymbolResult) : Prop where
  stats : once.stats = result.stats
  trades : once.sim.trades = result.trades.map (Trade.retime lastMs)
  signalCounts : once.signalCounts = (result.signalCounts.get? symbol).getD fun _ => 0

/-- The script has gone on after a bar at which the runner ended: that bar and every later one has raised, and nothing is
entered after the bars before it. -/
def GoesOn (cfg : PositionSimConfig) (scfg : StrategyConfig) (dcfg : DetectorConfig) (symbol : String)
    (evs : List AnyEvent) (once : RunResult) : Prop :=
  ∃ pre e post r, evs = pre ++ .ohlcv e :: post ∧ Runs.runM (onEvent cfg scfg dcfg) (init cfg 0 0) pre = some r ∧
    onEvent cfg scfg dcfg r (.ohlcv e) = none ∧ once.stats.callbackErrors = 1 + (ohlcvs post).length ∧
    once.entries = ((r.strategies.get? symbol).getD {}).entries ∧
    once.signalCounts = ((r.strategies.get? symbol).getD {}).signalCounts ∧
    (once.sim.trades.map Trade.opening).Perm (openings r.sim)

/-- The last bar that the script has seen. -/
theorem engineRun_lastTsMs (evs : List AnyEvent) : (Engine.engineRun (scriptEngine cfg scfg dcfg symbol) evs
    { sim := PositionSim.init cfg 0 0, lastTsMs := lo }).2.lastTsMs = lastBarMs lo evs := by
  induction evs using List.reverseRecOn with
  | nil => rfl
  | append_singleton evs a ih =>
    unfold Engine.engineRun at ih ⊢
    unfold lastBarMs at ih ⊢
    rw [Runs.run_append, ohlcvs_append]
    cases a with
    | depth ev =>
      rw [show ohlcvs [.depth ev] = [] from rfl, List.append_nil]
      exact ih
    | ticker ev =>
      rw [show ohlcvs [.ticker ev] = [] from rfl, List.append_nil]
      exact ih
    | ohlcv ev =>
      rw [show ohlcvs [.ohlcv ev] = [ev] from rfl, List.getLast?_append]
      show (onOhlcvCallback cfg scfg dcfg symbol _ ev).2.lastTsMs = _
      unfold onOhlcvCallback
      dsimp only
      split <;> rfl

/-- The last close is the last price of the simulator, where it knows one. -/
theorem Alive.closeOutPrice_eq {pre : List AnyEvent} {r : MultiSymbolRunner} {x : BacktestStats × RunState}
    (h : Alive symbol pre r x) :
    closeOutPrice r.sim.lastPrice (fun k => if k = symbol then some x.2.lastClose else none) = r.sim.lastPrice := by
  funext k
  unfold closeOutPrice
  by_cases hk : k = symbol
  · subst hk
    dsimp only
    rw [if_pos rfl]
    dsimp only
    rcases h.price with hlast | ⟨hlast, hzero⟩
    · rw [hlast]
      split <;> rfl
    · rw [hzero, if_pos le_rfl]
  · dsimp only
    rw [if_neg hk]

/-- A dict with no other key. -/
theorem items_of_known {V : Type} {d : Dict String V} (h : ∀ k ∈ d.keys, k = symbol) :
    d.items = (d.get? symbol).toList.map fun v => (symbol, v) := by
  have hpair : ∀ e ∈ d.items, d.get? symbol = some e.2 ∧ e = (symbol, e.2) := by
    intro e he
    have hk : e.1 = symbol := h e.1 (List.mem_map_of_mem he)
    refine ⟨Dict.mem_items.mp (hk ▸ he), Prod.ext hk rfl⟩
  cases hitems : d.items with
  | nil =>
    have hnone : d.get? symbol = none := Dict.get?_eq_none.mpr fun hmem => by
      unfold Dict.keys at hmem
      rw [hitems] at hmem
      cases hmem
    rw [hnone]
    rfl
  | cons e rest =>
    obtain ⟨hget, he⟩ := hpair e (hitems ▸ List.mem_cons_self)
    have hrest : rest = [] := by
      cases rest with
      | nil => rfl
      | cons e' rest =>
        obtain ⟨-, he'⟩ := hpair e' (hitems ▸ List.mem_cons_of_mem e List.mem_cons_self)
        have hnodup := d.nodup_keys
        unfold Dict.keys at hnodup
        rw [hitems, he, he'] at hnodup
        simp at hnodup
    rw [hget, hrest, he]
    rfl

/-- The flushes of the strategies, where there is no other than that of the symbol. -/
theorem close_stats (cfg : PositionSimConfig) (dcfg : DetectorConfig) {r : MultiSymbolRunner}
    (h : ∀ k ∈ r.strategies.keys, k = symbol) (hi : ℤ) (stats : BacktestStats) :
    (close cfg dcfg hi stats r).stats = countFlush stats (((r.strategies.get? symbol).getD {}).finalize dcfg).1 := by
  unfold close
  dsimp only
  rw [items_of_known h]
  cases r.strategies.get? symbol <;> rfl

theorem close_signalCounts (cfg : PositionSimConfig) (dcfg : DetectorConfig) (symbol : String) (hi : ℤ)
    (stats : BacktestStats) (r : MultiSymbolRunner) :
    ((close cfg dcfg hi stats r).signalCounts.get? symbol).getD (fun _ => 0) =
      (((r.strategies.get? symbol).getD {}).finalize dcfg).2.signalCounts := by
  show ((r.strategies.mapValues _).get? symbol).getD _ = _
  rw [Dict.get?_mapValues]
  cases r.strategies.get? symbol <;> rfl

/-- Where the runner returns. -/
theorem Alive.agrees {evs : List AnyEvent} {r : MultiSymbolRunner} {x : BacktestStats × RunState} (h : Alive symbol evs r x)
    (hexits : ∀ t ∈ r.sim.trades, t.exitReason ≠ .END_OF_BACKTEST) (hlast : x.2.lastTsMs = lastBarMs lo evs) (hi : ℤ) :
    (finishOnce cfg dcfg symbol x = none ∧ (close cfg dcfg hi (evs.foldl countEvent {}) r).stats.callbackErrors = 1) ∨
      ∃ once, finishOnce cfg dcfg symbol x = some once ∧
        Agrees symbol (lastBarMs lo evs) once (close cfg dcfg hi (evs.foldl countEvent {}) r) := by
  have hstats := close_stats cfg dcfg h.known hi (evs.foldl countEvent {})
  have hcounts := close_signalCounts cfg dcfg symbol hi (evs.foldl countEvent {}) r
  unfold finishOnce
  rw [← h.strategy] at hstats hcounts
  rcases hflush : x.2.strategy.finalize dcfg with ⟨ok, strategy⟩
  rw [hflush] at hstats hcounts
  cases ok with
  | false =>
    refine .inl ⟨rfl, ?_⟩
    rw [hstats]
    show (evs.foldl countEvent {}).callbackErrors + 1 = 1
    rw [countEvents_errors]
  | true =>
    refine .inr ⟨_, rfl, ?_, ?_, hcounts.symm⟩
    · rw [hstats]
      exact h.stats
    · dsimp only
      rw [hlast, h.sim]
      exact finalize_retime cfg hi _ hexits h.closeOutPrice_eq

/-- Where the runner ended. -/
theorem Stopped.finish (cfg : PositionSimConfig) (symbol : String) {sec : ℤ} {opened : List Opening} {st : Strategy}
    {n : ℕ} {x : BacktestStats × RunState} (h : Stopped dcfg sec opened st n x) :
    ∃ once, finishOnce cfg dcfg symbol x = some once ∧
      once.stats.callbackErrors = n ∧ once.entries = st.entries ∧ once.signalCounts = st.signalCounts ∧
      (once.sim.trades.map Trade.opening).Perm opened := by
  have hflush : x.2.strategy.finalize dcfg = (true, x.2.strategy) := by
    unfold Strategy.finalize flush
    rw [h.dead.active]
    rfl
  unfold finishOnce
  rw [hflush]
  exact ⟨_, rfl, h.errors, h.entries, h.signalCounts, (finalize_openings ..).trans h.openings⟩

/-- **`_run_once` and the runner.** Where the runner returns, the script has the same counts and trades, but for the time
of the last close, or ends at the flush that the runner counts. Where the runner raises, the script goes on. -/
theorem runOnce_spec (cfg : PositionSimConfig) (scfg : StrategyConfig) (dcfg : DetectorConfig) (db : EventDb)
    (symbol : String) (lo hi : ℤ) :
    (∃ result, run cfg scfg dcfg 0 0 db [symbol] lo hi = some result ∧
      ((runOnce cfg scfg dcfg db symbol lo hi = none ∧ result.stats.callbackErrors = 1) ∨
        ∃ once, runOnce cfg scfg dcfg db symbol lo hi = some once ∧
          Agrees symbol (lastBarMs lo (stream db lo hi symbol)) once result)) ∨
      (run cfg scfg dcfg 0 0 db [symbol] lo hi = none ∧ ∃ once, runOnce cfg scfg dcfg db symbol lo hi = some once ∧
        GoesOn cfg scfg dcfg symbol (stream db lo hi symbol) once) := by
  have hsym : ∀ ev ∈ stream db lo hi symbol, ev.symbol = symbol := fun ev hev => stream_symbol hev
  have hreplay := streamMulti_replay db [symbol] lo hi
  unfold run runOn
  rw [streamMulti_singleton] at hreplay ⊢
  unfold runOnce
  generalize stream db lo hi symbol = evs at hsym hreplay ⊢
  cases hrun : Runs.runM (onEvent cfg scfg dcfg) (init cfg 0 0) evs with
  | some r =>
    refine .inl ⟨_, rfl, (Alive.run hsym hrun lo).agrees (fun t ht => ?_) (engineRun_lastTsMs evs) hi⟩
    exact ((upTo_run hreplay.stamped (fun ev hev => (hreplay.inside ev hev).2) hrun).trades t ht).1
  | none =>
    refine .inr ⟨rfl, ?_⟩
    obtain ⟨pre, a, post, r, rfl, hr, ha⟩ := Runs.runM_eq_none.mp hrun
    have hmem : a ∈ pre ++ a :: post := List.mem_append_right _ List.mem_cons_self
    have halive := Alive.run (fun ev hev => hsym ev (List.mem_append_left _ hev)) hr lo
    cases a with
    | depth ev => cases ha
    | ticker ev => cases ha
    | ohlcv e =>
      have hlater : ∀ ev, .ohlcv ev ∈ post → e.sec ≤ ev.sec := fun ev hev => by
        have hle : e.tsMs ≤ ev.tsMs :=
          (List.pairwise_cons.mp (List.pairwise_append.mp hreplay.sorted).2.1).1 _ hev
        have hstamp : e.tsMs = e.sec * 1000 := hreplay.stamped _ hmem
        have hstamp' : ev.tsMs = ev.sec * 1000 :=
          hreplay.stamped (.ohlcv ev) (List.mem_append_right _ (List.mem_cons_of_mem _ hev))
        omega
      have hstopped := (halive.stopped (hsym _ hmem) ha).run cfg scfg symbol hlater
      obtain ⟨once, honce, hrest⟩ := hstopped.finish cfg symbol
      refine ⟨once, ?_, pre, e, post, r, rfl, hr, ha, hrest⟩
      unfold Engine.engineRun at honce ⊢
      rw [Runs.run_append, Runs.run_cons]
      exact honce

end Agreement

end MikoV2.Backtest
