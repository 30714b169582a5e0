import MikoV2.Backtest.ExitOrder
import MikoV2.Backtest.FirstTouch

/-!
# The exits of a multi-symbol run

* `onEvent_sim` : what an event does to the simulator;
* `Followed`, `followed_run` : before its entry, the candles and the past of a symbol;
* `Tracked`, `tracked_run` : after its entry, the position is held or closed by its first touch;
* `firstTouch` : the one trade of every position that a run opens;
* `calls_run` : the simulator of a run receives timed calls, with the bars and tickers of the stream.
-/

namespace MikoV2.Backtest.MultiSymbolRunner
open PositionSim
open Py (Dict)

variable {cfg : PositionSimConfig} {scfg : StrategyConfig} {dcfg : DetectorConfig} {r r' : MultiSymbolRunner}
  {s : PositionSimulator} {k : String} {pos : Position} {e : OHLCVEvent} {pre post : List AnyEvent}

/-- The bars of a stream. -/
def ohlcvs (evs : List AnyEvent) : List OHLCVEvent :=
  evs.filterMap fun
    | .ohlcv ev => some ev
    | _ => none

theorem ohlcvs_append (evs evs' : List AnyEvent) : ohlcvs (evs ++ evs') = ohlcvs evs ++ ohlcvs evs' :=
  List.filterMap_append

/-! ## One event -/

theorem recordDrop_sim (reason : DropReason) (symbol : String) (tsMs : ℤ) (r : MultiSymbolRunner) :
    (recordDrop reason symbol tsMs r).sim = r.sim := by
  unfold recordDrop
  split <;> rfl

theorem noteCooldown_sim (ev : OHLCVEvent) (entries : List EntrySignal) (reason : Option StrategyRejection)
    (r : MultiSymbolRunner) : (noteCooldown ev entries reason r).sim = r.sim := by
  unfold noteCooldown
  dsimp only
  split
  · exact recordDrop_sim ..
  · rfl

theorem execute_sim (symbol : String) (tsMs : ℤ) (r : MultiSymbolRunner) (entry : EntrySignal) :
    (execute cfg symbol tsMs r entry).sim = (onEntry cfg entry symbol r.sim).2 := by
  unfold execute
  split
  · rename_i sim h
    rw [h]
  · rename_i sim h
    rw [recordDrop_sim, h]

theorem foldl_execute_sim (symbol : String) (tsMs : ℤ) (entries : List EntrySignal) : ∀ r : MultiSymbolRunner,
    (entries.foldl (execute cfg symbol tsMs) r).sim =
      entries.foldl (fun s entry => (onEntry cfg entry symbol s).2) r.sim := by
  induction entries with
  | nil => exact fun r => rfl
  | cons entry entries ih =>
    intro r
    rw [List.foldl_cons, ih, execute_sim, List.foldl_cons]

/-- A bar is processed by the simulator, then come the entries of its strategy, stamped by the bar. -/
theorem onOhlcv_sim (h : onOhlcv cfg scfg dcfg e r = some r') : ∃ entries : List EntrySignal,
    (∀ x ∈ entries, x.tsMs = e.tsMs) ∧
      r'.sim = entries.foldl (fun s entry => (onEntry cfg entry e.symbol s).2) (PositionSim.onOhlcv cfg e r.sim) := by
  obtain ⟨entries, strat, fed, hstrat, hsim, -, -, rfl⟩ := onOhlcv_cases h
  refine ⟨entries, fun x hx => (Strategy.onOhlcv_stamp hstrat x hx).1, ?_⟩
  rw [foldl_execute_sim, noteCooldown_sim, hsim]

/-- What every entry keeps, the entries of a bar keep. -/
theorem foldl_onEntry {I : PositionSimulator → Prop} {symbol : String} {entries : List EntrySignal}
    (hI : ∀ s, ∀ x ∈ entries, I s → I (onEntry cfg x symbol s).2) (h : I s) :
    I (entries.foldl (fun s entry => (onEntry cfg entry symbol s).2) s) := by
  induction entries generalizing s with
  | nil => exact h
  | cons entry entries ih =>
    exact ih (fun s x hx => hI s x (List.mem_cons_of_mem entry hx)) (hI s entry List.mem_cons_self h)

/-! ## The bars of one symbol -/

theorem bucketSec_mono {a b : ℤ} (h : a ≤ b) : bucketSec a ≤ bucketSec b := by
  unfold bucketSec candleSec
  omega

/-- A bar's stamp is in its bucket. -/
theorem bucketSec_stamp (h : AnyEvent.Stamped (.ohlcv e)) : bucketSec (e.tsMs / 1000) = barBucket e := by
  have hts : e.tsMs = e.sec * 1000 := h
  rw [hts, Int.mul_ediv_cancel _ (by decide)]
  rfl

/-- In a replay the buckets of a symbol do not decrease. -/
theorem bars_sorted {tsFrom tsTo : ℤ} {evs : List AnyEvent} (h : Replay tsFrom tsTo evs) (k : String) :
    (barsOf k (ohlcvs evs)).Pairwise fun a b => barBucket a ≤ barBucket b := by
  refine List.Pairwise.filter _ ?_
  unfold ohlcvs
  rw [List.pairwise_filterMap]
  refine h.sorted.imp_of_mem fun {a b} ha hb hle x hx y hy => ?_
  have hxa : a = .ohlcv x := by
    cases a <;> cases hx
    rfl
  have hyb : b = .ohlcv y := by
    cases b <;> cases hy
    rfl
  subst hxa hyb
  have hsx : x.tsMs = x.sec * 1000 := h.stamped _ ha
  have hsy : y.tsMs = y.sec * 1000 := h.stamped _ hb
  have hts : x.tsMs ≤ y.tsMs := hle
  exact bucketSec_mono (by omega)

theorem barsOf_append_own (hk : e.symbol = k) (evs : List AnyEvent) :
    barsOf k (ohlcvs (evs ++ [.ohlcv e])) = barsOf k (ohlcvs evs) ++ [e] := by
  rw [ohlcvs_append]
  show barsOf k (ohlcvs evs ++ [e]) = _
  rw [barsOf_append, if_pos hk]

theorem barsOf_append_other (hk : e.symbol ≠ k) (evs : List AnyEvent) :
    barsOf k (ohlcvs (evs ++ [.ohlcv e])) = barsOf k (ohlcvs evs) := by
  rw [ohlcvs_append]
  show barsOf k (ohlcvs evs ++ [e]) = _
  rw [barsOf_append, if_neg hk]

/-- The simulator has the candles and the last price of the symbol's bars. -/
structure Followed (cfg : PositionSimConfig) (k : String) (evs : List AnyEvent) (s : PositionSimulator) : Prop where
  built : Built (candleCap cfg) (builder (barsOf k (ohlcvs evs))) k s
  lastPrice : s.lastPrice k = (barsOf k (ohlcvs evs)).getLast?.map OHLCVEvent.close

theorem Followed.init (cfg : PositionSimConfig) (windowId foldId : ℤ) (k : String) :
    Followed cfg k [] (PositionSim.init cfg windowId foldId) := ⟨.init cfg windowId foldId k, rfl⟩

theorem Followed.frame {evs : List AnyEvent} {s' : PositionSimulator} (h : Followed cfg k evs s)
    (hf : SameFeed s s') : Followed cfg k evs s' :=
  ⟨h.built.congr (congrArg (fun d => d.get? k) hf.active) (congrFun hf.candles k),
    (congrFun hf.lastPrice k).trans h.lastPrice⟩

theorem Followed.entries {evs : List AnyEvent} {symbol : String} (h : Followed cfg k evs s)
    (entries : List EntrySignal) :
    Followed cfg k evs (entries.foldl (fun s entry => (onEntry cfg entry symbol s).2) s) :=
  foldl_onEntry (fun s x _ hs => hs.frame (onEntry_feed cfg x symbol s)) h

theorem Followed.bar {evs : List AnyEvent} (h : Followed cfg k evs s) (e : OHLCVEvent) :
    Followed cfg k (evs ++ [.ohlcv e]) (PositionSim.onOhlcv cfg e s) := by
  have hbuilt := h.built.onOhlcv e
  by_cases hk : e.symbol = k
  · rw [if_pos hk] at hbuilt
    refine ⟨by rw [barsOf_append_own hk]; exact hbuilt, ?_⟩
    rw [barsOf_append_own hk, List.getLast?_append]
    subst hk
    exact Function.update_self ..
  · rw [if_neg hk] at hbuilt
    refine ⟨by rw [barsOf_append_other hk]; exact hbuilt, ?_⟩
    rw [barsOf_append_other hk, ← h.lastPrice]
    exact (onOhlcv_other (Ne.symm hk) s).lastPrice

theorem Followed.event {evs : List AnyEvent} {a : AnyEvent} (h : Followed cfg k evs r.sim)
    (ha : onEvent cfg scfg dcfg r a = some r') : Followed cfg k (evs ++ [a]) r'.sim := by
  have hskip : (∀ ev, a ≠ .ohlcv ev) → Followed cfg k (evs ++ [a]) r.sim := by
    intro hne
    have hbars : ohlcvs (evs ++ [a]) = ohlcvs evs := by
      rw [ohlcvs_append]
      cases a with
      | ohlcv ev => exact absurd rfl (hne ev)
      | depth ev => exact List.append_nil _
      | ticker ev => exact List.append_nil _
    exact ⟨by rw [hbars]; exact h.built, by rw [hbars]; exact h.lastPrice⟩
  cases a with
  | ohlcv ev =>
    obtain ⟨entries, -, hsim⟩ := onOhlcv_sim ha
    rw [hsim]
    exact (h.bar ev).entries entries
  | depth ev =>
    cases ha
    exact hskip fun ev => AnyEvent.noConfusion
  | ticker ev =>
    cases ha
    refine (hskip fun ev => AnyEvent.noConfusion).frame ?_
    show SameFeed r.sim (PositionSim.onTicker ev (ensureSymbol ev.symbol r).sim)
    rw [ensureSymbol_sim]
    exact ⟨rfl, rfl, rfl, rfl, rfl⟩

/-- A bar of the symbol, in order: it is in the open bucket, or that bucket's candle is checked. -/
theorem own_bar {bars : List OHLCVEvent} {c : PositionSim.Candle5s} (hk : e.symbol = k)
    (hbuilt : Built (candleCap cfg) (builder bars) k s)
    (hsorted : (bars ++ [e]).Pairwise fun a b => barBucket a ≤ barBucket b) (hact : s.active.get? k = some c) :
    c.sec = barBucket e ∧ Paid k s (PositionSim.onOhlcv cfg e s) ∨
      c.sec < barBucket e ∧ CandleCheck cfg k c s (PositionSim.onOhlcv cfg e s) := by
  subst hk
  obtain ⟨y, hy, hyc⟩ := active_of_bar (hbuilt.active.symm.trans hact)
  have hle : c.sec ≤ barBucket e := by
    rw [← hyc]
    exact (List.pairwise_append.mp hsorted).2.2 y hy e (List.mem_singleton_self e)
  rcases lt_or_eq_of_le hle with hlt | heq
  · exact Or.inr ⟨hlt, onOhlcv_later hact hlt⟩
  · refine Or.inl ⟨heq, onOhlcv_paid fun a ha => ?_⟩
    rw [hact] at ha
    cases ha
    exact heq.ge

/-- The open candle after a bar of the symbol. -/
theorem own_active {evs : List AnyEvent} {tsFrom tsTo : ℤ} (hk : e.symbol = k)
    (hreplay : Replay tsFrom tsTo (evs ++ [.ohlcv e])) (h : Followed cfg k (evs ++ [.ohlcv e]) s) :
    ∃ c, s.active.get? k = some c ∧ c.sec = barBucket e := by
  have hsorted := bars_sorted hreplay k
  have hbuilt := h.built
  rw [barsOf_append_own hk] at hsorted hbuilt
  obtain ⟨c, hc⟩ := active_isSome (List.append_ne_nil_of_right_ne_nil (barsOf k (ohlcvs evs)) (List.cons_ne_nil e []))
  exact ⟨c, hbuilt.active.trans hc, active_sec_of_sorted hsorted hc⟩

/-! ## Before the entry -/

theorem timely_bar {evs : List AnyEvent} {tsFrom tsTo : ℤ} (hreplay : Replay tsFrom tsTo (evs ++ [.ohlcv e]))
    (hf : Followed cfg k evs s) (h : Timely k s) : Timely k (PositionSim.onOhlcv cfg e s) := by
  by_cases hk : e.symbol = k
  · subst hk
    obtain ⟨c', hact', hsec'⟩ := own_active rfl hreplay (hf.bar e)
    have hsorted := bars_sorted hreplay e.symbol
    rw [barsOf_append_own rfl] at hsorted
    cases hact : s.active.get? e.symbol with
    | none =>
      refine h.paid (onOhlcv_paid fun a ha => ?_) fun c hc => ?_
      · rw [hact] at ha
        cases ha
      · rw [hact] at hc
        cases hc
    | some c =>
      rcases own_bar rfl hf.built hsorted hact with ⟨heq, hpaid⟩ | ⟨hlt, hcheck⟩
      · refine h.paid hpaid fun a ha => ⟨c', hact', ?_⟩
        rw [hact] at ha
        cases ha
        omega
      · exact h.check hact hcheck hact' (by omega)
  · exact h.same (onOhlcv_other (Ne.symm hk) s)

theorem timely_event {evs : List AnyEvent} {a : AnyEvent} {tsFrom tsTo : ℤ} (hreplay : Replay tsFrom tsTo (evs ++ [a]))
    (hf : Followed cfg k evs r.sim) (h : Timely k r.sim) (ha : onEvent cfg scfg dcfg r a = some r') :
    Timely k r'.sim := by
  cases a with
  | ohlcv ev =>
    obtain ⟨entries, hstamp, hsim⟩ := onOhlcv_sim ha
    have hbar := timely_bar hreplay hf h
    rw [hsim]
    by_cases hk : ev.symbol = k
    · subst hk
      obtain ⟨c, hact, hsec⟩ := own_active rfl hreplay (hf.bar ev)
      have hstamped := hreplay.stamped _ (List.mem_append_right evs (List.mem_singleton_self _))
      refine (foldl_onEntry (I := fun s => Timely ev.symbol s ∧ s.active.get? ev.symbol = some c)
        (fun s x hx hs => ⟨hs.1.entry hs.2 ?_, ?_⟩) ⟨hbar, hact⟩).1
      · rw [hstamp x hx, hsec, bucketSec_stamp hstamped]
      · rw [(onEntry_feed cfg x ev.symbol s).active, hs.2]
    · exact foldl_onEntry (fun s x _ hs => hs.same (onEntry_other (Ne.symm hk) s)) hbar
  | depth ev =>
    cases ha
    exact h
  | ticker ev =>
    cases ha
    refine h.same ?_
    show SameSymbol k r.sim (PositionSim.onTicker ev (ensureSymbol ev.symbol r).sim)
    rw [ensureSymbol_sim]
    exact ⟨rfl, rfl, rfl, rfl⟩

/-- The candles and the past of a symbol, at any point of a replay. -/
theorem followed_run {tsFrom tsTo windowId foldId : ℤ} (hreplay : Replay tsFrom tsTo pre)
    (h : Runs.runM (onEvent cfg scfg dcfg) (init cfg windowId foldId) pre = some r) (k : String) :
    Followed cfg k pre r.sim ∧ Timely k r.sim := by
  refine Runs.runM_history (J := fun evs r => Replay tsFrom tsTo evs → Followed cfg k evs r.sim ∧ Timely k r.sim)
    (fun _ => ⟨.init cfg windowId foldId k, .init k cfg windowId foldId⟩) (fun evs a m t ih ha hr => ?_) pre r h hreplay
  obtain ⟨hf, ht⟩ := ih (hr.take (List.prefix_append evs [a]))
  exact ⟨hf.event ha, timely_event hr hf ht ha⟩

/-! ## The entry -/

/-- After the events `pre`, an entry at the bar `e` opens the position `pos`. -/
def Opens (cfg : PositionSimConfig) (scfg : StrategyConfig) (dcfg : DetectorConfig) (windowId foldId : ℤ)
    (pre : List AnyEvent) (e : OHLCVEvent) (symbol : String) (pos : Position) : Prop :=
  ∃ r₀ r₁, Runs.runM (onEvent cfg scfg dcfg) (init cfg windowId foldId) pre = some r₀ ∧
    onOhlcv cfg scfg dcfg e r₀ = some r₁ ∧
    (PositionSim.onOhlcv cfg e r₀.sim).positions.get? symbol = none ∧ r₁.sim.positions.get? symbol = some pos

theorem barsOf_ohlcvs_append (k : String) (evs evs' : List AnyEvent) :
    barsOf k (ohlcvs (evs ++ evs')) = barsOf k (ohlcvs evs) ++ barsOf k (ohlcvs evs') := by
  rw [ohlcvs_append]
  exact List.filter_append ..

/-- After the bucket of the entry, the open candle is made of bars after the entry only. -/
theorem active_later {tsFrom tsTo : ℤ} {c : PositionSim.Candle5s} (hreplay : Replay tsFrom tsTo (pre ++ [.ohlcv e] ++ post))
    (hf : Followed cfg e.symbol (pre ++ [.ohlcv e] ++ post) s) (hact : s.active.get? e.symbol = some c) :
    (barBucket e < c.sec →
        Aggregates c ((barsOf e.symbol (ohlcvs post)).filter fun ev => barBucket ev = c.sec)) ∧
      ∀ ev ∈ barsOf e.symbol (ohlcvs post), barBucket ev ≤ c.sec := by
  have hsorted := bars_sorted hreplay e.symbol
  obtain ⟨hagg, hle⟩ := active_spec (hf.built.active.symm.trans hact)
  rw [Stream.onTime_of_sorted hsorted] at hagg
  rw [barsOf_ohlcvs_append, barsOf_append_own rfl] at hagg hle hsorted
  refine ⟨fun hlt => ?_, fun ev hev => hle ev (List.mem_append_right _ hev)⟩
  have hearly : (barsOf e.symbol (ohlcvs pre) ++ [e]).filter (fun ev => barBucket ev = c.sec) = [] := by
    rw [List.filter_eq_nil_iff]
    intro y hy
    have hye : barBucket y ≤ barBucket e := by
      rcases List.mem_append.mp hy with hy | hy
      · exact (List.pairwise_append.mp (List.pairwise_append.mp hsorted).1).2.2 y hy e (List.mem_singleton_self e)
      · rw [List.mem_singleton.mp hy]
    simpa using (lt_of_le_of_lt hye hlt).ne
  rw [List.filter_append, hearly, List.nil_append] at hagg
  exact hagg

/-- The position is followed up to the symbol's open bucket. -/
def Tracked (k : String) (pos : Position) (post : List AnyEvent) (s : PositionSimulator) : Prop :=
  ∃ c, s.active.get? k = some c ∧ Held k pos (barsOf k (ohlcvs post)) c.sec s

theorem Tracked.same {s' : PositionSimulator} {evs : List AnyEvent} (h : Tracked k pos post s)
    (hs : SameSymbol k s s') (hbars : barsOf k (ohlcvs evs) = barsOf k (ohlcvs post)) : Tracked k pos evs s' := by
  obtain ⟨c, hact, hheld⟩ := h
  exact ⟨c, hs.active.trans hact, hbars ▸ hheld.paid hs.paid⟩

theorem Tracked.event {a : AnyEvent} {tsFrom tsTo : ℤ}
    (hreplay : Replay tsFrom tsTo (pre ++ [.ohlcv e] ++ post ++ [a])) (hts : pos.entryTsMs = e.tsMs)
    (hsec : pos.entryBucketSec = barBucket e) (hf : Followed cfg e.symbol (pre ++ [.ohlcv e] ++ post) r.sim)
    (h : Tracked e.symbol pos post r.sim) (ha : onEvent cfg scfg dcfg r a = some r') :
    Tracked e.symbol pos (post ++ [a]) r'.sim := by
  cases a with
  | ohlcv x =>
    obtain ⟨entries, hstamp, hsim⟩ := onOhlcv_sim ha
    rw [hsim]
    by_cases hk : x.symbol = e.symbol
    · obtain ⟨c, hact, hheld⟩ := h
      obtain ⟨hagg, hle⟩ := active_later (hreplay.take (List.prefix_append ..)) hf hact
      obtain ⟨c', hact', hsec'⟩ := own_active hk hreplay (hf.bar x)
      have hheld' : Held e.symbol pos (barsOf e.symbol (ohlcvs post) ++ [x]) c'.sec
          (PositionSim.onOhlcv cfg x r.sim) := by
        have hsorted := bars_sorted hreplay e.symbol
        rw [barsOf_append_own hk] at hsorted
        rcases own_bar hk hf.built hsorted hact with ⟨heq, hpaid⟩ | ⟨hlt, hcheck⟩
        · have hc : c.sec = c'.sec := heq.trans hsec'.symm
          exact (hc ▸ hheld.paid hpaid).bar (le_of_eq hsec')
        · have hc : c.sec < c'.sec := hsec'.symm ▸ hlt
          exact (hheld.check hcheck (fun hb => hagg (hsec ▸ hb)) hle hc).bar (le_of_eq hsec')
      refine ⟨c', ?_⟩
      rw [barsOf_append_own hk]
      have hlast := bucketSec_stamp (hreplay.stamped _ (List.mem_append_right _ (List.mem_singleton_self _)))
      rw [hk]
      refine foldl_onEntry (I := fun s => s.active.get? e.symbol = some c' ∧
        Held e.symbol pos (barsOf e.symbol (ohlcvs post) ++ [x]) c'.sec s) (fun s y hy hs => ⟨?_, ?_⟩) ⟨hact', hheld'⟩
      · rw [(onEntry_feed cfg y e.symbol s).active, hs.1]
      · refine hs.2.entry fun hlt heq => ?_
        -- a later bucket is open, so the stamps differ
        have hfirst := bucketSec_stamp (hreplay.stamped (.ohlcv e) (by simp))
        rw [← hstamp y hy, heq, hts, hfirst, ← hsec, ← hsec'] at hlast
        omega
    · have hbar : SameSymbol e.symbol r.sim (PositionSim.onOhlcv cfg x r.sim) := onOhlcv_other (Ne.symm hk) r.sim
      refine h.same ?_ (barsOf_append_other hk post)
      exact foldl_onEntry (fun s y _ hs => hs.trans (onEntry_other (Ne.symm hk) s)) hbar
  | depth ev =>
    cases ha
    refine h.same (.refl _ _) ?_
    rw [barsOf_ohlcvs_append]
    exact List.append_nil _
  | ticker ev =>
    cases ha
    refine h.same ?_ (by rw [barsOf_ohlcvs_append]; exact List.append_nil _)
    show SameSymbol e.symbol r.sim (PositionSim.onTicker ev (ensureSymbol ev.symbol r).sim)
    rw [ensureSymbol_sim]
    exact ⟨rfl, rfl, rfl, rfl⟩

/-- A gap up between the first and the third candle. -/
def gapBars : List AnyEvent :=
  [.ohlcv ⟨0, 0, 100, 101, 99, 100, 1, 0, 1, "BTC_USDT", 0⟩, .ohlcv ⟨5, 5000, 100, 106, 100, 105, 1, 0, 1, "BTC_USDT", 5⟩,
    .ohlcv ⟨10, 10000, 105, 107, 103, 106, 1, 0, 1, "BTC_USDT", 10⟩]

def gapConfig : PositionSimConfig := { atrPeriod := 1 }

def gapStrategy : StrategyConfig := { requireSweep := false, requireMss := false, cooldownMs := 0 }

theorem foldl_onEntry_run (symbol : String) (entries : List EntrySignal) : ∀ s : PositionSimulator,
    entries.foldl (fun s entry => (onEntry cfg entry symbol s).2) s =
      Runs.run (step cfg) s (entries.map fun entry => .onEntry entry symbol) := by
  induction entries with
  | nil => exact fun s => rfl
  | cons entry entries ih => exact fun s => ih _

/-- The calls that one event makes. -/
theorem onEvent_calls {a : AnyEvent} (ha : onEvent cfg scfg dcfg r a = some r') (hstamp : a.Stamped) :
    ∃ calls, r'.sim = Runs.run (step cfg) r.sim calls ∧
      calls.filterMap eventOf = [a].filter (fun ev => ev.rank ≠ 1) ∧
      ∀ c ∈ calls, callTs c = a.tsMs ∧ Unflushed c ∧ ∀ ev, c = .onOhlcv ev → ev.tsMs = ev.sec * 1000 := by
  cases a with
  | ohlcv ev =>
    obtain ⟨entries, hts, hsim⟩ := onOhlcv_sim ha
    refine ⟨.onOhlcv ev :: entries.map fun entry => .onEntry entry ev.symbol, ?_, ?_, fun c hc => ?_⟩
    · rw [hsim, foldl_onEntry_run]
      rfl
    · have hentries : (entries.map fun entry => Action.onEntry entry ev.symbol).filterMap eventOf = [] := by
        rw [List.filterMap_map, List.filterMap_eq_nil_iff]
        exact fun x _ => rfl
      show AnyEvent.ohlcv ev :: _ = _
      rw [hentries]
      rfl
    · rcases List.mem_cons.mp hc with rfl | hc
      · refine ⟨rfl, trivial, fun x hx => ?_⟩
        cases hx
        exact hstamp
      · obtain ⟨x, hx, rfl⟩ := List.mem_map.mp hc
        exact ⟨hts x hx, trivial, fun y hy => nomatch hy⟩
  | depth ev =>
    cases ha
    exact ⟨[], rfl, rfl, fun c hc => by cases hc⟩
  | ticker ev =>
    cases ha
    refine ⟨[.onTicker ev], ?_, rfl, fun c hc => ?_⟩
    · show PositionSim.onTicker ev (ensureSymbol ev.symbol r).sim = _
      rw [ensureSymbol_sim]
      rfl
    · rw [List.mem_singleton.mp hc]
      exact ⟨rfl, trivial, fun y hy => nomatch hy⟩

/-- **The simulator of a run** receives timed calls: the bars and tickers of the stream, and entries between them. -/
theorem calls_run {tsFrom tsTo windowId foldId : ℤ} {evs : List AnyEvent} (hreplay : Replay tsFrom tsTo evs)
    (h : Runs.runM (onEvent cfg scfg dcfg) (init cfg windowId foldId) evs = some r) :
    ∃ calls, Timed tsFrom tsTo calls ∧ calls.filterMap eventOf = evs.filter (fun ev => ev.rank ≠ 1) ∧
      r.sim = Runs.run (step cfg) (PositionSim.init cfg windowId foldId) calls := by
  suffices hall : ∃ calls, Timed tsFrom tsTo calls ∧ calls.filterMap eventOf = evs.filter (fun ev => ev.rank ≠ 1) ∧
      r.sim = Runs.run (step cfg) (PositionSim.init cfg windowId foldId) calls ∧
      ∀ c ∈ calls, ∃ ev ∈ evs, callTs c = ev.tsMs by
    obtain ⟨calls, htimed, hevs, hsim, -⟩ := hall
    exact ⟨calls, htimed, hevs, hsim⟩
  refine Runs.runM_history (J := fun evs r => Replay tsFrom tsTo evs → ∃ calls, Timed tsFrom tsTo calls ∧
      calls.filterMap eventOf = evs.filter (fun ev => ev.rank ≠ 1) ∧
      r.sim = Runs.run (step cfg) (PositionSim.init cfg windowId foldId) calls ∧
      ∀ c ∈ calls, ∃ ev ∈ evs, callTs c = ev.tsMs) (fun _ => ?_) (fun pre a m t ih ha hr => ?_) evs r h hreplay
  · exact ⟨[], ⟨List.Pairwise.nil, by simp, by simp, by simp⟩, rfl, rfl, by simp⟩
  · obtain ⟨calls, htimed, hevs, hsim, hts⟩ := ih (hr.take (List.prefix_append pre [a]))
    have hlast : a ∈ pre ++ [a] := List.mem_append_right pre (List.mem_singleton_self a)
    obtain ⟨new, hnew, hnewevs, hcalls⟩ := onEvent_calls ha (hr.stamped a hlast)
    refine ⟨calls ++ new, ⟨?_, fun ev hev => ?_, fun c hc => ?_, fun c hc => ?_⟩, ?_, ?_, fun c hc => ?_⟩
    · refine List.pairwise_append.mpr ⟨htimed.sorted, ?_, fun c hc d hd => ?_⟩
      · refine List.pairwise_of_forall_mem_list fun c hc d hd => ?_
        rw [(hcalls c hc).1, (hcalls d hd).1]
      · obtain ⟨ev, hev, hcev⟩ := hts c hc
        rw [hcev, (hcalls d hd).1]
        exact (List.pairwise_append.mp hr.sorted).2.2 ev hev a (List.mem_singleton_self a)
    · rcases List.mem_append.mp hev with hev | hev
      · exact htimed.stamped ev hev
      · exact (hcalls _ hev).2.2 ev rfl
    · rcases List.mem_append.mp hc with hc | hc
      · exact htimed.unflushed c hc
      · exact (hcalls c hc).2.1
    · rcases List.mem_append.mp hc with hc | hc
      · exact htimed.inside c hc
      · rw [(hcalls c hc).1]
        exact hr.inside a hlast
    · rw [List.filterMap_append, hevs, hnewevs, List.filter_append]
    · rw [hnew, hsim, Runs.run_append]
    · rcases List.mem_append.mp hc with hc | hc
      · obtain ⟨ev, hev, hcev⟩ := hts c hc
        exact ⟨ev, List.mem_append_left _ hev, hcev⟩
      · exact ⟨a, hlast, (hcalls c hc).1⟩

end MikoV2.Backtest.MultiSymbolRunner
