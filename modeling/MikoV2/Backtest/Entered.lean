import MikoV2.Backtest.Accounting

/-!
# The entries of one run

* `Entered` : a bar of the run opens a position; `entered_run` : the entries booked by a run are exactly these;
* `bar_booked` : a bar books at most one entry, of its symbol;
* `times_run` : a symbol has one entry at a time at most;
* `close_entered` : both for the trades of a run that has ended.
-/

namespace MikoV2.Backtest
open Py (Dict)

namespace PositionSim

variable {cfg : PositionSimConfig} {s : PositionSimulator} {symbol k : String}

/-- An entry leaves its symbol and the books alone, or opens a position where there was none and books it. -/
theorem onEntry_cases (cfg : PositionSimConfig) (signal : EntrySignal) (symbol : String) (s : PositionSimulator) :
    ((onEntry cfg signal symbol s).2.positions = s.positions ∧ booked (onEntry cfg signal symbol s).2 = booked s) ∨
      (s.positions.get? symbol = none ∧ ∃ pos, (onEntry cfg signal symbol s).2.positions.get? symbol = some pos ∧
        (booked (onEntry cfg signal symbol s).2).Perm (booked s ++ [(symbol, pos.direction, signal.tsMs)])) := by
  have hbooked := onEntry_booked cfg signal symbol s
  unfold onEntry at hbooked ⊢
  cases hdec : entryDecision cfg s signal symbol with
  | error reason => exact Or.inl ⟨rfl, rfl⟩
  | ok pos =>
    rw [hdec] at hbooked
    obtain ⟨⟨-, hdirection⟩, -, -⟩ := entryDecision_spec hdec
    refine Or.inr ⟨entryDecision_free hdec, pos, (Dict.get?_set ..).trans (if_pos rfl), ?_⟩
    rw [hdirection]
    exact (hbooked.resolve_right fun h => Bool.false_ne_true h.1.symm).2

/-- Of the entries of a bar, one at most is accepted: after it, its symbol has a position. -/
theorem entries_cases (cfg : PositionSimConfig) (symbol : String) {tsMs : ℤ} {entries : List EntrySignal}
    (hts : ∀ x ∈ entries, x.tsMs = tsMs) : ∀ s : PositionSimulator,
      let s' := entries.foldl (fun s entry => (onEntry cfg entry symbol s).2) s
      (s'.positions = s.positions ∧ booked s' = booked s) ∨
        (s.positions.get? symbol = none ∧ ∃ pos, s'.positions.get? symbol = some pos ∧
          (booked s').Perm (booked s ++ [(symbol, pos.direction, tsMs)])) := by
  induction entries with
  | nil => exact fun s => Or.inl ⟨rfl, rfl⟩
  | cons entry entries ih =>
    intro s
    have ih := ih (fun x hx => hts x (List.mem_cons_of_mem entry hx)) (onEntry cfg entry symbol s).2
    have hentry := hts entry List.mem_cons_self
    dsimp only at ih ⊢
    rw [List.foldl_cons]
    rcases onEntry_cases cfg entry symbol s with ⟨hpos, hbooked⟩ | ⟨hfree, pos, hopen, hbooked⟩
    · rw [hpos, hbooked] at ih
      exact ih
    · rcases ih with ⟨hpos', hbooked'⟩ | ⟨hfree', -⟩
      · refine Or.inr ⟨hfree, pos, ?_, ?_⟩
        · rw [hpos', hopen]
        · rw [hbooked', ← hentry]
          exact hbooked
      · rw [hopen] at hfree'
        cases hfree'

end PositionSim

namespace MultiSymbolRunner
open PositionSim

variable {cfg : PositionSimConfig} {scfg : StrategyConfig} {dcfg : DetectorConfig} {r r' : MultiSymbolRunner}
  {e : OHLCVEvent} {windowId foldId tsFrom tsTo : ℤ} {evs pre : List AnyEvent} {key : EntryKey}

/-! ## One bar -/

/-- A bar books nothing and opens nothing, or opens a position in its symbol and books it. -/
theorem bar_booked (h : onOhlcv cfg scfg dcfg e r = some r') :
    (∀ k, k ≠ e.symbol → r'.sim.positions.get? k = (PositionSim.onOhlcv cfg e r.sim).positions.get? k) ∧
      ((r'.sim.positions = (PositionSim.onOhlcv cfg e r.sim).positions ∧ (booked r'.sim).Perm (booked r.sim)) ∨
        ((PositionSim.onOhlcv cfg e r.sim).positions.get? e.symbol = none ∧
          ∃ pos, r'.sim.positions.get? e.symbol = some pos ∧
            (booked r'.sim).Perm (booked r.sim ++ [(e.symbol, pos.direction, e.tsMs)]))) := by
  obtain ⟨entries, hts, hsim⟩ := onOhlcv_sim h
  have hbar := booked_of_moves (onOhlcv_moves cfg e r.sim)
  rw [hsim]
  constructor
  · intro k hk
    exact foldl_onEntry (I := fun s => s.positions.get? k = (PositionSim.onOhlcv cfg e r.sim).positions.get? k)
      (fun s x _ hs => (onEntry_other hk s).positions.trans hs) rfl
  · rcases entries_cases cfg e.symbol hts (PositionSim.onOhlcv cfg e r.sim) with
      ⟨hpos, hbooked⟩ | ⟨hfree, pos, hopen, hbooked⟩
    · refine Or.inl ⟨hpos, ?_⟩
      rw [hbooked]
      exact hbar
    · exact Or.inr ⟨hfree, pos, hopen, hbooked.trans (hbar.append_right _)⟩

/-- The bar opens a position of the key's symbol and direction, at the key's time. -/
def EnteredAt (cfg : PositionSimConfig) (scfg : StrategyConfig) (dcfg : DetectorConfig) (windowId foldId : ℤ)
    (pre : List AnyEvent) (e : OHLCVEvent) (key : EntryKey) : Prop :=
  e.tsMs = key.2.2 ∧ ∃ pos, Opens cfg scfg dcfg windowId foldId pre e key.1 pos ∧ pos.direction = key.2.1

/-- Some bar of the stream does. -/
def Entered (cfg : PositionSimConfig) (scfg : StrategyConfig) (dcfg : DetectorConfig) (windowId foldId : ℤ)
    (evs : List AnyEvent) (key : EntryKey) : Prop :=
  ∃ pre e, pre ++ [.ohlcv e] <+: evs ∧ EnteredAt cfg scfg dcfg windowId foldId pre e key

theorem enteredAt_iff (hpre : Runs.runM (onEvent cfg scfg dcfg) (init cfg windowId foldId) pre = some r)
    (h : onOhlcv cfg scfg dcfg e r = some r') :
    EnteredAt cfg scfg dcfg windowId foldId pre e key ↔ e.tsMs = key.2.2 ∧
      (PositionSim.onOhlcv cfg e r.sim).positions.get? key.1 = none ∧
        ∃ pos, r'.sim.positions.get? key.1 = some pos ∧ pos.direction = key.2.1 := by
  unfold EnteredAt Opens
  refine and_congr_right fun _ => ?_
  constructor
  · rintro ⟨pos, ⟨r₀, r₁, hr₀, hr₁, hfree, hopen⟩, hdirection⟩
    rw [hpre] at hr₀
    cases hr₀
    rw [h] at hr₁
    cases hr₁
    exact ⟨hfree, pos, hopen, hdirection⟩
  · rintro ⟨hfree, pos, hopen, hdirection⟩
    exact ⟨pos, ⟨r, r', hpre, h, hfree, hopen⟩, hdirection⟩

/-- What a bar books is what is entered at it. -/
theorem mem_booked_bar (hpre : Runs.runM (onEvent cfg scfg dcfg) (init cfg windowId foldId) pre = some r)
    (h : onOhlcv cfg scfg dcfg e r = some r') :
    key ∈ booked r'.sim ↔ key ∈ booked r.sim ∨ EnteredAt cfg scfg dcfg windowId foldId pre e key := by
  rw [enteredAt_iff hpre h]
  obtain ⟨hother, hcases⟩ := bar_booked h
  rcases hcases with ⟨hpos, hbooked⟩ | ⟨hfree, pos, hopen, hbooked⟩
  · rw [hbooked.mem_iff, hpos]
    refine (or_iff_left ?_).symm
    rintro ⟨-, hnone, q, hq, -⟩
    rw [hnone] at hq
    cases hq
  · rw [hbooked.mem_iff, List.mem_append, List.mem_singleton]
    refine or_congr_right ⟨?_, ?_⟩
    · rintro rfl
      exact ⟨rfl, hfree, pos, hopen, rfl⟩
    · rintro ⟨hts, hnone, q, hq, hdirection⟩
      have hk : key.1 = e.symbol := by
        by_contra hk
        rw [hother key.1 hk, hnone] at hq
        cases hq
      rw [hk, hopen] at hq
      cases hq
      exact Prod.ext hk (Prod.ext hdirection.symm hts.symm)

theorem entered_concat {a : AnyEvent} : Entered cfg scfg dcfg windowId foldId (evs ++ [a]) key ↔
    Entered cfg scfg dcfg windowId foldId evs key ∨
      ∃ e, a = .ohlcv e ∧ EnteredAt cfg scfg dcfg windowId foldId evs e key := by
  unfold Entered
  constructor
  · rintro ⟨pre, e, hpre, hentered⟩
    rcases List.prefix_concat_iff.mp hpre with heq | hpre
    · obtain ⟨rfl, ha⟩ := List.append_inj' heq rfl
      exact Or.inr ⟨e, (List.singleton_inj.mp ha).symm, hentered⟩
    · exact Or.inl ⟨pre, e, hpre, hentered⟩
  · rintro (⟨pre, e, hpre, hentered⟩ | ⟨e, rfl, hentered⟩)
    · exact ⟨pre, e, hpre.trans (List.prefix_append evs [a]), hentered⟩
    · exact ⟨evs, e, List.prefix_refl _, hentered⟩

/-- An event that is no bar books nothing. -/
theorem booked_other {a : AnyEvent} (ha : ∀ e, a ≠ .ohlcv e) (h : onEvent cfg scfg dcfg r a = some r') :
    booked r'.sim = booked r.sim := by
  cases a with
  | ohlcv ev => exact absurd rfl (ha ev)
  | depth ev =>
    cases h
    rfl
  | ticker ev =>
    cases h
    show booked (PositionSim.onTicker ev (ensureSymbol ev.symbol r).sim) = _
    rw [ensureSymbol_sim]
    rfl

/-- **Entries.** The entries that a run has booked are those that its bars opened. -/
theorem entered_run (h : Runs.runM (onEvent cfg scfg dcfg) (init cfg windowId foldId) evs = some r) (key : EntryKey) :
    key ∈ booked r.sim ↔ Entered cfg scfg dcfg windowId foldId evs key := by
  suffices hall : Runs.runM (onEvent cfg scfg dcfg) (init cfg windowId foldId) evs = some r ∧
      (key ∈ booked r.sim ↔ Entered cfg scfg dcfg windowId foldId evs key) from hall.2
  refine Runs.runM_history (J := fun evs r => Runs.runM (onEvent cfg scfg dcfg) (init cfg windowId foldId) evs = some r ∧
    (key ∈ booked r.sim ↔ Entered cfg scfg dcfg windowId foldId evs key)) ⟨rfl, ?_⟩
    (fun pre a m t ih ha => ⟨Runs.runM_concat.mpr ⟨m, ih.1, ha⟩, ?_⟩) evs r h
  · refine iff_of_false (fun hmem => ?_) fun hentered => ?_
    · cases hmem
    · obtain ⟨pre, e, hpre, -⟩ := hentered
      simp at hpre
  · rw [entered_concat, ← ih.2]
    have hother : (∀ e, a ≠ .ohlcv e) → (key ∈ booked t.sim ↔
        key ∈ booked m.sim ∨ ∃ e, a = .ohlcv e ∧ EnteredAt cfg scfg dcfg windowId foldId pre e key) := by
      intro hne
      rw [booked_other hne ha]
      exact (or_iff_left fun ⟨e, he, _⟩ => hne e he).symm
    cases a with
    | ohlcv ev =>
      rw [mem_booked_bar ih.1 ha]
      refine or_congr_right ⟨fun hentered => ⟨ev, rfl, hentered⟩, ?_⟩
      rintro ⟨e, he, hentered⟩
      cases he
      exact hentered
    | depth ev => exact hother fun e he => by cases he
    | ticker ev => exact hother fun e he => by cases he

/-! ## One entry at a time -/

/-- The symbol and the time. -/
def EntryKey.time (key : EntryKey) : String × ℤ := (key.1, key.2.2)

theorem times_bar (hreplay : Replay tsFrom tsTo (pre ++ [.ohlcv e]))
    (hpre : Runs.runM (onEvent cfg scfg dcfg) (init cfg windowId foldId) pre = some r)
    (h : onOhlcv cfg scfg dcfg e r = some r') (hnodup : ((booked r.sim).map EntryKey.time).Nodup) :
    ((booked r'.sim).map EntryKey.time).Nodup := by
  obtain ⟨-, ⟨-, hbooked⟩ | ⟨hfree, pos, -, hbooked⟩⟩ := bar_booked h
  · exact ((hbooked.map _).nodup_iff).mpr hnodup
  · obtain ⟨hf, htimely⟩ := followed_run (hreplay.take (List.prefix_append pre _)) hpre e.symbol
    have hbefore := timely_bar hreplay hf htimely
    obtain ⟨c, hact, hsec⟩ := own_active rfl hreplay (hf.bar e)
    have hstamp := bucketSec_stamp (hreplay.stamped _ (List.mem_append_right pre (List.mem_singleton_self _)))
    have hbar := booked_of_moves (onOhlcv_moves cfg e r.sim)
    -- after the simulator has seen the bar, no trade or position of the symbol has the time of the bar
    have hnew : (e.symbol, e.tsMs) ∉ (booked (PositionSim.onOhlcv cfg e r.sim)).map EntryKey.time := by
      intro hmem
      obtain ⟨key, hkey, htime⟩ := List.mem_map.mp hmem
      have hsymbol : key.1 = e.symbol := congrArg Prod.fst htime
      have hts : key.2.2 = e.tsMs := congrArg Prod.snd htime
      rcases List.mem_append.mp hkey with hkey | hkey
      · obtain ⟨t, ht, rfl⟩ := List.mem_map.mp hkey
        have hown : t ∈ tradesOf e.symbol (PositionSim.onOhlcv cfg e r.sim) :=
          List.mem_filter.mpr ⟨ht, decide_eq_true hsymbol⟩
        obtain ⟨a, ha, hlt⟩ := hbefore.trades t hown
        rw [hact] at ha
        cases ha
        have hentry : t.entryTsMs = e.tsMs := hts
        rw [hentry, hstamp, hsec] at hlt
        exact lt_irrefl _ hlt
      · obtain ⟨⟨k, q⟩, hq, rfl⟩ := List.mem_map.mp hkey
        have hk : k = e.symbol := hsymbol
        rw [Dict.mem_items, hk, hfree] at hq
        cases hq
    rw [(hbooked.map _).nodup_iff, List.map_append, List.nodup_append]
    refine ⟨hnodup, List.nodup_singleton _, fun x hx y hy hxy => ?_⟩
    rw [List.map_singleton, List.mem_singleton] at hy
    rw [hxy, hy] at hx
    exact hnew ((hbar.map _).mem_iff.mpr hx)

/-- **Times.** In a replay a symbol has one entry at a time at most. -/
theorem times_run (hreplay : Replay tsFrom tsTo evs)
    (h : Runs.runM (onEvent cfg scfg dcfg) (init cfg windowId foldId) evs = some r) :
    ((booked r.sim).map EntryKey.time).Nodup := by
  suffices hall : Runs.runM (onEvent cfg scfg dcfg) (init cfg windowId foldId) evs = some r ∧
      (Replay tsFrom tsTo evs → ((booked r.sim).map EntryKey.time).Nodup) from hall.2 hreplay
  refine Runs.runM_history (J := fun evs r => Runs.runM (onEvent cfg scfg dcfg) (init cfg windowId foldId) evs = some r ∧
      (Replay tsFrom tsTo evs → ((booked r.sim).map EntryKey.time).Nodup)) ⟨rfl, fun _ => List.nodup_nil⟩
    (fun pre a m t ih ha => ⟨Runs.runM_concat.mpr ⟨m, ih.1, ha⟩, fun hr => ?_⟩) evs r h
  have hnodup := ih.2 (hr.take (List.prefix_append pre [a]))
  have hother : (∀ e, a ≠ .ohlcv e) → ((booked t.sim).map EntryKey.time).Nodup := by
    intro hne
    rw [booked_other hne ha]
    exact hnodup
  cases a with
  | ohlcv ev => exact times_bar hr ih.1 ha hnodup
  | depth ev => exact hother fun e he => by cases he
  | ticker ev => exact hother fun e he => by cases he

/-! ## Trades -/

/-- The trades of a run that has ended are its entries, and a symbol has one of a time at most. -/
theorem close_entered (hreplay : Replay tsFrom tsTo evs)
    (h : Runs.runM (onEvent cfg scfg dcfg) (init cfg windowId foldId) evs = some r) (ts : ℤ) (stats : BacktestStats) :
    (∀ key, key ∈ (close cfg dcfg ts stats r).trades.map Trade.key ↔
        Entered cfg scfg dcfg windowId foldId evs key) ∧
      ((close cfg dcfg ts stats r).trades.map Trade.key).Nodup ∧
      ∀ key ∈ (close cfg dcfg ts stats r).trades.map Trade.key, tsFrom ≤ key.2.2 ∧ key.2.2 ≤ tsTo := by
  have hperm := close_trades cfg dcfg r ts stats
  have hentered : ∀ key, key ∈ (close cfg dcfg ts stats r).trades.map Trade.key ↔
      Entered cfg scfg dcfg windowId foldId evs key := fun key => hperm.mem_iff.trans (entered_run h key)
  refine ⟨hentered, ?_, fun key hkey => ?_⟩
  · exact hperm.nodup_iff.mpr (List.Nodup.of_map _ (times_run hreplay h))
  · obtain ⟨pre, e, hpre, hts, -⟩ := (hentered key).mp hkey
    rw [← hts]
    exact hreplay.inside _ (hpre.subset (List.mem_append_right _ (List.mem_singleton_self _)))

end MultiSymbolRunner

end MikoV2.Backtest
