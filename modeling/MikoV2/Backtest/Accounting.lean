import MikoV2.Backtest.RunnerExits

/-!
# Every entry signal is accounted for

* `EntryKey` : what a signal, a position and a trade have in common; `booked` : the entries traded or open;
* `booked_of_moves`, `onEntry_booked` : only an accepted entry adds one;
* `Limited` : the limits on open positions, `limited_step`;
* `Booked`, `booked_run` : the signals of a run are those booked and those dropped;
* `finalize_empty` : the end of a run closes every position;
* `signals_accounted` : all of it, for the runs of any tables.
-/

namespace MikoV2.Backtest
open PaperMath (Direction)
open Py (Dict)

/-- The symbol, the direction and the time of an entry. -/
abbrev EntryKey := String × Direction × ℤ

namespace PositionSim

def Trade.key (t : Trade) : EntryKey := (t.symbol, t.direction, t.entryTsMs)

def openKey (e : String × Position) : EntryKey := (e.1, e.2.direction, e.2.entryTsMs)

/-- The entries that were accepted: those traded and those open. -/
def booked (s : PositionSimulator) : List EntryKey := s.trades.map Trade.key ++ s.positions.items.map openKey

variable {cfg : PositionSimConfig} {s s' : PositionSimulator} {symbol : String} {signal : EntrySignal} {pos : Position}

/-! ## Moves without openings -/

/-- A close turns an open entry into a trade, and a payment changes none. -/
theorem booked_of_move (h : Move cfg (fun _ => False) s s') : (booked s').Perm (booked s) := by
  cases h with
  | quiet h =>
    unfold booked
    rw [h.positions, h.trades]
  | funded fundingPaid h =>
    rename_i symbol pos
    have hitems : (s.positions.set symbol { pos with fundingPaid }).items.map openKey = s.positions.items.map openKey :=
      Dict.map_items_set_of_eq openKey h rfl
    show (s.trades.map Trade.key ++ (s.positions.set symbol { pos with fundingPaid }).items.map openKey).Perm _
    rw [hitems]
    exact List.Perm.refl _
  | opened hfree h => exact h.elim
  | closed tsMs px reason h hexit =>
    rename_i symbol pos
    rw [closePosition_of_some h]
    unfold booked
    have hitems := ((Dict.items_perm_erase h).map openKey).append_left (s.trades.map Trade.key)
    rw [List.map_append, List.append_assoc]
    exact hitems.symm

theorem booked_of_moves (h : Moves cfg (fun _ => False) s s') : (booked s').Perm (booked s) :=
  h.keeps (fun _ _ hs hm => (booked_of_move hm).trans hs) (List.Perm.refl _)

/-- An entry is booked when it is accepted, and changes nothing else. -/
theorem onEntry_booked (cfg : PositionSimConfig) (signal : EntrySignal) (symbol : String) (s : PositionSimulator) :
    (onEntry cfg signal symbol s).1 = true ∧
        (booked (onEntry cfg signal symbol s).2).Perm (booked s ++ [(symbol, signal.direction, signal.tsMs)]) ∨
      (onEntry cfg signal symbol s).1 = false ∧ booked (onEntry cfg signal symbol s).2 = booked s := by
  unfold onEntry
  cases hdec : entryDecision cfg s signal symbol with
  | error reason => exact Or.inr ⟨rfl, rfl⟩
  | ok pos =>
    refine Or.inl ⟨rfl, ?_⟩
    have hfree := Dict.get?_eq_none.mp (entryDecision_free hdec)
    obtain ⟨⟨-, hdirection⟩, ⟨hts, -⟩, -⟩ := entryDecision_spec hdec
    have hitems : (s.positions.set symbol pos).items.map openKey =
        s.positions.items.map openKey ++ [(symbol, signal.direction, signal.tsMs)] := by
      rw [Dict.items_set_of_not_mem hfree, List.map_append, ← hdirection, ← hts]
      rfl
    show (s.trades.map Trade.key ++ (s.positions.set symbol pos).items.map openKey).Perm _
    rw [hitems, ← List.append_assoc]
    exact List.Perm.refl _

/-! ## Limits -/

/-- The limits on the open positions. -/
structure Limited (cfg : PositionSimConfig) (s : PositionSimulator) : Prop where
  globalLimit : (s.positions.items.length : ℤ) ≤ max 0 cfg.maxPositionsGlobal
  perSymbol : ∀ k, (s.positions.items.filter fun e => e.2.symbol = k).length ≤ 1

/-- The invariant behind the limits: a position is kept under its own symbol. -/
structure Filed (cfg : PositionSimConfig) (s : PositionSimulator) : Prop where
  globalLimit : (s.positions.items.length : ℤ) ≤ max 0 cfg.maxPositionsGlobal
  own : ∀ e ∈ s.positions.items, e.2.symbol = e.1

theorem Filed.limited (h : Filed cfg s) : Limited cfg s := by
  refine ⟨h.globalLimit, fun k => ?_⟩
  have hkeys : ((s.positions.items.filter fun e => e.2.symbol = k).map Prod.fst).Nodup :=
    s.positions.nodup.sublist (List.filter_sublist.map Prod.fst)
  have hall : ∀ x ∈ (s.positions.items.filter fun e => e.2.symbol = k).map Prod.fst, x = k := by
    intro x hx
    obtain ⟨e, he, rfl⟩ := List.mem_map.mp hx
    rw [List.mem_filter, decide_eq_true_eq] at he
    rw [← h.own e he.1, he.2]
  rw [List.eq_replicate_of_mem hall, List.nodup_replicate, List.length_map] at hkeys
  exact hkeys

theorem Filed.init (cfg : PositionSimConfig) (windowId foldId : ℤ) : Filed cfg (PositionSim.init cfg windowId foldId) := by
  refine ⟨le_max_left _ _, fun e he => ?_⟩
  cases he

theorem Filed.move (h : Filed cfg s) (hm : Move cfg (fun _ => False) s s') : Filed cfg s' := by
  cases hm with
  | quiet hq =>
    refine ⟨?_, ?_⟩ <;> rw [hq.positions]
    · exact h.globalLimit
    · exact h.own
  | funded fundingPaid hget =>
    rename_i symbol pos
    have hmem := Dict.mem_keys.mpr ⟨pos, hget⟩
    have hitems := Dict.items_set_of_mem hmem { pos with fundingPaid }
    refine ⟨?_, fun e he => ?_⟩
    · show ((s.positions.set symbol { pos with fundingPaid }).items.length : ℤ) ≤ _
      rw [hitems, List.length_map]
      exact h.globalLimit
    · have he : e ∈ (s.positions.set symbol { pos with fundingPaid }).items := he
      rw [hitems] at he
      obtain ⟨d, hd, rfl⟩ := List.mem_map.mp he
      have hown : pos.symbol = symbol := h.own _ (Dict.mem_items.mpr hget)
      split
      · exact hown
      · exact h.own d hd
  | opened hfree hallow => exact hallow.elim
  | closed tsMs px reason hget hexit =>
    rename_i symbol pos
    rw [closePosition_of_some hget]
    refine ⟨?_, fun e he => h.own e (List.mem_of_mem_filter he)⟩
    have hle : ((s.positions.erase symbol).items.length : ℤ) ≤ s.positions.items.length := by
      rw [Dict.items_erase]
      exact_mod_cast List.length_filter_le _ _
    exact hle.trans h.globalLimit

theorem Filed.moves (h : Filed cfg s) (hm : Moves cfg (fun _ => False) s s') : Filed cfg s' :=
  hm.keeps (fun _ _ hs hm => hs.move hm) h

theorem Filed.onEntry (h : Filed cfg s) (signal : EntrySignal) (symbol : String) :
    Filed cfg (onEntry cfg signal symbol s).2 := by
  unfold PositionSim.onEntry
  cases hdec : entryDecision cfg s signal symbol with
  | error reason => exact ⟨h.globalLimit, h.own⟩
  | ok pos =>
    obtain ⟨⟨hsymbol, -⟩, -, hroom⟩ := entryDecision_spec hdec
    have hitems := Dict.items_set_of_not_mem (Dict.get?_eq_none.mp (entryDecision_free hdec)) pos
    refine ⟨?_, fun e he => ?_⟩
    · show ((s.positions.set symbol pos).items.length : ℤ) ≤ _
      rw [hitems, List.length_append, List.length_singleton]
      unfold Dict.keys at hroom
      rw [List.length_map] at hroom
      push_cast
      omega
    · have he : e ∈ (s.positions.set symbol pos).items := he
      rw [hitems] at he
      rcases List.mem_append.mp he with he | he
      · exact h.own e he
      · rw [List.mem_singleton.mp he]
        exact hsymbol

theorem Filed.step (h : Filed cfg s) (a : Action) : Filed cfg (step cfg s a) := by
  cases a with
  | onEntry signal symbol => exact h.onEntry signal symbol
  | onOhlcv ev => exact h.moves (onOhlcv_moves cfg ev s)
  | onTicker ev => exact ⟨h.globalLimit, h.own⟩
  | finalize lastTsMs lastPrices =>
    refine h.moves (step_moves (a := .finalize lastTsMs lastPrices) fun signal symbol pos hentry => ?_)
    cases hentry

/-- **Limits.** No sequence of calls opens more positions than allowed. -/
theorem limited_run (windowId foldId : ℤ) (calls : List Action) :
    Runs.Always (Limited cfg) (step cfg) (PositionSim.init cfg windowId foldId) calls := by
  intro pre hpre
  exact (Runs.invariant (Filed.init cfg windowId foldId) (fun _ a h => h.step a) pre).limited

/-! ## The end of a run -/

theorem finalizePosition_keys (cfg : PositionSimConfig) (lastTsMs : ℤ) (lastPrices : String → Option ℚ)
    (s : PositionSimulator) (symbol : String) :
    (finalizePosition cfg lastTsMs lastPrices s symbol).positions = s.positions.erase symbol := by
  unfold finalizePosition
  cases hget : s.positions.get? symbol with
  | none => exact (Dict.erase_of_not_mem (Dict.get?_eq_none.mp hget)).symm
  | some pos =>
    dsimp only
    rw [closePosition_of_some hget]

/-- A loop that closes every symbol that has a position leaves none. -/
theorem foldl_finalizePosition (cfg : PositionSimConfig) (lastTsMs : ℤ) (lastPrices : String → Option ℚ)
    (l : List String) : ∀ s : PositionSimulator, (∀ k ∈ s.positions.keys, k ∈ l) →
      (l.foldl (finalizePosition cfg lastTsMs lastPrices) s).positions.items = [] := by
  induction l with
  | nil =>
    intro s h
    rw [List.foldl_nil, ← List.map_eq_nil_iff (f := Prod.fst)]
    exact List.eq_nil_iff_forall_not_mem.mpr fun k hk => List.not_mem_nil (h k hk)
  | cons symbol l ih =>
    intro s h
    rw [List.foldl_cons]
    refine ih _ fun k hk => ?_
    rw [finalizePosition_keys, Dict.mem_keys_erase] at hk
    exact (List.mem_cons.mp (h k hk.1)).resolve_left hk.2

/-- **The end of a run** closes every position. -/
theorem finalize_empty (cfg : PositionSimConfig) (lastTsMs : ℤ) (lastPrices : String → Option ℚ)
    (s : PositionSimulator) : (finalize cfg lastTsMs lastPrices s).positions.items = [] :=
  foldl_finalizePosition cfg lastTsMs lastPrices _ _ fun _ hk => hk

end PositionSim

namespace MultiSymbolRunner
open PositionSim

variable {cfg : PositionSimConfig} {scfg : StrategyConfig} {dcfg : DetectorConfig} {r r' : MultiSymbolRunner}
  {e : OHLCVEvent} {symbol : String}

/-- The entry signals that the strategies have produced, with their symbols. -/
def signals (r : MultiSymbolRunner) : List (String × EntrySignal) :=
  r.strategies.items.flatMap fun e => e.2.entries.map fun x => (e.1, x)

def signalKey (x : String × EntrySignal) : EntryKey := (x.1, x.2.direction, x.2.tsMs)

/-- The dropped entries that are not cooldowns, by symbol and time. -/
def drops (dropped : List DroppedEntry) : List (String × ℤ) :=
  (dropped.filter fun d => d.reason ≠ .cooldown_active).map fun d => (d.symbol, d.tsMs)

/-- The entries that were accepted and those that were dropped, as long as drops are recorded. -/
structure Booked (accepted refused : List (String × EntrySignal)) (r : MultiSymbolRunner) : Prop where
  booked : (PositionSim.booked r.sim).Perm (accepted.map signalKey)
  dropped : r.dropped.length < dropHardCap → drops r.dropped = refused.map fun x => (x.1, x.2.tsMs)

/-! ## Signals -/

theorem signals_ensureSymbol (symbol : String) (r : MultiSymbolRunner) : signals (ensureSymbol symbol r) = signals r := by
  unfold ensureSymbol
  split
  · rfl
  · rename_i hnew
    unfold signals
    show ((r.strategies.set symbol {}).items.flatMap _) = _
    rw [Dict.items_set_of_not_mem hnew, List.flatMap_append]
    exact List.append_nil _

/-- A strategy that has produced `entries` more. -/
theorem signals_set {strategies : Dict String Strategy} {st st' : Strategy} {entries : List EntrySignal}
    (hget : strategies.get? symbol = some st) (hst : st'.entries = st.entries ++ entries) :
    ((strategies.set symbol st').items.flatMap fun e => e.2.entries.map fun x => (e.1, x)).Perm
      ((strategies.items.flatMap fun e => e.2.entries.map fun x => (e.1, x)) ++ entries.map fun x => (symbol, x)) := by
  have hset : (strategies.set symbol st').get? symbol = some st' := (Dict.get?_set ..).trans (if_pos rfl)
  have herase : ((strategies.set symbol st').erase symbol).items.Perm (strategies.erase symbol).items := by
    refine Dict.items_perm fun k => ?_
    rw [Dict.get?_erase, Dict.get?_erase, Dict.get?_set]
    split <;> rfl
  have hold := (Dict.items_perm_erase hget).flatMap_right fun e => e.2.entries.map fun x => (e.1, x)
  have hnew := (Dict.items_perm_erase hset).flatMap_right fun e => e.2.entries.map fun x => (e.1, x)
  have hrest := herase.flatMap_right fun e => e.2.entries.map fun x => (e.1, x)
  rw [List.flatMap_cons] at hold hnew
  refine hnew.trans ?_
  rw [hst, List.map_append, List.append_assoc]
  refine List.Perm.trans ?_ (hold.append_right _).symm
  rw [List.append_assoc]
  refine List.Perm.append_left _ ?_
  exact (List.perm_append_comm).trans (hrest.append_right _)

/-! ## Drops -/

theorem drops_append (dropped : List DroppedEntry) (d : DroppedEntry) :
    drops (dropped ++ [d]) = drops dropped ++ if d.reason ≠ .cooldown_active then [(d.symbol, d.tsMs)] else [] := by
  unfold drops
  rw [List.filter_append, List.map_append]
  by_cases hd : d.reason ≠ .cooldown_active
  · rw [if_pos hd, List.filter_cons_of_pos (by simpa using hd)]
    rfl
  · rw [if_neg hd, List.filter_cons_of_neg (by simpa using hd)]
    rfl

/-- While there is room, a drop is recorded. -/
theorem recordDrop_dropped (reason : DropReason) (symbol : String) (tsMs : ℤ) (r : MultiSymbolRunner)
    (h : (recordDrop reason symbol tsMs r).dropped.length < dropHardCap) :
    r.dropped.length < dropHardCap ∧ (recordDrop reason symbol tsMs r).dropped = r.dropped ++ [⟨reason, symbol, tsMs⟩] := by
  unfold recordDrop at h ⊢
  split at h
  · rename_i hfull
    omega
  · rename_i hroom
    rw [if_neg hroom]
    exact ⟨by omega, rfl⟩

/-- A cooldown counts as no drop. -/
theorem Booked.noteCooldown {accepted refused : List (String × EntrySignal)} (h : Booked accepted refused r)
    (ev : OHLCVEvent) (entries : List EntrySignal) (reason : Option StrategyRejection) :
    Booked accepted refused (noteCooldown ev entries reason r) := by
  refine ⟨by rw [noteCooldown_sim]; exact h.booked, fun hcap => ?_⟩
  unfold MultiSymbolRunner.noteCooldown at hcap ⊢
  dsimp only at hcap ⊢
  split at hcap
  · rename_i hnew
    rw [if_pos hnew]
    obtain ⟨hroom, hrec⟩ := recordDrop_dropped _ _ _ r hcap
    rw [hrec, drops_append, h.dropped hroom]
    simp
  · rename_i hold
    rw [if_neg hold]
    exact h.dropped hcap

/-- An entry is accepted or dropped. -/
theorem Booked.execute {accepted refused : List (String × EntrySignal)} (h : Booked accepted refused r)
    (cfg : PositionSimConfig) (symbol : String) (entry : EntrySignal) :
    Booked (accepted ++ [(symbol, entry)]) refused (execute cfg symbol entry.tsMs r entry) ∨
      Booked accepted (refused ++ [(symbol, entry)]) (execute cfg symbol entry.tsMs r entry) := by
  have hentry := onEntry_booked cfg entry symbol r.sim
  unfold MultiSymbolRunner.execute
  rcases hx : onEntry cfg entry symbol r.sim with ⟨ok, sim⟩
  rw [hx] at hentry
  rcases hentry with ⟨rfl, hbooked⟩ | ⟨rfl, hbooked⟩
  · refine Or.inl ⟨?_, h.dropped⟩
    rw [List.map_append]
    exact hbooked.trans (h.booked.append_right _)
  · refine Or.inr ⟨?_, fun hcap => ?_⟩
    · rw [recordDrop_sim]
      show (PositionSim.booked sim).Perm _
      rw [hbooked]
      exact h.booked
    · obtain ⟨hroom, hrec⟩ := recordDrop_dropped _ _ _ _ hcap
      have hreason : dropReason sim.lastRejectionReason ≠ .cooldown_active := by
        cases sim.lastRejectionReason with
        | none => exact DropReason.noConfusion
        | some reason => cases reason <;> exact DropReason.noConfusion
      rw [hrec, drops_append, if_pos hreason, List.map_append]
      show drops r.dropped ++ _ = _
      rw [h.dropped hroom]
      rfl

/-- The entries of a bar are shared out between the accepted and the dropped. -/
theorem Booked.entries (cfg : PositionSimConfig) (symbol : String) {tsMs : ℤ} {entries : List EntrySignal}
    (hts : ∀ x ∈ entries, x.tsMs = tsMs) {accepted refused : List (String × EntrySignal)} (h : Booked accepted refused r) :
    ∃ accepted' refused', (accepted' ++ refused').Perm (accepted ++ refused ++ entries.map fun x => (symbol, x)) ∧
      Booked accepted' refused' (entries.foldl (MultiSymbolRunner.execute cfg symbol tsMs) r) := by
  induction entries generalizing r accepted refused with
  | nil => exact ⟨accepted, refused, by simp, h⟩
  | cons entry entries ih =>
    have hts' := fun x hx => hts x (List.mem_cons_of_mem entry hx)
    have hone := h.execute cfg symbol entry
    rw [hts entry List.mem_cons_self] at hone
    rw [List.foldl_cons, List.map_cons]
    rcases hone with hone | hone
    · obtain ⟨accepted', refused', hperm, hbooked⟩ := ih hts' hone
      refine ⟨accepted', refused', hperm.trans ?_, hbooked⟩
      rw [List.append_assoc, List.append_assoc, List.append_assoc, List.singleton_append]
      exact (List.perm_middle.symm).append_left accepted
    · obtain ⟨accepted', refused', hperm, hbooked⟩ := ih hts' hone
      refine ⟨accepted', refused', hperm.trans ?_, hbooked⟩
      rw [List.append_assoc, List.append_assoc, List.append_assoc]
      exact List.Perm.refl _

/-! ## Runs -/

/-- Every signal produced so far is accepted or dropped. -/
def Shared (r : MultiSymbolRunner) : Prop :=
  ∃ accepted refused, (signals r).Perm (accepted ++ refused) ∧ Booked accepted refused r

theorem shared_bar (h : Shared r) (ha : onOhlcv cfg scfg dcfg e r = some r') : Shared r' := by
  obtain ⟨accepted, refused, hsignals, hbooked⟩ := h
  obtain ⟨entries, strat, fed, hstrat, hsim, hdropped, hstrategies, rfl⟩ := onOhlcv_cases ha
  have hts : ∀ x ∈ entries, x.tsMs = e.tsMs := fun x hx => (Strategy.onOhlcv_stamp hstrat x hx).1
  have hstart : Booked accepted refused fed := by
    refine ⟨?_, fun hcap => ?_⟩
    · rw [hsim]
      exact (booked_of_moves (onOhlcv_moves cfg e r.sim)).trans hbooked.booked
    · rw [hdropped] at hcap ⊢
      exact hbooked.dropped hcap
  obtain ⟨accepted', refused', hperm, hend⟩ :=
    (hstart.noteCooldown e entries strat.lastRejectionReason).entries cfg e.symbol hts
  refine ⟨accepted', refused', ?_, hend⟩
  refine List.Perm.trans ?_ hperm.symm
  unfold signals
  rw [foldl_execute_strategies, noteCooldown_strategies, hstrategies]
  refine (signals_set (get?_ensureSymbol e.symbol r) (Strategy.onOhlcv_entries hstrat)).trans ?_
  refine List.Perm.append_right _ ?_
  have hsame := signals_ensureSymbol e.symbol r
  unfold signals at hsame
  rw [hsame]
  exact hsignals

theorem shared_event {a : AnyEvent} (h : Shared r) (ha : onEvent cfg scfg dcfg r a = some r') : Shared r' := by
  cases a with
  | ohlcv ev => exact shared_bar h ha
  | depth ev =>
    cases ha
    exact h
  | ticker ev =>
    cases ha
    obtain ⟨accepted, refused, hsignals, hbooked⟩ := h
    refine ⟨accepted, refused, ?_, ?_, ?_⟩
    · have hsame : signals (onTicker ev r) = signals (ensureSymbol ev.symbol r) := rfl
      rw [hsame, signals_ensureSymbol]
      exact hsignals
    · show (PositionSim.booked (PositionSim.onTicker ev (ensureSymbol ev.symbol r).sim)).Perm _
      rw [ensureSymbol_sim]
      exact hbooked.booked
    · have hdropped : (onTicker ev r).dropped = r.dropped := by
        unfold onTicker ensureSymbol
        dsimp only
        split <;> rfl
      rw [hdropped]
      exact hbooked.dropped

theorem shared_run {windowId foldId : ℤ} {evs : List AnyEvent}
    (h : Runs.runM (onEvent cfg scfg dcfg) (init cfg windowId foldId) evs = some r) : Shared r :=
  Runs.runM_history (J := fun _ r => Shared r) ⟨[], [], List.Perm.refl _, List.Perm.refl _, fun _ => rfl⟩
    (fun _ _ _ _ hm ha => shared_event hm ha) evs r h

/-- The result accounts for the signals: each of them is traded or dropped. -/
structure Accounts (signals : List (String × EntrySignal)) (result : MultiSymbolResult) : Prop where
  each : ∃ accepted refused, signals.Perm (accepted ++ refused) ∧
    (result.trades.map Trade.key).Perm (accepted.map signalKey) ∧
    drops result.droppedEntries = refused.map fun x => (x.1, x.2.tsMs)
  count : signals.length = result.trades.length + (drops result.droppedEntries).length

variable (cfg dcfg r) in
/-- After the end of a run, the accepted entries are traded. -/
theorem close_trades (tsTo : ℤ) (stats : BacktestStats) :
    ((close cfg dcfg tsTo stats r).trades.map Trade.key).Perm (PositionSim.booked r.sim) := by
  have hmoves : Moves cfg (fun _ => False) r.sim (PositionSim.finalize cfg tsTo (fun _ => none) r.sim) := by
    refine step_moves (a := .finalize tsTo fun _ => none) fun signal symbol pos hentry => ?_
    cases hentry
  have hbooked := booked_of_moves hmoves
  unfold PositionSim.booked at hbooked
  rw [finalize_empty, List.map_nil, List.append_nil] at hbooked
  exact hbooked

/-- A run returns, with every signal accounted for as long as drops are recorded; the limits on positions hold
whenever the simulator is called, and no position is left open. -/
def AccountsFor (cfg : PositionSimConfig) (scfg : StrategyConfig) (dcfg : DetectorConfig) (windowId foldId : ℤ)
    (db : EventDb) (symbols : List String) (tsFrom tsTo : ℤ) : Prop :=
  ∃ r result calls,
    Runs.runM (onEvent cfg scfg dcfg) (init cfg windowId foldId) (streamMulti db symbols tsFrom tsTo) = some r ∧
    run cfg scfg dcfg windowId foldId db symbols tsFrom tsTo = some result ∧
    (calls.filterMap eventOf = (streamMulti db symbols tsFrom tsTo).filter (fun ev => ev.rank ≠ 1) ∧
      r.sim = Runs.run (step cfg) (PositionSim.init cfg windowId foldId) calls ∧
      Runs.Always (Limited cfg) (step cfg) (PositionSim.init cfg windowId foldId)
        (calls ++ [.finalize tsTo fun _ => none])) ∧
    (PositionSim.finalize cfg tsTo (fun _ => none) r.sim).trades = result.trades ∧
    (PositionSim.finalize cfg tsTo (fun _ => none) r.sim).positions.items = [] ∧
    (result.droppedEntries.length < dropHardCap → Accounts (signals r) result)

/-- **Every entry signal is accounted for**, in every run whose bars do not close at zero. -/
theorem signals_accounted (cfg : PositionSimConfig) (scfg : StrategyConfig) (dcfg : DetectorConfig)
    (windowId foldId : ℤ) (db : EventDb) (symbols : List String) (tsFrom tsTo : ℤ)
    (h : ∀ ev ∈ streamMulti db symbols tsFrom tsTo, NonzeroEvent ev) :
    AccountsFor cfg scfg dcfg windowId foldId db symbols tsFrom tsTo := by
  obtain ⟨result, hresult⟩ : ∃ result, run cfg scfg dcfg windowId foldId db symbols tsFrom tsTo = some result :=
    runOn_returns windowId foldId tsTo h
  have hrun := hresult
  unfold run runOn at hrun
  obtain ⟨r, hr, rfl⟩ := Option.map_eq_some_iff.mp hrun
  obtain ⟨calls, -, hevents, hsim⟩ := calls_run (streamMulti_replay db symbols tsFrom tsTo) hr
  refine ⟨r, _, calls, hr, hresult, ⟨hevents, hsim, limited_run windowId foldId _⟩, rfl, finalize_empty ..,
    fun hcap => ?_⟩
  obtain ⟨accepted, refused, hsignals, hbooked⟩ := shared_run hr
  have hclosed := close_trades cfg dcfg r tsTo ((streamMulti db symbols tsFrom tsTo).foldl countEvent {})
  have htrades := hclosed.trans hbooked.booked
  have hdrops := hbooked.dropped hcap
  refine ⟨⟨accepted, refused, hsignals, htrades, hdrops⟩, ?_⟩
  have hlen := hsignals.length_eq
  have htraded := htrades.length_eq
  have hdropped := congrArg List.length hdrops
  rw [List.length_append] at hlen
  rw [List.length_map, List.length_map] at htraded
  rw [List.length_map] at hdropped
  rw [hlen, htraded]
  exact congrArg _ hdropped.symm

/-- No bar of a table whose rows do not close at zero does. -/
theorem nonzero_streamMulti {db : EventDb} (h : ∀ row ∈ db.ohlcv, row.close.getD 0 ≠ 0) (symbols : List String)
    (tsFrom tsTo : ℤ) : ∀ ev ∈ streamMulti db symbols tsFrom tsTo, NonzeroEvent ev := by
  intro ev hev
  unfold streamMulti at hev
  simp only [mem_heapqMerge, List.mem_append, List.mem_map] at hev
  obtain ⟨g, (⟨s, -, rfl⟩ | ⟨s, -, rfl⟩) | ⟨s, -, rfl⟩, hev⟩ := hev
  · obtain ⟨row, hrow, rfl⟩ := List.mem_map.mp hev
    rw [List.mem_mergeSort, List.mem_filter] at hrow
    exact h row hrow.1
  · obtain ⟨row, -, rfl⟩ := List.mem_map.mp hev
    trivial
  · obtain ⟨row, -, rfl⟩ := List.mem_map.mp hev
    trivial

/-- A bar of a second around a price. -/
def barRow (symbol : String) (sec : ℤ) (price : ℚ) : OhlcvRow :=
  ⟨symbol, sec, some price, some (price + 1), some (price - 1), some price, some 1, some 1, some 1⟩

/-- Two symbols that gap up together: each gets a signal at 115 s. -/
def gapDb : EventDb where
  ohlcv := ["BTC_USDT", "ETH_USDT"].flatMap fun symbol =>
    [barRow symbol 100 100, barRow symbol 105 102, barRow symbol 110 104, barRow symbol 115 104]
  depth := []
  ticker := []

/-- There is room for one of the two signals. -/
theorem signals_accounted_gap : AccountsFor { gapConfig with maxPositionsGlobal := 1 } gapStrategy {} 0 0 gapDb
    ["BTC_USDT", "ETH_USDT"] 0 200000 :=
  signals_accounted _ _ _ _ _ _ _ _ _ (nonzero_streamMulti (by decide) _ _ _)

end MultiSymbolRunner

end MikoV2.Backtest
