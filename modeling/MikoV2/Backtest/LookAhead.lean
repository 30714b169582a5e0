import MikoV2.Backtest.StreamUnion
import MikoV2.Backtest.WalkForward
import MikoV2.Lib.Sorting

/-!
# A backtest does not look ahead

What a run has done up to a time depends on the rows up to that time.

* `AgreeUpTo` : two databases with the same rows up to a time; `streamMulti_upTo` : their streams are the same up to it;
* `Opening`, `openings` : an entry with its price, its size and its exits;
* `Decided` : an exit whose candle was complete; `Ahead` : the open candles are no earlier than the bars;
* `onOhlcv_trades` : a bar adds exits of the candle that it completes; `Since` : what a run adds after a time;
* `NoLookAhead`, `no_look_ahead` : the run over a longer range, of tables that go on differently.
-/

namespace MikoV2.Backtest
open Py (Dict)

/-! ## Streams -/

/-- The rows up to a time are the same. -/
structure AgreeUpTo (bound : ℤ) (db db' : EventDb) : Prop where
  ohlcv : (db.ohlcv.filter fun r => r.sec * 1000 ≤ bound) = db'.ohlcv.filter fun r => r.sec * 1000 ≤ bound
  depth : (db.depth.filter fun r => r.timestampMs ≤ bound) = db'.depth.filter fun r => r.timestampMs ≤ bound
  ticker : (db.ticker.filter fun r => r.tsMs ≤ bound) = db'.ticker.filter fun r => r.tsMs ≤ bound

section Queries
variable {ρ : Type} {key : ρ → String} {le : ρ → ρ → Bool} {f : ρ → AnyEvent} {rows rows' : List ρ}
  {symbol : String} {tsFrom tsTo bound : ℤ}

/-- Of what a query finds, the part up to an earlier time is what the query up to that time finds. -/
theorem query_upTo (stamp : ρ → ℤ) (htrans : ∀ a b c, le a b = true → le b c = true → le a c = true)
    (htotal : ∀ a b, (le a b || le b a) = true) (hf : ∀ r, (f r).tsMs = stamp r) (hbound : bound ≤ tsTo) :
    (((rows.filter fun r => key r = symbol ∧ tsFrom ≤ stamp r ∧ stamp r ≤ tsTo).mergeSort le).map f).filter
        (fun ev => ev.tsMs ≤ bound) =
      ((rows.filter fun r => key r = symbol ∧ tsFrom ≤ stamp r ∧ stamp r ≤ bound).mergeSort le).map f := by
  rw [List.filter_map, Sorting.filter_mergeSort htrans htotal, List.filter_filter]
  refine congrArg (fun l : List ρ => (l.mergeSort le).map f) (List.filter_congr fun r _ => ?_)
  have hstamp := hf r
  rw [Bool.eq_iff_iff, Bool.and_eq_true, Function.comp_apply, decide_eq_true_eq, decide_eq_true_eq, decide_eq_true_eq,
    hstamp]
  constructor
  · exact fun h => ⟨h.2.1, h.2.2.1, h.1⟩
  · exact fun h => ⟨h.2.2, h.1, h.2.1, h.2.2.trans hbound⟩

/-- A query up to a time reads the rows up to it. -/
theorem query_congr (stamp : ρ → ℤ) (h : (rows.filter fun r => stamp r ≤ bound) = rows'.filter fun r => stamp r ≤ bound) :
    (rows.filter fun r => key r = symbol ∧ tsFrom ≤ stamp r ∧ stamp r ≤ bound) =
      rows'.filter fun r => key r = symbol ∧ tsFrom ≤ stamp r ∧ stamp r ≤ bound := by
  have hpart : ∀ l : List ρ, (l.filter fun r => key r = symbol ∧ tsFrom ≤ stamp r ∧ stamp r ≤ bound) =
      (l.filter fun r => stamp r ≤ bound).filter fun r => key r = symbol ∧ tsFrom ≤ stamp r ∧ stamp r ≤ bound := by
    intro l
    rw [List.filter_filter]
    refine List.filter_congr fun r _ => ?_
    rw [Bool.eq_iff_iff, Bool.and_eq_true, decide_eq_true_eq, decide_eq_true_eq]
    exact ⟨fun hr => ⟨hr, hr.2.2⟩, fun hr => hr.1⟩
  rw [hpart rows, hpart rows', h]

end Queries

section Streams
variable {db db' : EventDb} {symbols : List String} {tsFrom tsTo bound : ℤ}

theorem ohlcvGen_upTo (hbound : bound ≤ tsTo) (s : String) :
    (ohlcvGen db s tsFrom tsTo).filter (fun ev => ev.tsMs ≤ bound) = ohlcvGen db s tsFrom bound :=
  query_upTo (fun r : OhlcvRow => r.sec * 1000) (by simp; omega) (by simp; omega) (fun _ => rfl) hbound

theorem depthGen_upTo (hbound : bound ≤ tsTo) (s : String) :
    (depthGen db s tsFrom tsTo).filter (fun ev => ev.tsMs ≤ bound) = depthGen db s tsFrom bound :=
  query_upTo DepthRow.timestampMs (by simp; omega) (by simp; omega) (fun _ => rfl) hbound

theorem tickerGen_upTo (hbound : bound ≤ tsTo) (s : String) :
    (tickerGen db s tsFrom tsTo).filter (fun ev => ev.tsMs ≤ bound) = tickerGen db s tsFrom bound :=
  query_upTo TickerRow.tsMs (by simp; omega) (by simp; omega) (fun _ => rfl) hbound

/-- The part of a stream up to a time is the stream up to that time. -/
theorem filter_streamMulti (hbound : bound ≤ tsTo) :
    (streamMulti db symbols tsFrom tsTo).filter (fun ev => ev.tsMs ≤ bound) = streamMulti db symbols tsFrom bound := by
  unfold streamMulti
  dsimp only
  rw [filter_heapqMerge _ mergeLe_trans mergeLe_total (streamMulti_gens_sorted db tsFrom tsTo _)]
  simp only [List.map_append, List.map_map, Function.comp_def, ohlcvGen_upTo hbound, depthGen_upTo hbound,
    tickerGen_upTo hbound]

theorem AgreeUpTo.mono {earlier : ℤ} (h : AgreeUpTo bound db db') (hle : earlier ≤ bound) : AgreeUpTo earlier db db' := by
  have hpart : ∀ {ρ : Type} (stamp : ρ → ℤ) (l : List ρ), (l.filter fun r => stamp r ≤ earlier) =
      (l.filter fun r => stamp r ≤ bound).filter fun r => stamp r ≤ earlier := by
    intro ρ stamp l
    rw [List.filter_filter]
    refine List.filter_congr fun r _ => ?_
    rw [Bool.eq_iff_iff, Bool.and_eq_true, decide_eq_true_eq, decide_eq_true_eq]
    exact ⟨fun hr => ⟨hr, hr.trans hle⟩, fun hr => hr.1⟩
  refine ⟨?_, ?_, ?_⟩
  · rw [hpart (fun r : OhlcvRow => r.sec * 1000), h.ohlcv, ← hpart fun r : OhlcvRow => r.sec * 1000]
  · rw [hpart DepthRow.timestampMs, h.depth, ← hpart]
  · rw [hpart TickerRow.tsMs, h.ticker, ← hpart]

/-- Up to the time up to which the tables agree, the streams are the same. -/
theorem AgreeUpTo.streamMulti (h : AgreeUpTo bound db db') :
    streamMulti db symbols tsFrom bound = Backtest.streamMulti db' symbols tsFrom bound := by
  unfold Backtest.streamMulti ohlcvGen depthGen tickerGen
  simp only [query_congr (fun r : OhlcvRow => r.sec * 1000) h.ohlcv, query_congr DepthRow.timestampMs h.depth,
    query_congr TickerRow.tsMs h.ticker]

/-- **The stream up to a time**, and then what comes after it. -/
theorem streamMulti_upTo (symbols : List String) (tsFrom : ℤ) (h : AgreeUpTo bound db db') (hbound : bound ≤ tsTo) : ∃ later,
    streamMulti db symbols tsFrom tsTo = streamMulti db' symbols tsFrom bound ++ later ∧
      ∀ ev ∈ later, bound < ev.tsMs := by
  refine ⟨(streamMulti db symbols tsFrom tsTo).filter fun ev => bound < ev.tsMs, ?_, fun ev hev => ?_⟩
  · have hsplit := Sorting.filter_append_of_pairwise AnyEvent.tsMs bound
      (streamMulti_replay db symbols tsFrom tsTo).sorted
    rw [filter_streamMulti hbound, h.streamMulti] at hsplit
    exact hsplit
  · exact of_decide_eq_true (List.mem_filter.mp hev).2

end Streams

/-! ## Entries and exits -/

/-- An entry: where, when, at which price, how much, and its stop and target. -/
structure Opening where
  symbol : String
  direction : PaperMath.Direction
  entryTsMs : ℤ
  entryPrice : ℚ
  qty : ℚ
  slPrice : ℚ
  tpPrice : ℚ
deriving DecidableEq

namespace PositionSim
open PaperMath (Direction ExitReason)

def Trade.opening (t : Trade) : Opening :=
  ⟨t.symbol, t.direction, t.entryTsMs, t.entryPrice, t.qty, t.slPrice, t.tpPrice⟩

def openOpening (e : String × Position) : Opening :=
  ⟨e.1, e.2.direction, e.2.entryTsMs, e.2.entryPrice, e.2.qty, e.2.slPrice, e.2.tpPrice⟩

/-- The entries that were accepted: those traded and those open. -/
def openings (s : PositionSimulator) : List Opening := s.trades.map Trade.opening ++ s.positions.items.map openOpening

/-- A bar of the symbol shows that the candle of the exit was complete. -/
def Decided (bars : List OHLCVEvent) (t : Trade) : Prop :=
  t.exitReason ≠ .END_OF_BACKTEST ∧ ∃ ev ∈ bars, ev.symbol = t.symbol ∧ t.exitTsMs + candleSec * 1000 ≤ ev.tsMs

instance (bars : List OHLCVEvent) : DecidablePred (Decided bars) := fun t => by
  unfold Decided
  infer_instance

variable {cfg : PositionSimConfig} {s s' : PositionSimulator} {symbol k : String} {bars : List OHLCVEvent} {e : OHLCVEvent}

theorem Decided.mono {bars' : List OHLCVEvent} {t : Trade} (h : Decided bars t)
    (hsub : ∀ ev ∈ bars, ev ∈ bars') : Decided bars' t := by
  obtain ⟨hreason, ev, hev, hle⟩ := h
  exact ⟨hreason, ev, hsub ev hev, hle⟩

theorem openings_of_move (h : Move cfg (fun _ => False) s s') : (openings s').Perm (openings s) := by
  cases h with
  | quiet h =>
    unfold openings
    rw [h.positions, h.trades]
  | funded fundingPaid h =>
    rename_i symbol pos
    have hitems : (s.positions.set symbol { pos with fundingPaid }).items.map openOpening =
        s.positions.items.map openOpening := Dict.map_items_set_of_eq openOpening h rfl
    show (s.trades.map Trade.opening ++ (s.positions.set symbol { pos with fundingPaid }).items.map openOpening).Perm _
    rw [hitems]
    exact List.Perm.refl _
  | opened hfree h => exact h.elim
  | closed tsMs px reason h hexit =>
    rename_i symbol pos
    rw [closePosition_of_some h]
    unfold openings
    have hitems := ((Dict.items_perm_erase h).map openOpening).append_left (s.trades.map Trade.opening)
    rw [List.map_append, List.append_assoc]
    exact hitems.symm

theorem openings_of_moves (h : Moves cfg (fun _ => False) s s') : (openings s').Perm (openings s) :=
  h.keeps (fun _ _ hs hm => (openings_of_move hm).trans hs) (List.Perm.refl _)

/-- Closing out keeps the openings. -/
theorem finalize_openings (cfg : PositionSimConfig) (lastTsMs : ℤ) (prices : String → Option ℚ) (s : PositionSimulator) :
    ((finalize cfg lastTsMs prices s).trades.map Trade.opening).Perm (openings s) := by
  have hmoves : Moves cfg (fun _ => False) s (finalize cfg lastTsMs prices s) := by
    refine step_moves (a := .finalize lastTsMs prices) fun signal symbol pos hentry => ?_
    cases hentry
  have hopenings := openings_of_moves hmoves
  unfold openings at hopenings
  rw [finalize_empty, List.map_nil, List.append_nil] at hopenings
  exact hopenings

/-- An entry adds an opening at its time, or none. -/
theorem onEntry_openings (cfg : PositionSimConfig) (signal : EntrySignal) (symbol : String) (s : PositionSimulator) :
    ∃ added, openings (onEntry cfg signal symbol s).2 = openings s ++ added ∧ ∀ o ∈ added, o.entryTsMs = signal.tsMs := by
  unfold onEntry
  cases hdec : entryDecision cfg s signal symbol with
  | error reason => exact ⟨[], (List.append_nil _).symm, fun o ho => by cases ho⟩
  | ok pos =>
    have hfree := Dict.get?_eq_none.mp (entryDecision_free hdec)
    obtain ⟨-, ⟨hts, -⟩, -⟩ := entryDecision_spec hdec
    refine ⟨[openOpening (symbol, pos)], ?_, fun o ho => ?_⟩
    · show s.trades.map Trade.opening ++ (s.positions.set symbol pos).items.map openOpening = _
      rw [Dict.items_set_of_not_mem hfree, List.map_append, ← List.append_assoc]
      rfl
    · rw [List.mem_singleton.mp ho]
      exact hts

/-! ## Candles that are complete -/

theorem exitOf_reason {pos : Position} {c : Candle5s} {px : ℚ} {reason : ExitReason}
    (h : exitOf pos c = some (px, reason)) : reason ≠ .END_OF_BACKTEST := by
  rintro rfl
  unfold exitOf at h
  split at h
  · cases h
  · split at h
    · cases h
    · split at h <;> cases h

/-- The exits that a check records: of its symbol, at the time of its candle. -/
theorem CandleCheck.added {c : Candle5s} (h : CandleCheck cfg k c s s') : ∃ added, s'.trades = s.trades ++ added ∧
    ∀ t ∈ added, t.symbol = k ∧ t.exitTsMs = c.tsMs ∧ t.exitReason ≠ .END_OF_BACKTEST := by
  cases h with
  | free _ _ htrades => exact ⟨[], by rw [htrades, List.append_nil], fun t ht => by cases ht⟩
  | stay _ _ _ _ _ htrades => exact ⟨[], by rw [htrades, List.append_nil], fun t ht => by cases ht⟩
  | exit pos px reason _ hexit _ htrades =>
    refine ⟨_, htrades, fun t ht => ?_⟩
    rw [List.mem_singleton.mp ht]
    exact ⟨rfl, rfl, exitOf_reason hexit⟩

/-- An open candle is stamped with its bucket. -/
def OnGrid (s : PositionSimulator) : Prop :=
  ∀ k c, s.active.get? k = some c → bucketSec c.sec = c.sec ∧ c.tsMs = c.sec * 1000

/-- None of the open candles is complete as far as the bars show. -/
def Current (bars : List OHLCVEvent) (s : PositionSimulator) : Prop :=
  ∀ k c, s.active.get? k = some c → ∀ ev ∈ bars, ev.symbol = k → ev.tsMs < c.tsMs + candleSec * 1000

/-- The symbols of the bars have an open candle. -/
def Seen (bars : List OHLCVEvent) (s : PositionSimulator) : Prop :=
  ∀ ev ∈ bars, ∃ c, s.active.get? ev.symbol = some c

/-- The open candles are those of the last bars. -/
structure Ahead (bars : List OHLCVEvent) (s : PositionSimulator) : Prop where
  onGrid : OnGrid s
  current : Current bars s
  seen : Seen bars s

theorem Ahead.of_active (h : Ahead bars s) (hact : s'.active = s.active) : Ahead bars s' := by
  refine ⟨?_, ?_, ?_⟩
  · unfold OnGrid
    rw [hact]
    exact h.onGrid
  · unfold Current
    rw [hact]
    exact h.current
  · unfold Seen
    rw [hact]
    exact h.seen

theorem Ahead.init (cfg : PositionSimConfig) (windowId foldId : ℤ) : Ahead [] (PositionSim.init cfg windowId foldId) :=
  ⟨fun _ _ h => (nomatch h), fun _ _ h => (nomatch h), fun _ hev => (nomatch hev)⟩

theorem bucketSec_bounds (sec : ℤ) : bucketSec sec ≤ sec ∧ sec < bucketSec sec + candleSec := by
  unfold bucketSec candleSec
  omega

/-- The candle that a bar leaves open for its symbol is no earlier than the one before, and than the bar. -/
theorem bar_candle (cfg : PositionSimConfig) (h : OnGrid s) (hstamp : e.tsMs = e.sec * 1000) : ∃ c,
    (onOhlcv cfg e s).active.get? e.symbol = some c ∧
    (bucketSec c.sec = c.sec ∧ c.tsMs = c.sec * 1000) ∧ e.tsMs < c.tsMs + candleSec * 1000 ∧
      ∀ a, s.active.get? e.symbol = some a → a.tsMs ≤ c.tsMs := by
  have hbounds := bucketSec_bounds e.sec
  rcases onOhlcv_open cfg e s with ⟨hlater, hnew⟩ | ⟨a, hact, hle, hold⟩
  · refine ⟨newCandle e, hnew, ⟨bucketSec_idem _, rfl⟩, ?_, fun a ha => ?_⟩
    · show e.tsMs < bucketSec e.sec * 1000 + _
      omega
    · have hlt : a.sec < bucketSec e.sec := hlater a ha
      have hts := (h _ a ha).2
      show a.tsMs ≤ bucketSec e.sec * 1000
      omega
  · have hclock := h _ a hact
    have hle : bucketSec e.sec ≤ a.sec := hle
    refine ⟨_, hold, ?_, ?_, fun b hb => ?_⟩
    · split
      · exact hclock
      · exact hclock
    · have hts : (if barBucket e = a.sec then mergeBar a e else a).tsMs = a.tsMs := by split <;> rfl
      omega
    · rw [hact] at hb
      cases hb
      split <;> exact le_rfl

/-- **A bar** keeps the candles ahead, of itself too. -/
theorem Ahead.bar (h : Ahead bars s) (hstamp : e.tsMs = e.sec * 1000) : Ahead (bars ++ [e]) (onOhlcv cfg e s) := by
  obtain ⟨c, hc, hclock, hlater, hmono⟩ := bar_candle cfg h.onGrid hstamp
  have hother : ∀ k, k ≠ e.symbol → (onOhlcv cfg e s).active.get? k = s.active.get? k := fun k hk =>
    (onOhlcv_other hk s).active
  refine ⟨fun k c' hc' => ?_, fun k c' hc' ev hev hsym => ?_, fun ev hev => ?_⟩
  · by_cases hk : k = e.symbol
    · rw [hk, hc] at hc'
      cases hc'
      exact hclock
    · rw [hother k hk] at hc'
      exact h.onGrid k c' hc'
  · by_cases hk : k = e.symbol
    · rw [hk, hc] at hc'
      cases hc'
      rcases List.mem_append.mp hev with hold | hnew
      · obtain ⟨a, ha⟩ := h.seen ev hold
        have hlt := h.current _ a ha ev hold rfl
        rw [hsym, hk] at ha
        have hle := hmono a ha
        omega
      · rw [List.mem_singleton.mp hnew]
        exact hlater
    · rw [hother k hk] at hc'
      rcases List.mem_append.mp hev with hold | hnew
      · exact h.current k c' hc' ev hold hsym
      · rw [List.mem_singleton.mp hnew] at hsym
        exact absurd hsym.symm hk
  · by_cases hk : ev.symbol = e.symbol
    · rw [hk]
      exact ⟨c, hc⟩
    · rcases List.mem_append.mp hev with hold | hnew
      · rw [hother _ hk]
        exact h.seen ev hold
      · rw [List.mem_singleton.mp hnew] at hk
        exact absurd rfl hk

theorem Ahead.mono {bars' : List OHLCVEvent} (h : Ahead bars' s) (hsub : ∀ ev ∈ bars, ev ∈ bars') : Ahead bars s :=
  ⟨h.onGrid, fun k c hc ev hev => h.current k c hc ev (hsub ev hev), fun ev hev => h.seen ev (hsub ev hev)⟩

/-- The exits that a bar records are decided by it, and not by the bars that the candles were ahead of. -/
theorem Ahead.exits (h : Ahead bars s) (hstamp : e.tsMs = e.sec * 1000) : ∃ added,
    (onOhlcv cfg e s).trades = s.trades ++ added ∧ ∀ t ∈ added, Decided [e] t ∧ ¬ Decided bars t := by
  rcases onOhlcv_record cfg e s with hsame | ⟨c, pos, px, reason, hact, hlt, hget, hexit, -, htrades⟩
  · exact ⟨[], by rw [hsame, List.append_nil], fun t ht => by cases ht⟩
  · refine ⟨_, htrades, fun t ht => ?_⟩
    rw [List.mem_singleton.mp ht]
    refine ⟨⟨exitOf_reason hexit, e, List.mem_singleton_self e, rfl, ?_⟩, ?_⟩
    · have hclock := h.onGrid _ c hact
      have hlt : c.sec < bucketSec e.sec := hlt
      have hbounds := bucketSec_bounds e.sec
      have hnext : c.sec + candleSec ≤ bucketSec e.sec := by
        rw [← hclock.1] at hlt ⊢
        unfold bucketSec candleSec at hlt ⊢
        omega
      show c.tsMs + _ ≤ _
      omega
    · rintro ⟨-, ev, hev, hsym, hle⟩
      have hnot := h.current _ c hact ev hev hsym
      have hle : c.tsMs + candleSec * 1000 ≤ ev.tsMs := hle
      omega

/-- The candles that the end of a run cuts off record no exit that the bars have decided. -/
theorem Current.flush (cfg : PositionSimConfig) (l : List String) : ∀ s : PositionSimulator, Current bars s → ∃ added,
    (l.foldl (fun s symbol => finalizeActive cfg symbol s) s).trades = s.trades ++ added ∧
      ∀ t ∈ added, ¬ Decided bars t := by
  induction l with
  | nil => exact fun s _ => ⟨[], (List.append_nil _).symm, fun t ht => by cases ht⟩
  | cons k l ih =>
    intro s hs
    cases hact : s.active.get? k with
    | none =>
      rw [List.foldl_cons, finalizeActive_of_none hact]
      exact ih s hs
    | some c =>
      obtain ⟨first, hfirst, hcandle⟩ := (finalizeActive_check cfg hact).added
      obtain ⟨rest, hrest, hundecided⟩ := ih (finalizeActive cfg k s) fun k' c' hc' => by
        rw [(finalizeActive_candles hact).1, Dict.get?_erase] at hc'
        split at hc'
        · cases hc'
        · exact hs k' c' hc'
      refine ⟨first ++ rest, ?_, List.forall_mem_append.mpr ⟨fun t ht => ?_, hundecided⟩⟩
      · rw [List.foldl_cons, hrest, hfirst, List.append_assoc]
      · obtain ⟨hsym, hts, -⟩ := hcandle t ht
        rintro ⟨-, ev, hev, hsym', hle⟩
        have hlt := hs k c hact ev hev (hsym'.trans hsym)
        omega

/-- What the end of a run closes has no other exit. -/
theorem closeAll_added (cfg : PositionSimConfig) (tsTo : ℤ) (l : List String) : ∀ s : PositionSimulator, ∃ added,
    (l.foldl (finalizePosition cfg tsTo fun _ => none) s).trades = s.trades ++ added ∧
      ∀ t ∈ added, t.exitReason = .END_OF_BACKTEST := by
  induction l with
  | nil => exact fun s => ⟨[], (List.append_nil _).symm, fun t ht => by cases ht⟩
  | cons k l ih =>
    intro s
    obtain ⟨rest, hrest, hend⟩ := ih (finalizePosition cfg tsTo (fun _ => none) s k)
    rw [List.foldl_cons, hrest]
    unfold finalizePosition
    cases hget : s.positions.get? k with
    | none => exact ⟨rest, rfl, hend⟩
    | some pos =>
      dsimp only
      rw [closePosition_of_some hget]
      exact ⟨_ :: rest, by rw [List.append_assoc, List.singleton_append], List.forall_mem_cons.mpr ⟨rfl, hend⟩⟩

/-- **The end of a run** records no exit that the bars have decided. -/
theorem Current.finalize (cfg : PositionSimConfig) (h : Current bars s) (tsTo : ℤ) : ∃ added,
    (finalize cfg tsTo (fun _ => none) s).trades = s.trades ++ added ∧ ∀ t ∈ added, ¬ Decided bars t := by
  obtain ⟨first, hfirst, hundecided⟩ := Current.flush cfg s.active.keys s h
  unfold PositionSim.finalize
  dsimp only
  generalize s.active.keys.foldl (fun s symbol => finalizeActive cfg symbol s) s = flushed at hfirst ⊢
  obtain ⟨rest, hrest, hend⟩ := closeAll_added cfg tsTo flushed.positions.keys flushed
  refine ⟨first ++ rest, ?_, List.forall_mem_append.mpr ⟨hundecided, fun t ht hdecided => hdecided.1 (hend t ht)⟩⟩
  rw [hrest, hfirst, List.append_assoc]

end PositionSim

/-! ## Runs -/

namespace MultiSymbolRunner
open PositionSim

variable {cfg : PositionSimConfig} {scfg : StrategyConfig} {dcfg : DetectorConfig} {r r' r₀ : MultiSymbolRunner}
  {e : OHLCVEvent} {pre : List AnyEvent} {bound : ℤ}

theorem recordDrop_added (reason : DropReason) (symbol : String) (tsMs : ℤ) (r : MultiSymbolRunner) : ∃ added,
    (recordDrop reason symbol tsMs r).dropped = r.dropped ++ added ∧ ∀ d ∈ added, d.tsMs = tsMs := by
  unfold recordDrop
  split
  · exact ⟨[], (List.append_nil _).symm, fun d hd => by cases hd⟩
  · exact ⟨[⟨reason, symbol, tsMs⟩], rfl, by simp⟩

theorem execute_added (cfg : PositionSimConfig) (symbol : String) (tsMs : ℤ) (entries : List EntrySignal) :
    ∀ r : MultiSymbolRunner, ∃ added, (entries.foldl (execute cfg symbol tsMs) r).dropped = r.dropped ++ added ∧
      ∀ d ∈ added, d.tsMs = tsMs := by
  induction entries with
  | nil => exact fun r => ⟨[], (List.append_nil _).symm, fun d hd => by cases hd⟩
  | cons entry entries ih =>
    intro r
    obtain ⟨rest, hrest, hall⟩ := ih (execute cfg symbol tsMs r entry)
    rw [List.foldl_cons, hrest]
    unfold execute
    split
    · exact ⟨rest, rfl, hall⟩
    · obtain ⟨first, hfirst, hone⟩ := recordDrop_added _ symbol tsMs _
      exact ⟨first ++ rest, by rw [hfirst, List.append_assoc], List.forall_mem_append.mpr ⟨hone, hall⟩⟩

/-- The drops that a bar records are of its time. -/
theorem onOhlcv_dropped (h : onOhlcv cfg scfg dcfg e r = some r') : ∃ added,
    r'.dropped = r.dropped ++ added ∧ ∀ d ∈ added, d.tsMs = e.tsMs := by
  obtain ⟨entries, strat, fed, -, -, hdropped, -, rfl⟩ := onOhlcv_cases h
  obtain ⟨rest, hrest, hall⟩ := execute_added cfg e.symbol e.tsMs entries
    (noteCooldown e entries strat.lastRejectionReason fed)
  rw [hrest]
  unfold noteCooldown
  dsimp only
  split
  · obtain ⟨first, hfirst, hone⟩ := recordDrop_added .cooldown_active e.symbol e.tsMs fed
    exact ⟨first ++ rest, by rw [hfirst, hdropped, List.append_assoc], List.forall_mem_append.mpr ⟨hone, hall⟩⟩
  · exact ⟨rest, by rw [hdropped], hall⟩

/-- The entries of a bar leave the candles and the trades alone. -/
theorem entries_openings (cfg : PositionSimConfig) (symbol : String) {tsMs : ℤ} {entries : List EntrySignal}
    (hts : ∀ x ∈ entries, x.tsMs = tsMs) : ∀ s : PositionSimulator,
      let s' := entries.foldl (fun s entry => (onEntry cfg entry symbol s).2) s
      s'.active = s.active ∧ s'.trades = s.trades ∧
        ∃ added, openings s' = openings s ++ added ∧ ∀ o ∈ added, o.entryTsMs = tsMs := by
  induction entries with
  | nil => exact fun s => ⟨rfl, rfl, [], (List.append_nil _).symm, fun o ho => by cases ho⟩
  | cons entry entries ih =>
    intro s
    obtain ⟨hactive, htrades, rest, hrest, hall⟩ :=
      ih (fun x hx => hts x (List.mem_cons_of_mem entry hx)) (onEntry cfg entry symbol s).2
    obtain ⟨first, hfirst, hone⟩ := onEntry_openings cfg entry symbol s
    refine ⟨hactive.trans (onEntry_feed cfg entry symbol s).active, htrades.trans (onEntry_trades cfg entry symbol s),
      first ++ rest, ?_, List.forall_mem_append.mpr ⟨fun o ho => ?_, hall⟩⟩
    · rw [List.foldl_cons, hrest, hfirst, List.append_assoc]
    · rw [hone o ho]
      exact hts entry List.mem_cons_self

/-- What a bar adds: drops and entries of its time, and exits that it decides. -/
theorem bar_added {bars : List OHLCVEvent} (h : Ahead bars r.sim) (hstamp : e.tsMs = e.sec * 1000)
    (ha : onOhlcv cfg scfg dcfg e r = some r') : Ahead (bars ++ [e]) r'.sim ∧
      (∃ drops, r'.dropped = r.dropped ++ drops ∧ ∀ d ∈ drops, d.tsMs = e.tsMs) ∧
      (∃ exits, r'.sim.trades = r.sim.trades ++ exits ∧ ∀ t ∈ exits, Decided [e] t ∧ ¬ Decided bars t) ∧
      ∃ opened, (openings r'.sim).Perm (openings r.sim ++ opened) ∧ ∀ o ∈ opened, o.entryTsMs = e.tsMs := by
  obtain ⟨entries, hts, hsim⟩ := onOhlcv_sim ha
  obtain ⟨hactive, htrades, opened, hopened, hopenTs⟩ :=
    entries_openings cfg e.symbol hts (PositionSim.onOhlcv cfg e r.sim)
  rw [← hsim] at hactive htrades hopened
  refine ⟨(h.bar hstamp).of_active hactive, onOhlcv_dropped ha, htrades ▸ h.exits hstamp, opened, ?_, hopenTs⟩
  rw [hopened]
  exact (openings_of_moves (onOhlcv_moves cfg e r.sim)).append_right _

/-- What a run has done since `r₀`, at which it had read `bars`: later drops, later entries, and exits that the bars had
not decided. -/
structure Since (bound : ℤ) (bars : List OHLCVEvent) (r₀ r : MultiSymbolRunner) : Prop where
  ahead : Ahead bars r.sim
  dropped : ∃ added, r.dropped = r₀.dropped ++ added ∧ ∀ d ∈ added, bound < d.tsMs
  trades : ∃ added, r.sim.trades = r₀.sim.trades ++ added ∧ ∀ t ∈ added, ¬ Decided bars t
  openings : ∃ added, (openings r.sim).Perm (openings r₀.sim ++ added) ∧ ∀ o ∈ added, bound < o.entryTsMs

/-- What a run has done up to a time. -/
structure UpTo (bound : ℤ) (pre : List AnyEvent) (r : MultiSymbolRunner) : Prop where
  ahead : Ahead (ohlcvs pre) r.sim
  dropped : ∀ d ∈ r.dropped, d.tsMs ≤ bound
  trades : ∀ t ∈ r.sim.trades, Decided (ohlcvs pre) t
  openings : ∀ o ∈ openings r.sim, o.entryTsMs ≤ bound

/-- An event after the bars that were read. -/
theorem Since.event {bars : List OHLCVEvent} {a : AnyEvent} (h : Since bound bars r₀ r) (hstamp : a.Stamped)
    (hlater : bound < a.tsMs) (ha : onEvent cfg scfg dcfg r a = some r') : Since bound bars r₀ r' := by
  cases a with
  | depth ev =>
    cases ha
    exact h
  | ticker ev =>
    cases ha
    unfold onTicker
    refine ⟨h.ahead.of_active ?_, ?_, ?_, ?_⟩ <;> dsimp only <;>
      simp only [ensureSymbol_sim, ensureSymbol_dropped]
    · rfl
    · exact h.dropped
    · exact h.trades
    · exact h.openings
  | ohlcv e =>
    obtain ⟨hahead, ⟨drops, hdrops, hdropTs⟩, ⟨exits, hexits, hdecided⟩, opened, hopened, hopenTs⟩ :=
      bar_added h.ahead hstamp ha
    obtain ⟨oldDrops, hd, hdTs⟩ := h.dropped
    obtain ⟨oldExits, ht, hold⟩ := h.trades
    obtain ⟨oldOpened, ho, hoTs⟩ := h.openings
    have hlater : bound < e.tsMs := hlater
    refine ⟨hahead.mono fun ev => List.mem_append_left _, ⟨oldDrops ++ drops, ?_, ?_⟩, ⟨oldExits ++ exits, ?_, ?_⟩,
      ⟨oldOpened ++ opened, ?_, ?_⟩⟩
    · rw [hdrops, hd, List.append_assoc]
    · exact List.forall_mem_append.mpr ⟨hdTs, fun d hd => (hdropTs d hd).symm ▸ hlater⟩
    · rw [hexits, ht, List.append_assoc]
    · exact List.forall_mem_append.mpr ⟨hold, fun t ht => (hdecided t ht).2⟩
    · rw [← List.append_assoc]
      exact hopened.trans (ho.append_right _)
    · exact List.forall_mem_append.mpr ⟨hoTs, fun o ho => (hopenTs o ho).symm ▸ hlater⟩

/-- An event up to the time. -/
theorem UpTo.event {a : AnyEvent} (h : UpTo bound pre r) (hstamp : a.Stamped) (hbound : a.tsMs ≤ bound)
    (ha : onEvent cfg scfg dcfg r a = some r') : UpTo bound (pre ++ [a]) r' := by
  cases a with
  | depth ev =>
    cases ha
    have hbars : ohlcvs (pre ++ [.depth ev]) = ohlcvs pre := by rw [ohlcvs_append]; exact List.append_nil _
    refine ⟨?_, h.dropped, ?_, h.openings⟩ <;> rw [hbars]
    · exact h.ahead
    · exact h.trades
  | ticker ev =>
    cases ha
    have hbars : ohlcvs (pre ++ [.ticker ev]) = ohlcvs pre := by rw [ohlcvs_append]; exact List.append_nil _
    unfold onTicker
    refine ⟨hbars.symm ▸ h.ahead.of_active ?_, ?_, ?_, ?_⟩ <;> dsimp only <;>
      simp only [ensureSymbol_sim, ensureSymbol_dropped, hbars]
    · rfl
    · exact h.dropped
    · exact h.trades
    · exact h.openings
  | ohlcv e =>
    have hbars : ohlcvs (pre ++ [.ohlcv e]) = ohlcvs pre ++ [e] := ohlcvs_append ..
    obtain ⟨hahead, ⟨drops, hdrops, hdropTs⟩, ⟨exits, hexits, hdecided⟩, opened, hopened, hopenTs⟩ :=
      bar_added h.ahead hstamp ha
    have hbound : e.tsMs ≤ bound := hbound
    refine ⟨?_, ?_, ?_, fun o ho => ?_⟩
    · rw [hbars]
      exact hahead
    · rw [hdrops]
      exact List.forall_mem_append.mpr ⟨h.dropped, fun d hd => (hdropTs d hd).symm ▸ hbound⟩
    · rw [hexits, hbars]
      exact List.forall_mem_append.mpr ⟨fun t ht => (h.trades t ht).mono fun ev => List.mem_append_left _,
        fun t ht => (hdecided t ht).1.mono fun ev => List.mem_append_right _⟩
    · rcases List.mem_append.mp (hopened.subset ho) with ho | ho
      · exact h.openings o ho
      · exact (hopenTs o ho).symm ▸ hbound

theorem upTo_run {windowId foldId : ℤ} {evs : List AnyEvent} (hstamp : ∀ ev ∈ evs, ev.Stamped)
    (hbound : ∀ ev ∈ evs, ev.tsMs ≤ bound) (h : Runs.runM (onEvent cfg scfg dcfg) (init cfg windowId foldId) evs = some r) :
    UpTo bound evs r := by
  refine Runs.runM_history (J := fun pre r => pre <+: evs → UpTo bound pre r) (fun _ => ?_)
    (fun pre a m t hm ha hpre => ?_) evs r h (List.prefix_refl evs)
  · exact ⟨.init cfg windowId foldId, fun d hd => (nomatch hd), fun t ht => (nomatch ht), fun o ho => (nomatch ho)⟩
  · have hmem : a ∈ evs := hpre.subset (List.mem_append_right _ (List.mem_singleton_self a))
    exact (hm ((List.prefix_append pre [a]).trans hpre)).event (hstamp a hmem) (hbound a hmem) ha

theorem since_run {bars : List OHLCVEvent} {evs : List AnyEvent} (hstamp : ∀ ev ∈ evs, ev.Stamped)
    (hlater : ∀ ev ∈ evs, bound < ev.tsMs) (h₀ : Ahead bars r₀.sim) (h : Runs.runM (onEvent cfg scfg dcfg) r₀ evs = some r) :
    Since bound bars r₀ r := by
  refine Runs.runM_history (J := fun pre r => pre <+: evs → Since bound bars r₀ r) (fun _ => ?_)
    (fun pre a m t hm ha hpre => ?_) evs r h (List.prefix_refl evs)
  · exact ⟨h₀, ⟨[], (List.append_nil _).symm, fun d hd => (nomatch hd)⟩,
      ⟨[], (List.append_nil _).symm, fun t ht => (nomatch ht)⟩, ⟨[], by rw [List.append_nil], fun o ho => (nomatch ho)⟩⟩
  · have hmem : a ∈ evs := hpre.subset (List.mem_append_right _ (List.mem_singleton_self a))
    exact (hm ((List.prefix_append pre [a]).trans hpre)).event (hstamp a hmem) (hlater a hmem) ha

/-! ## No look-ahead -/

/-- What a longer run has done up to a time, and the run up to that time. -/
structure NoLookAhead (bound : ℤ) (bars : List OHLCVEvent) (past result : MultiSymbolResult) : Prop where
  /-- the same entries, at the same prices and sizes, with the same stops and targets -/
  entered : ((result.trades.filter fun t => t.entryTsMs ≤ bound).map Trade.opening).Perm (past.trades.map Trade.opening)
  /-- the same exits in the same order, once the candle of the exit is complete -/
  exited : result.trades.filter (Decided bars) = past.trades.filter (Decided bars)
  /-- the same refusals in the same order -/
  dropped : result.droppedEntries.filter (fun d => d.tsMs ≤ bound) = past.droppedEntries

theorem close_openings (cfg : PositionSimConfig) (dcfg : DetectorConfig) (tsTo : ℤ) (stats : BacktestStats)
    (r : MultiSymbolRunner) :
    ((close cfg dcfg tsTo stats r).trades.map Trade.opening).Perm (PositionSim.openings r.sim) :=
  finalize_openings ..

/-- A run closed at a time, and one that went on. -/
theorem UpTo.noLookAhead (h₀ : UpTo bound pre r₀) (h : Since bound (ohlcvs pre) r₀ r)
    (tsTo tsTo' : ℤ) (stats stats' : BacktestStats) :
    NoLookAhead bound (ohlcvs pre) (close cfg dcfg tsTo' stats' r₀) (close cfg dcfg tsTo stats r) := by
  have hbefore := close_openings cfg dcfg tsTo' stats' r₀
  have hafter := close_openings cfg dcfg tsTo stats r
  obtain ⟨drops, hdrops, hdropTs⟩ := h.dropped
  obtain ⟨exits, hexits, hexitsUndecided⟩ := h.trades
  obtain ⟨opened, hopened, hopenTs⟩ := h.openings
  obtain ⟨last, hlast, hlastUndecided⟩ := h.ahead.current.finalize cfg tsTo
  obtain ⟨last₀, hlast₀, hlastUndecided₀⟩ := h₀.ahead.current.finalize cfg tsTo'
  have hall : r₀.sim.trades.filter (Decided (ohlcvs pre)) = r₀.sim.trades :=
    List.filter_eq_self.mpr fun t ht => decide_eq_true (h₀.trades t ht)
  have hnone : ∀ l : List Trade, (∀ t ∈ l, ¬ Decided (ohlcvs pre) t) → l.filter (Decided (ohlcvs pre)) = [] :=
    fun l hl => List.filter_eq_nil_iff.mpr fun t ht => by simpa using hl t ht
  refine ⟨?_, ?_, ?_⟩
  · have hfilter : ((close cfg dcfg tsTo stats r).trades.filter fun t => t.entryTsMs ≤ bound).map Trade.opening =
        ((close cfg dcfg tsTo stats r).trades.map Trade.opening).filter fun o => o.entryTsMs ≤ bound := by
      rw [List.filter_map]
      rfl
    have hold : (PositionSim.openings r₀.sim).filter (fun o => o.entryTsMs ≤ bound) = PositionSim.openings r₀.sim :=
      List.filter_eq_self.mpr fun o ho => decide_eq_true (h₀.openings o ho)
    have hnew : opened.filter (fun o => o.entryTsMs ≤ bound) = [] :=
      List.filter_eq_nil_iff.mpr fun o ho => by simpa using hopenTs o ho
    have hboth := (hafter.trans hopened).filter fun o => o.entryTsMs ≤ bound
    rw [List.filter_append, hold, hnew, List.append_nil] at hboth
    rw [hfilter]
    exact hboth.trans hbefore.symm
  · show (PositionSim.finalize cfg tsTo (fun _ => none) r.sim).trades.filter _ =
      (PositionSim.finalize cfg tsTo' (fun _ => none) r₀.sim).trades.filter _
    rw [hlast, hlast₀, hexits, List.filter_append, List.filter_append, List.filter_append, hnone last hlastUndecided,
      hnone last₀ hlastUndecided₀, hnone exits hexitsUndecided, List.append_nil]
  · show r.dropped.filter _ = r₀.dropped
    have hold : r₀.dropped.filter (fun d => d.tsMs ≤ bound) = r₀.dropped :=
      List.filter_eq_self.mpr fun d hd => decide_eq_true (h₀.dropped d hd)
    have hnew : drops.filter (fun d => d.tsMs ≤ bound) = [] :=
      List.filter_eq_nil_iff.mpr fun d hd => by simpa using hdropTs d hd
    rw [hdrops, List.filter_append, hold, hnew, List.append_nil]

/-- **A backtest does not look ahead.** A run over the longer range enters, exits and refuses up to a time what the run
that ends there does, over any tables that are the same up to it. -/
theorem no_look_ahead (cfg : PositionSimConfig) (scfg : StrategyConfig) (dcfg : DetectorConfig) (windowId foldId : ℤ)
    (symbols : List String) (tsFrom bound tsTo : ℤ) (db db' : EventDb) (result : MultiSymbolResult)
    (hagree : AgreeUpTo bound db db') (hbound : bound ≤ tsTo)
    (h : run cfg scfg dcfg windowId foldId db symbols tsFrom tsTo = some result) :
    ∃ past, run cfg scfg dcfg windowId foldId db' symbols tsFrom bound = some past ∧
      NoLookAhead bound (ohlcvs (streamMulti db' symbols tsFrom bound)) past result := by
  obtain ⟨later, hstream, hlater⟩ := streamMulti_upTo symbols tsFrom hagree hbound
  have hreplay := streamMulti_replay db symbols tsFrom tsTo
  have hreplay' := streamMulti_replay db' symbols tsFrom bound
  unfold run runOn at h ⊢
  obtain ⟨r, hr, rfl⟩ := Option.map_eq_some_iff.mp h
  rw [hstream] at hr hreplay
  obtain ⟨r₀, hr₀, hrest⟩ := Runs.runM_append.mp hr
  have h₀ := upTo_run hreplay'.stamped (fun ev hev => (hreplay'.inside ev hev).2) hr₀
  have hsince := since_run (fun ev hev => hreplay.stamped ev (List.mem_append_right _ hev)) hlater h₀.ahead hrest
  refine ⟨_, Option.map_eq_some_iff.mpr ⟨r₀, hr₀, rfl⟩, h₀.noLookAhead hsince ..⟩

/-- The tables of the two symbols that gap up together, and what they held up to 112 s. -/
theorem no_look_ahead_gap : ∃ past result,
    run gapConfig gapStrategy {} 0 0 { gapDb with ohlcv := gapDb.ohlcv.filter fun r => r.sec ≤ 112 }
        ["BTC_USDT", "ETH_USDT"] 0 112000 = some past ∧
      NoLookAhead 112000 (ohlcvs (streamMulti { gapDb with ohlcv := gapDb.ohlcv.filter fun r => r.sec ≤ 112 }
        ["BTC_USDT", "ETH_USDT"] 0 112000)) past result := by
  have hreturns : ∃ result, run gapConfig gapStrategy {} 0 0 gapDb ["BTC_USDT", "ETH_USDT"] 0 200000 = some result :=
    runOn_returns 0 0 200000 (nonzero_streamMulti (by decide) _ _ _)
  obtain ⟨result, hresult⟩ := hreturns
  obtain ⟨past, hpast, hsame⟩ := no_look_ahead gapConfig gapStrategy {} 0 0 ["BTC_USDT", "ETH_USDT"] 0 112000 200000 gapDb
    { gapDb with ohlcv := gapDb.ohlcv.filter fun r => r.sec ≤ 112 } result ⟨rfl, rfl, rfl⟩ (by decide) hresult
  exact ⟨past, result, hpast, hsame⟩

end MultiSymbolRunner

/-! ## Walk-forward runs -/

namespace WalkForward

variable {wcfg : WalkForwardConfig} {cfg : PositionSim.PositionSimConfig} {scfg : StrategyConfig} {dcfg : DetectorConfig}
  {db db' : EventDb} {symbols : List String} {tsFrom tsTo bound : ℤ} {windows : List FoldWindow}

/-- The windows of a longer range: those that end in the shorter one, then those that do not. -/
theorem generateFolds_upTo (hbound : bound ≤ tsTo) (h : generateFolds wcfg tsFrom tsTo = some windows) :
    ∃ past later, generateFolds wcfg tsFrom bound = some past ∧ windows = past ++ later ∧
      (∀ w ∈ past, w.testEndMs ≤ bound) ∧ ∀ w ∈ later, bound < w.testEndMs := by
  by_cases hstep : 0 < wcfg.effectiveStepMs
  · obtain ⟨past, hpast⟩ := generateFolds_returns hstep tsFrom bound
    obtain ⟨hwindows, hinside⟩ := generateFolds_spec hstep h
    obtain ⟨hpastWindows, hpastInside⟩ := generateFolds_spec hstep hpast
    have hlen : past.length ≤ windows.length := by
      by_contra hlt
      have hend := (hpastInside windows.length).mp (not_le.mp hlt)
      exact lt_irrefl _ ((hinside windows.length).mpr (hend.trans hbound))
    obtain ⟨n, hn⟩ := Nat.exists_eq_add_of_le hlen
    refine ⟨past, (List.range n).map fun i => foldWindow wcfg tsFrom (past.length + i), hpast, ?_, fun w hw => ?_,
      fun w hw => ?_⟩
    · rw [hwindows, hn, List.range_add, List.map_append, ← hpastWindows, List.map_map]
      rfl
    · rw [hpastWindows] at hw
      obtain ⟨i, hi, rfl⟩ := List.mem_map.mp hw
      exact (hpastInside i).mp (List.mem_range.mp hi)
    · obtain ⟨i, -, rfl⟩ := List.mem_map.mp hw
      exact not_le.mp fun hle => absurd ((hpastInside _).mpr hle) (by omega)
  · -- the loop ended before its first window
    obtain ⟨-, hinside, hlast⟩ := foldLoop_spec tsTo _ _ _ _ h
    have hback : (windows.length : ℤ) * wcfg.effectiveStepMs ≤ 0 :=
      mul_nonpos_of_nonneg_of_nonpos (Int.natCast_nonneg _) (not_lt.mp hstep)
    have hempty : windows = [] := by
      by_contra hne
      have hfirst : tsFrom + (0 : ℕ) * wcfg.effectiveStepMs + wcfg.trainMs + wcfg.testMs ≤ tsTo :=
        hinside 0 (List.length_pos_iff.mpr hne)
      have hlast : tsTo < tsFrom + windows.length * wcfg.effectiveStepMs + wcfg.trainMs + wcfg.testMs := hlast
      push_cast at hfirst
      omega
    subst hempty
    have hfirst : bound < (windowAt wcfg 0 tsFrom).testEndMs := by
      refine hbound.trans_lt ?_
      simpa using hlast
    refine ⟨[], [], ?_, rfl, fun w hw => (nomatch hw), fun w hw => (nomatch hw)⟩
    unfold generateFolds foldLoop
    exact if_pos hfirst

/-- A fold reads the rows up to its end. -/
theorem runFold_congr {window : FoldWindow} (h : AgreeUpTo window.testEndMs db db') :
    runFold cfg scfg dcfg db symbols window = runFold cfg scfg dcfg db' symbols window := by
  have hstream : foldStream db symbols window = foldStream db' symbols window := h.streamMulti
  unfold runFold
  rw [hstream]

theorem runFold_window {window : FoldWindow} {fr : FoldResult} (h : runFold cfg scfg dcfg db symbols window = some fr) :
    fr.window = window := by
  unfold runFold at h
  obtain ⟨r, -, rfl⟩ := Option.map_eq_some_iff.mp h
  rfl

theorem runFolds_congr : ∀ {windows : List FoldWindow}, (∀ w ∈ windows, AgreeUpTo w.testEndMs db db') →
    runFolds wcfg cfg scfg dcfg db symbols windows = runFolds wcfg cfg scfg dcfg db' symbols windows
  | [], _ => rfl
  | window :: windows, h => by
    unfold runFolds
    rw [runFold_congr (h window List.mem_cons_self), runFolds_congr fun w hw => h w (List.mem_cons_of_mem window hw)]

/-- The folds of some windows and more: those of the first ones, and then the others'. -/
theorem runFolds_append {later : List FoldWindow} : ∀ {past : List FoldWindow} {folds : List FoldResult},
    runFolds wcfg cfg scfg dcfg db symbols (past ++ later) = .ok folds → ∃ first rest,
      runFolds wcfg cfg scfg dcfg db symbols past = .ok first ∧ runFolds wcfg cfg scfg dcfg db symbols later = .ok rest ∧
        folds = first ++ rest
  | [], folds, h => ⟨[], folds, rfl, h, rfl⟩
  | window :: past, folds, h => by
    rw [List.cons_append, runFolds] at h
    split at h
    · cases h
    · rename_i fr hfr
      split at h
      · cases h
      · rename_i hgoOn
        cases hrest : runFolds wcfg cfg scfg dcfg db symbols (past ++ later) with
        | error e =>
          rw [hrest] at h
          cases h
        | ok all =>
          rw [hrest] at h
          cases h
          obtain ⟨first, rest, hfirst, hlater, rfl⟩ := runFolds_append hrest
          refine ⟨fr :: first, rest, ?_, hlater, rfl⟩
          rw [runFolds, hfr]
          dsimp only
          rw [if_neg hgoOn, hfirst]
          rfl

theorem runFolds_windows : ∀ {windows : List FoldWindow} {folds : List FoldResult},
    runFolds wcfg cfg scfg dcfg db symbols windows = .ok folds → folds.map FoldResult.window = windows
  | [], folds, h => by
    cases h
    rfl
  | window :: windows, folds, h => by
    unfold runFolds at h
    split at h
    · cases h
    · rename_i fr hfr
      split at h
      · cases h
      · cases hrest : runFolds wcfg cfg scfg dcfg db symbols windows with
        | error e =>
          rw [hrest] at h
          cases h
        | ok rest =>
          rw [hrest] at h
          cases h
          rw [List.map_cons, runFolds_windows hrest, runFold_window hfr]

/-- What a walk-forward run reports of the folds up to a time, and the run up to that time. -/
structure Extends (bound : ℤ) (past result : WalkForwardResult) : Prop where
  folds : past.folds = result.folds.filter fun fr => fr.window.testEndMs ≤ bound
  prefixed : past.folds <+: result.folds
  trades : past.combinedTrades <+: result.combinedTrades
  dropped : past.combinedDropped <+: result.combinedDropped

/-- **A walk-forward run keeps its folds** when the tables and the range go on: the run up to an earlier time reports the
same folds, or has too few. -/
theorem walkForward_extends (wcfg : WalkForwardConfig) (cfg : PositionSim.PositionSimConfig) (scfg : StrategyConfig)
    (dcfg : DetectorConfig) (symbols : List String) (tsFrom bound tsTo : ℤ) (db db' : EventDb) (result : WalkForwardResult)
    (hagree : AgreeUpTo bound db db') (hbound : bound ≤ tsTo)
    (h : run wcfg cfg scfg dcfg db symbols tsFrom tsTo = .ok result) :
    (∃ n : ℕ, (n : ℤ) < wcfg.minFolds ∧ run wcfg cfg scfg dcfg db' symbols tsFrom bound = .error (.tooFewFolds n)) ∨
      ∃ past, run wcfg cfg scfg dcfg db' symbols tsFrom bound = .ok past ∧ Extends bound past result := by
  unfold run at h ⊢
  split at h
  · cases h
  rename_i windows hwindows
  obtain ⟨past, later, hpast, rfl, hinside, houtside⟩ := generateFolds_upTo hbound hwindows
  rw [hpast]
  dsimp only
  split at h
  · cases h
  cases hfolds : runFolds wcfg cfg scfg dcfg db symbols (past ++ later) with
  | error e =>
    rw [hfolds] at h
    cases h
  | ok folds =>
    rw [hfolds] at h
    cases h
    obtain ⟨first, rest, hfirst, hrest, rfl⟩ := runFolds_append hfolds
    by_cases hfew : (past.length : ℤ) < wcfg.minFolds
    · exact .inl ⟨past.length, hfew, if_pos hfew⟩
    · rw [if_neg hfew, ← runFolds_congr fun w hw => hagree.mono (hinside w hw), hfirst]
      refine .inr ⟨_, rfl, ?_, List.prefix_append .., ?_, ?_⟩
      · have hkept : first.filter (fun fr => fr.window.testEndMs ≤ bound) = first := by
          refine List.filter_eq_self.mpr fun fr hfr => decide_eq_true (hinside _ ?_)
          rw [← runFolds_windows hfirst]
          exact List.mem_map_of_mem hfr
        have hcut : rest.filter (fun fr => fr.window.testEndMs ≤ bound) = [] := by
          refine List.filter_eq_nil_iff.mpr fun fr hfr => ?_
          have hlater : bound < fr.window.testEndMs := by
            refine houtside _ ?_
            rw [← runFolds_windows hrest]
            exact List.mem_map_of_mem hfr
          simpa using hlater
        show first = (first ++ rest).filter _
        rw [List.filter_append, hkept, hcut, List.append_nil]
      · show first.flatMap FoldResult.trades <+: (first ++ rest).flatMap FoldResult.trades
        rw [List.flatMap_append]
        exact List.prefix_append ..
      · show first.flatMap FoldResult.droppedEntries <+: (first ++ rest).flatMap FoldResult.droppedEntries
        rw [List.flatMap_append]
        exact List.prefix_append ..

open MultiSymbolRunner in
/-- The first of two folds, without what comes after it and with another bar there. -/
theorem walkForward_extends_boundary : ∃ past result,
    run ⟨20000, 20000, some 30000, 1, true⟩ gapConfig gapStrategy {}
        { boundaryDb with ohlcv := boundaryDb.ohlcv ++ [barRow "BTC_USDT" 45 90] } ["BTC_USDT"] 0 40000 = .ok past ∧
      Extends 40000 past result := by
  have hfold : ∀ window ∈ [(⟨0, 0, 20000, 20000, 40000⟩ : FoldWindow), ⟨1, 30000, 50000, 50000, 70000⟩],
      (runFold gapConfig gapStrategy {} boundaryDb ["BTC_USDT"] window).map (fun fr => fr.stats.callbackErrors) =
        some 0 := by
    intro window hw
    unfold runFold foldStream
    rw [boundaryDb_stream]
    rcases List.mem_cons.mp hw with rfl | hw
    · decide +kernel
    · rw [List.mem_singleton.mp hw]
      decide +kernel
  obtain ⟨fr, hfr, herrors⟩ := Option.map_eq_some_iff.mp (hfold _ List.mem_cons_self)
  obtain ⟨fr', hfr', herrors'⟩ := Option.map_eq_some_iff.mp (hfold _ (List.mem_cons_of_mem _ List.mem_cons_self))
  have hwindows : generateFolds ⟨20000, 20000, some 30000, 1, true⟩ 0 70000 =
      some [⟨0, 0, 20000, 20000, 40000⟩, ⟨1, 30000, 50000, 50000, 70000⟩] := by decide +kernel
  have hrun : run ⟨20000, 20000, some 30000, 1, true⟩ gapConfig gapStrategy {} boundaryDb ["BTC_USDT"] 0 70000 =
      .ok ⟨[fr, fr'], fr.trades ++ fr'.trades, fr.droppedEntries ++ fr'.droppedEntries, 2, false⟩ := by
    unfold run
    rw [hwindows]
    simp [runFolds, hfr, hfr', herrors, herrors', Except.map]
  have hagree : AgreeUpTo 40000 boundaryDb { boundaryDb with ohlcv := boundaryDb.ohlcv ++ [barRow "BTC_USDT" 45 90] } :=
    ⟨rfl, rfl, rfl⟩
  rcases walkForward_extends ⟨20000, 20000, some 30000, 1, true⟩ gapConfig gapStrategy {} ["BTC_USDT"] 0 40000 70000
    boundaryDb _ _ hagree (by decide) hrun with ⟨n, -, hfew⟩ | ⟨past, hpast, hextends⟩
  · have hwindow : generateFolds ⟨20000, 20000, some 30000, 1, true⟩ 0 40000 =
        some [⟨0, 0, 20000, 20000, 40000⟩] := by decide +kernel
    rw [runFold_congr hagree] at hfr
    unfold run at hfew
    rw [hwindow] at hfew
    simp [runFolds, hfr, herrors, Except.map] at hfew
  · exact ⟨past, _, hpast, hextends⟩

end WalkForward

end MikoV2.Backtest
