import MikoV2.Backtest.OneSymbol

/-!
# The order of the recorded trades

A candle is checked when the next bar of its symbol arrives, so an exit may wait while other symbols go on.

* `Timed` : the calls of a run over a sorted stream, with the entries between them; `Timed.replay`;
* `Pending` : a touched candle is still open; `Overtakes` : a bar records an exit while an older one is pending;
* `Orderly`, `Orderly.step` : the trades are in order and nothing pending is older, unless a bar overtakes;
* `Broken`, `Broken.step` : once it is, the trades never come into order again;
* `Flushing`, `Orderly.finalize`, `Broken.finalize` : what `finalize` makes of either;
* `chronological_iff` : trades and curve are in order when no bar overtakes, and only then.
-/

namespace MikoV2.Backtest.PositionSim
open PaperMath (Direction ExitReason)
open Py (Dict)

variable {cfg : PositionSimConfig} {s s' : PositionSimulator} {symbol k : String} {pos : Position} {c : Candle5s}
  {ev : OHLCVEvent} {tsFrom tsTo now ts : ℤ} {calls : List Action}

/-! ## Runs over a stream -/

/-- The time at which a call is made. -/
def callTs : Action → ℤ
  | .onOhlcv ev => ev.tsMs
  | .onTicker ev => ev.tsMs
  | .onEntry signal _ => signal.tsMs
  | .finalize lastTsMs _ => lastTsMs

/-- The event of a call. -/
def eventOf : Action → Option AnyEvent
  | .onOhlcv ev => some (.ohlcv ev)
  | .onTicker ev => some (.ticker ev)
  | _ => none

/-- The calls of a run from `tsFrom` to `tsTo`, before it is closed out: bars and tickers in the order of time, a bar
stamped with its second, and entries between them stamped with their time. -/
structure Timed (tsFrom tsTo : ℤ) (calls : List Action) : Prop where
  sorted : calls.Pairwise fun a b => callTs a ≤ callTs b
  stamped : ∀ ev, .onOhlcv ev ∈ calls → ev.tsMs = ev.sec * 1000
  unflushed : ∀ a ∈ calls, Unflushed a
  inside : ∀ a ∈ calls, tsFrom ≤ callTs a ∧ callTs a ≤ tsTo

/-- The events of such calls are a replay. -/
theorem Timed.replay (h : Timed tsFrom tsTo calls) : Replay tsFrom tsTo (calls.filterMap eventOf) := by
  have hts : ∀ a e, eventOf a = some e → e.tsMs = callTs a := by
    intro a e he
    cases a <;> cases he <;> rfl
  refine ⟨?_, fun e he => ?_, fun e he => ?_⟩
  · rw [List.pairwise_filterMap]
    refine h.sorted.imp fun {a b} hab x hx y hy => ?_
    rw [hts a x hx, hts b y hy]
    exact hab
  · obtain ⟨a, ha, hae⟩ := List.mem_filterMap.mp he
    cases a with
    | onOhlcv ev =>
      cases hae
      exact h.stamped ev ha
    | onTicker ev =>
      cases hae
      trivial
    | onEntry signal symbol => cases hae
    | finalize lastTsMs lastPrices => cases hae
  · obtain ⟨a, ha, hae⟩ := List.mem_filterMap.mp he
    rw [hts a e hae]
    exact h.inside a ha

/-- The trades are in the order of their exits. -/
def Sorted (trades : List Trade) : Prop := trades.Pairwise fun t u => t.exitTsMs ≤ u.exitTsMs

/-- The trades and the curve over them are in the order of time. -/
structure Chronological (initialEquity : ℚ) (trades : List Trade) : Prop where
  inOrder : Sorted trades
  curve : (buildEquityCurve trades initialEquity).Pairwise fun p q => p.tsMs ≤ q.tsMs

/-- The open candle of the symbol, of time `ts`, has touched the stop or the target of its position. -/
def Pending (k : String) (ts : ℤ) (s : PositionSimulator) : Prop :=
  ∃ pos c, s.positions.get? k = some pos ∧ s.active.get? k = some c ∧ c.tsMs = ts ∧ exitOf pos c ≠ none

/-- The call is a bar that closes a touched candle while an older touched candle is still open. -/
def Overtakes (s : PositionSimulator) (a : Action) : Prop :=
  ∃ ev c, a = .onOhlcv ev ∧ s.active.get? ev.symbol = some c ∧ c.sec < barBucket ev ∧
    Pending ev.symbol c.tsMs s ∧ ∃ k ts, Pending k ts s ∧ ts < c.tsMs

/-! ## Touched candles -/

theorem exitOf_ne_none : exitOf pos c ≠ none ↔ pos.entryBucketSec < c.sec ∧ (hitSl pos c ∨ hitTp pos c) := by
  unfold exitOf
  by_cases hsec : c.sec ≤ pos.entryBucketSec
  · simp [hsec, not_lt_of_ge hsec]
  · by_cases hsl : hitSl pos c
    · simp [hsec, hsl, not_le.mp hsec]
    · by_cases htp : hitTp pos c
      · simp [hsec, hsl, htp, not_le.mp hsec]
      · simp [hsec, hsl, htp]

/-- A candle stays touched as it grows. -/
theorem exitOf_mergeBar (h : exitOf pos c ≠ none) (ev : OHLCVEvent) : exitOf pos (mergeBar c ev) ≠ none := by
  have hlow : (mergeBar c ev).low ≤ c.low := by
    rw [mergeBar_low]
    exact min_le_left ..
  have hhigh : c.high ≤ (mergeBar c ev).high := by
    rw [mergeBar_high]
    exact le_max_left ..
  obtain ⟨hsec, hhit⟩ := exitOf_ne_none.mp h
  refine exitOf_ne_none.mpr ⟨hsec, ?_⟩
  unfold hitSl hitTp at *
  cases hdir : pos.direction with
  | LONG =>
    simp only [hdir, decide_eq_true_eq, ge_iff_le] at hhit ⊢
    exact hhit.imp hlow.trans fun h => h.trans hhigh
  | SHORT =>
    simp only [hdir, decide_eq_true_eq, ge_iff_le] at hhit ⊢
    exact hhit.imp (fun h => h.trans hhigh) hlow.trans

theorem Pending.same (h : Pending k ts s) (hs : SameSymbol k s s') : Pending k ts s' := by
  obtain ⟨pos, c, hpos, hact, hts, hexit⟩ := h
  exact ⟨pos, c, hs.positions.trans hpos, hs.active.trans hact, hts, hexit⟩

theorem SameSymbol.symm (h : SameSymbol k s s') : SameSymbol k s' s :=
  ⟨h.positions.symm, h.active.symm, h.trades.symm, h.lastPrice.symm⟩

/-- A touched candle that is checked gives its trade. -/
theorem CandleCheck.of_pending (h : CandleCheck cfg k c s s') (hact : s.active.get? k = some c) (hp : Pending k ts s) :
    s'.positions.get? k = none ∧ ∃ u, s'.trades = s.trades ++ [u] ∧ u.exitTsMs = ts := by
  obtain ⟨pos, a, hpos, ha, hts, hexit⟩ := hp
  rw [hact] at ha
  cases ha
  cases h with
  | free hfree h' htrades =>
    rw [hpos] at hfree
    cases hfree
  | stay p f hget hstay h' htrades =>
    rw [hpos] at hget
    cases hget
    exact absurd hstay hexit
  | exit p px reason hget hpx h' htrades => exact ⟨h', _, htrades, hts⟩

/-- A candle that is not touched gives none. -/
theorem CandleCheck.of_not_pending (h : CandleCheck cfg k c s s') (hact : s.active.get? k = some c)
    (hp : ¬ Pending k c.tsMs s) : s'.trades = s.trades := by
  cases h with
  | free hfree h' htrades => exact htrades
  | stay p f hget hstay h' htrades => exact htrades
  | exit p px reason hget hpx h' htrades =>
    refine absurd ⟨p, c, hget, hact, rfl, ?_⟩ hp
    rw [hpx]
    exact Option.some_ne_none _

/-- What a position of the symbol is after the check: the same up to a payment. -/
theorem CandleCheck.position (h : CandleCheck cfg k c s s') (hget : s'.positions.get? k = some pos) :
    ∃ p f, s.positions.get? k = some p ∧ pos = { p with fundingPaid := f } := by
  cases h with
  | free hfree h' htrades =>
    rw [h'] at hget
    cases hget
  | stay p f hp hstay h' htrades =>
    rw [h'] at hget
    cases hget
    exact ⟨p, f, hp, rfl⟩
  | exit p px reason hp hpx h' htrades =>
    rw [h'] at hget
    cases hget

theorem Paid.position (h : Paid k s s') (hget : s'.positions.get? k = some pos) :
    ∃ p f, s.positions.get? k = some p ∧ pos = { p with fundingPaid := f } := by
  cases hp : s.positions.get? k with
  | none =>
    rw [h.free hp] at hget
    cases hget
  | some p =>
    obtain ⟨f, hf⟩ := h.held p hp
    rw [hf] at hget
    cases hget
    exact ⟨p, f, rfl, rfl⟩

/-! ## What a bar leaves open -/

/-- The open candles after a bar: its symbol's is the bar's own, or has taken the bar, or is ahead of it. -/
theorem onOhlcv_open (cfg : PositionSimConfig) (ev : OHLCVEvent) (s : PositionSimulator) :
    (∀ a, s.active.get? ev.symbol = some a → a.sec < barBucket ev) ∧
        (onOhlcv cfg ev s).active.get? ev.symbol = some (newCandle ev) ∨
      ∃ a, s.active.get? ev.symbol = some a ∧ barBucket ev ≤ a.sec ∧
        (onOhlcv cfg ev s).active.get? ev.symbol = some (if barBucket ev = a.sec then mergeBar a ev else a) := by
  rw [onOhlcv_active]
  cases hact : s.active.get? ev.symbol with
  | none =>
    refine Or.inl ⟨fun a ha => (nomatch ha), ?_⟩
    rw [mergeCandle_of_none hact]
    exact (Dict.get?_set ..).trans (if_pos rfl)
  | some a =>
    rcases lt_trichotomy (barBucket ev) a.sec with hlt | heq | hgt
    · refine Or.inr ⟨a, rfl, hlt.le, ?_⟩
      rw [mergeCandle_of_late hact hlt, if_neg hlt.ne, hact]
    · refine Or.inr ⟨a, rfl, heq.le, ?_⟩
      rw [mergeCandle_of_same hact heq, if_pos heq]
      exact (Dict.get?_set ..).trans (if_pos rfl)
    · refine Or.inl ⟨fun b hb => Option.some.inj hb ▸ hgt, ?_⟩
      rw [mergeCandle_of_later hact hgt]
      exact (Dict.get?_set ..).trans (if_pos rfl)

/-- The keys of the open candles after a bar: its symbol's comes last when its candle is a new one. -/
theorem onOhlcv_keys (cfg : PositionSimConfig) (ev : OHLCVEvent) (s : PositionSimulator) :
    (onOhlcv cfg ev s).active.keys = (s.active.erase ev.symbol).keys ++ [ev.symbol] ∨
      (∃ a, s.active.get? ev.symbol = some a ∧ barBucket ev ≤ a.sec) ∧
        (onOhlcv cfg ev s).active.keys = s.active.keys := by
  rw [onOhlcv_active]
  cases hact : s.active.get? ev.symbol with
  | none =>
    have hkey := Dict.get?_eq_none.mp hact
    refine Or.inl ?_
    rw [mergeCandle_of_none hact, Dict.erase_of_not_mem hkey]
    exact Dict.keys_set_of_not_mem hkey _
  | some a =>
    have hkey : ev.symbol ∈ s.active.keys := Dict.mem_keys.mpr ⟨a, hact⟩
    rcases lt_trichotomy (barBucket ev) a.sec with hlt | heq | hgt
    · refine Or.inr ⟨⟨a, rfl, hlt.le⟩, ?_⟩
      rw [mergeCandle_of_late hact hlt]
    · refine Or.inr ⟨⟨a, rfl, heq.le⟩, ?_⟩
      rw [mergeCandle_of_same hact heq]
      exact Dict.keys_set_of_mem hkey _
    · refine Or.inl ?_
      rw [mergeCandle_of_later hact hgt, (finalizeActive_candles hact).1]
      exact Dict.keys_set_of_not_mem (fun h => (Dict.mem_keys_erase.mp h).2 rfl) _

/-! ## Runs that do not overtake -/

/-- At time `now` the trades are in order, behind it, and no touched open candle is older than one of them. -/
structure Orderly (now : ℤ) (s : PositionSimulator) : Prop where
  sorted : Sorted s.trades
  entered : ∀ t ∈ s.trades, t.entryTsMs ≤ t.exitTsMs
  past : ∀ t ∈ s.trades, t.exitTsMs ≤ bucketSec (now / 1000) * 1000
  pending : ∀ t ∈ s.trades, ∀ k ts, Pending k ts s → t.exitTsMs ≤ ts
  candles : ∀ k c, s.active.get? k = some c →
    c.tsMs = c.sec * 1000 ∧ bucketSec c.sec = c.sec ∧ c.sec ≤ bucketSec (now / 1000)
  positions : ∀ k pos, s.positions.get? k = some pos →
    pos.entryTsMs ≤ now ∧ pos.entryBucketSec = bucketSec (pos.entryTsMs / 1000)
  opening : s.active.keys.Pairwise fun k k' => ∀ c c', s.active.get? k = some c → s.active.get? k' = some c' →
    c.sec ≤ c'.sec

theorem Orderly.init (cfg : PositionSimConfig) (windowId foldId now : ℤ) :
    Orderly now (PositionSim.init cfg windowId foldId) := by
  refine ⟨List.Pairwise.nil, fun t ht => ?_, fun t ht => ?_, fun t ht => ?_, fun k c hc => ?_, fun k p hp => ?_,
    List.Pairwise.nil⟩
  · cases ht
  · cases ht
  · cases ht
  · cases hc
  · cases hp

theorem bucketSec_le {a b : ℤ} (h : a ≤ b) : bucketSec (a / 1000) ≤ bucketSec (b / 1000) := by
  unfold bucketSec candleSec
  omega

theorem bucketSec_idem (a : ℤ) : bucketSec (bucketSec a) = bucketSec a := by
  unfold bucketSec candleSec
  omega

/-- A candle after the bucket of an entry starts after the entry. -/
theorem entry_lt_candle {entry sec : ℤ} (hsec : bucketSec sec = sec) (h : bucketSec (entry / 1000) < sec) :
    entry < sec * 1000 := by
  unfold bucketSec candleSec at *
  omega

theorem Sorted.append {trades : List Trade} {u : Trade} (h : Sorted trades)
    (hu : ∀ t ∈ trades, t.exitTsMs ≤ u.exitTsMs) : Sorted (trades ++ [u]) := by
  refine List.pairwise_append.mpr ⟨h, List.pairwise_singleton _ _, fun t ht v hv => ?_⟩
  rw [List.mem_singleton.mp hv]
  exact hu t ht

/-- A touched candle is after the bucket of the entry of its position. -/
theorem Orderly.touched (h : Orderly now s) (hget : s.positions.get? k = some pos) (hact : s.active.get? k = some c)
    (hexit : exitOf pos c ≠ none) : pos.entryTsMs ≤ c.tsMs := by
  obtain ⟨hts, hsec, -⟩ := h.candles k c hact
  obtain ⟨-, hentry⟩ := h.positions k pos hget
  have hlt := (exitOf_ne_none.mp hexit).1
  rw [hentry] at hlt
  rw [hts]
  exact (entry_lt_candle hsec hlt).le

/-- Time passes. -/
theorem Orderly.later {now' : ℤ} (h : Orderly now s) (hle : now ≤ now') : Orderly now' s := by
  have hbucket := bucketSec_le hle
  refine ⟨h.sorted, h.entered, fun t ht => ?_, h.pending, fun k c hc => ?_, fun k p hp => ?_, h.opening⟩
  · have := h.past t ht
    omega
  · obtain ⟨hts, hsec, hpast⟩ := h.candles k c hc
    exact ⟨hts, hsec, hpast.trans hbucket⟩
  · obtain ⟨hentry, hsec⟩ := h.positions k p hp
    exact ⟨hentry.trans hle, hsec⟩

theorem onEntry_trades (cfg : PositionSimConfig) (signal : EntrySignal) (symbol : String) (s : PositionSimulator) :
    (onEntry cfg signal symbol s).2.trades = s.trades := by
  unfold onEntry
  split <;> rfl

/-- A position after an entry was there before, or is stamped by the signal. -/
theorem onEntry_position {signal : EntrySignal} (h : (onEntry cfg signal symbol s).2.positions.get? k = some pos) :
    s.positions.get? k = some pos ∨
      pos.entryTsMs = signal.tsMs ∧ pos.entryBucketSec = bucketSec (signal.tsMs / 1000) := by
  by_cases hk : k = symbol
  · subst hk
    rcases onEntry_own cfg signal k s with hsame | ⟨q, -, hq, hts, hsec, -⟩
    · exact Or.inl (hsame.positions ▸ h)
    · rw [hq] at h
      cases h
      exact Or.inr ⟨hts, hsec⟩
  · exact Or.inl ((onEntry_other hk s).positions ▸ h)

theorem Orderly.entry {signal : EntrySignal} (h : Orderly signal.tsMs s) :
    Orderly signal.tsMs (onEntry cfg signal symbol s).2 := by
  have htrades := onEntry_trades cfg signal symbol s
  have hactive := (onEntry_feed cfg signal symbol s).active
  refine ⟨htrades ▸ h.sorted, htrades ▸ h.entered, htrades ▸ h.past, fun t ht k ts hp => ?_, hactive ▸ h.candles,
    fun k p hp => ?_, hactive ▸ h.opening⟩
  · rw [htrades] at ht
    obtain ⟨p, c, hpos, hact, hts, hexit⟩ := hp
    rw [hactive] at hact
    rcases onEntry_position hpos with hold | ⟨-, hsec⟩
    · exact h.pending t ht k ts ⟨p, c, hold, hact, hts, hexit⟩
    · -- the new position was entered in the open bucket, or after it
      have hlt := (exitOf_ne_none.mp hexit).1
      have hle := (h.candles k c hact).2.2
      omega
  · rcases onEntry_position hp with hold | ⟨hts, hsec⟩
    · exact h.positions k p hold
    · exact ⟨hts.le, by rw [hsec, hts]⟩

/-- The trades after a bar: one more when it closes a touched candle. -/
theorem onOhlcv_record (cfg : PositionSimConfig) (ev : OHLCVEvent) (s : PositionSimulator) :
    (onOhlcv cfg ev s).trades = s.trades ∨
      ∃ c pos px reason, s.active.get? ev.symbol = some c ∧ c.sec < barBucket ev ∧
        s.positions.get? ev.symbol = some pos ∧ exitOf pos c = some (px, reason) ∧
        (onOhlcv cfg ev s).positions.get? ev.symbol = none ∧
        (onOhlcv cfg ev s).trades = s.trades ++ [tradeOf cfg s pos ev.symbol c.tsMs px reason] := by
  by_cases hlater : ∃ c, s.active.get? ev.symbol = some c ∧ c.sec < barBucket ev
  · obtain ⟨c, hact, hlt⟩ := hlater
    have hcheck : CandleCheck cfg ev.symbol c s (onOhlcv cfg ev s) := onOhlcv_later hact hlt
    cases hcheck with
    | free hfree h' htrades => exact Or.inl htrades
    | stay p f hget hstay h' htrades => exact Or.inl htrades
    | exit p px reason hget hexit h' htrades => exact Or.inr ⟨c, p, px, reason, hact, hlt, hget, hexit, h', htrades⟩
  · refine Or.inl (onOhlcv_trades cfg fun a ha => ?_)
    by_contra hlt
    exact hlater ⟨a, ha, not_le.mp hlt⟩

/-- A position after a bar was there before it, up to a payment. -/
theorem onOhlcv_position (h : (onOhlcv cfg ev s).positions.get? k = some pos) :
    ∃ p f, s.positions.get? k = some p ∧ pos = { p with fundingPaid := f } := by
  by_cases hk : k = ev.symbol
  · subst hk
    by_cases hlater : ∃ c, s.active.get? ev.symbol = some c ∧ c.sec < barBucket ev
    · obtain ⟨c, hact, hlt⟩ := hlater
      exact (onOhlcv_later hact hlt).position h
    · refine (onOhlcv_paid fun a ha => ?_).position h
      by_contra hlt
      exact hlater ⟨a, ha, not_le.mp hlt⟩
  · exact ⟨pos, pos.fundingPaid, (onOhlcv_other hk s).positions ▸ h, rfl⟩

/-- The open candle of the symbol after a bar in order is the one of the bar's bucket. -/
theorem Orderly.bar_open (h : Orderly ev.tsMs s) (hev : bucketSec (ev.tsMs / 1000) = barBucket ev)
    (hc : (onOhlcv cfg ev s).active.get? ev.symbol = some c) : c.tsMs = c.sec * 1000 ∧ c.sec = barBucket ev := by
  rcases onOhlcv_open cfg ev s with ⟨-, hnew⟩ | ⟨a, ha, hle, hnew⟩
  · rw [hc] at hnew
    cases hnew
    exact ⟨rfl, rfl⟩
  · obtain ⟨hats, hasec, hapast⟩ := h.candles ev.symbol a ha
    have heq : barBucket ev = a.sec := by omega
    rw [hc, if_pos heq] at hnew
    cases hnew
    exact ⟨hats, heq.symm⟩

theorem Orderly.bar_candles (h : Orderly ev.tsMs s) (hev : bucketSec (ev.tsMs / 1000) = barBucket ev)
    (hc : (onOhlcv cfg ev s).active.get? k = some c) :
    c.tsMs = c.sec * 1000 ∧ bucketSec c.sec = c.sec ∧ c.sec ≤ bucketSec (ev.tsMs / 1000) := by
  by_cases hk : k = ev.symbol
  · subst hk
    obtain ⟨hts, hsec⟩ := h.bar_open hev hc
    rw [hev, hsec]
    exact ⟨hsec ▸ hts, bucketSec_idem ev.sec, le_refl _⟩
  · exact h.candles k c ((onOhlcv_other hk s).active ▸ hc)

/-- A bar in order opens the newest candle, or leaves the order in which the candles were opened. -/
theorem Orderly.bar_opening (h : Orderly ev.tsMs s) (hev : bucketSec (ev.tsMs / 1000) = barBucket ev) :
    (onOhlcv cfg ev s).active.keys.Pairwise fun k k' => ∀ c c',
      (onOhlcv cfg ev s).active.get? k = some c → (onOhlcv cfg ev s).active.get? k' = some c' → c.sec ≤ c'.sec := by
  have hothers : ∀ k, k ≠ ev.symbol → (onOhlcv cfg ev s).active.get? k = s.active.get? k := fun k hk =>
    (onOhlcv_other hk s).active
  rcases onOhlcv_keys cfg ev s with hkeys | ⟨⟨a, ha, hle⟩, hkeys⟩
  · rw [hkeys, Dict.keys_erase]
    refine List.pairwise_append.mpr ⟨?_, List.pairwise_singleton _ _, fun k hk k' hk' c c' hc hc' => ?_⟩
    · refine (h.opening.filter _).imp_of_mem fun {k k'} hk hk' hle c c' hc hc' => ?_
      rw [List.mem_filter, decide_eq_true_eq] at hk hk'
      rw [hothers k hk.2] at hc
      rw [hothers k' hk'.2] at hc'
      exact hle c c' hc hc'
    · rw [List.mem_singleton.mp hk'] at hc'
      rw [(h.bar_open hev hc').2, ← hev]
      exact (h.bar_candles hev hc).2.2
  · rw [hkeys]
    have hbefore : ∀ k c, (onOhlcv cfg ev s).active.get? k = some c → k ∈ s.active.keys →
        ∃ a, s.active.get? k = some a ∧ a.sec = c.sec := by
      intro k c hc hk
      by_cases hks : k = ev.symbol
      · subst hks
        have hpast := (h.candles ev.symbol a ha).2.2
        have hsec := (h.bar_open hev hc).2
        exact ⟨a, ha, by omega⟩
      · exact ⟨c, hothers k hks ▸ hc, rfl⟩
    refine h.opening.imp_of_mem fun {k k'} hk hk' hle c c' hc hc' => ?_
    obtain ⟨a, ha, hac⟩ := hbefore k c hc hk
    obtain ⟨a', ha', hac'⟩ := hbefore k' c' hc' hk'
    rw [← hac, ← hac']
    exact hle a a' ha ha'

/-- What is pending after a bar in order was pending before, or is in the bucket of the bar. -/
theorem Orderly.pending_bar (h : Orderly ev.tsMs s) (hev : bucketSec (ev.tsMs / 1000) = barBucket ev)
    (hp : Pending k ts (onOhlcv cfg ev s)) : k ≠ ev.symbol ∧ Pending k ts s ∨ ts = barBucket ev * 1000 := by
  by_cases hk : k = ev.symbol
  · subst hk
    obtain ⟨p, c, hpos, hact, hts, hexit⟩ := hp
    obtain ⟨hcts, hcsec⟩ := h.bar_open hev hact
    exact Or.inr (by rw [← hts, hcts, hcsec])
  · exact Or.inl ⟨hk, hp.same (onOhlcv_other hk s).symm⟩

theorem Orderly.bar (h : Orderly ev.tsMs s) (hev : bucketSec (ev.tsMs / 1000) = barBucket ev)
    (hover : ¬ Overtakes s (.onOhlcv ev)) : Orderly ev.tsMs (onOhlcv cfg ev s) := by
  have hcandles : ∀ k c, (onOhlcv cfg ev s).active.get? k = some c →
      c.tsMs = c.sec * 1000 ∧ bucketSec c.sec = c.sec ∧ c.sec ≤ bucketSec (ev.tsMs / 1000) :=
    fun k c hc => h.bar_candles hev hc
  have hpositions : ∀ k p, (onOhlcv cfg ev s).positions.get? k = some p →
      p.entryTsMs ≤ ev.tsMs ∧ p.entryBucketSec = bucketSec (p.entryTsMs / 1000) := by
    intro k p hp
    obtain ⟨q, f, hq, rfl⟩ := onOhlcv_position hp
    exact h.positions k q hq
  -- the trades, with the new one behind everything that is still pending
  rcases onOhlcv_record cfg ev s with htrades | ⟨c, pos, px, reason, hact, hlt, hget, hexit, hfree, htrades⟩
  · refine ⟨htrades ▸ h.sorted, htrades ▸ h.entered, htrades ▸ h.past, fun t ht k ts hp => ?_, hcandles, hpositions,
      h.bar_opening hev⟩
    rw [htrades] at ht
    rcases h.pending_bar hev hp with ⟨-, hold⟩ | rfl
    · exact h.pending t ht k ts hold
    · rw [← hev]
      exact h.past t ht
  · have hne : exitOf pos c ≠ none := by
      rw [hexit]
      exact Option.some_ne_none _
    have hpend : Pending ev.symbol c.tsMs s := ⟨pos, c, hget, hact, rfl, hne⟩
    obtain ⟨hcts, -, hcpast⟩ := h.candles ev.symbol c hact
    refine ⟨?_, fun t ht => ?_, fun t ht => ?_, fun t ht k ts hp => ?_, hcandles, hpositions, h.bar_opening hev⟩
    · rw [htrades]
      exact h.sorted.append fun t ht => h.pending t ht ev.symbol c.tsMs hpend
    · rw [htrades, List.mem_append, List.mem_singleton] at ht
      rcases ht with ht | rfl
      · exact h.entered t ht
      · exact h.touched hget hact hne
    · rw [htrades, List.mem_append, List.mem_singleton] at ht
      rcases ht with ht | rfl
      · exact h.past t ht
      · show c.tsMs ≤ _
        omega
    · rw [htrades, List.mem_append, List.mem_singleton] at ht
      rcases h.pending_bar hev hp with ⟨hk, hold⟩ | rfl
      · rcases ht with ht | rfl
        · exact h.pending t ht k ts hold
        · show c.tsMs ≤ ts
          by_contra hts
          exact hover ⟨ev, c, rfl, hact, hlt, hpend, k, ts, hold, not_le.mp hts⟩
      · rcases ht with ht | rfl
        · rw [← hev]
          exact h.past t ht
        · show c.tsMs ≤ _
          omega

/-! ## Runs that overtake -/

/-- The trades are out of order, or will be: a touched open candle is older than one of them. -/
def Broken (s : PositionSimulator) : Prop :=
  ¬ Sorted s.trades ∨ ∃ t ∈ s.trades, ∃ k ts, Pending k ts s ∧ ts < t.exitTsMs

theorem not_sorted_append {trades : List Trade} {t u : Trade} (ht : t ∈ trades) (hlt : u.exitTsMs < t.exitTsMs) :
    ¬ Sorted (trades ++ [u]) := by
  intro h
  have hle := (List.pairwise_append.mp h).2.2 t ht u (List.mem_singleton_self u)
  omega

theorem not_sorted_mono {ts us : List Trade} (h : ¬ Sorted ts) (hpre : ts <+: us) : ¬ Sorted us := fun hus =>
  h (List.Pairwise.sublist hpre.sublist hus)

/-- Trades are only appended. -/
theorem Moves.trades_mono {allow : Position → Prop} (h : Moves cfg allow s s') : s.trades <+: s'.trades := by
  refine h.keeps (I := fun t => s.trades <+: t.trades) (fun t t' ht hm => ?_) (List.prefix_refl _)
  cases hm with
  | quiet hq => exact hq.trades ▸ ht
  | funded f hget => exact ht
  | opened hfree hallow => exact ht
  | closed tsMs px reason hget hexit =>
    rw [closePosition_of_some hget]
    exact ht.trans (List.prefix_append ..)

/-- A candle is checked: an older touched one stays, and its own trade comes too late. -/
theorem Broken.check (h : Broken s) (hact : s.active.get? k = some c) (hcheck : CandleCheck cfg k c s s')
    (hother : ∀ k', k' ≠ k → SameSymbol k' s s') : Broken s' := by
  have hpre : s.trades <+: s'.trades := by
    cases hcheck with
    | free hfree h' htrades => rw [htrades]
    | stay p f hget hstay h' htrades => rw [htrades]
    | exit p px reason hget hexit h' htrades =>
      rw [htrades]
      exact List.prefix_append ..
  rcases h with hunsorted | ⟨t, ht, k', ts, hp, hlt⟩
  · exact Or.inl (not_sorted_mono hunsorted hpre)
  · by_cases hk : k' = k
    · subst hk
      obtain ⟨-, u, htrades, hu⟩ := hcheck.of_pending hact hp
      refine Or.inl ?_
      rw [htrades]
      exact not_sorted_append ht (hu ▸ hlt)
    · exact Or.inr ⟨t, hpre.subset ht, k', ts, hp.same (hother k' hk), hlt⟩

theorem Broken.bar (h : Broken s) (ev : OHLCVEvent) : Broken (onOhlcv cfg ev s) := by
  by_cases hlater : ∃ c, s.active.get? ev.symbol = some c ∧ c.sec < barBucket ev
  · obtain ⟨c, hact, hlt⟩ := hlater
    exact h.check hact (onOhlcv_later hact hlt) fun k' hk => onOhlcv_other hk s
  · have hle : ∀ a, s.active.get? ev.symbol = some a → barBucket ev ≤ a.sec := by
      intro a ha
      by_contra hlt
      exact hlater ⟨a, ha, not_le.mp hlt⟩
    have htrades := onOhlcv_trades cfg hle
    unfold Broken
    rw [htrades]
    refine h.imp_right ?_
    rintro ⟨t, ht, k, ts, hp, hlt⟩
    refine ⟨t, ht, k, ts, ?_, hlt⟩
    by_cases hk : k = ev.symbol
    · subst hk
      obtain ⟨pos, c, hget, hact, hts, hexit⟩ := hp
      have hpaid : Paid ev.symbol s (onOhlcv cfg ev s) := onOhlcv_paid hle
      obtain ⟨f, hf⟩ := hpaid.held pos hget
      rcases onOhlcv_open cfg ev s with ⟨hnew, -⟩ | ⟨a, ha, -, hopen⟩
      · exact absurd (hnew c hact) (not_lt_of_ge (hle c hact))
      · rw [hact] at ha
        cases ha
        refine ⟨_, _, hf, hopen, ?_, ?_⟩
        · split
          · exact hts
          · exact hts
        · split
          · exact exitOf_mergeBar hexit ev
          · exact hexit
    · exact hp.same (onOhlcv_other hk s)

theorem Broken.entry (h : Broken s) (signal : EntrySignal) (symbol : String) :
    Broken (onEntry cfg signal symbol s).2 := by
  unfold Broken
  rw [onEntry_trades]
  refine h.imp_right ?_
  rintro ⟨t, ht, k, ts, hp, hlt⟩
  refine ⟨t, ht, k, ts, ?_, hlt⟩
  by_cases hk : k = symbol
  · subst hk
    rcases onEntry_own cfg signal k s with hsame | ⟨q, hfree, -⟩
    · exact hp.same hsame
    · obtain ⟨pos, c, hget, -⟩ := hp
      rw [hget] at hfree
      cases hfree
  · exact hp.same (onEntry_other hk s)

theorem Broken.step {a : Action} (h : Broken s) (ha : Unflushed a) : Broken (step cfg s a) := by
  cases a with
  | onOhlcv ev => exact h.bar ev
  | onTicker ev => exact h
  | onEntry signal symbol => exact h.entry signal symbol
  | finalize lastTsMs lastPrices => exact absurd ha id

/-- Overtaking breaks the order. -/
theorem Overtakes.broken (cfg : PositionSimConfig) {a : Action} (h : Overtakes s a) :
    Broken (PositionSim.step cfg s a) := by
  obtain ⟨ev, c, rfl, hact, hlt, hp, k, ts, hold, hts⟩ := h
  have hcheck : CandleCheck cfg ev.symbol c s (onOhlcv cfg ev s) := onOhlcv_later hact hlt
  obtain ⟨-, u, htrades, hu⟩ := hcheck.of_pending hact hp
  have hk : k ≠ ev.symbol := by
    rintro rfl
    obtain ⟨-, a, -, ha, hats, -⟩ := hold
    rw [hact] at ha
    cases ha
    omega
  refine Or.inr ⟨u, ?_, k, ts, hold.same (onOhlcv_other hk s), hu ▸ hts⟩
  show u ∈ (onOhlcv cfg ev s).trades
  rw [htrades]
  exact List.mem_append_right _ (List.mem_singleton_self u)

/-! ## Closing out -/

/-- After the flush no candle is open. -/
theorem flush_active (cfg : PositionSimConfig) (l : List String) : ∀ s : PositionSimulator,
    (∀ k, s.active.get? k ≠ none → k ∈ l) →
      ∀ k, (l.foldl (fun s symbol => finalizeActive cfg symbol s) s).active.get? k = none := by
  induction l with
  | nil =>
    intro s hl k
    by_contra hk
    cases hl k hk
  | cons x l ih =>
    intro s hl k
    refine ih _ (fun k' hk' => ?_) k
    by_cases hx : k' = x
    · subst hx
      exact absurd (finalizeActive_erases cfg k' s) hk'
    · rw [(finalizeActive_other hx s).active] at hk'
      exact (List.mem_cons.mp (hl k' hk')).resolve_left hx

theorem Broken.finalize (h : Broken s) (tsTo : ℤ) (lastPrices : String → Option ℚ) :
    ¬ Sorted (finalize cfg tsTo lastPrices s).trades := by
  have hflush : ∀ (l : List String) (s : PositionSimulator), Broken s →
      Broken (l.foldl (fun s symbol => finalizeActive cfg symbol s) s) := by
    intro l
    induction l with
    | nil => exact fun s hs => hs
    | cons x l ih =>
      intro s hs
      refine ih _ ?_
      show Broken (finalizeActive cfg x s)
      cases hact : s.active.get? x with
      | none =>
        rw [finalizeActive_of_none hact]
        exact hs
      | some c => exact hs.check hact (finalizeActive_check cfg hact) fun k' hk => finalizeActive_other hk s
  have hempty := flush_active cfg s.active.keys s fun k hk => by
    obtain ⟨c, hc⟩ := Option.ne_none_iff_exists'.mp hk
    exact Dict.mem_keys.mpr ⟨c, hc⟩
  have hbroken := hflush s.active.keys s h
  unfold PositionSim.finalize
  dsimp only
  generalize s.active.keys.foldl (fun s symbol => finalizeActive cfg symbol s) s = s₁ at hempty hbroken ⊢
  have hunsorted : ¬ Sorted s₁.trades := by
    rcases hbroken with hs | ⟨t, ht, k, ts, ⟨pos, c, -, hact, -⟩, -⟩
    · exact hs
    · rw [hempty k] at hact
      cases hact
  have hmoves : Moves cfg (fun _ => False) s₁ _ :=
    foldl_moves (fun s symbol => finalizePosition_moves cfg tsTo lastPrices s symbol) s₁.positions.keys s₁
  exact not_sorted_mono hunsorted hmoves.trades_mono

/-- The trades are in order and before the end, and so are the entries of what is open. -/
structure Closing (tsTo : ℤ) (s : PositionSimulator) : Prop where
  sorted : Sorted s.trades
  entered : ∀ t ∈ s.trades, t.entryTsMs ≤ t.exitTsMs
  past : ∀ t ∈ s.trades, t.exitTsMs ≤ tsTo
  positions : ∀ k pos, s.positions.get? k = some pos → pos.entryTsMs ≤ tsTo

/-- While the candles of the symbols `l` are still to be closed, in the order in which they were opened. -/
structure Flushing (tsTo : ℤ) (l : List String) (s : PositionSimulator) : Prop extends Closing tsTo s where
  pending : ∀ t ∈ s.trades, ∀ k ∈ l, ∀ ts, Pending k ts s → t.exitTsMs ≤ ts
  touched : ∀ k ∈ l, ∀ pos c, s.positions.get? k = some pos → s.active.get? k = some c → exitOf pos c ≠ none →
    pos.entryTsMs ≤ c.tsMs ∧ c.tsMs ≤ tsTo
  opening : l.Pairwise fun k k' => ∀ c c', s.active.get? k = some c → s.active.get? k' = some c' → c.tsMs ≤ c'.tsMs

theorem Flushing.step {l : List String} {tsTo : ℤ} (h : Flushing tsTo (k :: l) s) (hk : k ∉ l) :
    Flushing tsTo l (finalizeActive cfg k s) := by
  have hother : ∀ k' ∈ l, SameSymbol k' s (finalizeActive cfg k s) := fun k' hk' =>
    finalizeActive_other (ne_of_mem_of_not_mem hk' hk) s
  have hold : ∀ k' ∈ l, ∀ ts, Pending k' ts (finalizeActive cfg k s) → Pending k' ts s := fun k' hk' ts hp =>
    hp.same (hother k' hk').symm
  have htouched : ∀ k' ∈ l, ∀ pos c, (finalizeActive cfg k s).positions.get? k' = some pos →
      (finalizeActive cfg k s).active.get? k' = some c → exitOf pos c ≠ none → pos.entryTsMs ≤ c.tsMs ∧ c.tsMs ≤ tsTo := by
    intro k' hk' pos c hpos hact hexit
    rw [(hother k' hk').positions] at hpos
    rw [(hother k' hk').active] at hact
    exact h.touched k' (List.mem_cons_of_mem k hk') pos c hpos hact hexit
  obtain ⟨hhead, htail⟩ := List.pairwise_cons.mp h.opening
  have hopening : l.Pairwise fun k₁ k₂ => ∀ c c', (finalizeActive cfg k s).active.get? k₁ = some c →
      (finalizeActive cfg k s).active.get? k₂ = some c' → c.tsMs ≤ c'.tsMs := by
    refine htail.imp_of_mem fun {k₁ k₂} h₁ h₂ hle c c' hc hc' => ?_
    rw [(hother k₁ h₁).active] at hc
    rw [(hother k₂ h₂).active] at hc'
    exact hle c c' hc hc'
  cases hact : s.active.get? k with
  | none =>
    rw [finalizeActive_of_none hact] at *
    exact ⟨h.toClosing, fun t ht k' hk' => h.pending t ht k' (List.mem_cons_of_mem k hk'), htouched, hopening⟩
  | some c =>
    have hcheck := finalizeActive_check cfg hact
    have hpositions : ∀ k' pos, (finalizeActive cfg k s).positions.get? k' = some pos → pos.entryTsMs ≤ tsTo := by
      intro k' pos hpos
      by_cases hkk : k' = k
      · subst hkk
        obtain ⟨p, f, hp, rfl⟩ := hcheck.position hpos
        exact h.positions k' p hp
      · rw [(finalizeActive_other hkk s).positions] at hpos
        exact h.positions k' pos hpos
    by_cases hp : Pending k c.tsMs s
    · obtain ⟨pos, a, hget, ha, -, hexit⟩ := hp
      rw [hact] at ha
      cases ha
      have hpend : Pending k c.tsMs s := ⟨pos, c, hget, hact, rfl, hexit⟩
      obtain ⟨hentry, hend⟩ := h.touched k List.mem_cons_self pos c hget hact hexit
      obtain ⟨px, reason, htrades⟩ : ∃ px reason, (finalizeActive cfg k s).trades =
          s.trades ++ [tradeOf cfg s pos k c.tsMs px reason] := by
        cases hcheck with
        | free hfree h' htrades =>
          rw [hget] at hfree
          cases hfree
        | stay p f hp hstay h' htrades =>
          rw [hget] at hp
          cases hp
          exact absurd hstay hexit
        | exit p px reason hp hpx h' htrades =>
          rw [hget] at hp
          cases hp
          exact ⟨px, reason, htrades⟩
      refine ⟨⟨?_, fun t ht => ?_, fun t ht => ?_, hpositions⟩, fun t ht k' hk' ts hp => ?_, htouched, hopening⟩
      · rw [htrades]
        exact h.sorted.append fun t ht => h.pending t ht k List.mem_cons_self c.tsMs hpend
      · rw [htrades, List.mem_append, List.mem_singleton] at ht
        rcases ht with ht | rfl
        · exact h.entered t ht
        · exact hentry
      · rw [htrades, List.mem_append, List.mem_singleton] at ht
        rcases ht with ht | rfl
        · exact h.past t ht
        · exact hend
      · rw [htrades, List.mem_append, List.mem_singleton] at ht
        have hpold := hold k' hk' ts hp
        rcases ht with ht | rfl
        · exact h.pending t ht k' (List.mem_cons_of_mem k hk') ts hpold
        · obtain ⟨-, c', -, hc', hts, -⟩ := hpold
          rw [← hts]
          exact hhead k' hk' c c' hact hc'
    · have htrades := hcheck.of_not_pending hact hp
      refine ⟨⟨htrades ▸ h.sorted, htrades ▸ h.entered, htrades ▸ h.past, hpositions⟩, fun t ht k' hk' ts hp => ?_,
        htouched, hopening⟩
      rw [htrades] at ht
      exact h.pending t ht k' (List.mem_cons_of_mem k hk') ts (hold k' hk' ts hp)

theorem Flushing.flush {tsTo : ℤ} (l : List String) : ∀ s : PositionSimulator, l.Nodup → Flushing tsTo l s →
    Closing tsTo (l.foldl (fun s symbol => finalizeActive cfg symbol s) s) := by
  induction l with
  | nil => exact fun s _ h => h.toClosing
  | cons k l ih =>
    intro s hl h
    obtain ⟨hk, hl⟩ := List.nodup_cons.mp hl
    exact ih _ hl (h.step hk)

theorem Closing.position {tsTo : ℤ} (h : Closing tsTo s) (lastPrices : String → Option ℚ) (symbol : String) :
    Closing tsTo (finalizePosition cfg tsTo lastPrices s symbol) := by
  unfold finalizePosition
  split
  · exact h
  · rename_i pos hget
    dsimp only
    rw [closePosition_of_some hget]
    refine ⟨h.sorted.append h.past, fun t ht => ?_, fun t ht => ?_, fun k p hp => ?_⟩
    · rcases List.mem_append.mp ht with ht | ht
      · exact h.entered t ht
      · rw [List.mem_singleton.mp ht]
        exact h.positions symbol pos hget
    · rcases List.mem_append.mp ht with ht | ht
      · exact h.past t ht
      · rw [List.mem_singleton.mp ht]
        exact le_refl tsTo
    · have hp : (s.positions.erase symbol).get? k = some p := hp
      rw [Dict.get?_erase] at hp
      split at hp
      · cases hp
      · exact h.positions k p hp

theorem Orderly.finalize {tsTo : ℤ} (h : Orderly now s) (hnow : now ≤ tsTo) (lastPrices : String → Option ℚ) :
    Closing tsTo (finalize cfg tsTo lastPrices s) := by
  have hbucket : bucketSec (now / 1000) * 1000 ≤ tsTo := by
    unfold bucketSec candleSec
    omega
  have hflushing : Flushing tsTo s.active.keys s := by
    refine ⟨⟨h.sorted, h.entered, fun t ht => (h.past t ht).trans hbucket, fun k p hp => ?_⟩,
      fun t ht k _ => h.pending t ht k, fun k _ pos c hget hact hexit => ⟨h.touched hget hact hexit, ?_⟩, ?_⟩
    · exact (h.positions k p hp).1.trans hnow
    · obtain ⟨hts, -, hpast⟩ := h.candles k c hact
      omega
    · refine h.opening.imp fun {k k'} hle c c' hc hc' => ?_
      have hsec := hle c c' hc hc'
      rw [(h.candles k c hc).1, (h.candles k' c' hc').1]
      omega
  have hclosing : ∀ (l : List String) (s : PositionSimulator), Closing tsTo s →
      Closing tsTo (l.foldl (finalizePosition cfg tsTo lastPrices) s) := by
    intro l
    induction l with
    | nil => exact fun s hs => hs
    | cons k l ih => exact fun s hs => ih _ (hs.position lastPrices k)
  exact hclosing _ _ (Flushing.flush _ s s.active.nodup_keys hflushing)

/-! ## Order and overtaking -/

theorem curvePoints_tsMs (trades : List Trade) : ∀ eq : ℚ,
    (curvePoints eq trades).map EquityPoint.tsMs = trades.map Trade.exitTsMs := by
  induction trades with
  | nil => exact fun eq => rfl
  | cons t trades ih =>
    intro eq
    rw [curvePoints, List.map_cons, List.map_cons, ih]

/-- Sorted trades make a sorted curve. -/
theorem Closing.chronological {tsTo : ℤ} (h : Closing tsTo s) (initialEquity : ℚ) :
    Chronological initialEquity s.trades := by
  refine ⟨h.sorted, ?_⟩
  have hsorted := h.sorted
  have hentered := h.entered
  unfold Sorted at hsorted
  rw [← List.pairwise_map (f := fun p : EquityPoint => p.tsMs) (R := fun a b => a ≤ b)]
  cases hts : s.trades with
  | nil => exact List.Pairwise.nil
  | cons t trades =>
    rw [hts] at hsorted hentered
    show List.Pairwise _ (t.entryTsMs :: (curvePoints initialEquity (t :: trades)).map EquityPoint.tsMs)
    rw [curvePoints_tsMs, List.pairwise_cons]
    refine ⟨fun n hn => ?_, List.pairwise_map.mpr hsorted⟩
    obtain ⟨u, hu, rfl⟩ := List.mem_map.mp hn
    have hfirst := hentered t List.mem_cons_self
    rcases List.mem_cons.mp hu with rfl | hu
    · exact hfirst
    · exact hfirst.trans ((List.pairwise_cons.mp hsorted).1 u hu)

/-- A call of a run that does not overtake. -/
theorem Orderly.step (cfg : PositionSimConfig) {a : Action} (h : Orderly now s) (hle : now ≤ callTs a)
    (hstamp : ∀ ev, a = .onOhlcv ev → ev.tsMs = ev.sec * 1000) (ha : Unflushed a) (hover : ¬ Overtakes s a) :
    Orderly (callTs a) (PositionSim.step cfg s a) := by
  have hnow := h.later hle
  cases a with
  | onOhlcv ev =>
    refine hnow.bar ?_ hover
    show bucketSec (ev.tsMs / 1000) = bucketSec ev.sec
    rw [hstamp ev rfl, Int.mul_ediv_cancel _ (by decide)]
  | onTicker ev => exact ⟨hnow.sorted, hnow.entered, hnow.past, hnow.pending, hnow.candles, hnow.positions, hnow.opening⟩
  | onEntry signal symbol => exact hnow.entry
  | finalize lastTsMs lastPrices => exact absurd ha id

theorem broken_run (cfg : PositionSimConfig) (hcalls : ∀ a ∈ calls, Unflushed a) :
    ∀ s, Broken s → Broken (Runs.run (step cfg) s calls) := by
  induction calls with
  | nil => exact fun s h => h
  | cons a calls ih =>
    exact fun s h => ih (fun b hb => hcalls b (List.mem_cons_of_mem a hb)) _ (h.step (hcalls a List.mem_cons_self))

theorem orderly_run {tsTo : ℤ} (lastPrices : String → Option ℚ) (initialEquity : ℚ) :
    ∀ (calls : List Action) (now : ℤ) (s : PositionSimulator), Timed now tsTo calls → now ≤ tsTo → Orderly now s →
      (Chronological initialEquity (finalize cfg tsTo lastPrices (Runs.run (step cfg) s calls)).trades ↔
        Runs.Guarded (fun s a => ¬ Overtakes s a) (step cfg) s calls) := by
  intro calls
  induction calls with
  | nil => exact fun now s _ hnow h => ⟨fun _ => Runs.guarded_nil, fun _ => (h.finalize hnow lastPrices).chronological _⟩
  | cons a calls ih =>
    intro now s htimed hnow h
    have hhead := List.mem_cons_self (a := a) (l := calls)
    have htail : ∀ {b}, b ∈ calls → b ∈ a :: calls := List.mem_cons_of_mem a
    obtain ⟨hle, hend⟩ := htimed.inside a hhead
    obtain ⟨hfirst, hsorted⟩ := List.pairwise_cons.mp htimed.sorted
    have hrest : Timed (callTs a) tsTo calls :=
      ⟨hsorted, fun ev hev => htimed.stamped ev (htail hev), fun b hb => htimed.unflushed b (htail hb),
        fun b hb => ⟨hfirst b hb, (htimed.inside b (htail hb)).2⟩⟩
    have hunflushed := htimed.unflushed a hhead
    rw [Runs.run_cons, Runs.guarded_cons]
    by_cases hover : Overtakes s a
    · have hbroken := broken_run cfg hrest.unflushed _ (hover.broken cfg)
      refine ⟨fun hc => absurd hc.inOrder (hbroken.finalize tsTo lastPrices), fun hg => absurd hover hg.1⟩
    · have hnext := h.step cfg hle (fun ev hev => htimed.stamped ev (hev ▸ hhead)) hunflushed hover
      rw [ih _ _ hrest hend hnext]
      exact ⟨fun hg => ⟨hover, hg⟩, fun hg => hg.2⟩

/-- **The order of the trades.** In a run over a sorted stream with entries between its events, closed out at its
end, the trades and the curve over them are in the order of time exactly when no bar overtakes. -/
theorem chronological_iff (cfg : PositionSimConfig) (windowId foldId tsFrom tsTo : ℤ) (calls : List Action)
    (htimed : Timed tsFrom tsTo calls) (lastPrices : String → Option ℚ) (initialEquity : ℚ) :
    Chronological initialEquity
        (finalize cfg tsTo lastPrices (Runs.run (step cfg) (init cfg windowId foldId) calls)).trades ↔
      Runs.Guarded (fun s a => ¬ Overtakes s a) (step cfg) (init cfg windowId foldId) calls := by
  have htimed' : Timed (min tsFrom tsTo) tsTo calls :=
    ⟨htimed.sorted, htimed.stamped, htimed.unflushed, fun a ha =>
      ⟨(min_le_left ..).trans (htimed.inside a ha).1, (htimed.inside a ha).2⟩⟩
  exact orderly_run lastPrices initialEquity calls _ _ htimed' (min_le_right ..) (.init cfg windowId foldId _)

def orderConfig : PositionSimConfig := { atrPeriod := 1 }

/-- A bar around `px`. -/
def barAt (symbol : String) (sec : ℤ) (low px high : ℚ) : Action :=
  .onOhlcv ⟨sec, sec * 1000, px, high, low, px, 1, 0, 1, symbol, sec⟩

def enterLong (symbol : String) (tsMs : ℤ) : Action := .onEntry ⟨.LONG, tsMs, 100, "", []⟩ symbol

/-- Two symbols with a position each. The first touches its stop and falls quiet; the second touches its own a bucket
later and is closed. -/
def quietCalls : List Action :=
  [barAt "A" 0 99 100 101, barAt "B" 0 99 100 101, barAt "A" 5 99 100 101, barAt "B" 5 99 100 101,
    barAt "A" 10 99 100 101, enterLong "A" 10000, barAt "B" 10 99 100 101, enterLong "B" 10000,
    barAt "A" 15 95 100 100, barAt "B" 15 100 100 100, barAt "B" 20 95 100 100, barAt "B" 25 100 100 100]

theorem quietCalls_timed : Timed 0 30000 quietCalls := by
  have hcalls : ∀ a ∈ quietCalls, Unflushed a ∧ (∀ ev, a = .onOhlcv ev → ev.tsMs = ev.sec * 1000) := by
    intro a ha
    simp only [quietCalls, List.mem_cons, List.not_mem_nil, or_false] at ha
    rcases ha with rfl | rfl | rfl | rfl | rfl | rfl | rfl | rfl | rfl | rfl | rfl | rfl <;>
      refine ⟨trivial, fun ev hev => ?_⟩ <;> cases hev <;> rfl
  exact ⟨by decide, fun ev hev => (hcalls _ hev).2 ev rfl, fun a ha => (hcalls a ha).1, by decide⟩

theorem chronological_iff_quietCalls :
    Chronological 10000 (finalize orderConfig 30000 (fun _ => none)
        (Runs.run (step orderConfig) (init orderConfig 0 0) quietCalls)).trades ↔
      Runs.Guarded (fun s a => ¬ Overtakes s a) (step orderConfig) (init orderConfig 0 0) quietCalls :=
  chronological_iff orderConfig 0 0 0 30000 quietCalls quietCalls_timed (fun _ => none) 10000

/-- The first symbol's exit at 15 s is recorded after the second's at 20 s. -/
theorem not_chronological_quietCalls : Timed 0 30000 quietCalls ∧
    ¬ Chronological 10000 (finalize orderConfig 30000 (fun _ => none)
      (Runs.run (step orderConfig) (init orderConfig 0 0) quietCalls)).trades := by
  refine ⟨quietCalls_timed, fun h => ?_⟩
  have hexits : (finalize orderConfig 30000 (fun _ => none)
      (Runs.run (step orderConfig) (init orderConfig 0 0) quietCalls)).trades.map Trade.exitTsMs = [20000, 15000] := by
    decide +kernel
  have hsorted := List.pairwise_map.mpr h.inOrder
  rw [hexits] at hsorted
  exact absurd hsorted (by decide)

end MikoV2.Backtest.PositionSim
