import MikoV2.Backtest.Candles

/-!
# What a call does to one symbol

* `tradesOf` : the trades of a symbol; `SameSymbol` : its position, open candle, trades and price are unchanged;
* `onOhlcv_other`, `onEntry_other`, `finalizeActive_other`, `finalizePosition_other` : a call about another symbol;
* `CandleCheck` : what the exit check of a candle does to its symbol; `finalizeActive_check`;
* `onOhlcv_later`, `onOhlcv_paid`, `onEntry_own` : what a bar and an entry do to their symbol;
* `foldl_other`, `foldl_once` : a loop over distinct symbols does the work of one of them once.
-/

namespace MikoV2.Backtest.PositionSim
open PaperMath (Direction ExitReason)
open Py (Dict)

variable {cfg : PositionSimConfig} {s s' t : PositionSimulator} {symbol k : String} {pos : Position}
  {c : Candle5s} {ev : OHLCVEvent}

/-- The trades of a symbol. -/
def tradesOf (k : String) (s : PositionSimulator) : List Trade := s.trades.filter fun t => t.symbol = k

/-- The position, the open candle, the trades and the last price of a symbol are unchanged. -/
structure SameSymbol (k : String) (s s' : PositionSimulator) : Prop where
  positions : s'.positions.get? k = s.positions.get? k
  active : s'.active.get? k = s.active.get? k
  trades : tradesOf k s' = tradesOf k s
  lastPrice : s'.lastPrice k = s.lastPrice k

theorem SameSymbol.refl (k : String) (s : PositionSimulator) : SameSymbol k s s := ⟨rfl, rfl, rfl, rfl⟩

theorem SameSymbol.trans (h : SameSymbol k s s') (h' : SameSymbol k s' t) : SameSymbol k s t :=
  ⟨h'.positions.trans h.positions, h'.active.trans h.active, h'.trades.trans h.trades,
    h'.lastPrice.trans h.lastPrice⟩

/-! ## Calls about another symbol -/

theorem closePosition_same (hk : k ≠ symbol) (tsMs : ℤ) (px : ℚ) (reason : ExitReason) (s : PositionSimulator) :
    SameSymbol k s (closePosition cfg symbol tsMs px reason s) := by
  have hfeed := closePosition_feed cfg symbol tsMs px reason s
  refine ⟨closePosition_other hk tsMs px reason, congrArg (fun d => d.get? k) hfeed.active, ?_, congrFun hfeed.lastPrice k⟩
  cases h : s.positions.get? symbol with
  | none => rw [closePosition_of_none h]
  | some pos =>
    have htrade : (tradeOf cfg s pos symbol tsMs px reason).symbol ≠ k := Ne.symm hk
    rw [closePosition_of_some h]
    unfold tradesOf
    rw [List.filter_append, List.filter_cons_of_neg (by simpa using htrade), List.filter_nil, List.append_nil]

theorem checkExitsOnCandle_same (hk : k ≠ symbol) (c : Candle5s) (s : PositionSimulator) :
    SameSymbol k s (checkExitsOnCandle cfg c symbol s) := by
  cases hget : s.positions.get? symbol with
  | none =>
    rw [checkExitsOnCandle_of_none hget]
    exact .refl k s
  | some pos =>
    cases hexit : exitOf pos c with
    | none =>
      rw [checkExitsOnCandle_of_stay hget hexit]
      exact .refl k s
    | some e =>
      obtain ⟨px, reason⟩ := e
      rw [checkExitsOnCandle_of_exit hget hexit]
      exact closePosition_same hk ..

theorem finalizeActive_other (hk : k ≠ symbol) (s : PositionSimulator) :
    SameSymbol k s (finalizeActive cfg symbol s) := by
  cases hact : s.active.get? symbol with
  | none =>
    rw [finalizeActive_of_none hact]
    exact .refl k s
  | some c =>
    rw [finalizeActive_of_some hact]
    refine SameSymbol.trans ?_ (checkExitsOnCandle_same hk c _)
    exact ⟨rfl, (Dict.get?_erase ..).trans (if_neg hk), rfl, rfl⟩

theorem finalizePosition_other (hk : k ≠ symbol) (lastTsMs : ℤ) (lastPrices : String → Option ℚ)
    (s : PositionSimulator) : SameSymbol k s (finalizePosition cfg lastTsMs lastPrices s symbol) := by
  unfold finalizePosition
  split
  · exact .refl k s
  · exact closePosition_same hk ..

theorem mergeCandle_same (hk : k ≠ ev.symbol) (s : PositionSimulator) : SameSymbol k s (mergeCandle cfg ev s) := by
  obtain ⟨hactive, -⟩ : (mergeCandle cfg ev s).active.get? k = s.active.get? k ∧ _ := mergeCandle_other hk
  cases hact : s.active.get? ev.symbol with
  | none =>
    rw [mergeCandle_of_none hact] at hactive ⊢
    exact ⟨rfl, hactive, rfl, rfl⟩
  | some a =>
    rcases lt_trichotomy (barBucket ev) a.sec with hlt | heq | hgt
    · rw [mergeCandle_of_late hact hlt]
      exact .refl k s
    · rw [mergeCandle_of_same hact heq] at hactive ⊢
      exact ⟨rfl, hactive, rfl, rfl⟩
    · have hflush : SameSymbol k s (finalizeActive cfg ev.symbol s) := finalizeActive_other hk s
      rw [mergeCandle_of_later hact hgt] at hactive ⊢
      exact ⟨hflush.positions, hactive, hflush.trades, hflush.lastPrice⟩

theorem Funded.sameSymbol (h : Funded symbol s s') (hk : k ≠ symbol) : SameSymbol k s s' := by
  refine ⟨h.other k hk, congrArg (fun d => d.get? k) h.feed.active, ?_, congrFun h.feed.lastPrice k⟩
  unfold tradesOf
  rw [h.trades]

theorem onOhlcv_other (hk : k ≠ ev.symbol) (s : PositionSimulator) : SameSymbol k s (onOhlcv cfg ev s) := by
  have hfund := (fundingCheck_funded cfg ev.symbol ev.tsMs (mergeCandle cfg ev s)).sameSymbol hk
  exact ((mergeCandle_same hk s).trans hfund).trans ⟨rfl, rfl, rfl, Function.update_of_ne hk ..⟩

theorem onEntry_other {signal : EntrySignal} (hk : k ≠ symbol) (s : PositionSimulator) :
    SameSymbol k s (onEntry cfg signal symbol s).2 := by
  unfold onEntry
  split
  · exact ⟨rfl, rfl, rfl, rfl⟩
  · exact ⟨(Dict.get?_set ..).trans (if_neg hk), rfl, rfl, rfl⟩

/-! ## The check of a candle -/

theorem tradesOf_congr (h : s'.trades = s.trades) : tradesOf k s' = tradesOf k s := by
  unfold tradesOf
  rw [h]

theorem tradesOf_append {u : Trade} (h : s'.trades = s.trades ++ [u]) (hu : u.symbol = k) :
    tradesOf k s' = tradesOf k s ++ [u] := by
  unfold tradesOf
  rw [h, List.filter_append, List.filter_cons_of_pos (by simpa using hu), List.filter_nil]

/-- What the exit check of candle `c` does to the symbol: nothing without a position or without an exit, up to a
funding payment after it, and else it records the trade of the exit. -/
inductive CandleCheck (cfg : PositionSimConfig) (k : String) (c : Candle5s) (s s' : PositionSimulator) : Prop
  | free (h : s.positions.get? k = none) (h' : s'.positions.get? k = none) (htrades : s'.trades = s.trades)
  | stay (pos : Position) (fundingPaid : ℚ) (h : s.positions.get? k = some pos) (hstay : exitOf pos c = none)
      (h' : s'.positions.get? k = some { pos with fundingPaid }) (htrades : s'.trades = s.trades)
  | exit (pos : Position) (px : ℚ) (reason : ExitReason) (h : s.positions.get? k = some pos)
      (hexit : exitOf pos c = some (px, reason)) (h' : s'.positions.get? k = none)
      (htrades : s'.trades = s.trades ++ [tradeOf cfg s pos k c.tsMs px reason])

/-- A close records the trade. -/
theorem closePosition_own (cfg : PositionSimConfig) (h : s.positions.get? k = some pos) (tsMs : ℤ) (px : ℚ)
    (reason : ExitReason) : (closePosition cfg k tsMs px reason s).positions.get? k = none ∧
      (closePosition cfg k tsMs px reason s).trades = s.trades ++ [tradeOf cfg s pos k tsMs px reason] := by
  rw [closePosition_of_some h]
  exact ⟨(Dict.get?_erase ..).trans (if_pos rfl), rfl⟩

theorem finalizeActive_check (cfg : PositionSimConfig) (h : s.active.get? k = some c) :
    CandleCheck cfg k c s (finalizeActive cfg k s) := by
  rw [finalizeActive_of_some h]
  generalize hs' : ({ s with
    active := s.active.erase k
    candles := Function.update s.candles k (dequeAppend (candleCap cfg) (s.candles k) c) } : PositionSimulator) = s₁
  have hpos : s₁.positions = s.positions := by rw [← hs']
  have htrades : s₁.trades = s.trades := by rw [← hs']
  cases hget : s.positions.get? k with
  | none =>
    rw [checkExitsOnCandle_of_none (by rw [hpos, hget])]
    exact .free hget (by rw [hpos, hget]) htrades
  | some pos =>
    have hget₁ : s₁.positions.get? k = some pos := by rw [hpos, hget]
    cases hexit : exitOf pos c with
    | none =>
      rw [checkExitsOnCandle_of_stay hget₁ hexit]
      exact .stay pos pos.fundingPaid hget hexit hget₁ htrades
    | some e =>
      obtain ⟨px, reason⟩ := e
      rw [checkExitsOnCandle_of_exit hget₁ hexit]
      obtain ⟨hnone, hclosed⟩ := closePosition_own cfg hget₁ c.tsMs px reason
      rw [htrades, ← hs'] at hclosed
      rw [← hs'] at hnone ⊢
      exact .exit pos px reason hget hexit hnone hclosed

theorem finalizeActive_erases (cfg : PositionSimConfig) (k : String) (s : PositionSimulator) :
    (finalizeActive cfg k s).active.get? k = none := by
  cases hact : s.active.get? k with
  | none => rw [finalizeActive_of_none hact, hact]
  | some c => rw [(finalizeActive_candles hact).1, Dict.get?_erase, if_pos rfl]

/-- A funding payment after the check. -/
theorem CandleCheck.funded (h : CandleCheck cfg k c s s') (hf : Funded k s' t) : CandleCheck cfg k c s t := by
  have hnone : s'.positions.get? k = none → t.positions.get? k = none := by
    intro hget
    rw [Dict.get?_eq_none] at hget ⊢
    rw [hf.keys]
    exact hget
  cases h with
  | free h h' htrades => exact .free h (hnone h') (hf.trades.trans htrades)
  | stay pos fundingPaid h hstay h' htrades =>
    obtain ⟨g, hg⟩ := hf.own _ h'
    exact .stay pos g h hstay hg (hf.trades.trans htrades)
  | exit pos px reason h hexit h' htrades => exact .exit pos px reason h hexit (hnone h') (hf.trades.trans htrades)

/-! ## A bar -/

/-- Nothing but a funding payment has happened to the symbol's position. -/
structure Paid (k : String) (s s' : PositionSimulator) : Prop where
  free : s.positions.get? k = none → s'.positions.get? k = none
  held : ∀ pos, s.positions.get? k = some pos → ∃ fundingPaid, s'.positions.get? k = some { pos with fundingPaid }
  trades : tradesOf k s' = tradesOf k s

theorem Funded.paid (h : Funded k s s') : Paid k s s' := by
  refine ⟨fun hget => ?_, h.own, ?_⟩
  · rw [Dict.get?_eq_none] at hget ⊢
    rw [h.keys]
    exact hget
  · unfold tradesOf
    rw [h.trades]

/-- A bar of a later bucket than the symbol's open candle has that candle checked. -/
theorem onOhlcv_later {a : Candle5s} (h : s.active.get? ev.symbol = some a) (hev : a.sec < barBucket ev) :
    CandleCheck cfg ev.symbol a s (onOhlcv cfg ev s) := by
  have hcheck := finalizeActive_check cfg h
  have hmerge : CandleCheck cfg ev.symbol a s (mergeCandle cfg ev s) := by
    rw [mergeCandle_of_later h hev]
    cases hcheck with
    | free h h' htrades => exact .free h h' htrades
    | stay pos f h hstay h' htrades => exact .stay pos f h hstay h' htrades
    | exit pos px reason h hexit h' htrades => exact .exit pos px reason h hexit h' htrades
  have hfund := hmerge.funded (fundingCheck_funded cfg ev.symbol ev.tsMs (mergeCandle cfg ev s))
  cases hfund with
  | free h h' htrades => exact .free h h' htrades
  | stay pos f h hstay h' htrades => exact .stay pos f h hstay h' htrades
  | exit pos px reason h hexit h' htrades => exact .exit pos px reason h hexit h' htrades

/-- Any other bar leaves the positions and the trades to the funding check. -/
theorem mergeCandle_still (cfg : PositionSimConfig) (h : ∀ a, s.active.get? ev.symbol = some a → barBucket ev ≤ a.sec) :
    (mergeCandle cfg ev s).positions = s.positions ∧ (mergeCandle cfg ev s).trades = s.trades := by
  cases hact : s.active.get? ev.symbol with
  | none =>
    rw [mergeCandle_of_none hact]
    exact ⟨rfl, rfl⟩
  | some a =>
    rcases lt_or_eq_of_le (h a hact) with hlt | heq
    · rw [mergeCandle_of_late hact hlt]
      exact ⟨rfl, rfl⟩
    · rw [mergeCandle_of_same hact heq]
      exact ⟨rfl, rfl⟩

theorem onOhlcv_paid (h : ∀ a, s.active.get? ev.symbol = some a → barBucket ev ≤ a.sec) :
    Paid ev.symbol s (onOhlcv cfg ev s) := by
  obtain ⟨hpos, htrades⟩ := mergeCandle_still cfg h
  have hpaid := (fundingCheck_funded cfg ev.symbol ev.tsMs (mergeCandle cfg ev s)).paid
  refine ⟨fun hget => hpaid.free (by rw [hpos, hget]), fun pos hget => hpaid.held pos (by rw [hpos, hget]), ?_⟩
  exact hpaid.trades.trans (tradesOf_congr htrades)

theorem onOhlcv_trades (cfg : PositionSimConfig) (h : ∀ a, s.active.get? ev.symbol = some a → barBucket ev ≤ a.sec) :
    (onOhlcv cfg ev s).trades = s.trades :=
  (fundingCheck_funded cfg ev.symbol ev.tsMs (mergeCandle cfg ev s)).trades.trans (mergeCandle_still cfg h).2

/-! ## An entry -/

/-- An accepted entry carries its symbol and the direction and stamp of its signal, and there was room for it. -/
theorem entryDecision_spec {signal : EntrySignal} (h : entryDecision cfg s signal symbol = .ok pos) :
    (pos.symbol = symbol ∧ pos.direction = signal.direction) ∧
      (pos.entryTsMs = signal.tsMs ∧ pos.entryBucketSec = bucketSec (signal.tsMs / 1000)) ∧
      (s.positions.keys.length : ℤ) < cfg.maxPositionsGlobal := by
  obtain ⟨-, hroom, -, -, -, rfl⟩ := entryDecision_ok h
  exact ⟨⟨rfl, rfl⟩, ⟨rfl, rfl⟩, hroom⟩

/-- An entry opens a position, stamped by its signal, where there is none, or does nothing to the symbol. -/
theorem onEntry_own (cfg : PositionSimConfig) (signal : EntrySignal) (symbol : String) (s : PositionSimulator) :
    SameSymbol symbol s (onEntry cfg signal symbol s).2 ∨
      ∃ pos, s.positions.get? symbol = none ∧ (onEntry cfg signal symbol s).2.positions.get? symbol = some pos ∧
        pos.entryTsMs = signal.tsMs ∧ pos.entryBucketSec = bucketSec (signal.tsMs / 1000) ∧
        tradesOf symbol (onEntry cfg signal symbol s).2 = tradesOf symbol s := by
  unfold onEntry
  cases hdec : entryDecision cfg s signal symbol with
  | error reason => exact Or.inl ⟨rfl, rfl, rfl, rfl⟩
  | ok pos =>
    obtain ⟨-, ⟨hts, hsec⟩, -⟩ := entryDecision_spec hdec
    exact Or.inr ⟨pos, entryDecision_free hdec, (Dict.get?_set ..).trans (if_pos rfl), hts, hsec, rfl⟩

/-! ## Loops over the keys -/

/-- A loop over other symbols leaves the symbol alone. -/
theorem foldl_other {f : PositionSimulator → String → PositionSimulator}
    (hother : ∀ s symbol, k ≠ symbol → SameSymbol k s (f s symbol)) (l : List String) (hk : k ∉ l) :
    ∀ s, SameSymbol k s (l.foldl f s) := by
  induction l with
  | nil => exact fun s => .refl k s
  | cons x l ih =>
    intro s
    rw [List.mem_cons, not_or] at hk
    exact (hother s x hk.1).trans (ih hk.2 _)

/-- A loop over distinct symbols does the work of one of them once, between work that leaves it alone. -/
theorem foldl_once {f : PositionSimulator → String → PositionSimulator}
    (hother : ∀ s symbol, k ≠ symbol → SameSymbol k s (f s symbol)) {l : List String} (hl : l.Nodup) (hk : k ∈ l)
    (s : PositionSimulator) : ∃ m, SameSymbol k s m ∧ SameSymbol k (f m k) (l.foldl f s) := by
  obtain ⟨l₁, l₂, rfl⟩ := List.append_of_mem hk
  rw [List.nodup_append, List.nodup_cons] at hl
  have hk₁ : k ∉ l₁ := fun h => hl.2.2 k h k List.mem_cons_self rfl
  refine ⟨l₁.foldl f s, foldl_other hother l₁ hk₁ s, ?_⟩
  rw [List.foldl_append, List.foldl_cons]
  exact foldl_other hother l₂ hl.2.1.1 _

end MikoV2.Backtest.PositionSim
