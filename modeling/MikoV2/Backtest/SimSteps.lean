import Mathlib.Logic.Relation
import MikoV2.Backtest.PositionSim

/-!
# What the methods of the simulator do

One lemma per method, so that nothing later unfolds one.

* `exitOf` : the exit a candle gives a position; `checkExitsOnCandle_eq` : the check takes exactly that exit;
* `Funded` : everything the funding check does; `fundingCheck_passed` : its loop ends;
* `SameFeed` : the candles and prices, which exits, entries and funding leave alone;
* `Move`, `Moves`, `step_moves` : every call is a sequence of openings, closes, payments and quiet work.
-/

namespace MikoV2.Backtest.PositionSim
open PaperMath (Direction ExitReason)
open Py (Dict)

variable {cfg : PositionSimConfig} {s s' t : PositionSimulator} {symbol k : String} {pos : Position}
  {c : Candle5s} {ev : OHLCVEvent}

/-! ## Closes and exits -/

theorem closePosition_of_none (h : s.positions.get? symbol = none) (tsMs : ℤ) (px : ℚ) (reason : ExitReason) :
    closePosition cfg symbol tsMs px reason s = s := by
  unfold closePosition
  rw [h]

theorem closePosition_of_some (h : s.positions.get? symbol = some pos) (tsMs : ℤ) (px : ℚ) (reason : ExitReason) :
    closePosition cfg symbol tsMs px reason s =
      { s with
        positions := s.positions.erase symbol
        trades := s.trades ++ [tradeOf cfg s pos symbol tsMs px reason]
        realizedEquity := s.realizedEquity + (tradeOf cfg s pos symbol tsMs px reason).pnlNet } := by
  unfold closePosition
  rw [h]

/-- The price and the reason at which candle `c` exits the position, if it does. -/
def exitOf (pos : Position) (c : Candle5s) : Option (ℚ × ExitReason) :=
  if c.sec ≤ pos.entryBucketSec then none
  else if hitSl pos c then some (pos.slPrice, .SL)
  else if hitTp pos c then some (pos.tpPrice, .TP)
  else none

theorem checkExitsOnCandle_of_none (h : s.positions.get? symbol = none) : checkExitsOnCandle cfg c symbol s = s := by
  unfold checkExitsOnCandle
  rw [h]

theorem checkExitsOnCandle_of_stay (h : s.positions.get? symbol = some pos) (he : exitOf pos c = none) :
    checkExitsOnCandle cfg c symbol s = s := by
  unfold checkExitsOnCandle
  unfold exitOf at he
  rw [h]
  dsimp only
  split
  · rfl
  · rename_i hsec
    rw [if_neg hsec] at he
    split
    · rename_i hsl
      rw [if_pos hsl] at he
      cases he
    · rename_i hsl
      rw [if_neg hsl] at he
      split
      · rename_i htp
        rw [if_pos htp] at he
        cases he
      · rfl

theorem checkExitsOnCandle_of_exit {px : ℚ} {reason : ExitReason} (h : s.positions.get? symbol = some pos)
    (he : exitOf pos c = some (px, reason)) :
    checkExitsOnCandle cfg c symbol s = closePosition cfg symbol c.tsMs px reason s := by
  unfold checkExitsOnCandle
  unfold exitOf at he
  rw [h]
  dsimp only
  split at he
  · cases he
  · rename_i hsec
    rw [if_neg hsec]
    split at he
    · rename_i hsl
      rw [if_pos hsl]
      cases he
      rfl
    · rename_i hsl
      rw [if_neg hsl]
      split at he
      · rename_i htp
        rw [if_pos htp]
        cases he
        rfl
      · cases he

/-! ## What exits, entries and funding leave alone -/

/-- The candles, the prices and the labels. -/
structure SameFeed (s s' : PositionSimulator) : Prop where
  candles : s'.candles = s.candles
  active : s'.active = s.active
  lastPrice : s'.lastPrice = s.lastPrice
  windowId : s'.windowId = s.windowId
  foldId : s'.foldId = s.foldId

theorem SameFeed.refl (s : PositionSimulator) : SameFeed s s := ⟨rfl, rfl, rfl, rfl, rfl⟩

theorem SameFeed.trans (h : SameFeed s s') (h' : SameFeed s' t) : SameFeed s t :=
  ⟨h'.candles.trans h.candles, h'.active.trans h.active, h'.lastPrice.trans h.lastPrice,
    h'.windowId.trans h.windowId, h'.foldId.trans h.foldId⟩

theorem closePosition_feed (cfg : PositionSimConfig) (symbol : String) (tsMs : ℤ) (px : ℚ) (reason : ExitReason)
    (s : PositionSimulator) : SameFeed s (closePosition cfg symbol tsMs px reason s) := by
  cases h : s.positions.get? symbol with
  | none =>
    rw [closePosition_of_none h]
    exact .refl s
  | some pos =>
    rw [closePosition_of_some h]
    exact ⟨rfl, rfl, rfl, rfl, rfl⟩

theorem checkExitsOnCandle_feed (cfg : PositionSimConfig) (c : Candle5s) (symbol : String) (s : PositionSimulator) :
    SameFeed s (checkExitsOnCandle cfg c symbol s) := by
  unfold checkExitsOnCandle
  split
  · exact .refl s
  · split
    · exact .refl s
    · split
      · exact closePosition_feed ..
      · split
        · exact closePosition_feed ..
        · exact .refl s

/-- A close touches no other symbol. -/
theorem closePosition_other (hk : k ≠ symbol) (tsMs : ℤ) (px : ℚ) (reason : ExitReason) :
    (closePosition cfg symbol tsMs px reason s).positions.get? k = s.positions.get? k := by
  cases h : s.positions.get? symbol with
  | none => rw [closePosition_of_none h]
  | some pos =>
    rw [closePosition_of_some h]
    exact (Dict.get?_erase ..).trans (if_neg hk)

/-! ## Funding -/

/-- The positions differ by what they paid, and only the one of `symbol`; the clock of funding may have moved. -/
structure Funded (symbol : String) (s s' : PositionSimulator) : Prop where
  feed : SameFeed s s'
  trades : s'.trades = s.trades
  realizedEquity : s'.realizedEquity = s.realizedEquity
  keys : s'.positions.keys = s.positions.keys
  other : ∀ k, k ≠ symbol → s'.positions.get? k = s.positions.get? k
  own : ∀ pos, s.positions.get? symbol = some pos →
    ∃ fundingPaid, s'.positions.get? symbol = some { pos with fundingPaid }

theorem Funded.refl (symbol : String) (s : PositionSimulator) : Funded symbol s s :=
  ⟨.refl s, rfl, rfl, rfl, fun _ _ => rfl, fun pos h => ⟨pos.fundingPaid, h⟩⟩

theorem Funded.trans (h : Funded symbol s s') (h' : Funded symbol s' t) : Funded symbol s t := by
  refine ⟨h.feed.trans h'.feed, h'.trades.trans h.trades, h'.realizedEquity.trans h.realizedEquity,
    h'.keys.trans h.keys, fun k hk => (h'.other k hk).trans (h.other k hk), fun pos hget => ?_⟩
  obtain ⟨f, hf⟩ := h.own pos hget
  obtain ⟨g, hg⟩ := h'.own _ hf
  exact ⟨g, hg⟩

theorem applyFunding_funded (symbol : String) (s : PositionSimulator) : Funded symbol s (applyFunding symbol s) := by
  unfold applyFunding
  split
  · exact .refl symbol s
  · rename_i pos hget
    refine ⟨⟨rfl, rfl, rfl, rfl, rfl⟩, rfl, rfl, Dict.keys_set_of_mem (Dict.mem_keys.mpr ⟨pos, hget⟩) _, ?_, ?_⟩
    · intro k hk
      exact (Dict.get?_set ..).trans (if_neg hk)
    · intro p hp
      rw [hget] at hp
      cases hp
      exact ⟨_, (Dict.get?_set ..).trans (if_pos rfl)⟩

theorem fundingLoop_funded (cfg : PositionSimConfig) (symbol : String) (tsMs : ℤ) (fuel : ℕ) :
    ∀ (next : ℤ) (s : PositionSimulator), Funded symbol s (fundingLoop cfg symbol tsMs fuel next s) := by
  induction fuel with
  | zero => exact fun next s => ⟨⟨rfl, rfl, rfl, rfl, rfl⟩, rfl, rfl, rfl, fun _ _ => rfl, fun pos h => ⟨_, h⟩⟩
  | succ fuel ih =>
    intro next s
    unfold fundingLoop
    split
    · refine Funded.trans ?_ (ih _ _)
      split
      · exact applyFunding_funded symbol s
      · exact .refl symbol s
    · exact ⟨⟨rfl, rfl, rfl, rfl, rfl⟩, rfl, rfl, rfl, fun _ _ => rfl, fun pos h => ⟨_, h⟩⟩

theorem fundingCheck_funded (cfg : PositionSimConfig) (symbol : String) (tsMs : ℤ) (s : PositionSimulator) :
    Funded symbol s (fundingCheck cfg symbol tsMs s) := fundingLoop_funded ..

theorem fundingLoop_passed (cfg : PositionSimConfig) (symbol : String) (tsMs : ℤ) (fuel : ℕ) :
    ∀ (next : ℤ) (s : PositionSimulator), tsMs - next < fuel →
      ∃ n, (fundingLoop cfg symbol tsMs fuel next s).nextFundingMs symbol = some n ∧ tsMs < n := by
  induction fuel with
  | zero => exact fun next s hfuel => ⟨next, by simp [fundingLoop], by omega⟩
  | succ fuel ih =>
    intro next s hfuel
    unfold fundingLoop
    split
    · have hlater : next + 1 < nextFundingTs (next + 1) := PaperMath.lt_nextFundingTsMs (next + 1)
      exact ih _ _ (by omega)
    · exact ⟨next, by simp, by omega⟩

/-- The funding loop ends because the boundary has passed the bar, not for lack of rounds. -/
theorem fundingCheck_passed (cfg : PositionSimConfig) (symbol : String) (tsMs : ℤ) (s : PositionSimulator) :
    ∃ n, (fundingCheck cfg symbol tsMs s).nextFundingMs symbol = some n ∧ tsMs < n :=
  fundingLoop_passed cfg symbol tsMs _ _ s (by omega)

/-! ## Moves -/

/-- Positions, trades and realized equity are unchanged. -/
structure Quiet (s s' : PositionSimulator) : Prop where
  positions : s'.positions = s.positions
  trades : s'.trades = s.trades
  realizedEquity : s'.realizedEquity = s.realizedEquity

/-- A close at the stop or the target is a close at that price. -/
def ExitAt (pos : Position) (px : ℚ) : ExitReason → Prop
  | .SL => px = pos.slPrice
  | .TP => px = pos.tpPrice
  | .END_OF_BACKTEST => True

theorem exitOf_exitAt {px : ℚ} {reason : ExitReason} (h : exitOf pos c = some (px, reason)) : ExitAt pos px reason := by
  unfold exitOf at h
  split at h
  · cases h
  · split at h
    · cases h
      rfl
    · split at h
      · cases h
        rfl
      · cases h

/-- One move; an opening is one that `allow` permits. -/
inductive Move (cfg : PositionSimConfig) (allow : Position → Prop) : PositionSimulator → PositionSimulator → Prop
  | quiet {s s' : PositionSimulator} (h : Quiet s s') : Move cfg allow s s'
  | funded {s : PositionSimulator} {symbol : String} {pos : Position} (fundingPaid : ℚ)
      (h : s.positions.get? symbol = some pos) :
      Move cfg allow s { s with positions := s.positions.set symbol { pos with fundingPaid } }
  | opened {s : PositionSimulator} {symbol : String} {pos : Position} (hfree : s.positions.get? symbol = none)
      (h : allow pos) : Move cfg allow s { s with positions := s.positions.set symbol pos }
  | closed {s : PositionSimulator} {symbol : String} {pos : Position} (tsMs : ℤ) (px : ℚ) (reason : ExitReason)
      (h : s.positions.get? symbol = some pos) (hexit : ExitAt pos px reason) :
      Move cfg allow s (closePosition cfg symbol tsMs px reason s)

def Moves (cfg : PositionSimConfig) (allow : Position → Prop) : PositionSimulator → PositionSimulator → Prop :=
  Relation.ReflTransGen (Move cfg allow)

variable {allow : Position → Prop}

theorem Moves.refl (s : PositionSimulator) : Moves cfg allow s s := Relation.ReflTransGen.refl

theorem Moves.trans (h : Moves cfg allow s s') (h' : Moves cfg allow s' t) : Moves cfg allow s t :=
  Relation.ReflTransGen.trans h h'

theorem Moves.one (h : Move cfg allow s s') : Moves cfg allow s s' := .single h

theorem Moves.quiet (h : Quiet s s') : Moves cfg allow s s' := .one (.quiet h)

/-- What every move keeps, every sequence of moves keeps. -/
theorem Moves.keeps {I : PositionSimulator → Prop} (hI : ∀ s s', I s → Move cfg allow s s' → I s')
    (h : Moves cfg allow s s') (h0 : I s) : I s' := by
  induction h with
  | refl => exact h0
  | tail _ hm ih => exact hI _ _ ih hm

theorem checkExitsOnCandle_moves (cfg : PositionSimConfig) (c : Candle5s) (symbol : String) (s : PositionSimulator) :
    Moves cfg allow s (checkExitsOnCandle cfg c symbol s) := by
  cases hget : s.positions.get? symbol with
  | none =>
    rw [checkExitsOnCandle_of_none hget]
    exact .refl s
  | some pos =>
    cases he : exitOf pos c with
    | none =>
      rw [checkExitsOnCandle_of_stay hget he]
      exact .refl s
    | some e =>
      rw [checkExitsOnCandle_of_exit hget (show exitOf pos c = some (e.1, e.2) from he)]
      exact .one (.closed _ _ _ hget (exitOf_exitAt he))

theorem finalizeActive_moves (cfg : PositionSimConfig) (symbol : String) (s : PositionSimulator) :
    Moves cfg allow s (finalizeActive cfg symbol s) := by
  unfold finalizeActive
  split
  · exact .refl s
  · refine Moves.trans (.quiet ?_) (checkExitsOnCandle_moves ..)
    exact ⟨rfl, rfl, rfl⟩

theorem mergeCandle_moves (cfg : PositionSimConfig) (ev : OHLCVEvent) (s : PositionSimulator) :
    Moves cfg allow s (mergeCandle cfg ev s) := by
  unfold mergeCandle
  split
  · exact .quiet ⟨rfl, rfl, rfl⟩
  · split
    · exact (finalizeActive_moves cfg ev.symbol s).trans (.quiet ⟨rfl, rfl, rfl⟩)
    · split
      · exact .quiet ⟨rfl, rfl, rfl⟩
      · exact .refl s

theorem fundingLoop_moves (cfg : PositionSimConfig) (symbol : String) (tsMs : ℤ) (fuel : ℕ) :
    ∀ (next : ℤ) (s : PositionSimulator), Moves cfg allow s (fundingLoop cfg symbol tsMs fuel next s) := by
  induction fuel with
  | zero => exact fun next s => .quiet ⟨rfl, rfl, rfl⟩
  | succ fuel ih =>
    intro next s
    unfold fundingLoop
    split
    · refine Moves.trans ?_ (ih _ _)
      split
      · unfold applyFunding
        split
        · exact .refl s
        · rename_i pos hget
          exact .one (.funded _ hget)
      · exact .refl s
    · exact .quiet ⟨rfl, rfl, rfl⟩

theorem onOhlcv_moves (cfg : PositionSimConfig) (ev : OHLCVEvent) (s : PositionSimulator) :
    Moves cfg allow s (onOhlcv cfg ev s) := by
  have hmerge : Moves cfg allow s (mergeCandle cfg ev s) := mergeCandle_moves ..
  have hfund : Moves cfg allow (mergeCandle cfg ev s) (fundingCheck cfg ev.symbol ev.tsMs (mergeCandle cfg ev s)) :=
    fundingLoop_moves ..
  exact (hmerge.trans hfund).trans (.quiet ⟨rfl, rfl, rfl⟩)

theorem foldl_moves {α : Type} {f : PositionSimulator → α → PositionSimulator} (hf : ∀ s a, Moves cfg allow s (f s a))
    (l : List α) : ∀ s, Moves cfg allow s (l.foldl f s) := by
  induction l with
  | nil => exact Moves.refl
  | cons a l ih => exact fun s => (hf s a).trans (ih _)

theorem finalizePosition_moves (cfg : PositionSimConfig) (lastTsMs : ℤ) (lastPrices : String → Option ℚ)
    (s : PositionSimulator) (symbol : String) :
    Moves cfg allow s (finalizePosition cfg lastTsMs lastPrices s symbol) := by
  unfold finalizePosition
  split
  · exact .refl s
  · rename_i pos hget
    exact .one (.closed _ _ _ hget trivial)

/-- What an accepted entry has passed, and what it opens. -/
theorem entryDecision_ok {signal : EntrySignal} (h : entryDecision cfg s signal symbol = .ok pos) :
    symbol ∉ s.positions.keys ∧ (s.positions.keys.length : ℤ) < cfg.maxPositionsGlobal ∧ 0 < signal.price ∧
      ∃ atr, PositionSim.atr cfg s symbol = some atr ∧
        let dist := max (min (cfg.slAtrMultiplier * atr) (cfg.maxSlDistancePct * signal.price))
          (cfg.minSlDistancePct * signal.price)
        let fill := if signal.direction = .LONG then signal.price * (1 + slippagePct cfg)
          else signal.price * (1 - slippagePct cfg)
        let qty := equity s * cfg.riskPct / dist
        pos = {
          symbol
          direction := signal.direction
          entryTsMs := signal.tsMs
          entryBucketSec := bucketSec (signal.tsMs / 1000)
          entryPrice := fill
          qty
          slPrice := if signal.direction = .LONG then fill - dist else fill + dist
          tpPrice := if signal.direction = .LONG then fill + cfg.tpRMultiple * dist
            else fill - cfg.tpRMultiple * dist
          entryFee := fill * qty * cfg.feeTaker } := by
  unfold entryDecision at h
  split at h
  · cases h
  rename_i hfree
  split at h
  · cases h
  rename_i hroom
  split at h
  · cases h
  split at h
  · cases h
  rename_i atr hatr
  split at h
  · cases h
  dsimp only at h
  split at h
  · cases h
  rename_i hprice
  split at h
  · cases h
  split at h
  · cases h
  exact ⟨hfree, not_le.mp hroom, not_le.mp hprice, atr, hatr, (Except.ok.inj h).symm⟩

theorem entryDecision_free {signal : EntrySignal} (h : entryDecision cfg s signal symbol = .ok pos) :
    s.positions.get? symbol = none := Dict.get?_eq_none.mpr (entryDecision_ok h).1

theorem onEntry_moves {signal : EntrySignal} (hallow : ∀ pos, entryDecision cfg s signal symbol = .ok pos → allow pos) :
    Moves cfg allow s (onEntry cfg signal symbol s).2 := by
  unfold onEntry
  split
  · exact .quiet ⟨rfl, rfl, rfl⟩
  · rename_i pos hdec
    have hfree := entryDecision_free hdec
    have hclear : Moves cfg allow s { s with lastRejectionReason := none } := .quiet ⟨rfl, rfl, rfl⟩
    have hopen : Move cfg allow { s with lastRejectionReason := none } _ := .opened hfree (hallow pos hdec)
    exact hclear.trans (.one hopen)

/-- Every call is a sequence of moves, the openings those that `on_entry` accepts. -/
theorem step_moves {a : Action}
    (hallow : ∀ signal symbol pos, a = .onEntry signal symbol → entryDecision cfg s signal symbol = .ok pos → allow pos) :
    Moves cfg allow s (step cfg s a) := by
  cases a with
  | onOhlcv ev => exact onOhlcv_moves cfg ev s
  | onTicker ev => exact .quiet ⟨rfl, rfl, rfl⟩
  | onEntry signal symbol => exact onEntry_moves fun pos h => hallow signal symbol pos rfl h
  | finalize lastTsMs lastPrices =>
    exact (foldl_moves (fun s symbol => finalizeActive_moves cfg symbol s) _ s).trans
      (foldl_moves (finalizePosition_moves cfg lastTsMs lastPrices) _ _)

end MikoV2.Backtest.PositionSim
