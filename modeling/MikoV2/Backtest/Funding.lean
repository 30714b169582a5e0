import MikoV2.Backtest.Accounting
import MikoV2.Lib.Loop
import MikoV2.Lib.Ticks

/-!
# The funding clock

* `fundingMs`, `nextFundingTs_of_sec` : the boundaries are the ticks of eight hours;
* `IsFundingBoundary`, `nextFunding_isLeast_iff` : when the boundary found is the first one after the instant;
* `fundingRound`, `fundingCheck_ends` : one round of the catch-up loop, which ends after every gap;
* `fundingLoop_charges`, `fundingCheck_charges` : what the check charges, and where it leaves the next boundary;
* `SameClock`, `Timeline` : the calls that leave the boundaries alone, and bars in the order of their seconds;
* `Clocked`, `clocked_run` : the next boundary of a symbol is the first tick after its last bar.
-/

namespace MikoV2.Backtest.PositionSim
open PaperMath (Direction ExitReason)
open Py (Dict)
open Ticks (nextTick ticks)
open Loop (Ends)

variable {cfg : PositionSimConfig} {s s' : PositionSimulator} {symbol k : String} {pos : Position} {ev : OHLCVEvent}
  {acts : List Action} {tsMs next lo : ℤ}

/-! ## Boundaries -/

/-- Eight hours. -/
def fundingMs : ℤ := 28800000

theorem fundingMs_pos : 0 < fundingMs := by decide

theorem nextFundingTs_eq (tsMs : ℤ) : nextFundingTs tsMs = nextTick fundingMs (tsMs + 1) := by
  unfold nextFundingTs PaperMath.nextFundingTsMs nextTick
  dsimp only [PaperMath.dayMs, PaperMath.hourMs, fundingMs]
  have hnot : ¬ (tsMs + 1) % 86400000 / 3600000 < 0 := by omega
  by_cases h8 : (tsMs + 1) % 86400000 / 3600000 < 8
  · simp only [List.find?_cons, hnot, decide_false, h8, decide_true]
    omega
  · by_cases h16 : (tsMs + 1) % 86400000 / 3600000 < 16
    · simp only [List.find?_cons, hnot, decide_false, h8, h16, decide_true]
      omega
    · simp only [List.find?_cons, List.find?_nil, hnot, decide_false, h8, h16]
      omega

/-- On a whole second, the first boundary after it. -/
theorem nextFundingTs_of_sec (sec : ℤ) : nextFundingTs (sec * 1000) = nextTick fundingMs (sec * 1000) := by
  rw [nextFundingTs_eq]
  unfold nextTick fundingMs
  omega

/-- The loop goes from a boundary to the next one. -/
theorem nextFundingTs_of_tick (tsMs : ℤ) :
    nextFundingTs (nextTick fundingMs tsMs + 1) = nextTick fundingMs (nextTick fundingMs tsMs) := by
  rw [nextFundingTs_eq]
  unfold nextTick fundingMs
  omega

/-- It is 00, 08 or 16 o'clock UTC. -/
def IsFundingBoundary (b : ℤ) : Prop := ∃ h ∈ [0, 8, 16], b % PaperMath.dayMs = h * PaperMath.hourMs

theorem isFundingBoundary_iff {b : ℤ} : IsFundingBoundary b ↔ fundingMs ∣ b := by
  unfold IsFundingBoundary fundingMs PaperMath.dayMs PaperMath.hourMs
  simp only [List.mem_cons, List.not_mem_nil, or_false, exists_eq_or_imp, exists_eq_left]
  omega

/-- `next` finds the first boundary strictly after `tsMs`. -/
def NextBoundaryAt (next : ℤ → ℤ) (tsMs : ℤ) : Prop :=
  IsLeast {b | IsFundingBoundary b ∧ tsMs < b} (next tsMs) ∧ next tsMs = (tsMs / 28800000 + 1) * 28800000

theorem nextBoundaryAt_iff_eq {f : ℤ → ℤ} : NextBoundaryAt f tsMs ↔ f tsMs = nextTick fundingMs tsMs := by
  constructor
  · rintro ⟨-, heq⟩
    exact heq
  · intro heq
    refine ⟨?_, heq⟩
    simp only [isFundingBoundary_iff, heq]
    exact Ticks.isLeast_nextTick fundingMs_pos tsMs

/-- The millisecond that is added carries the last one of eight hours over its boundary. -/
theorem nextTick_succ_eq_iff :
    nextTick fundingMs (tsMs + 1) = nextTick fundingMs tsMs ↔ (tsMs + 1) % 28800000 ≠ 0 := by
  unfold nextTick fundingMs
  omega

/-- Both functions skip a boundary exactly when it is one millisecond away. -/
theorem nextFunding_isLeast_iff (tsMs : ℤ) :
    (NextBoundaryAt PaperMath.nextFundingTsMs tsMs ↔ (tsMs + 1) % 28800000 ≠ 0) ∧
    (NextBoundaryAt nextFundingTs tsMs ↔ (tsMs + 1) % 28800000 ≠ 0) := by
  have hcopy : NextBoundaryAt nextFundingTs tsMs ↔ (tsMs + 1) % 28800000 ≠ 0 := by
    rw [nextBoundaryAt_iff_eq, nextFundingTs_eq]
    exact nextTick_succ_eq_iff
  exact ⟨hcopy, hcopy⟩

/-- At 07:59:59.999 the next boundary found is 16:00. -/
theorem nextFunding_skips : ¬ ∀ tsMs : ℤ, 0 ≤ tsMs →
    NextBoundaryAt PaperMath.nextFundingTsMs tsMs ∧ NextBoundaryAt nextFundingTs tsMs := by
  intro h
  have heq : PaperMath.nextFundingTsMs 28799999 = (28799999 / 28800000 + 1) * 28800000 :=
    (h 28799999 (by decide)).1.2
  exact absurd heq (by decide)

/-! ## The catch-up loop -/

/-- `self._next_funding_ms[symbol] = next`. -/
def withNext (symbol : String) (next : ℤ) (s : PositionSimulator) : PositionSimulator :=
  { s with nextFundingMs := Function.update s.nextFundingMs symbol (some next) }

/-- One round of `while ev.ts_ms >= self._next_funding_ms[symbol]`. -/
def fundingRound (cfg : PositionSimConfig) (symbol : String) (tsMs : ℤ) (s : PositionSimulator) :
    Option PositionSimulator :=
  match s.nextFundingMs symbol with
  | none => none
  | some next =>
    if tsMs ≥ next then
      some (withNext symbol (nextFundingTs (next + 1)) (if cfg.includeFunding then applyFunding symbol s else s))
    else none

/-- Where the loop starts: the boundary is set, if there was none. -/
def fundingStart (symbol : String) (tsMs : ℤ) (s : PositionSimulator) : PositionSimulator :=
  withNext symbol ((s.nextFundingMs symbol).getD (nextFundingTs tsMs)) s

theorem applyFunding_withNext (symbol : String) (next : ℤ) (s : PositionSimulator) :
    applyFunding symbol (withNext symbol next s) = withNext symbol next (applyFunding symbol s) := by
  unfold applyFunding withNext
  dsimp only
  split
  · rfl
  · rfl

theorem withNext_withNext (symbol : String) (m n : ℤ) (s : PositionSimulator) :
    withNext symbol n (withNext symbol m s) = withNext symbol n s := by
  simp [withNext]

theorem fundingRound_of_ge (h : tsMs ≥ next) : fundingRound cfg symbol tsMs (withNext symbol next s) =
    some (withNext symbol (nextFundingTs (next + 1)) (if cfg.includeFunding then applyFunding symbol s else s)) := by
  have hnext : (withNext symbol next s).nextFundingMs symbol = some next := Function.update_self ..
  unfold fundingRound
  rw [hnext]
  dsimp only
  rw [if_pos h]
  split
  · rw [applyFunding_withNext, withNext_withNext]
  · rw [withNext_withNext]

theorem fundingRound_of_lt (h : tsMs < next) : fundingRound cfg symbol tsMs (withNext symbol next s) = none := by
  have hnext : (withNext symbol next s).nextFundingMs symbol = some next := Function.update_self ..
  unfold fundingRound
  rw [hnext]
  exact if_neg (not_le.mpr h)

theorem fundingLoop_ends (cfg : PositionSimConfig) (symbol : String) (tsMs : ℤ) (fuel : ℕ) :
    ∀ (next : ℤ) (s : PositionSimulator), tsMs - next < fuel →
      Ends (fundingRound cfg symbol tsMs) (withNext symbol next s) (fundingLoop cfg symbol tsMs fuel next s) := by
  induction fuel with
  | zero =>
    intro next s hfuel
    exact Ends.done (fundingRound_of_lt (by omega))
  | succ fuel ih =>
    intro next s hfuel
    unfold fundingLoop
    split
    · rename_i hge
      have hlater : next + 1 < nextFundingTs (next + 1) := PaperMath.lt_nextFundingTsMs (next + 1)
      exact Ends.again (fundingRound_of_ge hge) (ih _ _ (by omega))
    · rename_i hlt
      exact Ends.done (fundingRound_of_lt (not_le.mp hlt))

/-- The loop ends, after any gap, where the check leaves the simulator. -/
theorem fundingCheck_ends (cfg : PositionSimConfig) (symbol : String) (tsMs : ℤ) (s : PositionSimulator) :
    Ends (fundingRound cfg symbol tsMs) (fundingStart symbol tsMs s) (fundingCheck cfg symbol tsMs s) :=
  fundingLoop_ends cfg symbol tsMs _ _ s (by omega)

/-! ## What it charges -/

/-- A LONG pays the rate on its notional, a SHORT receives it. -/
def charge (pos : Position) (rate : ℚ) : ℚ :=
  if pos.direction = .LONG then rate * (pos.entryPrice * pos.qty) else -(rate * (pos.entryPrice * pos.qty))

theorem applyFunding_own (h : s.positions.get? symbol = some pos) : (applyFunding symbol s).positions.get? symbol =
    some { pos with fundingPaid := pos.fundingPaid + charge pos ((s.lastFundingRate symbol).getD 0) } := by
  unfold applyFunding charge
  rw [h]
  refine (Dict.get?_set ..).trans ((if_pos rfl).trans ?_)
  congr 2
  split
  · rfl
  · exact sub_eq_add_neg _ _

theorem applyFunding_rate (symbol : String) (s : PositionSimulator) :
    (applyFunding symbol s).lastFundingRate = s.lastFundingRate ∧
      (applyFunding symbol s).nextFundingMs = s.nextFundingMs := by
  unfold applyFunding
  split
  · exact ⟨rfl, rfl⟩
  · exact ⟨rfl, rfl⟩

/-- After a bar at `lo` the loop charges the boundaries up to the bar, each once, and stops at the first one after
it. -/
theorem fundingLoop_charges (cfg : PositionSimConfig) (symbol : String) (tsMs : ℤ) (fuel : ℕ) :
    ∀ (lo : ℤ) (s : PositionSimulator), lo ≤ tsMs → tsMs - nextTick fundingMs lo < fuel →
      (fundingLoop cfg symbol tsMs fuel (nextTick fundingMs lo) s).nextFundingMs =
          Function.update s.nextFundingMs symbol (some (nextTick fundingMs tsMs)) ∧
        (cfg.includeFunding = true → ∀ pos, s.positions.get? symbol = some pos →
          (fundingLoop cfg symbol tsMs fuel (nextTick fundingMs lo) s).positions.get? symbol = some { pos with
            fundingPaid := pos.fundingPaid +
              ((ticks fundingMs lo tsMs).map fun _ => charge pos ((s.lastFundingRate symbol).getD 0)).sum }) := by
  have hstop : ∀ lo s, lo ≤ tsMs → tsMs < nextTick fundingMs lo →
      (withNext symbol (nextTick fundingMs lo) s).nextFundingMs =
          Function.update s.nextFundingMs symbol (some (nextTick fundingMs tsMs)) ∧
        (cfg.includeFunding = true → ∀ pos, s.positions.get? symbol = some pos →
          (withNext symbol (nextTick fundingMs lo) s).positions.get? symbol = some { pos with
            fundingPaid := pos.fundingPaid +
              ((ticks fundingMs lo tsMs).map fun _ => charge pos ((s.lastFundingRate symbol).getD 0)).sum }) := by
    intro lo s hlo hlt
    rw [Ticks.nextTick_eq fundingMs_pos hlo hlt, Ticks.ticks_of_lt fundingMs_pos hlt]
    refine ⟨rfl, fun _ pos hpos => ?_⟩
    rw [List.map_nil, List.sum_nil, add_zero]
    exact hpos
  induction fuel with
  | zero =>
    intro lo s hlo hfuel
    exact hstop lo s hlo (by omega)
  | succ fuel ih =>
    intro lo s hlo hfuel
    unfold fundingLoop
    by_cases hge : tsMs ≥ nextTick fundingMs lo
    · rw [if_pos hge, nextFundingTs_of_tick]
      have hlater := Ticks.lt_nextTick fundingMs_pos (nextTick fundingMs lo)
      obtain ⟨hnext, hpaid⟩ :=
        ih (nextTick fundingMs lo) (if cfg.includeFunding then applyFunding symbol s else s) hge (by omega)
      refine ⟨hnext.trans ?_, fun hinc pos hpos => ?_⟩
      · split
        · rw [(applyFunding_rate symbol s).2]
        · rfl
      · dsimp only
        rw [if_pos hinc] at hpaid ⊢
        refine (hpaid hinc _ (applyFunding_own hpos)).trans ?_
        rw [(applyFunding_rate symbol s).1, Ticks.ticks_cons fundingMs_pos hge, List.map_cons, List.sum_cons,
          ← add_assoc]
        rfl
    · rw [if_neg hge]
      exact hstop lo s hlo (not_le.mp hge)

theorem fundingLoop_other (hk : k ≠ symbol) (tsMs : ℤ) (fuel : ℕ) : ∀ (next : ℤ) (s : PositionSimulator),
    (fundingLoop cfg symbol tsMs fuel next s).nextFundingMs k = s.nextFundingMs k := by
  induction fuel with
  | zero => exact fun next s => Function.update_of_ne hk ..
  | succ fuel ih =>
    intro next s
    unfold fundingLoop
    split
    · refine (ih _ _).trans ?_
      split
      · rw [(applyFunding_rate symbol s).2]
      · rfl
    · exact Function.update_of_ne hk ..

theorem fundingCheck_other (hk : k ≠ symbol) (tsMs : ℤ) (s : PositionSimulator) :
    (fundingCheck cfg symbol tsMs s).nextFundingMs k = s.nextFundingMs k := fundingLoop_other hk tsMs _ _ s

/-! ## The clock of a symbol -/

/-- The boundaries and the rates are unchanged. -/
structure SameClock (s s' : PositionSimulator) : Prop where
  nextFundingMs : s'.nextFundingMs = s.nextFundingMs
  lastFundingRate : s'.lastFundingRate = s.lastFundingRate

theorem SameClock.refl (s : PositionSimulator) : SameClock s s := ⟨rfl, rfl⟩

theorem SameClock.trans {t : PositionSimulator} (h : SameClock s s') (h' : SameClock s' t) : SameClock s t :=
  ⟨h'.nextFundingMs.trans h.nextFundingMs, h'.lastFundingRate.trans h.lastFundingRate⟩

theorem closePosition_clock (cfg : PositionSimConfig) (symbol : String) (tsMs : ℤ) (px : ℚ) (reason : ExitReason)
    (s : PositionSimulator) : SameClock s (closePosition cfg symbol tsMs px reason s) := by
  unfold closePosition
  split
  · exact .refl s
  · exact ⟨rfl, rfl⟩

theorem checkExitsOnCandle_clock (cfg : PositionSimConfig) (c : Candle5s) (symbol : String) (s : PositionSimulator) :
    SameClock s (checkExitsOnCandle cfg c symbol s) := by
  unfold checkExitsOnCandle
  split
  · exact .refl s
  · split
    · exact .refl s
    · split
      · exact closePosition_clock ..
      · split
        · exact closePosition_clock ..
        · exact .refl s

theorem finalizeActive_clock (cfg : PositionSimConfig) (symbol : String) (s : PositionSimulator) :
    SameClock s (finalizeActive cfg symbol s) := by
  unfold finalizeActive
  split
  · exact .refl s
  · refine SameClock.trans ?_ (checkExitsOnCandle_clock ..)
    exact ⟨rfl, rfl⟩

theorem mergeCandle_clock (cfg : PositionSimConfig) (ev : OHLCVEvent) (s : PositionSimulator) :
    SameClock s (mergeCandle cfg ev s) := by
  unfold mergeCandle
  split
  · exact ⟨rfl, rfl⟩
  · split
    · exact SameClock.trans (finalizeActive_clock cfg ev.symbol s) ⟨rfl, rfl⟩
    · split
      · exact ⟨rfl, rfl⟩
      · exact .refl s

theorem onEntry_clock (cfg : PositionSimConfig) (signal : EntrySignal) (symbol : String) (s : PositionSimulator) :
    SameClock s (onEntry cfg signal symbol s).2 := by
  unfold onEntry
  split
  · exact ⟨rfl, rfl⟩
  · exact ⟨rfl, rfl⟩

theorem foldl_clock {α : Type} {f : PositionSimulator → α → PositionSimulator} (hf : ∀ s a, SameClock s (f s a))
    (l : List α) : ∀ s, SameClock s (l.foldl f s) := by
  induction l with
  | nil => exact SameClock.refl
  | cons a l ih => exact fun s => (hf s a).trans (ih _)

theorem finalize_clock (cfg : PositionSimConfig) (lastTsMs : ℤ) (lastPrices : String → Option ℚ)
    (s : PositionSimulator) : SameClock s (finalize cfg lastTsMs lastPrices s) := by
  refine SameClock.trans (foldl_clock (fun s symbol => finalizeActive_clock cfg symbol s) _ s) (foldl_clock ?_ _ _)
  intro s symbol
  unfold finalizePosition
  split
  · exact .refl s
  · exact closePosition_clock ..

/-- The bars of a symbol among the calls. -/
def barsIn (k : String) (acts : List Action) : List OHLCVEvent := barsOf k (acts.filterMap barOf)

theorem barsIn_append (k : String) (acts acts' : List Action) :
    barsIn k (acts ++ acts') = barsIn k acts ++ barsIn k acts' := by
  unfold barsIn barsOf
  rw [List.filterMap_append, List.filter_append]

/-- The stamp of the last bar of a symbol. -/
def lastBar (k : String) (acts : List Action) : Option ℤ := (barsIn k acts).getLast?.map OHLCVEvent.tsMs

/-- The bars of a symbol are stamped with their second, and come in order. -/
structure Timeline (k : String) (acts : List Action) : Prop where
  stamped : ∀ ev ∈ barsIn k acts, ev.tsMs = ev.sec * 1000
  sorted : (barsIn k acts).Pairwise fun a b => a.tsMs ≤ b.tsMs

theorem Timeline.of_append {acts' : List Action} (h : Timeline k (acts ++ acts')) : Timeline k acts := by
  obtain ⟨hstamped, hsorted⟩ := h
  rw [barsIn_append] at hstamped hsorted
  exact ⟨fun ev hev => hstamped ev (List.mem_append_left _ hev), (List.pairwise_append.mp hsorted).1⟩

/-- The bar of the last call. -/
theorem barsIn_bar (hk : ev.symbol = k) : barsIn k [.onOhlcv ev] = [ev] := by
  simp [barsIn, barsOf, barOf, hk]

theorem barsIn_of_not_bar {a : Action} (h : ∀ ev, a = .onOhlcv ev → ev.symbol ≠ k) : barsIn k [a] = [] := by
  cases a with
  | onOhlcv ev => simp [barsIn, barsOf, barOf, h ev rfl]
  | onTicker ev | onEntry signal symbol | finalize lastTsMs lastPrices => rfl

/-- The last bar of a symbol is the latest. -/
theorem le_lastBar (h : Timeline k acts) {t : ℤ} (ht : lastBar k acts = some t) :
    ∀ ev ∈ barsIn k acts, ev.tsMs ≤ t := by
  obtain ⟨last, hlast, rfl⟩ := Option.map_eq_some_iff.mp ht
  obtain ⟨init, hinit⟩ := List.getLast?_eq_some_iff.mp hlast
  have hsorted := h.sorted
  rw [hinit] at hsorted ⊢
  intro ev hev
  rcases List.mem_append.mp hev with hev | hev
  · exact (List.pairwise_append.mp hsorted).2.2 ev hev last (List.mem_singleton_self last)
  · rw [List.mem_singleton.mp hev]

/-- A bar does not come before the last one. -/
theorem lastBar_le (h : Timeline ev.symbol (acts ++ [.onOhlcv ev])) {t : ℤ} (ht : lastBar ev.symbol acts = some t) :
    t ≤ ev.tsMs := by
  obtain ⟨last, hlast, rfl⟩ := Option.map_eq_some_iff.mp ht
  have hsorted := h.sorted
  rw [barsIn_append, barsIn_bar rfl] at hsorted
  exact (List.pairwise_append.mp hsorted).2.2 last (List.mem_of_getLast? hlast) ev List.mem_cons_self

/-- The next boundary of a symbol is the first one after its last bar; before its first bar it has no candle. -/
structure Clocked (k : String) (acts : List Action) (s : PositionSimulator) : Prop where
  next : s.nextFundingMs k = (lastBar k acts).map (nextTick fundingMs)
  unseen : barsIn k acts = [] → s.candles k = [] ∧ s.active.get? k = none

theorem Clocked.init (cfg : PositionSimConfig) (windowId foldId : ℤ) (k : String) :
    Clocked k [] (PositionSim.init cfg windowId foldId) := ⟨rfl, fun _ => ⟨rfl, rfl⟩⟩

/-- A call that brings no bar of the symbol. -/
theorem Clocked.quiet {a : Action} (h : Clocked k acts s) (ha : barsIn k [a] = [])
    (hnext : s'.nextFundingMs k = s.nextFundingMs k)
    (hunseen : s.candles k = [] ∧ s.active.get? k = none → s'.candles k = [] ∧ s'.active.get? k = none) :
    Clocked k (acts ++ [a]) s' := by
  refine ⟨?_, fun hnone => ?_⟩
  · unfold lastBar
    rw [barsIn_append, ha, List.append_nil]
    exact hnext.trans h.next
  · rw [barsIn_append, ha, List.append_nil] at hnone
    exact hunseen (h.unseen hnone)

/-- The check on a bar of the symbol, at or after its last one. -/
theorem fundingCheck_charges (cfg : PositionSimConfig) (s : PositionSimulator)
    (hlast : s.nextFundingMs ev.symbol = (lastBar ev.symbol acts).map (nextTick fundingMs))
    (htime : Timeline ev.symbol (acts ++ [.onOhlcv ev])) :
    (fundingCheck cfg ev.symbol ev.tsMs s).nextFundingMs =
        Function.update s.nextFundingMs ev.symbol (some (nextTick fundingMs ev.tsMs)) ∧
      (cfg.includeFunding = true → ∀ pos, s.positions.get? ev.symbol = some pos →
        (fundingCheck cfg ev.symbol ev.tsMs s).positions.get? ev.symbol = some { pos with
          fundingPaid := pos.fundingPaid + ((ticks fundingMs ((lastBar ev.symbol acts).getD ev.tsMs) ev.tsMs).map
            fun _ => charge pos ((s.lastFundingRate ev.symbol).getD 0)).sum }) := by
  have hbars : barsIn ev.symbol (acts ++ [.onOhlcv ev]) = barsIn ev.symbol acts ++ [ev] := by
    rw [barsIn_append, barsIn_bar rfl]
  unfold fundingCheck
  cases hl : lastBar ev.symbol acts with
  | none =>
    have hmem : ev ∈ barsIn ev.symbol (acts ++ [.onOhlcv ev]) := by
      rw [hbars]
      exact List.mem_append_right _ List.mem_cons_self
    have hstamp : ev.tsMs = ev.sec * 1000 := htime.stamped ev hmem
    have hfirst : nextFundingTs ev.tsMs = nextTick fundingMs ev.tsMs := by rw [hstamp, nextFundingTs_of_sec]
    rw [hl] at hlast
    rw [hlast, Option.map_none, Option.getD_none, hfirst]
    exact fundingLoop_charges cfg ev.symbol ev.tsMs _ ev.tsMs s (le_refl _) (by omega)
  | some t =>
    have hle : t ≤ ev.tsMs := lastBar_le htime hl
    rw [hl] at hlast
    rw [hlast, Option.map_some, Option.getD_some, Option.getD_some]
    exact fundingLoop_charges cfg ev.symbol ev.tsMs _ t s hle (by omega)

theorem finalizeActive_unseen (cfg : PositionSimConfig) (symbol : String)
    (h : s.candles k = [] ∧ s.active.get? k = none) :
    (finalizeActive cfg symbol s).candles k = [] ∧ (finalizeActive cfg symbol s).active.get? k = none := by
  cases hact : s.active.get? symbol with
  | none =>
    rw [finalizeActive_of_none hact]
    exact h
  | some c =>
    have hactive : (finalizeActive cfg symbol s).active = s.active.erase symbol := (finalizeActive_candles hact).1
    have hcandles : (finalizeActive cfg symbol s).candles =
        Function.update s.candles symbol (dequeAppend (candleCap cfg) (s.candles symbol) c) :=
      (finalizeActive_candles hact).2
    have hk : k ≠ symbol := by
      rintro rfl
      rw [h.2] at hact
      cases hact
    rw [hactive, hcandles, Function.update_of_ne hk, Dict.get?_erase, if_neg hk]
    exact h

theorem finalize_unseen (cfg : PositionSimConfig) (lastTsMs : ℤ) (lastPrices : String → Option ℚ)
    (h : s.candles k = [] ∧ s.active.get? k = none) :
    (finalize cfg lastTsMs lastPrices s).candles k = [] ∧
      (finalize cfg lastTsMs lastPrices s).active.get? k = none := by
  have hflush : ∀ (l : List String) (s : PositionSimulator), s.candles k = [] ∧ s.active.get? k = none →
      (l.foldl (fun s symbol => finalizeActive cfg symbol s) s).candles k = [] ∧
        (l.foldl (fun s symbol => finalizeActive cfg symbol s) s).active.get? k = none := by
    intro l
    induction l with
    | nil => exact fun s h => h
    | cons symbol l ih => exact fun s h => ih _ (finalizeActive_unseen cfg symbol h)
  have hclose : ∀ (l : List String) (s : PositionSimulator), s.candles k = [] ∧ s.active.get? k = none →
      (l.foldl (finalizePosition cfg lastTsMs lastPrices) s).candles k = [] ∧
        (l.foldl (finalizePosition cfg lastTsMs lastPrices) s).active.get? k = none := by
    intro l
    induction l with
    | nil => exact fun s h => h
    | cons symbol l ih =>
      intro s h
      refine ih _ ?_
      unfold finalizePosition
      split
      · exact h
      · rw [(closePosition_feed ..).candles, (closePosition_feed ..).active]
        exact h
  exact hclose _ _ (hflush _ _ h)

theorem clocked_step (h : Clocked k acts s) (a : Action) (htime : Timeline k (acts ++ [a])) :
    Clocked k (acts ++ [a]) (step cfg s a) := by
  cases a with
  | onTicker ev => exact h.quiet rfl rfl id
  | onEntry signal symbol =>
    have hfeed := onEntry_feed cfg signal symbol s
    refine h.quiet rfl (congrFun (onEntry_clock cfg signal symbol s).nextFundingMs k) fun hnone => ?_
    rw [step, hfeed.candles, hfeed.active]
    exact hnone
  | finalize lastTsMs lastPrices =>
    exact h.quiet rfl (congrFun (finalize_clock cfg lastTsMs lastPrices s).nextFundingMs k)
      (finalize_unseen cfg lastTsMs lastPrices)
  | onOhlcv ev =>
    have hmerge := (mergeCandle_clock cfg ev s).nextFundingMs
    by_cases hk : ev.symbol = k
    · subst hk
      obtain ⟨hnext, -⟩ := fundingCheck_charges cfg (mergeCandle cfg ev s)
        ((congrFun hmerge ev.symbol).trans h.next) htime
      have hbars : barsIn ev.symbol (acts ++ [.onOhlcv ev]) = barsIn ev.symbol acts ++ [ev] := by
        rw [barsIn_append, barsIn_bar rfl]
      refine ⟨?_, fun hnone => ?_⟩
      · unfold lastBar
        rw [hbars, List.getLast?_concat]
        exact (congrFun hnext ev.symbol).trans (Function.update_self ..)
      · rw [hbars] at hnone
        exact absurd hnone (List.append_ne_nil_of_right_ne_nil _ (List.cons_ne_nil _ _))
    · have hnone : barsIn k [.onOhlcv ev] = [] := barsIn_of_not_bar fun ev' he => by
        cases he
        exact hk
      have hfund := fundingCheck_funded cfg ev.symbol ev.tsMs (mergeCandle cfg ev s)
      obtain ⟨hactive, hcandles⟩ : (mergeCandle cfg ev s).active.get? k = s.active.get? k ∧
        (mergeCandle cfg ev s).candles k = s.candles k := mergeCandle_other (Ne.symm hk)
      refine h.quiet hnone ((fundingCheck_other (Ne.symm hk) ev.tsMs _).trans (congrFun hmerge k)) fun hunseen => ?_
      show (fundingCheck cfg ev.symbol ev.tsMs (mergeCandle cfg ev s)).candles k = [] ∧
        (fundingCheck cfg ev.symbol ev.tsMs (mergeCandle cfg ev s)).active.get? k = none
      rw [hfund.feed.candles, hfund.feed.active, hactive, hcandles]
      exact hunseen

theorem clocked_run (cfg : PositionSimConfig) (windowId foldId : ℤ) (k : String) (acts : List Action) :
    Timeline k acts → Clocked k acts (Runs.run (step cfg) (PositionSim.init cfg windowId foldId) acts) := by
  refine Runs.history_invariant (J := fun acts s => Timeline k acts → Clocked k acts s)
    (fun _ => Clocked.init cfg windowId foldId k) ?_ acts
  intro pre a ih htime
  exact clocked_step (ih htime.of_append) a htime

end MikoV2.Backtest.PositionSim
