import MikoV2.Backtest.Funding

/-!
# Each settlement is paid once

* `ChargedOnce` : the boundaries that a position was charged for, each once, with the rate that was known when a bar
  first reached it; `ChargedOnce.bar` : what a bar adds;
* `step_held` : what a call other than a bar of the symbol does to an open position;
* `RolledOver`, `mergeCandle_held` : what the roll-over in a bar does; `onOhlcv_held`, `onOhlcv_closed` : what the bar
  does;
* `charged_held` : while it stays open, a position has paid for exactly these boundaries;
* `FundedOnce`, `funding_once` : that, and what the bar that closes it leaves in the trade.
-/

namespace MikoV2.Backtest.PositionSim
open PaperMath (Direction ExitReason)
open Py (Dict)
open Ticks (nextTick ticks)
open Loop (Ends)

variable {cfg : PositionSimConfig} {s s₀ : PositionSimulator} {symbol k : String} {pos : Position} {ev : OHLCVEvent}
  {pre held : List Action} {t₀ : ℤ} {charges : List (ℤ × ℚ)}

/-- The symbol has a position in every state of the calls. -/
def OpenAlong (cfg : PositionSimConfig) (k : String) (s₀ : PositionSimulator) (held : List Action) : Prop :=
  Runs.Always (fun s => (s.positions.get? k).isSome) (step cfg) s₀ held

/-- The boundaries of the calls `held` after a bar at `t₀`, with the rates at which they were charged. -/
structure ChargedOnce (cfg : PositionSimConfig) (k : String) (s₀ : PositionSimulator) (t₀ : ℤ) (held : List Action)
    (charges : List (ℤ × ℚ)) : Prop where
  once : (charges.map Prod.fst).Nodup
  /-- every boundary after `t₀`, up to the last bar, and nothing else -/
  boundaries : ∀ b, b ∈ charges.map Prod.fst ↔ fundingMs ∣ b ∧ t₀ < b ∧ b ≤ (lastBar k held).getD t₀
  /-- at the rate that was known when a bar first reached it -/
  rates : ∀ c ∈ charges, ∃ before ev after, held = before ++ .onOhlcv ev :: after ∧ ev.symbol = k ∧
    (∀ x ∈ barsIn k before, x.tsMs < c.1) ∧ c.1 ≤ ev.tsMs ∧
      c.2 = ((Runs.run (step cfg) s₀ before).lastFundingRate k).getD 0

/-- What the charges come to. -/
def paidFor (pos : Position) (charges : List (ℤ × ℚ)) : ℚ := (charges.map fun c => charge pos c.2).sum

theorem ChargedOnce.nil (cfg : PositionSimConfig) (k : String) (s₀ : PositionSimulator) (t₀ : ℤ) :
    ChargedOnce cfg k s₀ t₀ [] [] := by
  refine ⟨List.nodup_nil, fun b => ?_, fun _ hc => absurd hc List.not_mem_nil⟩
  simp [lastBar, barsIn, barsOf]

/-- The charges so far, one call later. -/
theorem ChargedOnce.later (h : ChargedOnce cfg k s₀ t₀ held charges) (a : Action) :
    ∀ c ∈ charges, ∃ before ev after, held ++ [a] = before ++ .onOhlcv ev :: after ∧ ev.symbol = k ∧
      (∀ x ∈ barsIn k before, x.tsMs < c.1) ∧ c.1 ≤ ev.tsMs ∧
        c.2 = ((Runs.run (step cfg) s₀ before).lastFundingRate k).getD 0 := by
  intro c hc
  obtain ⟨before, ev, after, rfl, hrest⟩ := h.rates c hc
  exact ⟨before, ev, after ++ [a], by simp, hrest⟩

/-! ## One call -/

/-- Any other call leaves an open position as it is, or closes it. -/
theorem step_held {a : Action} (h : s.positions.get? k = some pos) (ha : ∀ ev, a = .onOhlcv ev → ev.symbol ≠ k) :
    (step cfg s a).positions.get? k = some pos ∨ (step cfg s a).positions.get? k = none := by
  cases a with
  | onOhlcv ev => exact Or.inl ((onOhlcv_other (Ne.symm (ha ev rfl)) s).positions.trans h)
  | onTicker ev => exact Or.inl h
  | onEntry signal symbol =>
    by_cases hk : k = symbol
    · subst hk
      refine Or.inl ?_
      have hfull : entryDecision cfg s signal k = .error (some .per_symbol_max_position) :=
        if_pos (Dict.mem_keys.mpr ⟨pos, h⟩)
      simp only [step, onEntry, hfull]
      exact h
    · exact Or.inl ((onEntry_other hk s).positions.trans h)
  | finalize lastTsMs lastPrices =>
    refine Or.inr (Dict.get?_eq_none.mpr ?_)
    show k ∉ ((finalize cfg lastTsMs lastPrices s).positions.items.map Prod.fst)
    rw [finalize_empty]
    exact List.not_mem_nil

/-- What a roll-over does to an open position: nothing, or it closes it with what it has paid so far. -/
inductive RolledOver (symbol : String) (pos : Position) (s s' : PositionSimulator) : Prop
  | held (hopen : s'.positions.get? symbol = some pos)
  | closed (trade : Trade) (hfree : s'.positions.get? symbol = none) (htrades : s'.trades = s.trades ++ [trade])
      (hsymbol : trade.symbol = symbol) (hpaid : trade.fundingPaid = pos.fundingPaid)

theorem finalizeActive_held (cfg : PositionSimConfig) (h : s.positions.get? symbol = some pos) :
    RolledOver symbol pos s (finalizeActive cfg symbol s) := by
  cases hact : s.active.get? symbol with
  | none =>
    rw [finalizeActive_of_none hact]
    exact .held h
  | some c =>
    rw [finalizeActive_of_some hact]
    generalize hs' : ({ s with
      active := s.active.erase symbol
      candles := Function.update s.candles symbol (dequeAppend (candleCap cfg) (s.candles symbol) c) } :
        PositionSimulator) = s'
    have hget : s'.positions.get? symbol = some pos := by
      rw [← hs']
      exact h
    have htrades : s'.trades = s.trades := by rw [← hs']
    cases hexit : exitOf pos c with
    | none =>
      rw [checkExitsOnCandle_of_stay hget hexit]
      exact .held hget
    | some exit =>
      rw [checkExitsOnCandle_of_exit hget hexit]
      obtain ⟨hfree, hclosed⟩ := closePosition_own cfg hget c.tsMs exit.1 exit.2
      exact .closed _ hfree (hclosed.trans (by rw [htrades])) rfl rfl

theorem mergeCandle_held (cfg : PositionSimConfig) (h : s.positions.get? ev.symbol = some pos) :
    RolledOver ev.symbol pos s (mergeCandle cfg ev s) := by
  cases hact : s.active.get? ev.symbol with
  | none =>
    rw [mergeCandle_of_none hact]
    exact .held h
  | some a =>
    rcases lt_trichotomy (barBucket ev) a.sec with hlt | heq | hgt
    · rw [mergeCandle_of_late hact hlt]
      exact .held h
    · rw [mergeCandle_of_same hact heq]
      exact .held h
    · rw [mergeCandle_of_later hact hgt]
      cases finalizeActive_held cfg h with
      | held hopen => exact .held hopen
      | closed trade hfree htrades hsymbol hpaid => exact .closed trade hfree htrades hsymbol hpaid

/-- The positions and trades after a bar are those after its funding check. -/
theorem onOhlcv_closed (cfg : PositionSimConfig) (h : s.positions.get? ev.symbol = some pos)
    (hfree : (onOhlcv cfg ev s).positions.get? ev.symbol = none) :
    ∃ trade, (onOhlcv cfg ev s).trades = s.trades ++ [trade] ∧ trade.symbol = ev.symbol ∧
      trade.fundingPaid = pos.fundingPaid := by
  have hfund := fundingCheck_funded cfg ev.symbol ev.tsMs (mergeCandle cfg ev s)
  cases mergeCandle_held cfg h with
  | held hopen =>
    obtain ⟨f, hf⟩ := hfund.own pos hopen
    have hsome : (onOhlcv cfg ev s).positions.get? ev.symbol = some { pos with fundingPaid := f } := hf
    rw [hsome] at hfree
    cases hfree
  | closed trade hfree htrades hsymbol hpaid => exact ⟨trade, hfund.trades.trans htrades, hsymbol, hpaid⟩

/-- A bar that leaves a position open charges it for the boundaries since the last bar. -/
theorem onOhlcv_held (hinc : cfg.includeFunding = true) {acts : List Action} (hclock : Clocked ev.symbol acts s)
    (htime : Timeline ev.symbol (acts ++ [.onOhlcv ev])) (h : s.positions.get? ev.symbol = some pos)
    (hopen : (onOhlcv cfg ev s).positions.get? ev.symbol ≠ none) :
    (onOhlcv cfg ev s).positions.get? ev.symbol = some { pos with
      fundingPaid := pos.fundingPaid + ((ticks fundingMs ((lastBar ev.symbol acts).getD ev.tsMs) ev.tsMs).map
        fun _ => charge pos ((s.lastFundingRate ev.symbol).getD 0)).sum } := by
  have hmerge := mergeCandle_clock cfg ev s
  obtain ⟨-, hpaid⟩ := fundingCheck_charges cfg (mergeCandle cfg ev s)
    ((congrFun hmerge.nextFundingMs ev.symbol).trans hclock.next) htime
  cases mergeCandle_held cfg h with
  | held hsome =>
    rw [hmerge.lastFundingRate] at hpaid
    exact hpaid hinc pos hsome
  | closed trade hfree htrades hsymbol hpaid' =>
    refine absurd ?_ hopen
    have hkeys := (fundingCheck_funded cfg ev.symbol ev.tsMs (mergeCandle cfg ev s)).keys
    refine Dict.get?_eq_none.mpr fun hmem => Dict.get?_eq_none.mp hfree ?_
    rw [← hkeys]
    exact hmem

/-! ## While it stays open -/

theorem lastBar_append (k : String) (acts acts' : List Action) :
    lastBar k (acts ++ acts') = (lastBar k acts').or (lastBar k acts) := by
  unfold lastBar
  rw [barsIn_append, List.getLast?_append]
  cases (barsIn k acts').getLast? with
  | none => rfl
  | some ev => rfl

/-- The last bar, after one at `t₀`. -/
theorem lastBar_after {acts : List Action} (h : lastBar k acts = some t₀) (held : List Action) :
    lastBar k (acts ++ held) = some ((lastBar k held).getD t₀) := by
  rw [lastBar_append, h]
  cases lastBar k held with
  | none => rfl
  | some t => rfl

theorem OpenAlong.of_append {a : Action} (h : OpenAlong cfg k s₀ (held ++ [a])) : OpenAlong cfg k s₀ held :=
  fun p hp => h p (hp.trans (List.prefix_append held [a]))

/-- A bar charges the boundaries since the last one, and each boundary belongs to one bar. -/
theorem ChargedOnce.bar (h : ChargedOnce cfg k s₀ t₀ held charges) {t : ℤ} (hk : ev.symbol = k)
    (hlast : t = (lastBar k held).getD t₀) (hbefore : ∀ x ∈ barsIn k held, x.tsMs ≤ t) (hlo : t₀ ≤ t)
    (hhi : t ≤ ev.tsMs) :
    ChargedOnce cfg k s₀ t₀ (held ++ [.onOhlcv ev]) (charges ++ (ticks fundingMs t ev.tsMs).map
      fun b => (b, ((Runs.run (step cfg) s₀ held).lastFundingRate k).getD 0)) := by
  have hnow : lastBar k (held ++ [.onOhlcv ev]) = some ev.tsMs := by
    rw [lastBar_append, lastBar, barsIn_bar hk]
    rfl
  have hnew : ∀ rate : ℚ,
      ((ticks fundingMs t ev.tsMs).map fun b => (b, rate)).map Prod.fst = ticks fundingMs t ev.tsMs := by
    intro rate
    rw [List.map_map]
    exact List.map_id _
  refine ⟨?_, fun b => ?_, ?_⟩
  · rw [List.map_append, hnew]
    refine h.once.append ((Ticks.ticks_pairwise fundingMs_pos t ev.tsMs).imp ne_of_lt) fun b hold hlate => ?_
    have hle := ((h.boundaries b).mp hold).2.2
    have hlt := ((Ticks.mem_ticks fundingMs_pos).mp hlate).2.1
    omega
  · rw [List.map_append, hnew, List.mem_append, h.boundaries, Ticks.mem_ticks fundingMs_pos, hnow, Option.getD_some,
      ← hlast, ← and_or_left]
    refine and_congr_right fun _ => ?_
    omega
  · intro c hc
    rcases List.mem_append.mp hc with hc | hc
    · exact h.later (.onOhlcv ev) c hc
    · obtain ⟨b, hb, rfl⟩ := List.mem_map.mp hc
      obtain ⟨-, hlate, hreached⟩ := (Ticks.mem_ticks fundingMs_pos).mp hb
      exact ⟨held, ev, [], rfl, hk, fun x hx => lt_of_le_of_lt (hbefore x hx) hlate, hreached, rfl⟩

theorem paidFor_append (pos : Position) (charges : List (ℤ × ℚ)) (bs : List ℤ) (rate : ℚ) :
    paidFor pos (charges ++ bs.map fun b => (b, rate)) =
      paidFor pos charges + (bs.map fun _ => charge pos rate).sum := by
  unfold paidFor
  rw [List.map_append, List.sum_append, List.map_map]
  rfl

/-- **While it stays open**, a position has paid for exactly the boundaries since its entry. -/
theorem charged_held (hinc : cfg.includeFunding = true) {windowId foldId : ℤ} {acts : List Action}
    (hs₀ : s₀ = Runs.run (step cfg) (init cfg windowId foldId) acts) (hlast : lastBar k acts = some t₀)
    (h₀ : s₀.positions.get? k = some pos) : ∀ held, Timeline k (acts ++ held) → OpenAlong cfg k s₀ held →
      ∃ charges, ChargedOnce cfg k s₀ t₀ held charges ∧ (Runs.run (step cfg) s₀ held).positions.get? k =
        some { pos with fundingPaid := pos.fundingPaid + paidFor pos charges } := by
  intro held
  induction held using List.reverseRecOn with
  | nil =>
    intro _ _
    refine ⟨[], .nil cfg k s₀ t₀, h₀.trans ?_⟩
    simp [paidFor]
  | append_singleton held a ih =>
    intro htime hopen
    rw [← List.append_assoc] at htime
    obtain ⟨charges, hcharged, hpos⟩ := ih htime.of_append hopen.of_append
    have hnow := hopen.last
    rw [Runs.run_append] at hnow ⊢
    have hclock : Clocked k (acts ++ held) (Runs.run (step cfg) s₀ held) := by
      rw [hs₀, ← Runs.run_append]
      exact clocked_run cfg windowId foldId k _ htime.of_append
    by_cases ha : ∃ ev, a = .onOhlcv ev ∧ ev.symbol = k
    · obtain ⟨ev, rfl, rfl⟩ := ha
      have ht := lastBar_after hlast held
      have hbefore := le_lastBar htime.of_append ht
      have hbar := onOhlcv_held hinc hclock htime hpos (Option.isSome_iff_ne_none.mp hnow)
      rw [ht, Option.getD_some] at hbar
      refine ⟨_, hcharged.bar rfl rfl (fun x hx => hbefore x ?_) ?_ (lastBar_le htime ht), hbar.trans ?_⟩
      · rw [barsIn_append]
        exact List.mem_append_right _ hx
      · obtain ⟨last, hmem, rfl⟩ := Option.map_eq_some_iff.mp hlast
        refine hbefore last ?_
        rw [barsIn_append]
        exact List.mem_append_left _ (List.mem_of_getLast? hmem)
      · rw [paidFor_append, ← add_assoc]
        rfl
    · have hquiet : ∀ ev, a = .onOhlcv ev → ev.symbol ≠ k := fun ev he hk => ha ⟨ev, he, hk⟩
      refine ⟨charges, ⟨hcharged.once, ?_, hcharged.later a⟩, ?_⟩
      · rw [lastBar_append, lastBar, barsIn_of_not_bar hquiet]
        exact hcharged.boundaries
      · rcases step_held hpos hquiet with hsame | hclosed
        · exact hsame
        · rw [Runs.run_cons, Runs.run_nil, hclosed] at hnow
          cases hnow

/-! ## From the entry on -/

/-- An accepted entry has seen a candle of its symbol, and has paid nothing yet. -/
theorem entryDecision_unpaid {signal : EntrySignal} (h : entryDecision cfg s signal symbol = .ok pos) :
    s.candles symbol ≠ [] ∧ pos.fundingPaid = 0 := by
  obtain ⟨-, -, -, atr, hatr, rfl⟩ := entryDecision_ok h
  refine ⟨fun hnil => ?_, rfl⟩
  rw [PositionSim.atr, hnil] at hatr
  simp [PaperMath.computeAtr] at hatr

/-- The bars up to `t₀` and the calls `held` after the entry: what the position has paid while it stays open, and what
the bar that closes it leaves in the trade. -/
structure FundedOnce (cfg : PositionSimConfig) (k : String) (pos : Position) (s₀ : PositionSimulator) (t₀ : ℤ)
    (held : List Action) (charges : List (ℤ × ℚ)) : Prop where
  charged : ChargedOnce cfg k s₀ t₀ held charges
  paid : (Runs.run (step cfg) s₀ held).positions.get? k = some { pos with fundingPaid := paidFor pos charges }
  /-- a bar that closes the position adds no charge -/
  closed : ∀ ev : OHLCVEvent, ev.symbol = k →
    (Runs.run (step cfg) s₀ (held ++ [.onOhlcv ev])).positions.get? k = none →
      ∃ trade, (Runs.run (step cfg) s₀ (held ++ [.onOhlcv ev])).trades =
          (Runs.run (step cfg) s₀ held).trades ++ [trade] ∧
        trade.symbol = k ∧ trade.fundingPaid = paidFor pos charges

/-- **Funding once a settlement.** With `include_funding`, a position opened after the bar at `t₀` has, as long as it
stays open, paid once for every boundary after `t₀` that a bar has reached, and nothing else; the bar in which it is
closed charges it nothing; and the catch-up loop always ends. -/
theorem funding_once (hinc : cfg.includeFunding = true) {windowId foldId : ℤ} {later : List Action}
    {signal : EntrySignal} (htime : Timeline k (pre ++ later))
    (hentry : entryDecision cfg (Runs.run (step cfg) (init cfg windowId foldId) pre) signal k = .ok pos) :
    (∃ t₀, lastBar k pre = some t₀ ∧ ∀ held, held <+: later →
      OpenAlong cfg k (Runs.run (step cfg) (init cfg windowId foldId) (pre ++ [.onEntry signal k])) held →
        ∃ charges, FundedOnce cfg k pos (Runs.run (step cfg) (init cfg windowId foldId) (pre ++ [.onEntry signal k])) t₀
          held charges) ∧
      ∀ symbol tsMs s,
        Ends (fundingRound cfg symbol tsMs) (fundingStart symbol tsMs s) (fundingCheck cfg symbol tsMs s) := by
  refine ⟨?_, fundingCheck_ends cfg⟩
  obtain ⟨hseen, hzero⟩ := entryDecision_unpaid hentry
  have hclock := clocked_run cfg windowId foldId k pre htime.of_append
  obtain ⟨t₀, ht₀⟩ : ∃ t₀, lastBar k pre = some t₀ := by
    refine Option.ne_none_iff_exists'.mp fun hnone => hseen (hclock.unseen ?_).1
    exact List.getLast?_eq_none_iff.mp (Option.map_eq_none_iff.mp hnone)
  refine ⟨t₀, ht₀, fun held hheld hopen => ?_⟩
  have hbars : barsIn k (pre ++ [.onEntry signal k]) = barsIn k pre := by
    have hquiet : barsIn k [.onEntry signal k] = [] := rfl
    rw [barsIn_append, hquiet, List.append_nil]
  have hlast : lastBar k (pre ++ [.onEntry signal k]) = some t₀ := by
    unfold lastBar at ht₀ ⊢
    rw [hbars]
    exact ht₀
  have htime' : Timeline k (pre ++ [.onEntry signal k] ++ held) := by
    obtain ⟨rest, rfl⟩ := hheld
    rw [← List.append_assoc] at htime
    obtain ⟨hstamped, hsorted⟩ := htime.of_append
    rw [barsIn_append] at hstamped hsorted
    constructor
    · rwa [barsIn_append, hbars]
    · rwa [barsIn_append, hbars]
  have h₀ : (Runs.run (step cfg) (init cfg windowId foldId) (pre ++ [.onEntry signal k])).positions.get? k =
      some pos := by
    rw [Runs.run_append]
    simp only [Runs.run_cons, Runs.run_nil, step, onEntry, hentry]
    exact (Dict.get?_set ..).trans (if_pos rfl)
  obtain ⟨charges, hcharged, hpaid⟩ := charged_held hinc rfl hlast h₀ held htime' hopen
  rw [hzero, zero_add] at hpaid
  refine ⟨charges, hcharged, hpaid, ?_⟩
  rintro ev rfl hfree
  rw [Runs.run_append] at hfree ⊢
  exact onOhlcv_closed cfg hpaid hfree

/-- The config, bars and entry of a run across the boundary at 08:00. -/
def fundedConfig : PositionSimConfig := { atrPeriod := 1, includeFunding := true }

def fundedBar (sec : ℤ) : Action := .onOhlcv ⟨sec, sec * 1000, 100, 102, 98, 100, 0, 0, 0, "BTC_USDT", sec⟩

def fundedBars : List Action := [fundedBar 28785, fundedBar 28790, fundedBar 28795]

def fundedSignal : EntrySignal := ⟨.LONG, 28795000, 100, "", []⟩

def fundedEntry : Position :=
  { symbol := "BTC_USDT"
    direction := .LONG
    entryTsMs := 28795000
    entryBucketSec := 28795
    entryPrice := 5001 / 50
    qty := 40
    slPrice := 4901 / 50
    tpPrice := 5201 / 50
    entryFee := 5001 / 6250 }

def fundedLater : List Action :=
  [.onTicker ⟨28796000, 100, 100, 100, 0, 0, 1 / 1000, 28800000, "BTC_USDT", 0⟩, fundedBar 28800]

theorem funding_once_boundary : ∃ charges, FundedOnce fundedConfig "BTC_USDT" fundedEntry
    (Runs.run (step fundedConfig) (init fundedConfig 0 0) (fundedBars ++ [.onEntry fundedSignal "BTC_USDT"])) 28795000
    fundedLater charges := by
  have htime : Timeline "BTC_USDT" (fundedBars ++ fundedLater) := ⟨by decide +kernel, by decide +kernel⟩
  have hentry : entryDecision fundedConfig (Runs.run (step fundedConfig) (init fundedConfig 0 0) fundedBars)
      fundedSignal "BTC_USDT" = .ok fundedEntry := by decide +kernel
  obtain ⟨⟨t₀, ht₀, hheld⟩, -⟩ := funding_once rfl htime hentry
  have hlast : lastBar "BTC_USDT" fundedBars = some 28795000 := rfl
  rw [hlast] at ht₀
  cases ht₀
  refine hheld fundedLater (List.prefix_refl _) ?_
  unfold OpenAlong fundedLater
  rw [Runs.always_cons, Runs.always_cons, Runs.always_nil]
  exact ⟨by decide +kernel, by decide +kernel, by decide +kernel⟩

end MikoV2.Backtest.PositionSim
