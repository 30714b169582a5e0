import MikoV2.Backtest.MultiSymbolRunner
import MikoV2.Backtest.OneSymbol
import MikoV2.Backtest.Risk

/-!
# Exits at the first touch

What closes a position is stated over the bars after its entry: `bucketExit` looks at the lowest low and the highest
high of one bucket, `FirstTouch` at the first bucket that reaches a price.

* `bucketExit_eq_exitOf` : the simulator's candle gives the exit of its bucket;
* `Held` : the position is open and no closed bucket touched it, or it was closed by the first that did;
* `Held.check`, `Held.bar`, `Held.entry` : the invariant through a closed candle, a bar, an entry;
* `Timely` : what was opened and closed before, by the bucket of its entry;
* `Settled` : the one trade of a position after `finalize`, `Held.finalize`.
-/

namespace MikoV2.Backtest.PositionSim
open PaperMath (Direction ExitReason)
open Py (Dict)

variable {cfg : PositionSimConfig} {s s' t : PositionSimulator} {k : String} {pos : Position} {c : Candle5s}
  {x : OHLCVEvent} {later bars g : List OHLCVEvent} {top b : ℤ}

/-! ## What a bucket does to a position -/

def lowest (g : List OHLCVEvent) : Option ℚ := (g.map OHLCVEvent.low).min?

def highest (g : List OHLCVEvent) : Option ℚ := (g.map OHLCVEvent.high).max?

def stopReached (pos : Position) (low high : ℚ) : Bool :=
  match pos.direction with
  | .LONG => low ≤ pos.slPrice
  | .SHORT => high ≥ pos.slPrice

def targetReached (pos : Position) (low high : ℚ) : Bool :=
  match pos.direction with
  | .LONG => high ≥ pos.tpPrice
  | .SHORT => low ≤ pos.tpPrice

/-- The price and the reason at which the bars of bucket `b` exit the position, the stop before the target. -/
def bucketExit (pos : Position) (bars : List OHLCVEvent) (b : ℤ) : Option (ℚ × ExitReason) :=
  let g := bars.filter fun ev => barBucket ev = b
  match lowest g, highest g with
  | some low, some high =>
    if stopReached pos low high then some (pos.slPrice, .SL)
    else if targetReached pos low high then some (pos.tpPrice, .TP)
    else none
  | _, _ => none

/-- How the bars `later` after its entry close a position: at the start of the first bucket after that of the entry
that reaches the stop or the target, and else at the end of the run at the last close. -/
inductive FirstTouch (pos : Position) (later : List OHLCVEvent) (tsTo : ℤ) (lastClose : ℚ) :
    ℤ → ℚ → ExitReason → Prop
  | touched {b : ℤ} {px : ℚ} {reason : ExitReason} (hb : pos.entryBucketSec < b)
      (h : bucketExit pos later b = some (px, reason))
      (hfirst : ∀ b', pos.entryBucketSec < b' → b' < b → bucketExit pos later b' = none) :
      FirstTouch pos later tsTo lastClose (b * 1000) px reason
  | expired (h : ∀ b, pos.entryBucketSec < b → bucketExit pos later b = none) :
      FirstTouch pos later tsTo lastClose tsTo lastClose .END_OF_BACKTEST

theorem Aggregates.lowest_eq (h : Aggregates c g) : lowest g = some c.low := by
  unfold lowest
  rw [List.min?_eq_some_iff]
  refine ⟨?_, fun p hp => ?_⟩
  · obtain ⟨ev, hev, he⟩ := h.low_mem
    exact List.mem_map.mpr ⟨ev, hev, he⟩
  · obtain ⟨ev, hev, rfl⟩ := List.mem_map.mp hp
    exact h.low_le ev hev

theorem Aggregates.highest_eq (h : Aggregates c g) : highest g = some c.high := by
  unfold highest
  rw [List.max?_eq_some_iff]
  refine ⟨?_, fun p hp => ?_⟩
  · obtain ⟨ev, hev, he⟩ := h.high_mem
    exact List.mem_map.mpr ⟨ev, hev, he⟩
  · obtain ⟨ev, hev, rfl⟩ := List.mem_map.mp hp
    exact h.high_le ev hev

/-- After the bucket of the entry, the candle of a bucket gives the exit of the bucket. -/
theorem bucketExit_eq_exitOf (h : Aggregates c (bars.filter fun ev => barBucket ev = c.sec))
    (hsec : pos.entryBucketSec < c.sec) : bucketExit pos bars c.sec = exitOf pos c := by
  unfold bucketExit exitOf
  dsimp only
  rw [h.lowest_eq, h.highest_eq, if_neg (not_le_of_gt hsec)]
  rfl

theorem bucketExit_of_no_bar (h : ∀ ev ∈ bars, barBucket ev ≠ b) : bucketExit pos bars b = none := by
  have hempty : (bars.filter fun ev => barBucket ev = b) = [] := by
    rw [List.filter_eq_nil_iff]
    intro ev hev
    simpa using h ev hev
  unfold bucketExit
  rw [hempty]
  rfl

theorem bucketExit_append (hx : barBucket x ≠ b) : bucketExit pos (bars ++ [x]) b = bucketExit pos bars b := by
  unfold bucketExit
  rw [List.filter_append, List.filter_cons_of_neg (by simpa using hx), List.filter_nil, List.append_nil]

theorem exitOf_sec {px : ℚ} {reason : ExitReason} (h : exitOf pos c = some (px, reason)) :
    pos.entryBucketSec < c.sec := by
  by_contra hle
  unfold exitOf at h
  rw [if_pos (not_lt.mp hle)] at h
  cases h

/-! ## Following one position -/

/-- The buckets before `top` are closed. Either the position is open and none of them touched it, or the first one
that did closed it, in the only trade with its symbol and entry time. -/
inductive Held (k : String) (pos : Position) (later : List OHLCVEvent) (top : ℤ) (s : PositionSimulator) : Prop
  | opened (fundingPaid : ℚ) (h : s.positions.get? k = some { pos with fundingPaid })
      (huntouched : ∀ b, pos.entryBucketSec < b → b < top → bucketExit pos later b = none)
      (hnone : ∀ t ∈ tradesOf k s, t.entryTsMs ≠ pos.entryTsMs)
  | closed (b : ℤ) (t : Trade) (hb : pos.entryBucketSec < b) (htop : b < top) (hts : t.exitTsMs = b * 1000)
      (h : bucketExit pos later b = some (t.exitPrice, t.exitReason))
      (hfirst : ∀ b', pos.entryBucketSec < b' → b' < b → bucketExit pos later b' = none)
      (honce : (tradesOf k s).filter (fun t => t.entryTsMs = pos.entryTsMs) = [t]) (ht : ClosesPosition pos t)
      (hother : ∀ q, s.positions.get? k = some q → q.entryTsMs ≠ pos.entryTsMs)

/-- The trade of a position is the only one with its entry time, when there was none. -/
theorem filter_append_trade {ts : List Trade} {u : Trade} {n : ℤ} (hnone : ∀ t ∈ ts, t.entryTsMs ≠ n)
    (hu : u.entryTsMs = n) : (ts ++ [u]).filter (fun t => t.entryTsMs = n) = [u] := by
  have hempty : ts.filter (fun t => t.entryTsMs = n) = [] := by
    rw [List.filter_eq_nil_iff]
    intro t ht
    simpa using hnone t ht
  rw [List.filter_append, hempty, List.filter_cons_of_pos (by simpa using hu), List.filter_nil, List.nil_append]

theorem filter_append_other {ts : List Trade} {u : Trade} {n : ℤ} (hu : u.entryTsMs ≠ n) :
    (ts ++ [u]).filter (fun t => t.entryTsMs = n) = ts.filter fun t => t.entryTsMs = n := by
  rw [List.filter_append, List.filter_cons_of_neg (by simpa using hu), List.filter_nil, List.append_nil]

theorem tradeOf_closes (cfg : PositionSimConfig) (f : ℚ) (s : PositionSimulator) (k : String) (tsMs : ℤ) (px : ℚ)
    (reason : ExitReason) : ClosesPosition pos (tradeOf cfg s { pos with fundingPaid := f } k tsMs px reason) := ⟨rfl, rfl, rfl, rfl, rfl, rfl⟩

/-- The candle of bucket `c.sec` is closed and checked. -/
theorem Held.check (h : Held k pos later c.sec s) (hcheck : CandleCheck cfg k c s s')
    (hagg : pos.entryBucketSec < c.sec → Aggregates c (later.filter fun ev => barBucket ev = c.sec))
    (hle : ∀ ev ∈ later, barBucket ev ≤ c.sec) (htop : c.sec < top) : Held k pos later top s' := by
  cases h with
  | opened f hget huntouched hnone =>
    have hrest : exitOf pos c = none → ∀ b, pos.entryBucketSec < b → b < top → bucketExit pos later b = none := by
      intro hstay b hb _
      rcases lt_trichotomy b c.sec with hlt | heq | hgt
      · exact huntouched b hb hlt
      · rw [heq] at hb ⊢
        rw [bucketExit_eq_exitOf (hagg hb) hb, hstay]
      · exact bucketExit_of_no_bar fun ev hev => (lt_of_le_of_lt (hle ev hev) hgt).ne
    cases hcheck with
    | free hfree h' htrades =>
      rw [hget] at hfree
      cases hfree
    | stay p g hp hstay h' htrades =>
      rw [hget] at hp
      cases hp
      exact .opened g h' (hrest hstay) (tradesOf_congr (k := k) htrades ▸ hnone)
    | exit p px reason hp hexit h' htrades =>
      rw [hget] at hp
      cases hp
      have hexit : exitOf pos c = some (px, reason) := hexit
      have hsec := exitOf_sec hexit
      refine .closed c.sec _ hsec htop (hagg hsec).tsMs ?_ huntouched ?_ (tradeOf_closes cfg f s k c.tsMs px reason) ?_
      · rw [bucketExit_eq_exitOf (hagg hsec) hsec, hexit]
        rfl
      · rw [tradesOf_append (k := k) htrades rfl]
        exact filter_append_trade hnone rfl
      · intro q hq
        rw [h'] at hq
        cases hq
  | closed b t hb hbtop hts hexit hfirst honce ht hother =>
    cases hcheck with
    | free hfree h' htrades =>
      refine .closed b t hb (hbtop.trans htop) hts hexit hfirst (tradesOf_congr (k := k) htrades ▸ honce) ht fun q hq => ?_
      rw [h'] at hq
      cases hq
    | stay p g hp hstay h' htrades =>
      refine .closed b t hb (hbtop.trans htop) hts hexit hfirst (tradesOf_congr (k := k) htrades ▸ honce) ht fun q hq => ?_
      rw [h'] at hq
      cases hq
      exact hother p hp
    | exit p px reason hp hpexit h' htrades =>
      refine .closed b t hb (hbtop.trans htop) hts hexit hfirst ?_ ht fun q hq => ?_
      · rw [tradesOf_append (k := k) htrades rfl, filter_append_other (hother p hp)]
        exact honce
      · rw [h'] at hq
        cases hq

/-- A bar of a bucket that is not closed. -/
theorem Held.bar (h : Held k pos later top s) (hx : top ≤ barBucket x) : Held k pos (later ++ [x]) top s := by
  have hkeep : ∀ b, b < top → bucketExit pos (later ++ [x]) b = bucketExit pos later b := fun b hb =>
    bucketExit_append (lt_of_lt_of_le hb hx).ne'
  cases h with
  | opened f hget huntouched hnone =>
    exact .opened f hget (fun b hb hlt => (hkeep b hlt).trans (huntouched b hb hlt)) hnone
  | closed b t hb hbtop hts hexit hfirst honce ht hother =>
    refine .closed b t hb hbtop hts ((hkeep b hbtop).trans hexit) (fun b' hb' hlt => ?_) honce ht hother
    exact (hkeep b' (hlt.trans hbtop)).trans (hfirst b' hb' hlt)

theorem Held.paid (h : Held k pos later top s) (hp : Paid k s s') : Held k pos later top s' := by
  cases h with
  | opened f hget huntouched hnone =>
    obtain ⟨g, hg⟩ := hp.held _ hget
    exact .opened g hg huntouched (hp.trades ▸ hnone)
  | closed b t hb hbtop hts hexit hfirst honce ht hother =>
    refine .closed b t hb hbtop hts hexit hfirst (hp.trades ▸ honce) ht fun q hq => ?_
    cases hget : s.positions.get? k with
    | none =>
      rw [hp.free hget] at hq
      cases hq
    | some p =>
      obtain ⟨g, hg⟩ := hp.held p hget
      rw [hg] at hq
      cases hq
      exact hother p hget

theorem SameSymbol.paid (h : SameSymbol k s s') : Paid k s s' :=
  ⟨fun hget => h.positions.trans hget, fun pos hget => ⟨pos.fundingPaid, h.positions.trans hget⟩, h.trades⟩

/-- An entry at another time than the position's, once a later bucket is open. -/
theorem Held.entry {signal : EntrySignal} (h : Held k pos later top s)
    (hts : pos.entryBucketSec < top → signal.tsMs ≠ pos.entryTsMs) :
    Held k pos later top (onEntry cfg signal k s).2 := by
  rcases onEntry_own cfg signal k s with hsame | ⟨q, hfree, hq, hqts, -, htrades⟩
  · exact h.paid hsame.paid
  · cases h with
    | opened f hget huntouched hnone =>
      rw [hget] at hfree
      cases hfree
    | closed b t hb hbtop hbts hexit hfirst honce ht hother =>
      refine .closed b t hb hbtop hbts hexit hfirst (htrades ▸ honce) ht fun p hp => ?_
      rw [hq] at hp
      cases hp
      rw [hqts]
      exact hts (hb.trans hbtop)

/-! ## Closing out -/

/-- The one trade of the position. -/
def Settled (pos : Position) (later : List OHLCVEvent) (tsTo : ℤ) (lastClose : ℚ) (trades : List Trade) :
    Prop :=
  ∃ t, trades.filter (fun t => t.entryTsMs = pos.entryTsMs) = [t] ∧ ClosesPosition pos t ∧
    FirstTouch pos later tsTo lastClose t.exitTsMs t.exitPrice t.exitReason

theorem finalizePosition_own (cfg : PositionSimConfig) {px : ℚ} (h : s.positions.get? k = some pos)
    (hpx : s.lastPrice k = some px) (lastTsMs : ℤ) : tradesOf k (finalizePosition cfg lastTsMs (fun _ => none) s k) =
      tradesOf k s ++ [tradeOf cfg s pos k lastTsMs px .END_OF_BACKTEST] := by
  unfold finalizePosition
  rw [h]
  dsimp only
  rw [hpx]
  exact tradesOf_append (closePosition_own cfg h lastTsMs px .END_OF_BACKTEST).2 rfl

/-- **The end of a run.** Once the last bucket is closed too, the position has exactly its one trade. -/
theorem Held.finalize (cfg : PositionSimConfig) {lastClose : ℚ} (tsTo : ℤ) (h : Held k pos later c.sec s)
    (hact : s.active.get? k = some c) (hpx : s.lastPrice k = some lastClose)
    (hagg : pos.entryBucketSec < c.sec → Aggregates c (later.filter fun ev => barBucket ev = c.sec))
    (hle : ∀ ev ∈ later, barBucket ev ≤ c.sec) :
    Settled pos later tsTo lastClose (tradesOf k (PositionSim.finalize cfg tsTo (fun _ => none) s)) := by
  unfold PositionSim.finalize
  dsimp only
  -- the open candles are closed, this symbol's once
  obtain ⟨m, hm, hflush⟩ := foldl_once (f := fun s symbol => finalizeActive cfg symbol s)
    (fun s symbol hk => finalizeActive_other hk s) s.active.nodup_keys (Dict.mem_keys.mpr ⟨c, hact⟩) s
  have hactm : m.active.get? k = some c := hm.active.trans hact
  have hheld : Held k pos later (c.sec + 1) (finalizeActive cfg k m) :=
    (h.paid hm.paid).check (finalizeActive_check cfg hactm) hagg hle (by omega)
  generalize s.active.keys.foldl (fun s symbol => finalizeActive cfg symbol s) s = s₁ at hflush ⊢
  replace hheld : Held k pos later (c.sec + 1) s₁ := hheld.paid hflush.paid
  have hpx₁ : s₁.lastPrice k = some lastClose := by
    have hfeed : (finalizeActive cfg k m).lastPrice = m.lastPrice := by
      rw [finalizeActive_of_some hactm]
      exact (checkExitsOnCandle_feed ..).lastPrice
    rw [hflush.lastPrice, hfeed, hm.lastPrice, hpx]
  -- then the positions that are left
  have hother : ∀ s symbol, k ≠ symbol → SameSymbol k s (finalizePosition cfg tsTo (fun _ => none) s symbol) :=
    fun s symbol hk => finalizePosition_other hk tsTo (fun _ => none) s
  cases hget : s₁.positions.get? k with
  | none =>
    have hskip := foldl_other hother s₁.positions.keys (Dict.get?_eq_none.mp hget) s₁
    cases hheld with
    | opened f hpos huntouched hnone =>
      rw [hget] at hpos
      cases hpos
    | closed b t hb hbtop hts hexit hfirst honce ht hq =>
      refine ⟨t, by rw [hskip.trades]; exact honce, ht, ?_⟩
      rw [hts]
      exact .touched hb hexit hfirst
  | some p =>
    obtain ⟨m₁, hm₁, hclose⟩ := foldl_once hother s₁.positions.nodup_keys (Dict.mem_keys.mpr ⟨p, hget⟩) s₁
    have htrades := finalizePosition_own cfg (hm₁.positions.trans hget) (hm₁.lastPrice.trans hpx₁) tsTo
    rw [hm₁.trades] at htrades
    cases hheld with
    | opened f hpos huntouched hnone =>
      rw [hget] at hpos
      cases hpos
      refine ⟨_, ?_, tradeOf_closes cfg f m₁ k tsTo lastClose .END_OF_BACKTEST, .expired fun b hb => ?_⟩
      · rw [hclose.trades, htrades]
        exact filter_append_trade hnone rfl
      · rcases lt_or_ge b (c.sec + 1) with hlt | hge
        · exact huntouched b hb hlt
        · exact bucketExit_of_no_bar fun ev hev => by
            have := hle ev hev
            omega
    | closed b t hb hbtop hts hexit hfirst honce ht hq =>
      refine ⟨t, ?_, ht, ?_⟩
      · rw [hclose.trades, htrades, filter_append_other (hq p hget)]
        exact honce
      · rw [hts]
        exact .touched hb hexit hfirst

/-! ## What was there before -/

/-- A position was entered in the symbol's open bucket or before it, a trade before it. -/
structure Timely (k : String) (s : PositionSimulator) : Prop where
  positions : ∀ q, s.positions.get? k = some q → bucketSec (q.entryTsMs / 1000) = q.entryBucketSec ∧
    ∃ c, s.active.get? k = some c ∧ q.entryBucketSec ≤ c.sec
  trades : ∀ t ∈ tradesOf k s, ∃ c, s.active.get? k = some c ∧ bucketSec (t.entryTsMs / 1000) < c.sec

theorem Timely.init (k : String) (cfg : PositionSimConfig) (windowId foldId : ℤ) :
    Timely k (PositionSim.init cfg windowId foldId) := by
  refine ⟨fun q hq => ?_, fun t ht => ?_⟩
  · cases hq
  · cases ht

theorem Timely.same (h : Timely k s) (hs : SameSymbol k s s') : Timely k s' := by
  refine ⟨fun q hq => ?_, fun t ht => ?_⟩
  · rw [hs.positions] at hq
    rw [hs.active]
    exact h.positions q hq
  · rw [hs.trades] at ht
    rw [hs.active]
    exact h.trades t ht

theorem Timely.check {c' : Candle5s} (h : Timely k s) (hact : s.active.get? k = some c)
    (hcheck : CandleCheck cfg k c s s') (hact' : s'.active.get? k = some c') (hlt : c.sec < c'.sec) : Timely k s' := by
  have hpos : ∀ q, s.positions.get? k = some q →
      bucketSec (q.entryTsMs / 1000) = q.entryBucketSec ∧ q.entryBucketSec ≤ c.sec := by
    intro q hq
    obtain ⟨hsec, a, ha, hle⟩ := h.positions q hq
    rw [hact] at ha
    cases ha
    exact ⟨hsec, hle⟩
  have hold : ∀ t ∈ tradesOf k s, ∃ a, s'.active.get? k = some a ∧ bucketSec (t.entryTsMs / 1000) < a.sec := by
    intro t ht
    obtain ⟨a, ha, hta⟩ := h.trades t ht
    rw [hact] at ha
    cases ha
    exact ⟨c', hact', hta.trans hlt⟩
  cases hcheck with
  | free hfree h' htrades =>
    refine ⟨fun q hq => ?_, tradesOf_congr (k := k) htrades ▸ hold⟩
    rw [h'] at hq
    cases hq
  | stay p g hp hstay h' htrades =>
    refine ⟨fun q hq => ?_, tradesOf_congr (k := k) htrades ▸ hold⟩
    rw [h'] at hq
    cases hq
    obtain ⟨hsec, hle⟩ := hpos p hp
    exact ⟨hsec, c', hact', hle.trans hlt.le⟩
  | exit p px reason hp hexit h' htrades =>
    refine ⟨fun q hq => ?_, fun t ht => ?_⟩
    · rw [h'] at hq
      cases hq
    · rw [tradesOf_append (k := k) htrades rfl, List.mem_append, List.mem_singleton] at ht
      rcases ht with ht | rfl
      · exact hold t ht
      · obtain ⟨hsec, hle⟩ := hpos p hp
        refine ⟨c', hact', ?_⟩
        show bucketSec (p.entryTsMs / 1000) < c'.sec
        rw [hsec]
        exact lt_of_le_of_lt hle hlt

theorem Timely.paid (h : Timely k s) (hp : Paid k s s')
    (hact : ∀ c, s.active.get? k = some c → ∃ c', s'.active.get? k = some c' ∧ c.sec ≤ c'.sec) : Timely k s' := by
  refine ⟨fun q hq => ?_, fun t ht => ?_⟩
  · cases hget : s.positions.get? k with
    | none =>
      rw [hp.free hget] at hq
      cases hq
    | some p =>
      obtain ⟨g, hg⟩ := hp.held p hget
      rw [hg] at hq
      cases hq
      obtain ⟨hsec, c, hc, hle⟩ := h.positions p hget
      obtain ⟨c', hc', hcc⟩ := hact c hc
      exact ⟨hsec, c', hc', hle.trans hcc⟩
  · rw [hp.trades] at ht
    obtain ⟨c, hc, hlt⟩ := h.trades t ht
    obtain ⟨c', hc', hcc⟩ := hact c hc
    exact ⟨c', hc', lt_of_lt_of_le hlt hcc⟩

theorem Timely.entry {signal : EntrySignal} (h : Timely k s) (hact : s.active.get? k = some c)
    (hsignal : bucketSec (signal.tsMs / 1000) ≤ c.sec) : Timely k (onEntry cfg signal k s).2 := by
  rcases onEntry_own cfg signal k s with hsame | ⟨q, -, hq, hqts, hqsec, htrades⟩
  · exact h.same hsame
  · have hact' : (onEntry cfg signal k s).2.active.get? k = some c := by
      rw [(onEntry_feed cfg signal k s).active, hact]
    refine ⟨fun p hp => ?_, fun t ht => ?_⟩
    · rw [hq] at hp
      cases hp
      rw [hqts, hqsec]
      exact ⟨rfl, c, hact', hsignal⟩
    · rw [htrades] at ht
      obtain ⟨a, ha, hlt⟩ := h.trades t ht
      rw [hact] at ha
      cases ha
      exact ⟨c, hact', hlt⟩

end MikoV2.Backtest.PositionSim
