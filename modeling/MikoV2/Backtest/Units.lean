import Mathlib.Algebra.Order.Field.Basic
import Mathlib.Tactic.Ring
import MikoV2.Backtest.MultiSymbolRunner

/-!
# Units of price: bars, detectors and strategies

A symbol may be quoted in another unit (a contract of 1000 coins for one of a coin). `scale k` multiplies every price
of a bar, a candle, a signal, a detector or a strategy by `k`; volumes and times stay.

* `maxOf_scale`, `minOf_scale`, `lookbackWindow_map` : the windows of a detector;
* `detectOnLast_scale` : a finished candle gives the same signals, at scaled prices;
* `feedOhlcv1s_scale`, `flush_scale` : a bar, the flush;
* `Strategy.onOhlcv_scale`, `Strategy.finalize_scale` : the strategy enters at the same bars.
-/

namespace MikoV2.Backtest
open PaperMath (Direction)

def OHLCVEvent.scale (k : ℚ) (ev : OHLCVEvent) : OHLCVEvent :=
  { ev with «open» := k * ev.open, high := k * ev.high, low := k * ev.low, close := k * ev.close }

def Candle5s.scale (k : ℚ) (c : Candle5s) : Candle5s :=
  { c with «open» := k * c.open, high := k * c.high, low := k * c.low, close := k * c.close }

def Signal.scale (k : ℚ) (s : Signal) : Signal := { s with price := k * s.price, size := k * s.size }

def SignalDetector.scale (k : ℚ) (d : SignalDetector) : SignalDetector :=
  { d with active := d.active.map (Candle5s.scale k), candles := d.candles.map (Candle5s.scale k) }

def EntrySignal.scale (k : ℚ) (e : EntrySignal) : EntrySignal := { e with price := k * e.price }

def Strategy.scale (k : ℚ) (st : Strategy) : Strategy :=
  { st with
    detector := st.detector.scale k
    recent := st.recent.map fun e => (e.1, e.2.scale k)
    entries := st.entries.map (EntrySignal.scale k) }

theorem dequeAppend_map {α β : Type} (f : α → β) (maxlen : ℕ) (dq : List α) (x : α) :
    dequeAppend maxlen (dq.map f) (f x) = (dequeAppend maxlen dq x).map f := by
  unfold dequeAppend
  rw [List.length_map, List.map_drop, List.map_append, List.map_cons, List.map_nil]

/-! ## Windows -/

section Windows
variable {k : ℚ} {price : Candle5s → ℚ}

theorem maxOf_scale (hk : 0 ≤ k) (hprice : ∀ c : Candle5s, price (c.scale k) = k * price c) (c : Candle5s)
    (window : List Candle5s) :
    maxOf price (c.scale k) (window.map (Candle5s.scale k)) = k * maxOf price c window := by
  unfold maxOf
  rw [List.foldl_map, hprice]
  refine List.foldl_hom (k * ·) fun m x => ?_
  rw [hprice, mul_max_of_nonneg _ _ hk]

theorem minOf_scale (hk : 0 ≤ k) (hprice : ∀ c : Candle5s, price (c.scale k) = k * price c) (c : Candle5s)
    (window : List Candle5s) :
    minOf price (c.scale k) (window.map (Candle5s.scale k)) = k * minOf price c window := by
  unfold minOf
  rw [List.foldl_map, hprice]
  refine List.foldl_hom (k * ·) fun m x => ?_
  rw [hprice, mul_min_of_nonneg _ _ hk]

theorem lookbackWindow_map (f : Candle5s → Candle5s) (lookback : ℕ) (candles : List Candle5s) :
    lookbackWindow lookback (candles.map f) = (lookbackWindow lookback candles).map f := by
  unfold lookbackWindow
  rw [List.length_map]
  split
  · rfl
  · rw [List.map_dropLast, List.map_drop]

end Windows

/-! ## Detectors -/

section Detectors
variable (cfg : DetectorConfig) {k : ℚ}

/-- A signal that is given under a condition. -/
theorem map_ite_singleton {α β : Type} (f : α → β) (p : Prop) [Decidable p] (a : α) :
    (if p then [a] else []).map f = if p then [f a] else [] := by
  split <;> rfl

theorem detectSweep_scale (hk : 0 < k) (candles : List Candle5s) (c : Candle5s) :
    detectSweep cfg (candles.map (Candle5s.scale k)) (c.scale k) = (detectSweep cfg candles c).map (Signal.scale k) := by
  unfold detectSweep
  rw [lookbackWindow_map]
  cases lookbackWindow cfg.sweepLookback candles with
  | nil => rfl
  | cons w window =>
    have hrng : (c.scale k).high - (c.scale k).low = k * (c.high - c.low) := (mul_sub k c.high c.low).symm
    have hup : (c.scale k).high - max (c.scale k).open (c.scale k).close = k * (c.high - max c.open c.close) := by
      show k * c.high - max (k * c.open) (k * c.close) = _
      rw [← mul_max_of_nonneg _ _ hk.le, mul_sub]
    have hdown : min (c.scale k).open (c.scale k).close - (c.scale k).low = k * (min c.open c.close - c.low) := by
      show min (k * c.open) (k * c.close) - k * c.low = _
      rw [← mul_min_of_nonneg _ _ hk.le, mul_sub]
    simp only [List.map_cons]
    rw [maxOf_scale hk.le (fun _ => rfl), minOf_scale hk.le (fun _ => rfl), hrng, hup, hdown,
      mul_div_mul_left _ _ hk.ne', mul_div_mul_left _ _ hk.ne']
    by_cases hflat : c.high - c.low ≤ 0
    · rw [if_pos hflat, if_pos (mul_nonpos_of_nonneg_of_nonpos hk.le hflat)]
      rfl
    · rw [if_neg hflat, if_neg (not_le.mpr (mul_pos hk (not_le.mp hflat))), List.map_append, map_ite_singleton,
        map_ite_singleton]
      simp only [Candle5s.scale, Signal.scale, mul_lt_mul_iff_right₀ hk, mul_sub]

theorem detectMss_scale (hk : 0 < k) (candles : List Candle5s) (c : Candle5s) :
    detectMss cfg (candles.map (Candle5s.scale k)) (c.scale k) = (detectMss cfg candles c).map (Signal.scale k) := by
  unfold detectMss
  rw [lookbackWindow_map, ← List.map_dropLast, List.getLast?_map]
  cases lookbackWindow cfg.mssLookback candles with
  | nil => rfl
  | cons w window =>
    cases candles.dropLast.getLast? with
    | none => rfl
    | some prev =>
      have hmid : (maxOf Candle5s.high (w.scale k) (window.map (Candle5s.scale k)) +
          minOf Candle5s.low (w.scale k) (window.map (Candle5s.scale k))) / 2 =
            k * ((maxOf Candle5s.high w window + minOf Candle5s.low w window) / 2) := by
        rw [maxOf_scale hk.le (fun _ => rfl), minOf_scale hk.le (fun _ => rfl), ← mul_add, mul_div_assoc]
      simp only [List.map_cons, Option.map_some]
      rw [hmid, List.map_append, map_ite_singleton, map_ite_singleton]
      simp only [Candle5s.scale, Signal.scale, mul_lt_mul_iff_right₀ hk, mul_le_mul_iff_right₀ hk, mul_sub]

theorem detectFvg_scale (hk : 0 < k) (candles : List Candle5s) :
    detectFvg cfg (candles.map (Candle5s.scale k)) = (detectFvg cfg candles).map (List.map (Signal.scale k)) := by
  unfold detectFvg
  rw [← List.map_reverse]
  rcases candles.reverse with - | ⟨c3, - | ⟨c2, - | ⟨c1, rest⟩⟩⟩
  · rfl
  · rfl
  · rfl
  · have hgap : ∀ a b : ℚ, (k * a - k * b) / (k * c2.close) = (a - b) / c2.close := fun a b => by
      rw [← mul_sub, mul_div_mul_left _ _ hk.ne']
    have hmid : ∀ a b : ℚ, (k * a + k * b) / 2 = k * ((a + b) / 2) := fun a b => by
      rw [← mul_add, mul_div_assoc]
    simp only [List.map_cons, Candle5s.scale, mul_lt_mul_iff_right₀ hk, mul_eq_zero, hk.ne', false_or, hgap, hmid]
    by_cases hzero : (c1.high < c3.low ∨ c3.high < c1.low) ∧ c2.close = 0
    · rw [if_pos hzero, if_pos hzero]
      rfl
    · rw [if_neg hzero, if_neg hzero, Option.map_some, List.map_append, map_ite_singleton, map_ite_singleton]
      simp only [Signal.scale, mul_sub]

theorem detectOte_scale (hk : 0 < k) (candles : List Candle5s) (c : Candle5s) :
    detectOte cfg (candles.map (Candle5s.scale k)) (c.scale k) = (detectOte cfg candles c).map (Signal.scale k) := by
  unfold detectOte
  rw [lookbackWindow_map]
  cases lookbackWindow cfg.oteLookback candles with
  | nil => rfl
  | cons w window =>
    simp only [List.map_cons]
    rw [maxOf_scale hk.le (fun _ => rfl), minOf_scale hk.le (fun _ => rfl)]
    set hi := maxOf Candle5s.high w window with hhi
    set lo := minOf Candle5s.low w window with hlo
    have hspan : k * hi - k * lo = k * (hi - lo) := (mul_sub k hi lo).symm
    have hbelow : ∀ r : ℚ, k * hi - r * (k * (hi - lo)) = k * (hi - r * (hi - lo)) := fun r => by ring
    have habove : ∀ r : ℚ, k * lo + r * (k * (hi - lo)) = k * (lo + r * (hi - lo)) := fun r => by ring
    rw [hspan]
    by_cases hflat : hi - lo ≤ 0
    · rw [if_pos hflat, if_pos (mul_nonpos_of_nonneg_of_nonpos hk.le hflat)]
      rfl
    · rw [if_neg hflat, if_neg (not_le.mpr (mul_pos hk (not_le.mp hflat))), List.map_append, map_ite_singleton,
        map_ite_singleton]
      simp only [Candle5s.scale, Signal.scale, hbelow, habove, mul_le_mul_iff_right₀ hk]

/-- A finished candle gives the same signals, at scaled prices. -/
theorem detectOnLast_scale (hk : 0 < k) (candles : List Candle5s) :
    detectOnLast cfg (candles.map (Candle5s.scale k)) =
      (detectOnLast cfg candles).map (List.map (Signal.scale k)) := by
  unfold detectOnLast
  rw [List.getLast?_map]
  cases candles.getLast? with
  | none => rfl
  | some c =>
    rw [Option.map_some]
    dsimp only
    rw [detectFvg_scale cfg hk, detectSweep_scale cfg hk, detectMss_scale cfg hk, detectOte_scale cfg hk,
      Option.map_map, Option.map_map]
    refine congrArg (fun f => (detectFvg cfg candles).map f) (funext fun fvg => ?_)
    simp only [Function.comp_apply, List.map_append]

/-! ## Feeding -/

theorem finalizeActive_scale (d : SignalDetector) :
    finalizeActive cfg (d.scale k) = (finalizeActive cfg d).scale k := by
  unfold finalizeActive
  cases hactive : d.active with
  | none => simp only [SignalDetector.scale, hactive, Option.map_none]
  | some b => simp only [SignalDetector.scale, hactive, Option.map_some, Option.map_none, dequeAppend_map]

theorem mergeBar_scale (hk : 0 ≤ k) (b : Candle5s) (ev : OHLCVEvent) :
    mergeBar (b.scale k) (ev.scale k) = (mergeBar b ev).scale k := by
  simp only [mergeBar, Candle5s.scale, OHLCVEvent.scale, mul_max_of_nonneg _ _ hk, mul_min_of_nonneg _ _ hk]

theorem feedOhlcv1s_scale (hk : 0 < k) (d : SignalDetector) (ev : OHLCVEvent) :
    feedOhlcv1s cfg (d.scale k) (ev.scale k) =
      ((feedOhlcv1s cfg d ev).1.map (List.map (Signal.scale k)), (feedOhlcv1s cfg d ev).2.scale k) := by
  unfold feedOhlcv1s
  have hsec : (d.scale k).activeSec = d.activeSec := rfl
  have hev : (ev.scale k).sec = ev.sec := rfl
  dsimp only
  rw [hsec, hev]
  cases d.activeSec with
  | none => rfl
  | some activeSec =>
    dsimp only
    split
    · rw [finalizeActive_scale]
      have hcandles : ((finalizeActive cfg d).scale k).candles = (finalizeActive cfg d).candles.map (Candle5s.scale k) :=
        rfl
      rw [hcandles, detectOnLast_scale cfg hk]
      cases detectOnLast cfg (finalizeActive cfg d).candles <;> rfl
    · split
      · rfl
      · have hactive : (d.scale k).active = d.active.map (Candle5s.scale k) := rfl
        rw [hactive]
        cases d.active with
        | none => rfl
        | some b =>
          dsimp only [Option.map_some]
          rw [mergeBar_scale hk.le]
          rfl

theorem flush_scale (hk : 0 < k) (d : SignalDetector) :
    flush cfg (d.scale k) = ((flush cfg d).1.map (List.map (Signal.scale k)), (flush cfg d).2.scale k) := by
  unfold flush
  have hactive : (d.scale k).active = d.active.map (Candle5s.scale k) := rfl
  rw [hactive]
  cases d.active with
  | none => rfl
  | some b =>
    dsimp only [Option.map_some]
    rw [finalizeActive_scale]
    exact congrArg (·, _) (detectOnLast_scale cfg hk (finalizeActive cfg d).candles)

end Detectors

/-! ## Strategies -/

section Strategies
variable (cfg : StrategyConfig) (dcfg : DetectorConfig) {k : ℚ} (st : Strategy)

theorem foldl_record_scale (stamp : Signal → ℤ) (hstamp : ∀ s : Signal, stamp (s.scale k) = stamp s) (signals : List Signal) :
    ∀ st : Strategy, (signals.map (Signal.scale k)).foldl (fun st s => st.record (stamp s) s) (st.scale k) =
      (signals.foldl (fun st s => st.record (stamp s) s) st).scale k := by
  induction signals with
  | nil => exact fun st => rfl
  | cons s signals ih =>
    intro st
    have hone : (st.scale k).record (stamp (s.scale k)) (s.scale k) = (st.record (stamp s) s).scale k := by
      rw [hstamp]
      simp only [Strategy.record, Strategy.scale, Strategy.mk.injEq, true_and, and_true]
      exact ⟨dequeAppend_map (fun e : ℤ × Signal => (e.1, e.2.scale k)) recentMaxlen st.recent (stamp s, s), rfl⟩
    rw [List.map_cons, List.foldl_cons, List.foldl_cons, hone]
    exact ih _

theorem hasKind_scale (recent : List (ℤ × Signal)) (kind : SignalKind) :
    hasKind (recent.map fun e => (e.1, e.2.scale k)) kind = hasKind recent kind := by
  unfold hasKind
  rw [List.any_map]
  rfl

theorem longOk_scale (recent : List (ℤ × Signal)) :
    longOk cfg (recent.map fun e => (e.1, e.2.scale k)) = longOk cfg recent := by
  simp only [longOk, hasKind_scale]

theorem shortOk_scale (recent : List (ℤ × Signal)) :
    shortOk cfg (recent.map fun e => (e.1, e.2.scale k)) = shortOk cfg recent := by
  simp only [shortOk, hasKind_scale]

theorem trySide_scale (direction : Direction) (ok : Bool) (tsMs : ℤ) (price : ℚ) (contributing : List SignalKind) :
    trySide cfg direction ok tsMs (k * price) contributing (st.scale k) =
      ((trySide cfg direction ok tsMs price contributing st).1.map (EntrySignal.scale k),
        (trySide cfg direction ok tsMs price contributing st).2.1,
        (trySide cfg direction ok tsMs price contributing st).2.2.scale k) := by
  unfold trySide
  have hlast : (st.scale k).lastEntryMs = st.lastEntryMs := rfl
  rw [hlast]
  split
  · split <;> rfl
  · rfl

theorem tryEntry_scale (tsMs : ℤ) (price : ℚ) :
    tryEntry cfg tsMs (k * price) (st.scale k) =
      ((tryEntry cfg tsMs price st).1.map (EntrySignal.scale k), (tryEntry cfg tsMs price st).2.scale k) := by
  unfold tryEntry
  have hcleared : ({ st.scale k with lastRejectionReason := none } : Strategy) =
      Strategy.scale k { st with lastRejectionReason := none } := rfl
  have htrust : (st.scale k).lastTrust = st.lastTrust := rfl
  have hrecent : ((st.scale k).recent.filter fun e => e.1 ≥ tsMs - cfg.entryWindowMs) =
      (st.recent.filter fun e => e.1 ≥ tsMs - cfg.entryWindowMs).map fun e => (e.1, e.2.scale k) := by
    show (st.recent.map _).filter _ = _
    rw [List.filter_map]
    rfl
  have hkinds : ∀ l : List (ℤ × Signal), ((l.map fun e => (e.1, e.2.scale k)).map fun e => e.2.kind) =
      l.map fun e => e.2.kind := fun l => by
    rw [List.map_map]
    rfl
  simp only [hcleared]
  simp only [htrust, hrecent, hkinds, List.map_eq_nil_iff, longOk_scale, shortOk_scale]
  by_cases hlow : st.lastTrust < cfg.minWhaleTrust
  · simp only [if_pos hlow, List.map_nil]
  · simp only [if_neg hlow]
    by_cases hnone : (st.recent.filter fun e => e.1 ≥ tsMs - cfg.entryWindowMs) = []
    · simp only [if_pos hnone, List.map_nil]
    · simp only [if_neg hnone, trySide_scale, ← List.map_append, List.map_eq_nil_iff]
      rw [apply_ite (Strategy.scale k)]
      rfl

/-- A strategy on scaled bars enters at the same bars. -/
theorem Strategy.onOhlcv_scale (hk : 0 < k) (ev : OHLCVEvent) :
    (st.scale k).onOhlcv cfg dcfg (ev.scale k) =
      (st.onOhlcv cfg dcfg ev).map fun r => (r.1.map (EntrySignal.scale k), r.2.scale k) := by
  unfold Strategy.onOhlcv
  have hdetector : (st.scale k).detector = st.detector.scale k := rfl
  rw [hdetector, feedOhlcv1s_scale dcfg hk]
  rcases feedOhlcv1s dcfg st.detector ev with ⟨- | signals, detector⟩
  · rfl
  · dsimp only [Option.map_some]
    have hrecord := foldl_record_scale (k := k) (fun _ => ev.tsMs) (fun _ => rfl) signals { st with detector }
    have hstart : ({ st.scale k with detector := detector.scale k } : Strategy) = Strategy.scale k { st with detector } := rfl
    have htry := tryEntry_scale (k := k) cfg (signals.foldl (fun st s => st.record ev.tsMs s) { st with detector }) ev.tsMs
      ev.close
    rw [hstart]
    have hsame : (signals.map (Signal.scale k)).foldl (fun st s => st.record (ev.scale k).tsMs s)
        (Strategy.scale k { st with detector }) = _ := hrecord
    rw [hsame]
    have hbar : tryEntry cfg (ev.scale k).tsMs (ev.scale k).close
        (Strategy.scale k (signals.foldl (fun st s => st.record ev.tsMs s) { st with detector })) = _ := htry
    rw [hbar]
    dsimp only
    refine congrArg some (congrArg (Prod.mk _) ?_)
    simp only [Strategy.scale, List.map_append]

theorem Strategy.finalize_scale (hk : 0 < k) :
    (st.scale k).finalize dcfg = ((st.finalize dcfg).1, (st.finalize dcfg).2.scale k) := by
  unfold Strategy.finalize
  have hdetector : (st.scale k).detector = st.detector.scale k := rfl
  rw [hdetector, flush_scale dcfg hk]
  rcases flush dcfg st.detector with ⟨- | signals, detector⟩
  · rfl
  · dsimp only [Option.map_some]
    refine congrArg (Prod.mk true) ?_
    exact foldl_record_scale Signal.tsMs (fun _ => rfl) signals { st with detector }

end Strategies

end MikoV2.Backtest
