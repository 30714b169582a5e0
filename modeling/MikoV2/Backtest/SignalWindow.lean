import MikoV2.Backtest.Analysed
import MikoV2.Backtest.Candles
import MikoV2.Lib.Bursts

/-!
# The deque of signals is long enough

`Strategy` keeps its last 200 signals. The reference keeps all of them.

* `recordAll`, `onOhlcvAll` : the reference; `bounded` : what the strategy has of its state;
* `detectOnLast_length` : a candle gives 8 signals at most; `feed_cases` : they come with the roll-over;
* `Heard`, `Heard.bar` : the signals of a run are spaced bursts;
* `Heard.filter_lastN` : the window of an attempt is in the deque; `bar_bounded`, `run_bounded` : so the strategy does
  what the reference does.
-/

namespace MikoV2.Backtest
open PaperMath (Direction)
open PositionSim (lastN dequeAppend_lastN)
open Bursts (Burst flat Spaced)

variable {cfg : StrategyConfig} {dcfg : DetectorConfig} {st all : Strategy} {d d' : SignalDetector} {ev : OHLCVEvent}
  {evs pre : List OHLCVEvent}

/-! ## The reference -/

/-- `record`, on a list without a greatest length. -/
def Strategy.recordAll (st : Strategy) (tsMs : ℤ) (s : Signal) : Strategy :=
  { st with
    recent := st.recent ++ [(tsMs, s)]
    signalCounts := Function.update st.signalCounts s.kind (st.signalCounts s.kind + 1) }

/-- The signals of a feed are kept. -/
def Strategy.hearAll (st : Strategy) (detector : SignalDetector) (tsMs : ℤ) (signals : List Signal) : Strategy :=
  signals.foldl (fun st s => st.recordAll tsMs s) { st with detector }

/-- `onOhlcv`, with all signals ever emitted. -/
def Strategy.onOhlcvAll (cfg : StrategyConfig) (dcfg : DetectorConfig) (st : Strategy) (ev : OHLCVEvent) :
    Option (List EntrySignal × Strategy) :=
  match feedOhlcv1s dcfg st.detector ev with
  | (none, _) => none
  | (some signals, detector) =>
    let (new, st) := tryEntry cfg ev.tsMs ev.close (st.hearAll detector ev.tsMs signals)
    some (new, { st with entries := st.entries ++ new })

/-- The state after a bar, of the strategy and of the reference. -/
def Strategy.bar (cfg : StrategyConfig) (dcfg : DetectorConfig) (st : Strategy) (ev : OHLCVEvent) : Option Strategy :=
  (st.onOhlcv cfg dcfg ev).map Prod.snd

def Strategy.barAll (cfg : StrategyConfig) (dcfg : DetectorConfig) (st : Strategy) (ev : OHLCVEvent) :
    Option Strategy :=
  (st.onOhlcvAll cfg dcfg ev).map Prod.snd

/-- What the deque has kept. -/
def Strategy.bounded (st : Strategy) : Strategy := { st with recent := lastN recentMaxlen st.recent }

theorem bounded_recordAll (st : Strategy) (tsMs : ℤ) (s : Signal) :
    (st.recordAll tsMs s).bounded = st.bounded.record tsMs s := by
  unfold Strategy.bounded Strategy.recordAll Strategy.record
  simp only [dequeAppend_lastN]

theorem bounded_foldl (tsMs : ℤ) (signals : List Signal) : ∀ st : Strategy,
    (signals.foldl (fun st s => st.recordAll tsMs s) st).bounded =
      signals.foldl (fun st s => st.record tsMs s) st.bounded := by
  induction signals with
  | nil => exact fun st => rfl
  | cons s signals ih =>
    intro st
    rw [List.foldl_cons, List.foldl_cons, ih, bounded_recordAll]

/-- One side of an attempt does not look at the signals. -/
theorem trySide_bounded (direction : Direction) (ok : Bool) (tsMs : ℤ) (price : ℚ) (contributing : List SignalKind)
    (st : Strategy) : trySide cfg direction ok tsMs price contributing st.bounded =
      ((trySide cfg direction ok tsMs price contributing st).1,
        (trySide cfg direction ok tsMs price contributing st).2.1,
          (trySide cfg direction ok tsMs price contributing st).2.2.bounded) := by
  unfold trySide Strategy.bounded
  dsimp only
  split
  · split
    · rfl
    · rfl
  · rfl

/-- An attempt looks at the signals of its window only. -/
theorem tryEntry_bounded {tsMs : ℤ} (price : ℚ) (st : Strategy)
    (h : (lastN recentMaxlen st.recent).filter (fun e => e.1 ≥ tsMs - cfg.entryWindowMs) =
      st.recent.filter fun e => e.1 ≥ tsMs - cfg.entryWindowMs) :
    tryEntry cfg tsMs price st.bounded = ((tryEntry cfg tsMs price st).1, (tryEntry cfg tsMs price st).2.bounded) := by
  have hclear : { st.bounded with lastRejectionReason := none } =
    Strategy.bounded { st with lastRejectionReason := none } := by rw [Strategy.bounded, Strategy.bounded]
  have hrecent : (Strategy.bounded { st with lastRejectionReason := none }).recent =
    lastN recentMaxlen st.recent := by rw [Strategy.bounded]
  have htrust : (Strategy.bounded { st with lastRejectionReason := none }).lastTrust = st.lastTrust := by
    rw [Strategy.bounded]
  unfold tryEntry
  rw [hclear]
  dsimp only
  rw [hrecent, htrust, h]
  split
  · rfl
  · split
    · rfl
    · rw [trySide_bounded]
      dsimp only
      rw [trySide_bounded]
      dsimp only
      split
      · simp only [Strategy.bounded]
      · rfl

theorem trySide_recent (direction : Direction) (ok : Bool) (tsMs : ℤ) (price : ℚ) (contributing : List SignalKind)
    (st : Strategy) : (trySide cfg direction ok tsMs price contributing st).2.2.recent = st.recent := by
  unfold trySide
  split
  · split
    · rfl
    · rfl
  · rfl

theorem tryEntry_recent (tsMs : ℤ) (price : ℚ) (st : Strategy) : (tryEntry cfg tsMs price st).2.recent = st.recent := by
  unfold tryEntry
  dsimp only
  split
  · rfl
  · split
    · rfl
    · dsimp only
      split
      · exact (trySide_recent ..).trans (trySide_recent ..)
      · exact (trySide_recent ..).trans (trySide_recent ..)

/-- A bar of the reference: it hears the signals of its feed, and makes an attempt. -/
theorem onOhlcvAll_eq {signals : List Signal} {detector : SignalDetector}
    (h : feedOhlcv1s dcfg all.detector ev = (some signals, detector)) :
    all.onOhlcvAll cfg dcfg ev = some ((tryEntry cfg ev.tsMs ev.close (all.hearAll detector ev.tsMs signals)).1,
      { (tryEntry cfg ev.tsMs ev.close (all.hearAll detector ev.tsMs signals)).2 with
        entries := (tryEntry cfg ev.tsMs ev.close (all.hearAll detector ev.tsMs signals)).2.entries ++
          (tryEntry cfg ev.tsMs ev.close (all.hearAll detector ev.tsMs signals)).1 }) := by
  unfold Strategy.onOhlcvAll
  rw [h]

/-- A bar, where the window is in the deque. -/
theorem onOhlcv_bounded (hwindow : ∀ new all', all.onOhlcvAll cfg dcfg ev = some (new, all') →
      (lastN recentMaxlen all'.recent).filter (fun e => e.1 ≥ ev.tsMs - cfg.entryWindowMs) =
        all'.recent.filter fun e => e.1 ≥ ev.tsMs - cfg.entryWindowMs) :
    all.bounded.onOhlcv cfg dcfg ev = (all.onOhlcvAll cfg dcfg ev).map fun r => (r.1, r.2.bounded) := by
  have hdetector : all.bounded.detector = all.detector := by rw [Strategy.bounded]
  rcases hfeed : feedOhlcv1s dcfg all.detector ev with ⟨signals, detector⟩
  cases signals with
  | none =>
    unfold Strategy.onOhlcv Strategy.onOhlcvAll
    rw [hdetector, hfeed]
    rfl
  | some signals =>
    have hall := hwindow _ _ (onOhlcvAll_eq hfeed)
    rw [tryEntry_recent] at hall
    rw [onOhlcvAll_eq hfeed]
    unfold Strategy.onOhlcv
    rw [hdetector, hfeed]
    have hfold := bounded_foldl ev.tsMs signals { all with detector }
    have hstart : Strategy.bounded { all with detector } = { all.bounded with detector } := by
      rw [Strategy.bounded, Strategy.bounded]
    rw [hstart] at hfold
    dsimp only
    rw [← hfold, ← Strategy.hearAll, tryEntry_bounded ev.close _ hall]
    simp only [Option.map_some, Strategy.bounded]

/-! ## The signals of a bar -/

/-- A detector gives two signals at most. -/
theorem length_two {p q : Prop} [Decidable p] [Decidable q] (s t : Signal) :
    ((if p then [s] else []) ++ (if q then [t] else [])).length ≤ 2 := by
  split <;> split <;> simp

theorem detectSweep_length (dcfg : DetectorConfig) (candles : List Candle5s) (c : Candle5s) :
    (detectSweep dcfg candles c).length ≤ 2 := by
  unfold detectSweep
  split
  · simp
  · dsimp only
    split
    · simp
    · exact length_two _ _

theorem detectMss_length (dcfg : DetectorConfig) (candles : List Candle5s) (c : Candle5s) :
    (detectMss dcfg candles c).length ≤ 2 := by
  unfold detectMss
  split
  · exact length_two _ _
  · simp

theorem detectFvg_length {candles : List Candle5s} {out : List Signal} (h : detectFvg dcfg candles = some out) :
    out.length ≤ 2 := by
  unfold detectFvg at h
  split at h
  · split at h
    · cases h
    · cases h
      exact length_two _ _
  · cases h
    simp

theorem detectOte_length (dcfg : DetectorConfig) (candles : List Candle5s) (c : Candle5s) :
    (detectOte dcfg candles c).length ≤ 2 := by
  unfold detectOte
  split
  · simp
  · dsimp only
    split
    · simp
    · exact length_two _ _

theorem detectOnLast_length {candles : List Candle5s} {out : List Signal} (h : detectOnLast dcfg candles = some out) :
    out.length ≤ 8 := by
  unfold detectOnLast at h
  split at h
  · cases h
    simp
  · rename_i c _
    obtain ⟨fvg, hfvg, rfl⟩ := Option.map_eq_some_iff.mp h
    have hsweep := detectSweep_length dcfg candles c
    have hmss := detectMss_length dcfg candles c
    have hote := detectOte_length dcfg candles c
    have hgap := detectFvg_length hfvg
    simp only [List.length_append]
    omega

/-- The signals of a bar come with a roll-over to its bucket. -/
theorem feed_cases {out : List Signal} (h : feedOhlcv1s dcfg d ev = (some out, d')) :
    (out = [] ∧ ∀ a, d.activeSec = some a → d'.activeSec = some a) ∨
      (RollsOver dcfg d ev ∧ out.length ≤ 8 ∧ d'.activeSec = some (bucketOf dcfg ev)) := by
  unfold feedOhlcv1s at h
  dsimp only at h
  split at h
  · rename_i hnone
    cases h
    exact Or.inl ⟨rfl, fun a ha => by rw [hnone] at ha; cases ha⟩
  · rename_i activeSec hsec
    split at h
    · rename_i hlater
      split at h
      · cases h
      · rename_i out' hout
        cases h
        exact Or.inr ⟨⟨activeSec, hsec, hlater⟩, detectOnLast_length hout, rfl⟩
    · split at h
      · cases h
        exact Or.inl ⟨rfl, fun a ha => ha⟩
      · split at h
        · cases h
          exact Or.inl ⟨rfl, fun a ha => ha⟩
        · cases h
          exact Or.inl ⟨rfl, fun a ha => ha⟩

/-! ## The signals of a run -/

theorem foldl_recordAll_recent (tsMs : ℤ) (signals : List Signal) : ∀ st : Strategy,
    (signals.foldl (fun st s => st.recordAll tsMs s) st).recent = st.recent ++ signals.map fun s => (tsMs, s) := by
  induction signals with
  | nil => exact fun st => (List.append_nil _).symm
  | cons s signals ih =>
    intro st
    rw [List.foldl_cons, ih, Strategy.recordAll, List.map_cons, List.append_assoc, List.singleton_append]

theorem foldl_recordAll_detector (tsMs : ℤ) (signals : List Signal) : ∀ st : Strategy,
    (signals.foldl (fun st s => st.recordAll tsMs s) st).detector = st.detector := by
  induction signals with
  | nil => exact fun st => rfl
  | cons s signals ih => exact fun st => ih _

theorem onOhlcvAll_some {new : List EntrySignal} {all' : Strategy}
    (h : all.onOhlcvAll cfg dcfg ev = some (new, all')) :
    ∃ signals detector, feedOhlcv1s dcfg all.detector ev = (some signals, detector) ∧
      new = (tryEntry cfg ev.tsMs ev.close (all.hearAll detector ev.tsMs signals)).1 ∧
        all' = { (tryEntry cfg ev.tsMs ev.close (all.hearAll detector ev.tsMs signals)).2 with
          entries := (tryEntry cfg ev.tsMs ev.close (all.hearAll detector ev.tsMs signals)).2.entries ++ new } := by
  rcases hfeed : feedOhlcv1s dcfg all.detector ev with ⟨signals, detector⟩
  cases signals with
  | none =>
    unfold Strategy.onOhlcvAll at h
    rw [hfeed] at h
    cases h
  | some signals =>
    rw [onOhlcvAll_eq hfeed] at h
    simp only [Option.some.injEq, Prod.mk.injEq] at h
    obtain ⟨rfl, rfl⟩ := h
    exact ⟨signals, detector, rfl, rfl, rfl⟩

theorem onOhlcvAll_heard {new : List EntrySignal} {all' : Strategy}
    (h : all.onOhlcvAll cfg dcfg ev = some (new, all')) :
    ∃ signals, feedOhlcv1s dcfg all.detector ev = (some signals, all'.detector) ∧
      all'.recent = all.recent ++ signals.map fun s => (ev.tsMs, s) := by
  obtain ⟨signals, detector, hfeed, -, rfl⟩ := onOhlcvAll_some h
  refine ⟨signals, ?_, ?_⟩
  · rw [hfeed]
    show (some signals, detector) = (some signals, (tryEntry cfg ev.tsMs ev.close _).2.detector)
    rw [(tryEntry_same ..).detector, Strategy.hearAll, foldl_recordAll_detector]
  · show (tryEntry cfg ev.tsMs ev.close _).2.recent = _
    rw [tryEntry_recent, Strategy.hearAll, foldl_recordAll_recent]

/-- The length of a bucket, in milliseconds. -/
def slotMs (dcfg : DetectorConfig) : ℤ := 1000 * dcfg.candleSeconds

theorem slotMs_pos (dcfg : DetectorConfig) : 0 < slotMs dcfg := by
  have hpos := dcfg.candleSeconds_pos
  unfold slotMs
  omega

/-- The bars are stamped with their second and come in order. -/
structure Stamped (evs : List OHLCVEvent) : Prop where
  stamp : ∀ ev ∈ evs, ev.tsMs = 1000 * ev.sec
  sorted : evs.Pairwise fun a b => a.tsMs ≤ b.tsMs

theorem Stamped.of_concat (h : Stamped (pre ++ [ev])) : Stamped pre :=
  ⟨fun e he => h.stamp e (List.mem_append_left _ he), (List.pairwise_append.mp h.sorted).1⟩

theorem Stamped.le_last (h : Stamped (pre ++ [ev])) : ∀ e ∈ pre, e.tsMs ≤ ev.tsMs :=
  fun e he => (List.pairwise_append.mp h.sorted).2.2 e he ev List.mem_cons_self

theorem slot_of_stamp (dcfg : DetectorConfig) (h : ev.tsMs = 1000 * ev.sec) :
    ev.tsMs / slotMs dcfg * dcfg.candleSeconds = bucketOf dcfg ev := by
  unfold slotMs bucketOf
  rw [h, Int.mul_ediv_mul_of_pos _ _ (by decide)]

/-- The signals so far came in bursts, one for a roll-over, the last one to the open bucket at most. -/
structure Heard (dcfg : DetectorConfig) (pre : List OHLCVEvent) (all : Strategy) (bs : List (Burst Signal)) : Prop where
  recent : all.recent = flat bs
  spaced : Spaced (slotMs dcfg) 8 bs
  behind : ∀ b ∈ bs, ∃ a, all.detector.activeSec = some a ∧ b.time / slotMs dcfg * dcfg.candleSeconds ≤ a
  stamp : ∀ b ∈ bs, ∃ e ∈ pre, b.time = e.tsMs

theorem Heard.init (dcfg : DetectorConfig) : Heard dcfg [] {} [] := by
  refine ⟨rfl, .nil _ _, fun b hb => ?_, fun b hb => ?_⟩
  · cases hb
  · cases hb

theorem Heard.bar {bs : List (Burst Signal)} {new : List EntrySignal} {all' : Strategy} (h : Heard dcfg pre all bs)
    (hstamped : Stamped (pre ++ [ev])) (hbar : all.onOhlcvAll cfg dcfg ev = some (new, all')) :
    ∃ bs', Heard dcfg (pre ++ [ev]) all' bs' := by
  obtain ⟨signals, hfeed, hrecent⟩ := onOhlcvAll_heard hbar
  have hstamp := hstamped.stamp ev (List.mem_append_right _ List.mem_cons_self)
  have hold : ∀ b ∈ bs, ∃ e ∈ pre ++ [ev], b.time = e.tsMs := by
    intro b hb
    obtain ⟨e, he, htime⟩ := h.stamp b hb
    exact ⟨e, List.mem_append_left _ he, htime⟩
  rcases feed_cases hfeed with ⟨rfl, hactive⟩ | ⟨⟨activeSec, hsec, hlater⟩, hsmall, hactive⟩
  · refine ⟨bs, ?_, h.spaced, fun b hb => ?_, hold⟩
    · rw [hrecent, List.map_nil, List.append_nil, h.recent]
    · obtain ⟨a, ha, hle⟩ := h.behind b hb
      exact ⟨a, hactive a ha, hle⟩
  · have hslot := slot_of_stamp dcfg hstamp
    have hbefore : ∀ b ∈ bs,
        b.time / slotMs dcfg * dcfg.candleSeconds < ev.tsMs / slotMs dcfg * dcfg.candleSeconds := by
      intro b hb
      obtain ⟨a, ha, hle⟩ := h.behind b hb
      rw [hsec] at ha
      cases ha
      omega
    refine ⟨bs ++ [⟨ev.tsMs, signals⟩], ?_, h.spaced.concat (fun b hb => ?_) hsmall, fun b hb => ?_, fun b hb => ?_⟩
    · rw [hrecent, h.recent, Bursts.flat_append, Bursts.flat_singleton]
    · exact Int.lt_of_mul_lt_mul_right (hbefore b hb) (Int.natCast_nonneg _)
    · refine ⟨_, hactive, ?_⟩
      rw [← hslot]
      rcases List.mem_append.mp hb with hb | hb
      · exact (hbefore b hb).le
      · rw [List.mem_singleton.mp hb]
    · rcases List.mem_append.mp hb with hb | hb
      · exact hold b hb
      · rw [List.mem_singleton.mp hb]
        exact ⟨ev, List.mem_append_right _ List.mem_cons_self, rfl⟩

theorem heard_run (cfg : StrategyConfig) (dcfg : DetectorConfig) : ∀ pre all,
    Runs.runM (Strategy.barAll cfg dcfg) {} pre = some all → Stamped pre → ∃ bs, Heard dcfg pre all bs := by
  refine Runs.runM_history (J := fun pre all => Stamped pre → ∃ bs, Heard dcfg pre all bs)
    (fun _ => ⟨[], .init dcfg⟩) ?_
  intro pre ev all all' ih hbar hstamped
  obtain ⟨bs, hbs⟩ := ih hstamped.of_concat
  obtain ⟨⟨new, t⟩, hall, rfl⟩ := Option.map_eq_some_iff.mp hbar
  exact hbs.bar hstamped hall

/-! ## The window is in the deque -/

/-- The window of an attempt has room in the deque. -/
def Fits (cfg : StrategyConfig) (dcfg : DetectorConfig) : Prop :=
  8 * (cfg.entryWindowMs / (1000 * dcfg.candleSeconds) + 2) ≤ 200

instance (cfg : StrategyConfig) (dcfg : DetectorConfig) : Decidable (Fits cfg dcfg) :=
  inferInstanceAs (Decidable (_ ≤ _))

theorem Heard.filter_lastN {bs : List (Burst Signal)} (h : Heard dcfg (pre ++ [ev]) all bs) (hfits : Fits cfg dcfg)
    (hstamped : Stamped (pre ++ [ev])) :
    (lastN recentMaxlen all.recent).filter (fun e => e.1 ≥ ev.tsMs - cfg.entryWindowMs) =
      all.recent.filter fun e => e.1 ≥ ev.tsMs - cfg.entryWindowMs := by
  have hlast : ∀ b ∈ bs, b.time ≤ ev.tsMs := by
    intro b hb
    obtain ⟨e, he, htime⟩ := h.stamp b hb
    rw [htime]
    rcases List.mem_append.mp he with he | he
    · exact hstamped.le_last e he
    · rw [List.mem_singleton.mp he]
  have hroom : ((8 : ℕ) : ℤ) * ((ev.tsMs - (ev.tsMs - cfg.entryWindowMs)) / slotMs dcfg + 2) ≤ (recentMaxlen : ℕ) := by
    rw [sub_sub_cancel]
    exact hfits
  rw [h.recent]
  refine Bursts.filter_drop_eq ?_ (h.spaced.window_length (slotMs_pos dcfg) hlast hroom)
  refine (h.spaced.sorted (slotMs_pos dcfg)).imp fun {a b} hab ha => ?_
  have hle := of_decide_eq_true ha
  exact decide_eq_true (by omega)

/-- A bar of the strategy, after those of the run. -/
theorem bar_bounded (hfits : Fits cfg dcfg) (hstamped : Stamped (pre ++ [ev]))
    (hall : Runs.runM (Strategy.barAll cfg dcfg) {} pre = some all) :
    all.bounded.onOhlcv cfg dcfg ev = (all.onOhlcvAll cfg dcfg ev).map fun r => (r.1, r.2.bounded) := by
  obtain ⟨bs, hbs⟩ := heard_run cfg dcfg pre all hall hstamped.of_concat
  apply onOhlcv_bounded
  intro new all' hbar
  obtain ⟨bs', hbs'⟩ := hbs.bar hstamped hbar
  exact hbs'.filter_lastN hfits hstamped

/-- **The deque loses nothing.** The strategy raises where the reference does, and keeps the newest of its signals. -/
theorem run_bounded (hfits : Fits cfg dcfg) : ∀ evs, Stamped evs →
    Runs.runM (Strategy.bar cfg dcfg) {} evs = (Runs.runM (Strategy.barAll cfg dcfg) {} evs).map Strategy.bounded := by
  intro evs
  induction evs using List.reverseRecOn with
  | nil =>
    intro _
    rfl
  | append_singleton pre ev ih =>
    intro hstamped
    rw [Runs.runM_concat_eq, Runs.runM_concat_eq, ih hstamped.of_concat]
    cases hall : Runs.runM (Strategy.barAll cfg dcfg) {} pre with
    | none => rfl
    | some all =>
      rw [Option.map_some, Option.bind_some, Option.bind_some, Strategy.bar, Strategy.barAll,
        bar_bounded hfits hstamped hall, Option.map_map, Option.map_map]
      rfl

end MikoV2.Backtest
