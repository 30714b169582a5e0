import MikoV2.Backtest.SignalWindow

/-!
# When an entry is emitted

* `Fires`, `tryEntry_fires` : what an attempt looks at, and what it emits;
* `requiredKinds`, `Aligned`, `Due` : the same over all signals and entries of the run;
* `ClockOf`, `Clocks`, `clocks_run` : the clock of a direction is the time of its last entry;
* `NothingLost`, `emitted_when_due` : the entries are those of the reference, emitted when they are due, and no closer
  than the cooldown; `not_aligned_gated` : an attempt that is aligned is also gated by the trust and by a first signal.
-/

namespace MikoV2.Backtest
open PaperMath (Direction)
open PositionSim (lastN)

variable {cfg : StrategyConfig} {dcfg : DetectorConfig} {st all all' : Strategy} {ev : OHLCVEvent}
  {evs pre : List OHLCVEvent} {new : List EntrySignal} {tsMs : ℤ} {direction : Direction}

/-! ## One attempt -/

/-- The signals of a direction that an entry requires. -/
def requiredKinds (cfg : StrategyConfig) : Direction → List SignalKind
  | .LONG => (if cfg.requireSweep then [.SWEEP_DOWN] else []) ++ (if cfg.requireMss then [.MSS_UP] else []) ++
      (if cfg.requireFvg then [.FVG_BULLISH] else []) ++ (if cfg.requireOte then [.OTE_LONG] else [])
  | .SHORT => (if cfg.requireSweep then [.SWEEP_UP] else []) ++ (if cfg.requireMss then [.MSS_DOWN] else []) ++
      (if cfg.requireFvg then [.FVG_BEARISH] else []) ++ (if cfg.requireOte then [.OTE_SHORT] else [])

/-- `long_ok` and `short_ok`. -/
def sideOk (cfg : StrategyConfig) (recent : List (ℤ × Signal)) : Direction → Bool
  | .LONG => longOk cfg recent
  | .SHORT => shortOk cfg recent

/-- One clause of `long_ok` or `short_ok`. -/
theorem required_iff {required : Bool} {recent : List (ℤ × Signal)} {kind : SignalKind} :
    (!required || hasKind recent kind) = true ↔ ∀ k ∈ if required then [kind] else [], hasKind recent k = true := by
  cases required with
  | false => simp
  | true => simp

theorem sideOk_iff {recent : List (ℤ × Signal)} :
    sideOk cfg recent direction = true ↔ ∀ kind ∈ requiredKinds cfg direction, hasKind recent kind = true := by
  cases direction with
  | LONG =>
    unfold sideOk longOk requiredKinds
    simp only [Bool.and_eq_true, required_iff, List.mem_append, or_imp, forall_and]
  | SHORT =>
    unfold sideOk shortOk requiredKinds
    simp only [Bool.and_eq_true, required_iff, List.mem_append, or_imp, forall_and]

/-- One side emits its own direction, when it is aligned and cooled down. -/
theorem trySide_emits {d d' : Direction} {ok : Bool} {price : ℚ} {contributing : List SignalKind} :
    (∃ e ∈ (trySide cfg d ok tsMs price contributing st).1, e.direction = d') ↔
      d = d' ∧ ok = true ∧ tsMs - (st.lastEntryMs d).getD 0 ≥ cfg.cooldownMs := by
  unfold trySide
  by_cases hok : ok = true
  · by_cases hcool : tsMs - (st.lastEntryMs d).getD 0 ≥ cfg.cooldownMs
    · simp [hok, hcool]
    · simp [hok, hcool]
  · simp [hok]

theorem trySide_clock {d d' : Direction} {ok : Bool} {price : ℚ} {contributing : List SignalKind} :
    (trySide cfg d ok tsMs price contributing st).2.2.lastEntryMs d' =
      if d = d' ∧ ok = true ∧ tsMs - (st.lastEntryMs d).getD 0 ≥ cfg.cooldownMs then some tsMs
      else st.lastEntryMs d' := by
  unfold trySide
  by_cases hok : ok = true
  · by_cases hcool : tsMs - (st.lastEntryMs d).getD 0 ≥ cfg.cooldownMs
    · rw [if_pos hok, if_pos hcool]
      by_cases hd : d = d'
      · simp [hd, hok, hd ▸ hcool]
      · rw [if_neg fun h => hd h.1]
        exact Function.update_of_ne (Ne.symm hd) ..
    · rw [if_pos hok, if_neg hcool, if_neg fun h => hcool h.2.2]
  · rw [if_neg hok, if_neg fun h => hok h.2.1]

theorem trySide_single {R : EntrySignal → EntrySignal → Prop} {ok : Bool} {price : ℚ} {contributing : List SignalKind} :
    (trySide cfg direction ok tsMs price contributing st).1.Pairwise R := by
  unfold trySide
  split
  · split
    · exact List.pairwise_singleton _ _
    · exact List.Pairwise.nil
  · exact List.Pairwise.nil

theorem trySide_direction {ok : Bool} {price : ℚ} {contributing : List SignalKind} :
    ∀ e ∈ (trySide cfg direction ok tsMs price contributing st).1, e.direction = direction :=
  fun e he => (trySide_emits.mp ⟨e, he, rfl⟩).1.symm

theorem trySide_trust {ok : Bool} {price : ℚ} {contributing : List SignalKind} :
    (trySide cfg direction ok tsMs price contributing st).2.2.lastTrust = st.lastTrust := by
  unfold trySide
  split
  · split
    · rfl
    · rfl
  · rfl

/-- An attempt emits an entry of the direction. -/
structure Fires (cfg : StrategyConfig) (st : Strategy) (tsMs : ℤ) (direction : Direction) : Prop where
  trusted : cfg.minWhaleTrust ≤ st.lastTrust
  some_recent : st.recent.filter (fun e => e.1 ≥ tsMs - cfg.entryWindowMs) ≠ []
  ok : sideOk cfg (st.recent.filter fun e => e.1 ≥ tsMs - cfg.entryWindowMs) direction = true
  cooled : tsMs - (st.lastEntryMs direction).getD 0 ≥ cfg.cooldownMs

/-- What an attempt emits, and where it leaves the clocks. -/
structure Attempted (cfg : StrategyConfig) (st : Strategy) (tsMs : ℤ) (new : List EntrySignal) (st' : Strategy) :
    Prop where
  emits : ∀ direction, (∃ e ∈ new, e.direction = direction) ↔ Fires cfg st tsMs direction
  fired : ∀ direction, Fires cfg st tsMs direction → st'.lastEntryMs direction = some tsMs
  silent : ∀ direction, ¬ Fires cfg st tsMs direction → st'.lastEntryMs direction = st.lastEntryMs direction
  apart : new.Pairwise fun a b => a.direction ≠ b.direction
  lastTrust : st'.lastTrust = st.lastTrust

theorem Attempted.congr {st' st'' : Strategy} (h : Attempted cfg st tsMs new st')
    (hlast : st''.lastEntryMs = st'.lastEntryMs) (htrust : st''.lastTrust = st'.lastTrust) :
    Attempted cfg st tsMs new st'' :=
  ⟨h.emits, fun direction hf => (congrFun hlast direction).trans (h.fired direction hf),
    fun direction hf => (congrFun hlast direction).trans (h.silent direction hf), h.apart, htrust.trans h.lastTrust⟩

/-- An attempt that a gate stops. -/
theorem Attempted.stopped (h : ∀ direction, ¬ Fires cfg st tsMs direction) {st' : Strategy}
    (hlast : st'.lastEntryMs = st.lastEntryMs) (htrust : st'.lastTrust = st.lastTrust) :
    Attempted cfg st tsMs [] st' := by
  refine ⟨fun direction => iff_of_false ?_ (h direction), fun direction hf => absurd hf (h direction),
    fun direction _ => congrFun hlast direction, List.Pairwise.nil, htrust⟩
  rintro ⟨e, he, -⟩
  cases he

/-- The two sides of an attempt that no gate stops. -/
theorem attempted_sides {price : ℚ} {contributing : List SignalKind} (htrust : cfg.minWhaleTrust ≤ st.lastTrust)
    (hrecent : st.recent.filter (fun e => e.1 ≥ tsMs - cfg.entryWindowMs) ≠ []) :
    let recent := st.recent.filter fun e => e.1 ≥ tsMs - cfg.entryWindowMs
    let long := trySide cfg .LONG (longOk cfg recent) tsMs price contributing { st with lastRejectionReason := none }
    let short := trySide cfg .SHORT (shortOk cfg recent) tsMs price contributing long.2.2
    Attempted cfg st tsMs (long.1 ++ short.1) short.2.2 := by
  intro recent long short
  have hfires : ∀ direction, Fires cfg st tsMs direction ↔
      sideOk cfg recent direction = true ∧ tsMs - (st.lastEntryMs direction).getD 0 ≥ cfg.cooldownMs :=
    fun direction => ⟨fun h => ⟨h.ok, h.cooled⟩, fun h => ⟨htrust, hrecent, h.1, h.2⟩⟩
  have hother : long.2.2.lastEntryMs .SHORT = st.lastEntryMs .SHORT := by
    refine trySide_clock.trans (if_neg ?_)
    rintro ⟨hd, -⟩
    cases hd
  have hlong : Direction.SHORT ≠ Direction.LONG := by decide
  refine ⟨fun direction => ?_, fun direction hf => ?_, fun direction hf => ?_, ?_, trySide_trust.trans trySide_trust⟩
  · have hsplit : (∃ e ∈ long.1 ++ short.1, e.direction = direction) ↔
        (∃ e ∈ long.1, e.direction = direction) ∨ ∃ e ∈ short.1, e.direction = direction := by
      simp only [List.mem_append, or_and_right, exists_or]
    rw [hsplit, trySide_emits, trySide_emits, hother, hfires]
    cases direction with
    | LONG => simp [sideOk]
    | SHORT => simp [sideOk]
  · rw [hfires] at hf
    cases direction with
    | LONG => exact (trySide_clock.trans (if_neg fun h => hlong h.1)).trans (trySide_clock.trans (if_pos ⟨rfl, hf⟩))
    | SHORT =>
      rw [← hother] at hf
      exact trySide_clock.trans (if_pos ⟨rfl, hf⟩)
  · rw [hfires] at hf
    cases direction with
    | LONG =>
      exact (trySide_clock.trans (if_neg fun h => hlong h.1)).trans (trySide_clock.trans (if_neg fun h => hf h.2))
    | SHORT =>
      rw [← hother] at hf ⊢
      exact trySide_clock.trans (if_neg fun h => hf h.2)
  · refine List.pairwise_append.mpr ⟨trySide_single, trySide_single, fun a ha b hb => ?_⟩
    rw [trySide_direction a ha, trySide_direction b hb]
    decide

theorem tryEntry_attempted (cfg : StrategyConfig) (tsMs : ℤ) (price : ℚ) (st : Strategy) :
    Attempted cfg st tsMs (tryEntry cfg tsMs price st).1 (tryEntry cfg tsMs price st).2 := by
  unfold tryEntry
  dsimp only
  by_cases htrust : st.lastTrust < cfg.minWhaleTrust
  · rw [if_pos htrust]
    exact .stopped (fun direction hf => absurd hf.trusted (not_le.mpr htrust)) rfl rfl
  rw [if_neg htrust]
  by_cases hrecent : st.recent.filter (fun e => e.1 ≥ tsMs - cfg.entryWindowMs) = []
  · rw [if_pos hrecent]
    exact .stopped (fun direction hf => hf.some_recent hrecent) rfl rfl
  rw [if_neg hrecent]
  refine (attempted_sides (not_lt.mp htrust) hrecent).congr ?_ ?_
  · dsimp only
    split
    · rfl
    · rfl
  · dsimp only
    split
    · rfl
    · rfl

/-! ## All signals, and all entries -/

/-- Every required signal of the direction is in the window, and the previous entry of the direction is old enough. -/
structure Aligned (cfg : StrategyConfig) (arrived : List (ℤ × Signal)) (entries : List EntrySignal) (tsMs : ℤ)
    (direction : Direction) : Prop where
  required : ∀ kind ∈ requiredKinds cfg direction, ∃ x ∈ arrived, x.2.kind = kind ∧ tsMs - cfg.entryWindowMs ≤ x.1
  cooled : ∀ e ∈ entries, e.direction = direction → cfg.cooldownMs ≤ tsMs - e.tsMs

/-- What the gates ask besides: no trust is required, and there is a signal in the window. -/
structure Due (cfg : StrategyConfig) (arrived : List (ℤ × Signal)) (entries : List EntrySignal) (tsMs : ℤ)
    (direction : Direction) : Prop extends Aligned cfg arrived entries tsMs direction where
  untrusted : cfg.minWhaleTrust ≤ 0
  some_arrived : ∃ x ∈ arrived, tsMs - cfg.entryWindowMs ≤ x.1

/-- The clock of a direction is the time of its last entry. -/
structure ClockOf (clock : Option ℤ) (entries : List EntrySignal) (direction : Direction) : Prop where
  unset : clock = none → ∀ e ∈ entries, e.direction ≠ direction
  last : ∀ l, clock = some l → (∃ e ∈ entries, e.direction = direction ∧ e.tsMs = l) ∧
    ∀ e ∈ entries, e.direction = direction → e.tsMs ≤ l

/-- A clock that is set by an entry. -/
theorem ClockOf.set {entries : List EntrySignal} (hmem : ∃ e ∈ entries, e.direction = direction ∧ e.tsMs = tsMs)
    (hle : ∀ e ∈ entries, e.tsMs ≤ tsMs) : ClockOf (some tsMs) entries direction := by
  refine ⟨fun hnone => ?_, fun l hl => ?_⟩
  · cases hnone
  · cases hl
    exact ⟨hmem, fun e he _ => hle e he⟩

/-- Entries of the other direction. -/
theorem ClockOf.append {clock : Option ℤ} {entries : List EntrySignal} (h : ClockOf clock entries direction)
    (hnew : ∀ e ∈ new, e.direction ≠ direction) : ClockOf clock (entries ++ new) direction := by
  constructor
  · intro hnone e he
    rcases List.mem_append.mp he with he | he
    · exact h.unset hnone e he
    · exact hnew e he
  · intro l hl
    obtain ⟨⟨e, he, hd, htime⟩, hle⟩ := h.last l hl
    refine ⟨⟨e, List.mem_append_left _ he, hd, htime⟩, fun x hx hxd => ?_⟩
    rcases List.mem_append.mp hx with hx | hx
    · exact hle x hx hxd
    · exact absurd hxd (hnew x hx)

/-- A clock has the cooldown of all entries of its direction. -/
theorem ClockOf.cooled_iff {clock : Option ℤ} {entries : List EntrySignal} (h : ClockOf clock entries direction)
    (hts : cfg.cooldownMs ≤ tsMs) : tsMs - clock.getD 0 ≥ cfg.cooldownMs ↔
      ∀ e ∈ entries, e.direction = direction → cfg.cooldownMs ≤ tsMs - e.tsMs := by
  cases clock with
  | none =>
    rw [Option.getD_none, sub_zero]
    exact iff_of_true hts fun e he hd => absurd hd (h.unset rfl e he)
  | some l =>
    obtain ⟨⟨last, hmem, hd, rfl⟩, hle⟩ := h.last l rfl
    rw [Option.getD_some]
    constructor
    · intro hcool e he hed
      have hel := hle e he hed
      omega
    · intro hall
      exact hall last hmem hd

/-- The clocks and the entries after the bars `pre`. -/
structure Clocks (cfg : StrategyConfig) (pre : List OHLCVEvent) (all : Strategy) : Prop where
  lastTrust : all.lastTrust = 0
  clock : ∀ direction, ClockOf (all.lastEntryMs direction) all.entries direction
  stamp : ∀ e ∈ all.entries, ∃ ev ∈ pre, e.tsMs = ev.tsMs
  spaced : all.entries.Pairwise fun a b => a.direction = b.direction → cfg.cooldownMs ≤ b.tsMs - a.tsMs

theorem Clocks.init (cfg : StrategyConfig) : Clocks cfg [] {} := by
  refine ⟨rfl, fun direction => ⟨fun _ e he => ?_, fun l h => ?_⟩, fun e he => ?_, List.Pairwise.nil⟩
  · cases he
  · cases h
  · cases he

/-- The attempt of a bar of the reference. -/
theorem onOhlcvAll_attempted (h : all.onOhlcvAll cfg dcfg ev = some (new, all')) :
    ∃ heard : Strategy, Attempted cfg heard ev.tsMs new all' ∧ heard.recent = all'.recent ∧
      heard.lastEntryMs = all.lastEntryMs ∧ heard.lastTrust = all.lastTrust ∧ all'.entries = all.entries ++ new ∧
        ∀ e ∈ new, e.tsMs = ev.tsMs := by
  obtain ⟨signals, detector, -, rfl, rfl⟩ := onOhlcvAll_some h
  have hframe : ∀ (signals : List Signal) (st : Strategy),
      (signals.foldl (fun st s => st.recordAll ev.tsMs s) st).lastEntryMs = st.lastEntryMs ∧
        (signals.foldl (fun st s => st.recordAll ev.tsMs s) st).lastTrust = st.lastTrust ∧
          (signals.foldl (fun st s => st.recordAll ev.tsMs s) st).entries = st.entries := by
    intro signals
    induction signals with
    | nil => exact fun st => ⟨rfl, rfl, rfl⟩
    | cons s signals ih => exact fun st => ih _
  obtain ⟨hlast, htrust, hentries⟩ := hframe signals { all with detector }
  refine ⟨all.hearAll detector ev.tsMs signals, (tryEntry_attempted cfg ev.tsMs ev.close _).congr rfl rfl, ?_, hlast,
    htrust, ?_, fun e he => (tryEntry_stamp e he).1⟩
  · exact (tryEntry_recent ..).symm
  · show (tryEntry cfg ev.tsMs ev.close _).2.entries ++ _ = _
    rw [(tryEntry_same ..).entries, Strategy.hearAll, hentries]

/-- A bar emits what is due. -/
theorem Clocks.emits (h : Clocks cfg pre all) (hts : cfg.cooldownMs ≤ ev.tsMs)
    (hbar : all.onOhlcvAll cfg dcfg ev = some (new, all')) (direction : Direction) :
    (∃ e ∈ new, e.direction = direction) ↔ Due cfg all'.recent all.entries ev.tsMs direction := by
  obtain ⟨heard, hattempt, hrecent, hlast, htrust, -⟩ := onOhlcvAll_attempted hbar
  have hin : ∀ x : ℤ × Signal, x ∈ all'.recent.filter (fun e => e.1 ≥ ev.tsMs - cfg.entryWindowMs) ↔
      x ∈ all'.recent ∧ ev.tsMs - cfg.entryWindowMs ≤ x.1 := by simp
  have hkind : ∀ kind, hasKind (all'.recent.filter fun e => e.1 ≥ ev.tsMs - cfg.entryWindowMs) kind = true ↔
      ∃ x ∈ all'.recent, x.2.kind = kind ∧ ev.tsMs - cfg.entryWindowMs ≤ x.1 := by
    intro kind
    simp only [hasKind, List.any_eq_true, hin, decide_eq_true_eq]
    constructor
    · rintro ⟨x, ⟨hx, hw⟩, hk⟩
      exact ⟨x, hx, hk, hw⟩
    · rintro ⟨x, hx, hk, hw⟩
      exact ⟨x, ⟨hx, hw⟩, hk⟩
  rw [hattempt.emits]
  constructor
  · rintro ⟨htrusted, hsome, hok, hcool⟩
    rw [hrecent] at hsome hok
    rw [hlast] at hcool
    rw [htrust, h.lastTrust] at htrusted
    obtain ⟨x, hx⟩ := List.exists_mem_of_ne_nil _ hsome
    have hrequired : ∀ kind ∈ requiredKinds cfg direction,
        ∃ x ∈ all'.recent, x.2.kind = kind ∧ ev.tsMs - cfg.entryWindowMs ≤ x.1 :=
      fun kind hkind' => (hkind kind).mp (sideOk_iff.mp hok kind hkind')
    exact ⟨⟨hrequired, ((h.clock direction).cooled_iff hts).mp hcool⟩, htrusted, x, (hin x).mp hx⟩
  · rintro ⟨⟨hrequired, hcool⟩, htrusted, x, hx, hw⟩
    refine ⟨?_, ?_, ?_, ?_⟩
    · rw [htrust, h.lastTrust]
      exact htrusted
    · rw [hrecent]
      exact List.ne_nil_of_mem ((hin x).mpr ⟨hx, hw⟩)
    · rw [hrecent]
      exact sideOk_iff.mpr fun kind hkind' => (hkind kind).mpr (hrequired kind hkind')
    · rw [hlast]
      exact ((h.clock direction).cooled_iff hts).mpr hcool

theorem Clocks.bar (h : Clocks cfg pre all) (hstamped : Stamped (pre ++ [ev])) (hts : cfg.cooldownMs ≤ ev.tsMs)
    (hbar : all.onOhlcvAll cfg dcfg ev = some (new, all')) : Clocks cfg (pre ++ [ev]) all' := by
  have hdue := h.emits hts hbar
  obtain ⟨heard, hattempt, -, hlast, htrust, hentries, hstamp⟩ := onOhlcvAll_attempted hbar
  have hbefore : ∀ e ∈ all.entries, e.tsMs ≤ ev.tsMs := by
    intro e he
    obtain ⟨x, hx, htime⟩ := h.stamp e he
    rw [htime]
    exact hstamped.le_last x hx
  refine ⟨hattempt.lastTrust.trans (htrust.trans h.lastTrust), fun direction => ?_, fun e he => ?_, ?_⟩
  · rw [hentries]
    by_cases hf : Fires cfg heard ev.tsMs direction
    · rw [hattempt.fired direction hf]
      obtain ⟨e, he, hd⟩ := (hattempt.emits direction).mpr hf
      refine .set ⟨e, List.mem_append_right _ he, hd, hstamp e he⟩ fun x hx => ?_
      rcases List.mem_append.mp hx with hx | hx
      · exact hbefore x hx
      · exact (hstamp x hx).le
    · rw [hattempt.silent direction hf, hlast]
      exact (h.clock direction).append fun e he hd => hf ((hattempt.emits direction).mp ⟨e, he, hd⟩)
  · rw [hentries] at he
    rcases List.mem_append.mp he with he | he
    · obtain ⟨x, hx, htime⟩ := h.stamp e he
      exact ⟨x, List.mem_append_left _ hx, htime⟩
    · exact ⟨ev, List.mem_append_right _ List.mem_cons_self, hstamp e he⟩
  · rw [hentries]
    refine List.pairwise_append.mpr ⟨h.spaced, hattempt.apart.imp fun {a b} hab heq => absurd heq hab, ?_⟩
    intro a ha b hb heq
    rw [hstamp b hb]
    exact ((hdue b.direction).mp ⟨b, hb, rfl⟩).cooled a ha heq

/-- The bars come in order, none before the first cooldown has passed. -/
structure PastCooldown (cfg : StrategyConfig) (evs : List OHLCVEvent) : Prop extends Stamped evs where
  late : ∀ ev ∈ evs, cfg.cooldownMs ≤ ev.tsMs

theorem clocks_run (cfg : StrategyConfig) (dcfg : DetectorConfig) : ∀ pre all,
    Runs.runM (Strategy.barAll cfg dcfg) {} pre = some all → PastCooldown cfg pre → Clocks cfg pre all := by
  refine Runs.runM_history (J := fun pre all => PastCooldown cfg pre → Clocks cfg pre all) (fun _ => .init cfg) ?_
  intro pre ev all all' ih hbar htime
  obtain ⟨⟨new, t⟩, hall, rfl⟩ := Option.map_eq_some_iff.mp hbar
  have hpre : PastCooldown cfg pre := ⟨htime.of_concat, fun e he => htime.late e (List.mem_append_left _ he)⟩
  exact (ih hpre).bar htime.toStamped (htime.late ev (List.mem_append_right _ List.mem_cons_self)) hall

/-! ## The run of the strategy -/

/-- The entries are those of the reference; a bar emits an entry of a direction exactly when it is `due`; two entries
of one direction are not closer than the cooldown. -/
structure NothingLost (due : StrategyConfig → List (ℤ × Signal) → List EntrySignal → ℤ → Direction → Prop)
    (cfg : StrategyConfig) (dcfg : DetectorConfig) (evs : List OHLCVEvent) : Prop where
  entries : (Runs.runM (Strategy.bar cfg dcfg) {} evs).map Strategy.entries =
    (Runs.runM (Strategy.barAll cfg dcfg) {} evs).map Strategy.entries
  emitted : ∀ pre ev st new st' all, pre ++ [ev] <+: evs → Runs.runM (Strategy.bar cfg dcfg) {} pre = some st →
    st.onOhlcv cfg dcfg ev = some (new, st') → Runs.runM (Strategy.barAll cfg dcfg) {} (pre ++ [ev]) = some all →
      ∀ direction, (∃ e ∈ new, e.direction = direction) ↔ due cfg all.recent st.entries ev.tsMs direction
  spaced : ∀ st, Runs.runM (Strategy.bar cfg dcfg) {} evs = some st →
    st.entries.Pairwise fun a b => a.direction = b.direction → cfg.cooldownMs ≤ b.tsMs - a.tsMs

theorem PastCooldown.of_append {later : List OHLCVEvent} (h : PastCooldown cfg (pre ++ later)) : PastCooldown cfg pre :=
  ⟨⟨fun e he => h.stamp e (List.mem_append_left _ he), (List.pairwise_append.mp h.sorted).1⟩,
    fun e he => h.late e (List.mem_append_left _ he)⟩

theorem bounded_entries (st : Strategy) : st.bounded.entries = st.entries := by
  rw [Strategy.bounded]

/-- **The bounded window loses nothing**, and the cooldown holds. -/
theorem emitted_when_due (hfits : Fits cfg dcfg) (htime : PastCooldown cfg evs) : NothingLost Due cfg dcfg evs := by
  refine ⟨?_, ?_, ?_⟩
  · rw [run_bounded hfits evs htime.toStamped, Option.map_map]
    exact congrArg (fun f => Option.map f _) (funext bounded_entries)
  · rintro pre ev st new st' all' ⟨later, rfl⟩ hst hbar hall' direction
    have hpre : PastCooldown cfg (pre ++ [ev]) := htime.of_append
    rw [run_bounded hfits pre hpre.of_append.toStamped] at hst
    obtain ⟨all, hall, rfl⟩ := Option.map_eq_some_iff.mp hst
    rw [bar_bounded hfits hpre.toStamped hall] at hbar
    obtain ⟨⟨new', t⟩, hnew, hsame⟩ := Option.map_eq_some_iff.mp hbar
    obtain ⟨m, hm, hstep⟩ := Runs.runM_concat.mp hall'
    rw [hall] at hm
    cases hm
    rw [Strategy.barAll, hnew] at hstep
    cases hstep
    cases hsame
    rw [bounded_entries]
    have hlate := hpre.late ev (List.mem_append_right _ List.mem_cons_self)
    exact (clocks_run cfg dcfg pre all hall hpre.of_append).emits hlate hnew direction
  · intro st hst
    rw [run_bounded hfits evs htime.toStamped] at hst
    obtain ⟨all, hall, rfl⟩ := Option.map_eq_some_iff.mp hst
    rw [bounded_entries]
    exact (clocks_run cfg dcfg evs all hall htime).spaced

/-- A bar after three, that opens the bucket after a gap between the first candle and the third. -/
def gapBars : List OHLCVEvent :=
  [⟨60, 60000, 100, 101, 99, 100, 0, 0, 0, "BTC_USDT", 60⟩, ⟨65, 65000, 101, 104, 101, 103, 0, 0, 0, "BTC_USDT", 65⟩,
    ⟨70, 70000, 103, 105, 103, 104, 0, 0, 0, "BTC_USDT", 70⟩]

def afterGap : OHLCVEvent := ⟨75, 75000, 104, 105, 103, 104, 0, 0, 0, "BTC_USDT", 75⟩

/-- Only the gap is required, but some trust too. -/
def trustConfig : StrategyConfig := { minWhaleTrust := 1, requireSweep := false, requireMss := false }

/-- Nothing is required. -/
def freeConfig : StrategyConfig := { requireSweep := false, requireMss := false, requireFvg := false }

theorem gapBars_pastCooldown : PastCooldown trustConfig (gapBars ++ [afterGap]) :=
  ⟨⟨by decide, by decide⟩, by decide⟩

/-- The default window has room; the last bar emits a LONG entry. -/
theorem emitted_when_due_gap :
    NothingLost Due { requireSweep := false, requireMss := false } {} (gapBars ++ [afterGap]) :=
  emitted_when_due (by decide) ⟨⟨by decide, by decide⟩, by decide⟩

/-- A bar that emits nothing while a LONG entry is due. -/
theorem not_nothingLost {due : StrategyConfig → List (ℤ × Signal) → List EntrySignal → ℤ → Direction → Prop}
    (hnew : ((Runs.runM (Strategy.bar cfg dcfg) {} pre).bind fun st => st.onOhlcv cfg dcfg ev).map Prod.fst = some [])
    (hdue : ∀ st all, Runs.runM (Strategy.bar cfg dcfg) {} pre = some st →
      Runs.runM (Strategy.barAll cfg dcfg) {} (pre ++ [ev]) = some all → due cfg all.recent st.entries ev.tsMs .LONG) :
    ¬ NothingLost due cfg dcfg (pre ++ [ev]) := by
  intro h
  obtain ⟨⟨new, st'⟩, hbind, hempty⟩ := Option.map_eq_some_iff.mp hnew
  obtain ⟨st, hst, hbar⟩ := Option.bind_eq_some_iff.mp hbind
  have hrun : Runs.runM (Strategy.bar cfg dcfg) {} (pre ++ [ev]) = some st' := by
    rw [Runs.runM_concat]
    refine ⟨st, hst, ?_⟩
    rw [Strategy.bar, hbar]
    rfl
  have hentries := h.entries
  rw [hrun] at hentries
  obtain ⟨all, hall, -⟩ := Option.map_eq_some_iff.mp hentries.symm
  obtain ⟨e, he, -⟩ :=
    (h.emitted pre ev st new st' all (List.prefix_refl _) hst hbar hall .LONG).mpr (hdue st all hst hall)
  dsimp only at hempty
  rw [hempty] at he
  cases he

/-- With a trust that is required no entry is emitted, and with nothing required none before the first signal. -/
theorem not_aligned_gated :
    (Fits trustConfig {} ∧ PastCooldown trustConfig (gapBars ++ [afterGap]) ∧
        ¬ NothingLost Aligned trustConfig {} (gapBars ++ [afterGap])) ∧
      Fits freeConfig {} ∧ PastCooldown freeConfig ([] ++ [afterGap]) ∧
        ¬ NothingLost Aligned freeConfig {} ([] ++ [afterGap]) := by
  refine ⟨⟨by decide, gapBars_pastCooldown, not_nothingLost (by decide +kernel) ?_⟩, by decide,
    ⟨⟨by decide +kernel, List.pairwise_singleton _ _⟩, by decide +kernel⟩, not_nothingLost (by decide +kernel) ?_⟩
  · intro st all hst hall
    have hentries : (Runs.runM (Strategy.bar trustConfig {}) {} gapBars).map Strategy.entries = some [] := by
      decide +kernel
    have hrecent : (Runs.runM (Strategy.barAll trustConfig {}) {} (gapBars ++ [afterGap])).map Strategy.recent =
        some [(75000, ⟨.FVG_BULLISH, 70000, 102, 2⟩)] := by
      decide +kernel
    rw [hst, Option.map_some, Option.some.injEq] at hentries
    rw [hall, Option.map_some, Option.some.injEq] at hrecent
    rw [hentries, hrecent]
    refine ⟨fun kind hkind => ?_, fun e he => ?_⟩
    · have honly : kind = .FVG_BULLISH := by simpa [requiredKinds, trustConfig] using hkind
      exact ⟨_, List.mem_cons_self, honly.symm, by decide⟩
    · cases he
  · intro st all hst _
    cases hst
    refine ⟨fun kind hkind => ?_, fun e he => ?_⟩
    · simp [requiredKinds, freeConfig] at hkind
    · cases he

end MikoV2.Backtest
