import MikoV2.Lib.Runs
import MikoV2.Paper.Finalize
import MikoV2.Rotation.Runner

/-!
# Open positions and subscriptions

The rotation does not look at the paper positions: a symbol leaves when its hysteresis is over, a new process
subscribes the symbols it is given, and an entry may come after its symbol has left.

* `mem_keys_onEntry`, `mem_keys_restart`, `Moves.keys_subset` : which symbols have a position after each call;
* `Watched` : every symbol with a position is subscribed; `KeepsWatch` : the steps that keep it so;
* `Tasks` : what is still to be unsubscribed is no longer in the service's set;
* `watched_iff_keepsWatch` : the positions are watched along exactly the runs whose steps keep the watch.
-/

namespace MikoV2.Paper
open PaperMath Store
open Py (Dict)

variable {env : Env} {s s' : World}

/-! ## Which symbols have a position -/

/-- Without entries and loads no symbol gets a position. -/
theorem Moves.keys_subset (h : Moves env (fun _ _ => False) False s s') :
    s'.mem.positions.keys ⊆ s.mem.positions.keys := by
  refine h.keeps (I := fun t => t.mem.positions.keys ⊆ s.mem.positions.keys) (fun t t' ht hm => ?_)
    (List.Subset.refl _)
  cases hm with
  | quiet hq => rw [hq.positions]; exact ht
  | funded fundingPaid hget =>
    show (t.mem.positions.set _ _).keys ⊆ _
    rw [Dict.keys_set_of_mem (Dict.mem_keys.mpr ⟨_, hget⟩)]
    exact ht
  | opened hfree hfund hnew => exact hnew.elim
  | closed tsMs exitPrice reason hget =>
    obtain ⟨rows, -, hspec⟩ := settleClose_spec (Prod.mk.eta (p := settleClose env _ _ _ t)).symm
    rw [hspec.positions]
    split
    · exact fun k hk => ht (Dict.mem_keys_erase.mp hk).1
    · exact ht
  | loaded h => exact h.elim
  | restarted h => exact h.elim

/-- The entry is accepted and its write returns. -/
def Opens (env : Env) (s : World) (symbol : String) (direction : Direction) (signalTsMs : ℤ)
    (lastPrice : Option ℚ) (monoMs : ℤ) : Prop :=
  Accepts env s.mem symbol direction signalTsMs lastPrice monoMs ∧
    env.faults s.conn.issued .insertPosition = false ∧ env.faults (s.conn.issued + 1) .commitOpen = false

theorem mem_keys_onEntry {symbol : String} {direction : Direction} {signalTsMs monoMs : ℤ} {lastPrice : Option ℚ}
    {k : String} :
    k ∈ (onEntry env symbol direction signalTsMs lastPrice monoMs s).2.mem.positions.keys ↔
      k ∈ s.mem.positions.keys ∨
        (k = symbol ∧ Opens env s symbol direction signalTsMs lastPrice monoMs) := by
  rcases hentry : onEntry env symbol direction signalTsMs lastPrice monoMs s with ⟨b, t⟩
  rcases onEntry_cases env symbol direction signalTsMs lastPrice monoMs s hentry with
    ⟨refusal, hdec, -, hq⟩ | ⟨pos, rows, s₁, hdec, -, hopen, hq⟩
  · rw [hq.positions]
    refine ⟨Or.inl, fun h => h.elim id fun hacc => ?_⟩
    obtain ⟨pos, hpos⟩ := hacc.2.1
    rw [hdec] at hpos
    cases hpos
  · have hsym : pos.symbol = symbol := (entryDecision_ok hdec).1
    have hreturns := Sqlite.write_isSome_iff hopen.write
    rw [hq.positions, hopen.positions]
    by_cases hrows : rows.isSome = true
    · rw [if_pos hrows, Dict.mem_keys_set, hsym]
      exact or_congr_right ⟨fun hk => ⟨hk, ⟨pos, hdec⟩, hreturns.mp hrows⟩, fun h => h.1⟩
    · rw [if_neg hrows]
      exact ⟨Or.inl, fun h => h.elim id fun hopens => absurd (hreturns.mpr hopens.2.2) hrows⟩

/-- A new process has the positions of the `OPEN` rows, or none when it cannot read them. -/
theorem mem_keys_restart {k : String} : k ∈ (restart env s).mem.positions.keys ↔
    env.faults s.conn.issued .selectOpen = false ∧ ∃ r ∈ openRows s.conn.disk, r.symbol = k := by
  unfold restart onStartup Sqlite.Conn.execute
  by_cases hf : env.faults (crash env s).conn.issued .selectOpen = true
  · rw [if_pos hf]
    refine iff_of_false List.not_mem_nil fun h => ?_
    exact Bool.false_ne_true (h.1.symm.trans hf)
  · rw [if_neg hf]
    show k ∈ ((Dict.empty : Dict String PaperPosition).update _).keys ↔ _
    rw [Dict.mem_keys_update, List.map_map, List.mem_map]
    constructor
    · rintro (h | ⟨r, hr, hk⟩)
      · cases h
      · exact ⟨Bool.eq_false_iff.mpr hf, r, hr, hk⟩
    · rintro ⟨-, r, hr, hk⟩
      exact Or.inr ⟨r, hr, hk⟩

end MikoV2.Paper

namespace MikoV2.Rotation
open PaperMath Store Universe Runs
open Paper (Env Feed Moves)
open Py (PySet)

variable {env : Env} {cfg : Config} {w : World}

/-! ## Watching -/

/-- Every symbol with a position is one the callbacks let through and the service has subscribed. -/
def Watched (w : World) : Prop :=
  w.running = true → ∀ symbol ∈ w.paper.mem.positions.keys, symbol ∈ w.symbols ∧ symbol ∈ w.«universe».subscribed

/-- A start covers the `OPEN` rows it loads; no symbol with a position is due to leave at a rotation; an entry
that is accepted is at a symbol that has not left. -/
def KeepsWatch (env : Env) (cfg : Config) (w : World) : Event → Prop
  | .start symbols => w.running = false → env.faults w.paper.conn.issued .selectOpen = false →
    ∀ r ∈ openRows w.paper.conn.disk, r.symbol ∈ symbols ∧ r.symbol ∉ cfg.excludedSymbols
  | .live (.rotate nowMs) => w.running = true → w.todo = [] → ∀ scan, w.latestScan = some scan →
    ∀ symbol ∈ w.paper.mem.positions.keys, ¬DueToLeave cfg scan.top5 nowMs w.«universe» symbol
  | .live (.visit symbol direction price tsMs monoMs) => w.running = true → symbol ∈ w.visiting →
    Paper.Opens env w.paper symbol direction tsMs (some price) monoMs →
      symbol ∈ w.symbols ∧ symbol ∈ w.«universe».subscribed
  | _ => True

/-- While a process runs, what is still to be unsubscribed has left the service's set. -/
def Tasks (w : World) : Prop :=
  w.running = true → ∀ symbol, .unsubscribe symbol ∈ w.todo → symbol ∉ w.«universe».subscribed

structure Watching (w : World) : Prop where
  watched : Watched w
  tasks : Tasks w

theorem Watching.fresh (env : Env) : Watching (fresh env) :=
  ⟨fun hrun => Bool.noConfusion hrun, fun hrun => Bool.noConfusion hrun⟩

/-- Work of the paper manager that gives no symbol a position. -/
theorem Watching.of_subset (h : Watching w) {s : Paper.World}
    (hkeys : s.mem.positions.keys ⊆ w.paper.mem.positions.keys) : Watching { w with paper := s } :=
  ⟨fun hrun symbol hsym => h.watched hrun symbol (hkeys hsym), h.tasks⟩

/-! ## The steps that matter -/

theorem mem_seedSubscriptions {symbols : List String} {u : UniverseService} {symbol : String} :
    symbol ∈ (seedSubscriptions cfg symbols u).subscribed ↔
      symbol ∈ u.subscribed ∨ (symbol ∈ symbols ∧ symbol ∉ cfg.excludedSymbols) := by
  unfold seedSubscriptions
  rw [PySet.mem_foldl_add, List.mem_filter, decide_eq_true_eq]

theorem mem_startup_subscribed {symbols : List String} {symbol : String} :
    symbol ∈ (startup env cfg symbols w).«universe».subscribed ↔
      symbol ∈ symbols ∧ symbol ∉ cfg.excludedSymbols := by
  unfold startup
  rw [mem_seedSubscriptions, ← PySet.mem_def, PySet.mem_ofList]
  exact ⟨fun h => h.resolve_left (PySet.not_mem_empty symbol), Or.inr⟩

theorem Watching.startup {symbols : List String} (hok : env.faults w.paper.conn.issued .selectOpen = false →
    ∀ r ∈ openRows w.paper.conn.disk, r.symbol ∈ symbols ∧ r.symbol ∉ cfg.excludedSymbols) :
    Watching (startup env cfg symbols w) := by
  refine ⟨fun _ symbol hsym => ?_, fun _ symbol htask => ?_⟩
  · obtain ⟨hread, r, hr, rfl⟩ := Paper.mem_keys_restart.mp hsym
    exact ⟨PySet.mem_ofList.mpr (hok hread r hr).1, mem_startup_subscribed.mpr (hok hread r hr)⟩
  · cases htask

/-- A round leaves the todo list as it is, or replaces an empty one by the decision. -/
theorem rotateUniverse_cases (cfg : Config) (nowMs : ℤ) (w : World) :
    (rotateUniverse cfg nowMs w = w ∧ (w.todo = [] → w.latestScan = none)) ∨
      ∃ scan decision u, w.todo = [] ∧ w.latestScan = some scan ∧
        applyScan cfg scan nowMs w.«universe» = (decision, u) ∧ rotateUniverse cfg nowMs w =
          { w with
            «universe» := u
            todo := decision.toSubscribe.map .subscribe ++ decision.toUnsubscribe.map .unsubscribe } := by
  unfold rotateUniverse
  cases htodo : w.todo with
  | nil =>
    cases hscan : w.latestScan with
    | none => exact Or.inl ⟨rfl, fun _ => rfl⟩
    | some scan =>
      dsimp only
      rcases hap : applyScan cfg scan nowMs w.«universe» with ⟨decision, u⟩
      exact Or.inr ⟨scan, decision, u, rfl, rfl, hap, rfl⟩
  | cons task todo => exact Or.inl ⟨rfl, fun h => by cases h⟩

theorem Watching.rotate (h : Watching w) {nowMs : ℤ} (hrun : w.running = true)
    (hok : w.todo = [] → ∀ scan, w.latestScan = some scan →
      ∀ symbol ∈ w.paper.mem.positions.keys, ¬DueToLeave cfg scan.top5 nowMs w.«universe» symbol) :
    Watching (rotateUniverse cfg nowMs w) := by
  rcases rotateUniverse_cases cfg nowMs w with ⟨hsame, -⟩ | ⟨scan, decision, u, htodo, hscan, hap, hstep⟩
  · rw [hsame]
    exact h
  · rw [hstep]
    refine ⟨fun _ symbol hsym => ?_, fun _ symbol htask => ?_⟩
    · obtain ⟨hin, hsub⟩ := h.watched hrun symbol hsym
      exact ⟨hin, (mem_subscribed_applyScan hap hsub).mpr (hok htodo scan hscan symbol hsym)⟩
    · rcases List.mem_append.mp htask with htask | htask
      · obtain ⟨x, -, hx⟩ := List.mem_map.mp htask
        cases hx
      · obtain ⟨x, hx, hxs⟩ := List.mem_map.mp htask
        cases hxs
        exact not_mem_of_toUnsubscribe hap hx

/-- A task removes a symbol from `symbols` only when the service has let it go. -/
theorem Watching.task (h : Watching w) (outcome : Outcome) (hrun : w.running = true) :
    Watching (applyTask outcome w) := by
  unfold applyTask
  split
  · exact h
  · rename_i symbol todo htodo
    have htail : Watching { w with todo } :=
      ⟨h.watched, fun _ s hs => h.tasks hrun s (htodo ▸ List.mem_cons_of_mem _ hs)⟩
    unfold subscribe
    split
    · exact htail
    · cases outcome with
      | sendFails => exact htail
      | snapshotFails => exact ⟨htail.watched, htail.tasks⟩
      | returns =>
        refine ⟨fun _ s hs => ?_, htail.tasks⟩
        exact ⟨PySet.mem_add.mpr (Or.inl (h.watched hrun s hs).1), (h.watched hrun s hs).2⟩
  · rename_i symbol todo htodo
    have htail : Watching { w with todo } :=
      ⟨h.watched, fun _ s hs => h.tasks hrun s (htodo ▸ List.mem_cons_of_mem _ hs)⟩
    have hgone : symbol ∉ w.«universe».subscribed := h.tasks hrun symbol (htodo ▸ List.mem_cons_self)
    have hremoved : Watching { w with
        todo, wsSubscribed := w.wsSubscribed.discard symbol, symbols := w.symbols.discard symbol } := by
      refine ⟨fun _ s hs => ?_, htail.tasks⟩
      obtain ⟨hin, hsub⟩ := h.watched hrun s hs
      exact ⟨PySet.mem_discard.mpr ⟨hin, fun he => hgone (he ▸ hsub)⟩, hsub⟩
    unfold unsubscribe
    split
    · exact htail
    · cases outcome with
      | sendFails => exact htail
      | snapshotFails => exact hremoved
      | returns => exact hremoved

theorem Watching.step (h : Watching w) (e : Event) (hok : KeepsWatch env cfg w e) :
    Watching (step env cfg w e) := by
  cases e with
  | start symbols =>
    show Watching (if w.running then w else Rotation.startup env cfg symbols w)
    by_cases hrun : w.running = true
    · rw [if_pos hrun]
      exact h
    · rw [if_neg hrun]
      exact .startup (hok (Bool.eq_false_iff.mpr hrun))
  | live l =>
    show Watching (if w.running then liveStep env cfg w l else w)
    by_cases hrun : w.running = true
    · rw [if_pos hrun]
      cases l with
      | scan ranked => exact ⟨h.watched, h.tasks⟩
      | rotate nowMs => exact h.rotate hrun (hok hrun)
      | task outcome => exact h.task outcome hrun
      | wsStops => exact ⟨h.watched, h.tasks⟩
      | beginRound => exact ⟨h.watched, h.tasks⟩
      | visit symbol direction price tsMs monoMs =>
        show Watching (visit env symbol direction price tsMs monoMs w)
        unfold visit
        split
        · rename_i hvisiting
          refine ⟨fun _ k hk => ?_, h.tasks⟩
          rcases Paper.mem_keys_onEntry.mp hk with hold | ⟨rfl, hopens⟩
          · exact h.watched hrun k hold
          · exact hok hrun hvisiting hopens
        · exact h
      | feed f =>
        show Watching (feed env f w)
        unfold feed
        split
        · exact h.of_subset (Paper.feed_moves env w.paper f).keys_subset
        · exact h
      | finalize nowMs lastPrices =>
        exact h.of_subset (Paper.finalize_moves env nowMs lastPrices w.paper).keys_subset
      | kill => exact ⟨fun hrun' => Bool.noConfusion hrun', fun hrun' => Bool.noConfusion hrun'⟩
    · rw [if_neg hrun]
      exact h

/-- Every other step leaves a position unwatched. -/
theorem not_watched_of_not_keepsWatch (h : Watching w) (e : Event) (hbad : ¬KeepsWatch env cfg w e) :
    ¬Watched (step env cfg w e) := by
  intro hwatched
  cases e with
  | start symbols =>
    unfold KeepsWatch at hbad
    push Not at hbad
    obtain ⟨hdown, hread, r, hr, huncovered⟩ := hbad
    have hstep : step env cfg w (.start symbols) = startup env cfg symbols w :=
      if_neg (Bool.eq_false_iff.mp hdown)
    rw [hstep] at hwatched
    obtain ⟨hin, hsub⟩ := hwatched rfl r.symbol (Paper.mem_keys_restart.mpr ⟨hread, r, hr, rfl⟩)
    exact (mem_startup_subscribed.mp hsub).2 (huncovered (PySet.mem_ofList.mp hin))
  | live l =>
    cases l with
    | rotate nowMs =>
      unfold KeepsWatch at hbad
      push Not at hbad
      obtain ⟨hrun, htodo, scan, hscan, symbol, hsym, hdue⟩ := hbad
      have hstep : step env cfg w (.live (.rotate nowMs)) = rotateUniverse cfg nowMs w := if_pos hrun
      rw [hstep] at hwatched
      rcases rotateUniverse_cases cfg nowMs w with ⟨-, hnone⟩ | ⟨scan', decision, u, -, hscan', hap, heq⟩
      · rw [hnone htodo] at hscan
        cases hscan
      · rw [hscan] at hscan'
        cases hscan'
        rw [heq] at hwatched
        have hsub := (hwatched hrun symbol hsym).2
        exact (mem_subscribed_applyScan hap (h.watched hrun symbol hsym).2).mp hsub hdue
    | visit symbol direction price tsMs monoMs =>
      unfold KeepsWatch at hbad
      push Not at hbad
      obtain ⟨hrun, hvisiting, hopens, hleft⟩ := hbad
      have hstep : step env cfg w (.live (.visit symbol direction price tsMs monoMs)) =
          visit env symbol direction price tsMs monoMs w := if_pos hrun
      rw [hstep, visit, if_pos hvisiting] at hwatched
      obtain ⟨hin, hsub⟩ := hwatched hrun symbol (Paper.mem_keys_onEntry.mpr (Or.inr ⟨rfl, hopens⟩))
      exact hleft hin hsub
    | _ => exact hbad trivial

/-- **Open positions are watched in every state of a run exactly when each of its steps keeps the watch**, and
in a watched state the bars of a symbol with a position reach `on_ohlcv`. -/
theorem watched_iff_keepsWatch (env : Env) (cfg : Config) (events : List Event) :
    (Always Watched (step env cfg) (fresh env) events ↔
        Guarded (KeepsWatch env cfg) (step env cfg) (fresh env) events) ∧
      ∀ (w : World) (sample : Paper.OhlcvSample) (monoMs : ℤ), Watched w → w.running = true →
        sample.symbol ∈ w.paper.mem.positions.keys →
          step env cfg w (.live (.feed (.ohlcv sample monoMs))) =
            { w with paper := Paper.onOhlcv env sample monoMs w.paper } := by
  refine ⟨?_, fun w sample monoMs hw hrun hsym => ?_⟩
  · rw [always_iff_guarded (Watching.fresh env).watched]
    exact guarded_iff_guarded (.fresh env) (fun w e _ h hok => ⟨h.step e hok, (h.step e hok).watched⟩)
      fun w e _ h hbad => not_watched_of_not_keepsWatch h e hbad
  · have haccepts : accepts w (.ohlcv sample monoMs) = true := decide_eq_true (hw hrun sample.symbol hsym).1
    show (if w.running then feed env (.ohlcv sample monoMs) w else w) = _
    rw [if_pos hrun, feed, if_pos haccepts]
    rfl

/-! ## A symbol that leaves with its position open -/

/-- `ETH_USDT` is in the top five, and subscribed after the hysteresis. -/
def joins : List Event :=
  [.start ["BTC_USDT"], .live (.scan ["ETH_USDT", "SOL_USDT"]), .live (.rotate 1), .live (.rotate 300001),
    .live (.task .returns), .live (.task .returns)]

/-- Sixteen bars, enough for the default ATR, and an entry. -/
def enters : List Event :=
  ((List.range 16).map fun k => .live (.feed (.ohlcv ⟨"ETH_USDT", 5 * k, 5000 * k, 100, 101, 99, 100⟩ 0))) ++
    [.live .beginRound, .live (.visit "ETH_USDT" .LONG 100 80000 0)]

/-- It leaves the top five, and the service when the hysteresis is over. -/
def leaves : List Event :=
  [.live (.scan ["SOL_USDT"]), .live (.rotate 600001), .live (.rotate 900001)]

theorem not_watched_leaves :
    ¬Always Watched (step ⟨{}, fun _ _ => false, fun _ => 0⟩ {}) (fresh ⟨{}, fun _ _ => false, fun _ => 0⟩)
      (joins ++ enters ++ leaves) := by
  intro h
  have hlast := h.last
  revert hlast
  unfold Watched
  decide +kernel

end MikoV2.Rotation
