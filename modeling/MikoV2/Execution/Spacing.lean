import MikoV2.Execution.Aging

/-!
# The clocks of the pacer

`_last_dispatch` holds a clock for each priority. `pop` sets and reads the one of the priority that the entry has
by then, which ageing may have changed since it was accepted.

* `Dispatches`, `dispatchStep` : the calls, with a record of what was handed out and when;
* `dispatch_cases` : what one step does to the record and the clocks;
* `Spaced` : entries of one priority that were not raised leave at least the delay apart, `spaced` : in every run;
* `Latest` : a clock holds when an entry of its priority left last, `OwnClock` : the steps that keep it so;
* `latest_spaced_iff_ownClock` : the runs in which the clocks say when an entry of their priority left last.
-/

namespace MikoV2.Execution

variable {Payload : Type}

namespace Pacer

/-- The entry comes up, is not raised any further, and is late enough for the clock of its priority. -/
def Due (cfg : PacerConfig) (p : Pacer Payload) (item : PacerItem Payload) (time mono : ℚ) : Prop :=
  (∃ rest, p.heap.pop = some (item, rest)) ∧ item.basePrio ≤ effective item time ∧
    minDelay cfg (effective item time) ≤ mono - p.lastDispatch item.basePrio

/-- An iteration hands out the entry that is due, and only then touches a clock. -/
theorem turn_due (cfg : PacerConfig) (p : Pacer Payload) (time mono : ℚ) :
    (∃ item rest, p.Due cfg item time mono ∧ p.turn cfg time mono = (.got item, { p with
        heap := rest, lastDispatch := Function.update p.lastDispatch item.basePrio mono })) ∨
      ((∀ item, ¬ p.Due cfg item time mono) ∧ (∀ item, (p.turn cfg time mono).1 ≠ .got item) ∧
        (p.turn cfg time mono).2.lastDispatch = p.lastDispatch) := by
  unfold turn Due
  cases hpop : p.heap.pop with
  | none => exact Or.inr ⟨by simp, by simp, rfl⟩
  | some entry =>
    obtain ⟨item, rest⟩ := entry
    have hone : ∀ other : PacerItem Payload, (∃ q, some (item, rest) = some (other, q)) → other = item := by
      rintro other ⟨q, hq⟩
      cases hq
      rfl
    by_cases haged : effective item time < item.basePrio
    · refine Or.inr ⟨?_, by simp [haged], by simp [haged]⟩
      rintro other ⟨hother, hle, -⟩
      rw [hone other hother] at hle
      omega
    · by_cases hgap : 0 < minDelay cfg (effective item time) - (mono - p.lastDispatch item.basePrio)
      · refine Or.inr ⟨?_, by simp [haged, hgap], by simp [haged, hgap]⟩
        rintro other ⟨hother, -, hle⟩
        rw [hone other hother] at hle
        exact absurd (sub_nonpos.mpr hle) (not_le.mpr hgap)
      · refine Or.inl ⟨item, rest, ⟨⟨rest, rfl⟩, not_lt.mp haged, sub_nonpos.mp (not_lt.mp hgap)⟩, ?_⟩
        simp only [if_neg haged, if_neg hgap]

end Pacer

/-- An entry that was handed out. -/
structure Dispatch (Payload : Type) where
  item : PacerItem Payload
  /-- the priority under which it was accepted -/
  enqueued : Option ℤ
  mono : ℚ

structure Dispatches (Payload : Type) where
  world : PopWorld Payload
  /-- what was handed out, in order -/
  log : List (Dispatch Payload)

namespace Dispatches

open PopWorld

def fresh : Dispatches Payload := ⟨PopWorld.fresh, []⟩

/-- What an event hands out. -/
def dispatched (cfg : PacerConfig) (w : PopWorld Payload) : PopEvent Payload → List (Dispatch Payload)
  | .turn call time mono =>
    if call ∈ w.looping then match (w.pacer.turn cfg time mono).1 with
      | .got item => [⟨item, w.classOf item.seq, mono⟩]
      | _ => []
    else []
  | _ => []

def dispatchStep (cfg : PacerConfig) (s : Dispatches Payload) (e : PopEvent Payload) : Dispatches Payload :=
  ⟨popStep cfg s.world e, s.log ++ dispatched cfg s.world e⟩

/-- The readings of `time.monotonic()`. -/
def readings (events : List (PopEvent Payload)) : List ℚ :=
  events.filterMap fun
    | .turn _ _ mono => some mono
    | _ => none

/-- The clock never goes back. -/
def Monotonic (events : List (PopEvent Payload)) : Prop := (readings events).Pairwise (· ≤ ·)

/-- When an entry of priority `prio` left last; 0 before any has. -/
def latest (log : List (Dispatch Payload)) (prio : ℤ) : ℚ :=
  ((log.filter (·.enqueued = some prio)).getLast?.map (·.mono)).getD 0

/-- Each clock says when an entry of its priority left last. -/
def Latest (s : Dispatches Payload) : Prop := ∀ prio, s.world.pacer.lastDispatch prio = latest s.log prio

/-- The entries of one priority that were not raised leave at least the delay of the priority apart. -/
def Spaced (cfg : PacerConfig) (s : Dispatches Payload) : Prop :=
  ∀ prio, (s.log.filter fun d => d.enqueued = some prio ∧ d.item.basePrio = prio).Pairwise fun d d' =>
    Pacer.minDelay cfg prio ≤ d'.mono - d.mono

/-- An entry that is handed out has the priority under which it was accepted, or the clocks of both priorities
read the present already. -/
def OwnClock (cfg : PacerConfig) (s : Dispatches Payload) : PopEvent Payload → Prop
  | .turn call time mono => call ∈ s.world.looping →
    ∀ item prio, s.world.pacer.Due cfg item time mono → s.world.classOf item.seq = some prio →
      item.basePrio = prio ∨
        s.world.pacer.lastDispatch prio = mono ∧ s.world.pacer.lastDispatch item.basePrio = mono
  | _ => True

/-! ## One step -/

section Steps
variable {cfg : PacerConfig} {s : Dispatches Payload}

/-- A step hands out the entry that is due and sets the clock of its priority, or leaves the record and the clocks. -/
theorem dispatch_cases (cfg : PacerConfig) (s : Dispatches Payload) (e : PopEvent Payload) :
    (∃ call time mono item, e = .turn call time mono ∧ call ∈ s.world.looping ∧
        s.world.pacer.Due cfg item time mono ∧
        (dispatchStep cfg s e).log = s.log ++ [⟨item, s.world.classOf item.seq, mono⟩] ∧
        (dispatchStep cfg s e).world.pacer.lastDispatch =
          Function.update s.world.pacer.lastDispatch item.basePrio mono) ∨
      ((∀ call time mono, e = .turn call time mono → call ∈ s.world.looping →
          ∀ item, ¬ s.world.pacer.Due cfg item time mono) ∧
        (dispatchStep cfg s e).log = s.log ∧
        (dispatchStep cfg s e).world.pacer.lastDispatch = s.world.pacer.lastDispatch) := by
  cases e with
  | pop | cancel call => exact Or.inr ⟨by simp, List.append_nil _, rfl⟩
  | enqueue basePrio payload time =>
    refine Or.inr ⟨by simp, List.append_nil _, ?_⟩
    simp only [dispatchStep, popStep]
    split
    · rfl
    · rename_i pacer henq
      obtain ⟨-, rfl⟩ := Pacer.enqueue_ok henq
      rfl
  | turn call time mono =>
    by_cases hcall : call ∈ s.world.looping
    swap
    · refine Or.inr ⟨?_, by simp [dispatchStep, dispatched, hcall], by simp [dispatchStep, popStep, hcall]⟩
      intro call' time' mono' he hcall'
      cases he
      exact absurd hcall' hcall
    rcases Pacer.turn_due cfg s.world.pacer time mono with
      ⟨item, rest, hdue, hturn⟩ | ⟨hnone, hgot, hlast⟩
    · refine Or.inl ⟨call, time, mono, item, rfl, hcall, hdue, ?_, ?_⟩
      · simp only [dispatchStep, dispatched, hcall, if_true, hturn]
      · simp only [dispatchStep, popStep, hcall, if_true, hturn]
    · refine Or.inr ⟨?_, ?_, ?_⟩
      · intro call' time' mono' he _
        cases he
        exact hnone
      · simp only [dispatchStep, dispatched, hcall, if_true]
        exact List.append_nil _
      · simp only [dispatchStep, popStep, hcall, if_true]
        split
        · rfl
        · rename_i pacer hturn
          rw [hturn] at hlast
          exact hlast
        · rename_i item pacer hturn
          rw [hturn] at hgot
          exact absurd rfl (hgot item)

/-- The step of the record is a step of the calls. -/
theorem world_run (events : List (PopEvent Payload)) (s : Dispatches Payload) :
    (Runs.run (dispatchStep cfg) s events).world = Runs.run (popStep cfg) s.world events := by
  induction events generalizing s with
  | nil => rfl
  | cons e events ih => exact ih (dispatchStep cfg s e)

/-! ## The delays -/

/-- What is known of a record: its readings are past ones, no later than the clock of the priority they set, and
entries that were not raised are far enough apart. -/
structure Timed (cfg : PacerConfig) (past : List (PopEvent Payload)) (s : Dispatches Payload) : Prop where
  past : ∀ d ∈ s.log, d.mono ∈ readings past
  set : ∀ d ∈ s.log, d.mono ≤ s.world.pacer.lastDispatch d.item.basePrio
  spaced : Spaced cfg s

theorem readings_append (past : List (PopEvent Payload)) (e : PopEvent Payload) :
    readings (past ++ [e]) = readings past ++ readings [e] := List.filterMap_append

/-- An entry that is due without being raised is dispatched for the priority it has. -/
theorem effective_of_due (hknown : Known s.world) {item : PacerItem Payload} {time mono : ℚ}
    (hdue : s.world.pacer.Due cfg item time mono) : Pacer.effective item time = item.basePrio := by
  obtain ⟨⟨rest, hpop⟩, hle, -⟩ := hdue
  obtain ⟨hitems, -⟩ := MinQueue.pop_some hpop
  obtain ⟨h0, h2⟩ := hknown item (hitems ▸ List.mem_cons_self)
  have hage := Pacer.ageBonus_nonneg item time
  rw [Pacer.effective_eq] at hle ⊢
  unfold aged at hle ⊢
  omega

/-- The present is no earlier than what is in the record. -/
theorem Timed.le_now {past : List (PopEvent Payload)} (h : Timed cfg past s) {call : ℕ} {time mono : ℚ}
    (hclock : Monotonic (past ++ [.turn call time mono])) {d : Dispatch Payload} (hd : d ∈ s.log) : d.mono ≤ mono := by
  unfold Monotonic at hclock
  rw [readings_append] at hclock
  exact (List.pairwise_append.mp hclock).2.2 _ (h.past d hd) mono List.mem_cons_self

theorem timed_step {past : List (PopEvent Payload)} {e : PopEvent Payload} (hknown : Known s.world)
    (hclock : Monotonic (past ++ [e])) (h : Timed cfg past s) : Timed cfg (past ++ [e]) (dispatchStep cfg s e) := by
  have hpast : ∀ d ∈ s.log, d.mono ∈ readings (past ++ [e]) := fun d hd => by
    rw [readings_append]
    exact List.mem_append_left _ (h.past d hd)
  rcases dispatch_cases cfg s e with ⟨call, time, mono, item, rfl, -, hdue, hlog, hlast⟩ | ⟨-, hlog, hlast⟩
  · refine ⟨?_, ?_, ?_⟩
    · intro d hd
      rw [hlog] at hd
      rcases List.mem_append.mp hd with hold | hnew
      · exact hpast d hold
      · rw [List.mem_singleton.mp hnew, readings_append]
        exact List.mem_append_right _ List.mem_cons_self
    · intro d hd
      rw [hlog] at hd
      rw [hlast]
      rcases List.mem_append.mp hd with hold | hnew
      · rcases eq_or_ne d.item.basePrio item.basePrio with heq | hne
        · rw [heq, Function.update_self]
          exact h.le_now hclock hold
        · rw [Function.update_of_ne hne]
          exact h.set d hold
      · rw [List.mem_singleton.mp hnew]
        simp
    · intro prio
      rw [hlog, List.filter_append]
      refine List.pairwise_append.mpr
        ⟨h.spaced prio, (List.pairwise_singleton _ _).sublist List.filter_sublist, ?_⟩
      intro d hd d' hd'
      obtain ⟨hmem, hown⟩ := List.mem_filter.mp hd
      obtain ⟨hmem', hown'⟩ := List.mem_filter.mp hd'
      rw [List.mem_singleton.mp hmem'] at hown' ⊢
      simp only [decide_eq_true_eq] at hown hown'
      -- the clock of the priority is no earlier than the older of the two
      have hgap := hdue.2.2
      have hset := h.set d hmem
      rw [effective_of_due hknown hdue, hown'.2] at hgap
      rw [hown.2] at hset
      exact hgap.trans (sub_le_sub_left hset mono)
  · refine ⟨?_, ?_, ?_⟩
    · rw [hlog]
      exact hpast
    · rw [hlog, hlast]
      exact h.set
    · intro prio
      rw [hlog]
      exact h.spaced prio

/-! ## The clocks -/

theorem latest_append (log : List (Dispatch Payload)) (d : Dispatch Payload) (prio : ℤ) :
    latest (log ++ [d]) prio = if d.enqueued = some prio then d.mono else latest log prio := by
  unfold latest
  rw [List.filter_append]
  split
  · rename_i hprio
    simp [hprio]
  · rename_i hprio
    simp [hprio]

/-- An entry that is due was accepted. -/
theorem due_classOf (h : Faithful s.world) {item : PacerItem Payload} {time mono : ℚ}
    (hdue : s.world.pacer.Due cfg item time mono) : ∃ prio, s.world.classOf item.seq = some prio := by
  obtain ⟨⟨rest, hpop⟩, -⟩ := hdue
  obtain ⟨hitems, -⟩ := MinQueue.pop_some hpop
  obtain ⟨prio, hprio, -⟩ := entered_class (h.entered item (hitems ▸ List.mem_cons_self))
  exact ⟨prio, hprio⟩

/-- A clock is set for one priority and another was meant. -/
theorem update_eq_ite_iff {clock : ℤ → ℚ} {base prio : ℤ} {mono : ℚ} :
    (∀ p, Function.update clock base mono p = if prio = p then mono else clock p) ↔
      base = prio ∨ clock prio = mono ∧ clock base = mono := by
  constructor
  · intro hall
    by_cases heq : base = prio
    · exact Or.inl heq
    · have hclass := hall prio
      have hbase := hall base
      rw [Function.update_of_ne (Ne.symm heq), if_pos rfl] at hclass
      rw [Function.update_self, if_neg (Ne.symm heq)] at hbase
      exact Or.inr ⟨hclass, hbase.symm⟩
  · rintro (rfl | ⟨hclass, hbase⟩) p
    · by_cases hp : base = p
      · rw [if_pos hp, ← hp, Function.update_self]
      · rw [if_neg hp, Function.update_of_ne (Ne.symm hp)]
    · by_cases hp : p = base
      · rw [hp, Function.update_self, hbase, ite_self]
      · rw [Function.update_of_ne hp]
        split
        · rename_i hp'
          rw [← hp', hclass]
        · rfl

theorem latest_step_iff (hfaithful : Faithful s.world) (h : Latest s) (e : PopEvent Payload) :
    Latest (dispatchStep cfg s e) ↔ OwnClock cfg s e := by
  rcases dispatch_cases cfg s e with ⟨call, time, mono, item, rfl, hcall, hdue, hlog, hlast⟩ | ⟨hnone, hlog, hlast⟩
  · obtain ⟨prio, hprio⟩ := due_classOf hfaithful hdue
    have hone : ∀ other, s.world.pacer.Due cfg other time mono → other = item := by
      rintro other ⟨⟨rest, hrest⟩, -⟩
      obtain ⟨⟨rest', hrest'⟩, -⟩ := hdue
      rw [hrest] at hrest'
      exact congrArg Prod.fst (Option.some.inj hrest')
    have hstep : Latest (dispatchStep cfg s (.turn call time mono)) ↔
        ∀ p, Function.update s.world.pacer.lastDispatch item.basePrio mono p =
          if prio = p then mono else s.world.pacer.lastDispatch p := by
      unfold Latest
      rw [hlog, hlast, hprio]
      refine forall_congr' fun p => ?_
      rw [latest_append, ← h p]
      simp only [Option.some.injEq]
    rw [hstep, update_eq_ite_iff]
    constructor
    · intro hown _ other prio' hother hprio'
      rw [hone other hother] at hprio' ⊢
      rw [hprio] at hprio'
      exact Option.some.inj hprio' ▸ hown
    · exact fun hown => hown hcall item prio hdue hprio
  · have hsame : Latest (dispatchStep cfg s e) := by
      unfold Latest
      rw [hlog, hlast]
      exact h
    refine ⟨fun _ => ?_, fun _ => hsame⟩
    cases e with
    | pop | cancel call | enqueue basePrio payload time => trivial
    | turn call time mono => exact fun hcall item prio hdue _ => absurd hdue (hnone call time mono rfl hcall item)

end Steps

theorem ranked_run (cfg : PacerConfig) (events : List (PopEvent Payload)) :
    Ranked (Runs.run (dispatchStep cfg) fresh events).world := by
  rw [world_run]
  exact ranked cfg events

theorem timed (cfg : PacerConfig) (events : List (PopEvent Payload)) (hclock : Monotonic events) :
    Timed cfg events (Runs.run (dispatchStep cfg) fresh events) := by
  have hfresh : Timed cfg [] (fresh : Dispatches Payload) :=
    ⟨fun _ hd => absurd hd List.not_mem_nil, fun _ hd => absurd hd List.not_mem_nil, fun _ => List.Pairwise.nil⟩
  refine Runs.history_invariant (J := fun past s => Monotonic past → Timed cfg past s) (fun _ => hfresh) ?_
    events hclock
  intro past e ih hmono
  have hold : Monotonic past := by
    unfold Monotonic at hmono
    rw [readings_append] at hmono
    exact (List.pairwise_append.mp hmono).1
  exact timed_step (ranked_run cfg past).known hmono (ih hold)

/-- **The clocks and the delays.** With a clock that never goes back, entries that were not raised always leave the
delay of their priority apart; the clocks say when an entry of their priority left last in exactly the runs in
which no entry leaves under another priority than its own. -/
theorem latest_spaced_iff_ownClock (cfg : PacerConfig) (events : List (PopEvent Payload))
    (hclock : Monotonic events) :
    Runs.Always (fun s => Latest s ∧ Spaced cfg s) (dispatchStep cfg) fresh events ↔
      Runs.Guarded (OwnClock cfg) (dispatchStep cfg) fresh events := by
  have hfresh : Latest (fresh : Dispatches Payload) := fun prio => rfl
  have hspaced : Runs.Always (Spaced cfg) (dispatchStep cfg) fresh events := by
    intro pre hpre
    obtain ⟨rest, rfl⟩ := hpre
    unfold Monotonic readings at hclock
    rw [List.filterMap_append] at hclock
    exact (timed cfg pre (List.pairwise_append.mp hclock).1).spaced
  have hlatest : Runs.Always Latest (dispatchStep cfg) fresh events ↔
      Runs.Guarded (OwnClock cfg) (dispatchStep cfg) (fresh : Dispatches Payload) events := by
    rw [Runs.always_iff_guarded hfresh]
    refine Runs.guarded_iff_guarded (I := fun s => Ranked s.world ∧ Latest s) ⟨ranked_fresh, hfresh⟩ ?_ ?_
    · intro s e _ h hok
      have hstep := (latest_step_iff h.1.faithful h.2 e).mpr hok
      exact ⟨⟨ranked_step h.1 e, hstep⟩, hstep⟩
    · intro s e _ h hno hstep
      exact hno ((latest_step_iff h.1.faithful h.2 e).mp hstep)
  rw [← hlatest]
  exact ⟨fun h => h.mono fun _ hboth => hboth.1, fun h pre hpre => ⟨h pre hpre, hspaced pre hpre⟩⟩

/-- A NORMAL entry that leaves under its own priority. -/
theorem latest_spaced_normal :
    Monotonic [PopEvent.enqueue 1 "normal" 5, .pop, .turn 0 5 5] ∧
      (Runs.Always (fun s => Latest s ∧ Spaced {} s) (dispatchStep {}) fresh
          [PopEvent.enqueue 1 "normal" 5, .pop, .turn 0 5 5] ↔
        Runs.Guarded (OwnClock {}) (dispatchStep {}) fresh [PopEvent.enqueue 1 "normal" 5, .pop, .turn 0 5 5]) :=
  have hclock : Monotonic [PopEvent.enqueue 1 "normal" 5, .pop, .turn 0 5 5] := List.pairwise_singleton _ _
  ⟨hclock, latest_spaced_iff_ownClock {} _ hclock⟩

/-- A NORMAL entry that is one second old leaves as CRITICAL: the NORMAL clock stays where it was. -/
def leftRaised : List (PopEvent String) := [.enqueue 1 "normal" 0, .pop, .turn 0 1 1, .turn 0 1 1]

theorem not_latest_leftRaised : ¬ ∀ events : List (PopEvent String), Monotonic events →
    Runs.Always (fun s => Latest s ∧ Spaced {} s) (dispatchStep {}) fresh events := by
  intro hall
  have hclock : Monotonic leftRaised := by
    unfold Monotonic readings
    decide +kernel
  have hnormal := (hall leftRaised hclock).last.1 1
  exact absurd hnormal (by decide +kernel)

end Dispatches

end MikoV2.Execution
