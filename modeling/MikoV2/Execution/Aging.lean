import MikoV2.Execution.Fifo

/-!
# How the pacer ages an entry

`pop` writes the priority it works out for an entry back as the priority the entry came with, and takes the full
age off again the next time the entry comes up.

* `aged` : the priority of a class after a number of full seconds;
* `AgedOnce` : an iteration works out that priority, from the class under which the entry was accepted;
* `NotYetRaised` : the entry has the priority under which it was accepted, or has been in the heap for as many
  seconds as would take that priority to 0;
* `agedOnce_iff_notYetRaised` : the runs in which an entry ages once are those in which no entry that was raised
  comes up again too young.
-/

namespace MikoV2.Execution

variable {Payload : Type}

/-- The priority of an entry of class `prio` that has been in the heap for `seconds` full seconds. -/
def aged (prio seconds : ℤ) : ℤ := max 0 (min 2 (prio - seconds))

theorem Pacer.effective_eq (item : PacerItem Payload) (time : ℚ) :
    Pacer.effective item time = aged item.basePrio (Pacer.ageBonus item time) := rfl

theorem Pacer.ageBonus_nonneg (item : PacerItem Payload) (time : ℚ) : 0 ≤ Pacer.ageBonus item time :=
  le_max_left _ _

/-- Taking the age off a smaller priority gives the same only if nothing is left of the greater one. -/
theorem aged_eq_iff {base prio seconds : ℤ} (h0 : 0 ≤ base) (hle : base ≤ prio) (h2 : prio ≤ 2) (hs : 0 ≤ seconds) :
    aged base seconds = aged prio seconds ↔ base = prio ∨ prio ≤ seconds := by
  unfold aged
  omega

namespace PopWorld

/-- An iteration of a call works with the priority that the class and the age of the entry give, and hands the
entry out under no better one. -/
def AgedOnce (cfg : PacerConfig) (w : PopWorld Payload) : PopEvent Payload → Prop
  | .turn call time mono => call ∈ w.looping →
    ∀ item rest prio, w.pacer.heap.pop = some (item, rest) → w.classOf item.seq = some prio →
      Pacer.effective item time = aged prio (Pacer.ageBonus item time) ∧
        ((w.pacer.turn cfg time mono).1 = .got item → max 0 (prio - Pacer.ageBonus item time) ≤ item.basePrio)
  | _ => True

/-- The entry that comes up was not raised before, or is old enough to be at 0 anyway. -/
def NotYetRaised (w : PopWorld Payload) : PopEvent Payload → Prop
  | .turn call time _ => call ∈ w.looping →
    ∀ item rest prio, w.pacer.heap.pop = some (item, rest) → w.classOf item.seq = some prio →
      item.basePrio = prio ∨ prio ≤ Pacer.ageBonus item time
  | _ => True

section Steps
variable {cfg : PacerConfig} {w : PopWorld Payload}

/-- Every accepted priority is 0, 1 or 2. -/
def Classes (w : PopWorld Payload) : Prop := ∀ e ∈ w.accepted, 0 ≤ e.1 ∧ e.1 ≤ 2

theorem classes_step (h : Classes w) (e : PopEvent Payload) : Classes (popStep cfg w e) := by
  cases e with
  | pop | cancel call => exact h
  | enqueue basePrio payload time =>
    simp only [popStep]
    split
    · exact h
    rename_i pacer henq
    obtain ⟨hprio, -⟩ := Pacer.enqueue_ok henq
    intro e he
    rcases List.mem_append.mp he with hold | hnew
    · exact h e hold
    · rw [List.mem_singleton.mp hnew]
      exact hprio
  | turn call time mono =>
    simp only [popStep]
    split
    · split <;> exact h
    · exact h

theorem Classes.classOf (h : Classes w) {seq : ℕ} {prio : ℤ} (hprio : w.classOf seq = some prio) :
    0 ≤ prio ∧ prio ≤ 2 := by
  obtain ⟨e, he, rfl⟩ := Option.map_eq_some_iff.mp hprio
  exact h e (List.mem_of_getElem? he)

/-- What is known of the entries along a run. -/
structure Ranked (w : PopWorld Payload) : Prop where
  faithful : Faithful w
  known : Known w
  classes : Classes w

theorem ranked_fresh : Ranked (fresh : PopWorld Payload) where
  faithful := faithful_fresh
  known := by intro item hitem; cases hitem
  classes := by intro e he; cases he

theorem ranked_step (h : Ranked w) (e : PopEvent Payload) : Ranked (popStep cfg w e) :=
  ⟨faithful_step h.faithful e, known_step h.known e, classes_step h.classes e⟩

theorem ranked (cfg : PacerConfig) (events : List (PopEvent Payload)) : Ranked (Runs.run (popStep cfg) fresh events) :=
  Runs.invariant ranked_fresh (fun _ e h => ranked_step h e) events

/-- The entry that comes up was accepted under a priority at least as great as the one it has now. -/
theorem Ranked.upnext (h : Ranked w) {item : PacerItem Payload} {rest : MinQueue PacerItem.le} {prio : ℤ}
    (hpop : w.pacer.heap.pop = some (item, rest)) (hcls : w.classOf item.seq = some prio) :
    0 ≤ item.basePrio ∧ item.basePrio ≤ prio ∧ prio ≤ 2 := by
  obtain ⟨hitems, -⟩ := MinQueue.pop_some hpop
  have hmem : item ∈ w.pacer.heap.items := hitems ▸ List.mem_cons_self
  obtain ⟨prio', hprio', hle⟩ := entered_class (h.faithful.entered item hmem)
  have heq : prio' = prio := Option.some.inj (hprio'.symm.trans hcls)
  refine ⟨(h.known item hmem).1, ?_, (h.classes.classOf hcls).2⟩
  omega

theorem agedOnce_iff (h : Ranked w) (e : PopEvent Payload) : AgedOnce cfg w e ↔ NotYetRaised w e := by
  cases e with
  | pop | cancel call | enqueue basePrio payload time => exact Iff.rfl
  | turn call time mono =>
    simp only [AgedOnce, NotYetRaised]
    refine forall_congr' fun _ => forall_congr' fun item => forall_congr' fun rest => forall_congr' fun prio =>
      forall_congr' fun hpop => forall_congr' fun hcls => ?_
    obtain ⟨h0, hle, h2⟩ := h.upnext hpop hcls
    have hiff := aged_eq_iff h0 hle h2 (Pacer.ageBonus_nonneg item time)
    rw [← Pacer.effective_eq] at hiff
    rw [← hiff]
    constructor
    · exact fun hboth => hboth.1
    · intro heff
      refine ⟨heff, fun hgot => ?_⟩
      have hraised := hiff.mp heff
      have hage := Pacer.ageBonus_nonneg item time
      omega

end Steps

/-- **An entry ages once** in exactly the runs in which no entry that was raised comes up again before it is old
enough to be at 0, for any calls in any interleaving and any readings of the clocks. -/
theorem agedOnce_iff_notYetRaised (cfg : PacerConfig) (events : List (PopEvent Payload)) :
    Runs.Guarded (AgedOnce cfg) (popStep cfg) fresh events ↔ Runs.Guarded NotYetRaised (popStep cfg) fresh events :=
  Runs.guarded_iff_guarded (I := Ranked) ranked_fresh
    (fun _ e _ h hok => ⟨ranked_step h e, (agedOnce_iff h e).mpr hok⟩)
    fun _ e _ h hno honce => hno ((agedOnce_iff h e).mp honce)

/-- A REBUILD entry that is one second old comes up three times in one `pop`: as 2, as 1 and as 0. -/
def raisedTwice : List (PopEvent String) := [.enqueue 2 "rebuild" 0, .pop, .turn 0 1 1, .turn 0 1 1]

theorem not_agedOnce_raisedTwice : ¬ ∀ events : List (PopEvent String),
    Runs.Guarded (AgedOnce {}) (popStep {}) fresh events := by
  intro hall
  have hturn := hall raisedTwice [.enqueue 2 "rebuild" 0, .pop, .turn 0 1 1] (.turn 0 1 1) (List.prefix_refl _)
    (by decide +kernel) ⟨1, 0, 0, "rebuild"⟩ MinQueue.empty 2
    (MinQueue.pop_of_items (by decide +kernel)) (by decide +kernel)
  exact absurd hturn.1 (by decide +kernel)

end PopWorld

end MikoV2.Execution
