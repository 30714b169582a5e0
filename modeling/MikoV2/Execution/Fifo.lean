import MikoV2.Execution.Pacer
import MikoV2.Lib.Runs

/-!
# The pacer is a queue of queues

Any number of `pop` calls loop over `turn` while `enqueue` calls come in between; the clocks read anything.

* `PopWorld`, `popStep` : the pacer, the calls that loop, and a record of what was accepted and returned;
* `Faithful` : what is known of every entry, `faithful_step` : each step keeps it;
* `known` : no priority in the heap is missing in the tables that `pop` reads;
* `lossless_fifo` : an accepted entry is in the heap or was returned by one call, and each class comes out in
  the order in which it came in.
-/

namespace MikoV2.Execution

variable {Payload : Type}

structure PopWorld (Payload : Type) where
  pacer : Pacer Payload
  /-- the priority and the payload of each accepted `enqueue`, in order -/
  accepted : List (ℤ × Payload)
  /-- the number of `pop` calls so far -/
  pops : ℕ
  /-- the calls that have not returned -/
  looping : List ℕ
  /-- what the calls returned, in order -/
  returned : List (ℕ × PacerItem Payload)

inductive PopEvent (Payload : Type) where
  | enqueue (basePrio : ℤ) (payload : Payload) (time : ℚ)
  | pop
  /-- one iteration of a call -/
  | turn (call : ℕ) (time mono : ℚ)
  /-- the task of a call is cancelled while it sleeps -/
  | cancel (call : ℕ)

namespace PopWorld

def fresh : PopWorld Payload := ⟨Pacer.empty, [], 0, [], []⟩

def popStep (cfg : PacerConfig) (w : PopWorld Payload) : PopEvent Payload → PopWorld Payload
  | .enqueue basePrio payload time => match w.pacer.enqueue cfg basePrio payload time with
    | .error _ => w
    | .ok pacer => { w with pacer := pacer, accepted := w.accepted ++ [(basePrio, payload)] }
  | .pop => { w with pops := w.pops + 1, looping := w.looping ++ [w.pops] }
  | .turn call time mono =>
    if call ∈ w.looping then match w.pacer.turn cfg time mono with
      | (.drained, _) => { w with looping := w.looping.erase call }
      | (.wait, pacer) => { w with pacer := pacer }
      | (.got item, pacer) => { w with
          pacer := pacer, looping := w.looping.erase call, returned := w.returned ++ [(call, item)] }
    else w
  | .cancel call => { w with looping := w.looping.erase call }

/-- The priority under which the entry with number `seq` was accepted. -/
def classOf (w : PopWorld Payload) (seq : ℕ) : Option ℤ := w.accepted[seq]?.map Prod.fst

/-- The entries of one priority, in the order in which they were accepted. -/
def acceptedOf (w : PopWorld Payload) (prio : ℤ) : List ℕ :=
  (List.range w.accepted.length).filter (w.classOf · = some prio)

/-- The entries of one priority, in the order in which they were returned. -/
def returnedOf (w : PopWorld Payload) (prio : ℤ) : List ℕ :=
  (w.returned.map (·.2.seq)).filter (w.classOf · = some prio)

/-- Nothing lost, nothing twice, each class in order. -/
structure LosslessFifo (w : PopWorld Payload) : Prop where
  /-- each accepted entry is in the heap or was returned, once -/
  kept : (w.pacer.heap.items.map (·.seq) ++ w.returned.map (·.2.seq)).Perm (List.range w.accepted.length)
  /-- under its own payload -/
  payloads : ∀ item ∈ w.pacer.heap.items ++ w.returned.map (·.2),
    w.accepted[item.seq]?.map Prod.snd = some item.payload
  /-- by one call -/
  once : (w.returned.map (·.1)).Nodup
  fifo : ∀ prio, w.returnedOf prio <+: w.acceptedOf prio

/-! ## The invariant -/

/-- The entry was accepted under its payload, and under no smaller priority than it has now. -/
def Entered (accepted : List (ℤ × Payload)) (item : PacerItem Payload) : Prop :=
  ∃ prio, accepted[item.seq]? = some (prio, item.payload) ∧ item.basePrio ≤ prio

structure Faithful (w : PopWorld Payload) : Prop where
  count : w.pacer.seq = w.accepted.length
  entered : ∀ item ∈ w.pacer.heap.items, Entered w.accepted item
  paid : ∀ r ∈ w.returned, Entered w.accepted r.2
  byAge : ByAge PacerItem.le (fun item => w.classOf item.seq) (·.seq) w.pacer.heap.items
  classes : ClassFifo w.classOf w.accepted.length (w.pacer.heap.items.map (·.seq)) (w.returned.map (·.2.seq))
  calls : (w.looping ++ w.returned.map (·.1)).Nodup
  bounded : ∀ call ∈ w.looping ++ w.returned.map (·.1), call < w.pops

theorem Faithful.lossless {w : PopWorld Payload} (h : Faithful w) : LosslessFifo w where
  kept := h.classes.parts
  payloads := by
    intro item hitem
    have hin : Entered w.accepted item := by
      rcases List.mem_append.mp hitem with hheap | hret
      · exact h.entered item hheap
      · obtain ⟨r, hr, rfl⟩ := List.mem_map.mp hret
        exact h.paid r hr
    obtain ⟨prio, hprio, -⟩ := hin
    rw [hprio]
    rfl
  once := (List.nodup_append.mp h.calls).2.1
  fifo := fun prio => h.classes.first (some prio)

theorem faithful_fresh : Faithful (fresh : PopWorld Payload) where
  count := rfl
  entered := by intro item hitem; cases hitem
  paid := by intro r hr; cases hr
  byAge := ByAge.nil
  classes := ClassFifo.nil
  calls := List.nodup_nil
  bounded := by intro call hcall; cases hcall

section Steps
variable {cfg : PacerConfig} {w : PopWorld Payload} {item : PacerItem Payload}

theorem entered_append {accepted : List (ℤ × Payload)} {e : ℤ × Payload} (h : Entered accepted item) :
    Entered (accepted ++ [e]) item := by
  obtain ⟨prio, hprio, hle⟩ := h
  have hlt : item.seq < accepted.length := (List.getElem?_eq_some_iff.mp hprio).choose
  refine ⟨prio, ?_, hle⟩
  rw [List.getElem?_append_left hlt]
  exact hprio

theorem entered_class {accepted : List (ℤ × Payload)} (h : Entered accepted item) :
    ∃ prio, accepted[item.seq]?.map Prod.fst = some prio ∧ item.basePrio ≤ prio := by
  obtain ⟨prio, hprio, hle⟩ := h
  exact ⟨prio, by rw [hprio]; rfl, hle⟩

theorem faithful_enqueue (h : Faithful w) (basePrio : ℤ) (payload : Payload) (time : ℚ) :
    Faithful (popStep cfg w (.enqueue basePrio payload time)) := by
  simp only [popStep]
  split
  · exact h
  rename_i pacer henq
  obtain ⟨-, rfl⟩ := Pacer.enqueue_ok henq
  have hold : ∀ s < w.accepted.length,
      (w.accepted ++ [(basePrio, payload)])[s]?.map Prod.fst = w.classOf s := fun s hs => by
    rw [List.getElem?_append_left hs]
    rfl
  have hnew : (w.accepted ++ [(basePrio, payload)])[w.pacer.seq]? = some (basePrio, payload) := by
    rw [h.count, List.getElem?_concat_length]
  have hlt : ∀ item ∈ w.pacer.heap.items, item.seq < w.accepted.length := fun item hitem =>
    h.classes.inside_lt (List.mem_map_of_mem hitem)
  refine ⟨?_, ?_, fun r hr => entered_append (h.paid r hr), ?_, ?_, h.calls, h.bounded⟩
  · simp [h.count]
  · intro item hitem
    rcases MinQueue.mem_push.mp hitem with rfl | hitem
    · exact ⟨basePrio, hnew, le_refl _⟩
    · exact entered_append (h.entered item hitem)
  · refine ByAge.subset (ByAge.push (h.byAge.congr fun item hitem => hold item.seq (hlt item hitem)) ?_)
      fun item hitem => List.mem_cons.mpr (MinQueue.mem_push.mp hitem)
    intro item hitem hcls
    obtain ⟨prio, hprio, hle⟩ := entered_class (entered_append (e := (basePrio, payload)) (h.entered item hitem))
    have hbase : prio = basePrio := by
      have hsome : some prio = some basePrio := by
        rw [← hprio]
        refine Eq.trans hcls ?_
        show (w.accepted ++ [(basePrio, payload)])[w.pacer.seq]?.map Prod.fst = _
        rw [hnew]
        rfl
      exact Option.some.inj hsome
    have hseq : item.seq < w.pacer.seq := by rw [h.count]; exact hlt item hitem
    refine ⟨hseq, ?_⟩
    unfold PacerItem.le
    simp only
    omega
  · have hstep := h.classes.arrive hold
    have hperm := (MinQueue.push_perm (⟨basePrio, w.pacer.seq, time, payload⟩ : PacerItem Payload) w.pacer.heap).map
      (·.seq)
    simp only [List.map_cons, h.count] at hperm
    have hlen : (w.accepted ++ [(basePrio, payload)]).length = w.accepted.length + 1 := by simp
    show ClassFifo _ _ _ _
    rw [hlen]
    refine ClassFifo.perm hstep ?_
    simpa only [h.count] using hperm

/-- What a turn puts back or hands out is the oldest entry of its class. -/
theorem turn_oldest (h : Faithful w) {rest : MinQueue PacerItem.le} (hpop : w.pacer.heap.pop = some (item, rest)) :
    ∀ b ∈ rest.items, w.classOf b.seq = w.classOf item.seq → item.seq ≤ b.seq := by
  obtain ⟨hitems, hleast⟩ := MinQueue.pop_some hpop
  have hage := h.byAge
  rw [hitems] at hage
  exact hage.oldest hleast fun b _ hib hbi => PacerItem.le_antisymm hib hbi

theorem faithful_wait (h : Faithful w) {rest : MinQueue PacerItem.le} {prio : ℤ}
    (hpop : w.pacer.heap.pop = some (item, rest)) (hprio : prio ≤ item.basePrio) :
    Faithful { w with pacer := { w.pacer with heap := rest.push { item with basePrio := prio } } } := by
  obtain ⟨hitems, -⟩ := MinQueue.pop_some hpop
  refine ⟨h.count, ?_, h.paid, ?_, ?_, h.calls, h.bounded⟩
  · intro b hb
    rcases MinQueue.mem_push.mp hb with rfl | hb
    · obtain ⟨c, hc, hle⟩ := h.entered item (hitems ▸ List.mem_cons_self)
      exact ⟨c, hc, hprio.trans hle⟩
    · exact h.entered b (hitems ▸ List.mem_cons_of_mem item hb)
  · have hage := h.byAge
    rw [hitems] at hage
    have hle : PacerItem.le { item with basePrio := prio } item := by
      unfold PacerItem.le
      simp only
      omega
    have hback : ByAge PacerItem.le (fun item => w.classOf item.seq) (·.seq)
        ({ item with basePrio := prio } :: rest.items) :=
      hage.rekey rfl rfl hle (turn_oldest h hpop)
    exact hback.subset fun b hb => List.mem_cons.mpr (MinQueue.mem_push.mp hb)
  · refine h.classes.perm ?_
    rw [hitems]
    exact (MinQueue.push_perm _ rest).map (·.seq)

theorem faithful_got (h : Faithful w) {rest : MinQueue PacerItem.le} {call : ℕ} (mono : ℚ) (hcall : call ∈ w.looping)
    (hpop : w.pacer.heap.pop = some (item, rest)) :
    Faithful { w with
      pacer := { w.pacer with
        heap := rest, lastDispatch := Function.update w.pacer.lastDispatch item.basePrio mono }
      looping := w.looping.erase call, returned := w.returned ++ [(call, item)] } := by
  obtain ⟨hitems, -⟩ := MinQueue.pop_some hpop
  have hmem : ∀ b ∈ rest.items, b ∈ w.pacer.heap.items := fun b hb => hitems ▸ List.mem_cons_of_mem item hb
  have hperm : (w.looping.erase call ++ (w.returned ++ [(call, item)]).map (·.1)).Perm
      (w.looping ++ w.returned.map (·.1)) := by
    rw [List.map_append, ← List.append_assoc]
    refine (List.perm_append_singleton call _).trans ?_
    exact (List.perm_cons_erase hcall).symm.append_right (w.returned.map (·.1))
  refine ⟨h.count, fun b hb => h.entered b (hmem b hb), ?_, h.byAge.subset hmem, ?_, ?_, ?_⟩
  · intro r hr
    rcases List.mem_append.mp hr with hr | hr
    · exact h.paid r hr
    · rw [List.mem_singleton.mp hr]
      exact h.entered item (hitems ▸ List.mem_cons_self)
  · have hclasses := h.classes
    rw [hitems] at hclasses
    rw [List.map_append]
    refine hclasses.leave fun s hs hcls => ?_
    obtain ⟨b, hb, rfl⟩ := List.mem_map.mp hs
    exact turn_oldest h hpop b hb hcls
  · exact hperm.nodup_iff.mpr h.calls
  · exact fun c hc => h.bounded c (hperm.subset hc)

theorem faithful_erase (h : Faithful w) (call : ℕ) : Faithful { w with looping := w.looping.erase call } :=
  ⟨h.count, h.entered, h.paid, h.byAge, h.classes,
    h.calls.sublist ((List.erase_sublist).append_right _),
    fun c hc => h.bounded c (((List.erase_sublist).append_right _).subset hc)⟩

theorem faithful_step (h : Faithful w) (e : PopEvent Payload) : Faithful (popStep cfg w e) := by
  cases e with
  | enqueue basePrio payload time => exact faithful_enqueue h basePrio payload time
  | pop =>
    have hnew : w.pops ∉ w.looping ++ w.returned.map (·.1) := fun hmem => absurd (h.bounded _ hmem) (lt_irrefl _)
    have hperm : (w.looping ++ [w.pops] ++ w.returned.map (·.1)).Perm
        (w.pops :: (w.looping ++ w.returned.map (·.1))) :=
      (List.perm_append_singleton w.pops w.looping).append_right (w.returned.map (·.1))
    refine ⟨h.count, h.entered, h.paid, h.byAge, h.classes, ?_, ?_⟩
    · exact hperm.nodup_iff.mpr (List.nodup_cons.mpr ⟨hnew, h.calls⟩)
    · intro call hcall
      show call < w.pops + 1
      rcases List.mem_cons.mp (hperm.subset hcall) with rfl | hold
      · omega
      · have := h.bounded call hold
        omega
  | turn call time mono =>
    simp only [popStep]
    split
    · rename_i hcall
      split
      · exact faithful_erase h call
      · rename_i pacer hturn
        rcases Pacer.turn_cases hturn with ⟨ht, -⟩ | ⟨item, rest, hpop, ⟨-, prio, hprio, -, rfl⟩ | ⟨ht, -⟩⟩
        · cases ht
        · exact faithful_wait h hpop hprio
        · cases ht
      · rename_i item pacer hturn
        rcases Pacer.turn_cases hturn with ⟨ht, -⟩ | ⟨item', rest, hpop, ⟨ht, -⟩ | ⟨ht, rfl⟩⟩
        · cases ht
        · cases ht
        · cases ht
          exact faithful_got h mono hcall hpop
    · exact h
  | cancel call => exact faithful_erase h call

/-- Every priority in the heap is a key of `_last_dispatch` and of `_min_delay`, so no look-up raises. -/
def Known (w : PopWorld Payload) : Prop := ∀ item ∈ w.pacer.heap.items, 0 ≤ item.basePrio ∧ item.basePrio ≤ 2

theorem known_step (h : Known w) (e : PopEvent Payload) : Known (popStep cfg w e) := by
  cases e with
  | pop | cancel call => exact h
  | enqueue basePrio payload time =>
    simp only [popStep]
    split
    · exact h
    rename_i pacer henq
    obtain ⟨hprio, rfl⟩ := Pacer.enqueue_ok henq
    intro item hitem
    rcases MinQueue.mem_push.mp hitem with rfl | hold
    · exact hprio
    · exact h item hold
  | turn call time mono =>
    simp only [popStep]
    split
    swap
    · exact h
    split
    · exact h
    · rename_i pacer hturn
      rcases Pacer.turn_cases hturn with ⟨ht, -⟩ | ⟨item, rest, hpop, ⟨-, prio, hle, hprio, rfl⟩ | ⟨ht, -⟩⟩
      · cases ht
      · obtain ⟨hitems, -⟩ := MinQueue.pop_some hpop
        have hitem := h item (hitems ▸ List.mem_cons_self)
        intro b hb
        rcases MinQueue.mem_push.mp hb with rfl | hold
        · show 0 ≤ prio ∧ prio ≤ 2
          omega
        · exact h b (hitems ▸ List.mem_cons_of_mem item hold)
      · cases ht
    · rename_i item pacer hturn
      rcases Pacer.turn_cases hturn with ⟨ht, -⟩ | ⟨item', rest, hpop, ⟨ht, -⟩ | ⟨-, rfl⟩⟩
      · cases ht
      · cases ht
      · obtain ⟨hitems, -⟩ := MinQueue.pop_some hpop
        exact fun b hb => h b (hitems ▸ List.mem_cons_of_mem item' hb)

end Steps

theorem known (cfg : PacerConfig) (events : List (PopEvent Payload)) :
    Known (Runs.run (popStep cfg) fresh events) := by
  have hfresh : Known (fresh : PopWorld Payload) := by
    intro item hitem
    cases hitem
  exact Runs.invariant (I := Known) hfresh (fun _ e h => known_step h e) events

/-- **The pacer loses nothing and keeps each class in order**, for any calls in any interleaving and any
readings of the clocks. -/
theorem lossless_fifo (cfg : PacerConfig) (events : List (PopEvent Payload)) :
    LosslessFifo (Runs.run (popStep cfg) fresh events) :=
  (Runs.invariant faithful_fresh (fun _ e h => faithful_step h e) events).lossless

end PopWorld

end MikoV2.Execution
