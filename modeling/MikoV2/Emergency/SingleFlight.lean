import MikoV2.Emergency.Close
import MikoV2.Execution.FlushController
import MikoV2.Lib.Dict
import MikoV2.Lib.Runs
import MikoV2.Lib.Slots

/-!
# `emergency_close_with_retry`

The calls and the tasks they start or join, on the event loop. A task runs from one `await` to the next, whatever its
call of the exchange or of the database made of it; when it has ended, its callback and the callers that wait for it run
in any order.

* `Body`, `bodyNext` : where `_emergency` is suspended, and where it goes on to;
* `call`, `goOn`, `doneCallback`, `wake` : the steps of the loop; `flightStep` : one of them;
* `SingleFlight` : one task of a symbol, one result for its callers, and the suspension they hold;
* `Sound` : the table of the tasks against the tasks;
* `single_flight` : every order of the steps.
-/

namespace MikoV2.Emergency
open Execution Py

/-- How a task or a call ends. -/
inductive Ending where
  | result (r : CloseResult)
  | exception
  /-- An exception that is no `Exception`, such as `CancelledError`. -/
  | baseException
  deriving DecidableEq

/-- What a call of the exchange or the database makes of the task that awaits it. -/
inductive Reply where
  | answer (a : Answer)
  | baseException
  deriving DecidableEq

/-- Where `_emergency` is. -/
inductive Body where
  | created
  | persisting
  | posting (attempt : ℕ)
  | direct (attempt : ℕ)
  | sleeping (attempt : ℕ)
  | closing (r : CloseResult)
  | ended (e : Ending)
  deriving DecidableEq

/-- It is suspended after its first step. -/
def Body.started : Body → Bool
  | .created => false
  | .ended _ => false
  | _ => true

variable (cfg : EmergencyCloserConfig)

/-- The next round of the retry loop, or its end. -/
def nextRound (attempt : ℕ) : Body :=
  if attempt < cfg.maxRetry + 1 then
    if isDust cfg then .ended (.result .dust) else .posting attempt
  else .ended (.result .failed)

/-- An attempt has a result: leave the loop, or sleep. -/
def afterRound (attempt : ℕ) (r : CloseResult) : Body :=
  if r.Closes then .closing r else if r = .dust then .ended (.result r) else .sleeping attempt

/-- Up to the next `await`; what the database raises is logged. -/
def bodyNext : Body → Reply → Body
  | .ended e, _ => .ended e
  | .created, _ => .persisting
  | _, .baseException => .ended .baseException
  | .persisting, .answer _ => nextRound cfg 0
  | .posting attempt, .answer a =>
    match postResult cfg a with
    | .result r => afterRound attempt r
    | .raises => .ended .exception
    | .postDirect => .direct attempt
  | .direct attempt, .answer a => afterRound attempt (directResult a)
  | .sleeping attempt, .answer _ => nextRound cfg (attempt + 1)
  | .closing r, .answer _ => .ended (.result r)

structure EmergencyTask where
  symbol : String
  body : Body := .created
  /-- The callback has run. -/
  called : Bool := false
  deriving DecidableEq

/-- A call of `emergency_close_with_retry`, and the task it awaits; `joined` when it did not start it. -/
structure CloseCall where
  symbol : String
  task : ℕ
  joined : Bool
  ending : Option Ending := none
  deriving DecidableEq

/-- What a call makes of the end of its task. -/
def CloseCall.receives (c : CloseCall) (e : Ending) : Ending :=
  if c.joined ∧ e = .exception then .result .failed else e

structure Flights where
  flush : FlushController := {}
  tasks : List EmergencyTask := []
  emergencyTasks : Dict String ℕ := .empty
  calls : List CloseCall := []

/-- A caller finds a task and awaits it, which returns at once where the task has ended; or it starts one. -/
def call (w : Flights) (symbol : String) : Flights :=
  match w.emergencyTasks.get? symbol with
  | some id =>
    let c : CloseCall := { symbol, task := id, joined := true }
    match w.tasks[id]?.map EmergencyTask.body with
    | some (.ended e) => { w with calls := w.calls ++ [{ c with ending := some (c.receives e) }] }
    | _ => { w with calls := w.calls ++ [c] }
  | none =>
    { w with
      tasks := w.tasks ++ [{ symbol := symbol }]
      emergencyTasks := w.emergencyTasks.set symbol w.tasks.length
      calls := w.calls ++ [{ symbol, task := w.tasks.length, joined := false }] }

/-- What a body does to the controller on its way to the next `await`: the first step suspends, and the `finally` of a
body that has been entered resumes. -/
def flushNext (f : FlushController) : Body → Body → FlushController
  | .ended _, _ => f
  | .created, _ => f.suspend
  | _, .ended _ => f.resume
  | _, _ => f

/-- A task that is suspended goes on. -/
def goOn (w : Flights) (id : ℕ) (reply : Reply) : Flights :=
  match w.tasks[id]? with
  | none => w
  | some t =>
    let next := bodyNext cfg t.body reply
    { w with tasks := w.tasks.set id { t with body := next }, flush := flushNext w.flush t.body next }

def doneCallback (w : Flights) (id : ℕ) : Flights :=
  match w.tasks[id]? with
  | some { symbol, body := .ended e, called := false } =>
    { w with
      tasks := w.tasks.set id { symbol, body := .ended e, called := true }
      emergencyTasks := w.emergencyTasks.erase symbol }
  | _ => w

/-- A caller goes on where its task has ended. -/
def wake (w : Flights) (i : ℕ) : Flights :=
  match w.calls[i]? with
  | some c =>
    match c.ending, w.tasks[c.task]?.map EmergencyTask.body with
    | none, some (.ended e) => { w with calls := w.calls.set i { c with ending := some (c.receives e) } }
    | _, _ => w
  | none => w

inductive FlightAct where
  | call (symbol : String)
  | goOn (id : ℕ) (reply : Reply)
  | doneCallback (id : ℕ)
  | wake (i : ℕ)

def flightStep (w : Flights) : FlightAct → Flights
  | .call symbol => call w symbol
  | .goOn id reply => goOn cfg w id reply
  | .doneCallback id => doneCallback w id
  | .wake i => wake w i

/-! ## The property -/

/-- The task has not ended. -/
def EmergencyTask.Running (t : EmergencyTask) : Prop := ∀ e, t.body ≠ .ended e

/-- It has entered its body, and has not left it. -/
def EmergencyTask.started (t : EmergencyTask) : Bool := t.body.started

/-- One task of a symbol is running, the calls that have ended had the end of their task, and the counter is the number
of tasks that have started and are running. -/
structure SingleFlight (w : Flights) : Prop where
  oneRunning : ∀ (i j : ℕ) (t u : EmergencyTask), w.tasks[i]? = some t → w.tasks[j]? = some u →
    t.Running → u.Running → t.symbol = u.symbol → i = j
  sameEnd : ∀ c ∈ w.calls, ∃ t, w.tasks[c.task]? = some t ∧ t.symbol = c.symbol ∧
    ∀ received, c.ending = some received → ∃ e, t.body = .ended e ∧ received = c.receives e
  counter : w.flush.counter = (w.tasks.filter EmergencyTask.started).length
  suspended : w.flush.isSuspended = true ↔ ∃ t ∈ w.tasks, t.started
  event : w.flush.event = true ↔ w.flush.counter = 0

/-- A call that finds a running task of its symbol waits for it and starts none; a caller whose task has ended gets its
end; and a callback removes the entry of its own task only. -/
def Coalesces (w : Flights) : FlightAct → Prop
  | .call symbol => ∀ (id : ℕ) t, w.tasks[id]? = some t → t.symbol = symbol → t.Running →
      call w symbol = { w with calls := w.calls ++ [{ symbol, task := id, joined := true }] }
  | .wake i => ∀ c t e, w.calls[i]? = some c → c.ending = none →
      w.tasks[c.task]? = some t → t.body = .ended e →
      (wake w i).calls[i]? = some { c with ending := some (c.receives e) }
  | .doneCallback id => ∀ symbol, (doneCallback w id).emergencyTasks.get? symbol ≠ w.emergencyTasks.get? symbol →
      w.emergencyTasks.get? symbol = some id
  | .goOn _ _ => True

/-! ## The table -/

/-- What every step keeps: the table has the tasks whose callback has not run, and no others. -/
structure Flights.Sound (w : Flights) : Prop where
  entry : ∀ (id : ℕ) (t : EmergencyTask), w.tasks[id]? = some t → t.called = false →
    w.emergencyTasks.get? t.symbol = some id
  own : ∀ symbol id, w.emergencyTasks.get? symbol = some id →
    ∃ t, w.tasks[id]? = some t ∧ t.symbol = symbol ∧ t.called = false
  called : ∀ t ∈ w.tasks, t.called = true → ∃ e, t.body = .ended e
  awaited : ∀ c ∈ w.calls, ∃ t, w.tasks[c.task]? = some t ∧ t.symbol = c.symbol ∧
    ∀ received, c.ending = some received → ∃ e, t.body = .ended e ∧ received = c.receives e
  counts : w.flush.Counts (w.tasks.countP EmergencyTask.started)

theorem sound_new : Flights.Sound {} where
  entry := by simp
  own := by simp
  called := by simp
  awaited := by simp
  counts := FlushController.counts_new

theorem bodyNext_cases (b : Body) (reply : Reply) :
    (∃ e, b = .ended e ∧ bodyNext cfg b reply = .ended e) ∨
      (b = .created ∧ bodyNext cfg b reply = .persisting) ∨
      b.started = true ∧ ((bodyNext cfg b reply).started = true ∨ ∃ e, bodyNext cfg b reply = .ended e) := by
  have hround : ∀ attempt, (nextRound cfg attempt).started = true ∨ ∃ e, nextRound cfg attempt = .ended e := by
    intro attempt
    unfold nextRound
    split
    · split
      · exact Or.inr ⟨_, rfl⟩
      · exact Or.inl rfl
    · exact Or.inr ⟨_, rfl⟩
  have hafter : ∀ attempt r, (afterRound attempt r).started = true ∨ ∃ e, afterRound attempt r = .ended e := by
    intro attempt r
    unfold afterRound
    split
    · exact Or.inl rfl
    · split
      · exact Or.inr ⟨_, rfl⟩
      · exact Or.inl rfl
  unfold bodyNext
  split
  · exact Or.inl ⟨_, rfl, rfl⟩
  · exact Or.inr (Or.inl ⟨rfl, rfl⟩)
  · rename_i hended hcreated
    refine Or.inr (Or.inr ⟨?_, Or.inr ⟨_, rfl⟩⟩)
    cases b <;> simp_all [Body.started]
  · exact Or.inr (Or.inr ⟨rfl, hround 0⟩)
  · refine Or.inr (Or.inr ⟨rfl, ?_⟩)
    split
    · exact hafter _ _
    · exact Or.inr ⟨_, rfl⟩
    · exact Or.inl rfl
  · exact Or.inr (Or.inr ⟨rfl, hafter _ _⟩)
  · exact Or.inr (Or.inr ⟨rfl, hround _⟩)
  · exact Or.inr (Or.inr ⟨rfl, Or.inr ⟨_, rfl⟩⟩)

/-- A body holds a suspension while it is started; `n` are held by others. -/
theorem counts_flushNext {f : FlushController} {n : ℕ} (b : Body) (reply : Reply)
    (hf : f.Counts (n + b.started.toNat)) :
    (flushNext f b (bodyNext cfg b reply)).Counts (n + (bodyNext cfg b reply).started.toNat) := by
  rcases bodyNext_cases cfg b reply with ⟨e, rfl, hnext⟩ | ⟨rfl, hnext⟩ | ⟨hb, hnext | ⟨e, hnext⟩⟩
  · rw [hnext]
    exact hf
  · rw [hnext]
    exact hf.suspend
  · rw [hnext, ← hb]
    generalize bodyNext cfg b reply = next at hnext
    cases b <;> cases next <;> simp_all [flushNext, Body.started]
  · rw [hnext]
    rw [hb] at hf
    cases b <;> first | exact hf.resume | cases hb

namespace Flights.Sound
variable {w : Flights} {id : ℕ} {t : EmergencyTask}

/-! ## The steps -/

/-- A task that changes keeps its callers, whose ends stay as they were. -/
theorem awaited_set (hw : w.Sound) (ht : w.tasks[id]? = some t) {u : EmergencyTask} (hsymbol : u.symbol = t.symbol)
    (hended : ∀ e, t.body = .ended e → u.body = .ended e) :
    ∀ c ∈ w.calls, ∃ t', (w.tasks.set id u)[c.task]? = some t' ∧ t'.symbol = c.symbol ∧
      ∀ received, c.ending = some received → ∃ e, t'.body = .ended e ∧ received = c.receives e := by
  intro c hc
  obtain ⟨t', ht', hsame, hend⟩ := hw.awaited c hc
  by_cases hid : c.task = id
  · rw [hid] at ht' ⊢
    obtain rfl := Option.some.inj (ht.symm.trans ht')
    refine ⟨u, by rw [Slots.getElem?_set ht, if_pos rfl], hsymbol.trans hsame, fun received hreceived => ?_⟩
    obtain ⟨e, he, hreceives⟩ := hend received hreceived
    exact ⟨e, hended e he, hreceives⟩
  · exact ⟨t', by rw [Slots.getElem?_set ht, if_neg hid, ht'], hsame, hend⟩

theorem counts_set (hw : w.Sound) (ht : w.tasks[id]? = some t) {u : EmergencyTask} {f : FlushController}
    (hf : ∀ n, w.flush.Counts (n + t.started.toNat) → f.Counts (n + u.started.toNat)) :
    f.Counts ((w.tasks.set id u).countP EmergencyTask.started) := by
  have hothers := Slots.countP_erase EmergencyTask.started ht
  rw [Slots.countP_set EmergencyTask.started ht u]
  exact hf _ (hothers ▸ hw.counts)

theorem goOn (hw : w.Sound) (id : ℕ) (reply : Reply) : (Emergency.goOn cfg w id reply).Sound := by
  unfold Emergency.goOn
  split
  · exact hw
  · rename_i t ht
    have hmem : t ∈ w.tasks := List.mem_of_getElem? ht
    have hended : ∀ e, t.body = .ended e → bodyNext cfg t.body reply = .ended e := by
      intro e he
      rw [he, bodyNext]
    constructor
    · intro j u hu hcalled
      rw [Slots.getElem?_set ht] at hu
      split at hu
      · rename_i hj
        obtain rfl := Option.some.inj hu
        exact hj ▸ hw.entry id t ht hcalled
      · exact hw.entry j u hu hcalled
    · intro symbol j hj
      obtain ⟨u, hu, hsymbol, hcalled⟩ := hw.own symbol j hj
      by_cases hid : j = id
      · obtain rfl := Option.some.inj (ht.symm.trans (hid ▸ hu))
        have hset : (w.tasks.set id { t with body := bodyNext cfg t.body reply })[j]? =
            some { t with body := bodyNext cfg t.body reply } := by
          rw [Slots.getElem?_set ht, if_pos hid]
        exact ⟨_, hset, hsymbol, hcalled⟩
      · exact ⟨u, by rw [Slots.getElem?_set ht, if_neg hid, hu], hsymbol, hcalled⟩
    · intro u hu hcalled
      rcases List.mem_or_eq_of_mem_set hu with hu | rfl
      · exact hw.called u hu hcalled
      · obtain ⟨e, he⟩ := hw.called t hmem hcalled
        exact ⟨e, hended e he⟩
    · exact hw.awaited_set ht rfl hended
    · exact hw.counts_set ht fun n hn => counts_flushNext cfg t.body reply hn

theorem doneCallback (hw : w.Sound) (id : ℕ) : (Emergency.doneCallback w id).Sound := by
  unfold Emergency.doneCallback
  split
  · rename_i symbol e ht
    have hentry : w.emergencyTasks.get? symbol = some id := hw.entry id _ ht rfl
    constructor
    · intro j u hu hcalled
      rw [Slots.getElem?_set ht] at hu
      split at hu
      · obtain rfl := Option.some.inj hu
        cases hcalled
      · rename_i hj
        have hold := hw.entry j u hu hcalled
        rw [Dict.get?_erase, if_neg, hold]
        intro hsymbol
        exact hj (Option.some.inj (hold.symm.trans (hsymbol ▸ hentry)))
    · intro symbol' j hj
      rw [Dict.get?_erase] at hj
      split at hj
      · cases hj
      · rename_i hsymbol
        obtain ⟨u, hu, rfl, hcalled⟩ := hw.own symbol' j hj
        have hid : j ≠ id := by
          rintro rfl
          exact hsymbol (congrArg EmergencyTask.symbol (Option.some.inj (hu.symm.trans ht)))
        exact ⟨u, by rw [Slots.getElem?_set ht, if_neg hid, hu], rfl, hcalled⟩
    · intro u hu hcalled
      rcases List.mem_or_eq_of_mem_set hu with hu | rfl
      · exact hw.called u hu hcalled
      · exact ⟨e, rfl⟩
    · exact hw.awaited_set ht rfl fun e' he => he
    · exact hw.counts_set ht fun n hn => hn
  · exact hw

theorem wake (hw : w.Sound) (i : ℕ) : (Emergency.wake w i).Sound := by
  unfold Emergency.wake
  split
  · rename_i c hc
    split
    · rename_i e hending hbody
      obtain ⟨t, ht, hended⟩ := Option.map_eq_some_iff.mp hbody
      refine ⟨hw.entry, hw.own, hw.called, ?_, hw.counts⟩
      intro c' hc'
      rcases List.mem_or_eq_of_mem_set hc' with hc' | rfl
      · exact hw.awaited c' hc'
      · obtain ⟨t', ht', hsymbol, -⟩ := hw.awaited c (List.mem_of_getElem? hc)
        obtain rfl := Option.some.inj (ht.symm.trans ht')
        exact ⟨t, ht, hsymbol, fun received hreceived => ⟨e, hended, (Option.some.inj hreceived).symm⟩⟩
    · exact hw
  · exact hw

/-- A call that awaits the task in the table. -/
theorem join (hw : w.Sound) (ht : w.tasks[id]? = some t) (c : CloseCall) (htask : c.task = id)
    (hsymbol : t.symbol = c.symbol)
    (hend : ∀ received, c.ending = some received → ∃ e, t.body = .ended e ∧ received = c.receives e) :
    ({ w with calls := w.calls ++ [c] } : Flights).Sound := by
  refine ⟨hw.entry, hw.own, hw.called, fun c' hc' => ?_, hw.counts⟩
  rcases List.mem_append.mp hc' with hc' | hc'
  · exact hw.awaited c' hc'
  · obtain rfl := List.mem_singleton.mp hc'
    exact ⟨t, htask ▸ ht, hsymbol, hend⟩

/-- A new task, for a symbol that the table does not have. -/
theorem spawn (hw : w.Sound) {symbol : String} (hnone : w.emergencyTasks.get? symbol = none) :
    ({ w with
      tasks := w.tasks ++ [{ symbol := symbol }]
      emergencyTasks := w.emergencyTasks.set symbol w.tasks.length } : Flights).Sound := by
  constructor
  · intro j u hu hcalled
    rw [Dict.get?_set]
    rcases Slots.getElem?_concat.mp hu with hu | ⟨rfl, rfl⟩
    · have hold := hw.entry j u hu hcalled
      rw [if_neg, hold]
      rintro rfl
      rw [hold] at hnone
      cases hnone
    · rw [if_pos rfl]
  · intro symbol' j hj
    rw [Dict.get?_set] at hj
    split at hj
    · rename_i hsymbol
      obtain rfl := Option.some.inj hj
      exact ⟨_, List.getElem?_concat_length, hsymbol.symm, rfl⟩
    · obtain ⟨u, hu, hsymbol, hcalled⟩ := hw.own symbol' j hj
      exact ⟨u, Slots.getElem?_append hu _, hsymbol, hcalled⟩
  · intro u hu hcalled
    rcases List.mem_append.mp hu with hu | hu
    · exact hw.called u hu hcalled
    · obtain rfl := List.mem_singleton.mp hu
      cases hcalled
  · intro c hc
    obtain ⟨u, hu, hrest⟩ := hw.awaited c hc
    exact ⟨u, Slots.getElem?_append hu _, hrest⟩
  · have hcount : (w.tasks ++ [({ symbol := symbol } : EmergencyTask)]).countP EmergencyTask.started =
        w.tasks.countP EmergencyTask.started := by
      simp [EmergencyTask.started, Body.started]
    rw [hcount]
    exact hw.counts

theorem call (hw : w.Sound) (symbol : String) : (Emergency.call w symbol).Sound := by
  unfold Emergency.call
  split
  · rename_i id hid
    obtain ⟨t, ht, hsymbol, -⟩ := hw.own symbol id hid
    split
    · rename_i e hbody
      obtain ⟨t', ht', hended⟩ := Option.map_eq_some_iff.mp hbody
      obtain rfl := Option.some.inj (ht.symm.trans ht')
      exact hw.join ht _ rfl hsymbol fun received hreceived => ⟨e, hended, (Option.some.inj hreceived).symm⟩
    · exact hw.join ht _ rfl hsymbol fun received hreceived => by cases hreceived
  · rename_i hnone
    exact (hw.spawn hnone).join List.getElem?_concat_length _ rfl rfl fun received hreceived => by cases hreceived

theorem step (hw : w.Sound) (a : FlightAct) : (flightStep cfg w a).Sound := by
  cases a with
  | call symbol => exact hw.call symbol
  | goOn id reply => exact hw.goOn cfg id reply
  | doneCallback id => exact hw.doneCallback id
  | wake i => exact hw.wake i

/-! ## What it gives -/

/-- A task that is running is the one of its symbol in the table. -/
theorem entry_of_running (hw : w.Sound) (ht : w.tasks[id]? = some t) (hrunning : t.Running) :
    w.emergencyTasks.get? t.symbol = some id := by
  refine hw.entry id t ht ?_
  by_contra hcalled
  obtain ⟨e, he⟩ := hw.called t (List.mem_of_getElem? ht) (by simpa using hcalled)
  exact hrunning e he

theorem singleFlight (hw : w.Sound) : SingleFlight w where
  oneRunning := by
    intro i j t u ht hu hrunning hrunning' hsymbol
    have hi := hw.entry_of_running ht hrunning
    rw [hsymbol, hw.entry_of_running hu hrunning'] at hi
    exact (Option.some.inj hi).symm
  sameEnd := hw.awaited
  counter := by rw [hw.counts.counter, List.countP_eq_length_filter]
  suspended := by
    rw [hw.counts.isSuspended, List.countP_pos_iff]
  event := by
    rw [hw.counts.event, hw.counts.counter]
    omega

theorem coalesces (hw : w.Sound) (a : FlightAct) : Coalesces w a := by
  cases a with
  | call symbol =>
    rintro id t ht rfl hrunning
    have hentry := hw.entry_of_running ht hrunning
    have hbody : ∀ e, w.tasks[id]?.map EmergencyTask.body ≠ some (.ended e) := by
      intro e he
      rw [ht] at he
      exact hrunning e (Option.some.inj he)
    unfold Emergency.call
    rw [hentry]
    show (match w.tasks[id]?.map EmergencyTask.body with | some (.ended e) => _ | _ => _) = _
    split
    · rename_i e he
      exact absurd he (hbody e)
    · rfl
  | goOn id reply => trivial
  | doneCallback id =>
    intro symbol hchanged
    unfold Emergency.doneCallback at hchanged
    split at hchanged
    · rename_i symbol' e ht
      rw [Dict.get?_erase] at hchanged
      split at hchanged
      · rename_i hsymbol
        exact hsymbol ▸ hw.entry id _ ht rfl
      · exact absurd rfl hchanged
    · exact absurd rfl hchanged
  | wake i =>
    intro c t e hc hending ht hbody
    have hwake : Emergency.wake w i =
        { w with calls := w.calls.set i { c with ending := some (c.receives e) } } := by
      simp only [Emergency.wake, hc, hending, ht, hbody, Option.map_some]
    rw [hwake]
    exact (Slots.getElem?_set hc _ i).trans (if_pos rfl)

end Flights.Sound

/-- **Single flight.** In every order of the calls, the tasks, the callbacks and the callers: one task of a symbol at a
time, whose end is its callers', and the flushing suspended exactly while a task is in its body. -/
theorem single_flight (as : List FlightAct) :
    Runs.Always SingleFlight (flightStep cfg) {} as ∧ Runs.Guarded Coalesces (flightStep cfg) {} as := by
  have hany : Runs.Guarded (fun _ _ => True) (flightStep cfg) {} as := Runs.guarded_of_forall fun _ _ _ => trivial
  have hsound := Runs.always_of_guarded sound_new (fun w a hw _ => hw.step cfg a) hany
  refine ⟨hsound.mono fun w hw => hw.singleFlight, fun pre a hpre => ?_⟩
  exact (hsound pre ((List.prefix_append pre [a]).trans hpre)).coalesces a

end MikoV2.Emergency
