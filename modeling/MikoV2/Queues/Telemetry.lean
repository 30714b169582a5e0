import MikoV2.Lib.BoundedDeque
import MikoV2.Lib.Runs

/-!
# `AsyncTelemetryQueue`

Producers append to a deque that drops its oldest item when it is full; a thread takes the items out on the left and puts
them into the queue of the other process. `close` waits for the thread, for two seconds, and puts the rest there itself.
A step is a block under the lock, a look at the stop event, or the end of a put into the other queue.

* `TelemetryQueue` : the state of the object, of its thread and of `close`;
* `bridgeStep` : a producer, or the thread; `step` : these, or `close`;
* `Accounted` : every item is counted once; `Sound` : the steps that keep it so;
* `accounted_iff_sound` : the runs in which the accounting is exact.
-/

namespace MikoV2.Queues

variable {α : Type}

/-- The item of a `put_nowait`, with the number of the call; `None` is an item too. -/
structure Tagged (α : Type) where
  seq : ℕ
  item : Option α

/-- How a put into the `mp.Queue` ends. -/
inductive PutEnd where
  | ok
  | full
  /-- another exception -/
  | error
  deriving DecidableEq

/-- Where the bridge thread is. -/
inductive Bridge (α : Type) where
  /-- before it looks at the stop event -/
  | idle
  /-- past it -/
  | looked
  | putting (x : Tagged α)
  | exited

/-- Where `close` is. -/
inductive Closer (α : Type) where
  | uncalled
  | joining
  | draining
  | putting (x : Tagged α)
  | done

structure TelemetryQueue (α : Type) where
  deque : List (Tagged α)
  /-- what has been put into the `mp.Queue`, the first first -/
  forwarded : List (Tagged α)
  dropped : ℕ
  stopEvent : Bool
  bridge : Bridge α
  closer : Closer α
  /-- the calls of `put_nowait` -/
  puts : ℕ

inductive BridgeEvent (α : Type) where
  | put (item : Option α)
  /-- `while not self._stop_event.is_set()` -/
  | look
  | take
  | forward (ended : PutEnd)

inductive TelemetryEvent (α : Type) where
  | bridge (e : BridgeEvent α)
  | stop
  /-- the thread has ended, or two seconds have passed -/
  | joined
  | drain
  | flush (ended : PutEnd)

namespace TelemetryQueue

def init : TelemetryQueue α := ⟨[], [], 0, false, .idle, .uncalled, 0⟩

def putNowait (maxlen : ℕ) (item : Option α) (q : TelemetryQueue α) : TelemetryQueue α :=
  { q with
    deque := BoundedDeque.append maxlen q.deque ⟨q.puts, item⟩
    dropped := if q.deque.length = maxlen then q.dropped + 1 else q.dropped
    puts := q.puts + 1 }

/-- The bridge pops an item; one that is `None` it takes for none. -/
def take (q : TelemetryQueue α) : TelemetryQueue α := match q.deque with
  | [] => { q with bridge := .idle }
  | x :: deque => { q with deque := deque, bridge := if x.item.isNone then .idle else .putting x }

/-- The bridge puts an item back; a deque that is full then is taken for one that has lost an item. -/
def putBack (maxlen : ℕ) (x : Tagged α) (q : TelemetryQueue α) : TelemetryQueue α :=
  let deque := BoundedDeque.appendleft maxlen q.deque x
  { q with
    deque := deque
    dropped := if deque.length = maxlen then q.dropped + 1 else q.dropped
    bridge := .idle }

/-- `self._q.put(item, timeout=0.5)` has ended. -/
def forward (maxlen : ℕ) (x : Tagged α) (q : TelemetryQueue α) : PutEnd → TelemetryQueue α
  | .ok => { q with forwarded := q.forwarded ++ [x], bridge := .idle }
  | .full => q.putBack maxlen x
  | .error => { q with dropped := q.dropped + 1, bridge := .idle }

def bridgeStep (maxlen : ℕ) (q : TelemetryQueue α) : BridgeEvent α → TelemetryQueue α
  | .put item => q.putNowait maxlen item
  | .look => match q.bridge with
    | .idle => { q with bridge := if q.stopEvent then .exited else .looked }
    | _ => q
  | .take => match q.bridge with
    | .looked => q.take
    | _ => q
  | .forward ended => match q.bridge with
    | .putting x => q.forward maxlen x ended
    | _ => q

/-- The `put_nowait` of `close` has ended: after a full queue it leaves the rest, after another exception all. -/
def flush (x : Tagged α) (q : TelemetryQueue α) : PutEnd → TelemetryQueue α
  | .ok => { q with forwarded := q.forwarded ++ [x], closer := .draining }
  | .full => { q with dropped := q.dropped + 1, closer := .done }
  | .error => { q with closer := .done }

def step (maxlen : ℕ) (q : TelemetryQueue α) : TelemetryEvent α → TelemetryQueue α
  | .bridge e => q.bridgeStep maxlen e
  | .stop => match q.closer with
    | .uncalled => { q with stopEvent := true, closer := .joining }
    | _ => q
  | .joined => match q.closer with
    | .joining => { q with closer := .draining }
    | _ => q
  | .drain => match q.closer with
    | .draining => match q.deque with
      | [] => { q with closer := .done }
      | x :: deque => { q with deque := deque, closer := .putting x }
    | _ => q
  | .flush ended => match q.closer with
    | .putting x => q.flush x ended
    | _ => q

/-! ## Accounting -/

/-- What the bridge holds. -/
def inHand (q : TelemetryQueue α) : List (Tagged α) := match q.bridge with
  | .putting x => [x]
  | _ => []

/-- What `close` holds. -/
def inClose (q : TelemetryQueue α) : List (Tagged α) := match q.closer with
  | .putting x => [x]
  | _ => []

/-- Every item is counted once; after `close`, each has been forwarded or counted as dropped. -/
@[mk_iff]
structure Accounted (q : TelemetryQueue α) : Prop where
  exact : q.puts = q.dropped + q.forwarded.length + q.deque.length + q.inHand.length + q.inClose.length
  closed : q.closer = .done → q.puts = q.dropped + q.forwarded.length

/-- What a step must not meet: a `put_nowait` after `close`, a `None` at the end of the deque that the bridge takes from,
a put back that fills the deque, a bridge that holds an item when `close` ends, and a put of `close` that raises, or
finds the other queue full while there are items left. -/
def Sound (maxlen : ℕ) (q : TelemetryQueue α) : TelemetryEvent α → Prop
  | .bridge (.put _) => q.closer = .done → maxlen = 0
  | .bridge .look => True
  | .bridge .take => q.bridge = .looked → ∀ x ∈ q.deque.head?, x.item ≠ none
  | .bridge (.forward ended) => q.inHand ≠ [] → ended = .full → q.deque.length + 1 ≠ maxlen
  | .stop => True
  | .joined => True
  | .drain => q.closer = .draining → q.deque = [] → q.inHand = []
  | .flush ended => q.inClose ≠ [] → ended ≠ .error ∧ (ended = .full → q.deque = [] ∧ q.inHand = [])

section Steps
variable {maxlen : ℕ} {q : TelemetryQueue α}

/-- The deque never gets longer than its greatest length. -/
theorem length_bridgeStep (h : q.deque.length ≤ maxlen) (e : BridgeEvent α) :
    (q.bridgeStep maxlen e).deque.length ≤ maxlen := by
  cases e with
  | put item =>
    show (BoundedDeque.append maxlen q.deque ⟨q.puts, item⟩).length ≤ maxlen
    rw [BoundedDeque.length_append h]
    split <;> omega
  | look =>
    simp only [bridgeStep]
    split <;> exact h
  | take =>
    simp only [bridgeStep]
    split
    · unfold take
      split
      · exact h
      · rename_i hdeque
        rw [hdeque] at h
        exact (Nat.le_succ _).trans h
    · exact h
  | forward ended =>
    simp only [bridgeStep]
    split
    · rename_i x _
      cases ended with
      | ok => exact h
      | full =>
        show (BoundedDeque.appendleft maxlen q.deque x).length ≤ maxlen
        rw [BoundedDeque.length_appendleft]
        exact Nat.min_le_left _ _
      | error => exact h
    · exact h

theorem length_step (h : q.deque.length ≤ maxlen) (e : TelemetryEvent α) : (q.step maxlen e).deque.length ≤ maxlen := by
  cases e with
  | bridge e => exact length_bridgeStep h e
  | stop =>
    simp only [step]
    split <;> exact h
  | joined =>
    simp only [step]
    split <;> exact h
  | drain =>
    simp only [step]
    split
    · split
      · exact h
      · rename_i hdeque
        rw [hdeque] at h
        exact (Nat.le_succ _).trans h
    · exact h
  | flush ended =>
    simp only [step]
    split
    · cases ended <;> exact h
    · exact h

/-- Once `close` has ended nothing is left. -/
theorem Accounted.nothing_left (h : q.Accounted) (hdone : q.closer = .done) : q.deque = [] ∧ q.inHand = [] := by
  have hexact := h.exact
  rw [h.closed hdone] at hexact
  constructor
  · exact List.length_eq_zero_iff.mp (by omega)
  · exact List.length_eq_zero_iff.mp (by omega)

/-- What nothing of the accounting sees. -/
theorem Accounted.congr {q' : TelemetryQueue α} (h : q.Accounted) (hputs : q'.puts = q.puts)
    (hdropped : q'.dropped = q.dropped) (hforwarded : q'.forwarded = q.forwarded) (hdeque : q'.deque = q.deque)
    (hhand : q'.inHand = q.inHand) (hclose : q'.inClose = q.inClose) (hdone : q'.closer = .done → q.closer = .done) :
    q'.Accounted := by
  refine ⟨?_, fun hcloser => ?_⟩
  · rw [hputs, hdropped, hforwarded, hdeque, hhand, hclose]
    exact h.exact
  · rw [hputs, hdropped, hforwarded]
    exact h.closed (hdone hcloser)

theorem accounted_put (h : q.Accounted) (hle : q.deque.length ≤ maxlen) (item : Option α) :
    (q.putNowait maxlen item).Accounted ↔ (q.closer = .done → maxlen = 0) := by
  have hlength : (q.putNowait maxlen item).deque.length = if q.deque.length = maxlen then maxlen else q.deque.length + 1 :=
    BoundedDeque.length_append hle
  have hexact := h.exact
  have hhand : (q.putNowait maxlen item).inHand = q.inHand := rfl
  have hclose : (q.putNowait maxlen item).inClose = q.inClose := rfl
  have hdropped : (q.putNowait maxlen item).dropped = if q.deque.length = maxlen then q.dropped + 1 else q.dropped := rfl
  have hputs : (q.putNowait maxlen item).puts = q.puts + 1 := rfl
  have hforwarded : (q.putNowait maxlen item).forwarded = q.forwarded := rfl
  have hcloser : (q.putNowait maxlen item).closer = q.closer := rfl
  rw [accounted_iff, hlength, hhand, hclose, hdropped, hputs, hforwarded, hcloser]
  constructor
  · rintro ⟨-, hclosed⟩ hdone
    have hnew := hclosed hdone
    have hold := h.closed hdone
    rw [(h.nothing_left hdone).1, List.length_nil] at hnew
    by_contra hpos
    rw [if_neg (Ne.symm hpos)] at hnew
    omega
  · intro hempty
    refine ⟨?_, fun hdone => ?_⟩
    · split <;> omega
    · have hold := h.closed hdone
      rw [(h.nothing_left hdone).1, hempty hdone]
      simp
      omega

/-- While `close` has not ended there is only the count. -/
theorem accounted_of_open (hopen : q.closer ≠ .done) : q.Accounted ↔
    q.puts = q.dropped + q.forwarded.length + q.deque.length + q.inHand.length + q.inClose.length := by
  rw [accounted_iff]
  exact and_iff_left fun hdone => absurd hdone hopen

/-- An item in the bridge's hand, or in that of `close`, or in the deque: `close` has not ended. -/
theorem Accounted.open (h : q.Accounted) (hsome : q.deque ≠ [] ∨ q.inHand ≠ []) : q.closer ≠ .done := by
  intro hdone
  obtain ⟨hdeque, hhand⟩ := h.nothing_left hdone
  exact hsome.elim (· hdeque) (· hhand)

theorem accounted_take (h : q.Accounted) (hlooked : q.bridge = .looked) :
    q.take.Accounted ↔ ∀ x ∈ q.deque.head?, x.item ≠ none := by
  obtain ⟨deque, forwarded, dropped, stopEvent, bridge, closer, puts⟩ := q
  obtain rfl : bridge = .looked := hlooked
  cases deque with
  | nil =>
    have hsame : (take ⟨[], forwarded, dropped, stopEvent, .looked, closer, puts⟩).Accounted :=
      h.congr rfl rfl rfl rfl rfl rfl id
    simpa using hsame
  | cons x rest =>
    have hopen : closer ≠ .done := h.open (.inl (List.cons_ne_nil x rest))
    have hexact := h.exact
    obtain ⟨seq, item⟩ := x
    rw [accounted_of_open hopen]
    cases item with
    | none =>
      simp only [take, inHand, inClose, List.length_cons, List.length_nil] at hexact ⊢
      simp
      omega
    | some v =>
      simp only [take, inHand, inClose, List.length_cons, List.length_nil] at hexact ⊢
      simp
      omega

theorem accounted_forward (h : q.Accounted) (hle : q.deque.length ≤ maxlen) {x : Tagged α}
    (hputting : q.bridge = .putting x) (ended : PutEnd) :
    (q.forward maxlen x ended).Accounted ↔ (ended = .full → q.deque.length + 1 ≠ maxlen) := by
  obtain ⟨deque, forwarded, dropped, stopEvent, bridge, closer, puts⟩ := q
  obtain rfl : bridge = .putting x := hputting
  have hopen : closer ≠ .done := h.open (.inr (List.cons_ne_nil x []))
  have hexact := h.exact
  cases ended with
  | ok =>
    rw [accounted_of_open hopen]
    simp only [forward, inHand, inClose, List.length_append, List.length_cons, List.length_nil] at hexact ⊢
    simp
    omega
  | error =>
    rw [accounted_of_open hopen]
    simp only [forward, inHand, inClose, List.length_cons, List.length_nil] at hexact ⊢
    simp
    omega
  | full =>
    have hle' : deque.length ≤ maxlen := hle
    rw [accounted_of_open hopen]
    simp only [forward, putBack, inHand, inClose, BoundedDeque.length_appendleft, List.length_cons,
      List.length_nil] at hexact ⊢
    simp only [ne_eq, true_imp_iff]
    split <;> omega

theorem accounted_drain (h : q.Accounted) (hdraining : q.closer = .draining) :
    (q.step maxlen .drain).Accounted ↔ (q.deque = [] → q.inHand = []) := by
  obtain ⟨deque, forwarded, dropped, stopEvent, bridge, closer, puts⟩ := q
  obtain rfl : closer = .draining := hdraining
  have hexact := h.exact
  cases deque with
  | nil =>
    have hhand : inHand ⟨[], forwarded, dropped, stopEvent, bridge, .done, puts⟩ =
        inHand ⟨[], forwarded, dropped, stopEvent, bridge, .draining, puts⟩ := rfl
    simp only [step, true_imp_iff]
    rw [accounted_iff, hhand, ← List.length_eq_zero_iff]
    simp only [inClose, List.length_nil, true_imp_iff] at hexact ⊢
    omega
  | cons x rest =>
    have hhand : inHand ⟨rest, forwarded, dropped, stopEvent, bridge, .putting x, puts⟩ =
        inHand ⟨x :: rest, forwarded, dropped, stopEvent, bridge, .draining, puts⟩ := rfl
    simp only [step, reduceCtorEq, false_imp_iff, iff_true]
    rw [accounted_of_open (by simp), hhand]
    simp only [inClose, List.length_cons, List.length_nil] at hexact ⊢
    omega

theorem accounted_flush (h : q.Accounted) {x : Tagged α} (hputting : q.closer = .putting x) (ended : PutEnd) :
    (q.flush x ended).Accounted ↔ ended ≠ .error ∧ (ended = .full → q.deque = [] ∧ q.inHand = []) := by
  have hexact := h.exact
  have hclose : q.inClose = [x] := by simp only [inClose, hputting]
  rw [hclose] at hexact
  cases ended with
  | ok =>
    have hhand : inHand (q.flush x .ok) = q.inHand := rfl
    have hnone : inClose (q.flush x .ok) = [] := rfl
    have hopen : (q.flush x .ok).closer ≠ .done := by simp [flush]
    rw [accounted_of_open hopen, hhand, hnone]
    simp [flush] at hexact ⊢
    omega
  | full =>
    have hhand : inHand (q.flush x .full) = q.inHand := rfl
    have hnone : inClose (q.flush x .full) = [] := rfl
    rw [accounted_iff, hhand, hnone]
    simp [flush, ← List.length_eq_zero_iff] at hexact ⊢
    omega
  | error =>
    have hhand : inHand (q.flush x .error) = q.inHand := rfl
    have hnone : inClose (q.flush x .error) = [] := rfl
    rw [accounted_iff, hhand, hnone]
    simp [flush] at hexact ⊢
    omega

/-- **One step.** It keeps the accounting exactly when it meets none of the cases that are not counted right. -/
theorem accounted_step_iff (h : q.Accounted) (hle : q.deque.length ≤ maxlen) (e : TelemetryEvent α) :
    (q.step maxlen e).Accounted ↔ Sound maxlen q e := by
  cases e with
  | bridge e =>
    cases e with
    | put item => exact accounted_put h hle item
    | look =>
      refine iff_of_true ?_ trivial
      simp only [step, bridgeStep]
      split
      · rename_i hidle
        have hnone : q.inHand = [] := by simp only [inHand, hidle]
        refine h.congr rfl rfl rfl rfl ?_ rfl id
        rw [hnone]
        cases q.stopEvent <;> rfl
      · exact h
    | take =>
      simp only [step, bridgeStep, Sound]
      split
      · rename_i hlooked
        rw [accounted_take h hlooked]
        exact (true_imp_iff.symm.trans (imp_congr_left (iff_of_true trivial hlooked)))
      · rename_i hother
        exact iff_of_true h fun hlooked => absurd hlooked hother
    | forward ended =>
      simp only [step, bridgeStep, Sound]
      split
      · rename_i x hputting
        rw [accounted_forward h hle hputting]
        simp [inHand, hputting]
      · rename_i hother
        refine iff_of_true h fun hhand => absurd ?_ hhand
        unfold inHand
        split
        · rename_i x hputting
          exact absurd hputting (hother x)
        · rfl
  | stop =>
    refine iff_of_true ?_ trivial
    simp only [step]
    split
    · rename_i huncalled
      have hnone : q.inClose = [] := by simp only [inClose, huncalled]
      exact h.congr rfl rfl rfl rfl rfl hnone.symm fun hdone => absurd hdone (by simp)
    · exact h
  | joined =>
    refine iff_of_true ?_ trivial
    simp only [step]
    split
    · rename_i hjoining
      have hnone : q.inClose = [] := by simp only [inClose, hjoining]
      exact h.congr rfl rfl rfl rfl rfl hnone.symm fun hdone => absurd hdone (by simp)
    · exact h
  | drain =>
    by_cases hdraining : q.closer = .draining
    · rw [accounted_drain h hdraining]
      simp [Sound, hdraining]
    · have hstay : q.step maxlen .drain = q := by
        simp only [step]
      rw [hstay]
      exact iff_of_true h fun hdrain => absurd hdrain hdraining
  | flush ended =>
    simp only [step, Sound]
    split
    · rename_i x hputting
      rw [accounted_flush h hputting]
      simp [inClose, hputting]
    · rename_i hother
      refine iff_of_true h fun hclose => absurd ?_ hclose
      unfold inClose
      split
      · rename_i x hputting
        exact absurd hputting (hother x)
      · rfl

end Steps

/-- **Exact accounting.** In every state of a run each `put_nowait` is counted once, and each item forwarded or counted as
dropped once `close` has ended, exactly when no step of the run meets one of the cases of `Sound`. -/
theorem accounted_iff_sound (maxlen : ℕ) (es : List (TelemetryEvent α)) :
    Runs.Always Accounted (step maxlen) init es ↔ Runs.Guarded (Sound maxlen) (step maxlen) init es := by
  have h0 : (init : TelemetryQueue α).Accounted := ⟨rfl, fun hdone => absurd hdone (by simp [init])⟩
  rw [Runs.always_iff_guarded h0]
  refine Runs.guarded_iff_guarded (I := fun q => q.Accounted ∧ q.deque.length ≤ maxlen) ⟨h0, Nat.zero_le _⟩ ?_ ?_
  · rintro q e - ⟨h, hle⟩ hsound
    have hnext := (accounted_step_iff h hle e).mpr hsound
    exact ⟨⟨hnext, length_step hle e⟩, hnext⟩
  · rintro q e - ⟨h, hle⟩ hunsound hnext
    exact hunsound ((accounted_step_iff h hle e).mp hnext)

/-- The other queue is full, and the item fills the deque again. -/
def fillsAgain : List (TelemetryEvent ℕ) := [.bridge (.put (some 0)), .bridge .look, .bridge .take, .bridge (.forward .full)]

/-- Nothing is lost, and one item is counted as dropped. -/
theorem not_accounted_fillsAgain :
    ¬ ∀ (maxlen : ℕ) (es : List (TelemetryEvent ℕ)), (Runs.run (step maxlen) init es).Accounted := by
  intro h
  have hexact := (h 1 fillsAgain).exact
  revert hexact
  decide

end TelemetryQueue

end MikoV2.Queues
