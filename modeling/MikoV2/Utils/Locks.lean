import Mathlib.Algebra.Order.Ring.Rat
import Mathlib.Data.Finset.Erase
import Mathlib.Data.Finset.Insert
import Mathlib.Data.Fintype.EquivFin
import MikoV2.Lib.Runs
import MikoV2.Lib.WaitFor

/-!
# `HierarchicalLock`

Threads that acquire and release the locks of a hierarchy, with the micro-steps of a call apart: between the lock itself
and the thread-local `held` another thread may run.

* `acquire` : the checks of a call; `LockAct`, `lockStep` : what a thread does next;
* `Holds` : from the return of `acquire` to the return of `release`;
* `Consistent` : what a thread holds against its `held`; `Consistent.of_keep` : other threads do not touch it;
* `consistent_run` : it stays so; `ordered_of_consistent` : the locks are wanted in the order of their levels;
* `hierarchy_acyclic` : the wait-for graph, and the calls that raise.
-/

namespace MikoV2.Utils
open Relation WaitFor

inductive LockHierarchy
  | BUFFER
  | FILL
  | SQLITE
  | PACER
  | FLUSH
  | TELEMETRY
deriving DecidableEq, Repr

namespace LockHierarchy

def value : LockHierarchy → ℕ
  | BUFFER => 1
  | FILL => 2
  | SQLITE => 3
  | PACER => 4
  | FLUSH => 5
  | TELEMETRY => 6

theorem value_injective : Function.Injective value := by
  intro a b h
  cases a <;> cases b <;> first | rfl | cases h

/-- An `IntEnum` compares by its values. -/
instance : LinearOrder LockHierarchy := LinearOrder.lift' value value_injective

theorem value_lt (l : LockHierarchy) : l.value < 7 := by
  cases l <;> decide

instance : Finite LockHierarchy :=
  Finite.of_injective (fun l => (⟨l.value, value_lt l⟩ : Fin 7)) fun _ _ h => value_injective (Fin.mk.inj h)

end LockHierarchy

/-- Where a thread is: outside of the calls, in `self._lock.acquire`, or between the lock and `held`. -/
inductive Phase (L : Type)
  | outside
  | locking (lock : L) (blocking : Bool) (timeout : ℚ)
  | locked (lock : L)
  | unlocked (lock : L)
deriving DecidableEq

/-- The locks, and the `held` of every thread; a thread without one has the empty set. -/
structure LockState (T L : Type) where
  owner : L → Option T := fun _ => none
  held : T → Finset LockHierarchy := fun _ => ∅
  phase : T → Phase L := fun _ => .outside

inductive AcquireError
  | RuntimeError
  | ValueError
  | OverflowError
deriving DecidableEq

/-- What a thread does next. -/
inductive LockAct (T L : Type)
  /-- It calls `acquire`. -/
  | acquire (t : T) (lock : L) (blocking : Bool) (timeout : ℚ)
  /-- The lock is free, and it takes it. -/
  | take (t : T)
  /-- Its time is up, or the lock is not free and it does not block: `acquire` returns `False`. -/
  | giveUp (t : T)
  /-- It adds the level to `held`, and `acquire` returns `True`. -/
  | add (t : T)
  /-- It calls `release` on a lock that it holds. -/
  | release (t : T) (lock : L)
  /-- It discards the level from `held`, and `release` returns. -/
  | discard (t : T)

variable {T L : Type} [DecidableEq T] [DecidableEq L] (level : L → LockHierarchy) (timeoutMax : ℚ)

/-- The hierarchy check of `acquire`, and that of `threading.Lock.acquire` on its arguments. -/
def acquire (s : LockState T L) (t : T) (lock : L) (blocking : Bool) (timeout : ℚ) :
    Except AcquireError (LockState T L) :=
  if ∃ lvl ∈ s.held t, lvl ≥ level lock then .error .RuntimeError
  else if blocking = false ∧ timeout ≠ -1 then .error .ValueError
  else if timeout < 0 ∧ timeout ≠ -1 then .error .ValueError
  else if timeout > timeoutMax then .error .OverflowError
  else .ok { s with phase := Function.update s.phase t (.locking lock blocking timeout) }

/-- An action that is not the thread's next one is none. -/
def lockStep (s : LockState T L) : LockAct T L → LockState T L
  | .acquire t lock blocking timeout =>
    if s.phase t = .outside then
      match acquire level timeoutMax s t lock blocking timeout with
      | .ok s => s
      | .error _ => s
    else s
  | .take t =>
    match s.phase t with
    | .locking lock _ _ =>
      if s.owner lock = none then
        { s with
          owner := Function.update s.owner lock (some t)
          phase := Function.update s.phase t (.locked lock) }
      else s
    | _ => s
  | .giveUp t =>
    match s.phase t with
    | .locking lock blocking timeout =>
      if timeout ≠ -1 ∨ (blocking = false ∧ s.owner lock ≠ none) then
        { s with phase := Function.update s.phase t .outside }
      else s
    | _ => s
  | .add t =>
    match s.phase t with
    | .locked lock =>
      { s with
        held := Function.update s.held t (insert (level lock) (s.held t))
        phase := Function.update s.phase t .outside }
    | _ => s
  | .release t lock =>
    if s.phase t = .outside ∧ s.owner lock = some t then
      { s with
        owner := Function.update s.owner lock none
        phase := Function.update s.phase t (.unlocked lock) }
    else s
  | .discard t =>
    match s.phase t with
    | .unlocked lock =>
      { s with
        held := Function.update s.held t ((s.held t).erase (level lock))
        phase := Function.update s.phase t .outside }
    | _ => s

/-- The lock that a thread is blocked on. -/
def Phase.wants : Phase L → Option L
  | .locking lock true _ => some lock
  | _ => none

/-- The wait-for graph between the threads. -/
def LockState.WaitsFor (s : LockState T L) : T → T → Prop := WaitFor.WaitsFor s.owner fun t => (s.phase t).wants

/-- The thread has got the lock from an `acquire` that has returned, and no `release` of it has. -/
def LockState.Holds (s : LockState T L) (t : T) (lock : L) : Prop :=
  (s.owner lock = some t ∧ s.phase t ≠ .locked lock) ∨ s.phase t = .unlocked lock

/-! ## A thread -/

/-- A thread that owns the locks `owns`, by its `held` and its phase. -/
structure Consistent (owns : L → Prop) (held : Finset LockHierarchy) (phase : Phase L) : Prop where
  /-- It owns one lock of a level at most. -/
  distinct : ∀ l m, owns l → owns m → level l = level m → l = m
  mem_held : ∀ lvl, lvl ∈ held ↔ ∃ l, ((owns l ∧ phase ≠ .locked l) ∨ phase = .unlocked l) ∧ level l = lvl
  locking : ∀ l blocking timeout, phase = .locking l blocking timeout → ∀ lvl ∈ held, lvl < level l
  locked : ∀ l, phase = .locked l → owns l
  unlocked : ∀ l, phase = .unlocked l → ∀ m, owns m → level m ≠ level l

variable {level timeoutMax} {s : LockState T L} {owns : L → Prop} {held : Finset LockHierarchy} {phase : Phase L}
  {lock : L}

omit [DecidableEq L] in
theorem consistent_new : Consistent level (fun _ : L => False) ∅ .outside where
  distinct := nofun
  mem_held := fun lvl => by simp
  locking := nofun
  locked := nofun
  unlocked := nofun

omit [DecidableEq L] in
theorem Consistent.of_iff {owns' : L → Prop} (h : Consistent level owns held phase) (howns : ∀ l, owns' l ↔ owns l) :
    Consistent level owns' held phase := by
  have heq : owns' = owns := funext fun l => propext (howns l)
  rwa [heq]

omit [DecidableEq L] in
/-- An owned lock is a held one, outside of the calls that change it. -/
theorem Consistent.level_mem (h : Consistent level owns held phase) {l : L} (howns : owns l)
    (hphase : phase ≠ .locked l) : level l ∈ held := (h.mem_held _).mpr ⟨l, .inl ⟨howns, hphase⟩, rfl⟩

omit [DecidableEq L] in
theorem Consistent.start (h : Consistent level owns held .outside) (hlevels : ∀ lvl ∈ held, lvl < level lock)
    (blocking : Bool) (timeout : ℚ) : Consistent level owns held (.locking lock blocking timeout) where
  distinct := h.distinct
  mem_held := fun lvl => by
    rw [h.mem_held]
    simp
  locking := fun l _ _ heq => by
    cases heq
    exact hlevels
  locked := nofun
  unlocked := nofun

theorem Consistent.take {blocking : Bool} {timeout : ℚ}
    (h : Consistent level owns held (.locking lock blocking timeout)) (hfree : ¬ owns lock) :
    Consistent level (fun l => owns l ∨ l = lock) held (.locked lock) where
  distinct := by
    have hlt : ∀ l, owns l → level l < level lock := fun l hl =>
      h.locking lock blocking timeout rfl _ (h.level_mem hl nofun)
    rintro l m (hl | rfl) (hm | rfl) heq
    · exact h.distinct l m hl hm heq
    · exact absurd heq (ne_of_lt (hlt l hl))
    · exact absurd heq.symm (ne_of_lt (hlt m hm))
    · rfl
  mem_held := fun lvl => by
    rw [h.mem_held]
    refine exists_congr fun l => and_congr_left fun _ => ?_
    by_cases hl : l = lock
    · simp [hl, hfree]
    · simp [hl, Ne.symm hl]
  locking := nofun
  locked := fun l heq => by
    cases heq
    exact .inr rfl
  unlocked := nofun

omit [DecidableEq L] in
theorem Consistent.giveUp {blocking : Bool} {timeout : ℚ}
    (h : Consistent level owns held (.locking lock blocking timeout)) : Consistent level owns held .outside where
  distinct := h.distinct
  mem_held := fun lvl => by
    rw [h.mem_held]
    simp
  locking := nofun
  locked := nofun
  unlocked := nofun

theorem Consistent.add (h : Consistent level owns held (.locked lock)) :
    Consistent level owns (insert (level lock) held) .outside where
  distinct := h.distinct
  mem_held := fun lvl => by
    rw [Finset.mem_insert, h.mem_held]
    constructor
    · rintro (rfl | ⟨l, ⟨hl, -⟩ | heq, rfl⟩)
      · exact ⟨lock, .inl ⟨h.locked lock rfl, nofun⟩, rfl⟩
      · exact ⟨l, .inl ⟨hl, nofun⟩, rfl⟩
      · cases heq
    · rintro ⟨l, ⟨hl, -⟩ | heq, rfl⟩
      · by_cases hlock : l = lock
        · exact .inl (by rw [hlock])
        · exact .inr ⟨l, .inl ⟨hl, by simp [Ne.symm hlock]⟩, rfl⟩
      · cases heq
  locking := nofun
  locked := nofun
  unlocked := nofun

theorem Consistent.release (h : Consistent level owns held .outside) (hlock : owns lock) :
    Consistent level (fun l => owns l ∧ l ≠ lock) held (.unlocked lock) where
  distinct := fun l m hl hm => h.distinct l m hl.1 hm.1
  mem_held := fun lvl => by
    rw [h.mem_held]
    refine exists_congr fun l => and_congr_left fun _ => ?_
    by_cases hl : l = lock
    · simp [hl, hlock]
    · simp [hl, Ne.symm hl]
  locking := nofun
  locked := nofun
  unlocked := fun l heq m hm hlevel => by
    cases heq
    exact hm.2 (h.distinct m lock hm.1 hlock hlevel)

omit [DecidableEq L] in
theorem Consistent.discard (h : Consistent level owns held (.unlocked lock)) :
    Consistent level owns (held.erase (level lock)) .outside where
  distinct := h.distinct
  mem_held := fun lvl => by
    rw [Finset.mem_erase, h.mem_held]
    constructor
    · rintro ⟨hne, l, ⟨hl, -⟩ | heq, rfl⟩
      · exact ⟨l, .inl ⟨hl, nofun⟩, rfl⟩
      · cases heq
        exact absurd rfl hne
    · rintro ⟨l, ⟨hl, -⟩ | heq, rfl⟩
      · exact ⟨h.unlocked lock rfl l hl, l, .inl ⟨hl, nofun⟩, rfl⟩
      · cases heq
  locking := nofun
  locked := nofun
  unlocked := nofun

/-! ## All threads -/

variable (level) in
/-- What a thread's action may make of a state. -/
inductive Moved (s : LockState T L) : LockState T L → Prop
  | start (t : T) (lock : L) (blocking : Bool) (timeout : ℚ) (hphase : s.phase t = .outside)
      (hlevels : ∀ lvl ∈ s.held t, lvl < level lock) :
      Moved s { s with phase := Function.update s.phase t (.locking lock blocking timeout) }
  | take (t : T) (lock : L) (blocking : Bool) (timeout : ℚ) (hphase : s.phase t = .locking lock blocking timeout)
      (hfree : s.owner lock = none) :
      Moved s { s with
        owner := Function.update s.owner lock (some t)
        phase := Function.update s.phase t (.locked lock) }
  | giveUp (t : T) (lock : L) (blocking : Bool) (timeout : ℚ) (hphase : s.phase t = .locking lock blocking timeout) :
      Moved s { s with phase := Function.update s.phase t .outside }
  | add (t : T) (lock : L) (hphase : s.phase t = .locked lock) :
      Moved s { s with
        held := Function.update s.held t (insert (level lock) (s.held t))
        phase := Function.update s.phase t .outside }
  | release (t : T) (lock : L) (hphase : s.phase t = .outside) (howner : s.owner lock = some t) :
      Moved s { s with
        owner := Function.update s.owner lock none
        phase := Function.update s.phase t (.unlocked lock) }
  | discard (t : T) (lock : L) (hphase : s.phase t = .unlocked lock) :
      Moved s { s with
        held := Function.update s.held t ((s.held t).erase (level lock))
        phase := Function.update s.phase t .outside }

omit [DecidableEq L] in
/-- A call that gets past the checks. -/
theorem acquire_ok {t : T} {blocking : Bool} {timeout : ℚ} {s' : LockState T L}
    (h : acquire level timeoutMax s t lock blocking timeout = .ok s') :
    (∀ lvl ∈ s.held t, lvl < level lock) ∧
      s' = { s with phase := Function.update s.phase t (.locking lock blocking timeout) } := by
  unfold acquire at h
  split_ifs at h with hlevels
  cases h
  exact ⟨fun lvl hlvl => not_le.mp fun hle => hlevels ⟨lvl, hlvl, hle⟩, rfl⟩

theorem lockStep_cases (level : L → LockHierarchy) (timeoutMax : ℚ) (s : LockState T L) (act : LockAct T L) :
    lockStep level timeoutMax s act = s ∨ Moved level s (lockStep level timeoutMax s act) := by
  cases act with
  | acquire t lock blocking timeout =>
    unfold lockStep
    dsimp only
    split
    · cases hcall : acquire level timeoutMax s t lock blocking timeout with
      | error e => exact .inl rfl
      | ok s' =>
        obtain ⟨hlevels, rfl⟩ := acquire_ok hcall
        exact .inr (.start t lock blocking timeout ‹_› hlevels)
    · exact .inl rfl
  | take t =>
    unfold lockStep
    dsimp only
    split
    · split
      · exact .inr (.take t _ _ _ ‹_› ‹_›)
      · exact .inl rfl
    · exact .inl rfl
  | giveUp t =>
    unfold lockStep
    dsimp only
    split
    · split
      · exact .inr (.giveUp t _ _ _ ‹_›)
      · exact .inl rfl
    · exact .inl rfl
  | add t =>
    unfold lockStep
    dsimp only
    split
    · exact .inr (.add t _ ‹_›)
    · exact .inl rfl
  | release t lock =>
    unfold lockStep
    dsimp only
    split
    · rename_i h
      exact .inr (.release t lock h.1 h.2)
    · exact .inl rfl
  | discard t =>
    unfold lockStep
    dsimp only
    split
    · exact .inr (.discard t _ ‹_›)
    · exact .inl rfl

variable (level) in
/-- Every thread is consistent. -/
def AllConsistent (s : LockState T L) : Prop :=
  ∀ t, Consistent level (fun l => s.owner l = some t) (s.held t) (s.phase t)

omit [DecidableEq T] [DecidableEq L] in
/-- A thread whose locks, `held` and phase are as they were. -/
theorem Consistent.of_keep {s s' : LockState T L} {u : T}
    (h : Consistent level (fun l => s.owner l = some u) (s.held u) (s.phase u))
    (howner : ∀ l, s'.owner l = some u ↔ s.owner l = some u) (hheld : s'.held u = s.held u)
    (hphase : s'.phase u = s.phase u) :
    Consistent level (fun l => s'.owner l = some u) (s'.held u) (s'.phase u) := by
  rw [hheld, hphase]
  exact h.of_iff howner

omit [DecidableEq T] in
/-- A lock that changes hands between others. -/
theorem owner_update {owner : L → Option T} {lock : L} {o : Option T} {u : T} (hnew : o ≠ some u)
    (hold : owner lock ≠ some u) (l : L) : Function.update owner lock o l = some u ↔ owner l = some u := by
  by_cases hl : l = lock
  · subst hl
    simp [hnew, hold]
  · rw [Function.update_of_ne hl]

/-- **One action** keeps every thread consistent: the one that acts, and the others. -/
theorem AllConsistent.moved {s s' : LockState T L} (h : AllConsistent level s) (hmoved : Moved level s s') :
    AllConsistent level s' := by
  intro u
  cases hmoved with
  | start t lock blocking timeout hphase hlevels =>
    by_cases hu : u = t
    · subst hu
      have hstart := h u
      rw [hphase] at hstart
      simpa using hstart.start hlevels blocking timeout
    · exact (h u).of_keep (fun _ => Iff.rfl) rfl (Function.update_of_ne hu _ _)
  | take t lock blocking timeout hphase hfree =>
    by_cases hu : u = t
    · subst hu
      have htake := h u
      rw [hphase] at htake
      have htaken := htake.take (by rw [hfree]; exact nofun)
      dsimp only
      rw [Function.update_self]
      refine htaken.of_iff fun l => ?_
      by_cases hl : l = lock
      · simp [hl]
      · simp [hl]
    · refine (h u).of_keep (owner_update ?_ ?_) rfl (Function.update_of_ne hu _ _)
      · exact fun hsome => hu (Option.some.inj hsome).symm
      · simp [hfree]
  | giveUp t lock blocking timeout hphase =>
    by_cases hu : u = t
    · subst hu
      have hgiveUp := h u
      rw [hphase] at hgiveUp
      simpa using hgiveUp.giveUp
    · exact (h u).of_keep (fun _ => Iff.rfl) rfl (Function.update_of_ne hu _ _)
  | add t lock hphase =>
    by_cases hu : u = t
    · subst hu
      have hadd := h u
      rw [hphase] at hadd
      simpa using hadd.add
    · exact (h u).of_keep (fun _ => Iff.rfl) (Function.update_of_ne hu _ _) (Function.update_of_ne hu _ _)
  | release t lock hphase howner =>
    by_cases hu : u = t
    · subst hu
      have hrelease := h u
      rw [hphase] at hrelease
      have hreleased := hrelease.release howner
      dsimp only
      rw [Function.update_self]
      refine hreleased.of_iff fun l => ?_
      by_cases hl : l = lock
      · simp [hl]
      · simp [hl]
    · refine (h u).of_keep (owner_update ?_ ?_) rfl (Function.update_of_ne hu _ _)
      · simp
      · exact fun hsome => hu (Option.some.inj (howner.symm.trans hsome)).symm
  | discard t lock hphase =>
    by_cases hu : u = t
    · subst hu
      have hdiscard := h u
      rw [hphase] at hdiscard
      simpa using hdiscard.discard
    · exact (h u).of_keep (fun _ => Iff.rfl) (Function.update_of_ne hu _ _) (Function.update_of_ne hu _ _)

/-- **Every run** keeps every thread consistent. -/
theorem consistent_run (level : L → LockHierarchy) (timeoutMax : ℚ) (acts : List (LockAct T L)) :
    AllConsistent level (Runs.run (lockStep level timeoutMax) {} acts) := by
  refine Runs.invariant (fun t => consistent_new.of_iff fun l => by simp) (fun s act h => ?_) acts
  rcases lockStep_cases level timeoutMax s act with hsame | hmoved
  · rwa [hsame]
  · exact h.moved hmoved

/-! ## The graph -/

omit [DecidableEq L] in
theorem wants_eq_some {l : L} : phase.wants = some l ↔ ∃ timeout, phase = .locking l true timeout := by
  unfold Phase.wants
  split
  · simp
  · rename_i hnot
    exact iff_of_false nofun fun ⟨timeout, heq⟩ => hnot l timeout heq

omit [DecidableEq T] [DecidableEq L] in
/-- A thread wants a lock above all those that it owns. -/
theorem AllConsistent.ordered (h : AllConsistent level s) : Ordered s.owner (fun t => (s.phase t).wants) level := by
  intro t l m hwants howner
  obtain ⟨timeout, hphase⟩ := wants_eq_some.mp hwants
  have hmem := (h t).level_mem howner (by rw [hphase]; exact nofun)
  exact (h t).locking l true timeout hphase _ hmem

/-- A call at a level that the thread holds, or below, raises and does nothing. -/
theorem acquire_raises {t : T} (h : ∃ lvl ∈ s.held t, level lock ≤ lvl) (blocking : Bool) (timeout : ℚ) :
    acquire level timeoutMax s t lock blocking timeout = .error .RuntimeError ∧
      lockStep level timeoutMax s (.acquire t lock blocking timeout) = s := by
  have herror : acquire level timeoutMax s t lock blocking timeout = .error .RuntimeError := if_pos h
  refine ⟨herror, ?_⟩
  unfold lockStep
  dsimp only
  rw [herror]
  exact ite_self s

/-- **The hierarchy.** In every state of every run: `held` has the levels of the locks that the thread holds; the
wait-for graph has no cycle, and from every thread it leads to one that does not wait; and an `acquire` that would close
a cycle, or is of a level that the thread holds or has passed, raises before it blocks and changes nothing. -/
theorem hierarchy_acyclic (level : L → LockHierarchy) (timeoutMax : ℚ) (acts : List (LockAct T L)) :
    let s := Runs.run (lockStep level timeoutMax) {} acts
    (∀ t lvl, lvl ∈ s.held t ↔ ∃ lock, s.Holds t lock ∧ level lock = lvl) ∧
      (∀ t, ¬ TransGen s.WaitsFor t t) ∧ (∀ t, ∃ u, ReflTransGen s.WaitsFor t u ∧ ∀ v, ¬ s.WaitsFor u v) ∧
      ∀ t lock blocking timeout, s.phase t = .outside →
        ((∃ u, TransGen (LockState.WaitsFor
            { s with phase := Function.update s.phase t (.locking lock true timeout) }) u u) ∨
          ∃ m, s.Holds t m ∧ level lock ≤ level m) →
        acquire level timeoutMax s t lock blocking timeout = .error .RuntimeError ∧
          lockStep level timeoutMax s (.acquire t lock blocking timeout) = s := by
  intro s
  have h : AllConsistent level s := consistent_run level timeoutMax acts
  refine ⟨fun t => (h t).mem_held, h.ordered.acyclic, h.ordered.exists_runnable, ?_⟩
  intro t lock blocking timeout hphase hcycle
  refine acquire_raises ?_ blocking timeout
  rcases hcycle with ⟨u, hcycle⟩ | ⟨m, hholds, hle⟩
  · by_contra hnone
    have hlevels : ∀ lvl ∈ s.held t, lvl < level lock := fun lvl hlvl => not_le.mp fun hle => hnone ⟨lvl, hlvl, hle⟩
    exact (h.moved (.start t lock true timeout hphase hlevels)).ordered.acyclic u hcycle
  · exact ⟨level m, ((h t).mem_held _).mpr ⟨m, hholds, rfl⟩, hle⟩

end MikoV2.Utils
