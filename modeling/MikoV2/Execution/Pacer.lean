import Mathlib.Algebra.Order.Floor.Defs
import Mathlib.Data.Rat.Floor
import Mathlib.Logic.Function.Basic
import MikoV2.Lib.MinQueue

/-!
# The pacer

A priority heap of requests: the next one out has the least priority number, and among equals the least
sequence number. An entry that has aged by `n` seconds goes back `n` classes higher; one that comes too soon
after the last of its class goes back as it is. A `pop` loops over `turn`, and lets others run in between.

* `enqueue`, `turn`, `minDelay` : the source's functions, one lock region each;
* `enqueue_cases`, `turn_cases` : everything they can do.
-/

namespace MikoV2.Execution

structure PacerConfig where
  criticalSpacingMs : ℕ := 2
  normalSpacingMs : ℕ := 20
  rebuildSpacingMs : ℕ := 50
  criticalMaxsize : ℕ := 200

/-- `_PacerItem`. -/
structure PacerItem (Payload : Type) where
  basePrio : ℤ
  seq : ℕ
  enqueueTs : ℚ
  payload : Payload
  deriving DecidableEq

variable {Payload : Type}

/-- The dataclass compares `(base_prio, seq)`. -/
def PacerItem.le (a b : PacerItem Payload) : Prop :=
  a.basePrio < b.basePrio ∨ a.basePrio = b.basePrio ∧ a.seq ≤ b.seq

instance : DecidableRel (@PacerItem.le Payload) := fun _ _ => inferInstanceAs (Decidable (_ ∨ _))

instance : Std.Total (@PacerItem.le Payload) :=
  ⟨fun a b => by unfold PacerItem.le; omega⟩

instance : IsTrans (PacerItem Payload) PacerItem.le :=
  ⟨fun a b c hab hbc => by unfold PacerItem.le at *; omega⟩

theorem PacerItem.le_antisymm {a b : PacerItem Payload} (hab : a.le b) (hba : b.le a) : b.seq = a.seq := by
  unfold PacerItem.le at *
  omega

structure Pacer (Payload : Type) where
  heap : MinQueue (@PacerItem.le Payload)
  /-- the next number of `itertools.count()` -/
  seq : ℕ
  lastDispatch : ℤ → ℚ

namespace Pacer

def empty : Pacer Payload := ⟨MinQueue.empty, 0, fun _ => 0⟩

def qsize (p : Pacer Payload) : ℕ := p.heap.items.length

/-- `self._min_delay`, in seconds. -/
def minDelay (cfg : PacerConfig) (prio : ℤ) : ℚ :=
  if prio = 0 then cfg.criticalSpacingMs / 1000
  else if prio = 1 then cfg.normalSpacingMs / 1000
  else cfg.rebuildSpacingMs / 1000

/-- What `enqueue` raises. -/
inductive Refusal where
  /-- `AssertionError`: not a priority -/
  | assertion
  /-- `RuntimeError`: the critical pacer is full -/
  | full
  deriving DecidableEq, Repr

/-- `enqueue(base_prio, payload)`, with the reading of `time.time()`. -/
def enqueue (cfg : PacerConfig) (basePrio : ℤ) (payload : Payload) (time : ℚ) (p : Pacer Payload) :
    Except Refusal (Pacer Payload) :=
  if basePrio ∉ [0, 1, 2] then .error .assertion
  else if basePrio = 0 ∧ cfg.criticalMaxsize ≤ p.qsize then .error .full
  else .ok { p with heap := p.heap.push ⟨basePrio, p.seq, time, payload⟩, seq := p.seq + 1 }

/-- How one iteration of `pop` ends. -/
inductive Turn (Payload : Type) where
  /-- the heap is empty: `return None` -/
  | drained
  /-- an entry went back: sleep and loop -/
  | wait
  /-- the entry whose payload is returned -/
  | got (item : PacerItem Payload)

/-- Full seconds since the entry came, at least 0. -/
def ageBonus (item : PacerItem Payload) (time : ℚ) : ℤ := max 0 ⌊time - item.enqueueTs⌋

def effective (item : PacerItem Payload) (time : ℚ) : ℤ := max 0 (min 2 (item.basePrio - ageBonus item time))

/-- One iteration of the loop in `pop`, with the readings of `time.time()` and `time.monotonic()`. -/
def turn (cfg : PacerConfig) (time mono : ℚ) (p : Pacer Payload) : Turn Payload × Pacer Payload :=
  match p.heap.pop with
  | none => (.drained, p)
  | some (item, rest) =>
    if effective item time < item.basePrio then
      (.wait, { p with heap := rest.push { item with basePrio := effective item time } })
    else if 0 < minDelay cfg (effective item time) - (mono - p.lastDispatch item.basePrio) then
      (.wait, { p with heap := rest.push item })
    else (.got item, { p with heap := rest, lastDispatch := Function.update p.lastDispatch item.basePrio mono })

/-! ## What they can do -/

section Cases
variable {cfg : PacerConfig} {basePrio : ℤ} {payload : Payload} {time mono : ℚ} {p p' : Pacer Payload} {t : Turn Payload}

theorem enqueue_ok (h : enqueue cfg basePrio payload time p = .ok p') :
    (0 ≤ basePrio ∧ basePrio ≤ 2) ∧
      p' = { p with heap := p.heap.push ⟨basePrio, p.seq, time, payload⟩, seq := p.seq + 1 } := by
  unfold enqueue at h
  split at h
  · cases h
  · rename_i hprio
    split at h
    · cases h
    · cases h
      refine ⟨?_, rfl⟩
      simp only [List.mem_cons, List.not_mem_nil, or_false, not_not] at hprio
      omega

/-- An iteration finds nothing, or puts the least entry back under the same or a smaller priority, or hands
it out. -/
theorem turn_cases (h : turn cfg time mono p = (t, p')) :
    (t = .drained ∧ p' = p ∧ p.heap.items = []) ∨
      ∃ item rest, p.heap.pop = some (item, rest) ∧
        ((t = .wait ∧ ∃ prio, prio ≤ item.basePrio ∧ (0 ≤ prio ∨ prio = item.basePrio) ∧
            p' = { p with heap := rest.push { item with basePrio := prio } }) ∨
          (t = .got item ∧
            p' = { p with
              heap := rest, lastDispatch := Function.update p.lastDispatch item.basePrio mono })) := by
  unfold turn at h
  split at h
  · rename_i hpop
    cases h
    exact Or.inl ⟨rfl, rfl, MinQueue.pop_none.mp hpop⟩
  · rename_i item rest hpop
    refine Or.inr ⟨item, rest, hpop, ?_⟩
    split at h
    · rename_i haged
      cases h
      exact Or.inl ⟨rfl, _, haged.le, Or.inl (le_max_left _ _), rfl⟩
    · split at h
      · cases h
        exact Or.inl ⟨rfl, item.basePrio, le_refl _, Or.inr rfl, rfl⟩
      · cases h
        exact Or.inr ⟨rfl, rfl⟩

end Cases

end Pacer

end MikoV2.Execution
