import MikoV2.Execution.Aging

/-!
# What fills the pacer

`enqueue` refuses a CRITICAL entry when the heap, whatever is in it, has `critical_maxsize` entries.

* `criticals`, `others` : the entries in the heap that were accepted as CRITICAL, and the rest;
* `criticals_le` : never more than `critical_maxsize` of the first;
* `RefusedByCriticals` : a CRITICAL entry is refused for these alone, and then nothing changes;
* `refusedByCriticals_iff_room` : that is so while the others leave room, or the first fill the heap.
-/

namespace MikoV2.Execution

variable {Payload : Type}

/-- A CRITICAL entry is refused at exactly `critical_maxsize` entries. -/
theorem Pacer.enqueue_critical_full {cfg : PacerConfig} {p : Pacer Payload} {payload : Payload} {time : ℚ} :
    p.enqueue cfg 0 payload time = .error .full ↔ cfg.criticalMaxsize ≤ p.qsize := by
  unfold Pacer.enqueue
  rw [if_neg (by decide)]
  by_cases hfull : cfg.criticalMaxsize ≤ p.qsize
  · simp [hfull]
  · simp [hfull]

namespace PopWorld

/-- The entries in the heap that were accepted as CRITICAL. -/
def criticals (w : PopWorld Payload) : ℕ := w.pacer.heap.items.countP fun item => w.classOf item.seq = some 0

/-- The entries in the heap that were accepted as NORMAL or REBUILD. -/
def others (w : PopWorld Payload) : ℕ := w.pacer.heap.items.countP fun item => w.classOf item.seq ≠ some 0

/-- A CRITICAL entry is refused when as many CRITICAL ones as there may be have not left yet, and only then; a
refusal leaves everything as it is. -/
def RefusedByCriticals (cfg : PacerConfig) (w : PopWorld Payload) : Prop :=
  ∀ payload time,
    (w.pacer.enqueue cfg 0 payload time = .error .full ↔ cfg.criticalMaxsize ≤ w.criticals) ∧
      (w.pacer.enqueue cfg 0 payload time = .error .full → popStep cfg w (.enqueue 0 payload time) = w)

/-- The NORMAL and REBUILD entries leave room for one more, or the CRITICAL ones are as many as there may be. -/
def Room (cfg : PacerConfig) (w : PopWorld Payload) : Prop :=
  w.criticals + w.others < cfg.criticalMaxsize ∨ w.criticals = cfg.criticalMaxsize

section Steps
variable {cfg : PacerConfig} {w : PopWorld Payload}

theorem criticals_add_others (w : PopWorld Payload) : w.criticals + w.others = w.pacer.qsize := by
  unfold criticals others Pacer.qsize
  rw [List.length_eq_countP_add_countP fun item : PacerItem Payload => w.classOf item.seq = some 0]
  simp

/-- A CRITICAL entry comes in while the heap has room, any other is not counted. -/
theorem criticals_enqueue (hfaithful : Faithful w) (h : w.criticals ≤ cfg.criticalMaxsize) (basePrio : ℤ)
    (payload : Payload) (time : ℚ) :
    (popStep cfg w (.enqueue basePrio payload time)).criticals ≤ cfg.criticalMaxsize := by
  simp only [popStep]
  split
  · exact h
  rename_i pacer henq
  have hroom : basePrio = 0 → w.pacer.qsize < cfg.criticalMaxsize := by
    rintro rfl
    by_contra hfull
    rw [Pacer.enqueue_critical_full.mpr (not_lt.mp hfull)] at henq
    cases henq
  obtain ⟨-, rfl⟩ := Pacer.enqueue_ok henq
  by_cases hprio : basePrio = 0
  · refine le_trans ?_ (hroom hprio)
    refine List.countP_le_length.trans ?_
    exact le_of_eq (MinQueue.length_push _ _)
  · refine le_trans (le_of_eq ?_) h
    have hnew : (w.accepted ++ [(basePrio, payload)])[w.pacer.seq]?.map Prod.fst = some basePrio := by
      rw [hfaithful.count, List.getElem?_concat_length]
      rfl
    unfold criticals
    rw [(MinQueue.push_perm _ _).countP_eq, List.countP_cons_of_neg]
    · refine List.countP_congr fun item hitem => ?_
      have hlt : item.seq < w.accepted.length := hfaithful.classes.inside_lt (List.mem_map_of_mem hitem)
      simp only [classOf, List.getElem?_append_left hlt]
      rfl
    · simp only [classOf, hnew, Option.some.injEq, hprio, decide_false, Bool.false_eq_true, not_false_eq_true]

theorem criticals_step (hfaithful : Faithful w) (h : w.criticals ≤ cfg.criticalMaxsize) (e : PopEvent Payload) :
    (popStep cfg w e).criticals ≤ cfg.criticalMaxsize := by
  cases e with
  | pop | cancel call => exact h
  | enqueue basePrio payload time => exact criticals_enqueue hfaithful h basePrio payload time
  | turn call time mono =>
    simp only [popStep]
    split
    swap
    · exact h
    split
    · exact h
    · rename_i pacer hturn
      rcases Pacer.turn_cases hturn with ⟨ht, -⟩ | ⟨item, rest, hpop, ⟨-, prio, -, -, rfl⟩ | ⟨ht, -⟩⟩
      · cases ht
      · obtain ⟨hitems, -⟩ := MinQueue.pop_some hpop
        refine le_trans (le_of_eq ?_) h
        unfold criticals
        rw [(MinQueue.push_perm _ _).countP_eq, hitems]
        simp only [List.countP_cons]
        rfl
      · cases ht
    · rename_i item pacer hturn
      rcases Pacer.turn_cases hturn with ⟨ht, -⟩ | ⟨item', rest, hpop, ⟨ht, -⟩ | ⟨-, rfl⟩⟩
      · cases ht
      · cases ht
      · obtain ⟨hitems, -⟩ := MinQueue.pop_some hpop
        refine le_trans ?_ h
        unfold criticals
        rw [hitems]
        exact (List.sublist_cons_self item' rest.items).countP_le

/-- Never more CRITICAL entries than there may be. -/
theorem criticals_le (cfg : PacerConfig) (events : List (PopEvent Payload)) :
    (Runs.run (popStep cfg) fresh events).criticals ≤ cfg.criticalMaxsize :=
  (Runs.invariant (I := fun w : PopWorld Payload => Faithful w ∧ w.criticals ≤ cfg.criticalMaxsize)
    ⟨faithful_fresh, Nat.zero_le _⟩ (fun _ e h => ⟨faithful_step h.1 e, criticals_step h.1 h.2 e⟩) events).2

/-- One state: a refusal is for the CRITICAL entries alone if the others leave room or there are as many CRITICAL
ones as there may be. -/
theorem refusedByCriticals_iff [Inhabited Payload] (h : w.criticals ≤ cfg.criticalMaxsize) :
    RefusedByCriticals cfg w ↔ Room cfg w := by
  have hcount := criticals_add_others w
  unfold RefusedByCriticals Room
  constructor
  · intro hall
    have hiff := (hall default 0).1
    rw [Pacer.enqueue_critical_full] at hiff
    omega
  · intro hroom payload time
    refine ⟨?_, fun hfull => ?_⟩
    · rw [Pacer.enqueue_critical_full]
      omega
    · simp only [popStep, hfull]

end Steps

/-- **A CRITICAL entry is refused for CRITICAL ones alone** in exactly the runs in which the NORMAL and REBUILD
entries always leave room for one more, or as many CRITICAL ones are waiting as there may be. -/
theorem refusedByCriticals_iff_room [Inhabited Payload] (cfg : PacerConfig) (events : List (PopEvent Payload)) :
    Runs.Always (RefusedByCriticals cfg) (popStep cfg) fresh events ↔
      Runs.Always (Room cfg) (popStep cfg) fresh events :=
  forall_congr' fun pre => forall_congr' fun _ => refusedByCriticals_iff (criticals_le cfg pre)

/-- A number of NORMAL entries. -/
def normals (n : ℕ) : List (PopEvent String) := List.replicate n (.enqueue 1 "normal" 0)

theorem run_normals (cfg : PacerConfig) (n : ℕ) :
    (Runs.run (popStep cfg) fresh (normals n)).accepted = List.replicate n (1, "normal") ∧
      (Runs.run (popStep cfg) fresh (normals n)).pacer.qsize = n := by
  induction n with
  | zero => exact ⟨rfl, rfl⟩
  | succ n ih =>
    obtain ⟨haccepted, hsize⟩ := ih
    have hsnoc : normals (n + 1) = normals n ++ [.enqueue 1 "normal" 0] := List.replicate_succ'
    rw [hsnoc, Runs.run_append, List.replicate_succ', ← haccepted]
    refine ⟨rfl, (MinQueue.length_push (r := PacerItem.le) ⟨1, _, 0, "normal"⟩ _).trans ?_⟩
    exact congrArg (· + 1) hsize

theorem criticals_normals (cfg : PacerConfig) (n : ℕ) : (Runs.run (popStep cfg) fresh (normals n)).criticals = 0 := by
  obtain ⟨haccepted, -⟩ := run_normals cfg n
  refine List.countP_eq_zero.mpr fun item _ => ?_
  simp [classOf, haccepted, List.getElem?_replicate]

/-- With the default configuration, 200 NORMAL entries and no CRITICAL one keep a CRITICAL one out. -/
theorem not_refusedByCriticals_normals : ¬ ∀ events : List (PopEvent String),
    Runs.Always (RefusedByCriticals {}) (popStep {}) fresh events := by
  intro hall
  have hiff := ((hall (normals 200)).last "emergency" 1).1
  rw [Pacer.enqueue_critical_full, (run_normals {} 200).2, criticals_normals] at hiff
  exact absurd (hiff.mp (le_refl _)) (by decide)

end PopWorld

end MikoV2.Execution
