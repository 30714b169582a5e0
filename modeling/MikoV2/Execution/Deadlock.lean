import MikoV2.Execution.FillLock

/-!
# The lock that waits for itself

A round of `on_fill_event` writes inside its own section of the lock, through a method that asks for the lock again.

* `resume_enter`, `resume_queue`, `resume_leave` : what a step of a call does;
* `Calm` : the lock is proper, nobody waits for a lock that it holds, and a call that has it or waits for it goes on;
* `Nests` : the step that makes a call wait for its own lock; `Calm.step` : the others keep `Calm`;
* `Calm.progress`, `canFinish` : what is left becomes less, until every call is finished.
-/

namespace MikoV2.Execution

/-- Where a call stands after a step. -/
def Next.target : Next → Option Point
  | .done => none
  | .goto p => some p
  | .nested p => some p

namespace LockWorld

/-- A call begins the section of a round with the lock, on a connected writer, and goes on to the database. -/
def Nests (w : LockWorld) : LockEvent → Prop
  | .resume id _ => ∃ e k, w.tasks id = some (.fillRound e k) ∧ id ∉ w.lock.waiters ∧
      (w.lock.holder = some id ∨ w.lock.holder = none) ∧ w.connected = true ∧ w.Advances e
  | _ => False

/-- The fill event of the call will go on to the database, unless the memory or the connection changes. -/
def Dooms (cfg : LockConfig) (w : LockWorld) : Point → Prop
  | .fillCheck e => OrderManager.check cfg.orders (w.existing e.orderId) e.fillQty = none ∧ 0 < cfg.orders.maxRetry
  | .fillRound e _ => w.Advances e
  | _ => False

/-- A fill event is on its way to a connected database. -/
def Threatened (cfg : LockConfig) (w : LockWorld) : Prop :=
  w.connected = true ∧ ∃ id p, w.tasks id = some p ∧ w.Dooms cfg p

/-- Every call can run to completion, with the answers from outside. -/
def CanFinish (cfg : LockConfig) (w : LockWorld) : Prop :=
  ∃ rs : List (ℕ × LockAnswer), ∀ id, (Runs.run (step cfg) w (rs.map fun r => .resume r.1 r.2)).tasks id = none

/-- Nobody waits for a lock that it holds; and unless a fill event is on its way to the database, every call can run
to completion. -/
def Sound (cfg : LockConfig) (w : LockWorld) : Prop :=
  ¬ w.lock.SelfWait ∧ (¬ w.Threatened cfg → w.CanFinish cfg)

/-- Nobody waits for a lock that it holds, and the calls that the lock knows are not finished. -/
structure Calm (w : LockWorld) : Prop where
  proper : w.lock.Proper
  noSelfWait : ¬ w.lock.SelfWait
  fresh : ∀ id p, w.tasks id = some p → id < w.nextId
  holder : ∀ id, w.lock.holder = some id → w.tasks id ≠ none
  waiters : ∀ id ∈ w.lock.waiters, w.tasks id ≠ none

section Steps
variable {cfg : LockConfig} {w : LockWorld} {id : ℕ} {answer : LockAnswer} {p q : Point}

theorem calm_start (connected : Bool) (filled : String → Option ℚ) : (start connected filled).Calm where
  proper := Lock.proper_free
  noSelfWait := Lock.not_selfWait_free
  fresh := nofun
  holder := nofun
  waiters := nofun

/-! ## A step of a call -/

/-- The call `id` has the lock. -/
def withLock (w : LockWorld) (id : ℕ) : LockWorld := { w with lock := { w.lock with holder := some id } }

theorem resume_enter (htask : w.tasks id = some p) (hid : id ∉ w.lock.waiters)
    (hgets : w.lock.holder = some id ∨ w.lock.holder = none ∧ wants w.connected p = true) :
    w.resume cfg id answer = (w.withLock id).enter cfg id answer p := by
  unfold resume
  rw [htask]
  simp only [if_neg hid]
  rcases hgets with hhas | ⟨hfree, hwants⟩
  · have hsame : w.withLock id = w := by
      unfold withLock
      rw [← hhas]
    rw [if_pos hhas, hsame]
  · have hne : ¬ w.lock.holder = some id := by simp [hfree]
    rw [if_neg hne, if_pos hwants, Lock.acquire_none hfree]
    rfl

theorem resume_queue (htask : w.tasks id = some p) (hid : id ∉ w.lock.waiters) (hheld : w.lock.holder ≠ none)
    (hother : w.lock.holder ≠ some id) (hwants : wants w.connected p = true) :
    w.resume cfg id answer = { w with lock := { w.lock with waiters := w.lock.waiters ++ [id] } } := by
  obtain ⟨u, hu⟩ := Option.ne_none_iff_exists'.mp hheld
  unfold resume
  rw [htask]
  simp only [if_neg hid, if_neg hother, if_pos hwants, Lock.acquire_some hu]

theorem resume_leave (htask : w.tasks id = some p) (hid : id ∉ w.lock.waiters) (hother : w.lock.holder ≠ some id)
    (hwants : wants w.connected p = false) : w.resume cfg id answer = w.setTask id (outside cfg answer p).target := by
  unfold resume
  rw [htask]
  simp only [if_neg hid, if_neg hother, hwants, Bool.false_eq_true, if_false]
  unfold leave
  cases outside cfg answer p <;> rfl

/-- A section that does not ask for the lock again gives it back. -/
theorem enter_released (h : ∀ q, (critical cfg w answer p).1 ≠ .nested q) :
    w.enter cfg id answer p =
      { w.setTask id (critical cfg w answer p).1.target with
        filledByOrder := (critical cfg w answer p).2, lock := w.lock.release } := by
  unfold enter
  generalize critical cfg w answer p = r at h
  obtain ⟨next, filled⟩ := r
  cases next with
  | done => rfl
  | goto q => rfl
  | nested q => exact absurd rfl (h q)

theorem round_ne_nested (e : LockFill) (k : ℕ) (q : Point) : round cfg e k ≠ .nested q := by
  unfold round
  split <;> nofun

/-- Only the section of a round asks for the lock again. -/
theorem critical_nested (h : (critical cfg w answer p).1 = .nested q) :
    ∃ e k, p = .fillRound e k ∧ w.connected = true ∧ w.Advances e := by
  cases p with
  | fillRound e k =>
    simp only [critical] at h
    split at h
    · cases h
    rename_i hadv
    split at h
    · rename_i hconn
      exact ⟨e, k, rfl, hconn, Classical.not_not.mp hadv⟩
    · exact absurd h (round_ne_nested e (k + 1) q)
  | fillCheck e =>
    simp only [critical] at h
    split at h
    · cases h
    · cases h
    · exact absurd h (round_ne_nested e 0 q)
  | startup =>
    simp only [critical] at h
    split at h <;> cases h
  | listOpen write =>
    simp only [critical] at h
    split at h <;> cases h
  | fillUpdate e k => cases h
  | flipExchange => cases h
  | flipClose => cases h
  | marks left write => cases h
  | insertSnapshot => cases h
  | persist => cases h
  | attempt k => cases h
  | closePosition => cases h

/-- The section that does. -/
theorem enter_nests {e : LockFill} {k : ℕ} (hconn : w.connected = true) (hadv : w.Advances e) :
    w.enter cfg id answer (.fillRound e k) =
      { w.setTask id (some (.fillUpdate e k)) with lock := (w.lock.acquire id).2 } := by
  simp only [enter, critical, hadv, hconn, not_true, if_false, if_true]
  rfl

/-! ## What the steps keep -/

/-- A call that did not wait goes on without the lock. -/
theorem Calm.left (h : w.Calm) (htask : w.tasks id = some p) (hid : id ∉ w.lock.waiters)
    (hother : w.lock.holder ≠ some id) (t : Option Point) : (w.setTask id t).Calm where
  proper := h.proper
  noSelfWait := h.noSelfWait
  fresh u q hu := by
    by_cases hsame : u = id
    · rw [hsame]
      exact h.fresh id p htask
    · exact h.fresh u q (by simpa [setTask, hsame] using hu)
  holder u hu := by
    have hne : u ≠ id := fun hsame => hother (hsame ▸ hu)
    simpa [setTask, hne] using h.holder u hu
  waiters u hu := by
    have hne : u ≠ id := fun hsame => hid (hsame ▸ hu)
    simpa [setTask, hne] using h.waiters u hu

/-- A call that has had the lock gives it back. -/
theorem Calm.released (h : w.Calm) (htask : w.tasks id = some p) (hid : id ∉ w.lock.waiters) (t : Option Point)
    (filled : String → Option ℚ) :
    Calm { w.setTask id t with filledByOrder := filled, lock := (w.withLock id).lock.release } := by
  have hproper : (w.withLock id).lock.Proper := by
    refine ⟨nofun, h.proper.nodup⟩
  have hwaits : ∀ u ∈ w.lock.waiters, Function.update w.tasks id t u ≠ none := by
    intro u hu
    have hne : u ≠ id := fun hsame => hid (hsame ▸ hu)
    simpa [hne] using h.waiters u hu
  refine ⟨hproper.release.1, hproper.release.2, fun u q hu => ?_, fun u hu => ?_, fun u hu => ?_⟩
  · by_cases hsame : u = id
    · rw [hsame]
      exact h.fresh id p htask
    · exact h.fresh u q (by simpa [setTask, hsame] using hu)
  · exact hwaits u (Lock.mem_release.1 hu)
  · exact hwaits u (Lock.mem_release.2 hu)

theorem Calm.resume (h : w.Calm) (hok : ¬ w.Nests (.resume id answer)) : (w.resume cfg id answer).Calm := by
  cases htask : w.tasks id with
  | none =>
    have hstay : w.resume cfg id answer = w := by simp only [LockWorld.resume, htask]
    rw [hstay]
    exact h
  | some p =>
    by_cases hid : id ∈ w.lock.waiters
    · have hstay : w.resume cfg id answer = w := by simp only [LockWorld.resume, htask, if_pos hid]
      rw [hstay]
      exact h
    by_cases hgets : w.lock.holder = some id ∨ w.lock.holder = none ∧ wants w.connected p = true
    · have hfree : w.lock.holder = some id ∨ w.lock.holder = none := hgets.imp_right And.left
      have hgives : ∀ q, (critical cfg (w.withLock id) answer p).1 ≠ .nested q := by
        intro q hq
        obtain ⟨e, k, rfl, hconn, hadv⟩ := critical_nested hq
        exact hok ⟨e, k, htask, hid, hfree, hconn, hadv⟩
      rw [resume_enter htask hid hgets, enter_released hgives]
      exact h.released htask hid _ _
    · obtain ⟨hother, hrest⟩ := not_or.mp hgets
      cases hwants : wants w.connected p with
      | true =>
        have hheld : w.lock.holder ≠ none := fun hfree => hrest ⟨hfree, hwants⟩
        rw [resume_queue htask hid hheld hother hwants]
        refine ⟨h.proper.queue hheld hid, Lock.not_selfWait_queue h.noSelfWait hother, h.fresh, h.holder, ?_⟩
        intro u hu
        rcases List.mem_append.mp hu with hold | hnew
        · exact h.waiters u hold
        · rw [List.mem_singleton.mp hnew, htask]
          nofun
      | false =>
        rw [resume_leave htask hid hother hwants]
        exact h.left htask hid hother _

theorem Calm.spawn (h : w.Calm) (p : Point) : (w.spawn p).Calm where
  proper := h.proper
  noSelfWait := h.noSelfWait
  fresh u q hu := by
    show u < w.nextId + 1
    by_cases hsame : u = w.nextId
    · omega
    · have := h.fresh u q (by simpa [LockWorld.spawn, setTask, hsame] using hu)
      omega
  holder u hu := by
    by_cases hsame : u = w.nextId
    · simp [LockWorld.spawn, setTask, hsame]
    · simpa [LockWorld.spawn, setTask, hsame] using h.holder u hu
  waiters u hu := by
    by_cases hsame : u = w.nextId
    · simp [LockWorld.spawn, setTask, hsame]
    · simpa [LockWorld.spawn, setTask, hsame] using h.waiters u hu

theorem Calm.step (h : w.Calm) {e : LockEvent} (hok : ¬ w.Nests e) : (step cfg w e).Calm := by
  cases e with
  | onFillEvent e => exact h.spawn _
  | onStartup => exact h.spawn _
  | computeSnapshot => exact h.spawn _
  | snapshotOnce => exact h.spawn _
  | emergencyClose => exact h.spawn _
  | connect => exact ⟨h.proper, h.noSelfWait, h.fresh, h.holder, h.waiters⟩
  | close => exact ⟨h.proper, h.noSelfWait, h.fresh, h.holder, h.waiters⟩
  | resume id answer => exact h.resume hok

/-- The step that nests leaves a call that waits for its own lock. -/
theorem selfWait_of_nests {e : LockEvent} (h : w.Nests e) : (LockWorld.step cfg w e).lock.SelfWait := by
  cases e with
  | resume id answer =>
    obtain ⟨e, k, htask, hid, hfree, hconn, hadv⟩ := h
    have hgets : w.lock.holder = some id ∨ w.lock.holder = none ∧ wants w.connected (.fillRound e k) = true :=
      hfree.imp_right fun hnone => ⟨hnone, rfl⟩
    refine ⟨id, ?_⟩
    show ((w.resume cfg id answer).lock.holder = some id ∧ id ∈ (w.resume cfg id answer).lock.waiters)
    rw [resume_enter htask hid hgets, enter_nests (w := w.withLock id) hconn hadv, Lock.acquire_some (u := id) rfl]
    exact ⟨rfl, List.mem_append_right _ (List.mem_singleton_self id)⟩
  | _ => exact h.elim

/-! ## Every call can finish -/

/-- At most so many steps are left of a call, when it gets the default answers. -/
def rank (cfg : LockConfig) : Point → ℕ
  | .fillCheck _ => cfg.orders.maxRetry + 3
  | .fillRound _ k => cfg.orders.maxRetry - k + 1
  | .flipExchange => 2
  | .listOpen _ => 3
  | .marks left _ => left + 2
  | .persist => 2
  | _ => 1

def taskRank (cfg : LockConfig) (t : Option Point) : ℕ := t.elim 0 (rank cfg)

/-- The steps that are left. -/
def work (cfg : LockConfig) (w : LockWorld) : ℕ := ∑ id ∈ Finset.range w.nextId, taskRank cfg (w.tasks id)

theorem taskRank_round (e : LockFill) (k : ℕ) :
    taskRank cfg (round cfg e k).target ≤ cfg.orders.maxRetry - k + 1 := by
  unfold round
  split
  · exact le_refl _
  · exact Nat.zero_le _

/-- With the default answers, a section that does not nest brings its call nearer to its end. -/
theorem critical_rank (hgives : ∀ q, (critical cfg w {} p).1 ≠ .nested q) :
    taskRank cfg (critical cfg w {} p).1.target < rank cfg p := by
  cases p with
  | fillCheck e =>
    simp only [critical, rank]
    split
    · show 2 < _
      omega
    · show 0 < _
      omega
    · have hround : taskRank cfg (round cfg e 0).target ≤ cfg.orders.maxRetry - 0 + 1 := taskRank_round e 0
      show taskRank cfg (round cfg e 0).target < _
      omega
  | fillRound e k =>
    simp only [critical, rank] at hgives ⊢
    split
    · exact Nat.succ_pos _
    rename_i hadv
    split
    · rename_i hconn
      rw [if_neg hadv, if_pos hconn] at hgives
      exact absurd rfl (hgives _)
    · unfold round
      split
      · show cfg.orders.maxRetry - (k + 1) + 1 < _
        omega
      · exact Nat.succ_pos _
  | startup =>
    simp only [critical]
    split <;> exact Nat.one_pos
  | listOpen write =>
    simp only [critical]
    split
    · exact Nat.lt_succ_self 2
    · exact Nat.succ_pos _
  | marks left write => exact Nat.succ_pos _
  | persist => exact Nat.lt_succ_self 1
  | fillUpdate e k => exact Nat.one_pos
  | flipExchange => exact Nat.succ_pos _
  | flipClose => exact Nat.one_pos
  | insertSnapshot => exact Nat.one_pos
  | attempt k => exact Nat.one_pos
  | closePosition => exact Nat.one_pos

theorem critical_filled : (critical cfg w {} p).2 = w.filledByOrder := by
  cases p with
  | fillCheck e =>
    simp only [critical]
    split <;> rfl
  | fillRound e k =>
    simp only [critical]
    split
    · rfl
    split <;> rfl
  | startup =>
    simp only [critical]
    split <;> rfl
  | _ => rfl

/-- A section of a call that is not on its way to the database leaves it so. -/
theorem critical_dooms (hsafe : ¬ w.Dooms cfg p) (hq : (critical cfg w answer p).1.target = some q) :
    w.connected = true → ¬ w.Dooms cfg q := by
  intro hconn
  cases p with
  | fillCheck e =>
    simp only [critical] at hq
    split at hq
    · cases hq
      nofun
    · cases hq
    · rename_i hcheck
      have hnone : ¬ 0 < cfg.orders.maxRetry := fun hpos => hsafe ⟨hcheck, hpos⟩
      rw [round, if_neg hnone] at hq
      cases hq
  | fillRound e k =>
    have hstays : ¬ w.Advances e := hsafe
    simp only [critical, if_pos hstays] at hq
    cases hq
  | startup =>
    simp only [critical] at hq
    split at hq <;> cases hq
  | listOpen write =>
    simp only [critical, if_pos hconn] at hq
    cases hq
    nofun
  | persist =>
    cases hq
    nofun
  | _ => cases hq

theorem outside_rank (hfree : wants w.connected p = false) : taskRank cfg (outside cfg {} p).target < rank cfg p := by
  cases p with
  | marks left write =>
    cases left with
    | zero => cases write <;> simp [outside, Next.target, taskRank, rank]
    | succ n => exact Nat.lt_succ_self _
  | flipExchange => exact Nat.lt_succ_self 1
  | persist => exact Nat.lt_succ_self 1
  | attempt k => exact Nat.one_pos
  | flipClose => exact Nat.one_pos
  | insertSnapshot => exact Nat.one_pos
  | closePosition => exact Nat.one_pos
  | fillCheck e => cases hfree
  | fillRound e k => cases hfree
  | fillUpdate e k => cases hfree
  | startup => cases hfree
  | listOpen write => cases hfree

theorem outside_dooms (hq : (outside cfg answer p).target = some q) : ¬ w.Dooms cfg q := by
  cases p with
  | marks left write =>
    cases left with
    | zero =>
      cases write with
      | false => cases hq
      | true =>
        cases hq
        nofun
    | succ n =>
      cases hq
      nofun
  | flipExchange =>
    cases hq
    nofun
  | persist =>
    cases hq
    nofun
  | attempt k =>
    simp only [outside] at hq
    split at hq
    · cases hq
      nofun
    · split at hq
      · cases hq
        nofun
      · cases hq
    · cases hq
  | _ => cases hq

/-- A call that does not wait leaves less work. -/
theorem work_lt (hid : id < w.nextId) (htask : w.tasks id = some p) {t : Option Point}
    (hless : taskRank cfg t < rank cfg p) {w' : LockWorld} (hnext : w'.nextId = w.nextId)
    (htasks : w'.tasks = Function.update w.tasks id t) : work cfg w' < work cfg w := by
  unfold work
  rw [hnext, htasks]
  refine Finset.sum_lt_sum (fun u _ => ?_) ⟨id, Finset.mem_range.mpr hid, ?_⟩
  · by_cases hsame : u = id
    · rw [hsame, Function.update_self, htask]
      exact hless.le
    · rw [Function.update_of_ne hsame]
  · rw [Function.update_self, htask]
    exact hless

/-- The fill events that are on their way stay the same when a call goes on. -/
theorem not_threatened_update (h : ¬ w.Threatened cfg) {w' : LockWorld} (hconn : w'.connected = w.connected)
    (hfilled : w'.filledByOrder = w.filledByOrder) {t : Option Point} (htasks : w'.tasks = Function.update w.tasks id t)
    (ht : w.connected = true → ∀ q, t = some q → ¬ w.Dooms cfg q) : ¬ w'.Threatened cfg := by
  rintro ⟨hon, u, q, hu, hq⟩
  rw [hconn] at hon
  have hdoom : w.Dooms cfg q := by
    cases q with
    | fillCheck e => simpa only [Dooms, existing, hfilled] using hq
    | fillRound e k => simpa only [Dooms, Advances, existing, hfilled] using hq
    | _ => exact hq
  rw [htasks] at hu
  by_cases hsame : u = id
  · rw [hsame, Function.update_self] at hu
    exact ht hon q hu hdoom
  · rw [Function.update_of_ne hsame] at hu
    exact h ⟨hon, u, q, hu, hdoom⟩

/-- **Progress.** As long as a call is not finished, a step is left that leaves less work. -/
theorem Calm.progress (h : w.Calm) (hsafe : ¬ w.Threatened cfg) (htask : w.tasks id ≠ none) :
    ∃ u, (w.resume cfg u {}).Calm ∧ ¬ (w.resume cfg u {}).Threatened cfg ∧
      work cfg (w.resume cfg u {}) < work cfg w := by
  -- the call that has the lock; when nobody has it nobody waits, and any call will do
  obtain ⟨u, p, hu, hnot, hfree⟩ : ∃ u p, w.tasks u = some p ∧ u ∉ w.lock.waiters ∧
      (w.lock.holder = some u ∨ w.lock.holder = none) := by
    cases hholder : w.lock.holder with
    | some u =>
      obtain ⟨p, hp⟩ := Option.ne_none_iff_exists'.mp (h.holder u hholder)
      exact ⟨u, p, hp, fun hmem => h.noSelfWait ⟨u, hholder, hmem⟩, .inl rfl⟩
    | none =>
      obtain ⟨p, hp⟩ := Option.ne_none_iff_exists'.mp htask
      exact ⟨id, p, hp, by simp [h.proper.idle hholder], .inr rfl⟩
  have hok : ¬ w.Nests (.resume u {}) := by
    rintro ⟨e, k, htask', -, -, hconn, hadv⟩
    exact hsafe ⟨hconn, u, _, htask', hadv⟩
  have hdooms : w.connected = true → ¬ w.Dooms cfg p := fun hconn hdoom => hsafe ⟨hconn, u, p, hu, hdoom⟩
  refine ⟨u, h.resume hok, ?_⟩
  by_cases hgets : w.lock.holder = some u ∨ w.lock.holder = none ∧ wants w.connected p = true
  · have hgives : ∀ q, (critical cfg (w.withLock u) {} p).1 ≠ .nested q := by
      intro q hq
      obtain ⟨e, k, rfl, hconn, hadv⟩ := critical_nested hq
      exact hdooms hconn hadv
    rw [resume_enter hu hnot hgets, enter_released hgives]
    constructor
    · refine not_threatened_update hsafe rfl critical_filled rfl fun hconn q hq => ?_
      exact critical_dooms (w := w.withLock u) (hdooms hconn) hq hconn
    · exact work_lt (h.fresh u p hu) hu (critical_rank hgives) rfl rfl
  · obtain ⟨hother, hrest⟩ := not_or.mp hgets
    have hnone : w.lock.holder = none := hfree.resolve_left hother
    have hwants : wants w.connected p = false := by
      simpa [hnone] using hrest
    rw [resume_leave hu hnot hother hwants]
    constructor
    · exact not_threatened_update hsafe rfl rfl rfl fun _ q hq => outside_dooms hq
    · exact work_lt (h.fresh u p hu) hu (outside_rank hwants) rfl rfl

/-- Unless a fill event is on its way to the database, every call can run to completion. -/
theorem Calm.canFinish (h : w.Calm) (hsafe : ¬ w.Threatened cfg) : w.CanFinish cfg := by
  induction hn : work cfg w using Nat.strong_induction_on generalizing w with
  | h n ih =>
    by_cases hdone : ∀ id, w.tasks id = none
    · exact ⟨[], hdone⟩
    · obtain ⟨id, htask⟩ := not_forall.mp hdone
      obtain ⟨u, hcalm, hsafe', hless⟩ := h.progress hsafe htask
      obtain ⟨rs, hrs⟩ := ih _ (hn ▸ hless) hcalm hsafe' rfl
      exact ⟨(u, {}) :: rs, hrs⟩

theorem Calm.sound (h : w.Calm) : w.Sound cfg := ⟨h.noSelfWait, h.canFinish⟩

end Steps

/-- **One lock for fills, the writer and the tracker.** In every run, nobody ever waits for a lock that it holds, and
every call can run to completion unless a fill event is on its way to the database, exactly when no round of a fill
event goes on to a connected database. -/
theorem sound_iff_never_nests (cfg : LockConfig) (connected : Bool) (filledByOrder : String → Option ℚ)
    (es : List LockEvent) :
    Runs.Always (Sound cfg) (step cfg) (start connected filledByOrder) es ↔
      Runs.Guarded (fun w e => ¬ w.Nests e) (step cfg) (start connected filledByOrder) es := by
  have hstart := calm_start connected filledByOrder
  rw [Runs.always_iff_guarded hstart.sound]
  refine Runs.guarded_iff_guarded hstart (fun w e _ h hok => ?_) fun w e _ _ hok hsound => ?_
  · have hcalm : (step cfg w e).Calm := h.step hok
    exact ⟨hcalm, hcalm.sound⟩
  · exact hsound.1 (selfWait_of_nests (Classical.not_not.mp hok))

/-- The first fill of an order, on a connected writer: its call waits for the lock that it holds. -/
theorem not_sound_firstFill : ¬ ∀ es, Runs.Always (Sound {}) (step {}) (start true fun _ => none) es := by
  intro h
  have hlast := (h [.onFillEvent ⟨"oid1", 1⟩, .resume 0 {}, .resume 0 {}]).last.1
  exact hlast ⟨0, by decide +kernel, by decide +kernel⟩

end LockWorld

end MikoV2.Execution
