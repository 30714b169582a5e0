import Mathlib.Algebra.BigOperators.Group.List.Basic
import Mathlib.Algebra.Order.BigOperators.Group.List
import MikoV2.Execution.RestGateway
import MikoV2.Lib.Slots

/-!
# Permits of the gateway

The permits of each semaphore are free, or with a call that has not returned them.

* `Conserving` : nothing created and nothing lost, so that no limit is exceeded;
* `drift` : by how much an event changes the sum, `step_total` : it does exactly that;
* `KeepsPermits` : no timeout strikes while a semaphore is waited for, no cancellation between the first permit
  and the admission; `conserving_iff` : these are the runs that conserve the permits.
-/

namespace MikoV2.Execution

namespace Call

/-- The permits of `k` that the call has taken while its `acquire` is under way. -/
def waitingPermits (c : Call) (k : Sem) : ℕ := match c.phase with
  | .acquiring taken _ => taken.count k
  | .token => c.sems.count k
  | _ => 0

/-- The permits of `k` that the call has from a successful `acquire`. -/
def ownedPermits (c : Call) (k : Sem) : ℕ := match c.phase with
  | .admitted | .exchange => c.sems.count k
  | _ => 0

/-- Its `acquire` returned `True`, and the permits were not given back. -/
def Admitted (c : Call) : Prop := c.phase = .admitted ∨ c.phase = .exchange

instance : DecidablePred Admitted := fun _ => inferInstanceAs (Decidable (_ ∨ _))

def held (c : Call) (k : Sem) : ℕ := c.waitingPermits k + c.ownedPermits k

/-- What was taken and what is missing are the three semaphores, and something is missing. -/
def Formed (c : Call) : Prop := ∀ taken rest, c.phase = .acquiring taken rest → taken ++ rest = c.sems ∧ rest ≠ []

/-- What an event creates or loses of the permits of `k`. -/
def drift (c : Call) (e : CallEvent) (k : Sem) : ℤ := match c.phase, e with
  | .acquiring _ rest, .timeout => rest.count k
  | .acquiring taken _, .cancel => -taken.count k
  | .token, .cancel => -c.sems.count k
  | _, _ => 0

/-- The event is no timeout while the call waits for a semaphore, and no cancellation while it has permits that
its `acquire` has not returned. -/
def KeepsPermits (c : Call) : CallEvent → Prop
  | .timeout => ∀ taken rest, c.phase ≠ .acquiring taken rest
  | .cancel => c.phase ≠ .token ∧ ∀ taken rest, c.phase = .acquiring taken rest → taken = []
  | _ => True

theorem keepsPermits_iff {c : Call} (hform : c.Formed) (e : CallEvent) : c.KeepsPermits e ↔ ∀ k, c.drift e k = 0 := by
  cases e with
  | timeout =>
    simp only [KeepsPermits, drift]
    cases hphase : c.phase with
    | acquiring taken rest =>
      obtain ⟨-, hrest⟩ := hform taken rest hphase
      obtain ⟨j, rest, rfl⟩ := List.exists_cons_of_ne_nil hrest
      refine iff_of_false (fun h => h taken (j :: rest) rfl) fun h => ?_
      have := h j
      simp only [List.count_cons_self] at this
      omega
    | _ => simp
  | cancel =>
    simp only [KeepsPermits, drift]
    cases hphase : c.phase with
    | acquiring taken rest =>
      refine ⟨fun h k => by simp [h.2 taken rest rfl], fun h => ⟨nofun, ?_⟩⟩
      rintro _ _ ⟨⟩
      cases taken with
      | nil => rfl
      | cons j taken =>
        have := h j
        simp only [List.count_cons_self] at this
        omega
    | token =>
      refine iff_of_false (fun h => h.1 rfl) fun h => ?_
      have hmem : Sem.ip c.ip ∈ c.sems := by simp [sems, RestGateway.semsOf]
      have hpos : 0 < c.sems.count (.ip c.ip) := List.count_pos_iff.mpr hmem
      have := h (.ip c.ip)
      simp only at this
      omega
    | _ => simp
  | _ => simp [KeepsPermits, drift]

theorem held_ended {c : Call} {how : Ending} {k : Sem} : { c with phase := .ended how }.held k = 0 := rfl

theorem held_waiting {c : Call} {taken rest : List Sem} (h : taken ++ rest = c.sems) (k : Sem) :
    { c with phase := GatewayWorld.waiting taken rest }.held k = taken.count k := by
  unfold GatewayWorld.waiting
  split
  · rename_i hrest
    rw [hrest, List.append_nil] at h
    rw [h]
    rfl
  · rfl

theorem formed_waiting {c : Call} {taken rest : List Sem} (h : taken ++ rest = c.sems) :
    { c with phase := GatewayWorld.waiting taken rest }.Formed := by
  unfold GatewayWorld.waiting
  intro taken' rest' hphase
  split at hphase
  · cases hphase
  · rename_i hrest
    cases hphase
    exact ⟨h, hrest⟩

end Call

namespace GatewayWorld
open RestGateway

/-- Permits of `k` with calls whose `acquire` is under way. -/
def underWay (w : GatewayWorld) (k : Sem) : ℕ :=
  (w.gateway.sems k).pending + (w.calls.map (·.waitingPermits k)).sum

/-- Permits of `k` with successful calls that have not released them. -/
def owned (w : GatewayWorld) (k : Sem) : ℕ := (w.calls.map (·.ownedPermits k)).sum

/-- The calls admitted at once that use `k`. -/
def admittedOn (w : GatewayWorld) (k : Sem) : List Call := w.calls.filter fun c => c.Admitted ∧ k ∈ c.sems

/-- No permit is created or lost. -/
structure Conserving (cfg : RestGatewayConfig) (w : GatewayWorld) : Prop where
  balanced : ∀ k, (w.gateway.sems k).value + w.owned k + w.underWay k = cfg.limit k
  bounded : ∀ k, (w.admittedOn k).length ≤ cfg.limit k

/-- No timeout strikes while a semaphore is waited for, and no cancellation between the first permit and the
admission. -/
def KeepsPermits (w : GatewayWorld) : GatewayEvent → Prop
  | .on t e => ∀ c, w.calls[t]? = some c → c.KeepsPermits e
  | _ => True

/-! ## One function at a time -/

theorem takeAll_permits {t : ℕ} {rest rest' taken taken' : List Sem} {sems sems' : Sem → Semaphore ℕ}
    (h : takeAll t sems taken rest = (sems', taken', rest')) :
    (∀ k, (sems' k).permits + taken'.count k = (sems k).permits + taken.count k) ∧
      taken' ++ rest' = taken ++ rest := by
  induction rest generalizing sems taken with
  | nil =>
    cases h
    exact ⟨fun _ => rfl, rfl⟩
  | cons j rest ih =>
    unfold takeAll at h
    split at h
    · rename_i s harr
      obtain ⟨hcount, happ⟩ := ih h
      refine ⟨fun k => ?_, by rw [happ, List.append_assoc]; rfl⟩
      have hs := Semaphore.permits_arrive harr
      rw [hcount k]
      by_cases hk : k = j
      · subst hk
        rw [Function.update_self, List.count_append, List.count_singleton_self]
        simp only [ite_true] at hs
        omega
      · rw [Function.update_of_ne hk, List.count_append, List.count_singleton, beq_eq_false_iff_ne.mpr (Ne.symm hk)]
        simp
    · rename_i s harr
      cases h
      refine ⟨fun k => ?_, rfl⟩
      have hs := Semaphore.permits_arrive harr
      by_cases hk : k = j
      · subst hk
        rw [Function.update_self]
        simpa using hs
      · rw [Function.update_of_ne hk]

theorem giveBack_permits (ks : List Sem) (g : RestGateway) (k : Sem) :
    ((g.giveBack ks).sems k).permits = (g.sems k).permits + ks.count k := by
  induction ks generalizing g with
  | nil => rfl
  | cons j ks ih =>
    show ((giveBack ks _).sems k).permits = _
    rw [ih]
    by_cases hk : k = j
    · subst hk
      simp only [Function.update_self, Semaphore.permits_release, List.count_cons_self]
      omega
    · simp only [Function.update_of_ne hk, List.count_cons_of_ne (Ne.symm hk)]

theorem giveBack_all (c : Call) (g : RestGateway) (k : Sem) :
    ((g.giveBack c.sems.reverse).sems k).permits = (g.sems k).permits + c.sems.count k := by
  rw [giveBack_permits, List.count_reverse]

theorem record429_sems (cfg : RestGatewayConfig) (mono : ℚ) (symbol : String) (g : RestGateway) :
    (g.record429 cfg mono symbol).sems = g.sems := by
  unfold record429
  simp only
  split <;> rfl

theorem isCircuitOpen_sems (cfg : RestGatewayConfig) (mono : ℚ) (symbol : String) (g : RestGateway) :
    (g.isCircuitOpen cfg mono symbol).2.sems = g.sems := by
  unfold isCircuitOpen
  repeat' split
  all_goals rfl

/-! ## One event -/

section Moves
variable {cfg : RestGatewayConfig} {mono : ℚ} {t : ℕ} {c : Call} {g g' : RestGateway} {e : CallEvent} {phase : Phase}

theorem Moved.formed (hform : c.Formed) (h : Moved cfg mono t c g e phase g') : { c with phase := phase }.Formed := by
  cases h with
  | resumed hphase hgranted htakes =>
    refine Call.formed_waiting ?_
    rw [(takeAll_permits htakes).2, List.append_assoc]
    exact (hform _ _ hphase).1
  | admitted => split <;> rintro _ _ ⟨⟩
  | directToken => split <;> rintro _ _ ⟨⟩
  | slept => split <;> rintro _ _ ⟨⟩
  | _ => rintro _ _ ⟨⟩

theorem abandon_permits (t : ℕ) (g : RestGateway) (j k : Sem) :
    ((Function.update g.sems j ((g.sems j).abandon t)) k).permits = (g.sems k).permits := by
  by_cases hk : k = j
  · subst hk
    rw [Function.update_self, Semaphore.permits_abandon]
  · rw [Function.update_of_ne hk]

/-- The waiter that resumes takes the permit that was handed to it. -/
theorem resume_permits {j : Sem} (hgranted : (g.sems j).granted t = true) (k : Sem) :
    ((Function.update g.sems j ((g.sems j).resume t)) k).permits + [j].count k = (g.sems k).permits := by
  by_cases hk : k = j
  · subst hk
    rw [Function.update_self, List.count_singleton_self]
    exact Semaphore.permits_resume hgranted
  · rw [Function.update_of_ne hk, List.count_singleton, beq_eq_false_iff_ne.mpr (Ne.symm hk)]
    simp

/-- A call that resumes takes what it can of the semaphores it still needs. -/
theorem resumed_permits {taken rest taken' rest' : List Sem} {j : Sem} {sems : Sem → Semaphore ℕ} (hform : c.Formed)
    (hphase : c.phase = .acquiring taken (j :: rest)) (hgranted : (g.sems j).granted t = true)
    (htakes : takeAll t (Function.update g.sems j ((g.sems j).resume t)) (taken ++ [j]) rest = (sems, taken', rest'))
    (k : Sem) :
    (sems k).permits + { c with phase := waiting taken' rest' }.held k = (g.sems k).permits + c.held k := by
  obtain ⟨hcount, happ⟩ := takeAll_permits htakes
  have hall : taken' ++ rest' = c.sems := by
    rw [happ, List.append_assoc]
    exact (hform _ _ hphase).1
  have hold : c.held k = taken.count k := by
    unfold Call.held Call.waitingPermits Call.ownedPermits
    rw [hphase]
    rfl
  have hk := hcount k
  have hresume := resume_permits hgranted k
  rw [List.count_append] at hk
  rw [Call.held_waiting hall k, hold]
  omega

/-- The permits in the semaphore and with the call change by the drift of the event. -/
theorem Moved.permits (hform : c.Formed) (h : Moved cfg mono t c g e phase g') (k : Sem) :
    ((g'.sems k).permits + { c with phase := phase }.held k : ℤ) = (g.sems k).permits + c.held k + c.drift e k := by
  cases h with
  | resumed hphase hgranted htakes =>
    have hdrift : c.drift .resume k = 0 := by
      unfold Call.drift
      rw [hphase]
    have hsame := resumed_permits hform hphase hgranted htakes k
    rw [hdrift]
    simp only
    omega
  | @timedOut taken rest j hphase =>
    have hs : c.sems.count k = taken.count k + (j :: rest).count k := by
      rw [← (hform _ _ hphase).1, List.count_append]
    rw [giveBack_all, abandon_permits, Call.held_ended]
    simp only [Call.held, Call.waitingPermits, Call.ownedPermits, Call.drift, hphase]
    omega
  | @cancelledWaiting taken rest j hphase =>
    rw [abandon_permits, Call.held_ended]
    simp only [Call.held, Call.waitingPermits, Call.ownedPermits, Call.drift, hphase]
    omega
  | cancelledToken hphase =>
    rw [Call.held_ended]
    simp only [Call.held, Call.waitingPermits, Call.ownedPermits, Call.drift, hphase]
    omega
  | cancelledDirect hphase =>
    obtain ⟨n, hphase | hphase | hphase⟩ := hphase <;>
      simp [Call.held, Call.waitingPermits, Call.ownedPermits, Call.drift, hphase]
  | admitted hphase =>
    split <;> simp [Call.held, Call.waitingPermits, Call.ownedPermits, Call.drift, Call.sems, hphase]
  | directToken hphase =>
    split <;> simp [Call.held, Call.waitingPermits, Call.ownedPermits, Call.drift, hphase]
  | slept hphase =>
    split <;> simp [Call.held, Call.waitingPermits, Call.ownedPermits, Call.drift, hphase]
  | cancelledExchange hphase | raised hphase =>
    rw [giveBack_all, Call.held_ended]
    simp [Call.held, Call.waitingPermits, Call.ownedPermits, Call.drift, hphase]
  | refused hphase | released hphase =>
    rw [giveBack_all, Call.held_ended]
    simp [Call.held, Call.waitingPermits, Call.ownedPermits, Call.drift, hphase]
  | posted hphase =>
    rw [giveBack_all, Call.held_ended]
    simp [Call.held, Call.waitingPermits, Call.ownedPermits, Call.drift, hphase, recordSuccess]
  | rateLimited hphase =>
    rw [giveBack_all, Call.held_ended, record429_sems]
    simp [Call.held, Call.waitingPermits, Call.ownedPermits, Call.drift, hphase]
  | directPosted hphase =>
    simp [Call.held, Call.waitingPermits, Call.ownedPermits, Call.drift, hphase, recordSuccess]
  | directRateLimited hphase =>
    rw [record429_sems]
    simp [Call.held, Call.waitingPermits, Call.ownedPermits, Call.drift, hphase]
  | directRaised hphase =>
    simp [Call.held, Call.waitingPermits, Call.ownedPermits, Call.drift, hphase]

end Moves

/-! ## The gateway with its calls -/

/-- All permits of `k` that there are. -/
def total (w : GatewayWorld) (k : Sem) : ℕ := (w.gateway.sems k).permits + (w.calls.map (·.held k)).sum

/-- What an event creates or loses of the permits of `k`. -/
def drift (w : GatewayWorld) (k : Sem) : GatewayEvent → ℤ
  | .on t e => (w.calls[t]?.map (·.drift e k)).getD 0
  | _ => 0

def Formed (w : GatewayWorld) : Prop := ∀ c ∈ w.calls, c.Formed

theorem total_eq (w : GatewayWorld) (k : Sem) :
    w.total k = (w.gateway.sems k).value + w.owned k + w.underWay k := by
  have hsum : (w.calls.map (·.held k)).sum = (w.calls.map (·.waitingPermits k)).sum + w.owned k :=
    List.sum_map_add
  unfold total underWay Semaphore.permits
  omega

section Steps
variable {cfg : RestGatewayConfig} {w : GatewayWorld}

/-- A new call holds what is gone from the semaphores. -/
theorem append_call (hform : w.Formed) {c : Call} {g : RestGateway} (hc : c.Formed)
    (hk : ∀ k, (g.sems k).permits + c.held k = (w.gateway.sems k).permits) :
    ({ w with gateway := g, calls := w.calls ++ [c] }).Formed ∧
      ∀ k, ({ w with gateway := g, calls := w.calls ++ [c] }).total k = w.total k := by
  refine ⟨fun d hd => ?_, fun k => ?_⟩
  · rcases List.mem_append.mp hd with hd | hd
    · exact hform d hd
    · rw [List.mem_singleton.mp hd]
      exact hc
  · have hnew := hk k
    unfold total
    simp only [List.map_append, List.sum_append, List.map_cons, List.map_nil, List.sum_cons, List.sum_nil]
    omega

theorem enter_spec (hform : w.Formed) (ip symbol : String) (isEmergency : Bool) (order : Option Bool)
    (queued : Option ℕ) (g : RestGateway) (hg : g.sems = w.gateway.sems) :
    (w.enter cfg ip symbol isEmergency order queued g).Formed ∧
      ∀ k, (w.enter cfg ip symbol isEmergency order queued g).total k = w.total k := by
  unfold enter acquire
  split
  rename_i phase probe g' hacq
  split at hacq
  · cases hacq
    exact append_call hform (by rintro _ _ ⟨⟩) fun k => by rw [hg]; rfl
  split at hacq
  · rename_i g₁ hopen
    have hsems : g₁.sems = g.sems := by rw [← isCircuitOpen_sems cfg w.mono symbol g, hopen]
    cases hacq
    exact append_call hform (by rintro _ _ ⟨⟩) fun k => by rw [hsems, hg]; rfl
  · rename_i g₁ hopen
    have hsems : g₁.sems = g.sems := by rw [← isCircuitOpen_sems cfg w.mono symbol g, hopen]
    rcases htake : takeAll w.calls.length g₁.sems [] (semsOf ip symbol isEmergency) with ⟨sems, taken, rest⟩
    rw [htake] at hacq
    cases hacq
    obtain ⟨hcount, happ⟩ := takeAll_permits htake
    let c : Call := ⟨ip, symbol, isEmergency, order, .token, queued,
      if g.halfOpenProbeUsed symbol = false ∧ g₁.halfOpenProbeUsed symbol = true then some (g₁.openings symbol) else none⟩
    have hc : taken ++ rest = c.sems := happ
    refine append_call (c := { c with phase := waiting taken rest }) hform (Call.formed_waiting hc) fun k => ?_
    rw [Call.held_waiting hc k]
    have := hcount k
    rw [hsems, hg] at this
    simpa using this

/-- Nothing is created or lost where nothing can happen. -/
theorem drift_of_none {mono : ℚ} {t : ℕ} {c : Call} {g : RestGateway} {e : CallEvent} (hform : c.Formed)
    (h : move cfg mono t c g e = none) (k : Sem) : c.drift e k = 0 := by
  unfold Call.drift
  split
  · rename_i taken rest hphase
    cases rest with
    | nil => rfl
    | cons j rest => simp [move, hphase] at h
  · rename_i taken rest hphase
    cases rest with
    | nil => exact absurd rfl (hform _ _ hphase).2
    | cons j rest => simp [move, hphase] at h
  · rename_i hphase
    simp [move, hphase] at h
  · rfl

variable (cfg) in
/-- **The drift of an event is what it creates or loses.** -/
theorem step_total (hform : w.Formed) (e : GatewayEvent) :
    (step cfg w e).Formed ∧ ∀ k, ((step cfg w e).total k : ℤ) = w.total k + w.drift k e := by
  have hsame : ∀ w' : GatewayWorld, w'.Formed ∧ (∀ k, w'.total k = w.total k) →
      w'.Formed ∧ ∀ k, (w'.total k : ℤ) = w.total k + 0 := by
    rintro w' ⟨hf, hk⟩
    refine ⟨hf, fun k => ?_⟩
    rw [hk k, add_zero]
  cases e with
  | acquire ip symbol isEmergency => exact hsame _ (enter_spec hform ip symbol isEmergency none none _ rfl)
  | postMarketOrder order priority time =>
    simp only [step]
    split
    · exact hsame _ (enter_spec hform _ _ _ _ _ _ rfl)
    · exact hsame _ (append_call hform (by rintro _ _ ⟨⟩) fun _ => rfl)
    · exact hsame _ (append_call hform (by rintro _ _ ⟨⟩) fun _ => rfl)
  | record429 symbol =>
    refine hsame _ ⟨hform, fun k => ?_⟩
    unfold total
    simp only [step, record429_sems]
  | recordSuccess symbol => exact hsame _ ⟨hform, fun _ => rfl⟩
  | setCriticalBypass val => exact hsame _ ⟨hform, fun _ => rfl⟩
  | tick mono => exact hsame _ ⟨hform, fun _ => rfl⟩
  | on t e =>
    simp only [step, drift]
    cases hc : w.calls[t]? with
    | none => exact hsame _ ⟨hform, fun _ => rfl⟩
    | some c =>
      have hcform : c.Formed := hform c (List.mem_of_getElem? hc)
      simp only
      cases hmove : move cfg w.mono t c w.gateway e with
      | none =>
        refine ⟨hform, fun k => ?_⟩
        simp [drift_of_none hcform hmove k]
      | some moved =>
        obtain ⟨phase, g⟩ := moved
        have hmoved := move_cases hmove
        refine ⟨fun d hd => ?_, fun k => ?_⟩
        · rcases List.mem_or_eq_of_mem_set hd with hd | rfl
          · exact hform d hd
          · exact hmoved.formed hcform
        · have hpermits := hmoved.permits hcform k
          have hsum := Slots.sum_map_set (fun c : Call => c.held k) hc { c with phase := phase }
          unfold total
          simp only [Option.map_some, Option.getD_some] at hsum ⊢
          omega

theorem keepsPermits_iff (hform : w.Formed) (e : GatewayEvent) : KeepsPermits w e ↔ ∀ k, w.drift k e = 0 := by
  cases e with
  | on t e =>
    simp only [KeepsPermits, drift]
    constructor
    · intro h k
      cases hc : w.calls[t]? with
      | none => rfl
      | some c => exact (Call.keepsPermits_iff (hform c (List.mem_of_getElem? hc)) e).mp (h c hc) k
    · intro h c hc
      rw [hc] at h
      exact (Call.keepsPermits_iff (hform c (List.mem_of_getElem? hc)) e).mpr h
  | _ => simp [KeepsPermits, drift]

/-- Conservation bounds the calls that are admitted. -/
theorem Conserving.of_total (h : ∀ k, w.total k = cfg.limit k) : Conserving cfg w := by
  have hbalanced : ∀ k, (w.gateway.sems k).value + w.owned k + w.underWay k = cfg.limit k := fun k => by
    rw [← total_eq, h k]
  refine ⟨hbalanced, fun k => ?_⟩
  have hcount : ∀ l : List Call,
      (l.filter fun c => c.Admitted ∧ k ∈ c.sems).length ≤ (l.map (·.ownedPermits k)).sum := by
    intro l
    induction l with
    | nil => exact le_refl _
    | cons c l ih =>
      rw [List.filter_cons, List.map_cons, List.sum_cons]
      split
      · rename_i hc
        obtain ⟨hadm, hk⟩ := of_decide_eq_true hc
        have hpos : 0 < c.ownedPermits k := by
          unfold Call.ownedPermits
          rcases hadm with hadm | hadm <;> rw [hadm] <;> exact List.count_pos_iff.mpr hk
        rw [List.length_cons]
        omega
      · omega
  have := hbalanced k
  have := hcount w.calls
  unfold admittedOn owned at *
  omega

end Steps

/-- **Permits are conserved exactly** in the runs in which no timeout strikes at a semaphore and no call is
cancelled between its first permit and its admission. -/
theorem conserving_iff (cfg : RestGatewayConfig) (events : List GatewayEvent) :
    Runs.Always (Conserving cfg) (step cfg) (fresh cfg) events ↔
      Runs.Guarded KeepsPermits (step cfg) (fresh cfg) events := by
  have htotal : ∀ {w : GatewayWorld}, Conserving cfg w → ∀ k, w.total k = cfg.limit k := fun h k => by
    rw [total_eq, h.balanced k]
  have hfresh : Conserving cfg (fresh cfg) := Conserving.of_total fun _ => rfl
  have hform : (fresh cfg).Formed := by
    intro c hc
    cases hc
  rw [Runs.always_iff_guarded hfresh]
  refine Runs.guarded_iff_guarded (I := fun w => w.Formed ∧ Conserving cfg w) ⟨hform, hfresh⟩ ?_ ?_
  · rintro w e - ⟨hf, hc⟩ hok
    obtain ⟨hf', hstep⟩ := step_total cfg hf e
    have hzero := (keepsPermits_iff hf e).mp hok
    have hnext : Conserving cfg (step cfg w e) := Conserving.of_total fun k => by
      have := hstep k
      have := hzero k
      have := htotal hc k
      omega
    exact ⟨⟨hf', hnext⟩, hnext⟩
  · rintro w e - ⟨hf, hc⟩ hok hnext
    refine hok ((keepsPermits_iff hf e).mpr fun k => ?_)
    have := (step_total cfg hf e).2 k
    have := htotal hc k
    have := htotal hnext k
    omega

/-- Two requests of a symbol are admitted, a third times out at the semaphore of the symbol, and a fourth finds
the permit that the handler of the third created. -/
def thirdTimesOut : List GatewayEvent :=
  [.acquire "1.1.1.1" "BTCUSDT" false, .on 0 (.token true), .acquire "1.1.1.1" "BTCUSDT" false, .on 1 (.token true),
    .acquire "1.1.1.1" "BTCUSDT" false, .on 2 .timeout, .acquire "1.1.1.1" "BTCUSDT" false, .on 3 (.token true)]

theorem not_conserving_thirdTimesOut : ¬ Runs.Always (Conserving {}) (step {}) (fresh {}) thirdTimesOut := by
  intro h
  have hthree : ¬ ((Runs.run (step {}) (fresh {}) thirdTimesOut).admittedOn (.symbol "BTCUSDT")).length ≤ 2 := by
    decide
  exact hthree (h.last.bounded (.symbol "BTCUSDT"))

end GatewayWorld

end MikoV2.Execution
