import MikoV2.Depth.Steps

/-!
# What holds in every state of the depth path

* `Validated` : the validator has a state of the runner's epoch;
* `Sound` : a synced symbol is validated, so no push starts a recovery; the rotation begins when the bootstrap is
  over; a symbol is a member only while it is subscribed, and not before the snapshot of its subscription;
* `sound_step`, `sound_run` : every step keeps it.
-/

namespace MikoV2.Depth
open DataLayer

variable (symbol : String)

/-- The validator has a state of the runner's epoch. -/
def Validated (w : World) : Prop := ∃ st, w.seqStates symbol = some st ∧ st.epoch = currentEpoch

/-- `_bootstrap_symbol` of an initial symbol is not over. -/
def Booting (task : Task) : Prop := task = .starting ∨ task = .bootSnapshot ∨ ∃ remaining, task = .bootCommits remaining

structure Sound (w : World) : Prop where
  recoveries : w.recoveries = 0
  synced : w.synced = true → Validated symbol w
  waiting : ∀ remaining, w.task = .bootCommits remaining → Validated symbol w
  booting : Booting w.task → w.ledger.subscription = none
  member : w.member = true → w.wsSubscribed = true
  subscribing : w.task = .subscribing → w.wsSubscribed = false
  rotating : w.task = .rotationSnapshot →
    w.wsSubscribed = true ∧ ∃ sub, w.ledger.subscription = some sub ∧ sub.fresh = false
  unfresh : ∀ sub, w.ledger.subscription = some sub → sub.fresh = false → w.member = false

variable {symbol} {w w' m : World}

theorem Validated.setLastU (h : Validated symbol w) (lastU : ℤ) :
    ∃ st, setLastU w.seqStates symbol lastU symbol = some st ∧ st.epoch = currentEpoch := by
  obtain ⟨st, hst, hepoch⟩ := h
  exact ⟨_, setLastU_same hst lastU, hepoch⟩

theorem Validated.of_eq (h : Validated symbol w) (hseq : w'.seqStates = w.seqStates) : Validated symbol w' := by
  unfold Validated
  rw [hseq]
  exact h

theorem validated_install (symbol : String) (snap : Snapshot) (w : World) : Validated symbol (install symbol snap w) :=
  ⟨_, setLastU_same (Function.update_self ..) _, rfl⟩

/-! ## One step -/

/-- A step of the bootstrap. -/
theorem Sound.booted (h : Sound symbol w) (hboot : Booting w.task) (hkept : Kept w m) (hvalid : Validated symbol w')
    (hmember : w'.member = m.member) (hws : w'.wsSubscribed = m.wsSubscribed) (hrec : w'.recoveries = m.recoveries)
    (hledger : w'.ledger = m.ledger)
    (htask : w'.task = m.task ∨ w'.task = .failed ∨ w'.task = .idle ∨ ∃ remaining, w'.task = .bootCommits remaining) :
    Sound symbol w' := by
  have hnone : w'.ledger.subscription = none := by
    rw [hledger]
    exact hkept.unsubscribed (h.booting hboot)
  have hneither : w'.task ≠ .subscribing ∧ w'.task ≠ .rotationSnapshot := by
    rcases htask with ht | ht | ht | ⟨remaining, ht⟩
    · rw [ht, hkept.task]
      rcases hboot with hb | hb | ⟨remaining, hb⟩
      all_goals
        rw [hb]
        exact ⟨nofun, nofun⟩
    all_goals
      rw [ht]
      exact ⟨nofun, nofun⟩
  refine ⟨?_, fun _ => hvalid, fun _ _ => hvalid, fun _ => hnone, ?_, fun ht => absurd ht hneither.1,
    fun ht => absurd ht hneither.2, fun sub hsub => ?_⟩
  · rw [hrec, hkept.recoveries, h.recoveries]
  · rw [hmember, hws, hkept.member, hkept.wsSubscribed]
    exact h.member
  · rw [hnone] at hsub
    cases hsub

/-- A step that changes nothing but the task. -/
theorem Sound.retask (h : Sound symbol w) (task : Task)
    (htask : (task = .bootSnapshot ∧ Booting w.task) ∨ task = .failed ∨ task = .idle ∨
      (task = .subscribing ∧ w.wsSubscribed = false) ∨ task = .unsubscribing) : Sound symbol { w with task } := by
  refine ⟨h.recoveries, h.synced, fun remaining ht => ?_, fun hboot => ?_, h.member, fun ht => ?_, fun ht => ?_,
    h.unfresh⟩
  · rcases htask with ⟨rfl, -⟩ | rfl | rfl | ⟨rfl, -⟩ | rfl
    all_goals cases ht
  · rcases htask with ⟨rfl, hb⟩ | rfl | rfl | ⟨rfl, -⟩ | rfl
    · exact h.booting hb
    all_goals simp [Booting] at hboot
  · rcases htask with ⟨rfl, -⟩ | rfl | rfl | ⟨rfl, hws⟩ | rfl
    · cases ht
    · cases ht
    · cases ht
    · exact hws
    · cases ht
  · rcases htask with ⟨rfl, -⟩ | rfl | rfl | ⟨rfl, -⟩ | rfl
    all_goals cases ht

/-- A push changes neither the task nor the membership, nor whether the book is of the subscription. -/
theorem Sound.of_map (h : Sound symbol w) (f : Subscription → Subscription) (hfresh : ∀ sub, (f sub).fresh = sub.fresh)
    (hsub : w'.ledger.subscription = w.ledger.subscription.map f) (hvalid : Validated symbol w → Validated symbol w')
    (hrec : w'.recoveries = w.recoveries) (hsynced : w'.synced = w.synced) (htask : w'.task = w.task)
    (hmember : w'.member = w.member) (hws : w'.wsSubscribed = w.wsSubscribed) : Sound symbol w' := by
  refine ⟨hrec.trans h.recoveries, ?_, ?_, ?_, ?_, ?_, ?_, ?_⟩
  · rw [hsynced]
    exact fun hs => hvalid (h.synced hs)
  · rw [htask]
    exact fun remaining ht => hvalid (h.waiting remaining ht)
  · rw [htask, hsub]
    intro hboot
    rw [h.booting hboot]
    rfl
  · rw [hmember, hws]
    exact h.member
  · rw [htask, hws]
    exact h.subscribing
  · rw [htask, hws, hsub]
    intro ht
    obtain ⟨hsubscribed, sub, hsome, hunfresh⟩ := h.rotating ht
    refine ⟨hsubscribed, f sub, ?_, (hfresh sub).trans hunfresh⟩
    rw [hsome]
    rfl
  · rw [hmember, hsub]
    intro sub hsome hunfresh
    obtain ⟨sub', hsub', rfl⟩ := Option.map_eq_some_iff.mp hsome
    exact h.unfresh sub' hsub' ((hfresh sub').symm.trans hunfresh)

theorem Sound.onDepth (h : Sound symbol w) (data : Push) : Sound symbol (onDepth symbol data w) := by
  cases hversion : data.version with
  | none =>
    unfold Depth.onDepth
    rw [hversion]
    exact h
  | some version =>
    by_cases hlive : w.member = false ∨ w.synced = false
    · rw [onDepth_unsynced hversion hlive]
      refine h.of_map _ ?_ rfl (fun hv => hv.of_eq rfl) rfl rfl rfl rfl rfl
      exact fun _ => rfl
    · obtain ⟨hmember, hsynced⟩ : w.member = true ∧ w.synced = true := by simpa using hlive
      obtain ⟨st, hst, hepoch⟩ := h.synced hsynced
      obtain ⟨hstale, hnew⟩ := onDepth_live data hversion hmember hsynced hst hepoch
      rcases le_or_gt version st.lastU with hle | hlt
      · rw [hstale hle]
        refine h.of_map _ ?_ rfl (fun hv => hv.of_eq rfl) rfl rfl rfl rfl rfl
        exact fun _ => rfl
      · rw [hnew hlt]
        refine h.of_map _ (fun sub => ?_) (Option.map_map ..) (fun _ => ⟨_, Function.update_self .., rfl⟩)
          rfl rfl rfl rfl rfl
        dsimp only [Function.comp]
        split
        · rfl
        · rfl

/-! ## The bootstrap -/

theorem Sound.install (h : Sound symbol w) (hboot : Booting w.task) (snap : Snapshot) :
    Sound symbol (install symbol snap w) := by
  have hvalid := validated_install symbol snap w
  have hnone : (Depth.install symbol snap w).ledger.subscription = none := congrArg (Option.map _) (h.booting hboot)
  refine ⟨h.recoveries, fun _ => hvalid, fun _ _ => hvalid, fun _ => hnone, h.member, h.subscribing, fun ht => ?_,
    fun sub hsub => ?_⟩
  · rcases hboot with hb | hb | ⟨remaining, hb⟩
    all_goals
      have ht' : w.task = .rotationSnapshot := ht
      rw [hb] at ht'
      cases ht'
  · rw [hnone] at hsub
    cases hsub

theorem Sound.bootstrapEnd (h : Sound symbol w) (hboot : Booting w.task) {exit : Exit} (hkept : Kept w m)
    (hvalid : Validated symbol w) : Sound symbol (bootstrapEnd (exit, m)) := by
  have hvalid' : Validated symbol m := hvalid.of_eq hkept.seqStates
  cases exit with
  | returned =>
    exact h.booted hboot hkept (hvalid'.of_eq rfl) rfl rfl rfl rfl (Or.inr (Or.inr (Or.inl rfl)))
  | raised => exact h.booted hboot hkept (hvalid'.of_eq rfl) rfl rfl rfl rfl (Or.inr (Or.inl rfl))
  | hung => exact h.booted hboot hkept hvalid' rfl rfl rfl rfl (Or.inl rfl)

theorem Sound.bootstrapSnapshot (h : Sound symbol w) (hboot : Booting w.task) (answer : Option Snapshot) :
    Sound symbol (bootstrapSnapshot symbol answer w) := by
  unfold Depth.bootstrapSnapshot
  cases answer with
  | none => exact h.retask _ (Or.inr (Or.inl rfl))
  | some snap =>
    have hinstall := h.install hboot snap
    have hvalid := validated_install symbol snap w
    have hadv := bufferLoop_advances w.pending (Depth.install symbol snap w) (snap.version + 1) rfl
    dsimp only
    split
    · rename_i heq
      rw [heq] at hadv
      exact hinstall.bootstrapEnd hboot hadv.kept hvalid
    · rename_i heq
      rw [heq] at hadv
      exact hinstall.booted hboot hadv.kept ((hvalid.of_eq hadv.kept.seqStates).of_eq rfl) rfl rfl rfl rfl
        (Or.inr (Or.inr (Or.inr ⟨_, rfl⟩)))
    · rename_i heq
      rw [heq] at hadv
      exact hinstall.bootstrapEnd hboot hadv.kept hvalid

/-- A recovery keeps what the bootstrap rests on, whatever it does to the mark. -/
theorem Sound.gapRecover (h : Sound symbol w) (hboot : Booting w.task) (hvalid : Validated symbol w)
    (answer : Option (List Commit)) :
    Sound symbol (gapRecover symbol answer w).2 ∧ Validated symbol (gapRecover symbol answer w).2 ∧
      (gapRecover symbol answer w).2.task = w.task := by
  obtain ⟨m, hadv, hstop, hret⟩ := gapRecover_advances symbol answer w
  have hvalid' : Validated symbol m := hvalid.of_eq hadv.kept.seqStates
  by_cases hreturned : (Depth.gapRecover symbol answer w).1 = .returned
  · rcases hret hreturned with ⟨-, -, hw⟩ | ⟨-, hw⟩
    · rw [hw]
      exact ⟨h, hvalid, rfl⟩
    · rw [hw]
      have hset : Validated symbol { m with seqStates := setLastU m.seqStates symbol m.lastApplied } :=
        hvalid'.setLastU _
      exact ⟨h.booted hboot hadv.kept hset rfl rfl rfl rfl (Or.inl rfl), hset, hadv.kept.task⟩
  · rw [hstop hreturned]
    exact ⟨h.booted hboot hadv.kept hvalid' rfl rfl rfl rfl (Or.inl rfl), hvalid', hadv.kept.task⟩

theorem Sound.bridged (h : Sound symbol w) (hboot : Booting w.task) (hvalid : Validated symbol w)
    (answer : Option (List Commit)) (remaining : List Entry) :
    Sound symbol (bridged symbol answer remaining w).2 ∧ Validated symbol (bridged symbol answer remaining w).2 ∧
      Booting (bridged symbol answer remaining w).2.task := by
  obtain ⟨hsound, hvalid', htask⟩ := h.gapRecover hboot hvalid answer
  have hboot' : Booting (Depth.gapRecover symbol answer w).2.task := by
    rw [htask]
    exact hboot
  unfold Depth.bridged
  rcases hgap : Depth.gapRecover symbol answer w with ⟨_ | _ | _, m⟩
  all_goals rw [hgap] at hsound hvalid' hboot'
  · exact ⟨hsound, hvalid', hboot'⟩
  · cases remaining with
    | nil => exact ⟨hsound, hvalid', hboot'⟩
    | cons oldest rest =>
      have hset : Validated symbol { m with
          seqStates := setLastU m.seqStates symbol (oldest.version - 1)
          lastApplied := oldest.version - 1 } := hvalid'.setLastU _
      exact ⟨hsound.booted hboot' (Kept.refl m) hset rfl rfl rfl rfl (Or.inl rfl), hset, hboot'⟩
  · exact ⟨hsound, hvalid', hboot'⟩

theorem Sound.bootstrapCommits (h : Sound symbol w) (hboot : Booting w.task) (hvalid : Validated symbol w)
    (answer : Option (List Commit)) (remaining : List Entry) :
    Sound symbol (bootstrapCommits symbol answer remaining w) := by
  obtain ⟨hsound, hvalid', hboot'⟩ := h.bridged hboot hvalid answer remaining
  unfold Depth.bootstrapCommits
  split
  · rename_i heq
    rw [heq] at hsound hvalid' hboot'
    exact hsound.bootstrapEnd hboot' (remainingLoop_advances remaining _).kept hvalid'
  · rename_i heq
    rw [heq] at hsound hvalid' hboot'
    exact hsound.bootstrapEnd hboot' (Kept.refl _) hvalid'

/-! ## The rotation -/

theorem Sound.wsSubscribe (h : Sound symbol w) (htask : w.task = .subscribing) (ok : Bool) :
    Sound symbol (wsSubscribe ok w) := by
  unfold Depth.wsSubscribe
  cases ok with
  | false => exact h.retask _ (Or.inr (Or.inr (Or.inl rfl)))
  | true =>
    have hout : w.member = false := by
      by_contra hmember
      have hws := h.member (by simpa using hmember)
      rw [h.subscribing htask] at hws
      cases hws
    refine ⟨h.recoveries, h.synced, nofun, fun hboot => ?_, fun _ => rfl, nofun, fun _ => ⟨rfl, _, rfl, rfl⟩,
      fun _ _ _ => hout⟩
    simp [Booting] at hboot

theorem Sound.rotationSnapshot (h : Sound symbol w) (htask : w.task = .rotationSnapshot) (answer : Option Snapshot) :
    Sound symbol (rotationSnapshot symbol answer w) := by
  cases answer with
  | none => exact h.retask _ (Or.inr (Or.inr (Or.inl rfl)))
  | some snap =>
    obtain ⟨hws, sub, hsub, -⟩ := h.rotating htask
    have hvalid := validated_install symbol snap w
    refine ⟨h.recoveries, fun _ => hvalid.of_eq rfl, nofun, fun hboot => ?_, fun _ => hws, nofun, nofun,
      fun sub' hsub' hunfresh => ?_⟩
    · simp [Booting, Depth.rotationSnapshot] at hboot
    · have hfresh : (Depth.rotationSnapshot symbol (some snap) w).ledger.subscription =
          w.ledger.subscription.map fun s => { s with fresh := true } := rfl
      rw [hfresh] at hsub'
      obtain ⟨s, -, rfl⟩ := Option.map_eq_some_iff.mp hsub'
      cases hunfresh

theorem Sound.wsUnsubscribe (h : Sound symbol w) (ok : Bool) : Sound symbol (wsUnsubscribe ok w) := by
  unfold Depth.wsUnsubscribe
  cases ok with
  | false => exact h.retask _ (Or.inr (Or.inr (Or.inl rfl)))
  | true =>
    refine ⟨h.recoveries, h.synced, nofun, fun _ => rfl, nofun, nofun, nofun, nofun⟩

/-! ## Runs -/

/-- **Soundness.** Every step keeps it. -/
theorem sound_step (h : Sound symbol w) (event : Event) : Sound symbol (step symbol w event) := by
  unfold step
  split
  · exact h
  · split
    · exact h.onDepth _
    · unfold recovered
      rw [if_pos h.recoveries]
      exact h
    · rename_i htask
      exact h.retask _ (Or.inl ⟨rfl, Or.inl htask⟩)
    · rename_i htask
      exact h.bootstrapSnapshot (Or.inr (Or.inl htask)) _
    · rename_i htask
      exact h.bootstrapCommits (Or.inr (Or.inr ⟨_, htask⟩)) (h.waiting _ htask) _ _
    · split
      · exact h
      · rename_i hws
        exact h.retask _ (Or.inr (Or.inr (Or.inr (Or.inl ⟨rfl, by simpa using hws⟩))))
    · rename_i htask
      exact h.wsSubscribe htask _
    · rename_i htask
      exact h.rotationSnapshot htask _
    · split
      · exact h.retask _ (Or.inr (Or.inr (Or.inr (Or.inr rfl))))
      · exact h
    · exact h.wsUnsubscribe _
    · exact h

theorem sound_started (symbol : String) : Sound symbol started :=
  ⟨rfl, nofun, nofun, fun _ => rfl, fun _ => rfl, nofun, nofun, nofun⟩

theorem sound_absent (symbol : String) : Sound symbol absent :=
  ⟨rfl, nofun, nofun, fun _ => rfl, nofun, nofun, nofun, nofun⟩

end MikoV2.Depth
