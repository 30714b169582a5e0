import MikoV2.Depth.Sound

/-!
# A subscription made by the rotation

`_apply_rotation` subscribes, waits for the snapshot, and only then makes the symbol a member; `on_depth` drops
what comes in between. From the snapshot on, the validator takes every push that is newer than the last.

* `Whole` : the book of the subscription has every push that is newer than its snapshot, and no older book got one;
* `KeepsUp` : the snapshot is as new as every push delivered while it was fetched, and no batch raises;
* `whole_iff` : the condition is exact, along every run with the pushes in order.
-/

namespace MikoV2.Depth
open DataLayer

variable (symbol : String)

/-- Since `ws.subscribe` returned no push went to an older book, and once the snapshot is in, every push
delivered since that is newer is applied to the new one. -/
def Whole (w : World) : Prop :=
  ∀ sub, w.ledger.subscription = some sub → sub.stale = [] ∧
    (w.hung = false → sub.fresh = true →
      ∀ v ∈ sub.delivered, (∀ u, w.ledger.snapshot = some u → u < v) → v ∈ w.ledger.pushes)

/-- The snapshot is as new as every push delivered since `ws.subscribe` returned; after it, no batch of a push
that is newer than the snapshot raises. -/
def KeepsUp (w : World) : Event → Prop
  | .snapshot (some snap) => w.hung = false → w.task = .rotationSnapshot →
      ∀ sub, w.ledger.subscription = some sub → ∀ v ∈ sub.delivered, v ≤ snap.version
  | .depth data => w.hung = false → ∀ sub, w.ledger.subscription = some sub → sub.fresh = true →
      ∀ v, data.version = some v → (∀ u, w.ledger.snapshot = some u → u < v) →
        (hand (parseDiffs data) w.book).1 ≠ .raised
  | _ => True

/-! ## The invariant -/

/-- The validator of a fresh subscription stands at its snapshot or at a push of it. -/
structure Fed (sub : Subscription) (w : World) : Prop where
  live : w.member = true ∧ w.synced = true
  mark : ∃ u st, w.ledger.snapshot = some u ∧ w.seqStates symbol = some st ∧ st.epoch = currentEpoch ∧
    u ≤ st.lastU ∧ (st.lastU = u ∨ st.lastU ∈ sub.delivered)
  pushes : ∀ v ∈ w.ledger.pushes, v ∈ sub.delivered

structure WholeInv (w : World) : Prop where
  sound : Sound symbol w
  whole : Whole w
  delivered : ∀ sub, w.ledger.subscription = some sub → ∀ v ∈ sub.delivered, v ∈ w.ledger.delivered
  fed : w.hung = false → ∀ sub, w.ledger.subscription = some sub → sub.fresh = true → Fed symbol sub w

variable {symbol} {w w' : World}

/-- Without a subscription of the rotation there is nothing to lose. -/
theorem WholeInv.of_none (hsound : Sound symbol w) (hnone : w.ledger.subscription = none) : WholeInv symbol w := by
  refine ⟨hsound, fun sub hsub => ?_, fun sub hsub => ?_, fun _ sub hsub => ?_⟩
  all_goals
    rw [hnone] at hsub
    cases hsub

/-- A step that leaves ledger, book and validator alone. -/
theorem WholeInv.of_eq (h : WholeInv symbol w) (hsound : Sound symbol w') (hledger : w'.ledger = w.ledger)
    (hhung : w'.hung = w.hung) (hmember : w'.member = w.member) (hsynced : w'.synced = w.synced)
    (hseq : w'.seqStates = w.seqStates) : WholeInv symbol w' := by
  refine ⟨hsound, ?_, ?_, ?_⟩
  · unfold Whole
    rw [hledger, hhung]
    exact h.whole
  · rw [hledger]
    exact h.delivered
  · rw [hledger, hhung]
    intro hrunning sub hsub hfresh
    obtain ⟨hlive, hmark, hpushes⟩ := h.fed hrunning sub hsub hfresh
    refine ⟨?_, ?_, ?_⟩
    · rw [hmember, hsynced]
      exact hlive
    · rw [hledger, hseq]
      exact hmark
    · rw [hledger]
      exact hpushes

/-! ## Pushes -/

/-- A push that is only counted: the symbol is not live, or the push is stale. -/
theorem WholeInv.deliver (h : WholeInv symbol w) {version : ℤ} (hsound : Sound symbol w')
    (hledger : w'.ledger = w.ledger.deliver version) (hhung : w'.hung = w.hung) (hmember : w'.member = w.member)
    (hsynced : w'.synced = w.synced) (hseq : w'.seqStates = w.seqStates)
    (hold : ∀ sub, w.ledger.subscription = some sub → w.hung = false → sub.fresh = true →
      ∃ u, w.ledger.snapshot = some u ∧ version ≤ u) : WholeInv symbol w' := by
  have hmap : w'.ledger.subscription =
      w.ledger.subscription.map fun s => { s with delivered := version :: s.delivered } := by
    rw [hledger]
    rfl
  have hsnap : w'.ledger.snapshot = w.ledger.snapshot := by
    rw [hledger]
    rfl
  have hpush : w'.ledger.pushes = w.ledger.pushes := by
    rw [hledger]
    rfl
  refine ⟨hsound, fun sub hsub => ?_, fun sub hsub v hv => ?_, fun hrunning sub hsub hfresh => ?_⟩
  all_goals
    rw [hmap] at hsub
    obtain ⟨s, hs, rfl⟩ := Option.map_eq_some_iff.mp hsub
  · obtain ⟨hstale, hin⟩ := h.whole s hs
    refine ⟨hstale, fun hrunning hfresh v hv habove => ?_⟩
    rw [hhung] at hrunning
    rw [hsnap] at habove
    rw [hpush]
    rcases List.mem_cons.mp hv with rfl | hv
    · obtain ⟨u, hu, hle⟩ := hold s hs hrunning hfresh
      exact absurd (habove u hu) (not_lt.mpr hle)
    · exact hin hrunning hfresh v hv habove
  · rw [hledger]
    rcases List.mem_cons.mp hv with rfl | hv
    · exact List.mem_cons_self
    · exact List.mem_cons_of_mem _ (h.delivered s hs v hv)
  · rw [hhung] at hrunning
    obtain ⟨hlive, ⟨u, st, hu, hst, hepoch, hle, hlast⟩, hpushes⟩ := h.fed hrunning s hs hfresh
    refine ⟨?_, ⟨u, st, ?_, ?_, hepoch, hle, ?_⟩, fun v hv => ?_⟩
    · rw [hmember, hsynced]
      exact hlive
    · rw [hsnap, hu]
    · rw [hseq, hst]
    · exact hlast.imp id fun hin => List.mem_cons_of_mem _ hin
    · rw [hpush] at hv
      exact List.mem_cons_of_mem _ (hpushes v hv)

/-- What a subscription becomes when a push of it goes to the book. -/
theorem subscription_push (l : Ledger) (version : ℤ) (exit : Exit) {sub : Subscription}
    (hsub : ((l.deliver version).push version exit).subscription = some sub)
    (hfresh : ∀ s, l.subscription = some s → s.fresh = true) :
    ∃ s, l.subscription = some s ∧ sub = { s with delivered := version :: s.delivered } := by
  have hmap : ((l.deliver version).push version exit).subscription =
      (l.subscription.map fun s => { s with delivered := version :: s.delivered }).map
        fun s => if s.fresh then s else { s with stale := version :: s.stale } := rfl
  rw [hmap, Option.map_map] at hsub
  obtain ⟨s, hs, rfl⟩ := Option.map_eq_some_iff.mp hsub
  refine ⟨s, hs, ?_⟩
  dsimp only [Function.comp]
  rw [if_pos (hfresh s hs)]

/-- A push of a live symbol that the validator takes: lost exactly when its batch raises. -/
theorem whole_push (h : WholeInv symbol w) (hrunning : w.hung = false) {data : Push} {version : ℤ}
    (hversion : data.version = some version) (hfresh : Fresh w (.depth data)) (hmember : w.member = true)
    {st : SeqState} (hst : w.seqStates symbol = some st) (hlt : st.lastU < version)
    (hsound : Sound symbol w') (hsynced : w'.synced = true) (hmember' : w'.member = true)
    (hseq : w'.seqStates = Function.update w.seqStates symbol (some ⟨version, currentEpoch⟩))
    (hhung : w'.hung = decide ((hand (parseDiffs data) w.book).1 = .hung))
    (hledger : w'.ledger = (w.ledger.deliver version).push version (hand (parseDiffs data) w.book).1) :
    (KeepsUp w (.depth data) → WholeInv symbol w') ∧ (¬ KeepsUp w (.depth data) → ¬ Whole w') := by
  have hallfresh : ∀ s, w.ledger.subscription = some s → s.fresh = true := by
    intro s hs
    by_contra hunfresh
    have hout := h.sound.unfresh s hs (by simpa using hunfresh)
    rw [hmember] at hout
    cases hout
  have hsnap : w'.ledger.snapshot = w.ledger.snapshot := by
    rw [hledger]
    rfl
  have hpushes : w'.ledger.pushes = if (hand (parseDiffs data) w.book).1 = .returned then version :: w.ledger.pushes
      else w.ledger.pushes := by
    rw [hledger]
    rfl
  have hnewer : ∀ u ∈ w.ledger.delivered, u < version := hfresh version hversion
  -- the push is newer than the snapshot of its subscription
  have habove : ∀ s, w.ledger.subscription = some s → ∀ u, w.ledger.snapshot = some u → u < version := by
    intro s hs u hu
    obtain ⟨-, ⟨u', st', hu', hst', -, hle, -⟩, -⟩ := h.fed hrunning s hs (hallfresh s hs)
    rw [hu] at hu'
    rw [hst] at hst'
    cases hu'
    cases hst'
    omega
  constructor
  · intro hok
    have hkeeps : ∀ s, w.ledger.subscription = some s → (hand (parseDiffs data) w.book).1 ≠ .raised := fun s hs =>
      hok hrunning s hs (hallfresh s hs) version hversion (habove s hs)
    refine ⟨hsound, fun sub hsub => ?_, fun sub hsub v hv => ?_, fun hrunning' sub hsub _ => ?_⟩
    all_goals
      rw [hledger] at hsub
      obtain ⟨s, hs, rfl⟩ := subscription_push w.ledger version _ hsub hallfresh
    · obtain ⟨hstale, hin⟩ := h.whole s hs
      refine ⟨hstale, fun hrunning' _ v hv hbeyond => ?_⟩
      have hreturned : (hand (parseDiffs data) w.book).1 = .returned := by
        have hraised := hkeeps s hs
        rw [hhung] at hrunning'
        revert hrunning' hraised
        cases (hand (parseDiffs data) w.book).1 with
        | returned => exact fun _ _ => rfl
        | raised => exact fun _ hraised => absurd rfl hraised
        | hung => exact fun hnot _ => absurd hnot (by decide)
      rw [hpushes, if_pos hreturned]
      rcases List.mem_cons.mp hv with rfl | hv
      · exact List.mem_cons_self
      · rw [hsnap] at hbeyond
        exact List.mem_cons_of_mem _ (hin hrunning (hallfresh s hs) v hv hbeyond)
    · rw [hledger]
      rcases List.mem_cons.mp hv with rfl | hv
      · exact List.mem_cons_self
      · exact List.mem_cons_of_mem _ (h.delivered s hs v hv)
    · obtain ⟨-, ⟨u, st', hu, hst', -, hle, -⟩, hin⟩ := h.fed hrunning s hs (hallfresh s hs)
      refine ⟨⟨hmember', hsynced⟩, ⟨u, ⟨version, currentEpoch⟩, ?_, ?_, rfl, ?_, Or.inr List.mem_cons_self⟩, ?_⟩
      · rw [hsnap, hu]
      · rw [hseq, Function.update_self]
      · exact (habove s hs u hu).le
      · intro v hv
        rw [hpushes] at hv
        split at hv
        · rcases List.mem_cons.mp hv with rfl | hv
          · exact List.mem_cons_self
          · exact List.mem_cons_of_mem _ (hin v hv)
        · exact List.mem_cons_of_mem _ (hin v hv)
  · intro hnot hwhole
    refine hnot fun _ s hs _ v hv _ hraised => ?_
    rw [hversion] at hv
    cases hv
    have hsub : w'.ledger.subscription = some { s with delivered := version :: s.delivered } := by
      rw [hledger]
      show (w.ledger.subscription.map _).map _ = _
      rw [hs]
      simp [hallfresh s hs]
    obtain ⟨-, hin⟩ := hwhole _ hsub
    have hlost := hin (by rw [hhung, hraised]; rfl) (hallfresh s hs) version List.mem_cons_self fun u hu => by
      rw [hsnap] at hu
      exact habove s hs u hu
    rw [hpushes, if_neg (by rw [hraised]; decide)] at hlost
    obtain ⟨-, -, hin'⟩ := h.fed hrunning s hs (hallfresh s hs)
    exact lt_irrefl _ (hnewer version (h.delivered s hs version (hin' version hlost)))

theorem whole_onDepth (h : WholeInv symbol w) (hrunning : w.hung = false) (data : Push)
    (hfresh : Fresh w (.depth data)) :
    (KeepsUp w (.depth data) → WholeInv symbol (onDepth symbol data w)) ∧
      (¬ KeepsUp w (.depth data) → ¬ Whole (onDepth symbol data w)) := by
  have hsound := h.sound.onDepth data
  cases hversion : data.version with
  | none =>
    have hsame : onDepth symbol data w = w := by
      unfold onDepth
      rw [hversion]
    rw [hsame]
    refine ⟨fun _ => h, fun hnot => absurd (fun _ _ _ _ v hv => ?_) hnot⟩
    rw [hversion] at hv
    cases hv
  | some version =>
    by_cases hlive : w.member = false ∨ w.synced = false
    · have hunfed : ∀ sub, w.ledger.subscription = some sub → w.hung = false → sub.fresh = true → False := by
        intro sub hsub _ hsubfresh
        obtain ⟨⟨hm, hs⟩, -, -⟩ := h.fed hrunning sub hsub hsubfresh
        rw [hm, hs] at hlive
        simp at hlive
      rw [onDepth_unsynced hversion hlive] at hsound ⊢
      refine ⟨fun _ => h.deliver hsound rfl rfl rfl rfl rfl fun sub hsub hr hf => (hunfed sub hsub hr hf).elim,
        fun hnot => absurd (fun hr sub hsub hf => (hunfed sub hsub hr hf).elim) hnot⟩
    · obtain ⟨hmember, hsynced⟩ : w.member = true ∧ w.synced = true := by simpa using hlive
      obtain ⟨st, hst, hepoch⟩ := h.sound.synced hsynced
      obtain ⟨hstale, hnew⟩ := onDepth_live data hversion hmember hsynced hst hepoch
      rcases le_or_gt version st.lastU with hle | hlt
      · have hold : ∀ sub, w.ledger.subscription = some sub → w.hung = false → sub.fresh = true →
            ∃ u, w.ledger.snapshot = some u ∧ version ≤ u := by
          intro sub hsub _ hsubfresh
          obtain ⟨-, ⟨u, st', hu, hst', -, -, hlast⟩, -⟩ := h.fed hrunning sub hsub hsubfresh
          rw [hst] at hst'
          cases hst'
          rcases hlast with heq | hin
          · exact ⟨u, hu, by omega⟩
          · have hbefore := hfresh version hversion _ (h.delivered sub hsub _ hin)
            omega
        rw [hstale hle] at hsound ⊢
        refine ⟨fun _ => h.deliver hsound rfl rfl rfl rfl rfl hold,
          fun hnot => absurd (fun hr sub hsub hf v hv habove => ?_) hnot⟩
        rw [hversion] at hv
        cases hv
        obtain ⟨u, hu, hleu⟩ := hold sub hsub hr hf
        exact absurd (habove u hu) (not_lt.mpr hleu)
      · rw [hnew hlt] at hsound ⊢
        exact whole_push h hrunning hversion hfresh hmember hst hlt hsound hsynced hmember rfl rfl rfl

/-! ## The snapshot -/

theorem whole_rotationSnapshot (h : WholeInv symbol w) (hrunning : w.hung = false) (htask : w.task = .rotationSnapshot)
    (answer : Option Snapshot) :
    (KeepsUp w (.snapshot answer) → WholeInv symbol (rotationSnapshot symbol answer w)) ∧
      (¬ KeepsUp w (.snapshot answer) → ¬ Whole (rotationSnapshot symbol answer w)) := by
  have hsound := h.sound.rotationSnapshot htask answer
  cases answer with
  | none => exact ⟨fun _ => h.of_eq hsound rfl rfl rfl rfl rfl, fun hnot => absurd trivial hnot⟩
  | some snap =>
    obtain ⟨-, s, hs, -⟩ := h.sound.rotating htask
    have hsub : (rotationSnapshot symbol (some snap) w).ledger.subscription = some { s with fresh := true } :=
      congrArg (Option.map _) hs
    constructor
    · intro hok
      have hbelow := hok hrunning htask s hs
      refine ⟨hsound, fun sub hsub' => ?_, fun sub hsub' => ?_, fun _ sub hsub' _ => ?_⟩
      all_goals
        rw [hsub] at hsub'
        cases hsub'
      · refine ⟨(h.whole s hs).1, fun _ _ v hv habove => ?_⟩
        exact absurd (habove snap.version rfl) (not_lt.mpr (hbelow v hv))
      · exact h.delivered s hs
      · exact ⟨⟨rfl, rfl⟩, ⟨snap.version, _, rfl, setLastU_same (Function.update_self ..) _, rfl, le_refl _, Or.inl rfl⟩,
          nofun⟩
    · intro hnot hwhole
      refine hnot fun _ _ s' hs' v hv => ?_
      rw [hs] at hs'
      cases hs'
      by_contra hlt
      have hlost := (hwhole _ hsub).2 hrunning rfl v hv fun u hu => by
        cases hu
        omega
      cases hlost

/-! ## Runs -/

theorem whole_step (h : WholeInv symbol w) (event : Event) (hfresh : Fresh w event) :
    (KeepsUp w event → WholeInv symbol (step symbol w event)) ∧
      (¬ KeepsUp w event → ¬ Whole (step symbol w event)) := by
  have hsound := sound_step h.sound event
  unfold step at hsound ⊢
  by_cases hhung : w.hung = true
  · rw [if_pos hhung]
    refine ⟨fun _ => h, fun hnot => absurd ?_ hnot⟩
    unfold KeepsUp
    split
    · intro hfalse
      rw [hhung] at hfalse
      cases hfalse
    · intro hfalse
      rw [hhung] at hfalse
      cases hfalse
    · trivial
  · have hrunning : w.hung = false := by simpa using hhung
    rw [if_neg hhung] at hsound ⊢
    split at hsound
    · exact whole_onDepth h hrunning _ hfresh
    · refine ⟨fun _ => ?_, fun hnot => absurd trivial hnot⟩
      unfold recovered
      rw [if_pos h.sound.recoveries]
      exact h
    · exact ⟨fun _ => h.of_eq hsound rfl rfl rfl rfl rfl, fun hnot => absurd trivial hnot⟩
    · rename_i answer htask
      have hnone := bootstrapSnapshot_unsubscribed symbol answer (h.sound.booting (Or.inr (Or.inl htask)))
      refine ⟨fun _ => .of_none hsound hnone, fun hnot => absurd ?_ hnot⟩
      cases answer with
      | none => trivial
      | some snap =>
        intro _ hrotating
        rw [htask] at hrotating
        cases hrotating
    · rename_i answer remaining htask
      have hnone := bootstrapCommits_unsubscribed symbol answer remaining
        (h.sound.booting (Or.inr (Or.inr ⟨remaining, htask⟩)))
      exact ⟨fun _ => .of_none hsound hnone, fun hnot => absurd trivial hnot⟩
    · refine ⟨fun _ => ?_, fun hnot => absurd trivial hnot⟩
      split
      · exact h
      · rename_i hws
        rw [if_neg hws] at hsound
        exact h.of_eq hsound rfl rfl rfl rfl rfl
    · rename_i ok htask
      refine ⟨fun _ => ?_, fun hnot => absurd trivial hnot⟩
      cases ok with
      | false => exact h.of_eq hsound rfl rfl rfl rfl rfl
      | true =>
        refine ⟨hsound, fun sub hsub => ?_, fun sub hsub => ?_, fun _ sub hsub hsubfresh => ?_⟩
        all_goals
          have hnew : some ({} : Subscription) = some sub := hsub
          cases hnew
        · exact ⟨rfl, fun _ _ => nofun⟩
        · exact nofun
        · cases hsubfresh
    · rename_i htask
      exact whole_rotationSnapshot h hrunning htask _
    · refine ⟨fun _ => ?_, fun hnot => absurd trivial hnot⟩
      split
      · rename_i hws
        rw [if_pos hws] at hsound
        exact h.of_eq hsound rfl rfl rfl rfl rfl
      · exact h
    · rename_i ok htask
      refine ⟨fun _ => ?_, fun hnot => absurd trivial hnot⟩
      cases ok with
      | false => exact h.of_eq hsound rfl rfl rfl rfl rfl
      | true => exact .of_none hsound rfl
    · rename_i hdepth _ _ _ _ _ _ hsnapshot _ _
      refine ⟨fun _ => h, fun hnot => absurd ?_ hnot⟩
      unfold KeepsUp
      split
      · intro _ htask
        exact (hsnapshot _ rfl htask).elim
      · exact (hdepth _ rfl).elim
      · trivial

/-- **Subscriptions of the rotation.** Along every run with the pushes in order, of an initial symbol or of one
that comes later, a subscription of the rotation loses no push and feeds no older book exactly when its snapshot
is as new as the pushes that came before it and no batch raises. -/
theorem whole_iff (symbol : String) (initial : Bool) {events : List Event} (horder : InOrder events) :
    Runs.Always Whole (step symbol) (if initial then started else absent) events ↔
      Runs.Guarded KeepsUp (step symbol) (if initial then started else absent) events := by
  have hstart : WholeInv symbol (if initial then started else absent) := by
    cases initial with
    | true => exact .of_none (sound_started symbol) rfl
    | false => exact .of_none (sound_absent symbol) rfl
  have hnone : (if initial then started else absent).ledger.delivered = [] := by cases initial <;> rfl
  rw [Runs.always_iff_guarded hstart.whole]
  refine Runs.guarded_iff_guarded_of (inOrder_fresh horder hnone) hstart (fun w e _ h hfresh hok => ?_)
    fun w e _ h hfresh hok => (whole_step h e hfresh).2 hok
  have hstep := (whole_step h e hfresh).1 hok
  exact ⟨hstep, hstep.whole⟩

/-- A symbol that the rotation brings, and one push while its snapshot is fetched. -/
def overtaken : List Event :=
  [.subscribe, .wsSubscribe true, .depth { version := some 11, bids := [some (100, 1)] },
    .snapshot (some ⟨10, [(100, 2)], [(101, 2)]⟩), .depth { version := some 12, bids := [some (99, 1)] }]

theorem overtaken_inOrder : InOrder overtaken := by
  unfold InOrder
  decide

theorem whole_iff_overtaken : InOrder overtaken ∧ (Runs.Always Whole (step "BTC_USDT") absent overtaken ↔
    Runs.Guarded KeepsUp (step "BTC_USDT") absent overtaken) :=
  ⟨overtaken_inOrder, whole_iff "BTC_USDT" false overtaken_inOrder⟩

/-- The snapshot is of version 10; 11 is dropped, 12 is applied to it. -/
theorem not_whole_overtaken : InOrder overtaken ∧ ¬ Runs.Always Whole (step "BTC_USDT") absent overtaken := by
  refine ⟨overtaken_inOrder, fun h => ?_⟩
  have hledger : (Runs.run (step "BTC_USDT") absent overtaken).ledger =
      ⟨[12, 11], some 10, [12], [12], [], some ⟨[12, 11], true, []⟩⟩ := by decide
  have hlast : Whole (Runs.run (step "BTC_USDT") absent overtaken) := h.last
  unfold Whole at hlast
  rw [hledger] at hlast
  have hlost := (hlast _ rfl).2 (by decide) rfl 11 (by decide) fun u hu => by
    cases hu
    decide
  exact absurd hlost (by decide)

end MikoV2.Depth
