import MikoV2.Depth.Steps

/-!
# Versions applied to a book increase

The watermark exists twice, in the validator and in the runner, and a bootstrap moves the runner's beyond the
validator's when it applies buffered pushes last.

* `Marked` : the validator's mark is not behind the runner's while the symbol is synced;
* `KeepsMark` : the steps that keep both, in terms of the state before them and of the answer;
* `MarkInv` : the invariant; `markInv_step` : every step keeps it or breaks the property, as `KeepsMark` says;
* `Decides` : a condition decides between the invariant and the property's end; `bootstrapCommits_mark`, by how the
  recovery ends;
* `increasing_iff` : the condition is exact, along every run.
-/

namespace MikoV2.Depth
open DataLayer

variable (symbol : String)

/-- While the symbol is synced, the validator's `last_u` is at least `last_applied_version`. -/
def Marked (w : World) : Prop :=
  w.synced = true → ∃ st, w.seqStates symbol = some st ∧ w.lastApplied ≤ st.lastU

/-- The bootstrap is over after these commits, with all its batches applied. -/
def Completes (answer : Option (List Commit)) (remaining : List Entry) (w : World) : Prop :=
  (bridged symbol answer remaining w).1 = .returned ∧
    (remainingLoop remaining (bridged symbol answer remaining w).2).1 = .returned

/-- The answer to `fetch_commits` leaves no push to apply without a mark: a recovery that raises has not handed
the book what the oldest kept push would hand it again, and a bootstrap that is over after a recovery has applied
no buffered push since `set_last_u`. -/
structure CommitsMark (answer : Option (List Commit)) (remaining : List Entry) (w : World) : Prop where
  raised : (gapRecover symbol answer w).1 = .raised → ∀ oldest ∈ remaining.head?,
    ∀ u ∈ (gapRecover symbol answer w).2.ledger.handed, u < oldest.version
  completes : Completes symbol answer remaining w → (gapRecover symbol answer w).1 = .returned ∧
    (answer = some [] → w.ledger.snapshot = some w.lastApplied) ∧
    ∀ e ∈ remaining, e.version ≠ (gapRecover symbol answer w).2.lastApplied + 1

/-- A bootstrap does not end with a buffered push applied after its last `set_last_u`, and a failed recovery
does not go back behind what it applied. -/
def KeepsMark (w : World) : Event → Prop
  | .snapshot (some snap) => w.hung = false → w.task = .bootSnapshot →
      (bufferLoop w.pending (snap.version + 1) (install symbol snap w)).1 = .returned →
      (bufferLoop w.pending (snap.version + 1) (install symbol snap w)).2.1 = [] →
      ∀ e ∈ w.pending, e.version ≠ snap.version + 1
  | .commits answer => w.hung = false → ∀ remaining, w.task = .bootCommits remaining →
      CommitsMark symbol answer remaining w
  | _ => True

/-! ## The invariant -/

/-- What a bootstrap that waits for the commits knows. -/
structure Waiting (remaining : List Entry) (w : World) : Prop where
  level : Level w
  mark : ∃ v, w.ledger.snapshot = some v ∧ w.seqStates symbol = some ⟨v, currentEpoch⟩ ∧
    ∀ e ∈ remaining, v + 1 < e.version
  nonempty : remaining ≠ []

structure MarkInv (w : World) : Prop where
  rising : Rising w
  recoveries : w.recoveries = 0
  synced : w.synced = true → ∃ st, w.seqStates symbol = some st ∧ st.epoch = currentEpoch ∧
    w.lastApplied ≤ st.lastU ∧ (∀ u ∈ w.ledger.handed, u ≤ st.lastU) ∧
    ∀ v, w.ledger.snapshot = some v → v ≤ st.lastU
  booting : w.task = .starting ∨ w.task = .bootSnapshot ∨ (∃ remaining, w.task = .bootCommits remaining) →
    w.synced = false
  waiting : w.hung = false → ∀ remaining, w.task = .bootCommits remaining → Waiting symbol remaining w

variable {symbol} {w w' m : World} {exit : Exit}

theorem MarkInv.marked (h : MarkInv symbol w) : Marked symbol w := by
  intro hsynced
  obtain ⟨st, hst, -, hle, -⟩ := h.synced hsynced
  exact ⟨st, hst, hle⟩

/-- Steps that move neither mark nor book. -/
theorem MarkInv.of_eq (h : MarkInv symbol w) (hseq : w'.seqStates = w.seqStates)
    (hmark : w'.lastApplied = w.lastApplied) (hhanded : w'.ledger.handed = w.ledger.handed)
    (hsnap : w'.ledger.snapshot = w.ledger.snapshot) (hsynced : w'.synced = w.synced)
    (hrec : w'.recoveries = w.recoveries) (hhung : w'.hung = w.hung)
    (htask : w'.task = w.task ∨ (w.task = .starting ∧ w'.task = .bootSnapshot) ∨
      w'.task = .failed ∨ w'.task = .idle ∨ w'.task = .subscribing ∨ w'.task = .rotationSnapshot ∨
        w'.task = .unsubscribing) : MarkInv symbol w' := by
  refine ⟨?_, hrec.trans h.recoveries, ?_, ?_, ?_⟩
  · unfold Rising
    rw [hhanded, hsnap]
    exact h.rising
  · rw [hsynced, hseq, hmark, hhanded, hsnap]
    exact h.synced
  · rw [hsynced]
    intro hboot
    rcases htask with htask | ⟨hstart, -⟩ | htask | htask | htask | htask | htask
    · rw [htask] at hboot
      exact h.booting hboot
    · exact h.booting (Or.inl hstart)
    all_goals
      rw [htask] at hboot
      simp at hboot
  · rw [hhung]
    intro hnot remaining hrem
    rcases htask with htask | ⟨-, htask⟩ | htask | htask | htask | htask | htask
    · rw [htask] at hrem
      obtain ⟨hlevel, hm, hne⟩ := h.waiting hnot remaining hrem
      refine ⟨hlevel.of_eq hmark hhanded hsnap, ?_, hne⟩
      rw [hsnap, hseq]
      exact hm
    all_goals
      rw [htask] at hrem
      cases hrem

/-! ## Pushes -/

theorem markInv_onDepth (h : MarkInv symbol w) (data : Push) : MarkInv symbol (onDepth symbol data w) := by
  cases hversion : data.version with
  | none =>
    unfold onDepth
    rw [hversion]
    exact h
  | some version =>
    by_cases hlive : w.member = false ∨ w.synced = false
    · rw [onDepth_unsynced hversion hlive]
      exact h.of_eq rfl rfl rfl rfl rfl rfl rfl (Or.inl rfl)
    · obtain ⟨hmember, hsynced⟩ : w.member = true ∧ w.synced = true := by simpa using hlive
      obtain ⟨st, hst, hepoch, hmark, hhanded, hsnap⟩ := h.synced hsynced
      obtain ⟨hstale, hnew⟩ := onDepth_live data hversion hmember hsynced hst hepoch
      rcases le_or_gt version st.lastU with hle | hlt
      · rw [hstale hle]
        exact h.of_eq rfl rfl rfl rfl rfl rfl rfl (Or.inl rfl)
      · rw [hnew hlt]
        have hunbooted : ∀ remaining, w.task ≠ .bootCommits remaining := by
          intro remaining ht
          rw [h.booting (Or.inr (Or.inr ⟨remaining, ht⟩))] at hsynced
          cases hsynced
        have hbelow : ∀ u ∈ w.ledger.handed, u < version := fun u hu => lt_of_le_of_lt (hhanded u hu) hlt
        have habove : ∀ v, w.ledger.snapshot = some v → v < version := fun v hv => lt_of_le_of_lt (hsnap v hv) hlt
        refine ⟨⟨List.pairwise_cons.mpr ⟨hbelow, h.rising.1⟩, fun v hv u hu => ?_⟩, h.recoveries, fun _ => ?_,
          h.booting, fun _ remaining hrem => absurd hrem (hunbooted remaining)⟩
        · rcases List.mem_cons.mp hu with rfl | hu
          · exact habove v hv
          · exact h.rising.2 v hv u hu
        -- the validator's mark is the version, whatever becomes of the batch
        · refine ⟨_, Function.update_self .., rfl, ?_, fun u hu => ?_, fun v hv => (habove v hv).le⟩
          · dsimp only
            split
            · exact le_refl _
            · omega
          · rcases List.mem_cons.mp hu with rfl | hu
            · exact le_refl _
            · exact (hbelow u hu).le

/-! ## The snapshot -/

theorem install_mark (symbol : String) (snap : Snapshot) (w : World) :
    (install symbol snap w).seqStates symbol = some ⟨snap.version, currentEpoch⟩ :=
  setLastU_same (Function.update_self ..) _

theorem install_level (symbol : String) (snap : Snapshot) (w : World) : Level (install symbol snap w) := by
  refine ⟨⟨List.Pairwise.nil, fun v _ u hu => ?_⟩, fun u hu => ?_, fun v hv => ?_⟩
  · cases hu
  · cases hu
  · cases hv
    exact le_refl _

theorem markInv_rotationSnapshot (h : MarkInv symbol w) (answer : Option Snapshot) :
    MarkInv symbol (rotationSnapshot symbol answer w) := by
  cases answer with
  | none => exact h.of_eq rfl rfl rfl rfl rfl rfl rfl (Or.inr (Or.inr (Or.inr (Or.inl rfl))))
  | some snap =>
    have hlevel := install_level symbol snap w
    refine ⟨hlevel.rising, h.recoveries, fun _ => ?_, fun hboot => ?_, fun _ remaining hrem => ?_⟩
    · exact ⟨_, install_mark symbol snap w, rfl, le_refl _, hlevel.handed, hlevel.snapshot⟩
    · simp [rotationSnapshot] at hboot
    · cases hrem

/-- After the snapshot, the loop over the buffer either leaves pushes to wait with, or it has moved the mark
exactly when a push of the version after the snapshot was there. -/
theorem bootstrapSnapshot_mark (h : MarkInv symbol w) (hhung : w.hung = false) (htask : w.task = .bootSnapshot)
    (answer : Option Snapshot) :
    (KeepsMark symbol w (.snapshot answer) → MarkInv symbol (bootstrapSnapshot symbol answer w)) ∧
      (¬ KeepsMark symbol w (.snapshot answer) → ¬ Marked symbol (bootstrapSnapshot symbol answer w)) := by
  cases answer with
  | none =>
    exact ⟨fun _ => h.of_eq rfl rfl rfl rfl rfl rfl rfl (Or.inr (Or.inr (Or.inl rfl))), fun hok => absurd trivial hok⟩
  | some snap =>
    have hunsynced : w.synced = false := h.booting (Or.inr (Or.inl htask))
    have hlevel := install_level symbol snap w
    have hadv := bufferLoop_advances w.pending (install symbol snap w) (snap.version + 1) rfl
    have hmoved := bufferLoop_lastApplied w.pending (install symbol snap w) (snap.version + 1) rfl
    have hremaining := bufferLoop_remaining w.pending (snap.version + 1) (install symbol snap w)
    unfold bootstrapSnapshot KeepsMark
    dsimp only
    rcases hloop : bufferLoop w.pending (snap.version + 1) (install symbol snap w) with ⟨exit, remaining, m⟩
    rw [hloop] at hadv hmoved hremaining
    dsimp only at hadv hmoved hremaining ⊢
    have hseq : m.seqStates symbol = some ⟨snap.version, currentEpoch⟩ := by
      rw [hadv.kept.seqStates]
      exact install_mark symbol snap w
    have hms : m.synced = false := hadv.kept.synced.trans hunsynced
    have hmt : m.task = .bootSnapshot := hadv.kept.task.trans htask
    have hmr : m.recoveries = 0 := hadv.kept.recoveries.trans h.recoveries
    have hrising := hadv.rising hlevel
    -- a bootstrap that is not over leaves the symbol unsynced
    have hopen : ∀ t : Task, (∀ remaining, t ≠ .bootCommits remaining) → MarkInv symbol { m with task := t } := by
      intro t ht
      refine ⟨hrising, hmr, fun hs => ?_, fun _ => hms, fun _ remaining hrem => absurd hrem (ht remaining)⟩
      rw [show ({ m with task := t } : World).synced = m.synced from rfl, hms] at hs
      cases hs
    cases exit with
    | raised =>
      refine ⟨fun _ => ?_, fun hok => absurd (fun _ _ hret => by cases hret) hok⟩
      exact hopen .failed nofun
    | hung =>
      refine ⟨fun _ => ?_, fun hok => absurd (fun _ _ hret => by cases hret) hok⟩
      exact hopen m.task (fun remaining ht => by rw [hmt] at ht; cases ht)
    | returned =>
      cases remaining with
      | nil =>
        have hlast := hmoved rfl
        have hle := hadv.le
        have hbase : (install symbol snap w).lastApplied = snap.version := rfl
        constructor
        · intro hok
          have hsame := hlast.mpr (hok hhung htask rfl rfl)
          refine ⟨hrising, hmr, fun _ => ?_, fun hboot => ?_, fun _ remaining hrem => ?_⟩
          · have hlevel' := hadv.level rfl hlevel
            refine ⟨_, hseq, rfl, ?_, fun u hu => ?_, fun v hv => ?_⟩
            · exact (hsame.trans hbase).le
            · exact le_trans (hlevel'.handed u hu) (hsame.trans hbase).le
            · exact le_trans (hlevel'.snapshot v hv) (hsame.trans hbase).le
          · simp [bootstrapEnd] at hboot
          · cases hrem
        · intro hok hmarked
          obtain ⟨st, hst, hle'⟩ := hmarked rfl
          have heq : some st = some ⟨snap.version, currentEpoch⟩ := hst.symm.trans hseq
          cases heq
          refine hok fun _ _ _ _ => hlast.mp ?_
          have hle'' : m.lastApplied ≤ snap.version := hle'
          omega
      | cons e remaining =>
        refine ⟨fun _ => ?_, fun hok => absurd (fun _ _ _ hnil => by cases hnil) hok⟩
        refine ⟨hrising, hmr, fun hs => ?_, fun _ => hms, fun _ remaining' hrem => ?_⟩
        · have hms' : ({ m with task := .bootCommits (e :: remaining) } : World).synced = false := hms
          rw [hms'] at hs
          cases hs
        · cases hrem
          refine ⟨(hadv.level rfl hlevel).of_eq rfl rfl rfl, ⟨snap.version, hadv.kept.snapshot, hseq, ?_⟩, by simp⟩
          intro e' he'
          exact (hremaining e' he').2

/-! ## The commits -/

/-- The kept pushes are tried from a state `m` whose versions end at its mark, which is also the validator's
unless there were no commits. -/
theorem remaining_mark (remaining : List Entry) {st : SeqState} (hlevel : Level m) (hseq : m.seqStates symbol = some st)
    (hepoch : st.epoch = currentEpoch) (hle : st.lastU ≤ m.lastApplied) (hsynced : m.synced = false)
    (hrec : m.recoveries = 0) (hhung : m.hung = false) :
    (((remainingLoop remaining m).1 = .returned →
        st.lastU = m.lastApplied ∧ ∀ e ∈ remaining, e.version ≠ m.lastApplied + 1) →
      MarkInv symbol (bootstrapEnd (remainingLoop remaining m))) ∧
    ((remainingLoop remaining m).1 = .returned →
      ¬ (st.lastU = m.lastApplied ∧ ∀ e ∈ remaining, e.version ≠ m.lastApplied + 1) →
        ¬ Marked symbol (bootstrapEnd (remainingLoop remaining m))) := by
  have hadv := remainingLoop_advances remaining m
  have hmoved := remainingLoop_lastApplied remaining m
  rcases hloop : remainingLoop remaining m with ⟨exit, m'⟩
  rw [hloop] at hadv hmoved
  dsimp only at hadv hmoved ⊢
  have hrising := hadv.rising hlevel
  have hms : m'.synced = false := hadv.kept.synced.trans hsynced
  have hmr : m'.recoveries = 0 := hadv.kept.recoveries.trans hrec
  have hmseq : m'.seqStates symbol = some st := by rw [hadv.kept.seqStates, hseq]
  have hmhung := hadv.hung hhung
  cases exit with
  | raised =>
    refine ⟨fun _ => ⟨hrising, hmr, fun hs => ?_, fun _ => hms, nofun⟩, nofun⟩
    exact absurd (show m'.synced = true from hs) (by rw [hms]; exact Bool.false_ne_true)
  | hung =>
    refine ⟨fun _ => ⟨hrising, hmr, fun hs => ?_, fun _ => hms, fun hnot => ?_⟩, nofun⟩
    · exact absurd (show m'.synced = true from hs) (by rw [hms]; exact Bool.false_ne_true)
    · exact absurd (show m'.hung = false from hnot) (by rw [hmhung]; decide)
  | returned =>
    have hlast := hmoved rfl
    have hlevel' := hadv.level rfl hlevel
    constructor
    · intro hok
      obtain ⟨hmark, hnone⟩ := hok rfl
      have hsame := hlast.mpr hnone
      have heq : m'.lastApplied = st.lastU := by omega
      refine ⟨hrising, hmr, fun _ => ⟨st, hmseq, hepoch, heq.le, fun u hu => ?_, fun v hv => ?_⟩, fun hboot => ?_, nofun⟩
      · rw [← heq]
        exact hlevel'.handed u hu
      · rw [← heq]
        exact hlevel'.snapshot v hv
      · simp [bootstrapEnd] at hboot
    · intro _ hnot hmarked
      obtain ⟨st', hst', hle'⟩ := hmarked rfl
      have heq : some st' = some st := hst'.symm.trans hmseq
      cases heq
      have hle'' : m'.lastApplied ≤ st.lastU := hle'
      have hge := hadv.le
      exact hnot ⟨by omega, hlast.mp (by omega)⟩

/-- The condition decides between the invariant and the end of the property. -/
def Decides (symbol : String) (P : Prop) (w : World) : Prop :=
  (P → MarkInv symbol w) ∧ (¬ P → ¬ (Rising w ∧ Marked symbol w))

/-- A recovery that blocks the loop leaves the symbol unsynced. -/
theorem hung_decides {answer : Option (List Commit)} {remaining : List Entry} (hlevel : Level w)
    (hunsynced : w.synced = false) (hrec : w.recoveries = 0) (hhung : w.hung = false)
    (hgap : gapRecover symbol answer w = (.hung, w')) :
    Decides symbol (CommitsMark symbol answer remaining w) (bootstrapCommits symbol answer remaining w) := by
  obtain ⟨m, hadv, hstop, -⟩ := gapRecover_advances symbol answer w
  rw [hgap] at hadv hstop
  have hw' : w' = m := hstop nofun
  subst hw'
  have hbridged : bridged symbol answer remaining w = (.hung, w') := by
    unfold bridged
    rw [hgap]
  have hend : bootstrapCommits symbol answer remaining w = w' := by
    unfold bootstrapCommits
    rw [hbridged]
    rfl
  rw [hend]
  constructor
  · intro _
    have hms : w'.synced = false := hadv.kept.synced.trans hunsynced
    refine ⟨hadv.rising hlevel, hadv.kept.recoveries.trans hrec, fun hs => ?_, fun _ => hms, fun hnot => ?_⟩
    · rw [hms] at hs
      cases hs
    · have hblocked : w'.hung = true := hadv.hung hhung
      rw [hblocked] at hnot
      cases hnot
  · intro hok
    refine absurd ⟨fun hraised => ?_, fun hcomp => ?_⟩ hok
    · rw [hgap] at hraised
      cases hraised
    · have hret := hcomp.1
      rw [hbridged] at hret
      cases hret

/-- A recovery that returns has set the validator's mark to the runner's, unless there were no commits. -/
theorem returned_decides {answer : Option (List Commit)} {remaining : List Entry} {v : ℤ} (hlevel : Level w)
    (hsnap : w.ledger.snapshot = some v) (hseq : w.seqStates symbol = some ⟨v, currentEpoch⟩)
    (hunsynced : w.synced = false) (hrec : w.recoveries = 0) (hhung : w.hung = false)
    (hgap : gapRecover symbol answer w = (.returned, w')) :
    Decides symbol (CommitsMark symbol answer remaining w) (bootstrapCommits symbol answer remaining w) := by
  obtain ⟨m, hadv, -, hret⟩ := gapRecover_advances symbol answer w
  rw [hgap] at hadv hret
  have hbridged : bridged symbol answer remaining w = (.returned, w') := by
    unfold bridged
    rw [hgap]
  have hcond : CommitsMark symbol answer remaining w ↔
      ((remainingLoop remaining w').1 = .returned → (answer = some [] → w.ledger.snapshot = some w.lastApplied) ∧
        ∀ e ∈ remaining, e.version ≠ w'.lastApplied + 1) := by
    constructor
    · intro hok hloop
      have hcomp := hok.completes ⟨by rw [hbridged], by rw [hbridged]; exact hloop⟩
      rw [hgap] at hcomp
      exact hcomp.2
    · intro hloop
      refine ⟨fun hraised => ?_, fun hcomp => ?_⟩
      · rw [hgap] at hraised
        cases hraised
      · have hcomp2 := hcomp.2
        rw [hbridged] at hcomp2
        rw [hgap]
        exact ⟨rfl, hloop hcomp2⟩
  unfold Decides
  rw [bootstrapCommits_of_returned hbridged, hcond]
  rcases hret rfl with ⟨hempty, -, hw⟩ | ⟨hsome, hw⟩
  · dsimp only at hw
    subst hw
    have hle : v ≤ w'.lastApplied := hlevel.snapshot v hsnap
    have hmark : v = w'.lastApplied ↔ (answer = some [] → w'.ledger.snapshot = some w'.lastApplied) := by
      rw [hsnap]
      exact ⟨fun heq _ => by rw [heq], fun heq => Option.some.inj (heq hempty)⟩
    rw [← hmark]
    obtain ⟨hkeep, hbreak⟩ := remaining_mark remaining hlevel hseq rfl hle hunsynced hrec hhung
    refine ⟨hkeep, fun hnot hboth => ?_⟩
    rw [Classical.not_imp] at hnot
    exact hbreak hnot.1 hnot.2 hboth.2
  · dsimp only at hw
    subst hw
    have hmseq : m.seqStates symbol = some ⟨v, currentEpoch⟩ := by rw [hadv.kept.seqStates, hseq]
    have hlevel' : Level { m with seqStates := setLastU m.seqStates symbol m.lastApplied } :=
      (hadv.level rfl hlevel).of_eq rfl rfl rfl
    obtain ⟨hkeep, hbreak⟩ := remaining_mark remaining hlevel' (setLastU_same hmseq _) rfl (le_refl _)
      (hadv.kept.synced.trans hunsynced) (hadv.kept.recoveries.trans hrec) (hadv.hung hhung)
    refine ⟨fun hok => hkeep fun hloop => ⟨rfl, (hok hloop).2⟩, fun hnot hboth => ?_⟩
    rw [Classical.not_imp] at hnot
    refine hbreak hnot.1 (fun hall => hnot.2 ⟨fun hempty => absurd hempty hsome, hall.2⟩) hboth.2

/-- The runner after a recovery that raised: both marks stand before the oldest kept push. -/
def fellBack (symbol : String) (oldest : Entry) (w : World) : World :=
  { w with
    seqStates := setLastU w.seqStates symbol (oldest.version - 1)
    lastApplied := oldest.version - 1 }

/-- After a recovery that raised, the oldest push is handed over next; the versions still rise when all that was
handed over before is older. -/
theorem raised_decides {answer : Option (List Commit)} {oldest : Entry} {rest : List Entry} {v : ℤ} (hlevel : Level w)
    (hsnap : w.ledger.snapshot = some v) (hseq : w.seqStates symbol = some ⟨v, currentEpoch⟩)
    (hbeyond : v + 1 < oldest.version) (hunsynced : w.synced = false) (hrec : w.recoveries = 0)
    (hhung : w.hung = false) (hgap : gapRecover symbol answer w = (.raised, w')) :
    Decides symbol (CommitsMark symbol answer (oldest :: rest) w)
      (bootstrapCommits symbol answer (oldest :: rest) w) := by
  obtain ⟨m, hadv, hstop, -⟩ := gapRecover_advances symbol answer w
  rw [hgap] at hadv hstop
  have hw' : w' = m := hstop nofun
  subst hw'
  have hbridged : bridged symbol answer (oldest :: rest) w = (.returned, fellBack symbol oldest w') := by
    unfold bridged
    rw [hgap]
    rfl
  have hmseq : w'.seqStates symbol = some ⟨v, currentEpoch⟩ := by rw [hadv.kept.seqStates, hseq]
  have hfirst : oldest.version = (fellBack symbol oldest w').lastApplied + 1 := (Int.sub_add_cancel _ 1).symm
  have hcond : (∀ u ∈ w'.ledger.handed, u < oldest.version) → Level (fellBack symbol oldest w') := by
    intro hhanded
    refine ⟨hadv.rising hlevel, fun u hu => ?_, fun u hu => ?_⟩
    · exact Int.le_sub_one_of_lt (hhanded u hu)
    · have hu' : some v = some u := hsnap.symm.trans (hadv.kept.snapshot.symm.trans hu)
      cases hu'
      show v ≤ oldest.version - 1
      omega
  have hend := fun hhanded => remaining_mark (oldest :: rest) (hcond hhanded) (setLastU_same hmseq _) rfl (le_refl _)
    (hadv.kept.synced.trans hunsynced) (hadv.kept.recoveries.trans hrec) (hadv.hung hhung)
  unfold Decides
  rw [bootstrapCommits_of_returned hbridged]
  constructor
  · intro hok
    have hraised := hok.raised
    rw [hgap] at hraised
    refine (hend (hraised rfl oldest rfl)).1 fun hloop => ?_
    have hcomp := (hok.completes ⟨by rw [hbridged], by rw [hbridged]; exact hloop⟩).1
    rw [hgap] at hcomp
    cases hcomp
  · rintro hnot ⟨hrising, hmarked⟩
    by_cases hhanded : ∀ u ∈ w'.ledger.handed, u < oldest.version
    · refine hnot ⟨fun _ => ?_, fun hcomp => ?_⟩
      · rw [hgap]
        intro o ho
        cases ho
        exact hhanded
      · have hloop := hcomp.2
        rw [hbridged] at hloop
        exact absurd hmarked ((hend hhanded).2 hloop fun hall => hall.2 oldest List.mem_cons_self hfirst)
    · refine hhanded fun u hu => ?_
      have hsuffix := remainingLoop_first rest hfirst
      have hpair := hrising.1
      rw [bootstrapEnd_ledger] at hpair
      exact (List.pairwise_cons.mp (hpair.sublist hsuffix.sublist)).1 u hu

/-- After the commits, what the answer left to apply without a mark decides. -/
theorem bootstrapCommits_mark {remaining : List Entry} (h : MarkInv symbol w) (hhung : w.hung = false)
    (htask : w.task = .bootCommits remaining) (answer : Option (List Commit)) :
    Decides symbol (CommitsMark symbol answer remaining w) (bootstrapCommits symbol answer remaining w) := by
  obtain ⟨hlevel, ⟨v, hsnap, hseq, hbeyond⟩, hne⟩ := h.waiting hhung remaining htask
  have hunsynced : w.synced = false := h.booting (Or.inr (Or.inr ⟨remaining, htask⟩))
  obtain ⟨oldest, rest, rfl⟩ := List.exists_cons_of_ne_nil hne
  rcases hgap : gapRecover symbol answer w with ⟨exit, w'⟩
  cases exit with
  | returned => exact returned_decides hlevel hsnap hseq hunsynced h.recoveries hhung hgap
  | raised =>
    exact raised_decides hlevel hsnap hseq (hbeyond oldest List.mem_cons_self) hunsynced h.recoveries hhung hgap
  | hung => exact hung_decides hlevel hunsynced h.recoveries hhung hgap

/-! ## Runs -/

theorem markInv_step (h : MarkInv symbol w) (e : Event) :
    (KeepsMark symbol w e → MarkInv symbol (step symbol w e)) ∧
      (¬ KeepsMark symbol w e → ¬ (Rising (step symbol w e) ∧ Marked symbol (step symbol w e))) := by
  unfold step
  by_cases hhung : w.hung = true
  · rw [if_pos hhung]
    refine ⟨fun _ => h, fun hnot => absurd ?_ hnot⟩
    unfold KeepsMark
    split
    · intro hfalse
      rw [hhung] at hfalse
      cases hfalse
    · intro hfalse
      rw [hhung] at hfalse
      cases hfalse
    · trivial
  · have hrunning : w.hung = false := by simpa using hhung
    have hsame : ∀ task : Task, (w.task = .starting ∧ task = .bootSnapshot) ∨ task = .failed ∨ task = .idle ∨
        task = .subscribing ∨ task = .rotationSnapshot ∨ task = .unsubscribing → MarkInv symbol { w with task } :=
      fun task ht => h.of_eq rfl rfl rfl rfl rfl rfl rfl (Or.inr ht)
    rw [if_neg hhung]
    split
    · exact ⟨fun _ => markInv_onDepth h _, fun hnot => absurd trivial hnot⟩
    · refine ⟨fun _ => ?_, fun hnot => absurd trivial hnot⟩
      unfold recovered
      rw [if_pos h.recoveries]
      exact h
    · rename_i htask
      exact ⟨fun _ => hsame _ (Or.inl ⟨htask, rfl⟩), fun hnot => absurd trivial hnot⟩
    · rename_i answer htask
      obtain ⟨hkeep, hbreak⟩ := bootstrapSnapshot_mark h hrunning htask answer
      exact ⟨hkeep, fun hnot hboth => hbreak hnot hboth.2⟩
    · rename_i answer remaining htask
      obtain ⟨hkeep, hbreak⟩ := bootstrapCommits_mark h hrunning htask answer
      refine ⟨fun hok => hkeep (hok hrunning remaining htask), fun hnot => hbreak fun hok => hnot ?_⟩
      intro _ remaining' htask'
      rw [htask] at htask'
      cases htask'
      exact hok
    · refine ⟨fun _ => ?_, fun hnot => absurd trivial hnot⟩
      split
      · exact h
      · exact hsame _ (Or.inr (Or.inr (Or.inr (Or.inl rfl))))
    · refine ⟨fun _ => ?_, fun hnot => absurd trivial hnot⟩
      unfold wsSubscribe
      split
      · exact h.of_eq rfl rfl rfl rfl rfl rfl rfl (Or.inr (Or.inr (Or.inr (Or.inr (Or.inr (Or.inl rfl))))))
      · exact hsame _ (Or.inr (Or.inr (Or.inl rfl)))
    · rename_i answer htask
      refine ⟨fun _ => markInv_rotationSnapshot h answer, fun hnot => absurd ?_ hnot⟩
      cases answer with
      | none => trivial
      | some snap =>
        intro _ hboot
        rw [htask] at hboot
        cases hboot
    · refine ⟨fun _ => ?_, fun hnot => absurd trivial hnot⟩
      split
      · exact hsame _ (Or.inr (Or.inr (Or.inr (Or.inr (Or.inr rfl)))))
      · exact h
    · refine ⟨fun _ => ?_, fun hnot => absurd trivial hnot⟩
      unfold wsUnsubscribe
      split
      · exact h.of_eq rfl rfl rfl rfl rfl rfl rfl (Or.inr (Or.inr (Or.inr (Or.inl rfl))))
      · exact hsame _ (Or.inr (Or.inr (Or.inl rfl)))
    · rename_i _ _ hsnapshot hcommits _ _ _ _ _
      refine ⟨fun _ => h, fun hnot => absurd ?_ hnot⟩
      unfold KeepsMark
      split
      · intro _ htask
        exact (hsnapshot _ rfl htask).elim
      · intro _ remaining htask
        exact (hcommits _ remaining rfl htask).elim
      · trivial

theorem markInv_started (symbol : String) : MarkInv symbol started :=
  ⟨⟨List.Pairwise.nil, fun _ _ _ hu => by cases hu⟩, rfl, nofun, fun _ => rfl, nofun⟩

theorem markInv_absent (symbol : String) : MarkInv symbol absent :=
  ⟨⟨List.Pairwise.nil, fun _ _ _ hu => by cases hu⟩, rfl, nofun, fun _ => rfl, nofun⟩

/-- **Versions increase.** Along every run, of an initial symbol or of one the rotation brings, the versions
handed to the book rise from its snapshot on and the validator's mark is not behind the runner's, exactly when
every bootstrap and every recovery keeps the mark. -/
theorem increasing_iff (symbol : String) (initial : Bool) (events : List Event) :
    Runs.Always (fun w => Rising w ∧ Marked symbol w) (step symbol) (if initial then started else absent) events ↔
      Runs.Guarded (KeepsMark symbol) (step symbol) (if initial then started else absent) events := by
  have hstart : MarkInv symbol (if initial then started else absent) := by
    cases initial with
    | true => exact markInv_started symbol
    | false => exact markInv_absent symbol
  rw [Runs.always_iff_guarded ⟨hstart.rising, hstart.marked⟩]
  refine Runs.guarded_iff_guarded hstart (fun w e _ h hok => ?_) fun w e _ h hok => (markInv_step h e).2 hok
  have hstep := (markInv_step h e).1 hok
  exact ⟨hstep, hstep.rising, hstep.marked⟩

/-- A push buffered before the snapshot and delivered once more after the bootstrap. -/
def replayed : List Event :=
  let data : Push := { version := some 6, bids := [some (100, 1)] }
  [.bootstrap, .depth data, .snapshot (some ⟨5, [(100, 2)], [(101, 2)]⟩), .depth data]

theorem not_increasing_replayed :
    ¬ Runs.Always (fun w => Rising w ∧ Marked "BTC_USDT" w) (step "BTC_USDT") started replayed := by
  intro h
  have hlast := h.last.1.1
  revert hlast
  decide

end MikoV2.Depth
