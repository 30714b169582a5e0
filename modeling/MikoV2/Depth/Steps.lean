import MikoV2.Depth.Runner
import MikoV2.Lib.Runs

/-!
# The loops of the depth path

What the three loops that hand versions to the book leave alone, and how `last_applied_version` moves in them.

* `Kept` : the fields that no loop writes;
* `Rising` : the versions handed to the book increase, from its snapshot on; `Level` : and end at the mark;
* `Advances` : what a loop does to the mark and the book, one version after another; `Advances.trans`;
* `bufferLoop_advances`, `commitLoop_advances`, `remainingLoop_advances` : the loops of the source do so;
* `onDepth_live`, `onDepth_unsynced`, `gapRecover_advances` : a push and a recovery, case by case;
* `InOrder` : pushes arrive with increasing versions; `inOrder_fresh` : each is newer than all before it.
-/

namespace MikoV2.Depth
open DataLayer

variable {symbol : String} {w w' m : World} {e : Entry} {exit : Exit}

/-- The fields that the loops do not write. -/
structure Kept (w w' : World) : Prop where
  member : w'.member = w.member
  wsSubscribed : w'.wsSubscribed = w.wsSubscribed
  synced : w'.synced = w.synced
  pending : w'.pending = w.pending
  seqStates : w'.seqStates = w.seqStates
  task : w'.task = w.task
  recoveries : w'.recoveries = w.recoveries
  delivered : w'.ledger.delivered = w.ledger.delivered
  snapshot : w'.ledger.snapshot = w.ledger.snapshot
  unsubscribed : w.ledger.subscription = none → w'.ledger.subscription = none

theorem Kept.refl (w : World) : Kept w w := ⟨rfl, rfl, rfl, rfl, rfl, rfl, rfl, rfl, rfl, fun h => h⟩

theorem Kept.trans (h : Kept w m) (h' : Kept m w') : Kept w w' :=
  ⟨h'.member.trans h.member, h'.wsSubscribed.trans h.wsSubscribed, h'.synced.trans h.synced,
    h'.pending.trans h.pending, h'.seqStates.trans h.seqStates, h'.task.trans h.task,
    h'.recoveries.trans h.recoveries, h'.delivered.trans h.delivered, h'.snapshot.trans h.snapshot,
    fun hw => h'.unsubscribed (h.unsubscribed hw)⟩

/-- The versions handed to the book strictly increase, above that of its snapshot. -/
def Rising (w : World) : Prop :=
  w.ledger.handed.Pairwise (· > ·) ∧ ∀ v, w.ledger.snapshot = some v → ∀ u ∈ w.ledger.handed, v < u

/-- Nothing handed to the book is beyond `last_applied_version`, nor is its snapshot. -/
structure Level (w : World) : Prop where
  rising : Rising w
  handed : ∀ u ∈ w.ledger.handed, u ≤ w.lastApplied
  snapshot : ∀ v, w.ledger.snapshot = some v → v ≤ w.lastApplied

theorem Level.of_eq (h : Level w) (hmark : w'.lastApplied = w.lastApplied)
    (hhanded : w'.ledger.handed = w.ledger.handed) (hsnap : w'.ledger.snapshot = w.ledger.snapshot) : Level w' := by
  refine ⟨?_, ?_, ?_⟩
  · unfold Rising
    rw [hhanded, hsnap]
    exact h.rising
  · rw [hhanded, hmark]
    exact h.handed
  · rw [hsnap, hmark]
    exact h.snapshot

/-- From `w` to `w'` the versions after `last_applied_version` are handed to the book, one after another. -/
structure Advances (exit : Exit) (w w' : World) : Prop where
  kept : Kept w w'
  le : w.lastApplied ≤ w'.lastApplied
  handed : w.ledger.handed <:+ w'.ledger.handed
  hung : w.hung = false → w'.hung = decide (exit = .hung)
  rising : Level w → Rising w'
  level : exit = .returned → Level w → Level w'

theorem Advances.refl (w : World) : Advances .returned w w :=
  ⟨Kept.refl w, le_refl _, List.suffix_refl _, fun h => h, fun h => h.rising, fun _ h => h⟩

theorem Advances.trans (h : Advances .returned w m) (h' : Advances exit m w') : Advances exit w w' :=
  ⟨h.kept.trans h'.kept, le_trans h.le h'.le, h.handed.trans h'.handed, fun hw => h'.hung (h.hung hw),
    fun hw => h'.rising (h.level rfl hw), fun he hw => h'.level he (h.level rfl hw)⟩

/-- The version after the mark keeps the versions rising. -/
theorem Level.cons (h : Level w) {v : ℤ} (hv : v = w.lastApplied + 1) :
    (v :: w.ledger.handed).Pairwise (· > ·) ∧ ∀ u, w.ledger.snapshot = some u → ∀ x ∈ v :: w.ledger.handed, u < x := by
  constructor
  · refine List.pairwise_cons.mpr ⟨fun u hu => ?_, h.rising.1⟩
    have hle := h.handed u hu
    omega
  · intro u hu x hx
    rcases List.mem_cons.mp hx with rfl | hx
    · have hle := h.snapshot u hu
      omega
    · exact h.rising.2 u hu x hx

/-! ## One version -/

/-- The version after the mark is handed to the book; when that returns, it becomes the mark. -/
theorem advances_hand {v : ℤ} (hv : v = w.lastApplied + 1) (hkept : Kept w m) (hmark : m.lastApplied = w.lastApplied)
    (hhanded : m.ledger.handed = v :: w.ledger.handed) (hhung : m.hung = decide (exit = .hung)) :
    (exit ≠ .returned → Advances exit w m) ∧ (exit = .returned → Advances exit w { m with lastApplied := v }) := by
  have hrising : Level w → Rising m := by
    intro hw
    unfold Rising
    rw [hhanded, hkept.snapshot]
    exact hw.cons hv
  have hsuffix : w.ledger.handed <:+ m.ledger.handed := by
    rw [hhanded]
    exact List.suffix_cons _ _
  constructor
  · intro hexit
    exact ⟨hkept, hmark.ge, hsuffix, fun _ => hhung, hrising, fun he => absurd he hexit⟩
  · intro _
    have hkept' : Kept w { m with lastApplied := v } :=
      ⟨hkept.member, hkept.wsSubscribed, hkept.synced, hkept.pending, hkept.seqStates, hkept.task, hkept.recoveries,
        hkept.delivered, hkept.snapshot, hkept.unsubscribed⟩
    refine ⟨hkept', ?_, hsuffix, fun _ => hhung, hrising, fun _ hw => ⟨hrising hw, fun u hu => ?_, fun u hu => ?_⟩⟩
    · dsimp only
      omega
    · dsimp only at hu ⊢
      rw [hhanded] at hu
      rcases List.mem_cons.mp hu with rfl | hu
      · exact le_refl _
      · have hle := hw.handed u hu
        omega
    · dsimp only at hu ⊢
      rw [hkept.snapshot] at hu
      have hle := hw.snapshot u hu
      omega

/-- What `_apply_push` writes. -/
theorem applyPush_world (h : applyPush e w = (exit, m)) : ∃ book, m =
    { w with book, hung := decide (exit = .hung), ledger := w.ledger.push e.version exit } := by
  unfold applyPush at h
  cases h
  exact ⟨_, rfl⟩

/-- `_apply_push` of the version after the mark. -/
theorem applyPush_advances (hv : e.version = w.lastApplied + 1) (h : applyPush e w = (exit, m)) :
    (exit ≠ .returned → Advances exit w m) ∧
      (exit = .returned → Advances exit w { m with lastApplied := e.version }) := by
  obtain ⟨book, rfl⟩ := applyPush_world h
  have hkept : Kept w { w with book, hung := decide (exit = .hung), ledger := w.ledger.push e.version exit } :=
    ⟨rfl, rfl, rfl, rfl, rfl, rfl, rfl, rfl, rfl, fun hsub => congrArg (Option.map _) hsub⟩
  exact advances_hand hv hkept rfl rfl rfl

/-! ## The loops -/

/-- The loop over the buffered pushes, from the version after the mark. -/
theorem bufferLoop_advances : ∀ (pending : List Entry) (w : World) (target : ℤ), target = w.lastApplied + 1 →
    Advances (bufferLoop pending target w).1 w (bufferLoop pending target w).2.2
  | [], w, _, _ => Advances.refl w
  | e :: pending, w, target, htarget => by
    unfold bufferLoop
    split
    · exact bufferLoop_advances pending w target htarget
    · split
      · rename_i heq
        rcases hpush : applyPush e w with ⟨exit, m⟩
        obtain ⟨hstop, hgo⟩ := applyPush_advances (by omega) hpush
        cases exit with
        | returned =>
          refine (hgo rfl).trans (bufferLoop_advances pending _ _ ?_)
          dsimp only
          omega
        | raised => exact hstop nofun
        | hung => exact hstop nofun
      · exact bufferLoop_advances pending w target htarget

theorem remainingLoop_advances : ∀ (remaining : List Entry) (w : World),
    Advances (remainingLoop remaining w).1 w (remainingLoop remaining w).2
  | [], w => Advances.refl w
  | e :: remaining, w => by
    unfold remainingLoop
    split
    · exact remainingLoop_advances remaining w
    · rename_i heq
      rcases hpush : applyPush e w with ⟨exit, m⟩
      obtain ⟨hstop, hgo⟩ := applyPush_advances (not_not.mp heq) hpush
      cases exit with
      | returned => exact (hgo rfl).trans (remainingLoop_advances remaining _)
      | raised => exact hstop nofun
      | hung => exact hstop nofun

theorem commitLoop_advances : ∀ (commits : List Commit) (w : World),
    Advances (commitLoop commits w).1 w (commitLoop commits w).2
  | [], w => Advances.refl w
  | commit :: commits, w => by
    unfold commitLoop
    split
    · exact commitLoop_advances commits w
    · split
      · exact Advances.refl w
      · rename_i heq
        cases hbook : w.book with
        | none => exact Advances.refl w
        | some book =>
          dsimp only
          rcases hhand : hand (commitDiffs commit) (some book) with ⟨exit, book'⟩
          obtain ⟨hstop, hgo⟩ := advances_hand (w := w) (not_not.mp heq)
            (m := { w with
              book := book'
              hung := decide (exit = .hung)
              ledger := w.ledger.commit commit.version exit })
            ⟨rfl, rfl, rfl, rfl, rfl, rfl, rfl, rfl, rfl, fun hsub => hsub⟩ rfl rfl (show _ = decide (exit = .hung) from rfl)
          cases exit with
          | returned => exact (hgo rfl).trans (commitLoop_advances commits _)
          | raised => exact hstop nofun
          | hung => exact hstop nofun

/-! ## The mark after a loop -/

/-- A loop that returns has moved the mark when a push of the version after it was there, and only then. -/
theorem bufferLoop_lastApplied : ∀ (pending : List Entry) (w : World) (target : ℤ), target = w.lastApplied + 1 →
    (bufferLoop pending target w).1 = .returned →
    ((bufferLoop pending target w).2.2.lastApplied = w.lastApplied ↔ ∀ e ∈ pending, e.version ≠ target)
  | [], w, _, _, _ => iff_of_true rfl nofun
  | e :: pending, w, target, htarget, hret => by
    have hadv := bufferLoop_advances (e :: pending) w target htarget
    unfold bufferLoop at hret hadv ⊢
    by_cases hlt : e.version < target
    · simp only [if_pos hlt] at hret hadv ⊢
      rw [bufferLoop_lastApplied pending w target htarget hret, List.forall_mem_cons]
      exact ⟨fun h => ⟨by omega, h⟩, fun h => h.2⟩
    · by_cases heq : e.version = target
      · simp only [if_neg hlt, if_pos heq] at hret hadv ⊢
        refine iff_of_false (fun hsame => ?_) fun h => h e List.mem_cons_self heq
        rcases hpush : applyPush e w with ⟨_ | _ | _, m⟩
        · rw [hpush] at hsame hret
          dsimp only at hsame hret
          have hle := (bufferLoop_advances pending { m with lastApplied := e.version } (target + 1)
            (by dsimp only; omega)).le
          dsimp only at hle
          omega
        · rw [hpush] at hret
          cases hret
        · rw [hpush] at hret
          cases hret
      · simp only [if_neg hlt, if_neg heq] at hret hadv ⊢
        rw [bufferLoop_lastApplied pending w target htarget hret, List.forall_mem_cons]
        exact ⟨fun h => ⟨heq, h⟩, fun h => h.2⟩

theorem remainingLoop_lastApplied : ∀ (remaining : List Entry) (w : World),
    (remainingLoop remaining w).1 = .returned →
    ((remainingLoop remaining w).2.lastApplied = w.lastApplied ↔ ∀ e ∈ remaining, e.version ≠ w.lastApplied + 1)
  | [], w, _ => iff_of_true rfl nofun
  | e :: remaining, w, hret => by
    unfold remainingLoop at hret ⊢
    by_cases hne : e.version ≠ w.lastApplied + 1
    · simp only [if_pos hne] at hret ⊢
      rw [remainingLoop_lastApplied remaining w hret, List.forall_mem_cons]
      exact ⟨fun h => ⟨hne, h⟩, fun h => h.2⟩
    · simp only [if_neg hne] at hret ⊢
      refine iff_of_false (fun hsame => ?_) fun h => hne (h e List.mem_cons_self)
      rcases hpush : applyPush e w with ⟨_ | _ | _, m⟩
      · rw [hpush] at hsame
        dsimp only at hsame
        have hle := (remainingLoop_advances remaining { m with lastApplied := e.version }).le
        dsimp only at hle
        omega
      · rw [hpush] at hret
        cases hret
      · rw [hpush] at hret
        cases hret

/-- The first kept push is handed to the book when it follows the mark. -/
theorem remainingLoop_first (remaining : List Entry) (h : e.version = w.lastApplied + 1) :
    e.version :: w.ledger.handed <:+ (remainingLoop (e :: remaining) w).2.ledger.handed := by
  unfold remainingLoop
  rw [if_neg (not_not.mpr h)]
  rcases hpush : applyPush e w with ⟨exit, m⟩
  obtain ⟨book, rfl⟩ := applyPush_world hpush
  cases exit with
  | returned =>
    refine List.IsSuffix.trans ?_ (remainingLoop_advances remaining _).handed
    exact List.suffix_refl _
  | raised => exact List.suffix_refl _
  | hung => exact List.suffix_refl _

/-- The pushes that the first loop keeps are of the buffer, and beyond the version it began with. -/
theorem bufferLoop_remaining : ∀ (pending : List Entry) (target : ℤ) (w : World),
    ∀ e ∈ (bufferLoop pending target w).2.1, e ∈ pending ∧ target < e.version
  | [], _, _, e, he => by cases he
  | d :: pending, target, w, e, he => by
    unfold bufferLoop at he
    split at he
    · obtain ⟨hin, hlt⟩ := bufferLoop_remaining pending target w e he
      exact ⟨List.mem_cons_of_mem d hin, hlt⟩
    · split at he
      · rcases hpush : applyPush d w with ⟨_ | _ | _, m⟩
        · rw [hpush] at he
          obtain ⟨hin, hlt⟩ := bufferLoop_remaining pending (target + 1) _ e he
          exact ⟨List.mem_cons_of_mem d hin, by omega⟩
        · rw [hpush] at he
          cases he
        · rw [hpush] at he
          cases he
      · rcases List.mem_cons.mp he with rfl | he
        · exact ⟨List.mem_cons_self, by omega⟩
        · obtain ⟨hin, hlt⟩ := bufferLoop_remaining pending target w e he
          exact ⟨List.mem_cons_of_mem d hin, hlt⟩

/-! ## Pushes -/

/-- A push of a live symbol whose validator has a state of the runner's epoch: it is stale, or it becomes the
validator's mark and goes to the book. -/
theorem onDepth_live (data : Push) {st : SeqState} {version : ℤ} (hversion : data.version = some version)
    (hmember : w.member = true) (hsynced : w.synced = true) (hst : w.seqStates symbol = some st)
    (hepoch : st.epoch = currentEpoch) :
    (version ≤ st.lastU → onDepth symbol data w = { w with ledger := w.ledger.deliver version }) ∧
      (st.lastU < version → onDepth symbol data w = { w with
        seqStates := Function.update w.seqStates symbol (some ⟨version, currentEpoch⟩)
        book := (hand (parseDiffs data) w.book).2
        hung := decide ((hand (parseDiffs data) w.book).1 = .hung)
        lastApplied := if (hand (parseDiffs data) w.book).1 = .returned then version else w.lastApplied
        ledger := (w.ledger.deliver version).push version (hand (parseDiffs data) w.book).1 }) := by
  unfold onDepth
  rw [hversion]
  dsimp only
  rw [if_neg (by rw [hmember]; decide), if_neg (by rw [hsynced]; decide), validate_mexc hst hepoch.symm]
  constructor
  · intro hstale
    rw [if_pos hstale]
    rfl
  · intro hnew
    rw [if_neg (not_le.mpr hnew)]
    dsimp only
    rw [if_neg Bool.false_ne_true, if_neg (by decide)]
    unfold applyPush
    dsimp only
    rcases hand (parseDiffs data) w.book with ⟨_ | _ | _, book⟩
    · rfl
    · rfl
    · rfl

/-- A push of a symbol that is not live. -/
theorem onDepth_unsynced {data : Push} {version : ℤ} (hversion : data.version = some version)
    (h : w.member = false ∨ w.synced = false) :
    onDepth symbol data w = { w with
      pending := if w.member then w.pending ++ [⟨version, data⟩] else w.pending
      ledger := w.ledger.deliver version } := by
  unfold onDepth
  rw [hversion]
  dsimp only
  by_cases hmember : w.member = false
  · rw [if_pos hmember, hmember]
    rfl
  · have hsynced := h.resolve_left hmember
    rw [if_neg hmember, if_pos hsynced, if_pos (by simpa using hmember)]

/-! ## Recoveries -/

/-- A recovery advances the mark; when there were commits and it returns, it sets the validator's too. -/
theorem gapRecover_advances (symbol : String) (answer : Option (List Commit)) (w : World) :
    ∃ m, Advances (gapRecover symbol answer w).1 w m ∧
      ((gapRecover symbol answer w).1 ≠ .returned → (gapRecover symbol answer w).2 = m) ∧
      ((gapRecover symbol answer w).1 = .returned →
        (answer = some [] ∧ m = w ∧ (gapRecover symbol answer w).2 = w) ∨
          (answer ≠ some [] ∧
            (gapRecover symbol answer w).2 = { m with seqStates := setLastU m.seqStates symbol m.lastApplied })) := by
  unfold gapRecover
  cases answer with
  | none =>
    have hraised : Advances .raised w w := ⟨Kept.refl w, le_refl _, List.suffix_refl _, fun h => h, fun h => h.rising, nofun⟩
    exact ⟨w, hraised, fun _ => rfl, nofun⟩
  | some commits =>
    cases commits with
    | nil => exact ⟨w, Advances.refl w, fun _ => rfl, fun _ => Or.inl ⟨rfl, rfl, rfl⟩⟩
    | cons commit commits =>
      dsimp only
      have hadv := commitLoop_advances (commit :: commits) w
      rcases hloop : commitLoop (commit :: commits) w with ⟨_ | _ | _, m⟩
      · rw [hloop] at hadv
        exact ⟨m, hadv, fun h => absurd rfl h, fun _ => Or.inr ⟨by simp, rfl⟩⟩
      · rw [hloop] at hadv
        exact ⟨m, hadv, fun _ => rfl, nofun⟩
      · rw [hloop] at hadv
        exact ⟨m, hadv, fun _ => rfl, nofun⟩

theorem gapRecover_delivered (symbol : String) (answer : Option (List Commit)) (w : World) :
    (gapRecover symbol answer w).2.ledger.delivered = w.ledger.delivered := by
  obtain ⟨m, hadv, hstop, hret⟩ := gapRecover_advances symbol answer w
  by_cases hreturned : (gapRecover symbol answer w).1 = .returned
  · rcases hret hreturned with ⟨-, -, hw⟩ | ⟨-, hw⟩
    · rw [hw]
    · rw [hw]
      exact hadv.kept.delivered
  · rw [hstop hreturned]
    exact hadv.kept.delivered

theorem bridged_ledger (symbol : String) (answer : Option (List Commit)) (remaining : List Entry) (w : World) :
    (bridged symbol answer remaining w).2.ledger = (gapRecover symbol answer w).2.ledger := by
  unfold bridged
  rcases gapRecover symbol answer w with ⟨_ | _ | _, m⟩
  · rfl
  · cases remaining with
    | nil => rfl
    | cons oldest rest => rfl
  · rfl

theorem bootstrapCommits_of_returned {symbol : String} {answer : Option (List Commit)} {remaining : List Entry}
    {m : World} (h : bridged symbol answer remaining w = (.returned, m)) :
    bootstrapCommits symbol answer remaining w = bootstrapEnd (remainingLoop remaining m) := by
  unfold bootstrapCommits
  rw [h]

theorem bootstrapEnd_ledger : ∀ r : Exit × World, (bootstrapEnd r).ledger = r.2.ledger
  | (.returned, _) => rfl
  | (.raised, _) => rfl
  | (.hung, _) => rfl

/-- A bootstrap makes no subscription. -/
theorem bootstrapSnapshot_unsubscribed (symbol : String) (answer : Option Snapshot) (h : w.ledger.subscription = none) :
    (bootstrapSnapshot symbol answer w).ledger.subscription = none := by
  unfold bootstrapSnapshot
  cases answer with
  | none => exact h
  | some snap =>
    have hadv := bufferLoop_advances w.pending (install symbol snap w) (snap.version + 1) rfl
    have hinstall : (install symbol snap w).ledger.subscription = none := congrArg (Option.map _) h
    dsimp only
    split
    · rename_i heq
      rw [heq] at hadv
      exact hadv.kept.unsubscribed hinstall
    · rename_i heq
      rw [heq] at hadv
      exact hadv.kept.unsubscribed hinstall
    · rename_i heq
      rw [heq] at hadv
      rw [bootstrapEnd_ledger]
      exact hadv.kept.unsubscribed hinstall

theorem bootstrapCommits_unsubscribed (symbol : String) (answer : Option (List Commit)) (remaining : List Entry)
    (h : w.ledger.subscription = none) : (bootstrapCommits symbol answer remaining w).ledger.subscription = none := by
  have hgap : (gapRecover symbol answer w).2.ledger.subscription = none := by
    obtain ⟨m, hadv, hstop, hret⟩ := gapRecover_advances symbol answer w
    by_cases hreturned : (gapRecover symbol answer w).1 = .returned
    · rcases hret hreturned with ⟨-, -, hw⟩ | ⟨-, hw⟩
      · rw [hw]
        exact h
      · rw [hw]
        exact hadv.kept.unsubscribed h
    · rw [hstop hreturned]
      exact hadv.kept.unsubscribed h
  rw [← bridged_ledger symbol answer remaining] at hgap
  unfold bootstrapCommits
  split
  · rename_i heq
    rw [heq] at hgap
    rw [bootstrapEnd_ledger]
    exact (remainingLoop_advances remaining _).kept.unsubscribed hgap
  · rename_i heq
    rw [heq] at hgap
    rw [bootstrapEnd_ledger]
    exact hgap

/-! ## Arrivals -/

def versionOf : Event → Option ℤ
  | .depth data => data.version
  | _ => none

/-- Pushes arrive in increasing version order. -/
def InOrder (events : List Event) : Prop := (events.filterMap versionOf).Pairwise (· < ·)

/-- A push is newer than every push delivered before it. -/
def Fresh (w : World) (event : Event) : Prop := ∀ v, versionOf event = some v → ∀ u ∈ w.ledger.delivered, u < v

/-- A push with a version is delivered, whatever becomes of it. -/
theorem onDepth_delivered (symbol : String) (data : Push) (w : World) :
    (onDepth symbol data w).ledger.delivered = w.ledger.delivered ∨
      ∃ v, data.version = some v ∧ (onDepth symbol data w).ledger.delivered = v :: w.ledger.delivered := by
  unfold onDepth
  split
  · exact Or.inl rfl
  · rename_i version hversion
    refine Or.inr ⟨version, hversion, ?_⟩
    dsimp only
    -- buffered, refused, buffered again for a recovery, or applied
    split
    · rfl
    split
    · rfl
    split
    · rfl
    split
    · rfl
    split
    · rename_i hpush
      obtain ⟨book, rfl⟩ := applyPush_world hpush
      rfl
    · rename_i hpush
      obtain ⟨book, rfl⟩ := applyPush_world hpush
      rfl

theorem bootstrapSnapshot_delivered (symbol : String) (answer : Option Snapshot) (w : World) :
    (bootstrapSnapshot symbol answer w).ledger.delivered = w.ledger.delivered := by
  unfold bootstrapSnapshot
  cases answer with
  | none => rfl
  | some snap =>
    have hadv := bufferLoop_advances w.pending (install symbol snap w) (snap.version + 1) rfl
    dsimp only
    split
    · rename_i heq
      rw [heq] at hadv
      exact hadv.kept.delivered
    · rename_i heq
      rw [heq] at hadv
      exact hadv.kept.delivered
    · rename_i heq
      rw [heq] at hadv
      rw [bootstrapEnd_ledger]
      exact hadv.kept.delivered

theorem bootstrapCommits_delivered (symbol : String) (answer : Option (List Commit)) (remaining : List Entry)
    (w : World) : (bootstrapCommits symbol answer remaining w).ledger.delivered = w.ledger.delivered := by
  have hdelivered := gapRecover_delivered symbol answer w
  rw [← bridged_ledger symbol answer remaining] at hdelivered
  unfold bootstrapCommits
  split
  · rename_i heq
    rw [heq] at hdelivered
    rw [bootstrapEnd_ledger, (remainingLoop_advances remaining _).kept.delivered]
    exact hdelivered
  · rename_i heq
    rw [heq] at hdelivered
    rw [bootstrapEnd_ledger]
    exact hdelivered

/-- Only a push is delivered, and it comes first. -/
theorem step_delivered (symbol : String) (w : World) (event : Event) :
    (step symbol w event).ledger.delivered = w.ledger.delivered ∨
      ∃ v, versionOf event = some v ∧ (step symbol w event).ledger.delivered = v :: w.ledger.delivered := by
  unfold step
  split
  · exact Or.inl rfl
  split
  · exact onDepth_delivered symbol _ w
  · left
    unfold recovered
    split
    · rfl
    · exact gapRecover_delivered symbol _ _
  · exact Or.inl rfl
  · exact Or.inl (bootstrapSnapshot_delivered symbol _ w)
  · exact Or.inl (bootstrapCommits_delivered symbol _ _ w)
  · left
    split
    · rfl
    · rfl
  · left
    unfold wsSubscribe
    split
    · rfl
    · rfl
  · left
    rename_i answer _
    cases answer with
    | none => rfl
    | some snap => rfl
  · left
    split
    · rfl
    · rfl
  · left
    unfold wsUnsubscribe
    split
    · rfl
    · rfl
  · exact Or.inl rfl

/-- In a run with the pushes in order, each is newer than all delivered before it. -/
theorem inOrder_fresh {events : List Event} (horder : InOrder events) (hnone : w.ledger.delivered = []) :
    Runs.Guarded Fresh (step symbol) w events := by
  have hmem : ∀ pre, ∀ v ∈ (Runs.run (step symbol) w pre).ledger.delivered, v ∈ pre.filterMap versionOf := by
    refine Runs.history_invariant
      (J := fun pre (m : World) => ∀ v ∈ m.ledger.delivered, v ∈ pre.filterMap versionOf) ?_ ?_
    · intro v hv
      rw [hnone] at hv
      cases hv
    intro pre a ih v hv
    rw [List.filterMap_append, List.mem_append]
    rcases step_delivered symbol (Runs.run (step symbol) w pre) a with hsame | ⟨u, hu, hcons⟩
    · rw [hsame] at hv
      exact Or.inl (ih v hv)
    · rw [hcons] at hv
      rcases List.mem_cons.mp hv with rfl | hv
      · exact Or.inr (by simp [hu])
      · exact Or.inl (ih v hv)
  intro pre a hpre v hv u hu
  have hpair : (pre ++ [a]).filterMap versionOf |>.Pairwise (· < ·) := horder.sublist (hpre.sublist.filterMap _)
  rw [List.filterMap_append, List.pairwise_append] at hpair
  exact hpair.2.2 u (hmem pre u hu) v (by simp [hv])

end MikoV2.Depth
