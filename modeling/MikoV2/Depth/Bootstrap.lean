import MikoV2.Depth.Batches
import MikoV2.Depth.Sound

/-!
# The bootstrap loses no push

While `_bootstrap_symbol` waits for the snapshot and then for the commits, pushes are buffered. After the commits it
applies those of the first wait that follow the mark, and clears the buffer.

* `Lossless` : every push received by a synced symbol is accounted for;
* `recoveredMark` : the mark that the recovery leaves, in terms of the answer and of the book;
* `NoHole` : every buffered push beyond that mark is one of the kept pushes that follow it;
* `pushAll_follow`, `commitLoop_spec`, `bridged_spec` : the loops and the recovery;
* `BootInv` : the invariant, with what is buffered (`Waits`) and what holds once synced (`Live`);
* `Caught`, `Ended` : the runner after the first wait, the ledger after the second;
* `bootInv_step` : every step keeps the invariant or loses a push, as `NoHole` says;
* `lossless_iff` : the condition is exact, along every run.
-/

namespace MikoV2.Depth
open DataLayer Versions

variable (symbol : String)

/-- A version that the snapshot or an applied commit covers, and the mark. -/
def Covered (w : World) (v : ℤ) : Prop :=
  ((∃ s ∈ w.ledger.snapshot, v ≤ s) ∨ v ∈ w.ledger.commits) ∧ v ≤ w.lastApplied

/-- A push that was applied or is covered. -/
def Accounted (w : World) (v : ℤ) : Prop := v ∈ w.ledger.pushes ∨ Covered w v

/-- Every push received by a synced symbol is accounted for. -/
def Lossless (w : World) : Prop :=
  w.hung = false → w.synced = true → ∀ v ∈ w.ledger.delivered, Accounted w v

/-! ## The condition -/

/-- How the recovery ends, with the book after it: the request raises, or the commits that follow the mark are applied
one after another. -/
def recovery (answer : Option (List Commit)) (w : World) : Exit × Option Book :=
  match answer with
  | none => (.raised, w.book)
  | some commits => handAll ((follow Commit.version w.lastApplied commits).map commitDiffs) w.book

/-- The mark after the recovery: the last commit that follows, or the version before the oldest kept push. -/
def recoveredMark (answer : Option (List Commit)) (remaining : List Entry) (w : World) : ℤ :=
  match (recovery answer w).1, remaining with
  | .raised, oldest :: _ => oldest.version - 1
  | _, _ => followed Commit.version w.lastApplied (answer.getD [])

/-- The kept pushes that follow that mark. -/
def following (answer : Option (List Commit)) (remaining : List Entry) (w : World) : List Entry :=
  follow Entry.version (recoveredMark answer remaining w) remaining

/-- No batch of the recovery blocks the loop, and those of the pushes that follow return. -/
def Finishes (answer : Option (List Commit)) (remaining : List Entry) (w : World) : Prop :=
  (recovery answer w).1 ≠ .hung ∧
    (handAll ((following answer remaining w).map fun e => parseDiffs e.data) (recovery answer w).2).1 = .returned

/-- When the bootstrap ends, every buffered push beyond the recovered mark is one of those that follow it; a push that
is newer than the validator's mark does not raise. -/
def NoHole (w : World) : Event → Prop
  | .commits answer => w.hung = false → ∀ remaining, w.task = .bootCommits remaining → Finishes answer remaining w →
      ∀ e ∈ w.pending, recoveredMark answer remaining w < e.version → e ∈ following answer remaining w
  | .depth data => w.hung = false → w.synced = true → ∀ v st, data.version = some v → w.seqStates symbol = some st →
      st.lastU < v → (hand (parseDiffs data) w.book).1 ≠ .raised
  | _ => True

/-- Pushes and the bootstrap, without the rotation. -/
def Boots : Event → Prop
  | .depth _ | .bootstrap | .snapshot _ | .commits _ | .recovered _ => True
  | _ => False

/-! ## The loops -/

variable {symbol} {w m : World} {answer : Option (List Commit)} {remaining : List Entry}

/-- What applied pushes change in the ledger. -/
structure Pushed (taken : List Entry) (l l' : Ledger) : Prop where
  delivered : l'.delivered = l.delivered
  snapshot : l'.snapshot = l.snapshot
  commits : l'.commits = l.commits
  pushes : ∀ v, v ∈ l'.pushes ↔ v ∈ l.pushes ∨ ∃ e ∈ taken, e.version = v

theorem pushed_foldl (taken : List Entry) (l : Ledger) :
    Pushed taken l (taken.foldl (fun l e => l.push e.version .returned) l) :=
  ⟨foldl_record Ledger.push Ledger.delivered (fun _ _ _ => rfl) taken l,
    foldl_record Ledger.push Ledger.snapshot (fun _ _ _ => rfl) taken l,
    foldl_record Ledger.push Ledger.commits (fun _ _ _ => rfl) taken l,
    mem_foldl_record Ledger.push Ledger.pushes (fun _ _ => rfl) taken l⟩

/-- Pushes that follow the mark, when their batches return. -/
theorem pushAll_follow (hhung : w.hung = false) (l : List Entry)
    (hret : (pushAll (follow Entry.version w.lastApplied l) w).1 = .returned) : ∃ ledger,
    Pushed (follow Entry.version w.lastApplied l) w.ledger ledger ∧
      (pushAll (follow Entry.version w.lastApplied l) w).2 = { w with
        book := (handAll ((follow Entry.version w.lastApplied l).map fun e => parseDiffs e.data) w.book).2
        lastApplied := followed Entry.version w.lastApplied l
        ledger } := by
  refine ⟨_, pushed_foldl _ w.ledger, ?_⟩
  have happly := applyAll_returned (follow Entry.version w.lastApplied l) w hhung hret
  rw [followed_last] at happly
  exact happly

/-! ## The recovery -/

/-- What the recovery leaves to the kept pushes. -/
structure Recovered (symbol : String) (answer : Option (List Commit)) (remaining : List Entry) (w m : World) : Prop where
  frame : ∃ book lastApplied seqStates ledger, m = { w with book, lastApplied, seqStates, ledger }
  book : m.book = (recovery answer w).2
  mark : m.lastApplied = recoveredMark answer remaining w
  delivered : m.ledger.delivered = w.ledger.delivered
  snapshot : m.ledger.snapshot = w.ledger.snapshot
  pushes : m.ledger.pushes = w.ledger.pushes
  commits : (recovery answer w).1 = .returned → ∀ v, w.lastApplied < v → v ≤ m.lastApplied → v ∈ m.ledger.commits
  validator : m.seqStates symbol = some ⟨m.lastApplied, currentEpoch⟩ ∨
    ((recovery answer w).1 = .returned ∧ m.lastApplied = w.lastApplied ∧ m.seqStates = w.seqStates)

/-- The loop over the commits, however it ends. -/
structure Committed (commits : List Commit) (w : World) (exit : Exit) (m : World) : Prop where
  hand : (exit, m.book) = handAll ((follow Commit.version w.lastApplied commits).map commitDiffs) w.book
  frame : ∃ book lastApplied ledger, exit ≠ .hung → m = { w with book, lastApplied, ledger }
  hung : m.hung = decide (exit = .hung)
  delivered : m.ledger.delivered = w.ledger.delivered
  snapshot : m.ledger.snapshot = w.ledger.snapshot
  pushes : m.ledger.pushes = w.ledger.pushes
  mark : exit = .returned → m.lastApplied = followed Commit.version w.lastApplied commits
  commits : exit = .returned → ∀ v, w.lastApplied < v → v ≤ m.lastApplied → v ∈ m.ledger.commits

theorem commitLoop_spec (hhung : w.hung = false) (hbook : w.book.isSome = true) (commits : List Commit) :
    Committed commits w (commitLoop commits w).1 (commitLoop commits w).2 := by
  have hflag := (commitLoop_advances commits w).hung hhung
  rw [commitLoop_eq commits w hbook] at hflag ⊢
  generalize hxs : follow Commit.version w.lastApplied commits = xs at *
  have hret : (commitAll xs w).1 = .returned → (commitAll xs w).2 = _ := applyAll_returned xs w hhung
  obtain ⟨book, lastApplied, hung, ledger, hframe⟩ : ∃ book lastApplied hung ledger,
      (commitAll xs w).2 = { w with book, lastApplied, hung, ledger } := applyAll_frame xs w
  refine ⟨?_, ⟨book, lastApplied, ledger, fun hexit => ?_⟩, hflag, ?_, ?_, ?_, fun h => ?_, fun h v hlo hhi => ?_⟩
  · rw [hxs]
    exact applyAll_hand xs w
  · rw [hframe] at hflag ⊢
    rw [decide_eq_false hexit] at hflag
    dsimp only at hflag
    rw [hflag, hhung]
  · exact applyAll_ledger Ledger.commit Ledger.delivered (fun _ _ _ => rfl) xs w
  · exact applyAll_ledger Ledger.commit Ledger.snapshot (fun _ _ _ => rfl) xs w
  · exact applyAll_ledger Ledger.commit Ledger.pushes (fun _ _ _ => rfl) xs w
  · rw [hret h, ← followed_last, hxs]
  · rw [hret h] at hhi ⊢
    rw [← hxs, followed_last] at hhi
    refine (mem_foldl_record Ledger.commit Ledger.commits (fun _ _ => rfl) xs w.ledger v).mpr (Or.inr ?_)
    rw [← hxs]
    exact (mem_follow_iff commits w.lastApplied v).mpr ⟨hlo, hhi⟩

theorem recovered_failed {st : SeqState} (hst : m.seqStates symbol = some st) (hepoch : st.epoch = currentEpoch)
    (hexit : (recovery answer w).1 = .raised) {oldest : Entry} {rest : List Entry} (hrem : remaining = oldest :: rest)
    (hframe : ∃ book lastApplied seqStates ledger, m = { w with book, lastApplied, seqStates, ledger })
    (hbook : m.book = (recovery answer w).2) (hdelivered : m.ledger.delivered = w.ledger.delivered)
    (hsnap : m.ledger.snapshot = w.ledger.snapshot) (hpushes : m.ledger.pushes = w.ledger.pushes) :
    Recovered symbol answer remaining w { m with
      seqStates := setLastU m.seqStates symbol (oldest.version - 1)
      lastApplied := oldest.version - 1 } := by
  have hmark : recoveredMark answer remaining w = oldest.version - 1 := by
    unfold recoveredMark
    rw [hexit, hrem]
  obtain ⟨book, lastApplied, seqStates, ledger, rfl⟩ := hframe
  refine ⟨⟨book, _, _, ledger, rfl⟩, hbook, hmark.symm, hdelivered, hsnap, hpushes, fun h => ?_, Or.inl ?_⟩
  · rw [hexit] at h
    cases h
  · rw [← hepoch]
    exact setLastU_same hst _

/-- **The recovery.** -/
theorem bridged_spec (hhung : w.hung = false) (hbook : w.book.isSome = true) (hne : remaining ≠ [])
    (hvalid : Validated symbol w) (answer : Option (List Commit)) :
    ((recovery answer w).1 = .hung →
      (bridged symbol answer remaining w).1 = .hung ∧ (bridged symbol answer remaining w).2.hung = true) ∧
    ((recovery answer w).1 ≠ .hung → ∃ m, bridged symbol answer remaining w = (.returned, m) ∧
      Recovered symbol answer remaining w m) := by
  obtain ⟨oldest, rest, rfl⟩ := List.exists_cons_of_ne_nil hne
  obtain ⟨st, hst, hepoch⟩ := hvalid
  cases answer with
  | none =>
    refine ⟨nofun, fun _ => ⟨_, rfl, recovered_failed hst hepoch rfl rfl ⟨_, _, _, _, rfl⟩ rfl rfl rfl rfl⟩⟩
  | some commits =>
    cases commits with
    | nil =>
      have hmark : recoveredMark (some []) (oldest :: rest) w = w.lastApplied := Int.add_zero _
      refine ⟨nofun, fun _ => ⟨w, rfl, ⟨_, _, _, _, rfl⟩, rfl, hmark.symm, rfl, rfl, rfl, fun _ v hlt hle => ?_,
        Or.inr ⟨rfl, rfl, rfl⟩⟩⟩
      omega
    | cons c cs =>
      have hspec := commitLoop_spec hhung hbook (c :: cs)
      have hexit : recovery (some (c :: cs)) w = _ := hspec.hand.symm
      unfold bridged gapRecover
      rcases hloop : commitLoop (c :: cs) w with ⟨exit, m⟩
      rw [hloop] at hspec hexit
      dsimp only at hspec hexit ⊢
      obtain ⟨book, lastApplied, ledger, hframe⟩ := hspec.frame
      rw [hexit, hloop]
      cases exit with
      | returned =>
        refine ⟨nofun, fun _ => ⟨{ m with seqStates := setLastU m.seqStates symbol m.lastApplied }, rfl, ?_⟩⟩
        have hm : m = { w with book, lastApplied, ledger } := hframe nofun
        have hseq : m.seqStates symbol = some st := by rw [hm]; exact hst
        have hmark : recoveredMark (some (c :: cs)) (oldest :: rest) w =
            followed Commit.version w.lastApplied (c :: cs) := by
          unfold recoveredMark
          rw [hexit]
          rfl
        refine ⟨⟨m.book, m.lastApplied, _, m.ledger, by rw [hm]⟩, congrArg Prod.snd hexit.symm,
          (hspec.mark rfl).trans hmark.symm, hspec.delivered, hspec.snapshot, hspec.pushes, fun _ => hspec.commits rfl,
          Or.inl ?_⟩
        rw [← hepoch]
        exact setLastU_same hseq _
      | raised =>
        refine ⟨nofun, fun _ => ⟨_, rfl, ?_⟩⟩
        have hm : m = { w with book, lastApplied, ledger } := hframe nofun
        have hseq : m.seqStates symbol = some st := by rw [hm]; exact hst
        exact recovered_failed hseq hepoch (congrArg Prod.fst hexit) rfl ⟨book, lastApplied, w.seqStates, ledger, hm⟩
          (congrArg Prod.snd hexit.symm) hspec.delivered hspec.snapshot hspec.pushes
      | hung => exact ⟨fun _ => ⟨rfl, hspec.hung⟩, fun h => absurd rfl h⟩

/-! ## The invariant -/

section Invariant
variable (symbol : String)

/-- Entries in the order of their versions. -/
def InVersionOrder (l : List Entry) : Prop := l.Pairwise fun x y => x.version < y.version

/-- What is buffered while the bootstrap waits for the commits: what the snapshot or a push has covered, the kept
pushes, and newer ones. -/
structure Waits (remaining : List Entry) (w : World) : Prop where
  book : w.book.isSome = true
  base : ∃ v, w.ledger.snapshot = some v ∧ w.seqStates symbol = some ⟨v, currentEpoch⟩ ∧ v ≤ w.lastApplied
  covered : ∀ e ∈ w.pending, e.version ≤ w.lastApplied →
    (∃ s ∈ w.ledger.snapshot, e.version ≤ s) ∨ e.version ∈ w.ledger.pushes
  applied : ∀ v ∈ w.ledger.pushes, v ≤ w.lastApplied ∧ v ∈ w.ledger.delivered
  sorted : InVersionOrder remaining
  kept : ∀ e ∈ remaining, e ∈ w.pending ∧ w.lastApplied < e.version
  newer : ∀ e ∈ w.pending, w.lastApplied < e.version → e ∈ remaining ∨ ∀ r ∈ remaining, r.version < e.version
  nonempty : remaining ≠ []

/-- What holds of a synced symbol: a push to come that the validator drops is covered, one that it takes is beyond the
mark. -/
structure Live (w : World) : Prop where
  accounted : ∀ v ∈ w.ledger.delivered, Accounted w v
  applied : ∀ v ∈ w.ledger.pushes, v ∈ w.ledger.delivered
  stale : ∀ v st, w.seqStates symbol = some st → v ≤ st.lastU → (∀ u ∈ w.ledger.delivered, u < v) → Covered w v
  ahead : ∀ v st, w.seqStates symbol = some st → st.lastU < v → (∀ u ∈ w.ledger.delivered, u < v) → w.lastApplied < v

structure BootInv (w : World) : Prop where
  member : w.member = true
  unrotated : w.task ≠ .rotationSnapshot
  buffered : w.synced = false →
    (∀ v, v ∈ w.ledger.delivered ↔ ∃ e ∈ w.pending, e.version = v) ∧ InVersionOrder w.pending
  waiting : ∀ remaining, w.task = .bootCommits remaining → w.synced = false ∧ Waits symbol remaining w
  live : w.synced = true → w.task = .idle ∧ Live symbol w

end Invariant

theorem BootInv.lossless (h : w.hung = true ∨ BootInv symbol w) : Lossless w := by
  intro hhung hsynced
  rcases h with h | h
  · rw [h] at hhung
    cases hhung
  · exact (h.live hsynced).2.accounted

theorem bootInv_started (symbol : String) : BootInv symbol started :=
  ⟨rfl, nofun, fun _ => ⟨fun v => by simp [started], List.Pairwise.nil⟩, nofun, nofun⟩

/-- A bootstrap that has failed. -/
theorem BootInv.fail (h : BootInv symbol w) (hunsynced : w.synced = false) (hmember : m.member = w.member)
    (hsynced : m.synced = w.synced) (hpending : m.pending = w.pending)
    (hdelivered : m.ledger.delivered = w.ledger.delivered) : BootInv symbol { m with task := .failed } := by
  refine ⟨hmember.trans h.member, nofun, fun _ => ?_, nofun, fun hs => ?_⟩
  · show (∀ v, v ∈ m.ledger.delivered ↔ ∃ e ∈ m.pending, e.version = v) ∧ InVersionOrder m.pending
    rw [hdelivered, hpending]
    exact h.buffered hunsynced
  · exact absurd ((hsynced.trans hunsynced).symm.trans hs) nofun

/-! ## Pushes -/

/-- A push that is buffered. -/
theorem BootInv.buffer (h : BootInv symbol w) (hsynced : w.synced = false) {data : Push} {v : ℤ}
    (hversion : data.version = some v) (hfresh : ∀ u ∈ w.ledger.delivered, u < v) :
    BootInv symbol (onDepth symbol data w) := by
  obtain ⟨hdelivered, hsorted⟩ := h.buffered hsynced
  have hlast : ∀ e ∈ w.pending, e.version < v := fun e he => hfresh _ ((hdelivered _).mpr ⟨e, he, rfl⟩)
  rw [onDepth_unsynced hversion (Or.inr hsynced), h.member, if_pos rfl]
  refine ⟨rfl, h.unrotated, fun _ => ⟨fun u => ?_, ?_⟩, fun remaining htask => ⟨hsynced, ?_⟩, fun hs => ?_⟩
  · show u ∈ v :: w.ledger.delivered ↔ _
    rw [List.mem_cons, hdelivered]
    simp only [List.mem_append, List.mem_singleton]
    constructor
    · rintro (rfl | ⟨e, he, rfl⟩)
      · exact ⟨_, Or.inr rfl, rfl⟩
      · exact ⟨e, Or.inl he, rfl⟩
    · rintro ⟨e, he | rfl, rfl⟩
      · exact Or.inr ⟨e, he, rfl⟩
      · exact Or.inl rfl
  · refine List.pairwise_append.mpr ⟨hsorted, List.pairwise_singleton _ _, fun e he x hx => ?_⟩
    rw [List.mem_singleton.mp hx]
    exact hlast e he
  · obtain ⟨-, hw⟩ := h.waiting remaining htask
    obtain ⟨oldest, rest, hrem⟩ := List.exists_cons_of_ne_nil hw.nonempty
    obtain ⟨hin, hbeyond⟩ := hw.kept oldest (hrem ▸ List.mem_cons_self)
    have hnew : w.lastApplied < v := hbeyond.trans (hlast oldest hin)
    refine ⟨hw.book, hw.base, fun e he hle => ?_, fun u hu => ?_, hw.sorted, fun e he => ?_, fun e he hlt => ?_,
      hw.nonempty⟩
    · rcases List.mem_append.mp he with he | he
      · exact hw.covered e he hle
      · rw [List.mem_singleton.mp he] at hle
        exact absurd hle (not_le.mpr hnew)
    · obtain ⟨hle, hdel⟩ := hw.applied u hu
      exact ⟨hle, List.mem_cons_of_mem v hdel⟩
    · obtain ⟨hin, hlt⟩ := hw.kept e he
      exact ⟨List.mem_append_left _ hin, hlt⟩
    · rcases List.mem_append.mp he with he | he
      · exact hw.newer e he hlt
      · rw [List.mem_singleton.mp he]
        exact Or.inr fun r hr => hlast r (hw.kept r hr).1
  · dsimp only at hs
    rw [hsynced] at hs
    cases hs

/-- A push that the validator drops is covered. -/
theorem Live.stale_push (h : Live symbol w) {st : SeqState} (hst : w.seqStates symbol = some st) {v : ℤ}
    (hle : v ≤ st.lastU) (hfresh : ∀ u ∈ w.ledger.delivered, u < v) :
    Live symbol { w with ledger := w.ledger.deliver v } := by
  have hcov := h.stale v st hst hle hfresh
  refine ⟨fun u hu => ?_, fun u hu => ?_, fun u st' hst' hu hlater => ?_, fun u st' hst' hu hlater => ?_⟩
  · rcases List.mem_cons.mp hu with rfl | hu
    · exact Or.inr hcov
    · exact h.accounted u hu
  · exact List.mem_cons_of_mem v (h.applied u hu)
  · exact h.stale u st' hst' hu fun x hx => hlater x (List.mem_cons_of_mem v hx)
  · exact h.ahead u st' hst' hu fun x hx => hlater x (List.mem_cons_of_mem v hx)

/-- A push that is applied becomes both marks. -/
theorem Live.new_push (h : Live symbol w) {v : ℤ} (hbeyond : w.lastApplied < v) (book : Option Book) (hung : Bool) :
    Live symbol { w with
      seqStates := Function.update w.seqStates symbol (some ⟨v, currentEpoch⟩)
      book
      hung
      lastApplied := v
      ledger := (w.ledger.deliver v).push v .returned } := by
  refine ⟨fun u hu => ?_, fun u hu => ?_, fun u st hst hu hlater => ?_, fun u st _ _ hlater => ?_⟩
  · rcases List.mem_cons.mp hu with rfl | hu
    · exact Or.inl List.mem_cons_self
    · rcases h.accounted u hu with hpush | ⟨hcov, hle⟩
      · exact Or.inl (List.mem_cons_of_mem v hpush)
      · exact Or.inr ⟨hcov, hle.trans hbeyond.le⟩
  · rcases List.mem_cons.mp hu with rfl | hu
    · exact List.mem_cons_self
    · exact List.mem_cons_of_mem v (h.applied u hu)
  · have hseq : Function.update w.seqStates symbol (some ⟨v, currentEpoch⟩) symbol = some st := hst
    rw [Function.update_self, Option.some_inj] at hseq
    have hvu := hlater v List.mem_cons_self
    rw [← hseq] at hu
    exact absurd hu (not_le.mpr hvu)
  · exact hlater v List.mem_cons_self

/-- A live symbol that stays live. -/
theorem BootInv.of_live (h : BootInv symbol w) (hsynced : w.synced = true) (hmember : m.member = w.member)
    (htask : m.task = w.task) (hsync : m.synced = w.synced) (hlive : Live symbol m) : BootInv symbol m := by
  have hidle : m.task = .idle := htask.trans (h.live hsynced).1
  refine ⟨hmember.trans h.member, ?_, fun hs => ?_, fun remaining ht => ?_, fun _ => ⟨hidle, hlive⟩⟩
  · rw [hidle]
    exact nofun
  · exact absurd ((hsync.trans hsynced).symm.trans hs) nofun
  · exact absurd (hidle.symm.trans ht) nofun

/-- A push of a synced symbol: it is accounted for, unless it meets a batch that raises. -/
theorem BootInv.push (h : BootInv symbol w) (hhung : w.hung = false) (hsynced : w.synced = true)
    (hvalid : Validated symbol w) {data : Push} {v : ℤ} (hversion : data.version = some v)
    (hfresh : ∀ u ∈ w.ledger.delivered, u < v) :
    (NoHole symbol w (.depth data) → (onDepth symbol data w).hung = true ∨ BootInv symbol (onDepth symbol data w)) ∧
      (¬ NoHole symbol w (.depth data) → ¬ Lossless (onDepth symbol data w)) := by
  obtain ⟨st, hst, hepoch⟩ := hvalid
  obtain ⟨-, hlive⟩ := h.live hsynced
  obtain ⟨hstale, hnew⟩ := onDepth_live data hversion h.member hsynced hst hepoch
  -- the condition is about this push and this state
  have hcond : NoHole symbol w (.depth data) ↔ (st.lastU < v → (hand (parseDiffs data) w.book).1 ≠ .raised) := by
    constructor
    · exact fun hno => hno hhung hsynced v st hversion hst
    · intro hno _ _ v' st' hv' hst' hlt
      rw [hversion, Option.some_inj] at hv'
      rw [hst, Option.some_inj] at hst'
      rw [← hv', ← hst'] at hlt
      exact hno hlt
  rw [hcond]
  rcases le_or_gt v st.lastU with hle | hlt
  · refine ⟨fun _ => Or.inr ?_, fun hbad => absurd (fun hlt => absurd hle (not_le.mpr hlt)) hbad⟩
    rw [hstale hle]
    exact h.of_live hsynced rfl rfl rfl (hlive.stale_push hst hle hfresh)
  · have hbeyond := hlive.ahead v st hst hlt hfresh
    rw [hnew hlt]
    cases hexit : (hand (parseDiffs data) w.book).1 with
    | returned =>
      refine ⟨fun _ => Or.inr ?_, fun hbad => absurd (fun _ => nofun) hbad⟩
      exact h.of_live hsynced rfl rfl rfl (hlive.new_push hbeyond _ _)
    | raised =>
      refine ⟨fun hok => absurd rfl (hok hlt), fun _ hlossless => ?_⟩
      rcases hlossless rfl hsynced v List.mem_cons_self with hpush | ⟨-, hle⟩
      · exact lt_irrefl v (hfresh v (hlive.applied v hpush))
      · have hmark : (if Exit.raised = .returned then v else w.lastApplied) = w.lastApplied := if_neg nofun
        dsimp only at hle
        omega
    | hung => exact ⟨fun _ => Or.inl rfl, fun hbad => absurd (fun _ => nofun) hbad⟩

/-! ## The snapshot -/

/-- The runner after the first loop: the buffered pushes that follow the snapshot are applied. -/
structure Caught (symbol : String) (snap : Snapshot) (w m : World) : Prop where
  book : m.book.isSome = true
  mark : m.lastApplied = followed Entry.version snap.version w.pending
  delivered : m.ledger.delivered = w.ledger.delivered
  snapshot : m.ledger.snapshot = some snap.version
  pushes : ∀ v, v ∈ m.ledger.pushes ↔ snap.version < v ∧ v ≤ m.lastApplied
  validator : m.seqStates symbol = some ⟨snap.version, currentEpoch⟩

theorem caught_bufferLoop (h : BootInv symbol w) (hhung : w.hung = false) (hsynced : w.synced = false) {snap : Snapshot}
    {remaining : List Entry} (hloop : bufferLoop w.pending (snap.version + 1) (install symbol snap w) =
      (.returned, remaining, m)) :
    Caught symbol snap w m ∧ remaining = w.pending.filter fun e => m.lastApplied < e.version := by
  have hloops := bufferLoop_eq w.pending (install symbol snap w) (h.buffered hsynced).2
  have hmark : (install symbol snap w).lastApplied = snap.version := rfl
  rw [hmark, hloop] at hloops
  obtain ⟨hexit, hworld, hkeep⟩ := hloops
  obtain ⟨ledger, hpushed, hm⟩ := pushAll_follow (w := install symbol snap w) hhung w.pending hexit.symm
  rw [hmark] at hm hpushed
  rw [← hworld] at hm
  dsimp only at hm hkeep
  have hlast : m.lastApplied = followed Entry.version snap.version w.pending := by rw [hm]
  have hledger : m.ledger = ledger := by rw [hm]
  refine ⟨⟨?_, hlast, ?_, ?_, fun v => ?_, ?_⟩, ?_⟩
  · rw [hm]
    exact handAll_isSome _ _ rfl
  · rw [hledger]
    exact hpushed.delivered
  · rw [hledger]
    exact hpushed.snapshot
  · rw [hledger, hlast, ← mem_follow_iff]
    exact (hpushed.pushes v).trans (or_iff_right List.not_mem_nil)
  · rw [hm]
    exact setLastU_same (Function.update_self ..) _
  · rw [hlast]
    exact hkeep rfl

section Caught
variable {snap : Snapshot}

theorem Caught.le (h : Caught symbol snap w m) : snap.version ≤ m.lastApplied := by
  rw [h.mark]
  exact le_followed

/-- A version up to the mark is of the snapshot, or was applied. -/
theorem Caught.cases (h : Caught symbol snap w m) {v : ℤ} (hle : v ≤ m.lastApplied) :
    v ≤ snap.version ∨ v ∈ m.ledger.pushes := by
  rcases le_or_gt v snap.version with hv | hv
  · exact Or.inl hv
  · exact Or.inr ((h.pushes v).mpr ⟨hv, hle⟩)

/-- What was applied had been delivered. -/
theorem Caught.applied (h : Caught symbol snap w m) (hb : BootInv symbol w) (hsynced : w.synced = false) {v : ℤ}
    (hv : v ∈ m.ledger.pushes) : v ∈ m.ledger.delivered := by
  rw [h.pushes, h.mark, ← mem_follow_iff] at hv
  obtain ⟨e, he, hev⟩ := hv
  rw [h.delivered, (hb.buffered hsynced).1]
  exact ⟨e, (follow_sublist w.pending snap.version).subset he, hev⟩

/-- The symbol is live at once when nothing is kept. -/
theorem Caught.live (h : Caught symbol snap w m) (hb : BootInv symbol w) (hsynced : w.synced = false)
    (hall : ∀ e ∈ w.pending, e.version ≤ m.lastApplied) :
    Live symbol { m with pending := [], synced := true, task := .idle } := by
  refine ⟨fun v hv => ?_, fun v hv => h.applied hb hsynced hv, fun v st hst hv _ => ?_, fun v st hst hv hnew => ?_⟩
  · have hv' : v ∈ m.ledger.delivered := hv
    rw [h.delivered, (hb.buffered hsynced).1] at hv'
    obtain ⟨e, he, hev⟩ := hv'
    rcases h.cases (hev ▸ hall e he) with hcov | hpush
    · exact Or.inr ⟨Or.inl ⟨snap.version, h.snapshot, hcov⟩, hcov.trans h.le⟩
    · exact Or.inl hpush
  · have hst' : some ⟨snap.version, currentEpoch⟩ = some st := h.validator.symm.trans hst
    rw [← Option.some_inj.mp hst'] at hv
    exact ⟨Or.inl ⟨snap.version, h.snapshot, hv⟩, hv.trans h.le⟩
  · have hst' : some ⟨snap.version, currentEpoch⟩ = some st := h.validator.symm.trans hst
    rw [← Option.some_inj.mp hst'] at hv
    by_contra hnot
    have hpush : v ∈ m.ledger.pushes := (h.pushes v).mpr ⟨hv, not_lt.mp hnot⟩
    exact lt_irrefl v (hnew v (h.applied hb hsynced hpush))

/-- Otherwise what is beyond the mark is kept, and the bootstrap waits for the commits. -/
theorem Caught.waits (h : Caught symbol snap w m) (hb : BootInv symbol w) (hsynced : w.synced = false)
    (hpending : m.pending = w.pending) {remaining : List Entry} (hne : remaining ≠ [])
    (hrem : remaining = w.pending.filter fun e => m.lastApplied < e.version) (task : Task) :
    Waits symbol remaining { m with task } := by
  refine ⟨h.book, ⟨snap.version, h.snapshot, h.validator, h.le⟩, fun e he hle => ?_, fun v hv => ?_, ?_, fun e he => ?_,
    fun e he hlt => ?_, hne⟩
  · rcases h.cases hle with hcov | hpush
    · exact Or.inl ⟨snap.version, h.snapshot, hcov⟩
    · exact Or.inr hpush
  · exact ⟨((h.pushes v).mp hv).2, h.applied hb hsynced hv⟩
  · rw [hrem]
    exact (hb.buffered hsynced).2.filter _
  · rw [hrem] at he
    obtain ⟨hin, hlt⟩ := List.mem_filter.mp he
    exact ⟨hpending.symm ▸ hin, of_decide_eq_true hlt⟩
  · rw [hrem]
    exact Or.inl (List.mem_filter.mpr ⟨hpending ▸ he, decide_eq_true hlt⟩)

end Caught

/-- **The end of the first wait.** -/
theorem BootInv.snapshot (h : BootInv symbol w) (hhung : w.hung = false) (hsynced : w.synced = false)
    (answer : Option Snapshot) :
    (bootstrapSnapshot symbol answer w).hung = true ∨ BootInv symbol (bootstrapSnapshot symbol answer w) := by
  unfold bootstrapSnapshot
  cases answer with
  | none => exact Or.inr (h.fail hsynced rfl rfl rfl rfl)
  | some snap =>
    have hadv := bufferLoop_advances w.pending (install symbol snap w) (snap.version + 1) rfl
    dsimp only
    rcases hloop : bufferLoop w.pending (snap.version + 1) (install symbol snap w) with ⟨exit, remaining, m⟩
    rw [hloop] at hadv
    have hmember : m.member = true := hadv.kept.member.trans h.member
    have hpending : m.pending = w.pending := hadv.kept.pending
    have hfalse : m.synced = false := hadv.kept.synced.trans hsynced
    cases exit with
    | hung =>
      have hflag : m.hung = true := hadv.hung hhung
      exact Or.inl hflag
    | raised =>
      exact Or.inr (h.fail hsynced hadv.kept.member hadv.kept.synced hadv.kept.pending hadv.kept.delivered)
    | returned =>
      obtain ⟨hcaught, hrem⟩ := caught_bufferLoop h hhung hsynced hloop
      cases remaining with
      | nil =>
        have hall : ∀ e ∈ w.pending, e.version ≤ m.lastApplied := by
          intro e he
          have hnot := List.filter_eq_nil_iff.mp hrem.symm e he
          simpa using hnot
        exact Or.inr ⟨hmember, nofun, nofun, nofun, fun _ => ⟨rfl, hcaught.live h hsynced hall⟩⟩
      | cons oldest rest =>
        refine Or.inr ⟨hmember, nofun, fun _ => ?_, fun remaining htask => ⟨hfalse, ?_⟩, fun hs => ?_⟩
        · show (∀ v, v ∈ m.ledger.delivered ↔ ∃ e ∈ m.pending, e.version = v) ∧ InVersionOrder m.pending
          rw [hcaught.delivered, hpending]
          exact h.buffered hsynced
        · cases htask
          exact hcaught.waits h hsynced hpending (List.cons_ne_nil oldest rest) hrem _
        · exact absurd (hfalse.symm.trans hs) nofun

/-! ## The commits -/

/-- A recovery that raises goes back to the oldest kept push. -/
theorem Waits.mark_raised (h : Waits symbol remaining w) (hexit : (recovery answer w).1 = .raised) :
    ∃ oldest ∈ remaining, recoveredMark answer remaining w = oldest.version - 1 ∧
      ∀ r ∈ remaining, oldest.version ≤ r.version := by
  obtain ⟨oldest, rest, rfl⟩ := List.exists_cons_of_ne_nil h.nonempty
  refine ⟨oldest, List.mem_cons_self, ?_, fun r hr => ?_⟩
  · unfold recoveredMark
    rw [hexit]
  · rcases List.mem_cons.mp hr with rfl | hr
    · exact le_refl _
    · exact (List.rel_of_pairwise_cons h.sorted hr).le

/-- Otherwise it goes on from the mark. -/
theorem mark_of_not_raised (hexit : (recovery answer w).1 ≠ .raised) :
    recoveredMark answer remaining w = followed Commit.version w.lastApplied (answer.getD []) := by
  unfold recoveredMark
  split
  · exact absurd (by assumption) hexit
  · rfl

theorem Waits.le_mark (h : Waits symbol remaining w) (answer : Option (List Commit)) :
    w.lastApplied ≤ recoveredMark answer remaining w := by
  by_cases hexit : (recovery answer w).1 = .raised
  · obtain ⟨oldest, hin, hmark, -⟩ := h.mark_raised hexit
    have hlt := (h.kept oldest hin).2
    omega
  · rw [mark_of_not_raised hexit]
    exact le_followed

/-- A push to come is newer than the kept ones, which are beyond the mark. -/
theorem Waits.lt_of_newer (h : Waits symbol remaining w) (hb : BootInv symbol w) (hsynced : w.synced = false) {v : ℤ}
    (hnew : ∀ u ∈ w.ledger.delivered, u < v) : (∀ r ∈ remaining, r.version < v) ∧ w.lastApplied < v := by
  have hall : ∀ r ∈ remaining, r.version < v := fun r hr =>
    hnew _ (((hb.buffered hsynced).1 _).mpr ⟨r, (h.kept r hr).1, rfl⟩)
  obtain ⟨oldest, hin⟩ := List.exists_mem_of_ne_nil _ h.nonempty
  exact ⟨hall, (h.kept oldest hin).2.trans (hall oldest hin)⟩

/-- The ledger at the end of a bootstrap, after the kept pushes that follow the recovered mark. -/
structure Ended (answer : Option (List Commit)) (remaining : List Entry) (w : World) (ledger : Ledger) : Prop where
  delivered : ∀ v, v ∈ ledger.delivered ↔ ∃ e ∈ w.pending, e.version = v
  snapshot : ledger.snapshot = w.ledger.snapshot
  pushes : ∀ v, v ∈ ledger.pushes ↔ v ∈ w.ledger.pushes ∨ ∃ e ∈ following answer remaining w, e.version = v
  commits : (recovery answer w).1 ≠ .raised → ∀ v, w.lastApplied < v → v ≤ recoveredMark answer remaining w →
    v ∈ ledger.commits

theorem ended (hb : BootInv symbol w) (hsynced : w.synced = false) (hfree : (recovery answer w).1 ≠ .hung)
    (hrec : Recovered symbol answer remaining w m) {ledger : Ledger}
    (hpushed : Pushed (following answer remaining w) m.ledger ledger) : Ended answer remaining w ledger := by
  refine ⟨?_, hpushed.snapshot.trans hrec.snapshot, fun v => ?_, fun hexit v hlo hhi => ?_⟩
  · rw [hpushed.delivered, hrec.delivered]
    exact (hb.buffered hsynced).1
  · rw [hpushed.pushes, hrec.pushes]
  · have hreturned : (recovery answer w).1 = .returned := by
      cases he : (recovery answer w).1 with
      | returned => rfl
      | raised => exact absurd he hexit
      | hung => exact absurd he hfree
    rw [hpushed.commits]
    exact hrec.commits hreturned v hlo (hrec.mark.symm ▸ hhi)

section Ended
variable {ledger : Ledger}

/-- A version between the marks before and after the recovery is that of a commit, or, after a recovery that raised,
older than all kept pushes. -/
theorem Ended.between (h : Ended answer remaining w ledger) (hw : Waits symbol remaining w) {v : ℤ}
    (hlo : w.lastApplied < v) (hhi : v ≤ recoveredMark answer remaining w) :
    v ∈ ledger.commits ∨ ∃ oldest ∈ remaining, v < oldest.version ∧ ∀ r ∈ remaining, oldest.version ≤ r.version := by
  by_cases hexit : (recovery answer w).1 = .raised
  · obtain ⟨oldest, hin, hmark, hleast⟩ := hw.mark_raised hexit
    exact Or.inr ⟨oldest, hin, by omega, hleast⟩
  · exact Or.inl (h.commits hexit v hlo hhi)

/-- Every buffered push is accounted for when none beyond the recovered mark is left out. -/
theorem Ended.accounted (h : Ended answer remaining w ledger) (hw : Waits symbol remaining w)
    (hok : ∀ e ∈ w.pending, recoveredMark answer remaining w < e.version → e ∈ following answer remaining w)
    {v lastApplied : ℤ} (hlast : recoveredMark answer remaining w ≤ lastApplied) (hv : v ∈ ledger.delivered) :
    v ∈ ledger.pushes ∨ ((∃ s ∈ ledger.snapshot, v ≤ s) ∨ v ∈ ledger.commits) ∧ v ≤ lastApplied := by
  have hmark := hw.le_mark answer
  obtain ⟨e, he, rfl⟩ := (h.delivered v).mp hv
  rcases le_or_gt e.version w.lastApplied with hlo | hlo
  · rcases hw.covered e he hlo with ⟨s, hs, hle⟩ | hpush
    · exact Or.inr ⟨Or.inl ⟨s, h.snapshot ▸ hs, hle⟩, by omega⟩
    · exact Or.inl ((h.pushes _).mpr (Or.inl hpush))
  · rcases le_or_gt e.version (recoveredMark answer remaining w) with hhi | hhi
    · rcases h.between hw hlo hhi with hcommit | ⟨oldest, hold, hlt, hleast⟩
      · exact Or.inr ⟨Or.inr hcommit, by omega⟩
      · -- a buffered push beyond the mark is kept, or newer than all that are
        rcases hw.newer e he hlo with hkept | hnewer
        · exact absurd (hleast e hkept) (not_le.mpr hlt)
        · exact absurd (hnewer oldest hold) (not_lt.mpr hlt.le)
    · exact Or.inl ((h.pushes _).mpr (Or.inr ⟨e, hok e he hhi, rfl⟩))

end Ended

/-- The symbol is live after the commits, when no buffered push beyond the recovered mark is left out. -/
theorem Waits.live (h : Waits symbol remaining w) (hb : BootInv symbol w) (hsynced : w.synced = false)
    (hrec : Recovered symbol answer remaining w m) {book : Option Book} {ledger : Ledger}
    (hend : Ended answer remaining w ledger)
    (hok : ∀ e ∈ w.pending, recoveredMark answer remaining w < e.version → e ∈ following answer remaining w) :
    Live symbol { m with
      book
      lastApplied := followed Entry.version (recoveredMark answer remaining w) remaining
      ledger
      pending := []
      synced := true
      task := .idle } := by
  have hlast : recoveredMark answer remaining w ≤ followed Entry.version (recoveredMark answer remaining w) remaining :=
    le_followed
  have hnewer : ∀ v, (∀ u ∈ ledger.delivered, u < v) → (∀ r ∈ remaining, r.version < v) ∧ w.lastApplied < v := by
    intro v hnew
    refine h.lt_of_newer hb hsynced fun u hu => hnew u ?_
    rw [hend.delivered, ← (hb.buffered hsynced).1]
    exact hu
  refine ⟨fun v hv => hend.accounted h hok hlast hv, fun v hv => ?_, fun v st hst hv hnew => ?_, fun v st hst hv hnew => ?_⟩
  · rcases (hend.pushes v).mp hv with hv | ⟨e, he, hev⟩
    · exact (hend.delivered v).mpr (((hb.buffered hsynced).1 v).mp (h.applied v hv).2)
    · exact (hend.delivered v).mpr ⟨e, (h.kept e ((follow_sublist _ _).subset he)).1, hev⟩
  · obtain ⟨hkept, hbeyond⟩ := hnewer v hnew
    have hst' : m.seqStates symbol = some st := hst
    rcases hrec.validator with hval | ⟨-, -, hseq⟩
    · rw [hval, Option.some_inj] at hst'
      rw [← hst', hrec.mark] at hv
      rcases hend.between h hbeyond hv with hcommit | ⟨oldest, hold, hlt, -⟩
      · exact ⟨Or.inr hcommit, le_trans hv hlast⟩
      · exact absurd (hkept oldest hold) (not_lt.mpr hlt.le)
    · obtain ⟨base, -, hbase, hle⟩ := h.base
      rw [hseq, hbase, Option.some_inj] at hst'
      rw [← hst'] at hv
      dsimp only at hv
      omega
  · obtain ⟨hkept, hbeyond⟩ := hnewer v hnew
    have hst' : m.seqStates symbol = some st := hst
    have hpast : recoveredMark answer remaining w < v := by
      rcases hrec.validator with hval | ⟨-, hsame, -⟩
      · rw [hval, Option.some_inj] at hst'
        rw [← hst', hrec.mark] at hv
        exact hv
      · rw [← hrec.mark, hsame]
        exact hbeyond
    by_contra hnot
    obtain ⟨e, he, hev⟩ := (mem_follow_iff remaining _ v).mpr ⟨hpast, not_lt.mp hnot⟩
    have hlt := hkept e ((follow_sublist _ _).subset he)
    omega

/-- A buffered push beyond the recovered mark that is left out is beyond the mark of the bootstrap's end. -/
theorem Waits.beyond (h : Waits symbol remaining w) {e : Entry} (he : e ∈ w.pending)
    (hlt : recoveredMark answer remaining w < e.version) (hnot : e ∉ following answer remaining w) :
    followed Entry.version (recoveredMark answer remaining w) remaining < e.version := by
  have hmark := h.le_mark answer
  rcases h.newer e he (lt_of_le_of_lt hmark hlt) with hkept | hnewer
  · have hhole := hole_of_not_mem remaining _ h.sorted hkept hlt hnot
    omega
  · by_contra hle
    obtain ⟨x, hx, hxe⟩ := (mem_follow_iff remaining _ _).mpr ⟨hlt, not_lt.mp hle⟩
    have hless := hnewer x ((follow_sublist _ _).subset hx)
    omega

/-- A push that is left out is lost: it is beyond the mark that the bootstrap ends with. -/
theorem Waits.lost (h : Waits symbol remaining w) {book : Option Book} {ledger : Ledger}
    (hend : Ended answer remaining w ledger) (hrun : m.hung = false)
    (hbad : ¬ ∀ e ∈ w.pending, recoveredMark answer remaining w < e.version → e ∈ following answer remaining w) :
    ¬ Lossless { m with
      book
      lastApplied := followed Entry.version (recoveredMark answer remaining w) remaining
      ledger
      pending := []
      synced := true
      task := .idle } := by
  intro hlossless
  obtain ⟨e, he, hlt, hnot⟩ : ∃ e ∈ w.pending, recoveredMark answer remaining w < e.version ∧
      e ∉ following answer remaining w := by
    by_contra hnone
    refine hbad fun e he hlt => ?_
    by_contra hnot
    exact hnone ⟨e, he, hlt, hnot⟩
  have hbeyond := h.beyond he hlt hnot
  have hmark := h.le_mark answer
  have hin : e.version ∈ ledger.delivered := (hend.delivered _).mpr ⟨e, he, rfl⟩
  rcases hlossless hrun rfl e.version hin with hpush | ⟨-, hle⟩
  · rcases (hend.pushes e.version).mp hpush with hold | hnew
    · have hle := (h.applied _ hold).1
      omega
    · have hle := ((mem_follow_iff remaining _ _).mp hnew).2
      omega
  · exact absurd hle (not_le.mpr hbeyond)

/-- The condition is about the list that the bootstrap keeps, and only when the bootstrap ends. -/
theorem noHole_commits_iff (hhung : w.hung = false) (htask : w.task = .bootCommits remaining) :
    NoHole symbol w (.commits answer) ↔ (Finishes answer remaining w →
      ∀ e ∈ w.pending, recoveredMark answer remaining w < e.version → e ∈ following answer remaining w) := by
  constructor
  · exact fun hno => hno hhung remaining htask
  · intro hno _ remaining' htask'
    rw [htask, Task.bootCommits.injEq] at htask'
    exact htask' ▸ hno

/-- **The end of the second wait.** -/
theorem BootInv.commits (h : BootInv symbol w) (hhung : w.hung = false) (htask : w.task = .bootCommits remaining)
    (hvalid : Validated symbol w) (answer : Option (List Commit)) :
    (NoHole symbol w (.commits answer) → (bootstrapCommits symbol answer remaining w).hung = true ∨
      BootInv symbol (bootstrapCommits symbol answer remaining w)) ∧
    (¬ NoHole symbol w (.commits answer) → ¬ Lossless (bootstrapCommits symbol answer remaining w)) := by
  obtain ⟨hsynced, hw⟩ := h.waiting remaining htask
  obtain ⟨hblock, hgo⟩ := bridged_spec hhung hw.book hw.nonempty hvalid answer
  rw [noHole_commits_iff hhung htask]
  unfold bootstrapCommits
  by_cases hfree : (recovery answer w).1 = .hung
  · obtain ⟨hexit, hflag⟩ := hblock hfree
    rcases hbr : bridged symbol answer remaining w with ⟨exit, m⟩
    rw [hbr] at hexit hflag
    dsimp only at hexit hflag
    rw [hexit]
    exact ⟨fun _ => Or.inl hflag, fun hbad => absurd (fun hfin : Finishes answer remaining w => absurd hfree hfin.1) hbad⟩
  obtain ⟨m, hbr, hrec⟩ := hgo hfree
  obtain ⟨book, lastApplied, seqStates, ledger, hframe⟩ := hrec.frame
  have hmhung : m.hung = false := by rw [hframe]; exact hhung
  have hadv := remainingLoop_advances remaining m
  rw [hbr]
  dsimp only
  rw [remainingLoop_eq remaining m hw.sorted, hrec.mark] at hadv ⊢
  have hexit : (pushAll (following answer remaining w) m).1 =
      (handAll ((following answer remaining w).map fun e => parseDiffs e.data) (recovery answer w).2).1 := by
    rw [← hrec.book]
    exact applyAll_exit _ m
  have hdone := pushAll_follow hmhung remaining
  rw [hrec.mark] at hdone
  -- a list whose batches do not all return says nothing of the condition
  have hvacuous : (pushAll (following answer remaining w) m).1 ≠ .returned → Finishes answer remaining w →
      ∀ e ∈ w.pending, recoveredMark answer remaining w < e.version → e ∈ following answer remaining w :=
    fun hne hfin => absurd (hexit.trans hfin.2) hne
  unfold following at hexit hvacuous
  rcases hpush : pushAll (follow Entry.version (recoveredMark answer remaining w) remaining) m with ⟨exit, m'⟩
  rw [hpush] at hadv hexit hdone hvacuous
  dsimp only at hadv hexit hdone hvacuous
  cases exit with
  | hung =>
    have hflag : m'.hung = true := hadv.hung hmhung
    exact ⟨fun _ => Or.inl hflag, fun hbad => absurd (hvacuous nofun) hbad⟩
  | raised =>
    have hmember : m'.member = w.member := hadv.kept.member.trans (by rw [hframe])
    have hsync : m'.synced = w.synced := hadv.kept.synced.trans (by rw [hframe])
    have hpending : m'.pending = w.pending := hadv.kept.pending.trans (by rw [hframe])
    exact ⟨fun _ => Or.inr (h.fail hsynced hmember hsync hpending (hadv.kept.delivered.trans hrec.delivered)),
      fun hbad => absurd (hvacuous nofun) hbad⟩
  | returned =>
    obtain ⟨ledger', hpushed, hm'⟩ := hdone rfl
    have hmember : m.member = true := by rw [hframe]; exact h.member
    have hfin : Finishes answer remaining w := ⟨hfree, hexit.symm⟩
    have hend := ended h hsynced hfree hrec hpushed
    rw [hm']
    constructor
    · intro hok
      exact Or.inr ⟨hmember, nofun, nofun, nofun, fun _ => ⟨rfl, hw.live h hsynced hrec hend (hok hfin)⟩⟩
    · exact fun hbad => hw.lost hend hmhung fun hok => hbad fun _ => hok

/-! ## Runs -/

/-- **One step.** -/
theorem bootInv_step (h : Sound symbol w ∧ (w.hung = true ∨ BootInv symbol w)) {event : Event} (hboots : Boots event)
    (hfresh : Fresh w event) :
    (NoHole symbol w event → (step symbol w event).hung = true ∨ BootInv symbol (step symbol w event)) ∧
      (¬ NoHole symbol w event → ¬ Lossless (step symbol w event)) := by
  obtain ⟨hsound, hinv⟩ := h
  unfold step
  by_cases hhung : w.hung = true
  · rw [if_pos hhung]
    refine ⟨fun _ => Or.inl hhung, fun hbad => absurd ?_ hbad⟩
    cases event with
    | depth data => exact fun hrun => absurd (hhung.symm.trans hrun) nofun
    | commits answer => exact fun hrun => absurd (hhung.symm.trans hrun) nofun
    | bootstrap => trivial
    | snapshot answer => trivial
    | recovered answer => trivial
    | subscribe => trivial
    | wsSubscribe ok => trivial
    | unsubscribe => trivial
    | wsUnsubscribe ok => trivial
  rw [if_neg hhung]
  have hrun : w.hung = false := Bool.eq_false_iff.mpr hhung
  have hb : BootInv symbol w := hinv.resolve_left hhung
  have hunsynced : w.task ≠ .idle → w.synced = false := by
    intro hne
    by_contra hs
    exact hne (hb.live (by simpa using hs)).1
  cases event with
  | depth data =>
    cases hversion : data.version with
    | none =>
      have hsame : onDepth symbol data w = w := by
        unfold onDepth
        rw [hversion]
      refine ⟨fun _ => Or.inr ?_, fun hbad => absurd ?_ hbad⟩
      · show BootInv symbol (onDepth symbol data w)
        rw [hsame]
        exact hb
      · exact fun _ _ v st hv => absurd (hversion.symm.trans hv) nofun
    | some v =>
      have hlater := hfresh v hversion
      cases hsynced : w.synced with
      | true => exact hb.push hrun hsynced (hsound.synced hsynced) hversion hlater
      | false =>
        refine ⟨fun _ => Or.inr (hb.buffer hsynced hversion hlater), fun hbad => absurd ?_ hbad⟩
        exact fun _ hs => absurd (hsynced.symm.trans hs) nofun
  | bootstrap =>
    refine ⟨fun _ => Or.inr ?_, fun hbad => absurd trivial hbad⟩
    cases htask : w.task with
    | starting =>
      have hfalse := hunsynced (by rw [htask]; exact nofun)
      exact ⟨hb.member, nofun, hb.buffered, nofun, fun hs => absurd (hfalse.symm.trans hs) nofun⟩
    | _ => exact hb
  | snapshot answer =>
    refine ⟨fun _ => ?_, fun hbad => absurd trivial hbad⟩
    cases htask : w.task with
    | bootSnapshot => exact hb.snapshot hrun (hunsynced (by rw [htask]; exact nofun)) answer
    | rotationSnapshot => exact absurd htask hb.unrotated
    | _ => exact Or.inr hb
  | commits answer =>
    cases htask : w.task with
    | bootCommits remaining => exact hb.commits hrun htask (hsound.waiting remaining htask) answer
    | _ =>
      refine ⟨fun _ => Or.inr hb, fun hbad => absurd ?_ hbad⟩
      exact fun _ remaining ht => absurd (htask.symm.trans ht) nofun
  | recovered answer =>
    refine ⟨fun _ => Or.inr ?_, fun hbad => absurd trivial hbad⟩
    show BootInv symbol (recovered symbol answer w)
    unfold recovered
    rw [if_pos hsound.recoveries]
    exact hb
  | subscribe => exact hboots.elim
  | wsSubscribe ok => exact hboots.elim
  | unsubscribe => exact hboots.elim
  | wsUnsubscribe ok => exact hboots.elim

/-- **Lossless.** A run of pushes and the bootstrap loses no push exactly when each of its steps leaves no hole. -/
theorem lossless_iff (symbol : String) {events : List Event} (horder : InOrder events) (hboots : ∀ e ∈ events, Boots e) :
    Runs.Always Lossless (step symbol) started events ↔ Runs.Guarded (NoHole symbol) (step symbol) started events := by
  have hstart : Sound symbol started ∧ (started.hung = true ∨ BootInv symbol started) :=
    ⟨sound_started symbol, Or.inr (bootInv_started symbol)⟩
  have hfresh : Runs.Guarded Fresh (step symbol) started events := inOrder_fresh horder rfl
  rw [Runs.always_iff_guarded (BootInv.lossless hstart.2)]
  refine Runs.guarded_iff_guarded_of (I := fun w => Sound symbol w ∧ (w.hung = true ∨ BootInv symbol w)) hfresh hstart
    (fun w e he hinv hnew hok => ?_) fun w e he hinv hnew hbad => ?_
  · have hnext := (bootInv_step hinv (hboots e he) hnew).1 hok
    exact ⟨⟨sound_step hinv.1 e, hnext⟩, BootInv.lossless hnext⟩
  · exact (bootInv_step hinv (hboots e he) hnew).2 hbad

/-- A gap behind the snapshot, and one more push while the commits are fetched. -/
def discarded : List Event :=
  [.bootstrap, .depth { version := some 10, bids := [some (100, 1)] }, .snapshot (some ⟨5, [(100, 2)], [(101, 2)]⟩),
    .depth { version := some 11, bids := [some (99, 1)] },
    .commits (some [⟨6, [], []⟩, ⟨7, [], []⟩, ⟨8, [], []⟩, ⟨9, [], []⟩])]

theorem discarded_inOrder : InOrder discarded := by
  unfold InOrder
  decide

theorem discarded_boots : ∀ e ∈ discarded, Boots e := by
  intro e he
  simp only [discarded, List.mem_cons, List.not_mem_nil, or_false] at he
  rcases he with rfl | rfl | rfl | rfl | rfl <;> trivial

theorem lossless_iff_discarded : InOrder discarded ∧ (∀ e ∈ discarded, Boots e) ∧
    (Runs.Always Lossless (step "BTC_USDT") started discarded ↔
      Runs.Guarded (NoHole "BTC_USDT") (step "BTC_USDT") started discarded) :=
  ⟨discarded_inOrder, discarded_boots, lossless_iff "BTC_USDT" discarded_inOrder discarded_boots⟩

/-- The bridge reaches 9 and the kept push 10 is applied; 11 is cleared with the buffer. -/
theorem not_lossless_discarded : InOrder discarded ∧ (∀ e ∈ discarded, Boots e) ∧
    ¬ Runs.Always Lossless (step "BTC_USDT") started discarded := by
  refine ⟨discarded_inOrder, discarded_boots, fun h => ?_⟩
  have hledger : (Runs.run (step "BTC_USDT") started discarded).ledger =
      ⟨[11, 10], some 5, [10, 9, 8, 7, 6], [10], [9, 8, 7, 6], none⟩ := by decide
  have hlast : Lossless (Runs.run (step "BTC_USDT") started discarded) := h.last
  rcases hlast (by decide) (by decide) 11 (by rw [hledger]; decide) with hpush | ⟨-, hle⟩
  · rw [hledger] at hpush
    exact absurd hpush (by decide)
  · exact absurd hle (by decide)

end MikoV2.Depth
