import MikoV2.Depth.Steps
import MikoV2.Lib.Follow

/-!
# Batches handed to the book

Each loop of the bootstrap takes the versions that follow the mark, one after another, and hands their batches to the
book.

* `handAll` : `apply_batch` for one batch after another, up to the first that does not return;
* `applyAll` : versions with their batches, and the runner's mark; `applyAll_exit`, `applyAll_book`,
  `applyAll_returned`, `applyAll_ledger` : how it ends and what it does;
* `mem_foldl_record`, `foldl_record` : the versions a ledger lists after it, and what it leaves alone;
* `bufferLoop_eq`, `remainingLoop_eq`, `commitLoop_eq` : the loops of the source are `applyAll` of what follows the mark.
-/

namespace MikoV2.Depth
open DataLayer Versions

/-- One batch after another, up to the first that does not return. -/
def handAll : List (List Diff) → Option Book → Exit × Option Book
  | [], book => (.returned, book)
  | diffs :: batches, book =>
    match hand diffs book with
    | (.returned, book) => handAll batches book
    | (exit, book) => (exit, book)

/-- A book stays a book. -/
theorem hand_isSome (diffs : List Diff) {book : Option Book} (h : book.isSome = true) :
    (hand diffs book).2.isSome = true := by
  obtain ⟨b, rfl⟩ := Option.isSome_iff_exists.mp h
  unfold hand
  dsimp only
  split
  · rfl
  · split <;> rfl

theorem handAll_isSome : ∀ (batches : List (List Diff)) (book : Option Book), book.isSome = true →
    (handAll batches book).2.isSome = true := by
  intro batches
  induction batches with
  | nil => exact fun book h => h
  | cons diffs batches ih =>
    intro book h
    have hstays := hand_isSome diffs h
    rw [handAll]
    rcases hhand : hand diffs book with ⟨_ | _ | _, book'⟩
    · rw [hhand] at hstays
      exact ih _ hstays
    · rw [hhand] at hstays
      exact hstays
    · rw [hhand] at hstays
      exact hstays

section ApplyAll
variable {α : Type} (version : α → ℤ) (diffs : α → List Diff) (record : ℤ → Exit → Ledger → Ledger)

/-- The batches of some versions, each of which becomes the mark. -/
def applyAll : List α → World → Exit × World
  | [], w => (.returned, w)
  | x :: xs, w =>
    let (exit, book) := hand (diffs x) w.book
    let w := { w with book, hung := decide (exit = .hung), ledger := record (version x) exit w.ledger }
    match exit with
    | .returned => applyAll xs { w with lastApplied := version x }
    | exit => (exit, w)

variable {version diffs record} {w : World}

theorem applyAll_cons (x : α) (xs : List α) (w : World) :
    applyAll version diffs record (x :: xs) w =
      match hand (diffs x) w.book with
      | (.returned, book) => applyAll version diffs record xs
          { w with book, hung := false, ledger := record (version x) .returned w.ledger, lastApplied := version x }
      | (exit, book) =>
        (exit, { w with book, hung := decide (exit = .hung), ledger := record (version x) exit w.ledger }) := by
  rw [applyAll]
  rcases hand (diffs x) w.book with ⟨_ | _ | _, book⟩
  · rfl
  · rfl
  · rfl

/-- It ends as the batches do. -/
theorem applyAll_hand (xs : List α) : ∀ w : World,
    ((applyAll version diffs record xs w).1, (applyAll version diffs record xs w).2.book) =
      handAll (xs.map diffs) w.book := by
  induction xs with
  | nil => exact fun w => rfl
  | cons x xs ih =>
    intro w
    rw [applyAll_cons, List.map_cons, handAll]
    rcases hand (diffs x) w.book with ⟨_ | _ | _, book⟩
    · exact ih _
    · rfl
    · rfl

theorem applyAll_exit (xs : List α) (w : World) :
    (applyAll version diffs record xs w).1 = (handAll (xs.map diffs) w.book).1 :=
  congrArg Prod.fst (applyAll_hand xs w)

theorem applyAll_book (xs : List α) (w : World) :
    (applyAll version diffs record xs w).2.book = (handAll (xs.map diffs) w.book).2 :=
  congrArg Prod.snd (applyAll_hand xs w)

/-- When all batches return, the versions are recorded, and the last one is the mark. -/
theorem applyAll_returned (xs : List α) : ∀ w : World, w.hung = false →
    (applyAll version diffs record xs w).1 = .returned →
    (applyAll version diffs record xs w).2 = { w with
      book := (handAll (xs.map diffs) w.book).2
      lastApplied := (xs.getLast?.map version).getD w.lastApplied
      ledger := xs.foldl (fun l x => record (version x) .returned l) w.ledger } := by
  induction xs with
  | nil => exact fun w _ _ => rfl
  | cons x xs ih =>
    intro w hhung hret
    rw [applyAll_cons] at hret ⊢
    rw [List.map_cons, handAll]
    rcases hx : hand (diffs x) w.book with ⟨_ | _ | _, book⟩
    · rw [hx] at hret
      dsimp only at hret ⊢
      rw [ih _ rfl hret]
      have hmark : (xs.getLast?.map version).getD (version x) = (((x :: xs).getLast?).map version).getD w.lastApplied := by
        cases xs with
        | nil => rfl
        | cons y ys =>
          rw [List.getLast?_cons_cons, List.getLast?_eq_some_getLast (List.cons_ne_nil y ys)]
          rfl
      dsimp only
      rw [hmark, List.foldl_cons, hhung]
    · rw [hx] at hret
      cases hret
    · rw [hx] at hret
      cases hret

/-- However it ends, it changes no more than the book, the mark, the flag and the ledger. -/
theorem applyAll_frame (xs : List α) : ∀ w : World, ∃ book lastApplied hung ledger,
    (applyAll version diffs record xs w).2 = { w with book, lastApplied, hung, ledger } := by
  induction xs with
  | nil => exact fun w => ⟨w.book, w.lastApplied, w.hung, w.ledger, rfl⟩
  | cons x xs ih =>
    intro w
    rw [applyAll_cons]
    rcases hand (diffs x) w.book with ⟨_ | _ | _, book⟩
    · obtain ⟨book', lastApplied, hung, ledger, heq⟩ := ih
        { w with book, hung := false, ledger := record (version x) .returned w.ledger, lastApplied := version x }
      exact ⟨book', lastApplied, hung, ledger, heq⟩
    · exact ⟨book, w.lastApplied, _, _, rfl⟩
    · exact ⟨book, w.lastApplied, _, _, rfl⟩

variable (record) in
/-- What a record leaves alone. -/
theorem applyAll_ledger {β : Type} (f : Ledger → β) (hf : ∀ v exit l, f (record v exit l) = f l) (xs : List α) :
    ∀ w : World, f (applyAll version diffs record xs w).2.ledger = f w.ledger := by
  induction xs with
  | nil => exact fun w => rfl
  | cons x xs ih =>
    intro w
    rw [applyAll_cons]
    rcases hand (diffs x) w.book with ⟨_ | _ | _, book⟩
    · rw [ih]
      exact hf _ _ _
    · exact hf _ _ _
    · exact hf _ _ _

variable (record) in
/-- The versions that a record lists. -/
theorem mem_foldl_record (f : Ledger → List ℤ) (hf : ∀ v l, f (record v .returned l) = v :: f l) (xs : List α) :
    ∀ (l : Ledger) (v : ℤ), v ∈ f (xs.foldl (fun l x => record (version x) .returned l) l) ↔
      v ∈ f l ∨ ∃ x ∈ xs, version x = v := by
  induction xs with
  | nil => exact fun l v => by simp
  | cons x xs ih =>
    intro l v
    rw [List.foldl_cons, ih, hf, List.mem_cons, List.exists_mem_cons_iff, eq_comm, or_comm (a := version x = v), or_assoc]

variable (record) in
theorem foldl_record {β : Type} (f : Ledger → β) (hf : ∀ v exit l, f (record v exit l) = f l) (xs : List α) :
    ∀ l : Ledger, f (xs.foldl (fun l x => record (version x) .returned l) l) = f l := by
  induction xs with
  | nil => exact fun l => rfl
  | cons x xs ih => exact fun l => (ih _).trans (hf _ _ _)

end ApplyAll

/-! ## The loops of the source -/

/-- Buffered pushes. -/
def pushAll : List Entry → World → Exit × World := applyAll Entry.version (fun e => parseDiffs e.data) Ledger.push

def commitAll : List Commit → World → Exit × World := applyAll Commit.version commitDiffs Ledger.commit

theorem pushAll_cons (e : Entry) (es : List Entry) (w : World) :
    pushAll (e :: es) w =
      match applyPush e w with
      | (.returned, w) => pushAll es { w with lastApplied := e.version }
      | (exit, w) => (exit, w) := by
  unfold pushAll applyPush
  rw [applyAll_cons]
  dsimp only
  rcases hand (parseDiffs e.data) w.book with ⟨_ | _ | _, book⟩
  · rfl
  · rfl
  · rfl

/-- Pushes beyond a hole are left where they are. -/
theorem remainingLoop_hole : ∀ (remaining : List Entry) (w : World), (∀ e ∈ remaining, w.lastApplied + 1 < e.version) →
    remainingLoop remaining w = (.returned, w) := by
  intro remaining
  induction remaining with
  | nil => exact fun w _ => rfl
  | cons e remaining ih =>
    intro w h
    have he := h e List.mem_cons_self
    rw [remainingLoop, if_pos (by omega)]
    exact ih w fun x hx => h x (List.mem_cons_of_mem e hx)

/-- **The kept pushes.** -/
theorem remainingLoop_eq : ∀ (remaining : List Entry) (w : World),
    (remaining.Pairwise fun x y => x.version < y.version) →
    remainingLoop remaining w = pushAll (follow Entry.version w.lastApplied remaining) w := by
  intro remaining
  induction remaining with
  | nil => exact fun w _ => rfl
  | cons e remaining ih =>
    intro w hsorted
    obtain ⟨he, hrest⟩ := List.pairwise_cons.mp hsorted
    rcases lt_trichotomy e.version (w.lastApplied + 1) with hlt | heq | hgt
    · rw [follow_skip (by omega), remainingLoop, if_pos (by omega)]
      exact ih w hrest
    · rw [follow_next heq, remainingLoop, if_neg (by omega), pushAll_cons]
      rcases hpush : applyPush e w with ⟨_ | _ | _, m⟩
      · dsimp only
        rw [ih _ hrest, heq]
      · rfl
      · rfl
    · rw [follow_hole hgt]
      refine remainingLoop_hole _ w fun x hx => ?_
      rcases List.mem_cons.mp hx with rfl | hx
      · exact hgt
      · have hlater := he x hx
        omega

/-- **The commits.** The book is there. -/
theorem commitLoop_eq : ∀ (commits : List Commit) (w : World), w.book.isSome = true →
    commitLoop commits w = commitAll (follow Commit.version w.lastApplied commits) w := by
  intro commits
  induction commits with
  | nil => exact fun w _ => rfl
  | cons commit commits ih =>
    intro w hbook
    rcases lt_trichotomy commit.version (w.lastApplied + 1) with hlt | heq | hgt
    · rw [follow_skip (by omega), commitLoop, if_pos (by omega)]
      exact ih w hbook
    · rw [follow_next heq, commitLoop, if_neg (by omega), if_neg (by omega), commitAll, applyAll_cons]
      have hstays := hand_isSome (commitDiffs commit) hbook
      obtain ⟨book, hsome⟩ := Option.isSome_iff_exists.mp hbook
      rw [hsome] at hstays
      rw [hsome]
      dsimp only
      rcases hhand : hand (commitDiffs commit) (some book) with ⟨_ | _ | _, book'⟩
      · rw [hhand] at hstays
        dsimp only
        rw [ih _ hstays, heq]
        rfl
      · rfl
      · rfl
    · rw [follow_hole hgt, commitLoop, if_neg (by omega), if_pos (by omega)]
      rfl

/-- Buffered pushes beyond a hole are kept. -/
theorem bufferLoop_hole : ∀ (pending : List Entry) (target : ℤ) (w : World), (∀ e ∈ pending, target < e.version) →
    bufferLoop pending target w = (.returned, pending, w) := by
  intro pending
  induction pending with
  | nil => exact fun target w _ => rfl
  | cons e pending ih =>
    intro target w h
    have he := h e List.mem_cons_self
    rw [bufferLoop, if_neg (by omega), if_neg (by omega), ih target w fun x hx => h x (List.mem_cons_of_mem e hx)]

/-- **The buffered pushes.** Those beyond the mark that the loop ends at are kept. -/
theorem bufferLoop_eq : ∀ (pending : List Entry) (w : World), (pending.Pairwise fun x y => x.version < y.version) →
    (bufferLoop pending (w.lastApplied + 1) w).1 = (pushAll (follow Entry.version w.lastApplied pending) w).1 ∧
      (bufferLoop pending (w.lastApplied + 1) w).2.2 = (pushAll (follow Entry.version w.lastApplied pending) w).2 ∧
      ((bufferLoop pending (w.lastApplied + 1) w).1 = .returned → (bufferLoop pending (w.lastApplied + 1) w).2.1 =
        pending.filter fun e => followed Entry.version w.lastApplied pending < e.version) := by
  intro pending
  induction pending with
  | nil => exact fun w _ => ⟨rfl, rfl, fun _ => rfl⟩
  | cons e pending ih =>
    intro w hsorted
    obtain ⟨he, hrest⟩ := List.pairwise_cons.mp hsorted
    unfold followed
    rcases lt_trichotomy e.version (w.lastApplied + 1) with hlt | heq | hgt
    · have hskip : ¬ w.lastApplied + (follow Entry.version w.lastApplied pending).length < e.version := by omega
      rw [follow_skip (by omega), bufferLoop, if_pos hlt, List.filter_cons_of_neg (by simpa using hskip)]
      exact ih w hrest
    · have htaken : ¬ w.lastApplied + (follow Entry.version w.lastApplied (e :: pending)).length < e.version := by
        rw [follow_next heq, List.length_cons]
        omega
      rw [List.filter_cons_of_neg (by simpa using htaken), follow_next heq, bufferLoop, if_neg (by omega), if_pos heq,
        pushAll_cons]
      rcases hpush : applyPush e w with ⟨_ | _ | _, m⟩
      · obtain ⟨hexit, hworld, hkept⟩ := ih { m with lastApplied := e.version } hrest
        dsimp only at hexit hworld hkept ⊢
        rw [heq] at hexit hworld hkept
        rw [heq]
        refine ⟨hexit, hworld, fun hret => ?_⟩
        rw [hkept hret]
        unfold followed
        rw [List.length_cons]
        refine List.filter_congr fun x _ => ?_
        rw [decide_eq_decide]
        omega
      · exact ⟨rfl, rfl, nofun⟩
      · exact ⟨rfl, rfl, nofun⟩
    · have hall : ∀ x ∈ e :: pending, w.lastApplied + 1 < x.version := by
        intro x hx
        rcases List.mem_cons.mp hx with rfl | hx
        · exact hgt
        · have hlater := he x hx
          omega
      rw [follow_hole hgt, bufferLoop_hole _ _ _ hall]
      refine ⟨rfl, rfl, fun _ => (List.filter_eq_self.mpr fun x hx => ?_).symm⟩
      have hx' := hall x hx
      rw [List.length_nil]
      exact decide_eq_true (by omega)

end MikoV2.Depth
