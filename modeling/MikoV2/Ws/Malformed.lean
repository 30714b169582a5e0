import MikoV2.Ws.Manager

/-!
# Snapshots that do not load

`on_snapshot` counts the epoch before it looks at a level, and it has no way back.

* `SnapshotObject` : a snapshot, before its lists are known to have a length;
* `loadObject`, `fetchAndApplyObject` : `on_snapshot` and the end of `fetch_and_apply` on it;
* `Harmless` : a call that raises leaves the book as it was, and `False` means that nothing happened;
* `harmless_iff` : it is so when the call does not raise, or raises before it counts.
-/

namespace MikoV2.Ws
open DataLayer

/-- What `on_snapshot` is given. A list of levels is `none` when `len` or the cut at the capacity raises. -/
structure SnapshotObject where
  bids : Option (List Level) := some []
  asks : Option (List Level) := some []
  seq : Option ℤ := some 0
  bidsPrice : Option (List ℚ) := none
  bidsQty : Option (List ℚ) := none
  asksPrice : Option (List ℚ) := none
  asksQty : Option (List ℚ) := none

/-- The lists have their lengths. -/
def SnapshotObject.sized (o : SnapshotObject) : Option Snapshot := match o.bids, o.asks with
  | some bids, some asks => some ⟨bids, asks, o.seq, o.bidsPrice, o.bidsQty, o.asksPrice, o.asksQty⟩
  | _, _ => none

/-- `on_snapshot` on the symbol's book, and whether it returns. -/
def loadObject (b : Book) (o : SnapshotObject) : Bool × Book := match o.sized with
  | none => (false, b)
  | some snapshot => DataLayer.onSnapshot b snapshot

/-- `fetch_and_apply` from the snapshot on. -/
def fetchAndApplyObject (books : String → Option Book) (symbol : String) (o : SnapshotObject) :
    Bool × (String → Option Book) :=
  let (ok, book) := loadObject ((books symbol).getD {}) o
  (ok, Function.update books symbol (some book))

/-- A call that raises leaves the book as it was, and so do the books when `fetch_and_apply` says `False`. -/
def Harmless (b : Book) (o : SnapshotObject) : Prop :=
  ((loadObject b o).1 = false → (loadObject b o).2 = b) ∧
    ∀ (books : String → Option Book) (symbol : String), books symbol = some b →
      (fetchAndApplyObject books symbol o).1 = false → (fetchAndApplyObject books symbol o).2 = books

variable {b : Book} {o : SnapshotObject}

/-- On a snapshot that the network answers with, this is the model's `fetch_and_apply`. -/
theorem fetchAndApplyObject_eq {snapshot : Snapshot} (h : o.sized = some snapshot) (books : String → Option Book)
    (symbol : String) : fetchAndApplyObject books symbol o = fetchAndApply books symbol (.fetched snapshot) := by
  simp only [fetchAndApplyObject, loadObject, h, fetchAndApply, Outcome.snapshot]

/-- The books go the way of the book. -/
theorem harmless_iff_book : Harmless b o ↔ ((loadObject b o).1 = false → (loadObject b o).2 = b) := by
  refine and_iff_left_of_imp fun h books symbol hbook hfalse => ?_
  simp only [fetchAndApplyObject, hbook, Option.getD_some] at hfalse ⊢
  rw [h hfalse, ← hbook, Function.update_eq_self]

/-- A snapshot with lists in it is counted, whatever comes after. -/
theorem loadObject_seqEpoch {snapshot : Snapshot} (h : o.sized = some snapshot) :
    (loadObject b o).1 = snapshot.wellFormed ∧ (loadObject b o).2.seqEpoch = b.seqEpoch + 1 := by
  simp only [loadObject, h]
  obtain ⟨hok, hepoch, -⟩ := onSnapshot_spec b snapshot
  exact ⟨hok, hepoch⟩

/-- **Malformed snapshots.** The book is as it was exactly when the snapshot loads, or has no lists at all. -/
theorem harmless_iff (b : Book) (o : SnapshotObject) :
    Harmless b o ↔ ∀ snapshot, o.sized = some snapshot → snapshot.wellFormed = true := by
  rw [harmless_iff_book]
  constructor
  · intro h snapshot hsized
    obtain ⟨hok, hepoch⟩ := loadObject_seqEpoch (b := b) hsized
    by_contra hmalformed
    have hbook := h (hok.trans (Bool.eq_false_iff.mpr hmalformed))
    rw [hbook] at hepoch
    omega
  · intro h hfalse
    cases hsized : o.sized with
    | none => simp only [loadObject, hsized]
    | some snapshot =>
      obtain ⟨hok, -⟩ := loadObject_seqEpoch (b := b) hsized
      rw [hok, h snapshot hsized] at hfalse
      cases hfalse

/-- One level that is no pair: the book has lost its bids, and the epoch of its updates. -/
theorem not_harmless_unpack : ¬ ∀ (b : Book) (o : SnapshotObject), Harmless b o := by
  intro h
  have hbook := (h { bids := { price := fun _ => 100, qty := fun _ => 1, len := 1 } } { bids := some [none] }).1 rfl
  have hepoch := congrArg L2Book.seqEpoch hbook
  cases hepoch

end MikoV2.Ws
