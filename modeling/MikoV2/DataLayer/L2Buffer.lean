import Mathlib.Algebra.Order.Ring.Rat
import Mathlib.Tactic.Common

/-!
# `L2Buffer`

A side of a book is its two preallocated arrays, of `MAX_BUFFER` cells each, as functions of the index, and
the length in use. A book belongs to one symbol, so its per-symbol dictionaries are single values here.

* `searchsorted` : numpy's binary search, `searchsorted_le` : it stays inside the length;
* `roomLoop` : the trim loop of `apply_batch`; `roomLoop_stuck` : when two rounds are not enough, none are;
* `applyBatch` : the outcome of a batch: it returned, raised in a slice assignment, or never ends;
* `applyBatch_returned_iff` : a batch returns `True` when it is of the book's epoch and has room;
* `hasRoom_of_fits` : below the capacity there is room;
* `onSnapshot` : the load of a snapshot, up to the point where it raises.
-/

namespace MikoV2.DataLayer

def MAX_BUFFER : ℕ := 5000
def TRIM_BLOCK : ℕ := 1000

/-- One side of a book. -/
structure Side where
  price : ℕ → ℚ := fun _ => 0
  qty : ℕ → ℚ := fun _ => 0
  len : ℕ := 0

/-- An entry of `pre_sync_queue`; `data` is the queued message. -/
structure Queued (Msg : Type) where
  seq : ℤ
  epoch : ℕ
  data : Msg
deriving DecidableEq

structure L2Book (Msg : Type) where
  bids : Side := {}
  asks : Side := {}
  seqEpoch : ℕ := 0
  expectedSeq : Option ℤ := none
  preSyncQueue : List (Queued Msg) := []

inductive SideName
  | bid
  | ask
deriving DecidableEq, Repr

structure Diff where
  side : SideName
  price : ℚ
  qty : ℚ
deriving DecidableEq

/-! ## Finding a price -/

/-- `np.searchsorted(a[:n], v)` on the cells `lo … hi - 1`: numpy's binary search, for at most `fuel` halvings. -/
def searchsortedFrom (a : ℕ → ℚ) (v : ℚ) : ℕ → ℕ → ℕ → ℕ
  | 0, lo, _ => lo
  | fuel + 1, lo, hi =>
    if lo < hi then
      let mid := lo + (hi - lo) / 2
      if a mid < v then searchsortedFrom a v fuel (mid + 1) hi else searchsortedFrom a v fuel lo mid
    else lo

def searchsorted (a : ℕ → ℚ) (v : ℚ) (n : ℕ) : ℕ := searchsortedFrom a v n 0 n

/-- Bids are stored in descending order and searched through their negatives. -/
def sortKey (name : SideName) (price : ℚ) : ℚ :=
  match name with
  | .bid => -price
  | .ask => price

/-- The index of a price and whether the price is there. -/
def find (name : SideName) (s : Side) (price : ℚ) : ℕ × Bool :=
  if s.len > 0 then
    let idx := searchsorted (fun i => sortKey name (s.price i)) (sortKey name price) s.len
    (idx, decide (idx < s.len) && decide (s.price idx = price))
  else (0, false)

theorem searchsortedFrom_le (a : ℕ → ℚ) (v : ℚ) : ∀ fuel lo hi, lo ≤ hi → searchsortedFrom a v fuel lo hi ≤ hi
  | 0, _, _, h => h
  | fuel + 1, lo, hi, h => by
    unfold searchsortedFrom
    split
    · dsimp only
      split
      · exact searchsortedFrom_le a v fuel _ hi (by omega)
      · have hmid := searchsortedFrom_le a v fuel lo (lo + (hi - lo) / 2) (by omega)
        omega
    · exact h

theorem find_le (name : SideName) (s : Side) (price : ℚ) : (find name s price).1 ≤ s.len := by
  unfold find
  split
  · exact searchsortedFrom_le _ _ _ _ _ (Nat.zero_le _)
  · exact Nat.zero_le _

/-! ## Trimming -/

/-- `a[lo:hi] = 0` on both arrays. -/
def Side.clear (s : Side) (lo hi : ℕ) : Side :=
  { s with
    price := fun i => if lo ≤ i ∧ i < hi then 0 else s.price i
    qty := fun i => if lo ≤ i ∧ i < hi then 0 else s.qty i }

/-- The loop of `trim`: blocks are cut from the end until the batch fits or the side is empty. -/
def trimLoop (batchNew : ℕ) : ℕ → Side → Side
  | 0, s => s
  | fuel + 1, s =>
    if s.len + batchNew ≥ MAX_BUFFER then
      let trimN := min TRIM_BLOCK s.len
      if trimN = 0 then s
      else trimLoop batchNew fuel { s.clear (s.len - trimN) s.len with len := s.len - trimN }
    else s

/-- Every round but the last cuts a cell at least. -/
def trim (batchNew : ℕ) (s : Side) : Side := trimLoop batchNew (s.len + 1) s

/-- `while len + batch_new >= MAX_BUFFER: trim(…)`, for at most `fuel` tests; `none` when it needs more. -/
def roomLoop (batchNew : ℕ) : ℕ → Side → Option Side
  | 0, _ => none
  | fuel + 1, s => if s.len + batchNew ≥ MAX_BUFFER then roomLoop batchNew fuel (trim batchNew s) else some s

theorem trimLoop_done (batchNew : ℕ) : ∀ fuel (s : Side), s.len < fuel →
    (trimLoop batchNew fuel s).len + batchNew < MAX_BUFFER ∨ (trimLoop batchNew fuel s).len = 0
  | fuel + 1, s, h => by
    unfold trimLoop
    split
    · dsimp only
      split
      · rename_i hn
        right
        simp only [TRIM_BLOCK] at hn
        omega
      · rename_i hn
        have hpos : 0 < s.len := by
          simp only [TRIM_BLOCK] at hn
          omega
        exact trimLoop_done batchNew fuel _ (by simp only [TRIM_BLOCK]; omega)
    · rename_i hn
      left
      omega

theorem trim_done (batchNew : ℕ) (s : Side) :
    (trim batchNew s).len + batchNew < MAX_BUFFER ∨ (trim batchNew s).len = 0 :=
  trimLoop_done batchNew _ s (Nat.lt_succ_self _)

theorem trim_of_empty {batchNew : ℕ} {s : Side} (h : s.len = 0) : trim batchNew s = s := by
  unfold trim trimLoop
  simp [h]

/-- Two tests decide the loop: after one call of `trim` the batch fits, or the side is empty and no further
call changes it. -/
theorem roomLoop_stuck {batchNew : ℕ} {s : Side} (h : roomLoop batchNew 2 s = none) :
    ∀ fuel, roomLoop batchNew fuel s = none := by
  have hfull : s.len + batchNew ≥ MAX_BUFFER ∧ (trim batchNew s).len + batchNew ≥ MAX_BUFFER := by
    by_contra hnot
    unfold roomLoop at h
    split at h
    · unfold roomLoop at h
      split at h
      · exact hnot ⟨‹_›, ‹_›⟩
      · cases h
    · cases h
  have hempty : (trim batchNew s).len = 0 := (trim_done batchNew s).resolve_left (by omega)
  have hloop : ∀ fuel, roomLoop batchNew fuel (trim batchNew s) = none := by
    intro fuel
    induction fuel with
    | zero => rfl
    | succ fuel ih =>
      rw [roomLoop, if_pos hfull.2, trim_of_empty hempty]
      exact ih
  intro fuel
  cases fuel with
  | zero => rfl
  | succ fuel =>
    rw [roomLoop, if_pos hfull.1]
    exact hloop fuel

/-! ## Applying a batch -/

/-- A side after one level of a diff; `none` when the slice assignment raises. At capacity the shifted slice
is one cell longer than its target, which numpy takes only when it broadcasts a single cell. -/
def applyLevel (name : SideName) (s : Side) (price qty : ℚ) : Option Side :=
  let (idx, found) := find name s price
  if found then
    if qty = 0 then
      let last := s.len - 1
      some {
        price := fun i => if i = last then 0 else if idx ≤ i ∧ i < last then s.price (i + 1) else s.price i
        qty := fun i => if i = last then 0 else if idx ≤ i ∧ i < last then s.qty (i + 1) else s.qty i
        len := last }
    else some { s with qty := Function.update s.qty idx qty }
  else if qty = 0 then some s
  else if idx < MAX_BUFFER then
    if idx < s.len ∧ s.len = MAX_BUFFER ∧ idx + 1 ≠ s.len then none
    else
      some {
        price := fun i =>
          if i = idx then price
          else if idx < i ∧ i ≤ s.len ∧ i < MAX_BUFFER then s.price (i - 1) else s.price i
        qty := fun i =>
          if i = idx then qty
          else if idx < i ∧ i ≤ s.len ∧ i < MAX_BUFFER then s.qty (i - 1) else s.qty i
        len := if s.len < MAX_BUFFER then s.len + 1 else s.len }
  else some s

variable {Msg : Type}

def L2Book.side (b : L2Book Msg) : SideName → Side
  | .bid => b.bids
  | .ask => b.asks

def L2Book.setSide (b : L2Book Msg) (name : SideName) (s : Side) : L2Book Msg :=
  match name with
  | .bid => { b with bids := s }
  | .ask => { b with asks := s }

/-- The second pass of `apply_batch`: the book so far and whether every diff was applied. -/
def applyDiffs : List Diff → L2Book Msg → Bool × L2Book Msg
  | [], b => (true, b)
  | d :: diffs, b =>
    match applyLevel d.side (b.side d.side) d.price d.qty with
    | none => (false, b)
    | some s => applyDiffs diffs (b.setSide d.side s)

/-- `batch_bids` and `batch_asks`: the diffs that set a price the side does not have. -/
def batchNew (name : SideName) (diffs : List Diff) (s : Side) : ℕ :=
  diffs.countP fun d => decide (d.side = name) && decide (d.qty ≠ 0) && !(find name s d.price).2

inductive BatchOutcome (Msg : Type)
  | returned (applied : Bool) (book : L2Book Msg)
  | raised (book : L2Book Msg)
  | diverged

def applyBatch (b : L2Book Msg) (diffs : List Diff) (batchEpoch : ℕ) : BatchOutcome Msg :=
  if batchEpoch ≠ b.seqEpoch then .returned false b
  else
    match roomLoop (batchNew .bid diffs b.bids) 2 b.bids with
    | none => .diverged
    | some bids =>
      match roomLoop (batchNew .ask diffs b.asks) 2 b.asks with
      | none => .diverged
      | some asks =>
        match applyDiffs diffs { b with bids, asks } with
        | (true, b) => .returned true b
        | (false, b) => .raised b

/-- Both trim loops end, and no level of the batch is inserted in the middle of a full side. -/
def HasRoom (b : L2Book Msg) (diffs : List Diff) : Prop :=
  ∃ bids asks, roomLoop (batchNew .bid diffs b.bids) 2 b.bids = some bids ∧
    roomLoop (batchNew .ask diffs b.asks) 2 b.asks = some asks ∧ (applyDiffs diffs { b with bids, asks }).1 = true

/-- The levels of the book and the diffs of the batch stay below the capacity, on each side. -/
def Fits (b : L2Book Msg) (diffs : List Diff) : Prop :=
  ∀ name, (b.side name).len + diffs.countP (fun d => d.side = name) < MAX_BUFFER

theorem setSide_same (b : L2Book Msg) (name : SideName) (s : Side) : (b.setSide name s).side name = s := by
  cases name <;> rfl

theorem setSide_other (b : L2Book Msg) {name name' : SideName} (s : Side) (h : name' ≠ name) :
    (b.setSide name s).side name' = b.side name' := by
  cases name <;> cases name' <;> first | rfl | exact absurd rfl h

@[simp] theorem setSide_seqEpoch (b : L2Book Msg) (name : SideName) (s : Side) :
    (b.setSide name s).seqEpoch = b.seqEpoch := by cases name <;> rfl

@[simp] theorem setSide_expectedSeq (b : L2Book Msg) (name : SideName) (s : Side) :
    (b.setSide name s).expectedSeq = b.expectedSeq := by cases name <;> rfl

@[simp] theorem setSide_preSyncQueue (b : L2Book Msg) (name : SideName) (s : Side) :
    (b.setSide name s).preSyncQueue = b.preSyncQueue := by cases name <;> rfl

/-- Below the capacity a level is applied, and the side grows by one cell at most. -/
theorem applyLevel_of_lt (name : SideName) {s : Side} (price qty : ℚ) (h : s.len < MAX_BUFFER) :
    ∃ s', applyLevel name s price qty = some s' ∧ s'.len ≤ s.len + 1 := by
  unfold applyLevel
  dsimp only
  split
  · split
    · exact ⟨_, rfl, by dsimp only; omega⟩
    · exact ⟨_, rfl, by dsimp only; omega⟩
  · split
    · exact ⟨_, rfl, by omega⟩
    · split
      · rw [if_neg (by omega)]
        exact ⟨_, rfl, le_refl _⟩
      · exact ⟨_, rfl, by omega⟩

theorem applyDiffs_of_fits : ∀ (diffs : List Diff) (b : L2Book Msg), Fits b diffs → (applyDiffs diffs b).1 = true
  | [], _, _ => rfl
  | d :: diffs, b, h => by
    have hside := h d.side
    rw [List.countP_cons_of_pos (by simp)] at hside
    obtain ⟨s, hs, hlen⟩ := applyLevel_of_lt d.side d.price d.qty
      (show (b.side d.side).len < MAX_BUFFER by omega)
    unfold applyDiffs
    rw [hs]
    refine applyDiffs_of_fits diffs _ fun name => ?_
    by_cases hn : name = d.side
    · subst hn
      rw [setSide_same]
      omega
    · have hother := h name
      rw [List.countP_cons_of_neg (by simpa using fun h => hn h.symm)] at hother
      rw [setSide_other _ _ hn]
      exact hother

theorem batchNew_le (name : SideName) (diffs : List Diff) (s : Side) :
    batchNew name diffs s ≤ diffs.countP fun d => d.side = name := by
  refine List.countP_mono_left fun d _ hd => ?_
  simp only [Bool.and_eq_true, decide_eq_true_eq] at hd
  simp [hd.1.1]

/-- A batch below the capacity has room. -/
theorem hasRoom_of_fits {b : L2Book Msg} {diffs : List Diff} (h : Fits b diffs) : HasRoom b diffs := by
  have hbid := h .bid
  have hask := h .ask
  have hnb := batchNew_le .bid diffs b.bids
  have hna := batchNew_le .ask diffs b.asks
  have hdiffs := applyDiffs_of_fits diffs b h
  simp only [L2Book.side] at hbid hask
  refine ⟨b.bids, b.asks, ?_, ?_, hdiffs⟩
  · rw [roomLoop, if_neg (by omega)]
  · rw [roomLoop, if_neg (by omega)]

/-- **`apply_batch`.** It returns `True` exactly when the batch is of the book's epoch and has room. -/
theorem applyBatch_returned_iff {b : L2Book Msg} {diffs : List Diff} {batchEpoch : ℕ} :
    (∃ b', applyBatch b diffs batchEpoch = .returned true b') ↔ batchEpoch = b.seqEpoch ∧ HasRoom b diffs := by
  unfold applyBatch HasRoom
  by_cases he : batchEpoch = b.seqEpoch
  · rw [if_neg (not_not.mpr he)]
    cases roomLoop (batchNew .bid diffs b.bids) 2 b.bids with
    | none => simp
    | some bids =>
      cases roomLoop (batchNew .ask diffs b.asks) 2 b.asks with
      | none => simp
      | some asks =>
        rcases hd : applyDiffs diffs { b with bids, asks } with ⟨_ | _, b'⟩
        · simp [hd]
        · simp [hd, he]
  · rw [if_pos he]
    simp [he]

/-- The diffs touch the sides only. -/
theorem applyDiffs_frame : ∀ (diffs : List Diff) (b : L2Book Msg), (applyDiffs diffs b).2.seqEpoch = b.seqEpoch ∧
    (applyDiffs diffs b).2.expectedSeq = b.expectedSeq ∧ (applyDiffs diffs b).2.preSyncQueue = b.preSyncQueue
  | [], _ => ⟨rfl, rfl, rfl⟩
  | d :: diffs, b => by
    unfold applyDiffs
    split
    · exact ⟨rfl, rfl, rfl⟩
    · simpa using applyDiffs_frame diffs (b.setSide d.side _)

/-- A batch touches the sides only, however it ends. -/
theorem applyBatch_frame {b b' : L2Book Msg} {diffs : List Diff} {batchEpoch : ℕ}
    (h : (∃ ok, applyBatch b diffs batchEpoch = .returned ok b') ∨ applyBatch b diffs batchEpoch = .raised b') :
    b'.seqEpoch = b.seqEpoch ∧ b'.expectedSeq = b.expectedSeq ∧ b'.preSyncQueue = b.preSyncQueue := by
  unfold applyBatch at h
  split at h
  · rcases h with ⟨ok, h⟩ | h <;> cases h
    exact ⟨rfl, rfl, rfl⟩
  · rcases hb : roomLoop (batchNew .bid diffs b.bids) 2 b.bids with _ | bids
    · rw [hb] at h
      rcases h with ⟨ok, h⟩ | h <;> cases h
    · rcases ha : roomLoop (batchNew .ask diffs b.asks) 2 b.asks with _ | asks
      · rw [hb, ha] at h
        rcases h with ⟨ok, h⟩ | h <;> cases h
      · rw [hb, ha] at h
        have hframe := applyDiffs_frame diffs { b with bids, asks }
        rcases hd : applyDiffs diffs { b with bids, asks } with ⟨_ | _, b₁⟩ <;> rw [hd] at hframe <;>
          simp only [hd] at h <;> rcases h with ⟨ok, h⟩ | h <;> cases h <;> exact hframe

/-! ## Loading a snapshot -/

/-- A level of a snapshot: `none` does not unpack into a price and a quantity; inside, `none` is not a number. -/
abbrev Level := Option (Option ℚ × Option ℚ)

/-- What `on_snapshot` reads of a snapshot; `seq` is `none` when it is not a number. -/
structure Snapshot where
  bids : List Level := []
  asks : List Level := []
  seq : Option ℤ := some 0
  bidsPrice : Option (List ℚ) := none
  bidsQty : Option (List ℚ) := none
  asksPrice : Option (List ℚ) := none
  asksQty : Option (List ℚ) := none

/-- The loop over the levels: the side so far and whether it went through. -/
def fillLevels : List Level → ℕ → Side → Bool × Side
  | [], _, s => (true, s)
  | none :: _, _, s => (false, s)
  | some (none, _) :: _, _, s => (false, s)
  | some (some p, none) :: _, i, s => (false, { s with price := Function.update s.price i p })
  | some (some p, some q) :: levels, i, s =>
    fillLevels levels (i + 1) { s with price := Function.update s.price i p, qty := Function.update s.qty i q }

/-- `a[:n] = arr[:n]`; `none` when the lengths differ and `arr[:n]` is not a single cell. -/
def assignPrefix (n : ℕ) (arr : List ℚ) (a : ℕ → ℚ) : Option (ℕ → ℚ) :=
  let src := arr.take n
  if src.length = n then some fun i => if i < n then src.getD i 0 else a i
  else if src.length = 1 then some fun i => if i < n then src.getD 0 0 else a i
  else none

/-- One side of `on_snapshot`: from the arrays when both are given, otherwise level by level. -/
def loadSide (levels : List Level) (priceArr qtyArr : Option (List ℚ)) (s : Side) : Bool × Side :=
  match priceArr, qtyArr with
  | some priceArr, some qtyArr =>
    let n := levels.length
    match assignPrefix n priceArr s.price with
    | none => (false, s)
    | some price =>
      match assignPrefix n qtyArr s.qty with
      | none => (false, { s with price })
      | some qty =>
        (true, ⟨fun i => if i < n then price i else 0, fun i => if i < n then qty i else 0, n⟩)
  | _, _ =>
    match fillLevels levels 0 { s with price := fun _ => 0, qty := fun _ => 0 } with
    | (false, s) => (false, s)
    | (true, s) => (true, { s with len := levels.length })

/-- `on_snapshot`: the book after it and whether it returned; when it raises, what was done stays. -/
def onSnapshot (b : L2Book Msg) (snapshot : Snapshot) : Bool × L2Book Msg :=
  let b := { b with seqEpoch := b.seqEpoch + 1 }
  match loadSide (snapshot.bids.take MAX_BUFFER) snapshot.bidsPrice snapshot.bidsQty b.bids with
  | (false, bids) => (false, { b with bids })
  | (true, bids) =>
    match loadSide (snapshot.asks.take MAX_BUFFER) snapshot.asksPrice snapshot.asksQty b.asks with
    | (false, asks) => (false, { b with bids, asks })
    | (true, asks) =>
      match snapshot.seq with
      | none => (false, { b with bids, asks })
      | some seq =>
        (true, { b with
          bids
          asks
          expectedSeq := some (seq + 1)
          preSyncQueue := b.preSyncQueue.filter fun d => decide (d.seq > seq) && decide (d.epoch = b.seqEpoch) })

/-- What `on_snapshot` needs of a side to go through. -/
def SideLoads (levels : List Level) (priceArr qtyArr : Option (List ℚ)) : Bool :=
  match priceArr, qtyArr with
  | some priceArr, some qtyArr =>
    let ok := fun arr : List ℚ => decide (levels.length ≤ arr.length) || decide (arr.length = 1)
    ok priceArr && ok qtyArr
  | _, _ => levels.all fun level => match level with
    | some (some _, some _) => true
    | _ => false

/-- What `on_snapshot` needs of a snapshot to return. -/
def Snapshot.wellFormed (snapshot : Snapshot) : Bool :=
  SideLoads (snapshot.bids.take MAX_BUFFER) snapshot.bidsPrice snapshot.bidsQty &&
    SideLoads (snapshot.asks.take MAX_BUFFER) snapshot.asksPrice snapshot.asksQty && snapshot.seq.isSome

theorem fillLevels_fst : ∀ (levels : List Level) (i : ℕ) (s : Side),
    (fillLevels levels i s).1 = SideLoads levels none none
  | [], _, _ => rfl
  | none :: _, _, _ => rfl
  | some (none, _) :: _, _, _ => rfl
  | some (some _, none) :: _, _, _ => rfl
  | some (some _, some _) :: levels, i, s => by
    unfold fillLevels
    rw [fillLevels_fst levels]
    rfl

theorem assignPrefix_isSome (n : ℕ) (arr : List ℚ) (a : ℕ → ℚ) :
    (assignPrefix n arr a).isSome = (decide (n ≤ arr.length) || decide (arr.length = 1)) := by
  unfold assignPrefix
  simp only [List.length_take]
  split
  · have hn : n ≤ arr.length := by omega
    simp [hn]
  · split
    · have hone : arr.length = 1 := by omega
      simp [hone]
    · have hn : ¬ n ≤ arr.length := by omega
      have hone : ¬ arr.length = 1 := by omega
      simp [hn, hone]

theorem loadSide_fst (levels : List Level) (priceArr qtyArr : Option (List ℚ)) (s : Side) :
    (loadSide levels priceArr qtyArr s).1 = SideLoads levels priceArr qtyArr := by
  unfold loadSide
  split
  · rename_i priceArr qtyArr
    have hp := assignPrefix_isSome levels.length priceArr s.price
    have hq := assignPrefix_isSome levels.length qtyArr s.qty
    simp only [SideLoads, ← hp, ← hq]
    cases assignPrefix levels.length priceArr s.price with
    | none => rfl
    | some price => cases assignPrefix levels.length qtyArr s.qty <;> rfl
  · rename_i hnot
    have hfill := fillLevels_fst levels 0 { s with price := fun _ => 0, qty := fun _ => 0 }
    have hloads : SideLoads levels priceArr qtyArr = SideLoads levels none none := by
      cases priceArr with
      | none => rfl
      | some p => cases qtyArr with
        | none => rfl
        | some q => exact absurd rfl (hnot p q rfl)
    rw [hloads, ← hfill]
    split
    · rename_i hs; rw [hs]
    · rename_i hs; rw [hs]

/-- `on_snapshot` returns exactly on the well-formed snapshots; it counts every snapshot it starts on, and a
snapshot it returns from sets `expected_seq` and filters the queue by its own count. -/
theorem onSnapshot_spec (b : L2Book Msg) (snapshot : Snapshot) :
    (onSnapshot b snapshot).1 = snapshot.wellFormed ∧ (onSnapshot b snapshot).2.seqEpoch = b.seqEpoch + 1 ∧
      (snapshot.wellFormed = true → ∃ seq, snapshot.seq = some seq ∧
        (onSnapshot b snapshot).2.expectedSeq = some (seq + 1) ∧
        (onSnapshot b snapshot).2.preSyncQueue =
          b.preSyncQueue.filter fun d => decide (d.seq > seq) && decide (d.epoch = b.seqEpoch + 1)) := by
  have hbids := loadSide_fst (snapshot.bids.take MAX_BUFFER) snapshot.bidsPrice snapshot.bidsQty b.bids
  have hasks := loadSide_fst (snapshot.asks.take MAX_BUFFER) snapshot.asksPrice snapshot.asksQty b.asks
  unfold onSnapshot Snapshot.wellFormed
  dsimp only
  rw [← hbids, ← hasks]
  rcases loadSide (snapshot.bids.take MAX_BUFFER) snapshot.bidsPrice snapshot.bidsQty b.bids with ⟨_ | _, bids⟩
  · exact ⟨rfl, rfl, fun h => by cases h⟩
  · rcases loadSide (snapshot.asks.take MAX_BUFFER) snapshot.asksPrice snapshot.asksQty b.asks with ⟨_ | _, asks⟩
    · exact ⟨rfl, rfl, fun h => by cases h⟩
    · cases snapshot.seq with
      | none => exact ⟨rfl, rfl, fun h => by cases h⟩
      | some seq => exact ⟨rfl, rfl, fun _ => ⟨seq, rfl, rfl, rfl⟩⟩

end MikoV2.DataLayer
