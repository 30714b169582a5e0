import MikoV2.Lib.Runs
import MikoV2.Ws.Manager

/-!
# What an event can do

* `bookEpoch`, `snapSeq` : the two numbers of a book that the properties read, and what changes them;
* `FetchSpec` : a fetch that ends marks its symbol synced, whatever it returned;
* `BookFrame` : a message changes levels and queue of its book only;
* `handleMessage_change` : a message is ignored, queued, rejected or accepted;
* `step_change` : all that an event can do, from which every invariant is derived;
* `Change.frame` : what every event but a connection and the end of a fetch leaves alone;
* `AtFetch` : a condition on the fetches that end in a run; `guarded_iff_atFetch` : when it is exact.
-/

namespace MikoV2.Ws
open DataLayer

variable {mode : SeqMode} {w w' : World} {symbol : String} {msg : WsMsg} {epoch : ℕ} {i : ℕ} {outcome : Outcome}

/-- `book.seq_epoch[symbol]`. -/
def bookEpoch (w : World) (symbol : String) : Option ℕ := (w.books symbol).map L2Book.seqEpoch

/-- The sequence number of the snapshot in the book. -/
def snapSeq (w : World) (symbol : String) : Option ℤ :=
  ((w.books symbol).bind L2Book.expectedSeq).map fun next => next - 1

/-! ## Fetches -/

theorem fetchAndApply_other (books : String → Option Book) {s : String} (h : s ≠ symbol) :
    (fetchAndApply books symbol outcome).2 s = books s := by
  unfold fetchAndApply
  split
  · rfl
  · exact Function.update_of_ne h _ _

/-- `fetch_and_apply` returns `True` exactly when the answer is a snapshot that installs. -/
theorem fetchAndApply_fst (books : String → Option Book) :
    (fetchAndApply books symbol outcome).1 = outcome.installs.isSome := by
  unfold fetchAndApply Outcome.installs
  cases outcome.snapshot with
  | none => rfl
  | some snapshot =>
    obtain ⟨hok, -, hseq⟩ := onSnapshot_spec ((books symbol).getD {}) snapshot
    dsimp only
    rw [hok]
    cases hw : snapshot.wellFormed with
    | false => rfl
    | true =>
      obtain ⟨seq, hs, -⟩ := hseq hw
      rw [hs]
      rfl

/-- The book after a snapshot was installed. -/
theorem fetchAndApply_installs (symbol : String) (books : String → Option Book) {seq : ℤ}
    (h : outcome.installs = some seq) :
    ∃ book, (fetchAndApply books symbol outcome).2 symbol = some book ∧
      book.seqEpoch = ((books symbol).map L2Book.seqEpoch).getD 0 + 1 ∧ book.expectedSeq = some (seq + 1) ∧
      ∀ d ∈ book.preSyncQueue, seq < d.seq := by
  unfold Outcome.installs at h
  unfold fetchAndApply
  cases hsnap : outcome.snapshot with
  | none => rw [hsnap] at h; cases h
  | some snapshot =>
    rw [hsnap] at h
    dsimp only at h ⊢
    split at h
    · rename_i hw
      obtain ⟨-, hepoch, hseq⟩ := onSnapshot_spec ((books symbol).getD {}) snapshot
      obtain ⟨seq', hs, hexp, hq⟩ := hseq hw
      have hsame : seq' = seq := Option.some.inj (hs.symm.trans h)
      subst hsame
      refine ⟨_, Function.update_self .., ?_, hexp, ?_⟩
      · rw [hepoch]
        cases books symbol <;> rfl
      · intro d hd
        rw [hq, List.mem_filter, Bool.and_eq_true, decide_eq_true_eq] at hd
        exact hd.2.1
    · cases h

theorem onSnapshot_expectedSeq_of_raise {Msg : Type} (b : L2Book Msg) (snapshot : Snapshot)
    (h : snapshot.wellFormed = false) : (DataLayer.onSnapshot b snapshot).2.expectedSeq = b.expectedSeq := by
  have hok := (onSnapshot_spec b snapshot).1
  rw [h] at hok
  unfold DataLayer.onSnapshot at hok ⊢
  dsimp only at hok ⊢
  split
  · rfl
  · split
    · rfl
    · split
      · rfl
      · rename_i h₁ _ _ h₂ _ _ h₃
        rw [h₁] at hok
        dsimp only at hok
        rw [h₂] at hok
        dsimp only at hok
        rw [h₃] at hok
        cases hok

/-- A fetch that installs nothing leaves the snapshot number of the book. -/
theorem fetchAndApply_not_installs {books : String → Option Book} (h : outcome.installs = none) :
    ((fetchAndApply books symbol outcome).2 symbol).bind L2Book.expectedSeq =
      (books symbol).bind L2Book.expectedSeq := by
  unfold Outcome.installs at h
  unfold fetchAndApply
  cases hsnap : outcome.snapshot with
  | none => rfl
  | some snapshot =>
    rw [hsnap] at h
    dsimp only at h ⊢
    have hraise : snapshot.wellFormed = false := by
      cases hw : snapshot.wellFormed with
      | false => rfl
      | true =>
        obtain ⟨-, -, hseq⟩ := onSnapshot_spec ((books symbol).getD {}) snapshot
        obtain ⟨seq, hs, -⟩ := hseq hw
        rw [hw, if_pos rfl, hs] at h
        cases h
    rw [Function.update_self, Option.bind_some, onSnapshot_expectedSeq_of_raise _ _ hraise]
    cases books symbol <;> rfl

/-- The end of a pending fetch. -/
structure FetchSpec (w w' : World) (f : Fetch) (outcome : Outcome) : Prop where
  books : w'.books = (fetchAndApply w.books f.symbol outcome).2
  synced : w'.synced = Function.update w.synced f.symbol true
  currentEpoch : w'.currentEpoch = w.currentEpoch
  seqStates : w'.seqStates = w.seqStates
  hist : w'.hist = .fetched f outcome.installs.isSome ::
    ((outcome.installs.toList.map fun seq => .installed f.symbol seq (owed w f.symbol seq)) ++ w.hist)

theorem fetchDone_spec {f : Fetch} (h : w.pending[i]? = some f) (outcome : Outcome) :
    FetchSpec w (fetchDone i outcome w) f outcome := by
  unfold fetchDone
  rw [h]
  refine ⟨rfl, rfl, rfl, rfl, ?_⟩
  dsimp only
  rw [fetchAndApply_fst]

/-- Only the book of the fetched symbol changes. -/
theorem FetchSpec.books_other {f : Fetch} (h : FetchSpec w w' f outcome) {s : String} (hs : s ≠ f.symbol) :
    w'.books s = w.books s := by
  rw [h.books]
  exact fetchAndApply_other w.books hs

/-- An installed snapshot bumps the epoch of the book and sets its sequence number. -/
theorem FetchSpec.installed {f : Fetch} {seq : ℤ} (h : FetchSpec w w' f outcome)
    (hseq : outcome.installs = some seq) :
    bookEpoch w' f.symbol = some ((bookEpoch w f.symbol).getD 0 + 1) ∧ snapSeq w' f.symbol = some seq := by
  obtain ⟨book, hbook, hepoch, hexp, -⟩ := fetchAndApply_installs f.symbol w.books hseq
  unfold bookEpoch snapSeq
  rw [h.books, hbook, Option.map_some, hepoch, Option.bind_some, hexp]
  refine ⟨rfl, ?_⟩
  rw [Option.map_some, Int.add_sub_cancel]

/-- A fetch that installs nothing keeps the sequence number of the snapshot in the book. -/
theorem FetchSpec.not_installed {f : Fetch} (h : FetchSpec w w' f outcome) (hnone : outcome.installs = none) :
    snapSeq w' f.symbol = snapSeq w f.symbol := by
  unfold snapSeq
  rw [h.books, fetchAndApply_not_installs hnone]

/-! ## Messages -/

/-- What a message that is queued or applied leaves alone: everything but levels and queue of its book. -/
structure BookFrame (w w' : World) : Prop where
  currentEpoch : w'.currentEpoch = w.currentEpoch
  synced : w'.synced = w.synced
  seqStates : w'.seqStates = w.seqStates
  bookEpoch : ∀ s, bookEpoch w' s = bookEpoch w s
  snapSeq : ∀ s, snapSeq w' s = snapSeq w s

theorem BookFrame.of_same (h₁ : w'.currentEpoch = w.currentEpoch) (h₂ : w'.synced = w.synced)
    (h₃ : w'.seqStates = w.seqStates) (h₄ : w'.books = w.books) : BookFrame w w' := by
  refine ⟨h₁, h₂, h₃, fun s => ?_, fun s => ?_⟩
  · unfold Ws.bookEpoch
    rw [h₄]
  · unfold Ws.snapSeq
    rw [h₄]

theorem BookFrame.of_book {book : Book} (book' : Book) (hbook : w.books symbol = some book)
    (hepoch : book'.seqEpoch = book.seqEpoch) (hseq : book'.expectedSeq = book.expectedSeq) (hist : List Effect) :
    BookFrame w { w with books := Function.update w.books symbol (some book'), hist } := by
  refine ⟨rfl, rfl, rfl, fun s => ?_, fun s => ?_⟩
  · unfold Ws.bookEpoch
    by_cases hs : s = symbol
    · subst hs
      simp [hbook, hepoch]
    · simp [hs]
  · unfold Ws.snapSeq
    by_cases hs : s = symbol
    · subst hs
      simp [hbook, hseq]
    · simp [hs]

theorem applyMessage_frame (symbol : String) (msg : WsMsg) (epoch : ℕ) (w : World) :
    BookFrame w (applyMessage symbol msg epoch w) ∧
      ∃ applied, (applyMessage symbol msg epoch w).hist = .batch symbol msg applied :: w.hist := by
  unfold applyMessage
  cases hbook : w.books symbol with
  | none => exact ⟨.of_same rfl rfl rfl rfl, _, rfl⟩
  | some book =>
    dsimp only
    split
    · rename_i ok book' happ
      have hframe := applyBatch_frame (Or.inl ⟨ok, happ⟩)
      exact ⟨.of_book book' hbook hframe.1 hframe.2.1 _, _, rfl⟩
    · rename_i book' happ
      have hframe := applyBatch_frame (Or.inr happ)
      exact ⟨.of_book book' hbook hframe.1 hframe.2.1 _, _, rfl⟩
    · exact ⟨.of_same rfl rfl rfl rfl, _, rfl⟩

theorem queueMessage_frame (symbol : String) (msg : WsMsg) (epoch : ℕ) (w : World) :
    BookFrame w (queueMessage symbol msg epoch w) ∧
      ((queueMessage symbol msg epoch w).hist = w.hist ∨
        ∃ entry, (queueMessage symbol msg epoch w).hist = .queued symbol entry :: w.hist) := by
  unfold queueMessage
  cases hbook : w.books symbol with
  | none => exact ⟨.of_same rfl rfl rfl rfl, Or.inl rfl⟩
  | some book =>
    dsimp only
    constructor
    · exact .of_book { book with preSyncQueue := book.preSyncQueue ++ [_] } hbook rfl rfl _
    · exact Or.inr ⟨_, rfl⟩

/-! ## All events -/

/-- Nothing changes but the tasks and the pending fetches, and a symbol may lose its synced mark. -/
structure Kept (w w' : World) : Prop where
  currentEpoch : w'.currentEpoch = w.currentEpoch
  seqStates : w'.seqStates = w.seqStates
  books : w'.books = w.books
  hist : w'.hist = w.hist
  synced : ∀ s, w'.synced s = true → w.synced s = true

theorem Kept.refl (w : World) : Kept w w := ⟨rfl, rfl, rfl, rfl, fun _ h => h⟩

theorem resync_kept (symbol : String) (w : World) : Kept w (resync symbol w) := by
  refine ⟨rfl, rfl, rfl, rfl, fun s hs => ?_⟩
  change Function.update w.synced symbol false s = true at hs
  by_cases h : s = symbol
  · subst h
    simp at hs
  · rwa [Function.update_of_ne h] at hs

theorem connect_eq (h : w.tasks symbol = false) :
    connect symbol w =
      { w with
        tasks := Function.update w.tasks symbol true
        currentEpoch := Function.update w.currentEpoch symbol (some ((w.currentEpoch symbol).getD 0 + 1))
        synced := Function.update w.synced symbol false
        seqStates := setEpoch w.seqStates symbol ((w.currentEpoch symbol).getD 0 + 1)
        books := Function.update w.books symbol ((w.books symbol).map fun b => { b with preSyncQueue := [] })
        hist := .connected symbol ((w.currentEpoch symbol).getD 0 + 1) :: w.hist } := by
  unfold connect
  rw [h]
  rfl

/-- All that an event can do. -/
inductive Change (mode : SeqMode) (w : World) : Event → World → Prop
  | kept {e : Event} {w' : World} (h : Kept w w') : Change mode w e w'
  | connected {symbol : String} (h : w.tasks symbol = false) : Change mode w (.connect symbol) (connect symbol w)
  | queued {symbol : String} {msg : WsMsg} {epoch : ℕ} (hepoch : w.currentEpoch symbol = some epoch)
      (hsynced : w.synced symbol = false) : Change mode w (.message symbol msg epoch) (queueMessage symbol msg epoch w)
  | rejected {symbol : String} {msg : WsMsg} {epoch : ℕ} {result : SeqResult} {w' : World}
      (hepoch : w.currentEpoch symbol = some epoch) (hsynced : w.synced symbol = true)
      (hresult : (validate mode w.seqStates symbol epoch msg.firstU msg.finalU).1 = result)
      (hinvalid : result.isValid = false)
      (h : Kept { w with hist := .validated symbol msg result :: w.hist } w') :
      Change mode w (.message symbol msg epoch) w'
  | accepted {symbol : String} {msg : WsMsg} {epoch : ℕ} {result : SeqResult} {st : SeqState}
      (hepoch : w.currentEpoch symbol = some epoch) (hsynced : w.synced symbol = true)
      (hresult : (validate mode w.seqStates symbol epoch msg.firstU msg.finalU).1 = result)
      (hvalid : result.isValid = true) (hst : w.seqStates symbol = some st) (hst_epoch : epoch = st.epoch) :
      Change mode w (.message symbol msg epoch) (applyMessage symbol msg epoch { w with
        seqStates := Function.update w.seqStates symbol (some ⟨finalSeq mode msg.firstU msg.finalU, epoch⟩)
        hist := .validated symbol msg result :: w.hist })
  | fetched {i : ℕ} {outcome : Outcome} {f : Fetch} {w' : World} (hung : w.hung = false)
      (hf : w.pending[i]? = some f) (h : FetchSpec w w' f outcome) : Change mode w (.fetchDone i outcome) w'

theorem handleMessage_change (mode : SeqMode) (symbol : String) (msg : WsMsg) (epoch : ℕ) (w : World) :
    Change mode w (.message symbol msg epoch) (handleMessage mode symbol msg epoch w) := by
  unfold handleMessage
  by_cases hepoch : some epoch = w.currentEpoch symbol
  · rw [if_neg (not_not.mpr hepoch)]
    by_cases hsync : w.synced symbol = false
    · rw [if_pos hsync]
      exact .queued hepoch.symm hsync
    · rw [if_neg hsync]
      rw [Bool.not_eq_false] at hsync
      rcases hv : validate mode w.seqStates symbol epoch msg.firstU msg.finalU with ⟨result, states⟩
      have hresult : (validate mode w.seqStates symbol epoch msg.firstU msg.finalU).1 = result := by rw [hv]
      rcases validate_states hv with ⟨hvalid, hres, ⟨st, hst, hst_epoch⟩, rfl⟩ | ⟨hinvalid, rfl⟩
      · simp only [hres, hvalid, Bool.false_eq_true, if_false, reduceCtorEq]
        exact .accepted hepoch.symm hsync hresult hvalid hst hst_epoch
      · dsimp only
        by_cases hres : result.needsResync = true
        · rw [if_pos hres]
          exact .rejected hepoch.symm hsync hresult hinvalid (resync_kept symbol _)
        · rw [if_neg hres, if_pos hinvalid]
          exact .rejected hepoch.symm hsync hresult hinvalid (.refl _)
  · rw [if_pos hepoch]
    exact .kept (.refl w)

theorem react_change (mode : SeqMode) (hung : w.hung = false) (e : Event) : Change mode w e (react mode w e) := by
  unfold react
  cases e with
  | connect symbol =>
    cases h : w.tasks symbol with
    | false => exact .connected h
    | true =>
      have hsame : connect symbol w = w := if_pos h
      dsimp only
      rw [hsame]
      exact .kept (.refl w)
  | disconnect symbol => exact .kept ⟨rfl, rfl, rfl, rfl, fun _ h => h⟩
  | message symbol msg epoch => exact handleMessage_change mode symbol msg epoch w
  | onSnapshot symbol => exact .kept ⟨rfl, rfl, rfl, rfl, fun _ h => h⟩
  | resync symbol => exact .kept (resync_kept symbol w)
  | fetchDone i outcome =>
    cases hf : w.pending[i]? with
    | none =>
      have hsame : fetchDone i outcome w = w := by
        unfold fetchDone
        rw [hf]
      dsimp only
      rw [hsame]
      exact .kept (.refl w)
    | some f => exact .fetched hung hf (fetchDone_spec hf outcome)
  | fetchCancelled i => exact .kept ⟨rfl, rfl, rfl, rfl, fun _ h => h⟩

theorem step_change (mode : SeqMode) (w : World) (e : Event) : Change mode w e (step mode w e) := by
  unfold step
  split
  · exact .kept (.refl w)
  · rename_i hung
    exact react_change mode (Bool.not_eq_true _ ▸ hung) e

/-- What every event but a connection and the end of a fetch leaves alone. -/
structure Frame (w w' : World) : Prop where
  currentEpoch : w'.currentEpoch = w.currentEpoch
  synced : ∀ s, w'.synced s = true → w.synced s = true
  bookEpoch : ∀ s, bookEpoch w' s = bookEpoch w s
  snapSeq : ∀ s, snapSeq w' s = snapSeq w s
  hist : w.hist <:+ w'.hist

theorem Kept.frame (h : Kept w w') : Frame w w' := by
  have hbook := BookFrame.of_same (w := { w with synced := w'.synced }) h.currentEpoch rfl h.seqStates h.books
  exact ⟨h.currentEpoch, h.synced, hbook.bookEpoch, hbook.snapSeq, h.hist ▸ List.suffix_rfl⟩

theorem BookFrame.frame (h : BookFrame w w') (hhist : w.hist <:+ w'.hist) : Frame w w' :=
  ⟨h.currentEpoch, fun _ hs => h.synced ▸ hs, h.bookEpoch, h.snapSeq, hhist⟩

/-- An event leaves the frame alone, or connects a symbol, or ends a fetch. -/
theorem Change.frame {e : Event} (h : Change mode w e w') :
    Frame w w' ∨ (∃ symbol, w.tasks symbol = false ∧ w' = connect symbol w) ∨
      ∃ i outcome f, e = .fetchDone i outcome ∧ w.hung = false ∧ w.pending[i]? = some f ∧
        FetchSpec w w' f outcome := by
  cases h with
  | kept h => exact Or.inl h.frame
  | connected htask => exact Or.inr (Or.inl ⟨_, htask, rfl⟩)
  | queued =>
    obtain ⟨hframe, hhist⟩ := queueMessage_frame _ _ _ w
    refine Or.inl (hframe.frame ?_)
    rcases hhist with h | ⟨entry, h⟩
    · rw [h]
    · rw [h]
      exact List.suffix_cons _ _
  | rejected _ _ _ _ h =>
    have hframe := h.frame
    exact Or.inl ⟨hframe.currentEpoch, hframe.synced, hframe.bookEpoch, hframe.snapSeq,
      (List.suffix_cons _ _).trans hframe.hist⟩
  | accepted =>
    obtain ⟨hframe, applied, hhist⟩ := applyMessage_frame _ _ _ _
    refine Or.inl ⟨hframe.currentEpoch, fun _ hs => hframe.synced ▸ hs, hframe.bookEpoch, hframe.snapSeq, ?_⟩
    rw [hhist]
    exact (List.suffix_cons _ _).trans (List.suffix_cons _ _)
  | fetched hung hf h => exact Or.inr (Or.inr ⟨_, _, _, rfl, hung, hf, h⟩)

/-! ## Conditions on the fetches that end -/

/-- The condition holds whenever a pending fetch ends. -/
def AtFetch (cond : World → Fetch → Outcome → Prop) (w : World) : Event → Prop
  | .fetchDone i outcome => ∀ f, w.hung = false → w.pending[i]? = some f → cond w f outcome
  | _ => True

/-- A condition on fetches is exact for `Q` when the events that meet it keep an invariant and do what `Q`
asks, and a fetch that ends without it does not. -/
theorem guarded_iff_atFetch {cond : World → Fetch → Outcome → Prop} {I : World → Prop}
    {Q : World → Event → Prop} {events : List Event} (h0 : I w)
    (hkeep : ∀ w, ∀ e ∈ events, I w → AtFetch cond w e → I (step mode w e) ∧ Q w e)
    (hbreak : ∀ w i outcome f, I w → .fetchDone i outcome ∈ events →
      FetchSpec w (step mode w (.fetchDone i outcome)) f outcome → ¬ cond w f outcome → ¬ Q w (.fetchDone i outcome)) :
    Runs.Guarded Q (step mode) w events ↔ Runs.Guarded (AtFetch cond) (step mode) w events := by
  refine Runs.guarded_iff_guarded h0 hkeep fun w e he hI hok => ?_
  cases e with
  | fetchDone i outcome =>
    unfold AtFetch at hok
    push Not at hok
    obtain ⟨f, hung, hf, hcond⟩ := hok
    have hstep : step mode w (.fetchDone i outcome) = fetchDone i outcome w := if_neg (by simp [hung])
    exact hbreak w i outcome f hI he (hstep ▸ fetchDone_spec hf outcome) hcond
  | _ => exact absurd trivial hok

end MikoV2.Ws
