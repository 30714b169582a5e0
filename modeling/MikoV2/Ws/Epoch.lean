import MikoV2.Ws.Steps

/-!
# The three epochs

`connect` sets the epoch of the manager and of the validator and leaves the book's; every snapshot raises the
book's and no other.

* `ValidatorFollows` : the validator's epoch is the manager's, in every run;
* `EpochsAgree`, `AcceptedApplied` : while a symbol is synced, the three epochs are equal and an accepted
  message is applied;
* `epochs_iff` : when that is so along a run whose snapshots succeed.
-/

namespace MikoV2.Ws
open DataLayer Runs

variable {mode : SeqMode} {w w' : World} {f : Fetch} {outcome : Outcome} {symbol : String} {msg : WsMsg} {epoch : ℕ}

/-! ## The validator follows the manager -/

def validatorEpoch (w : World) (symbol : String) : Option ℕ := (w.seqStates symbol).map SeqState.epoch

/-- A symbol has a `SeqState` once it has an epoch, and of that epoch. -/
def ValidatorFollows (w : World) : Prop := ∀ symbol, validatorEpoch w symbol = w.currentEpoch symbol

theorem ValidatorFollows.of_same (h : ValidatorFollows w) (hepoch : w'.currentEpoch = w.currentEpoch)
    (hstates : w'.seqStates = w.seqStates) : ValidatorFollows w' := by
  unfold ValidatorFollows validatorEpoch
  rw [hepoch, hstates]
  exact h

theorem ValidatorFollows.update (h : ValidatorFollows w) (hepoch : w'.currentEpoch = w.currentEpoch) {lastU : ℤ}
    (hstates : w'.seqStates = Function.update w.seqStates symbol (some ⟨lastU, epoch⟩))
    (hcurrent : w.currentEpoch symbol = some epoch) : ValidatorFollows w' := by
  intro s
  unfold validatorEpoch
  rw [hepoch, hstates]
  by_cases hs : s = symbol
  · subst hs
    rw [Function.update_self, hcurrent]
    rfl
  · rw [Function.update_of_ne hs]
    exact h s

theorem ValidatorFollows.connect (h : ValidatorFollows w) (htask : w.tasks symbol = false) :
    ValidatorFollows (connect symbol w) := by
  rw [connect_eq htask]
  intro s
  unfold validatorEpoch setEpoch
  dsimp only
  by_cases hs : s = symbol
  · subst hs
    rw [Function.update_self, Function.update_self]
    rfl
  · rw [Function.update_of_ne hs, Function.update_of_ne hs]
    exact h s

theorem ValidatorFollows.step {e : Event} (h : ValidatorFollows w) : ValidatorFollows (step mode w e) := by
  have hchange := step_change mode w e
  generalize Ws.step mode w e = w' at hchange ⊢
  cases hchange with
  | kept hkept => exact h.of_same hkept.currentEpoch hkept.seqStates
  | connected htask => exact h.connect htask
  | queued =>
    obtain ⟨hframe, -⟩ := queueMessage_frame _ _ _ w
    exact h.of_same hframe.currentEpoch hframe.seqStates
  | rejected _ _ _ _ hkept => exact h.of_same hkept.currentEpoch hkept.seqStates
  | accepted hepoch =>
    obtain ⟨hframe, -⟩ := applyMessage_frame _ _ _ _
    exact h.update hframe.currentEpoch hframe.seqStates hepoch
  | fetched _ _ hspec => exact h.of_same hspec.currentEpoch hspec.seqStates

theorem validatorFollows_start (created : String → Bool) : ValidatorFollows (start created) := fun _ => rfl

theorem ValidatorFollows.some (h : ValidatorFollows w) (hepoch : w.currentEpoch symbol = some epoch) :
    ∃ st, w.seqStates symbol = some st ∧ st.epoch = epoch :=
  Option.map_eq_some_iff.mp ((h symbol).trans hepoch)

/-! ## The book -/

/-- Manager, validator and book of a synced symbol have one epoch. -/
def EpochsAgree (w : World) : Prop :=
  ∀ symbol, w.synced symbol = true →
    ∃ epoch, w.currentEpoch symbol = some epoch ∧ validatorEpoch w symbol = some epoch ∧
      bookEpoch w symbol = some epoch

/-- The fetch ends when the epoch of the book is one behind the manager's. -/
def EpochDue (w : World) (f : Fetch) (_ : Outcome) : Prop :=
  w.currentEpoch f.symbol = some ((bookEpoch w f.symbol).getD 0 + 1)

/-- The fetches that end return snapshots that load. -/
def Succeeds : Event → Prop
  | .fetchDone _ outcome => outcome.installs.isSome = true
  | _ => True

theorem EpochsAgree.of_frame (h : EpochsAgree w) (hframe : Frame w w') (hvalidator : ValidatorFollows w') :
    EpochsAgree w' := by
  intro s hs
  obtain ⟨e, hcurrent, -, hbook⟩ := h s (hframe.synced s hs)
  have hcurrent' : w'.currentEpoch s = some e := by rw [hframe.currentEpoch, hcurrent]
  exact ⟨e, hcurrent', (hvalidator s).trans hcurrent', by rw [hframe.bookEpoch, hbook]⟩

theorem EpochsAgree.connect (h : EpochsAgree w) (htask : w.tasks symbol = false) :
    EpochsAgree (connect symbol w) := by
  rw [connect_eq htask]
  intro s hs
  unfold validatorEpoch setEpoch bookEpoch
  dsimp only at hs ⊢
  by_cases hsymbol : s = symbol
  · subst hsymbol
    simp at hs
  · rw [Function.update_of_ne hsymbol] at hs ⊢
    rw [Function.update_of_ne hsymbol, Function.update_of_ne hsymbol]
    exact h s hs

theorem EpochsAgree.fetched {seq : ℤ} (h : EpochsAgree w) (hvalidator : ValidatorFollows w')
    (hspec : FetchSpec w w' f outcome) (hseq : outcome.installs = some seq) (hdue : EpochDue w f outcome) :
    EpochsAgree w' := by
  intro s hs
  by_cases hsymbol : s = f.symbol
  · subst hsymbol
    have hcurrent := hdue
    unfold EpochDue at hcurrent
    rw [← hspec.currentEpoch] at hcurrent
    exact ⟨_, hcurrent, (hvalidator _).trans hcurrent, (hspec.installed hseq).1⟩
  · rw [hspec.synced, Function.update_of_ne hsymbol] at hs
    obtain ⟨e, hcurrent, -, hbook⟩ := h s hs
    have hcurrent' : w'.currentEpoch s = some e := by rw [hspec.currentEpoch, hcurrent]
    refine ⟨e, hcurrent', (hvalidator s).trans hcurrent', ?_⟩
    unfold bookEpoch
    rw [hspec.books_other hsymbol]
    exact hbook

theorem EpochsAgree.step {e : Event} (h : EpochsAgree w) (hvalidator : ValidatorFollows w) (he : Succeeds e)
    (hok : AtFetch EpochDue w e) : EpochsAgree (step mode w e) := by
  have hvalidator' : ValidatorFollows (Ws.step mode w e) := hvalidator.step
  rcases (step_change mode w e).frame with hframe | ⟨symbol, htask, heq⟩ | ⟨i, outcome, f, rfl, hung, hf, hspec⟩
  · exact h.of_frame hframe hvalidator'
  · rw [heq]
    exact h.connect htask
  · obtain ⟨seq, hseq⟩ := Option.isSome_iff_exists.mp he
    exact h.fetched hvalidator' hspec hseq (hok f hung hf)

/-- After a fetch that was not due the epochs differ. -/
theorem not_epochsAgree_of_not_due {seq : ℤ} (hspec : FetchSpec w w' f outcome)
    (hseq : outcome.installs = some seq) (hdue : ¬EpochDue w f outcome) : ¬EpochsAgree w' := by
  intro h
  have hsynced : w'.synced f.symbol = true := by
    rw [hspec.synced]
    exact Function.update_self ..
  obtain ⟨e, hcurrent, -, hbook⟩ := h f.symbol hsynced
  apply hdue
  unfold EpochDue
  rw [← hspec.currentEpoch, hcurrent, ← hbook]
  exact (hspec.installed hseq).1

/-! ## Accepted messages -/

/-- The message is handled, of the current epoch of a synced symbol, and the validator accepts it. -/
structure Accepted (mode : SeqMode) (w : World) (symbol : String) (msg : WsMsg) (epoch : ℕ) : Prop where
  running : w.hung = false
  current : w.currentEpoch symbol = some epoch
  synced : w.synced symbol = true
  valid : (validate mode w.seqStates symbol epoch msg.firstU msg.finalU).1.isValid = true

/-- An accepted message is applied: `apply_batch` returns `True`, and its book is the book. -/
def AcceptedApplied (mode : SeqMode) (w : World) : Event → Prop
  | .message symbol msg epoch => Accepted mode w symbol msg epoch →
      ∃ book book', w.books symbol = some book ∧ applyBatch book msg.diffs epoch = .returned true book' ∧
        (step mode w (.message symbol msg epoch)).books symbol = some book'
  | _ => True

/-- There is room in the book for the batch of an accepted message. -/
def RoomForAccepted (mode : SeqMode) (w : World) : Event → Prop
  | .message symbol msg epoch => Accepted mode w symbol msg epoch →
      ∀ book, w.books symbol = some book → HasRoom book msg.diffs
  | _ => True

theorem Accepted.step_eq (h : Accepted mode w symbol msg epoch) :
    ∃ states hist, step mode w (.message symbol msg epoch) =
      applyMessage symbol msg epoch { w with seqStates := states, hist } := by
  have hstep : step mode w (.message symbol msg epoch) = handleMessage mode symbol msg epoch w :=
    if_neg (by simp [h.running])
  rw [hstep]
  have hvalid := h.valid
  unfold handleMessage
  rw [if_neg (not_not.mpr h.current.symm), if_neg (by simp [h.synced])]
  rcases hv : validate mode w.seqStates symbol epoch msg.firstU msg.finalU with ⟨result, states⟩
  rw [hv] at hvalid
  rcases validate_states hv with ⟨-, hres, -, -⟩ | ⟨hinvalid, -⟩
  · dsimp only
    rw [hres, hvalid]
    exact ⟨_, _, rfl⟩
  · rw [hinvalid] at hvalid
    cases hvalid

/-- An accepted message is applied exactly when the epoch of the book is its own and there is room. -/
theorem acceptedApplied_iff (h : Accepted mode w symbol msg epoch) :
    AcceptedApplied mode w (.message symbol msg epoch) ↔
      ∃ book, w.books symbol = some book ∧ epoch = book.seqEpoch ∧ HasRoom book msg.diffs := by
  unfold AcceptedApplied
  constructor
  · intro happlied
    obtain ⟨book, book', hbook, hret, -⟩ := happlied h
    exact ⟨book, hbook, applyBatch_returned_iff.mp ⟨book', hret⟩⟩
  · rintro ⟨book, hbook, hret⟩ -
    obtain ⟨book', hret⟩ := applyBatch_returned_iff.mpr hret
    refine ⟨book, book', hbook, hret, ?_⟩
    obtain ⟨states, hist, hstep⟩ := h.step_eq
    rw [hstep]
    unfold applyMessage
    dsimp only
    rw [hbook]
    dsimp only
    rw [hret]
    exact Function.update_self ..

theorem EpochsAgree.acceptedApplied {e : Event} (h : EpochsAgree w) (hroom : RoomForAccepted mode w e) :
    AcceptedApplied mode w e := by
  cases e with
  | message symbol msg epoch =>
    intro hacc
    obtain ⟨e, hcurrent, -, hbook⟩ := h symbol hacc.synced
    obtain ⟨book, hsome, hepoch⟩ := Option.map_eq_some_iff.mp hbook
    have he : epoch = e := Option.some.inj (hacc.current.symm.trans hcurrent)
    have happlied : ∃ book, w.books symbol = some book ∧ epoch = book.seqEpoch ∧ HasRoom book msg.diffs :=
      ⟨book, hsome, he.trans hepoch.symm, hroom hacc book hsome⟩
    exact (acceptedApplied_iff hacc).mpr happlied hacc
  | _ => trivial

theorem AcceptedApplied.room {e : Event} (h : AcceptedApplied mode w e) : RoomForAccepted mode w e := by
  cases e with
  | message symbol msg epoch =>
    intro hacc book hbook
    obtain ⟨book', hbook', -, hroom⟩ := (acceptedApplied_iff hacc).mp h
    rw [hbook] at hbook'
    cases hbook'
    exact hroom
  | _ => trivial

/-! ## Runs -/

/-- **Epochs.** Along a run whose snapshots succeed the three epochs of a synced symbol are equal and every
accepted message is applied, exactly when every fetch that ends finds the book one epoch behind the manager
and the book has room for every accepted message. -/
theorem epochs_iff (mode : SeqMode) (created : String → Bool) (events : List Event)
    (hsucceeds : ∀ e ∈ events, Succeeds e) :
    Always EpochsAgree (step mode) (start created) events ∧
        Guarded (AcceptedApplied mode) (step mode) (start created) events ↔
      Guarded (fun w e => AtFetch EpochDue w e ∧ RoomForAccepted mode w e) (step mode) (start created) events := by
  have h0 : EpochsAgree (start created) := fun _ hs => absurd hs Bool.false_ne_true
  rw [always_iff_guarded h0, ← guarded_and]
  apply guarded_iff_guarded (I := fun w => EpochsAgree w ∧ ValidatorFollows w)
  · exact ⟨h0, validatorFollows_start created⟩
  · rintro w e he ⟨hagree, hvalidator⟩ ⟨hdue, hroom⟩
    have hnext : EpochsAgree (step mode w e) := hagree.step hvalidator (hsucceeds e he) hdue
    exact ⟨⟨hnext, hvalidator.step⟩, hnext, hagree.acceptedApplied hroom⟩
  · rintro w e he - hok ⟨hnext, happlied⟩
    apply hok
    refine ⟨?_, happlied.room⟩
    cases e with
    | fetchDone i outcome =>
      intro f hung hf
      by_contra hdue
      obtain ⟨seq, hseq⟩ := Option.isSome_iff_exists.mp (hsucceeds _ he)
      have hstep : step mode w (.fetchDone i outcome) = fetchDone i outcome w := if_neg (by simp [hung])
      exact not_epochsAgree_of_not_due (hstep ▸ fetchDone_spec hf outcome) hseq hdue hnext
    | _ => trivial

/-- The first snapshot of a connection, and an update. -/
def firstSnapshot : List Event :=
  [.connect "BTCUSDT", .onSnapshot "BTCUSDT", .fetchDone 0 (.fetched stubSnapshot),
    .message "BTCUSDT" { U := some 1, u := some 3, diffs := [⟨.bid, 100, 1⟩] } 1]

theorem epochs_firstSnapshot :
    Always EpochsAgree (step .BINANCE) (start fun _ => false) firstSnapshot ∧
      Guarded (AcceptedApplied .BINANCE) (step .BINANCE) (start fun _ => false) firstSnapshot := by
  have hsucceeds : ∀ e ∈ firstSnapshot, Succeeds e := by
    simp [firstSnapshot, Succeeds]
    decide
  refine (epochs_iff .BINANCE (fun _ => false) firstSnapshot hsucceeds).mpr ?_
  have hfetch : (run (step .BINANCE) (start fun _ => false) (firstSnapshot.take 2)).pending[0]? =
      some ⟨"BTCUSDT", some 1⟩ := by decide
  have hroom : ((run (step .BINANCE) (start fun _ => false) (firstSnapshot.take 3)).books "BTCUSDT").map
      (fun b => (b.bids.len, b.asks.len)) = some (0, 0) := by decide
  refine guarded_cons.mpr ⟨⟨trivial, trivial⟩, guarded_cons.mpr ⟨⟨trivial, trivial⟩, guarded_cons.mpr
    ⟨⟨fun f _ hf => ?_, trivial⟩, guarded_cons.mpr ⟨⟨trivial, fun _ book hbook => ?_⟩, guarded_nil⟩⟩⟩⟩
  · have hsame : f = ⟨"BTCUSDT", some 1⟩ := Option.some.inj (hf.symm.trans hfetch)
    rw [hsame]
    unfold EpochDue
    decide
  · apply hasRoom_of_fits
    intro name
    have hlen : (book.bids.len, book.asks.len) = (0, 0) := by
      have hmap := congrArg (Option.map fun b : Book => (b.bids.len, b.asks.len)) hbook
      exact Option.some.inj (hmap.symm.trans hroom)
    injection hlen with hbids hasks
    cases name <;> simp [L2Book.side, hbids, hasks, MAX_BUFFER]

/-- A gap, the resync it causes, and an update that the validator then accepts. -/
def gapResync : List Event :=
  [.connect "BTCUSDT", .onSnapshot "BTCUSDT", .fetchDone 0 (.fetched stubSnapshot),
    .message "BTCUSDT" { U := some 5, u := some 6 } 1, .fetchDone 0 (.fetched stubSnapshot)]

/-- The second snapshot takes the book to epoch 2 while manager and validator stay at 1, and the accepted
update is dropped. -/
theorem not_epochs_gapResync :
    (∀ e ∈ gapResync, Succeeds e) ∧
      ¬Always EpochsAgree (step .BINANCE) (start fun _ => false) gapResync ∧
      ¬Guarded (AcceptedApplied .BINANCE) (step .BINANCE) (start fun _ => false)
        (gapResync ++ [.message "BTCUSDT" { U := some 1, u := some 1, diffs := [⟨.bid, 100, 1⟩] } 1]) := by
  have hcurrent : (run (step .BINANCE) (start fun _ => false) gapResync).currentEpoch "BTCUSDT" = some 1 := by
    decide
  have hbook : bookEpoch (run (step .BINANCE) (start fun _ => false) gapResync) "BTCUSDT" = some 2 := by
    decide
  refine ⟨?_, fun h => ?_, fun h => ?_⟩
  · simp [gapResync, Succeeds]
    decide
  · obtain ⟨e, he, -, hb⟩ := h.last "BTCUSDT" (by decide)
    have h1 : e = 1 := Option.some.inj (he.symm.trans hcurrent)
    have h2 : e = 2 := Option.some.inj (hb.symm.trans hbook)
    omega
  · have happlied := h gapResync _ (List.prefix_refl _)
    have hacc : Accepted .BINANCE (run (step .BINANCE) (start fun _ => false) gapResync) "BTCUSDT"
        { U := some 1, u := some 1, diffs := [⟨.bid, 100, 1⟩] } 1 :=
      ⟨by decide, hcurrent, by decide, by decide⟩
    obtain ⟨book, hsome, hepoch, -⟩ := (acceptedApplied_iff hacc).mp happlied
    unfold bookEpoch at hbook
    rw [hsome, Option.map_some, ← hepoch] at hbook
    cases hbook

end MikoV2.Ws
