import MikoV2.Ws.Epoch

/-!
# The validator and the snapshot

A snapshot with sequence number `S` goes to the book; the validator keeps the `last_u` it had, which `connect`
has set to zero.

* `LastUAtLeast`, `BridgeAccepted`, `StaleNeverApplied` : what re-basing the validator on `S` would give;
* `OnBase` : the same, in terms of `last_u`, as a step keeps it;
* `Rebases`, `rebase_iff` : when a run has these properties.
-/

namespace MikoV2.Ws
open DataLayer Runs

variable {mode : SeqMode} {w w' : World} {f : Fetch} {outcome : Outcome} {symbol : String} {msg : WsMsg} {epoch : ℕ}
  {S : ℤ}

/-! ## The first update across the snapshot -/

/-- `U <= S + 1 <= u`. -/
def bridging (S : ℤ) (msg : WsMsg) : Bool := decide (msg.firstU ≤ S + 1) && decide (S + 1 ≤ msg.finalU)

/-- Such a message was validated since the last snapshot of the symbol was installed. -/
def bridged (symbol : String) (S : ℤ) : List Effect → Bool
  | [] => false
  | .installed s _ _ :: hist => decide (s ≠ symbol) && bridged symbol S hist
  | .validated s msg _ :: hist => (decide (s = symbol) && bridging S msg) || bridged symbol S hist
  | .connected .. :: hist => bridged symbol S hist
  | .queued .. :: hist => bridged symbol S hist
  | .batch .. :: hist => bridged symbol S hist
  | .fetched .. :: hist => bridged symbol S hist

theorem bridged_of_validated {hist : List Effect} {s : String} {result : SeqResult}
    (h : bridged symbol S (.validated s msg result :: hist) = false) :
    (s = symbol → bridging S msg = false) ∧ bridged symbol S hist = false := by
  rw [bridged, Bool.or_eq_false_iff, Bool.and_eq_false_iff, decide_eq_false_iff_not] at h
  exact ⟨fun hs => h.1.resolve_left (not_not.mpr hs), h.2⟩

theorem bridged_fetched (hspec : FetchSpec w w' f outcome) (s : String) (S : ℤ) :
    bridged s S w'.hist = ((decide (s ≠ f.symbol) || !outcome.installs.isSome) && bridged s S w.hist) := by
  rw [hspec.hist, bridged]
  cases outcome.installs with
  | none => simp
  | some seq =>
    simp only [Option.toList_some, List.map_cons, List.map_nil, List.cons_append, List.nil_append, bridged]
    simp [eq_comm]

/-! ## The properties -/

/-- The validator of a synced symbol is not behind the snapshot in its book. -/
def LastUAtLeast (w : World) : Prop :=
  ∀ symbol S, w.synced symbol = true → snapSeq w symbol = some S →
    ∃ st, w.seqStates symbol = some st ∧ S ≤ st.lastU

/-- Until one has come since the snapshot, the validator of a synced symbol would accept every update with
`U <= S + 1 <= u`. -/
def BridgeAccepted (mode : SeqMode) (w : World) : Prop :=
  ∀ symbol S, w.synced symbol = true → snapSeq w symbol = some S → bridged symbol S w.hist = false →
    ∀ msg epoch, w.currentEpoch symbol = some epoch → bridging S msg = true →
      (validate mode w.seqStates symbol epoch msg.firstU msg.finalU).1.isValid = true

/-- The validator of every synced symbol is re-based on the snapshot in its book. -/
def ValidatorRebased (mode : SeqMode) (w : World) : Prop :=
  LastUAtLeast w ∧ (mode = .BINANCE → BridgeAccepted mode w)

/-- The levels of a book. -/
def levels (w : World) (symbol : String) : Option (Side × Side) := (w.books symbol).map fun b => (b.bids, b.asks)

/-- A message not newer than the snapshot is not accepted and leaves the levels of the book. -/
def StaleNeverApplied (mode : SeqMode) (w : World) : Event → Prop
  | .message symbol msg epoch => ∀ S, snapSeq w symbol = some S → finalSeq mode msg.firstU msg.finalU ≤ S →
      ¬Accepted mode w symbol msg epoch ∧
        levels (step mode w (.message symbol msg epoch)) symbol = levels w symbol
  | _ => True

/-- The validator of a synced symbol is at the snapshot or past it; in `BINANCE` mode past it only after an
update across it. -/
def OnBase (mode : SeqMode) (w : World) : Prop :=
  ∀ symbol S, w.synced symbol = true → snapSeq w symbol = some S →
    ∃ st, w.seqStates symbol = some st ∧ S ≤ st.lastU ∧
      (mode = .BINANCE → bridged symbol S w.hist = false → st.lastU = S)

/-- When the fetch ends the validator happens to be at the snapshot that is then in the book, or past it where
that is harmless. -/
def Rebases (mode : SeqMode) (w : World) (f : Fetch) (outcome : Outcome) : Prop :=
  ∀ S, outcome.installs.or (snapSeq w f.symbol) = some S →
    ∃ st, w.seqStates f.symbol = some st ∧ S ≤ st.lastU ∧
      (mode = .BINANCE → (!outcome.installs.isSome && bridged f.symbol S w.hist) = false → st.lastU = S)

theorem onBase_iff (hvalidator : ValidatorFollows w) : ValidatorRebased mode w ↔ OnBase mode w := by
  constructor
  · rintro ⟨hlast, hbridge⟩ s S hs hS
    obtain ⟨st, hst, hle⟩ := hlast s S hs hS
    refine ⟨st, hst, hle, fun hmode hfresh => ?_⟩
    have hepoch : w.currentEpoch s = some st.epoch := by
      rw [← hvalidator s]
      unfold validatorEpoch
      rw [hst]
      rfl
    have hvalid := hbridge hmode s S hs hS hfresh { U := some (S + 1), u := some (S + 1) } st.epoch hepoch
      (by simp [bridging, WsMsg.firstU, WsMsg.finalU])
    rw [validate_isValid hst, hmode] at hvalid
    have hlt : st.lastU < S + 1 := hvalid.2.1
    omega
  · intro h
    refine ⟨fun s S hs hS => ?_, fun hmode s S hs hS hfresh msg epoch hepoch hmsg => ?_⟩
    · obtain ⟨st, hst, hle, -⟩ := h s S hs hS
      exact ⟨st, hst, hle⟩
    · obtain ⟨st, hst, -, heq⟩ := h s S hs hS
      have hlast := heq hmode hfresh
      obtain ⟨st', hst', hepoch'⟩ := hvalidator.some hepoch
      rw [hst] at hst'
      cases hst'
      rw [bridging, Bool.and_eq_true, decide_eq_true_eq, decide_eq_true_eq] at hmsg
      rw [validate_isValid hst, hmode]
      refine ⟨hepoch'.symm, ?_, fun _ => ?_⟩
      · show st.lastU < msg.finalU
        omega
      · omega

/-! ## Steps -/

theorem OnBase.of_same (h : OnBase mode w) (hsynced : ∀ s, w'.synced s = true → w.synced s = true)
    (hsnap : ∀ s, snapSeq w' s = snapSeq w s) (hstates : w'.seqStates = w.seqStates)
    (hhist : ∀ s S, bridged s S w'.hist = false → bridged s S w.hist = false) : OnBase mode w' := by
  intro s S hs hS
  rw [hsnap] at hS
  rw [hstates]
  obtain ⟨st, hst, hle, heq⟩ := h s S (hsynced s hs) hS
  exact ⟨st, hst, hle, fun hmode hfresh => heq hmode (hhist s S hfresh)⟩

theorem OnBase.connect (h : OnBase mode w) (htask : w.tasks symbol = false) : OnBase mode (connect symbol w) := by
  rw [connect_eq htask]
  intro s S hs hS
  unfold setEpoch
  unfold snapSeq at hS
  dsimp only at hs hS ⊢
  rw [bridged]
  by_cases hsymbol : s = symbol
  · subst hsymbol
    simp at hs
  · rw [Function.update_of_ne hsymbol] at hs hS ⊢
    exact h s S hs hS

theorem OnBase.accepted {result : SeqResult} {st : SeqState} (h : OnBase mode w)
    (hsynced : w.synced symbol = true)
    (hresult : (validate mode w.seqStates symbol epoch msg.firstU msg.finalU).1 = result)
    (hvalid : result.isValid = true) (hst : w.seqStates symbol = some st) :
    OnBase mode { w with
      seqStates := Function.update w.seqStates symbol (some ⟨finalSeq mode msg.firstU msg.finalU, epoch⟩)
      hist := .validated symbol msg result :: w.hist } := by
  rw [← hresult, validate_isValid hst] at hvalid
  obtain ⟨-, hnew, hnext⟩ := hvalid
  intro s S hs hS
  by_cases hsymbol : s = symbol
  · subst hsymbol
    obtain ⟨st', hst', hle, heq⟩ := h s S hs hS
    rw [hst] at hst'
    cases hst'
    refine ⟨_, Function.update_self .., ?_, fun hmode hfresh => ?_⟩
    · show S ≤ finalSeq mode msg.firstU msg.finalU
      omega
    · -- an update that is accepted right at the snapshot is one across it
      obtain ⟨hbridging, hold⟩ := bridged_of_validated hfresh
      have hlast := heq hmode hold
      have hfirst := hnext hmode
      subst hmode
      have hfinal : st.lastU < msg.finalU := hnew
      have hmsg : bridging S msg = true := by
        rw [bridging, Bool.and_eq_true, decide_eq_true_eq, decide_eq_true_eq]
        omega
      rw [hbridging rfl] at hmsg
      cases hmsg
  · dsimp only
    rw [Function.update_of_ne hsymbol]
    obtain ⟨st', hst', hle, heq⟩ := h s S hs hS
    exact ⟨st', hst', hle, fun hmode hfresh => heq hmode (bridged_of_validated hfresh).2⟩

/-- The snapshot number of the fetched symbol after the fetch. -/
theorem FetchSpec.snapSeq (hspec : FetchSpec w w' f outcome) :
    Ws.snapSeq w' f.symbol = outcome.installs.or (Ws.snapSeq w f.symbol) := by
  cases hinst : outcome.installs with
  | none => exact hspec.not_installed hinst
  | some seq => exact (hspec.installed hinst).2

theorem OnBase.fetched (h : OnBase mode w) (hspec : FetchSpec w w' f outcome) (hok : Rebases mode w f outcome) :
    OnBase mode w' := by
  intro s S hs hS
  rw [hspec.seqStates, bridged_fetched hspec]
  by_cases hsymbol : s = f.symbol
  · subst hsymbol
    rw [hspec.snapSeq] at hS
    obtain ⟨st, hst, hle, heq⟩ := hok S hS
    refine ⟨st, hst, hle, fun hmode hfresh => heq hmode ?_⟩
    simpa using hfresh
  · rw [hspec.synced, Function.update_of_ne hsymbol] at hs
    have hsame : Ws.snapSeq w' s = Ws.snapSeq w s := by
      unfold Ws.snapSeq
      rw [hspec.books_other hsymbol]
    rw [hsame] at hS
    obtain ⟨st, hst, hle, heq⟩ := h s S hs hS
    refine ⟨st, hst, hle, fun hmode hfresh => heq hmode ?_⟩
    simpa [hsymbol] using hfresh

theorem OnBase.step {e : Event} (h : OnBase mode w) (hok : AtFetch (Rebases mode) w e) :
    OnBase mode (step mode w e) := by
  have hchange := step_change mode w e
  generalize Ws.step mode w e = w' at hchange ⊢
  cases hchange with
  | kept hkept =>
    exact h.of_same hkept.synced hkept.frame.snapSeq hkept.seqStates fun s S hfresh => hkept.hist ▸ hfresh
  | connected htask => exact h.connect htask
  | queued =>
    obtain ⟨hframe, hhist⟩ := queueMessage_frame _ _ _ w
    refine h.of_same (fun _ hs => hframe.synced ▸ hs) hframe.snapSeq hframe.seqStates fun s S hfresh => ?_
    rcases hhist with hhist | ⟨entry, hhist⟩
    · rwa [hhist] at hfresh
    · rwa [hhist, bridged] at hfresh
  | rejected _ _ _ _ hkept =>
    refine h.of_same hkept.synced hkept.frame.snapSeq hkept.seqStates fun s S hfresh => ?_
    rw [hkept.hist] at hfresh
    exact (bridged_of_validated hfresh).2
  | accepted _ hsynced hresult hvalid hst =>
    obtain ⟨hframe, applied, hhist⟩ := applyMessage_frame _ _ _ _
    refine (h.accepted hsynced hresult hvalid hst).of_same (fun _ hs => hframe.synced ▸ hs) hframe.snapSeq
      hframe.seqStates fun s S hfresh => ?_
    rwa [hhist, bridged] at hfresh
  | fetched hung hf hspec => exact h.fetched hspec (hok _ hung hf)

/-- A fetch that does not re-base leaves the validator off the snapshot. -/
theorem not_onBase_of_not_rebases (hspec : FetchSpec w w' f outcome) (hnot : ¬Rebases mode w f outcome) :
    ¬OnBase mode w' := by
  intro h
  apply hnot
  intro S hS
  have hsynced : w'.synced f.symbol = true := by
    rw [hspec.synced]
    exact Function.update_self ..
  rw [← hspec.snapSeq] at hS
  obtain ⟨st, hst, hle, heq⟩ := h f.symbol S hsynced hS
  rw [hspec.seqStates] at hst
  refine ⟨st, hst, hle, fun hmode hfresh => heq hmode ?_⟩
  rw [bridged_fetched hspec]
  simpa using hfresh

/-- A message that is not accepted leaves the levels of every book. -/
theorem levels_of_not_accepted (h : ¬Accepted mode w symbol msg epoch) :
    levels (step mode w (.message symbol msg epoch)) symbol = levels w symbol := by
  unfold step
  by_cases hung : w.hung = true
  · rw [if_pos hung]
  · rw [if_neg hung]
    unfold react
    dsimp only
    have hchange := handleMessage_change mode symbol msg epoch w
    generalize handleMessage mode symbol msg epoch w = w' at hchange ⊢
    unfold levels
    cases hchange with
    | kept hkept => rw [hkept.books]
    | queued =>
      unfold queueMessage
      cases hbook : w.books symbol with
      | none =>
        dsimp only
        rw [hbook]
      | some book =>
        dsimp only
        rw [Function.update_self]
        rfl
    | rejected _ _ _ _ hkept => rw [hkept.books]
    | accepted hepoch hsynced hresult hvalid =>
      exact absurd ⟨Bool.eq_false_of_not_eq_true hung, hepoch, hsynced, hresult ▸ hvalid⟩ h

theorem OnBase.staleNeverApplied {e : Event} (h : OnBase mode w) : StaleNeverApplied mode w e := by
  cases e with
  | message symbol msg epoch =>
    intro S hS hstale
    have hrejected : ¬Accepted mode w symbol msg epoch := by
      intro hacc
      obtain ⟨st, hst, hle, -⟩ := h symbol S hacc.synced hS
      have hvalid := hacc.valid
      rw [validate_isValid hst] at hvalid
      omega
    exact ⟨hrejected, levels_of_not_accepted hrejected⟩
  | _ => trivial

/-! ## Runs -/

/-- **Re-basing.** While a symbol is synced its validator is not behind the snapshot in the book and accepts
the first update across it, and no older message is applied, exactly when every fetch that ends finds the
validator where the snapshot needs it. -/
theorem rebase_iff (mode : SeqMode) (created : String → Bool) (events : List Event) :
    Always (ValidatorRebased mode) (step mode) (start created) events ∧
        Guarded (StaleNeverApplied mode) (step mode) (start created) events ↔
      Guarded (AtFetch (Rebases mode)) (step mode) (start created) events := by
  have h0 : OnBase mode (start created) := fun _ _ hs _ => absurd hs Bool.false_ne_true
  have hv0 := validatorFollows_start created
  rw [always_iff_guarded ((onBase_iff hv0).mpr h0), ← guarded_and]
  apply guarded_iff_atFetch (I := fun w => OnBase mode w ∧ ValidatorFollows w) ⟨h0, hv0⟩
  · rintro w e - ⟨h, hv⟩ hok
    have hnext := h.step hok
    have hvnext : ValidatorFollows (Ws.step mode w e) := hv.step
    exact ⟨⟨hnext, hvnext⟩, (onBase_iff hvnext).mpr hnext, h.staleNeverApplied⟩
  · rintro w i outcome f ⟨-, hv⟩ - hspec hnot ⟨hnext, -⟩
    exact not_onBase_of_not_rebases hspec hnot ((onBase_iff hv.step).mp hnext)

/-- A first snapshot at 100. -/
def snapshotAhead : List Event :=
  [.connect "BTCUSDT", .onSnapshot "BTCUSDT", .fetchDone 0 (.fetched { seq := some 100 })]

/-- Updates up to 50, a gap, and the snapshot of the stub, at 0. -/
def snapshotBehind : List Event :=
  [.connect "BTCUSDT", .onSnapshot "BTCUSDT", .fetchDone 0 (.fetched stubSnapshot),
    .message "BTCUSDT" { U := some 1, u := some 50 } 1, .message "BTCUSDT" { U := some 60, u := some 61 } 1,
    .fetchDone 0 (.fetched stubSnapshot)]

/-- After a snapshot at 100 an update up to 50 is accepted; after a gap at 50 and a snapshot at 0 the update
from 1 to 1 is not. -/
theorem not_rebased_snapshots :
    ¬Always LastUAtLeast (step .BINANCE) (start fun _ => false) snapshotAhead ∧
      ¬Guarded (StaleNeverApplied .BINANCE) (step .BINANCE) (start fun _ => false)
        (snapshotAhead ++ [.message "BTCUSDT" { U := some 1, u := some 50 } 1]) ∧
      ¬Always (BridgeAccepted .BINANCE) (step .BINANCE) (start fun _ => false) snapshotBehind := by
  refine ⟨fun h => ?_, fun h => ?_, fun h => ?_⟩
  · have hst : (run (step .BINANCE) (start fun _ => false) snapshotAhead).seqStates "BTCUSDT" = some ⟨0, 1⟩ := by
      decide
    obtain ⟨st, hst', hle⟩ := h.last "BTCUSDT" 100 (by decide) (by decide)
    rw [hst] at hst'
    cases hst'
    exact absurd hle (by decide)
  · obtain ⟨hrejected, -⟩ := h snapshotAhead _ (List.prefix_refl _) 100 (by decide) (by decide)
    exact hrejected ⟨by decide, by decide, by decide, by decide⟩
  · have hvalid := h.last "BTCUSDT" 0 (by decide) (by decide) (by decide)
      { U := some 1, u := some 1 } 1 (by decide) (by decide)
    revert hvalid
    decide

end MikoV2.Ws
