import MikoV2.Ws.Steps

/-!
# The queue before the snapshot

`on_snapshot` of the buffer keeps the queued updates that are newer than the snapshot; nothing takes them out
of the queue again but a later snapshot or connection.

* `PreSyncApplied` : after a snapshot, `apply_batch` gets the updates it owes and then those accepted since;
* `StaleDiscarded` : the queued updates that are not newer than the snapshot are gone, in every run;
* `NothingOwed`, `preSync_iff` : a run applies what it owes exactly when it never owes anything.
-/

namespace MikoV2.Ws
open DataLayer Runs

variable {mode : SeqMode} {w w' : World} {f : Fetch} {outcome : Outcome} {hist new : List Effect}

/-! ## Calls of `apply_batch` -/

def Effect.call? (symbol : String) : Effect → Option (WsMsg × Applied)
  | .batch s msg applied => if s = symbol then some (msg, applied) else none
  | _ => none

def Effect.accepted? (symbol : String) : Effect → Option WsMsg
  | .validated s msg result => if s = symbol ∧ result.isValid = true then some msg else none
  | _ => none

/-- The messages given to `apply_batch` for a symbol, oldest first, and how they fared. -/
def calls (symbol : String) (hist : List Effect) : List (WsMsg × Applied) :=
  hist.reverse.filterMap (Effect.call? symbol)

/-- The messages of a symbol that the validator accepted, oldest first. -/
def acceptedMsgs (symbol : String) (hist : List Effect) : List WsMsg :=
  hist.reverse.filterMap (Effect.accepted? symbol)

theorem calls_append (symbol : String) (new hist : List Effect) :
    calls symbol (new ++ hist) = calls symbol hist ++ calls symbol new := by
  unfold calls
  rw [List.reverse_append, List.filterMap_append]

theorem acceptedMsgs_append (symbol : String) (new hist : List Effect) :
    acceptedMsgs symbol (new ++ hist) = acceptedMsgs symbol hist ++ acceptedMsgs symbol new := by
  unfold acceptedMsgs
  rw [List.reverse_append, List.filterMap_append]

/-! ## The properties -/

/-- Since any snapshot was installed, `apply_batch` got first the updates owed then, each once, in order and
with success, and then the messages accepted since. -/
def PreSyncApplied (w : World) : Prop :=
  ∀ post symbol seq owed pre, w.hist = post ++ .installed symbol seq owed :: pre →
    ∃ later, calls symbol post = owed.map (fun d => (d.data, .returned true)) ++ later ∧
      later.map Prod.fst = acceptedMsgs symbol post

/-- No queued update survives a snapshot that is not older. -/
def StaleDiscarded (mode : SeqMode) (w : World) : Event → Prop
  | .fetchDone i outcome => ∀ f seq book, w.hung = false → w.pending[i]? = some f → outcome.installs = some seq →
      (step mode w (.fetchDone i outcome)).books f.symbol = some book → ∀ d ∈ book.preSyncQueue, seq < d.seq
  | _ => True

/-- The snapshot that the fetch installs, if any, finds no newer update of the current epoch in the queue. -/
def NothingOwed (w : World) (f : Fetch) (outcome : Outcome) : Prop :=
  ∀ seq, outcome.installs = some seq → owed w f.symbol seq = []

theorem staleDiscarded (mode : SeqMode) (w : World) (e : Event) : StaleDiscarded mode w e := by
  cases e with
  | fetchDone i outcome =>
    intro f seq book hung hf hseq hbook
    have hstep : step mode w (.fetchDone i outcome) = fetchDone i outcome w := if_neg (by simp [hung])
    rw [hstep, (fetchDone_spec hf outcome).books] at hbook
    obtain ⟨book', hbook', -, -, hqueue⟩ := fetchAndApply_installs f.symbol w.books hseq
    rw [hbook'] at hbook
    cases hbook
    exact hqueue
  | _ => trivial

/-! ## Histories -/

/-- No snapshot was owed anything, and since each the calls of `apply_batch` are the accepted messages. -/
def Drained (hist : List Effect) : Prop :=
  ∀ post symbol seq owed pre, hist = post ++ .installed symbol seq owed :: pre →
    owed = [] ∧ (calls symbol post).map Prod.fst = acceptedMsgs symbol post

/-- Effects without a snapshot in which every accepted message has its call. -/
structure Segment (new : List Effect) : Prop where
  no_install : ∀ symbol seq owed, .installed symbol seq owed ∉ new
  paired : ∀ symbol, (calls symbol new).map Prod.fst = acceptedMsgs symbol new

theorem Drained.append (h : Drained hist) (hnew : Segment new) : Drained (new ++ hist) := by
  intro post symbol seq owed pre hsplit
  rcases List.append_eq_append_iff.mp hsplit with ⟨post', hpost, hhist⟩ | ⟨rest, hrest, htail⟩
  · obtain ⟨howed, hpaired⟩ := h post' symbol seq owed pre hhist
    refine ⟨howed, ?_⟩
    rw [hpost, calls_append, acceptedMsgs_append, List.map_append, hpaired, hnew.paired]
  · cases rest with
    | nil =>
      rw [List.append_nil] at hrest
      obtain ⟨howed, -⟩ := h [] symbol seq owed pre htail.symm
      exact ⟨howed, hrest ▸ hnew.paired symbol⟩
    | cons x rest =>
      obtain ⟨rfl, -⟩ := List.cons.inj htail
      exact absurd (hrest ▸ List.mem_append_right _ List.mem_cons_self) (hnew.no_install symbol seq owed)

theorem Drained.installed (h : Drained hist) (symbol : String) (seq : ℤ) :
    Drained (.installed symbol seq [] :: hist) := by
  intro post s S owed pre hsplit
  cases post with
  | nil =>
    injection hsplit with hhead
    injection hhead with _ _ howed
    exact ⟨howed.symm, rfl⟩
  | cons x post =>
    obtain ⟨rfl, hhist⟩ := List.cons.inj hsplit
    obtain ⟨howed, hpaired⟩ := h post s S owed pre hhist
    refine ⟨howed, ?_⟩
    rw [← List.singleton_append, calls_append, acceptedMsgs_append]
    have hcalls : calls s [.installed symbol seq []] = [] := rfl
    have haccepted : acceptedMsgs s [.installed symbol seq []] = [] := rfl
    rw [hcalls, haccepted, List.append_nil, List.append_nil, hpaired]

theorem Drained.preSyncApplied (h : Drained w.hist) : PreSyncApplied w := by
  intro post symbol seq owed pre hsplit
  obtain ⟨rfl, hpaired⟩ := h post symbol seq owed pre hsplit
  exact ⟨_, rfl, hpaired⟩

/-! ## Steps -/

theorem Segment.nil : Segment [] := ⟨fun _ _ _ h => (List.not_mem_nil h).elim, fun _ => rfl⟩

theorem Segment.silent {x : Effect} (hinstall : ∀ symbol seq owed, x ≠ .installed symbol seq owed)
    (hcall : ∀ symbol, x.call? symbol = none) (haccepted : ∀ symbol, x.accepted? symbol = none) : Segment [x] := by
  refine ⟨fun symbol seq owed h => ?_, fun symbol => ?_⟩
  · exact hinstall symbol seq owed (List.mem_singleton.mp h).symm
  · simp [calls, acceptedMsgs, hcall, haccepted]

theorem Segment.accepted {symbol : String} {msg : WsMsg} {result : SeqResult} (hvalid : result.isValid = true)
    (applied : Applied) : Segment [.batch symbol msg applied, .validated symbol msg result] := by
  refine ⟨fun s seq owed h => ?_, fun s => ?_⟩
  · simp at h
  · by_cases hs : symbol = s <;>
      simp [calls, acceptedMsgs, List.filterMap_cons, Effect.call?, Effect.accepted?, hvalid, hs]

/-- What an event adds to the history: a segment, or the end of a fetch. -/
theorem Change.segment {e : Event} (h : Change mode w e w') :
    (∃ new, w'.hist = new ++ w.hist ∧ Segment new) ∨
      ∃ i outcome f, e = .fetchDone i outcome ∧ w.hung = false ∧ w.pending[i]? = some f ∧
        FetchSpec w w' f outcome := by
  cases h with
  | kept h => exact Or.inl ⟨[], h.hist, .nil⟩
  | connected htask =>
    rw [connect_eq htask]
    exact Or.inl ⟨[_], rfl, .silent (fun _ _ _ => nofun) (fun _ => rfl) fun _ => rfl⟩
  | queued =>
    obtain ⟨-, hhist⟩ := queueMessage_frame _ _ _ w
    rcases hhist with hhist | ⟨entry, hhist⟩
    · exact Or.inl ⟨[], hhist, .nil⟩
    · exact Or.inl ⟨[_], hhist, .silent (fun _ _ _ => nofun) (fun _ => rfl) fun _ => rfl⟩
  | rejected _ _ _ hinvalid h =>
    refine Or.inl ⟨[_], h.hist, .silent (fun _ _ _ => nofun) (fun _ => rfl) fun symbol => ?_⟩
    simp [Effect.accepted?, hinvalid]
  | accepted _ _ _ hvalid =>
    obtain ⟨-, applied, hhist⟩ := applyMessage_frame _ _ _ _
    exact Or.inl ⟨[_, _], hhist, .accepted hvalid applied⟩
  | fetched hung hf h => exact Or.inr ⟨_, _, _, rfl, hung, hf, h⟩

theorem FetchSpec.hist_none (h : FetchSpec w w' f outcome) (hnone : outcome.installs = none) :
    w'.hist = [.fetched f false] ++ w.hist := by
  rw [h.hist, hnone]
  rfl

theorem FetchSpec.hist_some {seq : ℤ} (h : FetchSpec w w' f outcome) (hseq : outcome.installs = some seq) :
    w'.hist = [.fetched f true] ++ .installed f.symbol seq (owed w f.symbol seq) :: w.hist := by
  rw [h.hist, hseq]
  rfl

theorem Segment.fetched (f : Fetch) (result : Bool) : Segment [.fetched f result] :=
  .silent (fun _ _ _ => nofun) (fun _ => rfl) fun _ => rfl

theorem Drained.fetched (h : Drained w.hist) (hspec : FetchSpec w w' f outcome) (hok : NothingOwed w f outcome) :
    Drained w'.hist := by
  cases hinst : outcome.installs with
  | none =>
    rw [hspec.hist_none hinst]
    exact h.append (.fetched f false)
  | some seq =>
    rw [hspec.hist_some hinst, hok seq hinst]
    exact (h.installed f.symbol seq).append (.fetched f true)

theorem Drained.step {e : Event} (h : Drained w.hist) (hok : AtFetch NothingOwed w e) :
    Drained (step mode w e).hist := by
  rcases (step_change mode w e).segment with ⟨new, hhist, hnew⟩ | ⟨i, outcome, f, rfl, hung, hf, hspec⟩
  · rw [hhist]
    exact h.append hnew
  · exact h.fetched hspec (hok f hung hf)

/-- What a snapshot owes is not applied when its fetch ends. -/
theorem not_preSyncApplied_of_owed (hspec : FetchSpec w w' f outcome) (hnot : ¬NothingOwed w f outcome) :
    ¬PreSyncApplied w' := by
  intro h
  apply hnot
  intro seq hseq
  obtain ⟨later, hcalls, -⟩ := h [.fetched f true] f.symbol seq _ w.hist (hspec.hist_some hseq)
  have hnil : calls f.symbol [.fetched f true] = [] := rfl
  rw [hnil] at hcalls
  exact List.map_eq_nil_iff.mp (List.append_eq_nil_iff.mp hcalls.symm).1

/-! ## Runs -/

/-- **The queue.** The queued updates newer than an installed snapshot are applied once, in order and first,
and the others discarded, along a run, exactly when no installed snapshot finds such an update. -/
theorem preSync_iff (mode : SeqMode) (created : String → Bool) (events : List Event) :
    Always PreSyncApplied (Ws.step mode) (start created) events ∧
        Guarded (StaleDiscarded mode) (Ws.step mode) (start created) events ↔
      Guarded (AtFetch NothingOwed) (Ws.step mode) (start created) events := by
  have h0 : Drained (start created).hist := by
    intro post symbol seq owed pre hsplit
    cases post <;> cases hsplit
  rw [always_iff_guarded h0.preSyncApplied, ← guarded_and]
  apply guarded_iff_atFetch (I := fun w => Drained w.hist) h0
  · intro w e _ h hok
    have hnext : Drained (Ws.step mode w e).hist := h.step hok
    exact ⟨hnext, hnext.preSyncApplied, staleDiscarded mode w e⟩
  · rintro w i outcome f - - hspec hnot ⟨hnext, -⟩
    exact not_preSyncApplied_of_owed hspec hnot hnext

/-- A reconnection after the first snapshot; an update comes before the second. -/
def queuedThenSnapshot : List Event :=
  [.connect "BTCUSDT", .onSnapshot "BTCUSDT", .fetchDone 0 (.fetched stubSnapshot), .disconnect "BTCUSDT",
    .connect "BTCUSDT", .onSnapshot "BTCUSDT", .message "BTCUSDT" { seq := some 7, diffs := [⟨.bid, 100, 1⟩] } 2,
    .fetchDone 0 (.fetched stubSnapshot)]

/-- The update of epoch 2 is newer than the snapshot and is never given to `apply_batch`. -/
theorem not_preSync_queuedThenSnapshot :
    ¬Always PreSyncApplied (Ws.step .BINANCE) (start fun _ => false) queuedThenSnapshot := by
  intro h
  have hsplit : (run (Ws.step .BINANCE) (start fun _ => false) queuedThenSnapshot).hist =
      [.fetched ⟨"BTCUSDT", some 2⟩ true] ++
        .installed "BTCUSDT" 0 [⟨7, 2, { seq := some 7, diffs := [⟨.bid, 100, 1⟩] }⟩] ::
          (run (Ws.step .BINANCE) (start fun _ => false) queuedThenSnapshot).hist.drop 2 := by decide
  obtain ⟨later, hcalls, -⟩ := h.last _ _ _ _ _ hsplit
  cases hcalls

end MikoV2.Ws
