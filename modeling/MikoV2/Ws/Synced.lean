import MikoV2.Ws.Steps

/-!
# What `_synced` promises

A symbol should count as synced only when a snapshot was installed for the current connection. The callers of
`fetch_and_apply` catch its exceptions and ignore its result, and do not compare epochs.

* `SyncedMeansInstalled` : the promise;
* `FetchCounts` : the fetch that ends installed a snapshot for the current connection, or one before it did;
* `synced_iff_fetchesCount` : the promise holds along a run exactly when every fetch that ends counts.
-/

namespace MikoV2.Ws
open DataLayer Runs

variable {mode : SeqMode} {w w' : World} {f : Fetch} {outcome : Outcome}

/-- A synced symbol has a `fetch_and_apply` that started after its latest `connect` and returned `True`. -/
def SyncedMeansInstalled (w : World) : Prop :=
  ∀ symbol, w.synced symbol = true → .fetched ⟨symbol, w.currentEpoch symbol⟩ true ∈ w.hist

/-- The fetch installs a snapshot and its symbol was not connected since it started; or such a fetch has
ended before in this connection. -/
def FetchCounts (w : World) (f : Fetch) (outcome : Outcome) : Prop :=
  (outcome.installs.isSome = true ∧ f.startEpoch = w.currentEpoch f.symbol) ∨
    .fetched ⟨f.symbol, w.currentEpoch f.symbol⟩ true ∈ w.hist

theorem SyncedMeansInstalled.mono (h : SyncedMeansInstalled w) (hepoch : w'.currentEpoch = w.currentEpoch)
    (hsynced : ∀ s, w'.synced s = true → w.synced s = true) (hhist : w.hist ⊆ w'.hist) :
    SyncedMeansInstalled w' := by
  intro s hs
  rw [hepoch]
  exact hhist (h s (hsynced s hs))

theorem SyncedMeansInstalled.connect {symbol : String} (h : SyncedMeansInstalled w)
    (htask : w.tasks symbol = false) : SyncedMeansInstalled (connect symbol w) := by
  rw [connect_eq htask]
  intro s hs
  dsimp only at hs ⊢
  by_cases hsymbol : s = symbol
  · subst hsymbol
    simp at hs
  · rw [Function.update_of_ne hsymbol] at hs ⊢
    exact List.mem_cons_of_mem _ (h s hs)

theorem FetchSpec.hist_subset (h : FetchSpec w w' f outcome) : w.hist ⊆ w'.hist := by
  rw [h.hist]
  exact fun _ he => List.mem_cons_of_mem _ (List.mem_append_right _ he)

theorem SyncedMeansInstalled.fetched (h : SyncedMeansInstalled w) (hspec : FetchSpec w w' f outcome)
    (hcounts : FetchCounts w f outcome) : SyncedMeansInstalled w' := by
  intro s hs
  rw [hspec.currentEpoch]
  by_cases hsymbol : s = f.symbol
  · subst hsymbol
    rcases hcounts with ⟨hinstalls, hepoch⟩ | hold
    · have hf : (⟨f.symbol, w.currentEpoch f.symbol⟩ : Fetch) = f := by rw [← hepoch]
      rw [hf, hspec.hist, hinstalls]
      exact List.mem_cons_self
    · exact hspec.hist_subset hold
  · rw [hspec.synced, Function.update_of_ne hsymbol] at hs
    exact hspec.hist_subset (h s hs)

/-- One event. -/
theorem SyncedMeansInstalled.step {e : Event} (h : SyncedMeansInstalled w) (hok : AtFetch FetchCounts w e) :
    SyncedMeansInstalled (step mode w e) := by
  rcases (step_change mode w e).frame with hframe | ⟨symbol, htask, heq⟩ | ⟨i, outcome, f, rfl, hung, hf, hspec⟩
  · exact h.mono hframe.currentEpoch hframe.synced hframe.hist.subset
  · rw [heq]
    exact h.connect htask
  · exact h.fetched hspec (hok f hung hf)

/-- A fetch that does not count breaks the promise. -/
theorem not_synced_of_not_fetchCounts (hspec : FetchSpec w w' f outcome) (hcounts : ¬FetchCounts w f outcome) :
    ¬SyncedMeansInstalled w' := by
  intro h
  have hsynced : w'.synced f.symbol = true := by
    rw [hspec.synced]
    exact Function.update_self ..
  have hmem := h f.symbol hsynced
  rw [hspec.currentEpoch, hspec.hist] at hmem
  apply hcounts
  rcases List.mem_cons.mp hmem with heq | hmem
  · left
    injection heq with hf hok
    refine ⟨hok.symm, ?_⟩
    rw [← hf]
  · right
    rcases List.mem_append.mp hmem with hinst | hold
    · simp at hinst
    · exact hold

/-- **`_synced`.** A synced symbol has an installed snapshot of its current connection, in every state of a
run, exactly when every fetch that ends in the run counts. -/
theorem synced_iff_fetchesCount (mode : SeqMode) (created : String → Bool) (events : List Event) :
    Always SyncedMeansInstalled (Ws.step mode) (start created) events ↔
      Guarded (AtFetch FetchCounts) (Ws.step mode) (start created) events := by
  have h0 : SyncedMeansInstalled (start created) := fun _ hs => absurd hs Bool.false_ne_true
  rw [always_iff_guarded h0]
  apply guarded_iff_atFetch h0
  · intro w e _ h hok
    exact ⟨h.step hok, h.step hok⟩
  · intro w i outcome f _ _ hspec hcounts
    exact not_synced_of_not_fetchCounts hspec hcounts

/-- The token bucket refuses, `fetch_and_apply` returns `False`, and the symbol is marked synced. -/
theorem not_synced_refused :
    ¬Always SyncedMeansInstalled (Ws.step .BINANCE) (start fun _ => false)
      [.connect "BTCUSDT", .onSnapshot "BTCUSDT", .fetchDone 0 .refused] := by
  intro h
  have hmem := h.last "BTCUSDT" (by decide)
  revert hmem
  decide

end MikoV2.Ws
