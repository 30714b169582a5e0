import MikoV2.Observation.Announced
import MikoV2.Paper.Finalize

/-!
# The end of an observation

The completion write may fail while both flags are already set; the next poll then resumes the observation
by itself, and a restart completes it again. The flag that stays set suppresses the close-out of the shutdown.

* `OpensOnlyResumed`, `CompletedOnce`, `ReturnsFlat` : what the end of an observation promises;
* `MarkerSafe` : the completion reaches the row, and the disk before its process ends;
* `FlatWhenFinalized` : a process that returns after the end has nothing open;
* `paperOk_step` : memory and table stay together whatever the observation row does;
* `observation_final` : the promises under their conditions, the last one exactly.
-/

namespace MikoV2.Observation
open PaperMath Store Sqlite Runs
open Paper (Env Feed PaperOk PaperReliable Moves openings feed_moves)

variable {env : Env} {w : World}

/-! ## Promises and conditions -/

/-- Between an auto-finalise and the operator's next 0, no position is opened. -/
def OpensOnlyResumed (env : Env) (w : World) (e : Event) : Prop :=
  w.awaitingOperator = true → openings (step env w e).paper = openings w.paper

/-- One `OBSERVATION_COMPLETED` for the database. -/
def CompletedOnce (w : World) : Prop := completions w ≤ 1

/-- When `run` returns, nothing is open, in memory or in the table. -/
def ReturnsFlat (env : Env) (w : World) (e : Event) : Prop :=
  match e with
  | .live (.shutdown true _ _ _) => w.running = true →
    (step env w e).paper.mem.positions.items = [] ∧ Store.openRows (step env w e).paper.conn.disk = []
  | _ => True

/-- At the end of an observation the statements of its write return; when a process with the flag set ends,
the marker is on the disk, or the write of the clean marker puts it there. -/
def MarkerSafe (env : Env) (w : World) : Event → Prop
  | .live (.check nowMs _) =>
    w.running = true → AutoFinalizes nowMs w → statementsReturn env.faults (w.paper.conn.issued + 1)
  | .live (.shutdown cleanExit _ _ _) => w.running = true → w.autoFinalized = true →
    w.saved.done = true ∨ (cleanExit = true ∧ updateReturns env.faults w.paper.conn.issued)
  | .live .kill => w.running = true → w.autoFinalized = true → w.saved.done = true
  | _ => True

/-- When `run` returns with the flag set, nothing is open. -/
def FlatWhenFinalized (w : World) : Event → Prop
  | .live (.shutdown true _ _ _) => w.running = true → w.autoFinalized = true → w.paper.mem.positions.items = []
  | _ => True

/-! ## Announcements -/

theorem finalize_moves (env : Env) (nowMs : ℤ) (lastPrices : String → Option ℚ) (s : Paper.World) :
    Moves env (fun _ _ => False) False s (Paper.finalize env nowMs lastPrices s) := Paper.finalize_moves ..

theorem handleMicroTriggerEntry_moves (env : Env) (symbol : String) (direction : Direction) (price : ℚ)
    (tsMs monoMs : ℤ) (w : World) : ∃ s, handleMicroTriggerEntry env symbol direction price tsMs monoMs w =
      { w with paper := s } ∧ Moves env (fun _ _ => True) False w.paper s ∧
        (w.observationStopped = true → s = w.paper) := by
  unfold handleMicroTriggerEntry
  split
  · exact ⟨w.paper, rfl, .refl _, fun _ => rfl⟩
  · rename_i hstopped
    exact ⟨_, rfl, Paper.onEntry_moves fun _ _ => trivial, fun h => absurd h hstopped⟩

theorem markCleanShutdown_aside (env : Env) (markMs : ℤ) (w : World) : Aside w (markCleanShutdown env markMs w) := by
  unfold markCleanShutdown
  refine update_aside ?_ w
  exact fun _ => rfl

/-- The close-out marks a clean exit, and finalises the manager when the observation has not. -/
theorem closeOut_spec (env : Env) (cleanExit : Bool) (markMs nowMs : ℤ) (lastPrices : String → Option ℚ) (w : World) :
    ∃ w₁, Aside w w₁ ∧ w₁.observationStopped = w.observationStopped ∧ w₁.autoFinalized = w.autoFinalized ∧
      (cleanExit = true → w₁ = markCleanShutdown env markMs w) ∧
      closeOut env cleanExit markMs nowMs lastPrices w =
        if w₁.autoFinalized then w₁ else { w₁ with paper := Paper.finalize env nowMs lastPrices w₁.paper } := by
  cases cleanExit with
  | true => exact ⟨markCleanShutdown env markMs w, markCleanShutdown_aside env markMs w, rfl, rfl, fun _ => rfl, rfl⟩
  | false => exact ⟨w, .refl w, rfl, rfl, fun hclean => Bool.noConfusion hclean, rfl⟩

theorem Announced.shutdown (h : Announced w) (hrun : w.running = true) {cleanExit : Bool} {markMs nowMs : ℤ}
    {lastPrices : String → Option ℚ}
    (hsafe : w.autoFinalized = true →
      w.saved.done = true ∨ (cleanExit = true ∧ updateReturns env.faults w.paper.conn.issued)) :
    Announced (shutdown env cleanExit markMs nowMs lastPrices w) := by
  obtain ⟨w₁, haside, hstopped, hfinal, hclean, hclose⟩ := closeOut_spec env cleanExit markMs nowMs lastPrices w
  have hmarked : Announced w₁ := h.same haside.toSameColumns (Or.inl hstopped) (Or.inl hfinal)
  unfold Observation.shutdown
  rw [hclose]
  by_cases hdone : w₁.autoFinalized = true
  · rw [if_pos hdone]
    refine hmarked.ended fun _ _ => ?_
    have hseen : w.seen.done = true := h.marked (Or.inr (Or.inr ⟨hrun, hfinal ▸ hdone⟩))
    rcases hsafe (hfinal ▸ hdone) with hsaved | ⟨hexit, hreturns⟩
    · have hdisk : w₁.saved = w.saved ∨ w₁.saved = w.seen := haside.marker.disk
      rcases hdisk with hdisk | hdisk
      · rw [hdisk]
        exact hsaved
      · rw [hdisk]
        exact hseen
    · rw [hclean hexit]
      show (marker (updateState env.faults _ w.paper.conn).2.disk).done = true
      rw [updateState_of_returns hreturns]
      exact hseen
  · rw [if_neg hdone]
    have hmoves := finalize_moves env nowMs lastPrices w₁.paper
    exact (hmarked.same (moves_sameColumns hmoves) (Or.inl rfl) (Or.inl rfl)).ended fun _ hflag => absurd hflag hdone

theorem Announced.step (hread : ∀ n, env.faults n .selectObservation = false) (h : Announced w) (e : Event)
    (hsafe : MarkerSafe env w e) : Announced (step env w e) := by
  cases e with
  | start nowMs =>
    show Announced (if w.running then w else Observation.startup env nowMs w)
    by_cases hrun : w.running = true
    · rw [if_pos hrun]
      exact h
    · rw [if_neg hrun]
      exact h.startup hread (Bool.eq_false_iff.mpr hrun) nowMs
  | operator value => exact h.operator value
  | live l =>
    show Announced (if w.running then liveStep env w l else w)
    by_cases hrun : w.running = true
    · rw [if_pos hrun]
      cases l with
      | poll nowMs =>
        obtain ⟨haside, hstopped, hfinal⟩ := pollObservationStop_spec hread nowMs w
        exact h.same haside.toSameColumns (Or.inr hstopped) (Or.inl hfinal)
      | check nowMs lastPrices =>
        rcases checkAutoFinalize_cases hread nowMs lastPrices w with ⟨-, haside, hstopped, hfinal⟩ | ⟨hends, hstep⟩
        · exact h.same haside.toSameColumns (Or.inl hstopped) hfinal
        · have hcalled := h.same (called_aside w).toSameColumns (Or.inl rfl) (Or.inl rfl)
          show Announced (checkAutoFinalize env nowMs lastPrices w)
          rw [hstep]
          exact hcalled.autoFinalize hrun hends.2.1 (hsafe hrun hends) nowMs lastPrices
      | entry symbol direction price tsMs monoMs =>
        obtain ⟨s, hstep, hmoves, -⟩ := handleMicroTriggerEntry_moves env symbol direction price tsMs monoMs w
        show Announced (handleMicroTriggerEntry env symbol direction price tsMs monoMs w)
        rw [hstep]
        exact h.same (moves_sameColumns hmoves) (Or.inl rfl) (Or.inl rfl)
      | feed f => exact h.same (moves_sameColumns (feed_moves env w.paper f)) (Or.inl rfl) (Or.inl rfl)
      | shutdown cleanExit markMs nowMs lastPrices => exact h.shutdown hrun (hsafe hrun)
      | kill => exact h.ended hsafe
    · rw [if_neg hrun]
      exact h

/-! ## The manager -/

theorem paperOk_aside {w' : World} (h : PaperOk w.paper) (ha : Aside w w') : PaperOk w'.paper :=
  h.of_frame ha.positions (congrArg Paper.Manager.positions ha.mem)

theorem paperOk_ended (h : PaperOk w.paper) : PaperOk (ended w).paper :=
  h.of_frame ⟨h.table.settled.symm, Or.inl rfl⟩ rfl

theorem paperOk_closeOut (hrel : PaperReliable env) (h : PaperOk w.paper) (cleanExit : Bool) (markMs nowMs : ℤ)
    (lastPrices : String → Option ℚ) : PaperOk (closeOut env cleanExit markMs nowMs lastPrices w).paper := by
  obtain ⟨w₁, haside, -, -, -, hclose⟩ := closeOut_spec env cleanExit markMs nowMs lastPrices w
  have hok := paperOk_aside h haside
  rw [hclose]
  split
  · exact hok
  · exact hok.moves hrel (finalize_moves env nowMs lastPrices _)

/-- Memory and table stay together whatever the writes of the observation row do. -/
theorem paperOk_step (hread : ∀ n, env.faults n .selectObservation = false) (hrel : PaperReliable env)
    (h : PaperOk w.paper) (e : Event) : PaperOk (step env w e).paper := by
  cases e with
  | start nowMs =>
    show PaperOk (if w.running then w else startup env nowMs w).paper
    split
    · exact h
    · obtain ⟨haside, -, -⟩ := syncObservationStateOnStartup_spec hread nowMs { w with
        paper := Paper.crash env w.paper, running := true, observationStopped := false, autoFinalized := false }
      exact h.loaded hrel haside.positions
  | operator value => exact h.of_frame (setStopFlag_positions value w.paper.conn) rfl
  | live l =>
    show PaperOk (if w.running then liveStep env w l else w).paper
    split
    · cases l with
      | poll nowMs =>
        obtain ⟨haside, -, -⟩ := pollObservationStop_spec hread nowMs w
        exact paperOk_aside h haside
      | check nowMs lastPrices =>
        rcases checkAutoFinalize_cases hread nowMs lastPrices w with ⟨-, haside, -, -⟩ | ⟨-, hstep⟩
        · exact paperOk_aside h haside
        · show PaperOk (checkAutoFinalize env nowMs lastPrices w).paper
          rw [hstep]
          have hwritten : PaperOk (update env (completed nowMs) (called w)).paper :=
            (paperOk_aside h (called_aside w)).of_frame (updateState_positions ..) rfl
          exact hwritten.moves hrel (finalize_moves env nowMs lastPrices _)
      | entry symbol direction price tsMs monoMs =>
        obtain ⟨s, hstep, hmoves, -⟩ := handleMicroTriggerEntry_moves env symbol direction price tsMs monoMs w
        show PaperOk (handleMicroTriggerEntry env symbol direction price tsMs monoMs w).paper
        rw [hstep]
        exact h.moves hrel hmoves
      | feed f => exact h.moves hrel (feed_moves env w.paper f)
      | shutdown cleanExit markMs nowMs lastPrices =>
        exact paperOk_ended (paperOk_closeOut hrel h cleanExit markMs nowMs lastPrices)
      | kill => exact paperOk_ended h
    · exact h

/-- A process that returns has nothing open exactly when it had nothing open or the flag was clear. -/
theorem returnsFlat_iff (hrel : PaperReliable env) (h : PaperOk w.paper) (e : Event) :
    ReturnsFlat env w e ↔ FlatWhenFinalized w e := by
  unfold ReturnsFlat FlatWhenFinalized
  split
  · rename_i markMs nowMs lastPrices
    refine imp_congr_right fun hrun => ?_
    have hstep : step env w (.live (.shutdown true markMs nowMs lastPrices)) =
        ended (closeOut env true markMs nowMs lastPrices w) := if_pos hrun
    have hok := paperOk_ended (paperOk_closeOut hrel h true markMs nowMs lastPrices)
    obtain ⟨w₁, haside, -, hfinal, -, hclose⟩ := closeOut_spec env true markMs nowMs lastPrices w
    have hpos : w₁.paper.mem.positions = w.paper.mem.positions := congrArg Paper.Manager.positions haside.mem
    have hitems : (closeOut env true markMs nowMs lastPrices w).paper.mem.positions.items = [] ↔
        (w.autoFinalized = true → w.paper.mem.positions.items = []) := by
      rw [hclose, hfinal]
      by_cases hdone : w.autoFinalized = true
      · rw [if_pos hdone, hpos]
        exact ⟨fun hflat _ => hflat, fun hflat => hflat hdone⟩
      · rw [if_neg hdone]
        refine iff_of_true ?_ fun hdone' => absurd hdone' hdone
        exact Paper.finalize_empties hrel.updatePosition hrel.commitClose nowMs lastPrices w₁.paper
    rw [hstep]
    refine ⟨fun hflat => hitems.mp hflat.1, fun hflat => ?_⟩
    have hempty := hitems.mpr hflat
    exact ⟨hempty, hok.flat hempty⟩
  · exact Iff.rfl

/-! ## Openings -/

theorem openings_aside {w' : World} (ha : Aside w w') : openings w'.paper = openings w.paper := by
  unfold openings
  rw [ha.log]

/-- While the operator is awaited only an entry could open a position, and the flag stops it. -/
theorem Announced.opensOnlyResumed (hread : ∀ n, env.faults n .selectObservation = false) (h : Announced w)
    (e : Event) : OpensOnlyResumed env w e := by
  intro hawait
  cases e with
  | start nowMs =>
    show openings (if w.running then w else Observation.startup env nowMs w).paper = openings w.paper
    split
    · rfl
    · obtain ⟨haside, -, -⟩ := syncObservationStateOnStartup_spec hread nowMs { w with
        paper := Paper.crash env w.paper, running := true, observationStopped := false, autoFinalized := false }
      have hloaded : Moves env (fun _ _ => False) True _ (Observation.startup env nowMs w).paper :=
        .one (.loaded trivial)
      have hsynced := openings_aside haside
      exact hloaded.openings_eq.trans hsynced
  | operator value => rfl
  | live l =>
    show openings (if w.running then liveStep env w l else w).paper = openings w.paper
    by_cases hrun : w.running = true
    · rw [if_pos hrun]
      cases l with
      | poll nowMs =>
        obtain ⟨haside, -, -⟩ := pollObservationStop_spec hread nowMs w
        exact openings_aside haside
      | check nowMs lastPrices =>
        rcases checkAutoFinalize_cases hread nowMs lastPrices w with ⟨-, haside, -, -⟩ | ⟨-, hstep⟩
        · exact openings_aside haside
        · show openings (checkAutoFinalize env nowMs lastPrices w).paper = openings w.paper
          rw [hstep]
          exact (finalize_moves env nowMs lastPrices _).openings_eq
      | entry symbol direction price tsMs monoMs =>
        obtain ⟨s, hstep, -, hstopped⟩ := handleMicroTriggerEntry_moves env symbol direction price tsMs monoMs w
        show openings (handleMicroTriggerEntry env symbol direction price tsMs monoMs w).paper = openings w.paper
        rw [hstep, hstopped (h.stopped hrun hawait)]
      | feed f => exact (feed_moves env w.paper f).openings_eq
      | shutdown cleanExit markMs nowMs lastPrices =>
        obtain ⟨w₁, haside, -, -, -, hclose⟩ := closeOut_spec env cleanExit markMs nowMs lastPrices w
        show openings (closeOut env cleanExit markMs nowMs lastPrices w).paper = openings w.paper
        rw [hclose, ← openings_aside haside]
        split
        · rfl
        · exact (finalize_moves env nowMs lastPrices w₁.paper).openings_eq
      | kill => rfl
    · rw [if_neg hrun]

/-! ## The end is final -/

/-- **The end of an observation.** With the reads of the row and the calls on the paper tables not raising: a
process that returns leaves nothing open exactly when none returns with the flag set and a position open; and
when every completion reaches the row, and the disk before its process ends, it is announced once, and nothing
is opened after it until the operator resumes. -/
theorem observation_final (env : Env) (hread : ∀ n, env.faults n .selectObservation = false)
    (hrel : PaperReliable env) (events : List Event) :
    (Guarded (ReturnsFlat env) (step env) (fresh env) events ↔
        Guarded FlatWhenFinalized (step env) (fresh env) events) ∧
      (Guarded (MarkerSafe env) (step env) (fresh env) events →
        Always CompletedOnce (step env) (fresh env) events ∧
          Guarded (OpensOnlyResumed env) (step env) (fresh env) events) := by
  refine ⟨?_, fun hsafe => ?_⟩
  · have hfresh : PaperOk (fresh env).paper := .fresh env
    refine guarded_iff_guarded (I := fun w => PaperOk w.paper) hfresh (fun w e _ h hflat => ?_) fun w e _ h hopen => ?_
    · exact ⟨paperOk_step hread hrel h e, (returnsFlat_iff hrel h e).mpr hflat⟩
    · exact fun hreturns => hopen ((returnsFlat_iff hrel h e).mp hreturns)
  · have halways : Always Announced (step env) (fresh env) events :=
      always_of_guarded (.fresh env) (fun w e h hok => h.step hread e hok) hsafe
    refine ⟨halways.mono fun w h => h.once, fun pre e hpre => ?_⟩
    exact (halways pre ((List.prefix_append pre [e]).trans hpre)).opensOnlyResumed hread e

/-! ## A completion write that fails -/

/-- One call raises: the `UPDATE` of the completion in the run below. -/
def failedMark : Env := ⟨{}, fun n call => decide (n = 11) && decide (call = .updateObservation), fun _ => 0⟩

/-- Sixteen samples, enough for the default ATR. -/
def samples : List Event :=
  (List.range 16).map fun k => .live (.feed (.ohlcv ⟨"BTC_USDT", 5 * k, 5000 * k, 100, 101, 99, 100⟩ 0))

/-- The observation starts, ends after sixty days, and the next poll reads the row. -/
def untilPoll : List Event :=
  [.start 0, .live (.check 1 fun _ => none)] ++ samples ++
    [.live (.check (1 + 60 * DAY_MS) fun _ => none), .live (.poll (1 + 60 * DAY_MS))]

def newEntry : Event := .live (.entry "BTC_USDT" .LONG 100 80000 0)

def processReturns : Event := .live (.shutdown true 0 0 fun _ => none)

/-- An entry, the end of the process, and a second process that completes the observation again. -/
def untilSecondEnd : List Event :=
  untilPoll ++ [newEntry] ++ [processReturns] ++ [.start 0, .live (.check (1 + 60 * DAY_MS) fun _ => none)]

theorem observation_final_failedMark :
    (Guarded (ReturnsFlat failedMark) (step failedMark) (fresh failedMark) untilSecondEnd ↔
        Guarded FlatWhenFinalized (step failedMark) (fresh failedMark) untilSecondEnd) ∧
      (Guarded (MarkerSafe failedMark) (step failedMark) (fresh failedMark) untilSecondEnd →
        Always CompletedOnce (step failedMark) (fresh failedMark) untilSecondEnd ∧
          Guarded (OpensOnlyResumed failedMark) (step failedMark) (fresh failedMark) untilSecondEnd) :=
  observation_final failedMark (fun _ => Bool.and_false _)
    ⟨fun _ => Bool.and_false _, fun _ => Bool.and_false _, fun _ => Bool.and_false _, fun _ => Bool.and_false _,
      fun _ => Bool.and_false _⟩ untilSecondEnd

/-- A position is opened though the operator never wrote, it is left open, and the end is announced twice. -/
theorem not_final_failedMark :
    ¬ Guarded (OpensOnlyResumed failedMark) (step failedMark) (fresh failedMark) untilSecondEnd ∧
      ¬ Always CompletedOnce (step failedMark) (fresh failedMark) untilSecondEnd ∧
      ¬ Guarded (ReturnsFlat failedMark) (step failedMark) (fresh failedMark) untilSecondEnd := by
  refine ⟨fun h => ?_, fun h => ?_, fun h => ?_⟩
  · have hentry := h untilPoll newEntry ((List.prefix_append _ [processReturns]).trans (List.prefix_append _ _))
    revert hentry
    unfold OpensOnlyResumed
    decide +kernel
  · have hlast := h untilSecondEnd (List.prefix_refl _)
    revert hlast
    unfold CompletedOnce
    decide +kernel
  · have hflat := (h (untilPoll ++ [newEntry]) processReturns (List.prefix_append _ _) (by decide +kernel)).1
    revert hflat
    decide +kernel

end MikoV2.Observation
