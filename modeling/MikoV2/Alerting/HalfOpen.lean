import MikoV2.Alerting.OpenBreaker

/-!
# The test of the breaker

Every drain that finds the breaker half open, or open past its time, takes a pending CRITICAL row and delivers it: it
does not ask whether another drain does the same.

* `Unresolved` : a test has no result yet, or has raised; `OneProbe` : what the half-open state promises of a step;
* `Tests` : the drain that tests the breaker; `starts_iff_tests`, `oneProbe_iff`;
* `oneProbe_iff_never_tests` : over whole runs.
-/

namespace MikoV2.Alerting
open Circuit AlertAgent AlertDb

namespace AlertAgent

section Probes
variable {cfg : AlertConfig} {eventType : String} {p : AlertPayload} {emitClk : EmitClock} {clk : DrainClock}
  {a : AlertAgent}

/-- A CRITICAL row is pending. -/
def HasCritical (a : AlertAgent) : Prop := ∃ id, a.db.Has id .critical .pending

/-- The breaker is half open, or open past its time. -/
def Testable (clk : DrainClock) (a : AlertAgent) : Prop := a.breaker.mode ≠ .closed ∧ ¬ a.breaker.Holds clk.breaker

theorem emit_hasCritical :
    (a.emit cfg eventType p emitClk).HasCritical ↔ getSeverity eventType p.reason = .critical ∨ a.HasCritical := by
  unfold HasCritical
  obtain ⟨e, hsame, ⟨hsev, hemit⟩ | ⟨hsev, hemit⟩ | ⟨hsev, hmerge⟩ | ⟨hsev, hemit⟩⟩ := emit_cases cfg eventType p emitClk a
  · rw [hemit, ← hsame, hsev]
    simp only [emitInfo, has_updateStatus, has_insertEvent]
    constructor
    · rintro ⟨id, ⟨hne, hold | ⟨hid, -, -⟩⟩ | ⟨-, hstatus, -⟩⟩
      · exact .inr ⟨id, hold⟩
      · exact absurd hid hne
      · cases hstatus
    · rintro (hinfo | ⟨id, hold⟩)
      · cases hinfo
      · exact ⟨id, .inl ⟨hold.lt.ne, .inl hold⟩⟩
  · rw [hemit, ← hsame, hsev]
    refine ⟨fun _ => .inl rfl, fun _ => ⟨a.db.nextId, ?_⟩⟩
    exact has_insertEvent.mpr (.inr ⟨rfl, hsev.symm, rfl⟩)
  · rw [(tryDedupMerge_some hmerge).1, ← hsame, hsev]
    simp
  · rw [hemit, ← hsame, hsev]
    simp only [emitWarning, has_insertEvent, hsev]
    simp

/-- A drain delivers as a test of the breaker exactly when the breaker is to be tested and a CRITICAL row is pending. -/
theorem drainOnce_tests_iff :
    ((a.drainOnce cfg clk).2.isSome ∧ (a.drainOnce cfg clk).1.breaker.mode = .halfOpen) ↔
      a.Testable clk ∧ a.HasCritical := by
  unfold Testable HasCritical
  by_cases hholds : a.breaker.Holds clk.breaker
  · rw [drainOnce_of_holds hholds]
    simp [hholds]
  · by_cases hclosed : a.breaker.mode = .closed
    · have hnever : ¬ ((a.drainOnce cfg clk).2.isSome ∧ (a.drainOnce cfg clk).1.breaker.mode = .halfOpen) := by
        rintro ⟨hsome, hmode⟩
        rw [drainOnce_mode hsome, if_pos hclosed] at hmode
        cases hmode
      simp [hnever, hclosed]
    · have hhalf : (a.polled clk).breaker.mode = .halfOpen := by rw [polled_mode hholds, if_neg hclosed]
      rw [drainOnce_of_not_holds hholds, if_pos hhalf, halfOpenTest_breaker, halfOpenTest_starts_iff, polled_db]
      simp [hhalf, hclosed, hholds]

end Probes

end AlertAgent

namespace AlertWorld

/-- A delivery that was started half open is in flight, or has raised and the breaker has not been moved since. -/
def Unresolved (w : AlertWorld) : Prop :=
  (∃ i d, w.deliveries i = some d ∧ d.startedIn = .halfOpen) ∨ w.lostProbe = true

/-- At most one delivery that was started half open is in flight. -/
def Alone (w : AlertWorld) : Prop := ∀ i j d d', w.deliveries i = some d → w.deliveries j = some d' →
  d.startedIn = .halfOpen → d'.startedIn = .halfOpen → i = j

/-- The step leaves one delivery that was started half open, and starts one only when those before are resolved. -/
structure OneProbe (cfg : AlertConfig) (w : AlertWorld) (e : AlertCall) : Prop where
  alone : (step cfg w e).Alone
  resolved : ∀ d, w.started cfg e = some d → d.startedIn = .halfOpen → ¬ w.Unresolved

/-- A drain begins that finds the breaker half open, or open past its time, and a CRITICAL row to test it with. -/
def Tests (w : AlertWorld) : AlertCall → Prop
  | .drainLoop clk => ¬ (w.agent.stopped ∨ w.loopBusy) ∧ w.agent.Testable clk ∧ w.agent.HasCritical
  | .sendDirect eventType p _ clk =>
    w.agent.Testable clk ∧ (getSeverity eventType p.reason = .critical ∨ w.agent.HasCritical)
  | _ => False

section Steps
variable {cfg : AlertConfig} {w : AlertWorld} {owner : Owner} {time : ℚ}

theorem toDelivery_halfOpen {r : AlertAgent × Option Job} :
    (∃ d, toDelivery owner time r = some d ∧ d.startedIn = .halfOpen) ↔ r.2.isSome ∧ r.1.breaker.mode = .halfOpen := by
  obtain ⟨a, job⟩ := r
  cases job <;> simp [toDelivery]

/-- A delivery starts half open exactly when a drain tests the breaker. -/
theorem starts_iff_tests (h : w.Coherent cfg) (e : AlertCall) :
    (∃ d, w.started cfg e = some d ∧ d.startedIn = .halfOpen) ↔ w.Tests e := by
  cases e with
  | emit eventType p clk => simp [started_emit _ _ _ h, Tests]
  | stop => simp [started_stop h, Tests]
  | drainLoop clk =>
    rw [started_drainLoop h]
    by_cases hidle : w.agent.stopped ∨ w.loopBusy
    · simp [hidle, Tests]
    · rw [if_neg hidle, toDelivery_halfOpen, drainOnce_tests_iff]
      simp [hidle, Tests]
  | sendDirect eventType p emitClk clk =>
    have hemit : w.agent.Emitted (w.agent.emit cfg eventType p emitClk) := emit_emitted
    rw [started_sendDirect h, toDelivery_halfOpen, drainOnce_tests_iff, emit_hasCritical]
    simp only [Tests, Testable, hemit.breaker]
  | finish i answers fail clk =>
    cases hi : w.deliveries i with
    | none => simp [started_finish_none h hi, Tests]
    | some d =>
      rw [started_finish h hi, toDelivery_halfOpen]
      simp only [Tests, iff_false, not_and]
      -- after a result the breaker is open or closed
      intro hsome hmode
      obtain ⟨-, hraised, -⟩ := goOn_starts hsome
      rw [goOn_breaker, settle_breaker] at hmode
      cases hresult : w.outcome cfg d answers with
      | sent =>
        rw [hresult] at hmode
        cases hmode
      | failed error =>
        rw [hresult] at hmode
        exact h.settled.fail_mode_ne_halfOpen hmode
      | raised => exact hraised hresult

/-- A delivery in flight after a step was in flight, or has just started. -/
theorem step_deliveries {e : AlertCall} {i : ℕ} {d : Delivery}
    (hd : (step cfg w e).deliveries i = some d) :
    (i = w.nextDelivery ∧ w.started cfg e = some d) ∨ w.deliveries i = some d := by
  have hsuspend : ∀ {v : AlertWorld} {owner time r}, (v.suspend owner time r).deliveries i = some d →
      i = v.nextDelivery ∨ v.deliveries i = some d := by
    intro v owner time r hv
    obtain ⟨a, job⟩ := r
    cases job with
    | none => exact .inr hv
    | some job =>
      by_cases hi : i = v.nextDelivery
      · exact .inl hi
      · exact .inr (by simpa [suspend, hi] using hv)
  have hnew : i = w.nextDelivery → i = w.nextDelivery ∧ w.started cfg e = some d := by
    rintro rfl
    exact ⟨rfl, hd⟩
  cases e with
  | emit eventType p clk => exact .inr hd
  | stop => exact .inr hd
  | drainLoop clk =>
    by_cases hidle : w.agent.stopped ∨ w.loopBusy
    · simp only [step, if_pos hidle] at hd
      exact .inr hd
    · have hrun := hd
      simp only [step, if_neg hidle] at hrun
      exact (hsuspend hrun).imp_left hnew
  | sendDirect eventType p emitClk clk => exact (hsuspend hd).imp_left hnew
  | finish j answers fail clk =>
    have hrun := hd
    simp only [step] at hrun
    cases hj : w.deliveries j with
    | none =>
      simp only [finish, hj] at hrun
      exact .inr hrun
    | some d' =>
      rw [finish_eq hj] at hrun
      rcases hsuspend hrun with hnext | hold
      · refine .inl (hnew (hnext.trans ?_))
        cases w.outcome cfg d' answers <;> rfl
      · right
        by_cases hij : i = j
        · simp [ended, hij] at hold
        · simpa [ended, hij] using hold

/-- **One step.** A step keeps to one test exactly when it does not test the breaker while a test is unresolved. -/
theorem oneProbe_iff (h : w.Coherent cfg) (halone : w.Alone) (e : AlertCall) :
    w.OneProbe cfg e ↔ ¬ (w.Tests e ∧ w.Unresolved) := by
  have hstarts := starts_iff_tests h e
  constructor
  · rintro hone ⟨htests, hunresolved⟩
    obtain ⟨d, hd, hhalf⟩ := hstarts.mpr htests
    exact hone.resolved d hd hhalf hunresolved
  · intro hnot
    have hresolved : ∀ d, w.started cfg e = some d → d.startedIn = .halfOpen → ¬ w.Unresolved :=
      fun d hd hhalf hunresolved => hnot ⟨hstarts.mp ⟨d, hd, hhalf⟩, hunresolved⟩
    refine ⟨fun i j d d' hd hd' hhalf hhalf' => ?_, hresolved⟩
    rcases step_deliveries hd with ⟨hi, hnew⟩ | hold
    · rcases step_deliveries hd' with ⟨hj, -⟩ | hold'
      · rw [hi, hj]
      · exact absurd (.inl ⟨j, d', hold', hhalf'⟩) (hresolved d hnew hhalf)
    · rcases step_deliveries hd' with ⟨hj, hnew'⟩ | hold'
      · exact absurd (.inl ⟨i, d, hold, hhalf⟩) (hresolved d' hnew' hhalf')
      · exact halone i j d d' hold hold' hhalf hhalf'

end Steps

theorem alone_start (cfg : AlertConfig) (nowMs : ℤ) (db : AlertDb) : (start cfg nowMs db).Alone :=
  fun _ _ _ _ hd => absurd hd.symm (Option.some_ne_none _)

/-- **One test at a time.** In a run every step keeps to one test exactly when no drain tests the breaker while a test
is unresolved. -/
theorem oneProbe_iff_never_tests (cfg : AlertConfig) (nowMs : ℤ) (db : AlertDb) (es : List AlertCall) :
    Runs.Guarded (OneProbe cfg) (step cfg) (start cfg nowMs db) es ↔
      Runs.Guarded (fun w e => ¬ (w.Tests e ∧ w.Unresolved)) (step cfg) (start cfg nowMs db) es := by
  have hstart : (start cfg nowMs db).Coherent cfg ∧ (start cfg nowMs db).Alone :=
    ⟨coherent_start cfg nowMs db, alone_start cfg nowMs db⟩
  refine Runs.guarded_iff_guarded (I := fun w => w.Coherent cfg ∧ w.Alone) hstart (fun w e _ h hok => ?_)
    fun w e _ h hok hone => ?_
  · have hone := (oneProbe_iff h.1 h.2 e).mpr hok
    exact ⟨⟨h.1.step e, hone.alone⟩, hone⟩
  · exact hok ((oneProbe_iff h.1 h.2 e).mp hone)

/-- The breaker opens with a failed alert; a minute later two more are sent, a second apart. -/
def twoSenders : List AlertCall :=
  [.sendDirect "CRITICAL_ALERT" {} {} {}, .finish 0 (fun _ => ⟨.answered 500 none, .networkError⟩) 0 {},
    .sendDirect "CRITICAL_ALERT" {} {} { breaker := 60 }, .sendDirect "CRITICAL_ALERT" {} {} { breaker := 61 }]

/-- Both test the breaker, the second before the first has its answer. -/
theorem not_oneProbe_twoSenders :
    ¬ ∀ es, Runs.Guarded (OneProbe { breakerFailThreshold := 1 }) (step { breakerFailThreshold := 1 })
      (start { breakerFailThreshold := 1 } 0 AlertDb.empty) es := by
  intro h
  have hone := h twoSenders (twoSenders.take 3) _ (List.prefix_refl _)
  have hfirst : ((Runs.run (step { breakerFailThreshold := 1 }) (start { breakerFailThreshold := 1 } 0 AlertDb.empty)
      (twoSenders.take 3)).deliveries 1).map (·.startedIn) = some .halfOpen := by decide +kernel
  have hsecond : ((Runs.run (step { breakerFailThreshold := 1 }) (start { breakerFailThreshold := 1 } 0 AlertDb.empty)
      (twoSenders.take 3)).started { breakerFailThreshold := 1 }
      (.sendDirect "CRITICAL_ALERT" {} {} { breaker := 61 })).map (·.startedIn) = some .halfOpen := by decide +kernel
  obtain ⟨d, hd, hhalf⟩ := Option.map_eq_some_iff.mp hfirst
  obtain ⟨d', hd', hhalf'⟩ := Option.map_eq_some_iff.mp hsecond
  exact hone.resolved d' hd' hhalf' (.inl ⟨1, d, hd, hhalf⟩)

end AlertWorld

end MikoV2.Alerting
