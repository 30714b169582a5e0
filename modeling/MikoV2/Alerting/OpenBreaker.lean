import MikoV2.Alerting.Coherent

/-!
# An open breaker

A drain looks at the breaker once, before its first delivery. What it delivers later from the queue it delivers under
whatever state the deliveries before have left.

* `drainOnce_mode`, `goOn_mode` : the breaker under which a delivery starts;
* `Quiet` : what an open breaker promises of a step; `Outruns` : the step that breaks it; `quiet_iff`;
* `quiet_iff_never_outruns` : over whole runs.
-/

namespace MikoV2.Alerting
open Circuit AlertAgent AlertDb

namespace AlertAgent

section Modes
variable {cfg : AlertConfig} {clk : DrainClock} {a : AlertAgent}

/-- The first delivery of a drain starts closed, or as the test of the breaker. -/
theorem drainOnce_mode (h : (a.drainOnce cfg clk).2.isSome) :
    (a.drainOnce cfg clk).1.breaker.mode = if a.breaker.mode = .closed then .closed else .halfOpen := by
  by_cases hholds : a.breaker.Holds clk.breaker
  · rw [drainOnce_of_holds hholds] at h
    cases h
  · rw [drainOnce_of_not_holds hholds, ← polled_mode hholds]
    split
    · rw [halfOpenTest_breaker]
    · rw [drainClosed_breaker]

/-- Only a drain of the queue goes on, unless its delivery has raised. -/
theorem goOn_starts {kind : JobKind} {result : AttemptEnd} (h : (a.goOn cfg clk kind result).2.isSome) :
    kind = .critical ∧ result ≠ .raised ∧ a.goOn cfg clk kind result = a.drainClosed cfg clk := by
  cases kind with
  | critical =>
    by_cases hraised : result = .raised
    · simp [goOn, hraised] at h
    · exact ⟨rfl, hraised, if_neg hraised⟩
  | batch => cases h
  | probe => cases h

theorem waits_settle {now fail : ℚ} {ids : List ℕ} {result : AttemptEnd}
    (hsending : ∀ id ∈ ids, ∃ severity, a.db.Has id severity .sending) :
    (a.settle cfg fail ids result).Waits cfg now ↔ a.Waits cfg now := by
  unfold Waits BufferDue
  rw [settle_criticalQueue, settle_warningBuffer, settle_batchStartMono]
  simp only [settle_pending hsending]

end Modes

end AlertAgent

namespace AlertWorld

/-- No delivery starts while the breaker is open and its time has not come; and a final failure leaves the breaker open
when the last results are failures, as many as the threshold. -/
structure Quiet (cfg : AlertConfig) (w : AlertWorld) (e : AlertCall) : Prop where
  silent : ∀ d, w.started cfg e = some d → d.startedIn = .opened →
    (step cfg w e).agent.breaker.openUntil ≤ d.startedAt
  opens : (step cfg w e).results = false :: w.results → cfg.breakerFailThreshold ≤ streak (false :: w.results) →
    (step cfg w e).agent.breaker.mode = .opened

/-- A delivery of the queue fails, and opens the breaker; when the drain is about to go on, the time that the breaker
is open has not passed, and something waits. -/
def Outruns (cfg : AlertConfig) (w : AlertWorld) : AlertCall → Prop
  | .finish i answers fail clk => ∃ d error, w.deliveries i = some d ∧ d.job.kind = .critical ∧
      w.outcome cfg d answers = .failed error ∧ w.agent.breaker.Trips cfg.breakerFailThreshold ∧
      clk.start < fail + cfg.breakerOpenS ∧ w.agent.Waits cfg clk.ready
  | _ => False

section Steps
variable {cfg : AlertConfig} {w : AlertWorld} {owner : Owner} {time : ℚ}

theorem suspend_results (r : AlertAgent × Option Job) : (w.suspend owner time r).results = w.results := by
  obtain ⟨a, job⟩ := r
  cases job <;> rfl

theorem suspend_agent_eq (r : AlertAgent × Option Job) : (w.suspend owner time r).agent = r.1 := by
  obtain ⟨a, job⟩ := r
  cases job <;> rfl

theorem toDelivery_some {r : AlertAgent × Option Job} {d : Delivery} (h : toDelivery owner time r = some d) :
    r.2.isSome ∧ d.startedIn = r.1.breaker.mode ∧ d.startedAt = time := by
  obtain ⟨job, hjob, rfl⟩ := Option.map_eq_some_iff.mp h
  exact ⟨by simp [hjob], rfl, rfl⟩

/-- The first delivery of a drain does not start under an open breaker. -/
theorem drainOnce_not_opened {a : AlertAgent} {clk : DrainClock} {d : Delivery}
    (h : toDelivery owner time (a.drainOnce cfg clk) = some d) : d.startedIn ≠ .opened := by
  obtain ⟨hsome, hmode, -⟩ := toDelivery_some h
  rw [hmode, drainOnce_mode hsome]
  split <;> nofun

/-- What does not end a delivery has no result. -/
theorem Coherent.opens (h : w.Coherent cfg) {e : AlertCall}
    (hfail : (AlertWorld.step cfg w e).results = false :: w.results)
    (hmany : cfg.breakerFailThreshold ≤ streak (false :: w.results)) :
    (AlertWorld.step cfg w e).agent.breaker.mode = .opened := by
  have hne : w.results ≠ false :: w.results := fun heq => by simpa using congrArg List.length heq
  cases e with
  | emit eventType p clk => exact absurd hfail hne
  | drainLoop clk =>
    simp only [AlertWorld.step] at hfail
    split at hfail
    · exact absurd hfail hne
    · rw [suspend_results] at hfail
      exact absurd hfail hne
  | sendDirect eventType p emitClk clk =>
    simp only [AlertWorld.step, suspend_results] at hfail
    exact absurd hfail hne
  | stop => exact absurd hfail hne
  | finish i answers fail clk =>
    simp only [AlertWorld.step] at hfail ⊢
    cases hd : w.deliveries i with
    | none =>
      simp only [finish, hd] at hfail
      exact absurd hfail hne
    | some d =>
      rw [finish_eq hd, suspend_results] at hfail
      rw [finish_eq hd, suspend_agent_eq, goOn_breaker]
      cases hresult : w.outcome cfg d answers with
      | sent =>
        rw [hresult] at hfail
        cases hfail
      | raised =>
        rw [hresult] at hfail
        exact absurd hfail hne
      | failed error => exact h.follows.fail_opens h.settled hmany

/-- A drain of the queue that goes on after its delivery. -/
theorem Coherent.finish_silent_iff (h : w.Coherent cfg) {i : ℕ} {d : Delivery} (hi : w.deliveries i = some d)
    (answers : ℕ → RoundAnswers) (fail : ℚ) (clk : DrainClock) :
    (∀ d', w.started cfg (.finish i answers fail clk) = some d' → d'.startedIn = .opened →
      (AlertWorld.step cfg w (.finish i answers fail clk)).agent.breaker.openUntil ≤ d'.startedAt) ↔
        ¬ w.Outruns cfg (.finish i answers fail clk) := by
  have hsending := h.sending i d hi
  have hstocked : (w.agent.settle cfg fail d.job.ids (w.outcome cfg d answers)).Stocked := h.stocked.settle hsending
  have hbreaker : (AlertWorld.step cfg w (.finish i answers fail clk)).agent.breaker =
      (w.agent.settle cfg fail d.job.ids (w.outcome cfg d answers)).breaker := by
    simp only [AlertWorld.step]
    rw [finish_eq hi, suspend_agent_eq, goOn_breaker]
    rfl
  rw [hbreaker, started_finish h hi]
  constructor
  · rintro hsilent ⟨d', error, hd', hkind, hresult, htrips, hearly, hwaits⟩
    rw [hi] at hd'
    cases hd'
    rw [hresult] at hsilent hstocked
    have hgoOn : (w.agent.settle cfg fail d.job.ids (.failed error)).goOn cfg clk d.job.kind (.failed error) =
        (w.agent.settle cfg fail d.job.ids (.failed error)).drainClosed cfg clk := by
      rw [hkind]
      rfl
    have hsome := hstocked.drainClosed_starts_iff.mpr ((waits_settle hsending).mpr hwaits)
    obtain ⟨job, hjob⟩ := Option.isSome_iff_exists.mp hsome
    rw [hgoOn] at hsilent
    have hlate := hsilent _ (by rw [toDelivery, hjob]; rfl)
    rw [drainClosed_breaker, settle_breaker, Breaker.fail_of_trips htrips] at hlate
    exact absurd (hlate rfl) (not_le.mpr hearly)
  · intro hout d' hd' hopen
    obtain ⟨hsome, hmode, htime⟩ := toDelivery_some hd'
    obtain ⟨hkind, hraised, hgoOn⟩ := goOn_starts hsome
    rw [hgoOn] at hsome
    have hwaits := (waits_settle hsending).mp (hstocked.drainClosed_starts_iff.mp hsome)
    rw [hmode, goOn_breaker, settle_breaker] at hopen
    rw [settle_breaker, htime]
    cases hresult : w.outcome cfg d answers with
    | sent =>
      rw [hresult] at hopen
      cases hopen
    | raised => exact absurd hresult hraised
    | failed error =>
      rw [hresult] at hopen
      have htrips := h.settled.fail_opens.mp hopen
      simp only [Breaker.fail_of_trips htrips]
      by_contra hearly
      exact hout ⟨d, error, hi, hkind, hresult, htrips, not_le.mp hearly, hwaits⟩

/-- **One step.** A step is quiet unless it outruns the breaker. -/
theorem quiet_iff (h : w.Coherent cfg) (e : AlertCall) : w.Quiet cfg e ↔ ¬ w.Outruns cfg e := by
  have hopens : (step cfg w e).results = false :: w.results → cfg.breakerFailThreshold ≤ streak (false :: w.results) →
      (step cfg w e).agent.breaker.mode = .opened := fun hfail hmany => h.opens hfail hmany
  cases e with
  | emit eventType p clk => exact ⟨fun _ => id, fun _ => ⟨by simp [started_emit _ _ _ h], hopens⟩⟩
  | stop => exact ⟨fun _ => id, fun _ => ⟨by simp [started_stop h], hopens⟩⟩
  | drainLoop clk =>
    refine ⟨fun _ => id, fun _ => ⟨fun d hd hopen => ?_, hopens⟩⟩
    rw [started_drainLoop h] at hd
    split at hd
    · cases hd
    · exact absurd hopen (drainOnce_not_opened hd)
  | sendDirect eventType p emitClk clk =>
    refine ⟨fun _ => id, fun _ => ⟨fun d hd hopen => ?_, hopens⟩⟩
    rw [started_sendDirect h] at hd
    exact absurd hopen (drainOnce_not_opened hd)
  | finish i answers fail clk =>
    cases hi : w.deliveries i with
    | none =>
      refine ⟨fun _ => ?_, fun _ => ⟨by simp [started_finish_none h hi], hopens⟩⟩
      rintro ⟨d, -, hd, -⟩
      rw [hi] at hd
      cases hd
    | some d =>
      have hsilent := h.finish_silent_iff hi answers fail clk
      exact ⟨fun hquiet => hsilent.mp hquiet.silent, fun hout => ⟨hsilent.mpr hout, hopens⟩⟩

end Steps

/-- **An open breaker.** In a run every step is quiet exactly when no failure of a queued alert that opens the breaker
is followed, in its drain, by another delivery before the breaker's time. -/
theorem quiet_iff_never_outruns (cfg : AlertConfig) (nowMs : ℤ) (db : AlertDb) (es : List AlertCall) :
    Runs.Guarded (Quiet cfg) (step cfg) (start cfg nowMs db) es ↔
      Runs.Guarded (fun w e => ¬ w.Outruns cfg e) (step cfg) (start cfg nowMs db) es := by
  refine Runs.guarded_iff_guarded (coherent_start cfg nowMs db) (fun w e _ h hok => ?_) fun w e _ h hok hquiet => ?_
  · exact ⟨h.step e, (quiet_iff h e).mpr hok⟩
  · exact hok ((quiet_iff h e).mp hquiet)

/-- The loop takes the first of two CRITICAL alerts, and its delivery fails. -/
def secondQueued : List AlertCall :=
  [.emit "CRITICAL_ALERT" {} {}, .emit "CRITICAL_ALERT" {} {}, .drainLoop {},
    .finish 0 (fun _ => ⟨.answered 500 none, .networkError⟩) 0 {}]

/-- With the failure of the first the breaker opens for a minute; the second is sent at the same time. -/
theorem not_quiet_secondQueued :
    ¬ ∀ es, Runs.Guarded (Quiet { breakerFailThreshold := 1 }) (step { breakerFailThreshold := 1 })
      (start { breakerFailThreshold := 1 } 0 AlertDb.empty) es := by
  intro h
  have hquiet := h secondQueued (secondQueued.take 3) _ (List.prefix_refl _)
  have hstarted : ((Runs.run (step { breakerFailThreshold := 1 }) (start { breakerFailThreshold := 1 } 0 AlertDb.empty)
      (secondQueued.take 3)).started { breakerFailThreshold := 1 }
      (.finish 0 (fun _ => ⟨.answered 500 none, .networkError⟩) 0 {})).map (fun d => (d.startedIn, d.startedAt)) =
        some (.opened, 0) := by decide +kernel
  have huntil : (step { breakerFailThreshold := 1 } (Runs.run (step { breakerFailThreshold := 1 })
      (start { breakerFailThreshold := 1 } 0 AlertDb.empty) (secondQueued.take 3))
      (.finish 0 (fun _ => ⟨.answered 500 none, .networkError⟩) 0 {})).agent.breaker.openUntil = 60 := by decide +kernel
  obtain ⟨d, hd, hpair⟩ := Option.map_eq_some_iff.mp hstarted
  obtain ⟨hin, hat⟩ := Prod.mk.inj hpair
  have hlate := hquiet.silent d hd hin
  rw [huntil, hat] at hlate
  exact absurd hlate (by decide +kernel)

end AlertWorld

end MikoV2.Alerting
