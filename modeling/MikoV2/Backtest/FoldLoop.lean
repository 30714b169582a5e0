import MikoV2.Backtest.WalkForward
import MikoV2.Lib.Loop

/-!
# When the fold loop ends

`_generate_folds` moves by `step_ms`, or by `test_ms` where that is not positive, which need not be positive either.

* `foldRound` : one round of the loop, without a bound on their number;
* `ends_iff_generateFolds` : the loop ends with the windows that `generateFolds` has;
* `Advances` : a positive step, or no room for a first window;
* `reachesCheck_iff_advances` : the loop ends, and `run` reaches its check of `min_folds`, exactly then.
-/

namespace MikoV2.Backtest.WalkForward
open Loop (Ends Exits)

variable {wcfg : WalkForwardConfig} {tsFrom tsTo : ℤ} {windows : List FoldWindow}

/-- One round of the loop of `_generate_folds`; the state is `folds` and `t0`. -/
def foldRound (wcfg : WalkForwardConfig) (tsTo : ℤ) (s : List FoldWindow × ℤ) : Option (List FoldWindow × ℤ) :=
  if (windowAt wcfg s.1.length s.2).testEndMs > tsTo then none
  else some (s.1 ++ [windowAt wcfg s.1.length s.2], s.2 + wcfg.effectiveStepMs)

/-- The bounded loop is this one, where it ends. -/
theorem foldLoop_ends (tsTo : ℤ) : ∀ (fuel : ℕ) (folds : List FoldWindow) (t0 : ℤ) (windows : List FoldWindow),
    foldLoop wcfg tsTo fuel folds.length t0 = some windows →
      ∃ t, Ends (foldRound wcfg tsTo) (folds, t0) (folds ++ windows, t) := by
  intro fuel
  induction fuel with
  | zero =>
    intro folds t0 windows h
    cases h
  | succ fuel ih =>
    intro folds t0 windows h
    unfold foldLoop at h
    split at h
    · rename_i hend
      cases h
      refine ⟨t0, ?_⟩
      rw [List.append_nil]
      exact Ends.done (if_pos hend)
    · rename_i hend
      obtain ⟨rest, hrest, rfl⟩ := Option.map_eq_some_iff.mp h
      obtain ⟨t, ht⟩ :=
        ih (folds ++ [windowAt wcfg folds.length t0]) (t0 + wcfg.effectiveStepMs) rest (by simpa using hrest)
      refine ⟨t, Ends.again (if_neg hend) ?_⟩
      rw [List.append_assoc] at ht
      exact ht

/-- The step is positive, by one of the two parameters it is taken from, or the first window does not fit. -/
def Advances (wcfg : WalkForwardConfig) (tsFrom tsTo : ℤ) : Prop :=
  (∃ stepMs, wcfg.stepMs = some stepMs ∧ 0 < stepMs) ∨ 0 < wcfg.testMs ∨ tsTo < tsFrom + wcfg.trainMs + wcfg.testMs

theorem effectiveStepMs_pos_iff :
    0 < wcfg.effectiveStepMs ↔ (∃ stepMs, wcfg.stepMs = some stepMs ∧ 0 < stepMs) ∨ 0 < wcfg.testMs := by
  unfold WalkForwardConfig.effectiveStepMs
  split
  · rename_i hnone
    simp [hnone]
  · rename_i stepMs hsome
    by_cases hle : stepMs ≤ 0
    · rw [if_pos hle]
      refine ⟨Or.inr, ?_⟩
      rintro (⟨stepMs', hsome', hpos⟩ | htest)
      · rw [hsome] at hsome'
        cases hsome'
        omega
      · exact htest
    · rw [if_neg hle]
      exact ⟨fun hpos => Or.inl ⟨stepMs, hsome, hpos⟩, fun _ => not_le.mp hle⟩

theorem advances_iff : Advances wcfg tsFrom tsTo ↔
    0 < wcfg.effectiveStepMs ∨ tsTo < (windowAt wcfg 0 tsFrom).testEndMs := by
  rw [effectiveStepMs_pos_iff, or_assoc]
  exact Iff.rfl

/-- A loop that advances ends within the bound. -/
theorem generateFolds_of_advances (h : Advances wcfg tsFrom tsTo) :
    ∃ windows, generateFolds wcfg tsFrom tsTo = some windows := by
  rcases advances_iff.mp h with hstep | hfirst
  · exact generateFolds_returns hstep tsFrom tsTo
  · refine ⟨[], ?_⟩
    unfold generateFolds foldLoop
    exact if_pos hfirst

/-- A loop that does not move forward stays where a window fits. -/
theorem not_exits_of_not_advances (h : ¬ Advances wcfg tsFrom tsTo) : ¬ Exits (foldRound wcfg tsTo) ([], tsFrom) := by
  have hboth := mt advances_iff.mpr h
  push Not at hboth
  obtain ⟨hstep, hfirst⟩ := hboth
  refine Loop.not_exits (fun s => s.2 + wcfg.trainMs + wcfg.testMs ≤ tsTo) ?_ hfirst
  intro s hs
  refine ⟨_, if_neg (not_lt.mpr hs), ?_⟩
  show s.2 + wcfg.effectiveStepMs + wcfg.trainMs + wcfg.testMs ≤ tsTo
  omega

theorem exits_iff_advances (wcfg : WalkForwardConfig) (tsFrom tsTo : ℤ) :
    Exits (foldRound wcfg tsTo) ([], tsFrom) ↔ Advances wcfg tsFrom tsTo := by
  constructor
  · intro h
    by_contra hno
    exact not_exits_of_not_advances hno h
  · intro h
    obtain ⟨windows, hwindows⟩ := generateFolds_of_advances h
    obtain ⟨t, ht⟩ := foldLoop_ends tsTo _ [] tsFrom windows hwindows
    exact ⟨_, ht⟩

/-- The bounded loop has the windows with which the loop ends, and none if it does not end. -/
theorem ends_iff_generateFolds :
    (∃ t, Ends (foldRound wcfg tsTo) ([], tsFrom) (windows, t)) ↔ generateFolds wcfg tsFrom tsTo = some windows := by
  constructor
  · rintro ⟨t, ht⟩
    obtain ⟨windows', hwindows'⟩ := generateFolds_of_advances ((exits_iff_advances wcfg tsFrom tsTo).mp ⟨_, ht⟩)
    obtain ⟨t', ht'⟩ := foldLoop_ends tsTo _ [] tsFrom windows' hwindows'
    have hsame : windows = windows' := congrArg Prod.fst (ht.unique ht')
    rw [hsame]
    exact hwindows'
  · exact foldLoop_ends tsTo _ [] tsFrom windows

/-- The fold loop ends, and every run gets to its check of `min_folds`. -/
structure ReachesCheck (wcfg : WalkForwardConfig) (tsFrom tsTo : ℤ) : Prop where
  ends : Exits (foldRound wcfg tsTo) ([], tsFrom)
  run : ∀ cfg scfg dcfg db symbols, run wcfg cfg scfg dcfg db symbols tsFrom tsTo ≠ .error .endless

/-- No later part of a run goes on without end. -/
theorem runFolds_ne_endless {cfg : PositionSim.PositionSimConfig} {scfg : StrategyConfig} {dcfg : DetectorConfig}
    {db : EventDb} {symbols : List String} :
    ∀ windows, runFolds wcfg cfg scfg dcfg db symbols windows ≠ .error .endless := by
  intro windows
  induction windows with
  | nil => exact fun h => by cases h
  | cons window windows ih =>
    unfold runFolds
    split
    · exact fun h => by cases h
    · split
      · exact fun h => by cases h
      · cases hrest : runFolds wcfg cfg scfg dcfg db symbols windows with
        | ok folds => exact fun h => by cases h
        | error e =>
          rw [hrest] at ih
          exact ih

/-- **The fold loop ends** in exactly the configurations and ranges in which it advances. -/
theorem reachesCheck_iff_advances (wcfg : WalkForwardConfig) (tsFrom tsTo : ℤ) :
    ReachesCheck wcfg tsFrom tsTo ↔ Advances wcfg tsFrom tsTo := by
  rw [← exits_iff_advances]
  refine ⟨ReachesCheck.ends, fun hexits => ⟨hexits, ?_⟩⟩
  intro cfg scfg dcfg db symbols hrun
  obtain ⟨windows, hwindows⟩ := generateFolds_of_advances ((exits_iff_advances wcfg tsFrom tsTo).mp hexits)
  unfold run at hrun
  rw [hwindows] at hrun
  dsimp only at hrun
  split at hrun
  · cases hrun
  · cases hfolds : runFolds wcfg cfg scfg dcfg db symbols windows with
    | ok folds =>
      rw [hfolds] at hrun
      cases hrun
    | error e =>
      rw [hfolds] at hrun
      cases hrun
      exact runFolds_ne_endless windows hfolds

/-- A test window of no length, and no step: the loop appends the first window again and again. -/
theorem not_reachesCheck_empty : ¬ ∀ (wcfg : WalkForwardConfig) (tsFrom tsTo : ℤ), ReachesCheck wcfg tsFrom tsTo := by
  intro hall
  have hends := (hall { trainMs := 1000, testMs := 0 } 0 5000).ends
  have hno : ¬ Advances { trainMs := 1000, testMs := 0 } 0 5000 := by
    rintro (⟨stepMs, hsome, -⟩ | htest | hfirst)
    · cases hsome
    · exact absurd htest (by decide)
    · exact absurd hfirst (by decide)
  exact not_exits_of_not_advances hno hends

end MikoV2.Backtest.WalkForward
