import MikoV2.Lib.Runs
import MikoV2.Lib.Since
import MikoV2.Universe.Scanner

/-!
# Demotions over whole runs

A symbol waits for its demotion from a pending time, which a refresh that finds it in the top five clears, and one that
finds it back in the top ten does not.

* `Below` : the rank of a symbol is worse than a status; `demoted_iff` : when a refresh demotes;
* `DemotesAfterAbsence` : every demotion follows an absence as long as the hysteresis;
* `PendingTop5` : the invariant of the symbols in the top five;
* `StaleWait` : a wait that is older than the absence;
* `demotesAfterAbsence_iff` : when every demotion of a run follows its absence.
-/

namespace MikoV2.Universe

/-- A call of `refresh`, with its clock. -/
abbrev RefreshCall := List SymbolMetrics × ℤ

def refreshStep (cfg : ScannerConfig) (u : UniverseScanner) (call : RefreshCall) : UniverseScanner :=
  (refresh cfg call.1 call.2 u).scanner

def UniverseStatus.level : UniverseStatus → ℕ
  | .inTop5 => 4
  | .inTop10 => 3
  | .outsidePending => 2
  | .dropped => 1
  | .unknown => 0

/-- The level of a target: in the top five, in the top ten, or in none. -/
def targetLevel (target5 target10 : Bool) : ℕ :=
  if target5 then UniverseStatus.inTop5.level else if target10 then UniverseStatus.inTop10.level else 0

/-- The target of the symbol is worse than the status. -/
def Below (cfg : ScannerConfig) (symbol : String) (status : UniverseStatus) (call : RefreshCall) : Prop :=
  let t := targets cfg call.1
  targetLevel (decide (symbol ∈ t.top5)) (decide (symbol ∈ t.top10)) < status.level

instance (cfg : ScannerConfig) (symbol : String) (status : UniverseStatus) : DecidablePred (Below cfg symbol status) :=
  fun _ => inferInstanceAs (Decidable (_ < _))

/-- From a status in the top five or in the top ten to a lower one. -/
def Demoted (before after : UniverseStatus) : Prop :=
  (before = .inTop5 ∨ before = .inTop10) ∧ after.level < before.level

instance (before after : UniverseStatus) : Decidable (Demoted before after) := inferInstanceAs (Decidable (_ ∧ _))

/-- A symbol is demoted only when every refresh from one at least the hysteresis ago on, this one included, has found its
target worse than the status it leaves. -/
def DemotesAfterAbsence (cfg : ScannerConfig) (symbol : String) (calls : List RefreshCall) : Prop :=
  ∀ pre call, pre ++ [call] <+: calls →
    let u := Runs.run (refreshStep cfg) {} pre
    Demoted (getStatus symbol u) (getStatus symbol (refreshStep cfg u call)) →
      ∃ since ≤ call.2 - cfg.hysteresisMs,
        Since.HeldSince (Below cfg symbol (getStatus symbol u)) Prod.snd (pre ++ [call]) since

/-- The wait of a symbol in the top ten is over, and its absence is shorter than the hysteresis. -/
def StaleWait (cfg : ScannerConfig) (symbol : String) (pre : List RefreshCall) (call : RefreshCall) : Prop :=
  let state := (Runs.run (refreshStep cfg) {} pre).stateOf symbol
  (state.status = .inTop10 ∧ Below cfg symbol .inTop10 call) ∧
    (state.pendingSinceMs ≠ 0 ∧ cfg.hysteresisMs ≤ call.2 - state.pendingSinceMs ∧
      state.isFlapping cfg call.2 = false) ∧
    call.2 - (Since.since (Below cfg symbol .inTop10) Prod.snd pre).getD call.2 < cfg.hysteresisMs

theorem level_le_inTop5 (status : UniverseStatus) : status.level ≤ UniverseStatus.inTop5.level := by
  cases status <;> decide

/-! ## One symbol, in one refresh -/

namespace SymbolState
variable {cfg : ScannerConfig} {nowMs : ℤ} {state : SymbolState} {target5 target10 : Bool} {lower : UniverseStatus}

/-- The wait of the symbol is over. -/
def Due (cfg : ScannerConfig) (nowMs : ℤ) (state : SymbolState) : Prop :=
  cfg.hysteresisMs ≤ nowMs - (state.startPending nowMs).pendingSinceMs ∧ state.isFlapping cfg nowMs = false

theorem startPending_status : (state.startPending nowMs).status = state.status := by
  unfold startPending
  split <;> rfl

theorem startPending_isFlapping : (state.startPending nowMs).isFlapping cfg nowMs = state.isFlapping cfg nowMs := by
  unfold startPending
  split <;> rfl

theorem startPending_pendingSinceMs : (state.startPending nowMs).pendingSinceMs =
    if state.pendingSinceMs = 0 then nowMs else state.pendingSinceMs := by
  unfold startPending
  split <;> rfl

theorem recordFlap_pendingSinceMs : (state.recordFlap cfg nowMs).pendingSinceMs = state.pendingSinceMs := by
  unfold recordFlap
  dsimp only
  split <;> rfl

theorem fallTo_of_due (h : state.Due cfg nowMs) : (state.fallTo cfg nowMs lower).status = lower := by
  unfold fallTo
  dsimp only
  rw [startPending_isFlapping, if_neg]
  rw [not_or, not_lt, Bool.not_eq_true]
  exact h

theorem fallTo_of_not_due (h : ¬ state.Due cfg nowMs) : (state.fallTo cfg nowMs lower).status = state.status := by
  unfold fallTo
  dsimp only
  rw [startPending_isFlapping, if_pos]
  · exact startPending_status
  · by_contra hnot
    rw [not_or, not_lt, Bool.not_eq_true] at hnot
    exact h hnot

theorem fallTo_pendingSinceMs : (state.fallTo cfg nowMs lower).pendingSinceMs =
    (state.startPending nowMs).pendingSinceMs := by
  unfold fallTo
  dsimp only
  split
  · rfl
  · exact recordFlap_pendingSinceMs

/-- A symbol that falls is demoted when its wait is over. -/
theorem fallTo_demoted_iff (hstatus : state.status = .inTop5 ∨ state.status = .inTop10)
    (hlower : lower.level < state.status.level) :
    Demoted state.status (state.fallTo cfg nowMs lower).status ↔ state.Due cfg nowMs := by
  by_cases hdue : state.Due cfg nowMs
  · rw [fallTo_of_due hdue]
    exact iff_of_true ⟨hstatus, hlower⟩ hdue
  · rw [fallTo_of_not_due hdue]
    exact iff_of_false (fun h => lt_irrefl _ h.2) hdue

/-- **Demotions.** A symbol is demoted when it is below its status and its wait is over. -/
theorem demoted_iff (hstatus : state.status = .inTop5 ∨ state.status = .inTop10) :
    Demoted state.status (state.transition cfg nowMs target5 target10).status ↔
      targetLevel target5 target10 < state.status.level ∧ state.Due cfg nowMs := by
  have hfall : ∀ lower, state.transition cfg nowMs target5 target10 = state.fallTo cfg nowMs lower →
      lower.level < state.status.level → targetLevel target5 target10 < state.status.level →
      (Demoted state.status (state.transition cfg nowMs target5 target10).status ↔
        targetLevel target5 target10 < state.status.level ∧ state.Due cfg nowMs) := by
    intro lower heq hlower hbelow
    rw [heq, fallTo_demoted_iff hstatus hlower]
    exact (and_iff_right hbelow).symm
  cases target5 with
  | true =>
    -- up at once
    have hup : (state.transition cfg nowMs true target10).status = .inTop5 := rfl
    rw [hup]
    exact iff_of_false (fun h => absurd h.2 (level_le_inTop5 _).not_gt) fun h => absurd h.1 (level_le_inTop5 _).not_gt
  | false =>
    rcases hstatus with h5 | h10
    · cases target10 with
      | true =>
        apply hfall .inTop10
        · simp [transition, h5]
        · rw [h5]
          decide
        · rw [h5]
          decide
      | false =>
        apply hfall .outsidePending
        · simp [transition, h5]
        · rw [h5]
          decide
        · rw [h5]
          decide
    · cases target10 with
      | true =>
        have hstays : (state.transition cfg nowMs false true).status = .inTop10 := by simp [transition, h10]
        rw [hstays, h10]
        exact iff_of_false (fun h => absurd h.2 (by decide)) (fun h => absurd h.1 (by decide))
      | false =>
        apply hfall .outsidePending
        · simp [transition, h10]
        · rw [h10]
          decide
        · rw [h10]
          decide

/-- A symbol in the top five after a refresh was cleared by it, or was there before and waits. -/
theorem pending_of_inTop5 (h : (state.transition cfg nowMs target5 target10).status = .inTop5) :
    (state.transition cfg nowMs target5 target10).pendingSinceMs = 0 ∨
      (target5 = false ∧ state.status = .inTop5 ∧
        (state.transition cfg nowMs target5 target10).pendingSinceMs = (state.startPending nowMs).pendingSinceMs) := by
  cases target5 with
  | true => exact .inl rfl
  | false =>
    right
    by_cases h5 : state.status = .inTop5
    · refine ⟨rfl, h5, ?_⟩
      cases target10 with
      | true => simp [transition, h5, fallTo_pendingSinceMs]
      | false => simp [transition, h5, fallTo_pendingSinceMs]
    · refine absurd h ?_
      cases target10 with
      | true => by_cases hout : state.status = .outsidePending <;> simp [transition, h5, hout]
      | false =>
        by_cases h10 : state.status = .inTop10
        · have hfall : state.transition cfg nowMs false false = state.fallTo cfg nowMs .outsidePending := by
            simp [transition, h10]
          rw [hfall]
          by_cases hdue : state.Due cfg nowMs
          · rw [fallTo_of_due hdue]
            exact UniverseStatus.noConfusion
          · rwa [fallTo_of_not_due hdue]
        · by_cases hout : state.status = .outsidePending
          · by_cases hlong : nowMs - state.pendingSinceMs ≥ cfg.maxPendingMs <;> simp [transition, hout, hlong]
          · simp [transition, h5, h10, hout]

/-- A wait that is over belongs to an absence of the hysteresis, unless it is stale. -/
theorem due_absent_iff {since : ℤ} (hnow : since ≤ nowMs) :
    (state.Due cfg nowMs → since ≤ nowMs - cfg.hysteresisMs) ↔
      ¬ ((state.pendingSinceMs ≠ 0 ∧ cfg.hysteresisMs ≤ nowMs - state.pendingSinceMs ∧
        state.isFlapping cfg nowMs = false) ∧ nowMs - since < cfg.hysteresisMs) := by
  unfold Due
  rw [startPending_pendingSinceMs]
  constructor
  · rintro hdue ⟨⟨hne, hwait, hflap⟩, hshort⟩
    rw [if_neg hne] at hdue
    have habsent := hdue ⟨hwait, hflap⟩
    omega
  · rintro hfresh ⟨hwait, hflap⟩
    by_contra hlate
    by_cases hzero : state.pendingSinceMs = 0
    · rw [if_pos hzero] at hwait
      omega
    · rw [if_neg hzero] at hwait
      exact hfresh ⟨⟨hzero, hwait, hflap⟩, by omega⟩

end SymbolState

/-! ## The refreshes of a run -/

/-- What a symbol in the top five waits from is a refresh since which it has been below. -/
def PendingTop5 (cfg : ScannerConfig) (symbol : String) (calls : List RefreshCall) (u : UniverseScanner) : Prop :=
  (u.stateOf symbol).status = .inTop5 → (u.stateOf symbol).pendingSinceMs ≠ 0 →
    Since.HeldSince (Below cfg symbol .inTop5) Prod.snd calls (u.stateOf symbol).pendingSinceMs

section Refreshes
variable {cfg : ScannerConfig} {symbol : String} {calls : List RefreshCall} {u : UniverseScanner}

theorem PendingTop5.step (h : PendingTop5 cfg symbol calls u) (call : RefreshCall) :
    PendingTop5 cfg symbol (calls ++ [call]) (refreshStep cfg u call) := by
  intro hstatus hpending
  obtain htrans | ⟨-, hnone⟩ := stateOf_refresh cfg call.1 call.2 u symbol
  · unfold refreshStep at hstatus hpending ⊢
    rw [htrans] at hstatus hpending ⊢
    obtain hzero | ⟨hout, h5, hsince⟩ := SymbolState.pending_of_inTop5 hstatus
    · exact absurd hzero hpending
    · have hbelow : Below cfg symbol .inTop5 call := by
        unfold Below
        dsimp only
        rw [hout]
        generalize decide (symbol ∈ (targets cfg call.1).top10) = target10
        cases target10 <;> decide
      rw [hsince, SymbolState.startPending_pendingSinceMs]
      refine Since.heldSince_concat.mpr ⟨hbelow, ?_⟩
      split
      case isTrue => exact .inl rfl
      case isFalse hwaits => exact .inr (h h5 hwaits)
  · unfold refreshStep at hstatus
    rw [hnone] at hstatus
    cases hstatus

theorem pendingTop5_run (cfg : ScannerConfig) (symbol : String) (calls : List RefreshCall) :
    PendingTop5 cfg symbol calls (Runs.run (refreshStep cfg) {} calls) := by
  refine Runs.history_invariant ?_ (fun pre call h => h.step call) calls
  intro hstatus
  cases hstatus

/-- With times in order, the absence is as long as the hysteresis when it began by then. -/
theorem heldSince_iff {call : RefreshCall} (hbelow : Below cfg symbol .inTop10 call)
    (htimes : (calls ++ [call]).Pairwise fun earlier later => earlier.2 ≤ later.2) (bound : ℤ) :
    (∃ since ≤ bound, Since.HeldSince (Below cfg symbol .inTop10) Prod.snd (calls ++ [call]) since) ↔
      (Since.since (Below cfg symbol .inTop10) Prod.snd calls).getD call.2 ≤ bound := by
  rw [Since.since_le_iff htimes, Since.since_concat, if_pos hbelow]
  constructor
  · rintro ⟨since, hle, hsince⟩
    rw [Option.some.inj hsince]
    exact hle
  · intro hle
    exact ⟨_, hle, rfl⟩

theorem since_le_now {call : RefreshCall} (hbelow : Below cfg symbol .inTop10 call)
    (htimes : (calls ++ [call]).Pairwise fun earlier later => earlier.2 ≤ later.2) :
    (Since.since (Below cfg symbol .inTop10) Prod.snd calls).getD call.2 ≤ call.2 :=
  (heldSince_iff hbelow htimes call.2).mp ⟨call.2, le_refl _, Since.heldSince_concat.mpr ⟨hbelow, .inl rfl⟩⟩

/-- What a demotion from the top five waited from is a refresh of its absence. -/
theorem PendingTop5.justified {call : RefreshCall} (h : PendingTop5 cfg symbol calls u)
    (h5 : (u.stateOf symbol).status = .inTop5) (hbelow : Below cfg symbol .inTop5 call)
    (hdue : (u.stateOf symbol).Due cfg call.2) :
    ∃ since ≤ call.2 - cfg.hysteresisMs,
      Since.HeldSince (Below cfg symbol .inTop5) Prod.snd (calls ++ [call]) since := by
  obtain ⟨hwait, -⟩ := hdue
  rw [SymbolState.startPending_pendingSinceMs] at hwait
  by_cases hzero : (u.stateOf symbol).pendingSinceMs = 0
  · rw [if_pos hzero] at hwait
    exact ⟨call.2, by omega, Since.heldSince_concat.mpr ⟨hbelow, .inl rfl⟩⟩
  · rw [if_neg hzero] at hwait
    exact ⟨_, by omega, Since.heldSince_concat.mpr ⟨hbelow, .inr (h h5 hzero)⟩⟩

/-- **One refresh.** A demotion follows its absence unless the wait is stale. -/
theorem demotes_iff_not_staleWait {pre : List RefreshCall} {call : RefreshCall}
    (htimes : (pre ++ [call]).Pairwise fun earlier later => earlier.2 ≤ later.2) :
    let u := Runs.run (refreshStep cfg) {} pre
    (Demoted (getStatus symbol u) (getStatus symbol (refreshStep cfg u call)) →
      ∃ since ≤ call.2 - cfg.hysteresisMs,
        Since.HeldSince (Below cfg symbol (getStatus symbol u)) Prod.snd (pre ++ [call]) since) ↔
      ¬ StaleWait cfg symbol pre call := by
  intro u
  have hpending : PendingTop5 cfg symbol pre u := pendingTop5_run cfg symbol pre
  have hstale : StaleWait cfg symbol pre call ↔
      ((u.stateOf symbol).status = .inTop10 ∧ Below cfg symbol .inTop10 call) ∧
        ((u.stateOf symbol).pendingSinceMs ≠ 0 ∧ cfg.hysteresisMs ≤ call.2 - (u.stateOf symbol).pendingSinceMs ∧
          (u.stateOf symbol).isFlapping cfg call.2 = false) ∧
        call.2 - (Since.since (Below cfg symbol .inTop10) Prod.snd pre).getD call.2 < cfg.hysteresisMs := Iff.rfl
  rw [getStatus_eq, getStatus_eq, hstale]
  obtain htrans | ⟨hempty, -⟩ := stateOf_refresh cfg call.1 call.2 u symbol
  · have hdemoted : ∀ status, (u.stateOf symbol).status = status → (status = .inTop5 ∨ status = .inTop10) →
        (Demoted status ((refreshStep cfg u call).stateOf symbol).status ↔
          Below cfg symbol status call ∧ (u.stateOf symbol).Due cfg call.2) := by
      rintro status rfl hstatus
      rw [refreshStep, htrans]
      exact SymbolState.demoted_iff hstatus
    by_cases h5 : (u.stateOf symbol).status = .inTop5
    · rw [h5, hdemoted .inTop5 h5 (.inl rfl)]
      exact iff_of_true (fun hdue => hpending.justified h5 hdue.1 hdue.2) fun h => absurd h.1.1 (by decide)
    · by_cases h10 : (u.stateOf symbol).status = .inTop10
      · rw [h10, hdemoted .inTop10 h10 (.inr rfl)]
        by_cases hbelow : Below cfg symbol .inTop10 call
        · rw [heldSince_iff hbelow htimes, and_iff_right hbelow, and_iff_right ⟨rfl, hbelow⟩]
          exact SymbolState.due_absent_iff (since_le_now hbelow htimes)
        · exact iff_of_true (fun h => absurd h.1 hbelow) fun h => hbelow h.1.2
      · refine iff_of_true (fun h => absurd h.1 ?_) fun h => h10 h.1.1
        rw [not_or]
        exact ⟨h5, h10⟩
  · rw [hempty]
    exact iff_of_true (fun h => by simp [Demoted] at h) fun h => by simp at h

end Refreshes

/-- **Demotions.** With times in order, every demotion of a run follows an absence as long as the hysteresis exactly
when no wait is older than the absence. -/
theorem demotesAfterAbsence_iff (cfg : ScannerConfig) (symbol : String) (calls : List RefreshCall)
    (htimes : calls.Pairwise fun earlier later => earlier.2 ≤ later.2) :
    DemotesAfterAbsence cfg symbol calls ↔
      ∀ pre call, pre ++ [call] <+: calls → ¬ StaleWait cfg symbol pre call := by
  refine forall_congr' fun pre => forall_congr' fun call => forall_congr' fun hpre => ?_
  exact demotes_iff_not_staleWait (htimes.sublist hpre.sublist)

def quoted (symbol : String) (oiChange : ℚ) : SymbolMetrics :=
  { symbol, oiChange, spreadBps := 10, oiUsd := 100000000 }

def fourBest : List SymbolMetrics :=
  [quoted "ETH_USDT" 4, quoted "SOL_USDT" 3, quoted "BNB_USDT" 2, quoted "ADA_USDT" 1]

/-- A refresh that finds a sixth symbol, and one that does not. -/
def sixthQuoted (nowMs : ℤ) : RefreshCall := (fourBest ++ [quoted "XRP_USDT" 0], nowMs)

def sixthAbsent (nowMs : ℤ) : RefreshCall := (fourBest, nowMs)

/-- An absence of five minutes. -/
theorem demotesAfterAbsence_iff_fiveMinutes :
    (DemotesAfterAbsence {} "XRP_USDT" [sixthQuoted 1, sixthAbsent 1000, sixthAbsent 301000] ↔
        ∀ pre call, pre ++ [call] <+: [sixthQuoted 1, sixthAbsent 1000, sixthAbsent 301000] →
          ¬ StaleWait {} "XRP_USDT" pre call) ∧
      getStatus "XRP_USDT" (Runs.run (refreshStep {}) {} [sixthQuoted 1, sixthAbsent 1000]) = .inTop10 ∧
      getStatus "XRP_USDT" (Runs.run (refreshStep {}) {} [sixthQuoted 1, sixthAbsent 1000, sixthAbsent 301000]) =
        .outsidePending :=
  ⟨demotesAfterAbsence_iff {} "XRP_USDT" [sixthQuoted 1, sixthAbsent 1000, sixthAbsent 301000] (by decide),
    by decide +kernel, by decide +kernel⟩

/-- The symbol is back at the third refresh; the fourth demotes it by the pending time of the second. -/
theorem not_demotesAfterAbsence_back : ¬ DemotesAfterAbsence {} "XRP_USDT"
    [sixthQuoted 1, sixthAbsent 1000, sixthQuoted 2000, sixthAbsent 301000] := by
  intro h
  obtain ⟨since, hle, hheld⟩ := h [sixthQuoted 1, sixthAbsent 1000, sixthQuoted 2000] (sixthAbsent 301000)
    (List.prefix_refl _) (by decide +kernel)
  obtain ⟨first, hfirst, hbefore⟩ := Since.since_le (by decide) hheld
  have hlast : Since.since (Below {} "XRP_USDT" (getStatus "XRP_USDT" (Runs.run (refreshStep {}) {}
      [sixthQuoted 1, sixthAbsent 1000, sixthQuoted 2000]))) Prod.snd
        [sixthQuoted 1, sixthAbsent 1000, sixthQuoted 2000, sixthAbsent 301000] = some 301000 := by
    decide +kernel
  obtain rfl : first = 301000 := Option.some.inj (hfirst.symm.trans hlast)
  have hnow : since ≤ 301000 - 300000 := hle
  omega

end MikoV2.Universe
