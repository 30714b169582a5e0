import MikoV2.Lib.Runs
import MikoV2.Universe.Service

/-!
# Hysteresis over whole runs

A pending target has been the symbol's target in every call since the one that made it pending, with the subscription
the opposite before each of these calls.

* `hysteresis_pending`, `hysteresis_toSub`, `hysteresis_toUnsub_due` : what a call does to one symbol;
* `Opposite` : from a call on, a symbol's target differs from its subscription;
* `Held`, `held_run` : the invariant of the pending targets;
* `rotation_held` : what a decision of any run rests on.
-/

namespace MikoV2.Universe
open Py (Dict PySet)

/-- A call of `apply_scan`. -/
abbrev ScanCall := ScanResult × ℤ

def scanStep (cfg : Config) (u : UniverseService) (call : ScanCall) : UniverseService :=
  (applyScan cfg call.1 call.2 u).2

/-- The service when it has been seeded, once or more often. -/
def seeded (cfg : Config) (alwaysInclude : List String) (seeds : List (List String)) : UniverseService :=
  seeds.foldl (fun u symbols => seedSubscriptions cfg symbols u) (.init cfg alwaysInclude)

/-! ## One symbol, in one call -/

/-- What a call may do to a symbol. -/
inductive Change (cfg : Config) (target : Bool) (nowMs : ℤ) (v : SymbolRotation) : SymbolRotation → Prop
  | settled (hsub : v.subscribed = target) : Change cfg target nowMs v { v with pending := none, since := none }
  | opened (hsub : v.subscribed = !target) :
    Change cfg target nowMs v { v with pending := some target, since := some nowMs }
  | waits (hsub : v.subscribed = !target) (hpending : v.pending = some target) : Change cfg target nowMs v v
  | follows (hsub : v.subscribed = !target) (hpending : v.pending = some target)
      (hdue : cfg.hysteresisMs ≤ nowMs - v.since.getD 0) (hfree : target = true → v.quarantined = false) :
    Change cfg target nowMs v { v with
      subscribed := target, pending := none, since := none
      toSub := target || v.toSub, toUnsub := !target || v.toUnsub }

theorem hysteresis_change (cfg : Config) (target : Bool) (nowMs : ℤ) (v : SymbolRotation) :
    Change cfg target nowMs v (hysteresis cfg target nowMs v) := by
  unfold hysteresis
  by_cases hstable : v.subscribed = target
  · rw [if_pos hstable]
    exact .settled hstable
  · have hsub : v.subscribed = !target := (Bool.eq_not_of_ne hstable)
    rw [if_neg hstable]
    by_cases hother : v.pending ≠ some target
    · rw [if_pos hother]
      exact .opened hsub
    · rw [if_neg hother]
      rw [not_not] at hother
      by_cases hearly : nowMs - v.since.getD 0 < cfg.hysteresisMs
      · rw [if_pos hearly]
        exact .waits hsub hother
      · rw [if_neg hearly]
        have hdue : cfg.hysteresisMs ≤ nowMs - v.since.getD 0 := not_lt.mp hearly
        cases target with
        | true =>
          rw [if_pos rfl]
          by_cases hq : v.quarantined = true
          · rw [if_pos hq]
            exact .waits hsub hother
          · rw [if_neg hq]
            exact .follows hsub hother hdue fun _ => Bool.eq_false_iff.mpr hq
        | false => exact .follows hsub hother hdue fun h => absurd h (by decide)

/-- A symbol, in one call: an excluded symbol stays as it is, and so does one that nothing concerns. -/
theorem rotate_change (cfg : Config) (top5 : List String) (nowMs : ℤ) (u : UniverseService) (symbol : String) :
    (symbol ∉ interested cfg top5 u ∧
        (rotate cfg top5 nowMs u).symbol nowMs symbol = u.symbol cfg top5 nowMs symbol) ∨
      (symbol ∈ interested cfg top5 u ∧
        Change cfg (decide (symbol ∈ top5)) nowMs (u.symbol cfg top5 nowMs symbol)
          ((rotate cfg top5 nowMs u).symbol nowMs symbol)) := by
  rw [rotate_symbol]
  by_cases h : symbol ∈ interested cfg top5 u
  · rw [if_pos h]
    exact .inr ⟨h, hysteresis_change cfg _ nowMs _⟩
  · rw [if_neg h]
    exact .inl ⟨h, rfl⟩

/-- What a decision says of a symbol, and what the service keeps of it. -/
structure Reports (symbol : String) (nowMs : ℤ) (r : SymbolRotation) (decision : RotationDecision)
    (u' : UniverseService) : Prop where
  toSub : symbol ∈ decision.toSubscribe ↔ r.toSub = true
  toUnsub : symbol ∈ decision.toUnsubscribe ↔ r.toUnsub = true
  subscribedAfter : symbol ∈ decision.subscribedAfter ↔ r.subscribed = true
  subscribed : decide (symbol ∈ u'.subscribed) = r.subscribed
  pending : u'.pendingTarget.get? symbol = r.pending
  since : u'.pendingSinceMs.get? symbol = r.since
  quarantined : isQuarantined symbol nowMs u' = r.quarantined

theorem applyScan_reports (cfg : Config) (scan : ScanResult) (nowMs : ℤ) (u : UniverseService) (symbol : String) :
    Reports symbol nowMs ((rotate cfg scan.top5 nowMs u).symbol nowMs symbol) (applyScan cfg scan nowMs u).1
      (applyScan cfg scan nowMs u).2 := by
  unfold applyScan Rotation.symbol
  generalize rotate cfg scan.top5 nowMs u = r
  exact ⟨by simp, by simp, by simp [PySet.mem_sorted], rfl, rfl, rfl, rfl⟩

theorem scanStep_reports (cfg : Config) (u : UniverseService) (call : ScanCall) (symbol : String) :
    Reports symbol call.2 ((rotate cfg call.1.top5 call.2 u).symbol call.2 symbol) (applyScan cfg call.1 call.2 u).1
      (scanStep cfg u call) :=
  applyScan_reports cfg call.1 call.2 u symbol

/-! ## The calls of a run -/

/-- From the call `i` on, the symbol's target is `target` in every call, and it is subscribed before the call exactly
when it is not to be. -/
def Opposite (cfg : Config) (u₀ : UniverseService) (calls : List ScanCall) (symbol : String) (target : Bool) (i : ℕ) :
    Prop :=
  ∀ pre call, pre ++ [call] <+: calls → i ≤ pre.length →
    decide (symbol ∈ call.1.top5) = target ∧
      decide (symbol ∈ (Runs.run (scanStep cfg) u₀ pre).subscribed) = !target

/-- What is pending has been so since a call, and is not excluded. -/
structure Held (cfg : Config) (u₀ : UniverseService) (calls : List ScanCall) (u : UniverseService) : Prop where
  since : ∀ symbol target, u.pendingTarget.get? symbol = some target →
    ∃ early call₀, early ++ [call₀] <+: calls ∧ u.pendingSinceMs.get? symbol = some call₀.2 ∧
      Opposite cfg u₀ calls symbol target early.length
  excluded : ∀ symbol ∈ cfg.excludedSymbols, symbol ∉ u.subscribed ∧ u.pendingTarget.get? symbol = none

section Runs
variable {cfg : Config} {u₀ : UniverseService} {calls : List ScanCall} {symbol : String} {target : Bool}

theorem Opposite.concat {i : ℕ} {call : ScanCall} (h : Opposite cfg u₀ calls symbol target i)
    (htarget : decide (symbol ∈ call.1.top5) = target)
    (hsub : decide (symbol ∈ (Runs.run (scanStep cfg) u₀ calls).subscribed) = !target) :
    Opposite cfg u₀ (calls ++ [call]) symbol target i := by
  intro pre call' hpre hi
  rcases List.prefix_concat_iff.mp hpre with hlast | hshort
  · obtain ⟨rfl, hcall⟩ := List.append_inj' hlast rfl
    obtain rfl : call' = call := List.singleton_inj.mp hcall
    exact ⟨htarget, hsub⟩
  · exact h pre call' hshort hi

/-- What becomes pending in a call is so from this call on. -/
theorem opposite_last {call : ScanCall} (htarget : decide (symbol ∈ call.1.top5) = target)
    (hsub : decide (symbol ∈ (Runs.run (scanStep cfg) u₀ calls).subscribed) = !target) :
    Opposite cfg u₀ (calls ++ [call]) symbol target calls.length := by
  have hnone : Opposite cfg u₀ calls symbol target calls.length := by
    intro pre call' hpre hi
    have hle := hpre.length_le
    simp at hle
    omega
  exact hnone.concat htarget hsub

theorem held_seeded (cfg : Config) (alwaysInclude : List String) (seeds : List (List String)) :
    Held cfg u₀ [] (seeded cfg alwaysInclude seeds) := by
  have hfold : ∀ u : UniverseService, u.pendingTarget = .empty → (∀ symbol ∈ cfg.excludedSymbols, symbol ∉ u.subscribed) →
      Held cfg u₀ [] (seeds.foldl (fun u symbols => seedSubscriptions cfg symbols u) u) := by
    induction seeds with
    | nil =>
      intro u hpending hsub
      refine ⟨fun symbol target h => ?_, fun symbol hex => ⟨hsub symbol hex, ?_⟩⟩
      · simp [hpending] at h
      · simp [hpending]
    | cons symbols seeds ih =>
      intro u hpending hsub
      refine ih _ hpending fun symbol hex hmem => ?_
      rcases PySet.mem_foldl_add _ |>.mp hmem with hold | hnew
      · exact hsub symbol hex hold
      · exact (of_decide_eq_true (List.mem_filter.mp hnew).2) hex
  exact hfold _ rfl fun symbol _ => PySet.not_mem_empty symbol

/-- Only a symbol that is excluded is of no concern while its target is pending. -/
theorem Held.interested {u : UniverseService} (h : Held cfg u₀ calls u) (top5 : List String)
    (hpending : u.pendingTarget.get? symbol = some target) : symbol ∈ interested cfg top5 u := by
  refine mem_interested.mpr ⟨.inr (.inr (Dict.mem_keys.mpr ⟨target, hpending⟩)), fun hex => ?_⟩
  rw [(h.excluded symbol hex).2] at hpending
  cases hpending

theorem Held.step {u : UniverseService} (hu : Runs.run (scanStep cfg) u₀ calls = u) (h : Held cfg u₀ calls u)
    (call : ScanCall) : Held cfg u₀ (calls ++ [call]) (scanStep cfg u call) := by
  refine ⟨fun symbol target hpending => ?_, fun symbol hex => ?_⟩
  · have hreports := scanStep_reports cfg u call symbol
    rw [hreports.pending] at hpending
    rw [hreports.since]
    obtain ⟨hnot, hsame⟩ | ⟨-, hchange⟩ := rotate_change cfg call.1.top5 call.2 u symbol
    · rw [hsame] at hpending
      exact absurd (h.interested _ hpending) hnot
    · generalize (rotate cfg call.1.top5 call.2 u).symbol call.2 symbol = r at hchange hpending ⊢
      cases hchange with
      | settled hsub => cases hpending
      | opened hsub =>
        obtain rfl : decide (symbol ∈ call.1.top5) = target := Option.some.inj hpending
        exact ⟨calls, call, List.prefix_refl _, rfl, opposite_last rfl (hu ▸ hsub)⟩
      | waits hsub hp =>
        obtain rfl : decide (symbol ∈ call.1.top5) = target := Option.some.inj (hp.symm.trans hpending)
        obtain ⟨early, call₀, hearly, hsince, hopp⟩ := h.since symbol _ hpending
        exact ⟨early, call₀, hearly.trans (List.prefix_append _ _), hsince, hopp.concat rfl (hu ▸ hsub)⟩
      | follows hsub hp hdue hfree => cases hpending
  · have hreports := scanStep_reports cfg u call symbol
    obtain ⟨hnot, hnone⟩ := h.excluded symbol hex
    obtain ⟨-, hsame⟩ | ⟨hint, -⟩ := rotate_change cfg call.1.top5 call.2 u symbol
    · rw [hsame] at hreports
      refine ⟨?_, by rw [hreports.pending]; exact hnone⟩
      have hsub := hreports.subscribed
      simpa [UniverseService.symbol, hnot] using hsub
    · exact absurd hex (mem_interested.mp hint).2

theorem held_run (cfg : Config) (alwaysInclude : List String) (seeds : List (List String)) (calls : List ScanCall) :
    Held cfg (seeded cfg alwaysInclude seeds) calls
      (Runs.run (scanStep cfg) (seeded cfg alwaysInclude seeds) calls) := by
  refine Runs.history_invariant (held_seeded cfg alwaysInclude seeds) (fun calls call h => h.step rfl call) calls

end Runs

/-! ## Decisions -/

/-- The decision of a call, after any earlier calls: the symbol's target has been `target` since an earlier call, by the
hysteresis at least, and its subscription before every call since then the opposite. -/
def HeldFor (cfg : Config) (u₀ : UniverseService) (calls : List ScanCall) (call : ScanCall) (symbol : String)
    (target : Bool) : Prop :=
  ∃ early call₀, early ++ [call₀] <+: calls ∧ call₀.2 ≤ call.2 - cfg.hysteresisMs ∧
    Opposite cfg u₀ (calls ++ [call]) symbol target early.length

section Decisions
variable {cfg : Config} {u₀ u : UniverseService} {calls : List ScanCall} {scan : ScanResult} {nowMs : ℤ} {symbol : String}

/-- A symbol stays as it is, or its due target is followed. -/
theorem rotate_follows (cfg : Config) (top5 : List String) (nowMs : ℤ) (u : UniverseService) (symbol : String) :
    let r := (rotate cfg top5 nowMs u).symbol nowMs symbol
    (r.toSub = false ∧ r.toUnsub = false ∧ r.subscribed = decide (symbol ∈ u.subscribed)) ∨
      (symbol ∉ cfg.excludedSymbols ∧ decide (symbol ∈ u.subscribed) = !decide (symbol ∈ top5) ∧
        u.pendingTarget.get? symbol = some (decide (symbol ∈ top5)) ∧
        cfg.hysteresisMs ≤ nowMs - (u.pendingSinceMs.get? symbol).getD 0 ∧
        (symbol ∈ top5 → r.quarantined = false) ∧
        r.toSub = decide (symbol ∈ top5) ∧ r.toUnsub = !decide (symbol ∈ top5) ∧
        r.subscribed = decide (symbol ∈ top5)) := by
  intro r
  obtain ⟨-, hsame⟩ | ⟨hint, hchange⟩ := rotate_change cfg top5 nowMs u symbol
  · have hr : r = u.symbol cfg top5 nowMs symbol := hsame
    rw [hr]
    exact .inl ⟨rfl, rfl, rfl⟩
  · have hr : Change cfg (decide (symbol ∈ top5)) nowMs (u.symbol cfg top5 nowMs symbol) r := hchange
    generalize r = r' at hr ⊢
    cases hr with
    | settled hsub => exact .inl ⟨rfl, rfl, rfl⟩
    | opened hsub => exact .inl ⟨rfl, rfl, rfl⟩
    | waits hsub hpending => exact .inl ⟨rfl, rfl, rfl⟩
    | follows hsub hpending hdue hfree =>
      exact .inr ⟨(mem_interested.mp hint).2, hsub, hpending, hdue, fun htop => hfree (decide_eq_true htop),
        Bool.or_false _, Bool.or_false _, rfl⟩

/-- **The decision.** A symbol is in neither list and stays as it is, or is subscribed, or unsubscribed. -/
theorem applyScan_cases (cfg : Config) (scan : ScanResult) (nowMs : ℤ) (u : UniverseService) (symbol : String) :
    (symbol ∉ (applyScan cfg scan nowMs u).1.toSubscribe ∧ symbol ∉ (applyScan cfg scan nowMs u).1.toUnsubscribe ∧
        (symbol ∈ (applyScan cfg scan nowMs u).2.subscribed ↔ symbol ∈ u.subscribed)) ∨
      (symbol ∉ cfg.excludedSymbols ∧ symbol ∈ scan.top5 ∧ symbol ∉ u.subscribed ∧
        symbol ∈ (applyScan cfg scan nowMs u).1.toSubscribe ∧ symbol ∉ (applyScan cfg scan nowMs u).1.toUnsubscribe ∧
          symbol ∈ (applyScan cfg scan nowMs u).2.subscribed) ∨
      (symbol ∉ cfg.excludedSymbols ∧ symbol ∉ scan.top5 ∧ symbol ∈ u.subscribed ∧
        symbol ∉ (applyScan cfg scan nowMs u).1.toSubscribe ∧ symbol ∈ (applyScan cfg scan nowMs u).1.toUnsubscribe ∧
          symbol ∉ (applyScan cfg scan nowMs u).2.subscribed) := by
  have hreports := applyScan_reports cfg scan nowMs u symbol
  have hafter : symbol ∈ (applyScan cfg scan nowMs u).2.subscribed ↔
      ((rotate cfg scan.top5 nowMs u).symbol nowMs symbol).subscribed = true := by
    rw [← hreports.subscribed, decide_eq_true_eq]
  rw [hreports.toSub, hreports.toUnsub, hafter]
  obtain ⟨hsub, hunsub, hsame⟩ | ⟨hnot, hopposite, -, -, -, htop, hout, hin⟩ :=
    rotate_follows cfg scan.top5 nowMs u symbol
  · exact .inl (by simp [hsub, hunsub, hsame])
  · rw [htop, hout, hin]
    by_cases hmem : symbol ∈ scan.top5
    · exact .inr (.inl (by simpa [hmem, hnot] using hopposite))
    · exact .inr (.inr (by simpa [hmem, hnot] using hopposite))

/-- A due target has been the symbol's for the hysteresis. -/
theorem Held.heldFor (hu : Runs.run (scanStep cfg) u₀ calls = u) (h : Held cfg u₀ calls u)
    (hsub : decide (symbol ∈ u.subscribed) = !decide (symbol ∈ scan.top5))
    (hpending : u.pendingTarget.get? symbol = some (decide (symbol ∈ scan.top5)))
    (hdue : cfg.hysteresisMs ≤ nowMs - (u.pendingSinceMs.get? symbol).getD 0) :
    HeldFor cfg u₀ calls (scan, nowMs) symbol (decide (symbol ∈ scan.top5)) := by
  obtain ⟨early, call₀, hearly, hsince, hopp⟩ := h.since symbol _ hpending
  rw [hsince, Option.getD_some] at hdue
  refine ⟨early, call₀, hearly, ?_, hopp.concat rfl (hu ▸ hsub)⟩
  show call₀.2 ≤ nowMs - cfg.hysteresisMs
  omega

end Decisions

/-- **Rotation.** In any run of a seeded service, what a call subscribes has been wanted for the hysteresis and is not
quarantined, what it unsubscribes has been unwanted for as long, no excluded symbol is in its sets, and its last set is
the one before it with the first and without the second. -/
theorem rotation_held (cfg : Config) (alwaysInclude : List String) (seeds : List (List String))
    (calls : List ScanCall) (scan : ScanResult) (nowMs : ℤ) :
    let u := Runs.run (scanStep cfg) (seeded cfg alwaysInclude seeds) calls
    let decision := (applyScan cfg scan nowMs u).1
    (∀ symbol ∈ decision.toSubscribe,
        HeldFor cfg (seeded cfg alwaysInclude seeds) calls (scan, nowMs) symbol true) ∧
      (∀ symbol ∈ decision.toUnsubscribe,
        HeldFor cfg (seeded cfg alwaysInclude seeds) calls (scan, nowMs) symbol false) ∧
      (∀ symbol ∈ decision.toSubscribe, isQuarantined symbol nowMs (applyScan cfg scan nowMs u).2 = false) ∧
      (∀ symbol ∈ cfg.excludedSymbols, symbol ∉ decision.toSubscribe ∧ symbol ∉ decision.toUnsubscribe ∧
        symbol ∉ decision.subscribedAfter) ∧
      ∀ symbol, symbol ∈ decision.subscribedAfter ↔
        (symbol ∈ u.subscribed ∨ symbol ∈ decision.toSubscribe) ∧ symbol ∉ decision.toUnsubscribe := by
  intro u decision
  have h : Held cfg (seeded cfg alwaysInclude seeds) calls u := held_run cfg alwaysInclude seeds calls
  have hreports : ∀ symbol, Reports symbol nowMs ((rotate cfg scan.top5 nowMs u).symbol nowMs symbol) decision
      (applyScan cfg scan nowMs u).2 := applyScan_reports cfg scan nowMs u
  have hfollows : ∀ symbol, _ := rotate_follows cfg scan.top5 nowMs u
  refine ⟨fun symbol hmem => ?_, fun symbol hmem => ?_, fun symbol hmem => ?_, fun symbol hex => ?_, fun symbol => ?_⟩
  · have hsub := (hreports symbol).toSub.mp hmem
    obtain ⟨hnot, -⟩ | ⟨-, hopposite, hpending, hdue, -, htop, -⟩ := hfollows symbol
    · rw [hnot] at hsub
      cases hsub
    · have hheld : HeldFor _ _ _ _ symbol (decide (symbol ∈ scan.top5)) := h.heldFor rfl hopposite hpending hdue
      rwa [← htop, hsub] at hheld
  · have hunsub := (hreports symbol).toUnsub.mp hmem
    obtain ⟨-, hnot, -⟩ | ⟨-, hopposite, hpending, hdue, -, -, htop, -⟩ := hfollows symbol
    · rw [hnot] at hunsub
      cases hunsub
    · have hheld : HeldFor _ _ _ _ symbol (decide (symbol ∈ scan.top5)) := h.heldFor rfl hopposite hpending hdue
      rw [htop, Bool.not_eq_true'] at hunsub
      rwa [hunsub] at hheld
  · have hsub := (hreports symbol).toSub.mp hmem
    rw [(hreports symbol).quarantined]
    obtain ⟨hnot, -⟩ | ⟨-, -, -, -, hfree, htop, -⟩ := hfollows symbol
    · rw [hnot] at hsub
      cases hsub
    · exact hfree (of_decide_eq_true (htop.symm.trans hsub))
  · rw [(hreports symbol).toSub, (hreports symbol).toUnsub, (hreports symbol).subscribedAfter]
    obtain ⟨hsub, hunsub, hsame⟩ | ⟨hnot, -⟩ := hfollows symbol
    · have hout := (h.excluded symbol hex).1
      simp [hsub, hunsub, hsame, hout]
    · exact absurd hex hnot
  · rw [(hreports symbol).toSub, (hreports symbol).toUnsub, (hreports symbol).subscribedAfter]
    obtain ⟨hsub, hunsub, hsame⟩ | ⟨-, hopposite, -, -, -, htop, hout, hafter⟩ := hfollows symbol
    · simp [hsub, hunsub, hsame]
    · rw [htop, hout, hafter]
      by_cases hin : symbol ∈ scan.top5 <;> simp [hin]

end MikoV2.Universe
