import MikoV2.Rotation.Watched
import MikoV2.Universe.Hysteresis

/-!
# What is decided and what is subscribed

`apply_scan` takes its decision over into its own set before `_apply_rotation` carries it out. A symbol whose calls fail
stays behind: for the service it is where it ought to be, and no later decision has it.

* `Subscriptions` : the three sets; `subscribeOne`, `unsubscribeOne`, `applyRotation` : what a rotation does to them;
* `view_applyTask` : a task of the runner does the same;
* `Agrees` : the sets are one; `Retried` : what differs is in the next decision;
* `agreement_iff_completes` : the runs after each of whose rotations this is so.
-/

namespace MikoV2.Rotation
open Universe
open Py (PySet)

/-! ## The three sets -/

/-- How the calls for a symbol go. -/
inductive Attempt
  /-- the client is not running, and returns `False` -/
  | notRunning
  | sendFails
  | snapshotFails
  /-- the sequence validator, or what comes after it -/
  | setUpFails
  | returns
deriving DecidableEq, Repr

/-- The service, the client's `_subscribed` and the runner's `symbols`. -/
structure Subscriptions where
  «universe» : UniverseService
  ws : PySet String
  symbols : PySet String

def subscribeOne (attempts : String → Attempt) (s : Subscriptions) (symbol : String) : Subscriptions :=
  if symbol ∈ s.ws then s
  else match attempts symbol with
    | .notRunning => s
    | .sendFails => s
    | .snapshotFails => { s with ws := s.ws.add symbol }
    | .setUpFails => { s with ws := s.ws.add symbol, symbols := s.symbols.add symbol }
    | .returns => { s with ws := s.ws.add symbol, symbols := s.symbols.add symbol }

/-- Without a snapshot and a set-up there is only the client's call. -/
def unsubscribeOne (attempts : String → Attempt) (s : Subscriptions) (symbol : String) : Subscriptions :=
  if symbol ∉ s.ws then s
  else match attempts symbol with
    | .notRunning => s
    | .sendFails => s
    | _ => { s with ws := s.ws.discard symbol, symbols := s.symbols.discard symbol }

/-- `_apply_rotation` -/
def applyRotation (attempts : String → Attempt) (decision : RotationDecision) (s : Subscriptions) : Subscriptions :=
  decision.toUnsubscribe.foldl (unsubscribeOne attempts) (decision.toSubscribe.foldl (subscribeOne attempts) s)

/-- A round of `_ws_rotation_loop`: the scan that it finds, its time, and how the calls of each symbol go. -/
structure Round where
  scan : ScanResult
  nowMs : ℤ
  attempts : String → Attempt

/-- The service decides, and the runner carries the decision out. -/
def rotateRound (cfg : Config) (s : Subscriptions) (r : Round) : Subscriptions :=
  let result := applyScan cfg r.scan r.nowMs s.«universe»
  applyRotation r.attempts result.1 { s with «universe» := result.2 }

/-- The sets at the end of `_bootstrap`. -/
def bootstrapped (cfg : Config) (symbols : List String) : Subscriptions :=
  let initial := PySet.ofList symbols
  ⟨seedSubscriptions cfg initial.elems (UniverseService.init cfg initial.sorted), initial, initial⟩

/-! ## The tasks of the runner -/

/-- The three sets of a process. -/
def World.view (w : World) : Subscriptions := ⟨w.«universe», w.wsSubscribed, w.symbols⟩

/-- How the calls of a task go; what fails after `symbols.add` leaves the sets as if all had returned. -/
def attemptOf (w : World) (outcome : Outcome) : Attempt :=
  if w.wsRunning = false then .notRunning
  else match outcome with
    | .sendFails => .sendFails
    | .snapshotFails => .snapshotFails
    | .returns => .returns

theorem view_subscribe (symbol : String) (outcome : Outcome) (w : World) :
    (subscribe symbol outcome w).view = subscribeOne (fun _ => attemptOf w outcome) w.view symbol := by
  unfold subscribe subscribeOne attemptOf
  by_cases hws : symbol ∈ w.wsSubscribed
  · have hview : symbol ∈ w.view.ws := hws
    rw [if_pos (.inr hws), if_pos hview]
  · have hview : symbol ∉ w.view.ws := hws
    rw [if_neg hview]
    cases hrun : w.wsRunning with
    | false => simp
    | true => cases outcome <;> simp [hws] <;> rfl

theorem view_unsubscribe (symbol : String) (outcome : Outcome) (w : World) :
    (unsubscribe symbol outcome w).view = unsubscribeOne (fun _ => attemptOf w outcome) w.view symbol := by
  unfold unsubscribe unsubscribeOne attemptOf
  by_cases hws : symbol ∈ w.wsSubscribed
  · have hview : ¬ symbol ∉ w.view.ws := not_not.mpr hws
    rw [if_neg hview]
    cases hrun : w.wsRunning with
    | false => simp
    | true => cases outcome <;> simp [hws] <;> rfl
  · have hview : symbol ∉ w.view.ws := hws
    rw [if_pos (.inr hws), if_pos hview]

/-- What a rotation does for the symbol of a task. -/
def taskOne (attempts : String → Attempt) (s : Subscriptions) : Task → Subscriptions
  | .subscribe symbol => subscribeOne attempts s symbol
  | .unsubscribe symbol => unsubscribeOne attempts s symbol

/-- A task of the runner does the same to its sets. -/
theorem view_applyTask (outcome : Outcome) {w : World} {task : Task} {todo : List Task} (h : w.todo = task :: todo) :
    (applyTask outcome w).view = taskOne (fun _ => attemptOf w outcome) w.view task := by
  cases task with
  | subscribe symbol =>
    simp only [applyTask, h]
    exact view_subscribe symbol outcome { w with todo }
  | unsubscribe symbol =>
    simp only [applyTask, h]
    exact view_unsubscribe symbol outcome { w with todo }

/-! ## One rotation -/

/-- The client has been told. -/
def Attempt.sent : Attempt → Bool
  | .notRunning => false
  | .sendFails => false
  | .snapshotFails => true
  | .setUpFails => true
  | .returns => true

/-- The runner has taken the symbol in. -/
def Attempt.added : Attempt → Bool
  | .notRunning => false
  | .sendFails => false
  | .snapshotFails => false
  | .setUpFails => true
  | .returns => true

section Rotations
variable {attempts : String → Attempt} {s : Subscriptions} {x : String}

theorem sent_of_added {a : Attempt} (h : a.added = true) : a.sent = true := by
  cases a <;> first | rfl | cases h

theorem mem_subscribeOne {symbol : String} :
    (x ∈ (subscribeOne attempts s symbol).ws ↔ x ∈ s.ws ∨ (x = symbol ∧ (attempts x).sent = true)) ∧
      (x ∈ (subscribeOne attempts s symbol).symbols ↔
        x ∈ s.symbols ∨ (x = symbol ∧ x ∉ s.ws ∧ (attempts x).added = true)) := by
  unfold subscribeOne
  by_cases hx : x = symbol
  · subst hx
    by_cases hws : x ∈ s.ws
    · simp [hws]
    · cases attempts x <;> simp [hws, PySet.mem_add, Attempt.sent, Attempt.added]
  · split
    · simp [hx]
    · split <;> simp [hx, PySet.mem_add]

theorem mem_unsubscribeOne {symbol : String} :
    (x ∈ (unsubscribeOne attempts s symbol).ws ↔ x ∈ s.ws ∧ ¬ (x = symbol ∧ (attempts x).sent = true)) ∧
      (x ∈ (unsubscribeOne attempts s symbol).symbols ↔
        x ∈ s.symbols ∧ ¬ (x = symbol ∧ x ∈ s.ws ∧ (attempts x).sent = true)) := by
  unfold unsubscribeOne
  by_cases hx : x = symbol
  · subst hx
    by_cases hws : x ∈ s.ws
    · cases attempts x <;> simp [hws, PySet.mem_discard, Attempt.sent]
    · simp [hws]
  · split
    · simp [hx]
    · split <;> simp [hx, PySet.mem_discard]

@[simp] theorem subscribeOne_universe {symbol : String} :
    (subscribeOne attempts s symbol).«universe» = s.«universe» := by
  unfold subscribeOne
  split
  · rfl
  · split <;> rfl

@[simp] theorem unsubscribeOne_universe {symbol : String} :
    (unsubscribeOne attempts s symbol).«universe» = s.«universe» := by
  unfold unsubscribeOne
  split
  · rfl
  · split <;> rfl

theorem mem_foldl_subscribe (attempts : String → Attempt) (l : List String) (s : Subscriptions) (x : String) :
    (l.foldl (subscribeOne attempts) s).«universe» = s.«universe» ∧
    (x ∈ (l.foldl (subscribeOne attempts) s).ws ↔ x ∈ s.ws ∨ (x ∈ l ∧ (attempts x).sent = true)) ∧
      (x ∈ (l.foldl (subscribeOne attempts) s).symbols ↔
        x ∈ s.symbols ∨ (x ∈ l ∧ x ∉ s.ws ∧ (attempts x).added = true)) := by
  induction l generalizing s with
  | nil => simp
  | cons symbol l ih =>
    obtain ⟨hservice, hws, hsymbols⟩ := ih (subscribeOne attempts s symbol)
    rw [List.foldl_cons, hservice, hws, hsymbols, mem_subscribeOne.1, mem_subscribeOne.2, subscribeOne_universe,
      List.mem_cons]
    refine ⟨rfl, by grind, ?_⟩
    grind

theorem mem_foldl_unsubscribe (attempts : String → Attempt) (l : List String) (s : Subscriptions) (x : String) :
    (l.foldl (unsubscribeOne attempts) s).«universe» = s.«universe» ∧
    (x ∈ (l.foldl (unsubscribeOne attempts) s).ws ↔ x ∈ s.ws ∧ ¬ (x ∈ l ∧ (attempts x).sent = true)) ∧
      (x ∈ (l.foldl (unsubscribeOne attempts) s).symbols ↔
        x ∈ s.symbols ∧ ¬ (x ∈ l ∧ x ∈ s.ws ∧ (attempts x).sent = true)) := by
  induction l generalizing s with
  | nil => simp
  | cons symbol l ih =>
    obtain ⟨hservice, hws, hsymbols⟩ := ih (unsubscribeOne attempts s symbol)
    rw [List.foldl_cons, hservice, hws, hsymbols, mem_unsubscribeOne.1, mem_unsubscribeOne.2, unsubscribeOne_universe,
      List.mem_cons]
    refine ⟨rfl, by grind, ?_⟩
    grind

end Rotations

/-! ## Agreement -/

/-- The symbol is in all of the sets, or in none. -/
def Subscriptions.Same (s : Subscriptions) (x : String) : Prop :=
  (x ∈ s.ws ↔ x ∈ s.«universe».subscribed) ∧ (x ∈ s.symbols ↔ x ∈ s.«universe».subscribed)

/-- The sets are one. -/
def Agrees (s : Subscriptions) : Prop := ∀ x, s.Same x

/-- Every symbol in which the sets differ is in the next decision, if that has its target unchanged. -/
def Retried (cfg : Config) (scan : ScanResult) (nowMs : ℤ) (s : Subscriptions) : Prop :=
  ∀ x, ¬ s.Same x → ∀ scan' nowMs', nowMs ≤ nowMs' → (x ∈ scan'.top5 ↔ x ∈ scan.top5) →
    x ∈ (applyScan cfg scan' nowMs' s.«universe»).1.toSubscribe ∨
      x ∈ (applyScan cfg scan' nowMs' s.«universe»).1.toUnsubscribe

/-- What a rotation leaves. -/
def AgreesAfter (cfg : Config) (s : Subscriptions) (r : Round) : Prop :=
  Agrees (rotateRound cfg s r) ∨ Retried cfg r.scan r.nowMs (rotateRound cfg s r)

/-- The calls for the symbols of the decision go through: each new symbol is taken in, and each old one let go. -/
def Completes (cfg : Config) (s : Subscriptions) (r : Round) : Prop :=
  (∀ x ∈ (applyScan cfg r.scan r.nowMs s.«universe»).1.toSubscribe, (r.attempts x).added = true) ∧
    ∀ x ∈ (applyScan cfg r.scan r.nowMs s.«universe»).1.toUnsubscribe, (r.attempts x).sent = true

section Rounds
variable {cfg : Config} {s : Subscriptions} {r : Round} {x : String}

/-- A symbol after a decision is carried out. -/
theorem applyRotation_sets (attempts : String → Attempt) (decision : RotationDecision) (s : Subscriptions)
    (x : String) :
    (applyRotation attempts decision s).«universe» = s.«universe» ∧
      (x ∈ (applyRotation attempts decision s).ws ↔
        (x ∈ s.ws ∨ (x ∈ decision.toSubscribe ∧ (attempts x).sent = true)) ∧
          ¬ (x ∈ decision.toUnsubscribe ∧ (attempts x).sent = true)) ∧
      (x ∈ (applyRotation attempts decision s).symbols ↔
        (x ∈ s.symbols ∨ (x ∈ decision.toSubscribe ∧ x ∉ s.ws ∧ (attempts x).added = true)) ∧
          ¬ (x ∈ decision.toUnsubscribe ∧
            (x ∈ s.ws ∨ (x ∈ decision.toSubscribe ∧ (attempts x).sent = true)) ∧ (attempts x).sent = true)) := by
  obtain ⟨hservice, hws, hsymbols⟩ := mem_foldl_subscribe attempts decision.toSubscribe s x
  obtain ⟨hservice', hws', hsymbols'⟩ := mem_foldl_unsubscribe attempts decision.toUnsubscribe
    (decision.toSubscribe.foldl (subscribeOne attempts) s) x
  unfold applyRotation
  rw [hservice', hservice, hws', hws, hsymbols', hsymbols, hws]
  exact ⟨rfl, Iff.rfl, Iff.rfl⟩

/-- A symbol after a rotation, by the decision. -/
theorem rotateRound_sets (cfg : Config) (s : Subscriptions) (r : Round) (x : String) :
    (rotateRound cfg s r).«universe» = (applyScan cfg r.scan r.nowMs s.«universe»).2 ∧
      (x ∈ (rotateRound cfg s r).ws ↔
        (x ∈ s.ws ∨ (x ∈ (applyScan cfg r.scan r.nowMs s.«universe»).1.toSubscribe ∧ (r.attempts x).sent = true)) ∧
          ¬ (x ∈ (applyScan cfg r.scan r.nowMs s.«universe»).1.toUnsubscribe ∧ (r.attempts x).sent = true)) ∧
      (x ∈ (rotateRound cfg s r).symbols ↔
        (x ∈ s.symbols ∨ (x ∈ (applyScan cfg r.scan r.nowMs s.«universe»).1.toSubscribe ∧ x ∉ s.ws ∧
            (r.attempts x).added = true)) ∧
          ¬ (x ∈ (applyScan cfg r.scan r.nowMs s.«universe»).1.toUnsubscribe ∧
            (x ∈ s.ws ∨ (x ∈ (applyScan cfg r.scan r.nowMs s.«universe»).1.toSubscribe ∧
              (r.attempts x).sent = true)) ∧ (r.attempts x).sent = true)) := by
  unfold rotateRound
  generalize applyScan cfg r.scan r.nowMs s.«universe» = result
  exact applyRotation_sets r.attempts result.1 { s with «universe» := result.2 } x

/-- A symbol that is not in the decision stays as it is. -/
theorem same_rotateRound (hx : s.Same x)
    (hsub : x ∈ (applyScan cfg r.scan r.nowMs s.«universe»).1.toSubscribe → (r.attempts x).added = true)
    (hunsub : x ∈ (applyScan cfg r.scan r.nowMs s.«universe»).1.toUnsubscribe → (r.attempts x).sent = true) :
    (rotateRound cfg s r).Same x := by
  obtain ⟨hservice, hws, hsymbols⟩ := rotateRound_sets cfg s r x
  obtain ⟨hx1, hx2⟩ := hx
  unfold Subscriptions.Same
  rw [hservice, hws, hsymbols, hx1, hx2]
  obtain ⟨hnot, hnot', hsame⟩ | ⟨-, -, hout, hin, hnot, hafter⟩ | ⟨-, -, hin, hnot, hout, hafter⟩ :=
    applyScan_cases cfg r.scan r.nowMs s.«universe» x
  · simp [hnot, hnot', hsame]
  · have hadded := hsub hin
    simp [hout, hin, hnot, hafter, hadded, sent_of_added hadded]
  · have hsent := hunsub hout
    simp [hin, hnot, hout, hafter, hsent]

/-- A symbol that the service has where it ought to be is in no decision. -/
theorem not_retried {nowMs : ℤ} {scan : ScanResult} (hx : ¬ s.Same x)
    (hstable : x ∈ s.«universe».subscribed ↔ x ∈ scan.top5) : ¬ Retried cfg scan nowMs s := by
  intro hretried
  have hnext := hretried x hx scan nowMs (le_refl _) Iff.rfl
  obtain ⟨hnot, hnot', -⟩ | ⟨-, hin, hout, -⟩ | ⟨-, hout, hin, -⟩ := applyScan_cases cfg scan nowMs s.«universe» x
  · exact hnext.elim hnot hnot'
  · exact hout (hstable.mpr hin)
  · exact hout (hstable.mp hin)

/-- A symbol whose calls fail is left behind. -/
theorem not_agreesAfter (h : Agrees s) (hfails : ¬ Completes cfg s r) : ¬ AgreesAfter cfg s r := by
  -- some symbol differs, and is for the service where the scan wants it
  obtain ⟨x, hdiffers, hstable⟩ : ∃ x, ¬ (rotateRound cfg s r).Same x ∧
      (x ∈ (rotateRound cfg s r).«universe».subscribed ↔ x ∈ r.scan.top5) := by
    unfold Completes at hfails
    rw [not_and_or] at hfails
    rcases hfails with hsub | hunsub
    · obtain ⟨x, hx, hnot⟩ : ∃ x, x ∈ (applyScan cfg r.scan r.nowMs s.«universe»).1.toSubscribe ∧
          ¬ (r.attempts x).added = true := by simpa using hsub
      obtain ⟨hservice, -, hsymbols⟩ := rotateRound_sets cfg s r x
      obtain ⟨-, hsym⟩ := h x
      refine ⟨x, ?_⟩
      unfold Subscriptions.Same
      rw [hservice, hsymbols, hsym]
      obtain ⟨hout, -⟩ | ⟨-, htop, hout, -, -, hafter⟩ | ⟨-, -, -, hout, -⟩ :=
        applyScan_cases cfg r.scan r.nowMs s.«universe» x
      · exact absurd hx hout
      · simp [hout, hnot, hafter, htop]
      · exact absurd hx hout
    · obtain ⟨x, hx, hnot⟩ : ∃ x, x ∈ (applyScan cfg r.scan r.nowMs s.«universe»).1.toUnsubscribe ∧
          ¬ (r.attempts x).sent = true := by simpa using hunsub
      obtain ⟨hservice, hws, -⟩ := rotateRound_sets cfg s r x
      obtain ⟨hold, -⟩ := h x
      refine ⟨x, ?_⟩
      unfold Subscriptions.Same
      rw [hservice, hws, hold]
      obtain ⟨-, hout, -⟩ | ⟨-, -, -, -, hout, -⟩ | ⟨-, htop, hin, -, -, hafter⟩ :=
        applyScan_cases cfg r.scan r.nowMs s.«universe» x
      · exact absurd hx hout
      · exact absurd hx hout
      · simp [hin, hnot, hafter, htop]
  rintro (hagrees | hretried)
  · exact hdiffers (hagrees x)
  · exact not_retried hdiffers hstable hretried

theorem mem_bootstrapped {symbols : List String} : x ∈ (bootstrapped cfg symbols).«universe».subscribed ↔
    x ∈ symbols ∧ x ∉ cfg.excludedSymbols := by
  unfold bootstrapped
  rw [mem_seedSubscriptions, ← PySet.mem_def, PySet.mem_ofList]
  exact ⟨fun h => h.resolve_left (PySet.not_mem_empty x), Or.inr⟩

/-- At the start only the excluded symbols differ. -/
theorem agrees_bootstrapped {symbols : List String} (h : ∀ x ∈ symbols, x ∉ cfg.excludedSymbols) :
    Agrees (bootstrapped cfg symbols) := by
  intro x
  have hmem : x ∈ (bootstrapped cfg symbols).«universe».subscribed ↔ x ∈ symbols := by
    rw [mem_bootstrapped]
    exact and_iff_left_of_imp (h x)
  unfold Subscriptions.Same
  rw [hmem]
  exact ⟨PySet.mem_ofList, PySet.mem_ofList⟩

/-- An excluded symbol of the start is in no decision. -/
theorem not_agreesAfter_excluded {symbols : List String} (hx : x ∈ symbols) (hex : x ∈ cfg.excludedSymbols) :
    ¬ AgreesAfter cfg (bootstrapped cfg symbols) r := by
  have hcases : ∀ u scan nowMs, x ∉ (applyScan cfg scan nowMs u).1.toSubscribe ∧
      x ∉ (applyScan cfg scan nowMs u).1.toUnsubscribe ∧
        (x ∈ (applyScan cfg scan nowMs u).2.subscribed ↔ x ∈ u.subscribed) := by
    intro u scan nowMs
    obtain hstays | ⟨hnot, -⟩ | ⟨hnot, -⟩ := applyScan_cases cfg scan nowMs u x
    · exact hstays
    · exact absurd hex hnot
    · exact absurd hex hnot
  obtain ⟨hservice, hws, -⟩ := rotateRound_sets cfg (bootstrapped cfg symbols) r x
  obtain ⟨hsub, hunsub, hsame⟩ := hcases (bootstrapped cfg symbols).«universe» r.scan r.nowMs
  have hold : x ∉ (bootstrapped cfg symbols).«universe».subscribed := fun hmem => (mem_bootstrapped.mp hmem).2 hex
  have hin : x ∈ (bootstrapped cfg symbols).ws := PySet.mem_ofList.mpr hx
  have hdiffers : ¬ (rotateRound cfg (bootstrapped cfg symbols) r).Same x := by
    unfold Subscriptions.Same
    rw [hservice, hws, hsame]
    simp [hold, hin, hsub, hunsub]
  rintro (hagrees | hretried)
  · exact hdiffers (hagrees x)
  · obtain ⟨hnot, hnot', -⟩ := hcases (rotateRound cfg (bootstrapped cfg symbols) r).«universe» r.scan r.nowMs
    exact (hretried x hdiffers r.scan r.nowMs (le_refl _) Iff.rfl).elim hnot hnot'

end Rounds

/-- **Agreement.** After every rotation of a run the three sets are one, or what differs is in the next decision with an
unchanged target, exactly when the initial symbols are not excluded and in every round the calls for the symbols of the
decision go through; or when there is no round. -/
theorem agreement_iff_completes (cfg : Config) (symbols : List String) (rounds : List Round) :
    Runs.Guarded (AgreesAfter cfg) (rotateRound cfg) (bootstrapped cfg symbols) rounds ↔
      rounds = [] ∨ ((∀ x ∈ symbols, x ∉ cfg.excludedSymbols) ∧
        Runs.Guarded (Completes cfg) (rotateRound cfg) (bootstrapped cfg symbols) rounds) := by
  have hruns : (∀ x ∈ symbols, x ∉ cfg.excludedSymbols) →
      (Runs.Guarded (AgreesAfter cfg) (rotateRound cfg) (bootstrapped cfg symbols) rounds ↔
        Runs.Guarded (Completes cfg) (rotateRound cfg) (bootstrapped cfg symbols) rounds) := by
    intro hnone
    refine Runs.guarded_iff_guarded (agrees_bootstrapped hnone) (fun s r _ h hcompletes => ?_)
      fun s r _ h hfails => not_agreesAfter h hfails
    have hnext : Agrees (rotateRound cfg s r) :=
      fun x => same_rotateRound (h x) (fun hx => hcompletes.1 x hx) fun hx => hcompletes.2 x hx
    exact ⟨hnext, .inl hnext⟩
  cases rounds with
  | nil => exact iff_of_true Runs.guarded_nil (.inl rfl)
  | cons r rounds =>
    simp only [reduceCtorEq, false_or]
    constructor
    · intro h
      have hnone : ∀ x ∈ symbols, x ∉ cfg.excludedSymbols :=
        fun x hx hex => not_agreesAfter_excluded hx hex (Runs.guarded_cons.mp h).1
      exact ⟨hnone, (hruns hnone).mp h⟩
    · rintro ⟨hnone, hguard⟩
      exact (hruns hnone).mpr hguard

/-- ETH_USDT enters the top five, and its snapshot cannot be had. -/
def snapshotFailed : List Round :=
  [⟨⟨["BTC_USDT", "ETH_USDT"], []⟩, 1, fun _ => .returns⟩,
    ⟨⟨["BTC_USDT", "ETH_USDT"], []⟩, 300001, fun _ => .snapshotFails⟩]

/-- The service and the client have the symbol, the runner does not. -/
theorem not_agreesAfter_snapshotFailed :
    ¬ ∀ (cfg : Config) (symbols : List String) (rounds : List Round), (∀ x ∈ symbols, x ∉ cfg.excludedSymbols) →
      Runs.Guarded (AgreesAfter cfg) (rotateRound cfg) (bootstrapped cfg symbols) rounds := by
  intro h
  have hguarded := h {} ["BTC_USDT"] snapshotFailed (by decide)
  rw [snapshotFailed, Runs.guarded_cons, Runs.guarded_cons] at hguarded
  obtain ⟨-, hsecond, -⟩ := hguarded
  have hstart : Agrees (bootstrapped {} ["BTC_USDT"]) := agrees_bootstrapped (by decide)
  refine not_agreesAfter (fun x => same_rotateRound (hstart x) ?_ ?_) ?_ hsecond
  · exact fun _ => rfl
  · exact fun _ => rfl
  · rintro ⟨hsub, -⟩
    have hfails := hsub "ETH_USDT" (by decide)
    cases hfails

end MikoV2.Rotation
