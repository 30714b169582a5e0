import Mathlib.Data.Int.Notation
import Mathlib.Data.String.Basic
import MikoV2.Lib.Dict
import MikoV2.Lib.PySet

/-!
# `UniverseService`

The service decides which symbols are subscribed: a change of the top five is followed after the hysteresis,
a symbol that leaves the top five too often is quarantined for growing times.

* `scanResult` : the order of the ranking, the always included symbols first;
* `recordFlapRoundTrip`, `enterQuarantine`, `maybeStableReset` : flaps and quarantine, counts;
* `rotateSymbol` : the hysteresis of one symbol; `applyScan` : one call, for every symbol concerned;
* `rotate_symbol` : what a call does to the hysteresis and the subscription of each symbol.
-/

namespace MikoV2.Universe
open Py (Dict PySet)

def EXCLUDED_SYMBOLS : List String :=
  ["XAUT_USDT", "XAU_USDT", "XAG_USDT", "SILVER_USDT", "GOLD_USDT", "UKOIL_USDT", "USOIL_USDT", "SPCXSTOCK_USDT"]

/-- The arguments of the service; there is at least one quarantine step. -/
structure Config where
  excludedSymbols : List String := EXCLUDED_SYMBOLS
  hysteresisMs : ℤ := 300000
  flapThreshold : ℤ := 3
  flapWindowMs : ℤ := 3600000
  quarantineStepsMs : List ℤ := [3600000, 14400000, 86400000]
  quarantineResetStableMs : ℤ := 604800000
  steps_ne : quarantineStepsMs ≠ [] := by decide

structure ScanResult where
  top5 : List String
  top10 : List String

structure RotationDecision where
  toSubscribe : List String
  toUnsubscribe : List String
  watchSymbols : List String
  quarantined : List String
  scanMs : ℤ
  subscribedAfter : List String

structure UniverseService where
  always : List String := []
  subscribed : PySet String := .empty
  pendingTarget : Dict String Bool := .empty
  pendingSinceMs : Dict String ℤ := .empty
  lastTargetState : Dict String Bool := .empty
  flapWindowStartMs : Dict String ℤ := .empty
  flapCount : Dict String ℤ := .empty
  quarantineUntilMs : Dict String ℤ := .empty
  quarantineLevel : Dict String ℕ := .empty

variable (cfg : Config)

/-- `UniverseService(…)`: an excluded symbol is not always included. -/
def UniverseService.init (alwaysInclude : List String) : UniverseService :=
  { always := alwaysInclude.filter (· ∉ cfg.excludedSymbols) }

/-- The result of `scan` on a ranking. -/
def scanResult (u : UniverseService) (ranked : List String) : ScanResult :=
  let ordered := ranked.foldl (fun ordered s => if s ∈ ordered then ordered else ordered ++ [s]) u.always
  ⟨ordered.take 5, ordered.take 10⟩

def seedSubscriptions (symbols : List String) (u : UniverseService) : UniverseService :=
  { u with subscribed := (symbols.filter (· ∉ cfg.excludedSymbols)).foldl PySet.add u.subscribed }

/-! ## Flaps and quarantine -/

def isQuarantined (symbol : String) (nowMs : ℤ) (u : UniverseService) : Bool :=
  (u.quarantineUntilMs.get? symbol).getD 0 > nowMs

/-- The step of a quarantine level; the last one for every higher level. -/
def quarantineStep (level : ℕ) : ℤ :=
  cfg.quarantineStepsMs.get ⟨min level (cfg.quarantineStepsMs.length - 1), by
    have hpos := List.length_pos_iff.mpr cfg.steps_ne
    omega⟩

def enterQuarantine (symbol : String) (nowMs : ℤ) (u : UniverseService) : UniverseService :=
  let level := (u.quarantineLevel.get? symbol).getD 0
  { u with
    quarantineUntilMs := u.quarantineUntilMs.set symbol (nowMs + quarantineStep cfg level)
    quarantineLevel := u.quarantineLevel.set symbol (level + 1)
    flapWindowStartMs := u.flapWindowStartMs.erase symbol
    flapCount := u.flapCount.set symbol 0 }

def recordFlapRoundTrip (symbol : String) (nowMs : ℤ) (u : UniverseService) : UniverseService :=
  let start := (u.flapWindowStartMs.get? symbol).getD 0
  let u := if start = 0 ∨ nowMs - start > cfg.flapWindowMs then
      { u with
        flapWindowStartMs := u.flapWindowStartMs.set symbol nowMs
        flapCount := u.flapCount.set symbol 0 }
    else u
  let count := (u.flapCount.get? symbol).getD 0 + 1
  let u := { u with flapCount := u.flapCount.set symbol count }
  if count ≥ cfg.flapThreshold ∧ isQuarantined symbol nowMs u = false then enterQuarantine cfg symbol nowMs u else u

def maybeStableReset (nowMs : ℤ) (u : UniverseService) (symbol : String) : UniverseService :=
  if isQuarantined symbol nowMs u then u
  else
    let «until» := (u.quarantineUntilMs.get? symbol).getD 0
    if «until» = 0 then u
    else if nowMs - «until» < cfg.quarantineResetStableMs then u
    else if (u.quarantineLevel.get? symbol).getD 0 > 1 then
      { u with quarantineLevel := u.quarantineLevel.set symbol 1 }
    else u

/-- The first loop of `apply_scan`: an exit from the top five is a flap. -/
def recordTransition (top5 : List String) (nowMs : ℤ) (u : UniverseService) (sym : String) : UniverseService :=
  if sym ∈ cfg.excludedSymbols then u
  else
    let prev := u.lastTargetState.get? sym
    let curr := decide (sym ∈ top5)
    let u := if prev = some true ∧ curr = false then recordFlapRoundTrip cfg sym nowMs u else u
    { u with lastTargetState := u.lastTargetState.set sym curr }

/-! ## Hysteresis -/

/-- The service and the lists of the decision while the last loop of `apply_scan` runs. -/
structure Rotation where
  service : UniverseService
  toSub : List String := []
  toUnsub : List String := []

def clearPending (symbol : String) (u : UniverseService) : UniverseService :=
  { u with
    pendingTarget := u.pendingTarget.erase symbol
    pendingSinceMs := u.pendingSinceMs.erase symbol }

/-- The last loop of `apply_scan`; `pendingSinceMs` has every key `pendingTarget` has. -/
def rotateSymbol (top5 : List String) (nowMs : ℤ) (r : Rotation) (symbol : String) : Rotation :=
  let current := decide (symbol ∈ r.service.subscribed)
  let target := decide (symbol ∈ top5)
  if current = target then { r with service := clearPending symbol r.service }
  else if r.service.pendingTarget.get? symbol ≠ some target then
    { r with
      service.pendingTarget := r.service.pendingTarget.set symbol target
      service.pendingSinceMs := r.service.pendingSinceMs.set symbol nowMs }
  else
    let elapsed := nowMs - (r.service.pendingSinceMs.get? symbol).getD 0
    if elapsed < cfg.hysteresisMs then r
    else if target then
      if isQuarantined symbol nowMs r.service then r
      else
        { r with
          service := clearPending symbol { r.service with subscribed := r.service.subscribed.add symbol }
          toSub := r.toSub ++ [symbol] }
    else
      { r with
        service := clearPending symbol { r.service with subscribed := r.service.subscribed.discard symbol }
        toUnsub := r.toUnsub ++ [symbol] }

/-- The first two loops of `apply_scan`. -/
def recordFlaps (top5 : List String) (nowMs : ℤ) (u : UniverseService) : UniverseService :=
  let relevant := PySet.ofList (u.lastTargetState.keys ++ top5)
  let u := relevant.sorted.foldl (recordTransition cfg top5 nowMs) u
  (PySet.ofList u.quarantineLevel.keys).sorted.foldl (maybeStableReset cfg nowMs) u

/-- Subscribed, wanted or pending, and not excluded. -/
def interested (top5 : List String) (u : UniverseService) : PySet String :=
  PySet.ofList ((u.subscribed.elems ++ top5 ++ u.pendingTarget.keys).filter (· ∉ cfg.excludedSymbols))

/-- The three loops of `apply_scan`. -/
def rotate (top5 : List String) (nowMs : ℤ) (u : UniverseService) : Rotation :=
  let u := recordFlaps cfg top5 nowMs u
  (interested cfg top5 u).sorted.foldl (rotateSymbol cfg top5 nowMs) ⟨u, [], []⟩

def applyScan (scan : ScanResult) (nowMs : ℤ) (u : UniverseService) : RotationDecision × UniverseService :=
  let r := rotate cfg scan.top5 nowMs u
  ({ toSubscribe := r.toSub
     toUnsubscribe := r.toUnsub
     watchSymbols := (PySet.ofList (scan.top10.filter (· ∉ scan.top5))).sorted
     quarantined := (PySet.ofList ((r.service.quarantineUntilMs.items.filter fun e => e.2 > nowMs).map Prod.fst)).sorted
     scanMs := nowMs
     subscribedAfter := r.service.subscribed.sorted },
    r.service)

/-! ## One symbol in the last loop -/

/-- What the last loop reads and changes of a symbol. -/
structure SymbolRotation where
  subscribed : Bool
  pending : Option Bool
  since : Option ℤ
  quarantined : Bool
  toSub : Bool
  toUnsub : Bool

def Rotation.symbol (nowMs : ℤ) (symbol : String) (r : Rotation) : SymbolRotation where
  subscribed := decide (symbol ∈ r.service.subscribed)
  pending := r.service.pendingTarget.get? symbol
  since := r.service.pendingSinceMs.get? symbol
  quarantined := isQuarantined symbol nowMs r.service
  toSub := decide (symbol ∈ r.toSub)
  toUnsub := decide (symbol ∈ r.toUnsub)

/-- The hysteresis of one symbol: a target that differs from the subscription is pending, and followed when
it has been for long enough; a quarantined symbol is not subscribed. -/
def hysteresis (target : Bool) (nowMs : ℤ) (v : SymbolRotation) : SymbolRotation :=
  if v.subscribed = target then { v with pending := none, since := none }
  else if v.pending ≠ some target then { v with pending := some target, since := some nowMs }
  else if nowMs - v.since.getD 0 < cfg.hysteresisMs then v
  else if target then
    if v.quarantined then v else { v with subscribed := true, pending := none, since := none, toSub := true }
  else { v with subscribed := false, pending := none, since := none, toUnsub := true }

variable {cfg} {top5 : List String} {nowMs : ℤ} {u : UniverseService}

theorem rotateSymbol_own (r : Rotation) (symbol : String) :
    (rotateSymbol cfg top5 nowMs r symbol).symbol nowMs symbol =
      hysteresis cfg (decide (symbol ∈ top5)) nowMs (r.symbol nowMs symbol) := by
  unfold rotateSymbol hysteresis Rotation.symbol
  dsimp only
  by_cases hstable : decide (symbol ∈ r.service.subscribed) = decide (symbol ∈ top5)
  · rw [if_pos hstable, if_pos hstable]
    simp only [clearPending, isQuarantined, Dict.get?_erase, if_true]
    congr
  · rw [if_neg hstable, if_neg hstable]
    by_cases hpending : r.service.pendingTarget.get? symbol ≠ some (decide (symbol ∈ top5))
    · rw [if_pos hpending, if_pos hpending]
      simp only [isQuarantined, Dict.get?_set, if_true]
    · rw [if_neg hpending, if_neg hpending]
      by_cases hearly : nowMs - (r.service.pendingSinceMs.get? symbol).getD 0 < cfg.hysteresisMs
      · rw [if_pos hearly, if_pos hearly]
      · rw [if_neg hearly, if_neg hearly]
        by_cases htarget : decide (symbol ∈ top5) = true
        · rw [if_pos htarget, if_pos htarget]
          by_cases hq : isQuarantined symbol nowMs r.service = true
          · rw [if_pos hq, if_pos hq]
          · rw [if_neg hq, if_neg hq]
            simp only [clearPending, isQuarantined, Dict.get?_erase, PySet.mem_add, List.mem_append,
              List.mem_singleton, or_true, decide_true, if_true]
            congr
        · rw [if_neg htarget, if_neg htarget]
          simp only [clearPending, isQuarantined, Dict.get?_erase, PySet.mem_discard, List.mem_append,
            List.mem_singleton, or_true, decide_true, if_true, ne_eq, not_true_eq_false, and_false, decide_false]
          congr

theorem rotateSymbol_other (r : Rotation) (symbol other : String) (h : other ≠ symbol) :
    (rotateSymbol cfg top5 nowMs r symbol).symbol nowMs other = r.symbol nowMs other := by
  unfold rotateSymbol Rotation.symbol
  dsimp only
  split
  · simp only [clearPending, isQuarantined, Dict.get?_erase, if_neg h]
    congr
  · split
    · simp only [isQuarantined, Dict.get?_set, if_neg h]
    · split
      · rfl
      · split
        · split
          · rfl
          · simp only [clearPending, isQuarantined, Dict.get?_erase, PySet.mem_add, List.mem_append,
              List.mem_singleton, or_false, h]
            congr
        · simp only [clearPending, isQuarantined, Dict.get?_erase, PySet.mem_discard, List.mem_append,
            List.mem_singleton, or_false, h, ne_eq, not_false_eq_true, and_true]
          congr

theorem rotateSymbol_ownKey : Py.OwnKey (Rotation.symbol nowMs)
    (fun symbol => hysteresis cfg (decide (symbol ∈ top5)) nowMs) (rotateSymbol cfg top5 nowMs) :=
  ⟨rotateSymbol_own, rotateSymbol_other⟩

/-! ## A call -/

/-- The flap loops leave subscriptions and hysteresis alone. -/
structure SameRotation (u u' : UniverseService) : Prop where
  always : u'.always = u.always
  subscribed : u'.subscribed = u.subscribed
  pendingTarget : u'.pendingTarget = u.pendingTarget
  pendingSinceMs : u'.pendingSinceMs = u.pendingSinceMs

theorem SameRotation.refl (u : UniverseService) : SameRotation u u := ⟨rfl, rfl, rfl, rfl⟩

theorem SameRotation.trans {u' u'' : UniverseService} (h : SameRotation u u') (h' : SameRotation u' u'') :
    SameRotation u u'' :=
  ⟨h'.always.trans h.always, h'.subscribed.trans h.subscribed, h'.pendingTarget.trans h.pendingTarget,
    h'.pendingSinceMs.trans h.pendingSinceMs⟩

theorem SameRotation.foldl {f : UniverseService → String → UniverseService} (hf : ∀ u s, SameRotation u (f u s))
    (l : List String) : ∀ u, SameRotation u (l.foldl f u) := by
  induction l with
  | nil => exact SameRotation.refl
  | cons s l ih => exact fun u => (hf u s).trans (ih _)

theorem recordTransition_same (top5 : List String) (nowMs : ℤ) (u : UniverseService) (sym : String) :
    SameRotation u (recordTransition cfg top5 nowMs u sym) := by
  have hflap : SameRotation u (recordFlapRoundTrip cfg sym nowMs u) := by
    unfold recordFlapRoundTrip
    dsimp only
    split <;> split <;> exact ⟨rfl, rfl, rfl, rfl⟩
  unfold recordTransition
  dsimp only
  split
  · exact .refl u
  · split
    · exact hflap.trans ⟨rfl, rfl, rfl, rfl⟩
    · exact ⟨rfl, rfl, rfl, rfl⟩

theorem maybeStableReset_same (nowMs : ℤ) (u : UniverseService) (symbol : String) :
    SameRotation u (maybeStableReset cfg nowMs u symbol) := by
  unfold maybeStableReset
  dsimp only
  split
  · exact .refl u
  · split
    · exact .refl u
    · split
      · exact .refl u
      · split
        · exact ⟨rfl, rfl, rfl, rfl⟩
        · exact .refl u

theorem recordFlaps_same (cfg : Config) (top5 : List String) (nowMs : ℤ) (u : UniverseService) :
    SameRotation u (recordFlaps cfg top5 nowMs u) :=
  (SameRotation.foldl (recordTransition_same top5 nowMs) _ u).trans
    (SameRotation.foldl (maybeStableReset_same nowMs) _ _)

theorem mem_interested {symbol : String} : symbol ∈ interested cfg top5 u ↔
    (symbol ∈ u.subscribed ∨ symbol ∈ top5 ∨ symbol ∈ u.pendingTarget.keys) ∧ symbol ∉ cfg.excludedSymbols := by
  unfold interested
  rw [PySet.mem_ofList, List.mem_filter, List.mem_append, List.mem_append, decide_eq_true_eq, or_assoc]
  rfl

/-- A symbol before the last loop. -/
def UniverseService.symbol (cfg : Config) (top5 : List String) (nowMs : ℤ) (symbol : String) (u : UniverseService) :
    SymbolRotation where
  subscribed := decide (symbol ∈ u.subscribed)
  pending := u.pendingTarget.get? symbol
  since := u.pendingSinceMs.get? symbol
  quarantined := isQuarantined symbol nowMs (recordFlaps cfg top5 nowMs u)
  toSub := false
  toUnsub := false

/-- **One call.** Every symbol concerned takes one step of its hysteresis, every other one stays as it is. -/
theorem rotate_symbol (top5 : List String) (nowMs : ℤ) (u : UniverseService) (symbol : String) :
    (rotate cfg top5 nowMs u).symbol nowMs symbol =
      if symbol ∈ interested cfg top5 u then
        hysteresis cfg (decide (symbol ∈ top5)) nowMs (u.symbol cfg top5 nowMs symbol)
      else u.symbol cfg top5 nowMs symbol := by
  obtain ⟨-, hsub, hpending, hsince⟩ := recordFlaps_same cfg top5 nowMs u
  unfold rotate
  dsimp only
  rw [rotateSymbol_ownKey.foldl symbol _ _ (PySet.nodup_sorted _)]
  have hview : Rotation.symbol nowMs symbol ⟨recordFlaps cfg top5 nowMs u, [], []⟩ =
      u.symbol cfg top5 nowMs symbol := by
    unfold Rotation.symbol UniverseService.symbol
    simp only [hsub, hpending, hsince, List.not_mem_nil, decide_false]
  have hmem : symbol ∈ (interested cfg top5 (recordFlaps cfg top5 nowMs u)).sorted ↔
      symbol ∈ interested cfg top5 u := by
    rw [PySet.mem_sorted, mem_interested, mem_interested, hsub, hpending]
  rw [hview]
  by_cases h : symbol ∈ interested cfg top5 u
  · rw [if_pos h, if_pos (hmem.mpr h)]
  · rw [if_neg h, if_neg fun h' => h (hmem.mp h')]

/-! ## Leaving -/

theorem applyScan_spec {scan : ScanResult} {decision : RotationDecision} {u' : UniverseService}
    (h : applyScan cfg scan nowMs u = (decision, u')) :
    u' = (rotate cfg scan.top5 nowMs u).service ∧
      decision.toUnsubscribe = (rotate cfg scan.top5 nowMs u).toUnsub := by
  unfold applyScan at h
  generalize rotate cfg scan.top5 nowMs u = r at h ⊢
  cases h
  exact ⟨rfl, rfl⟩

theorem Rotation.symbol_subscribed (nowMs : ℤ) {r : Rotation} {symbol : String} :
    (r.symbol nowMs symbol).subscribed = true ↔ symbol ∈ r.service.subscribed := decide_eq_true_iff

theorem Rotation.symbol_toUnsub (nowMs : ℤ) {r : Rotation} {symbol : String} :
    (r.symbol nowMs symbol).toUnsub = true ↔ symbol ∈ r.toUnsub := decide_eq_true_iff

theorem hysteresis_toUnsub {target : Bool} {v : SymbolRotation} (hv : v.toUnsub = false)
    (h : (hysteresis cfg target nowMs v).toUnsub = true) : ¬(hysteresis cfg target nowMs v).subscribed = true := by
  unfold hysteresis at h ⊢
  split at h
  · rw [hv] at h
    cases h
  · split at h
    · rw [hv] at h
      cases h
    · split at h
      · rw [hv] at h
        cases h
      · split at h
        · split at h <;> rw [hv] at h <;> cases h
        · rename_i hflip hpending hdue htarget
          rw [if_neg hflip, if_neg hpending, if_neg hdue, if_neg htarget]
          exact Bool.false_ne_true

/-- The hysteresis of a subscribed symbol outside the top five is over. -/
def DueToLeave (cfg : Config) (top5 : List String) (nowMs : ℤ) (u : UniverseService) (symbol : String) : Prop :=
  symbol ∉ cfg.excludedSymbols ∧ symbol ∉ top5 ∧ u.pendingTarget.get? symbol = some false ∧
    cfg.hysteresisMs ≤ nowMs - (u.pendingSinceMs.get? symbol).getD 0

/-- A subscribed symbol stays subscribed unless it is due to leave. -/
theorem mem_subscribed_applyScan {scan : ScanResult} {decision : RotationDecision} {u' : UniverseService}
    {symbol : String} (hscan : applyScan cfg scan nowMs u = (decision, u')) (h : symbol ∈ u.subscribed) :
    symbol ∈ u'.subscribed ↔ ¬DueToLeave cfg scan.top5 nowMs u symbol := by
  obtain ⟨hservice, -⟩ := applyScan_spec hscan
  rw [hservice, ← Rotation.symbol_subscribed nowMs, rotate_symbol]
  by_cases hex : symbol ∈ cfg.excludedSymbols
  · rw [if_neg fun hint => (mem_interested.mp hint).2 hex]
    exact iff_of_true (decide_eq_true h) fun hdue => hdue.1 hex
  · rw [if_pos (mem_interested.mpr ⟨Or.inl h, hex⟩)]
    unfold hysteresis UniverseService.symbol
    dsimp only
    by_cases htop : symbol ∈ scan.top5
    · rw [if_pos (by rw [decide_eq_true h, decide_eq_true htop])]
      exact iff_of_true (decide_eq_true h) fun hdue => hdue.2.1 htop
    · rw [if_neg (by rw [decide_eq_true h, decide_eq_false htop]; decide), decide_eq_false htop]
      by_cases hpending : u.pendingTarget.get? symbol = some false
      · rw [if_neg (not_not.mpr hpending)]
        by_cases hearly : nowMs - (u.pendingSinceMs.get? symbol).getD 0 < cfg.hysteresisMs
        · rw [if_pos hearly]
          exact iff_of_true (decide_eq_true h) fun hdue => absurd hearly (not_lt.mpr hdue.2.2.2)
        · rw [if_neg hearly]
          exact iff_of_false Bool.false_ne_true fun hnot => hnot ⟨hex, htop, hpending, not_lt.mp hearly⟩
      · rw [if_pos hpending]
        exact iff_of_true (decide_eq_true h) fun hdue => hpending hdue.2.2.1

/-- What a call unsubscribes is not subscribed after it. -/
theorem not_mem_of_toUnsubscribe {scan : ScanResult} {decision : RotationDecision} {u' : UniverseService}
    {symbol : String} (hscan : applyScan cfg scan nowMs u = (decision, u'))
    (h : symbol ∈ decision.toUnsubscribe) : symbol ∉ u'.subscribed := by
  obtain ⟨hservice, hout⟩ := applyScan_spec hscan
  rw [hout, ← Rotation.symbol_toUnsub nowMs, rotate_symbol] at h
  rw [hservice, ← Rotation.symbol_subscribed nowMs, rotate_symbol]
  split at h
  · rename_i hint
    rw [if_pos hint]
    exact hysteresis_toUnsub rfl h
  · cases h

end MikoV2.Universe
