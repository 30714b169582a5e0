import MikoV2.Universe.Hysteresis

/-!
# Flaps and quarantine over whole runs

The exits of a symbol from the top five are counted in a window, which begins with an exit and is begun anew by the
first exit after its end.

* `SymbolFlaps`, `transition` : what the first loop of `apply_scan` does to one symbol;
* `FlapLedger` : the exits of a symbol since its last quarantine began, and those of the window;
* `Counted` : the invariant; `Counted.step` : every call keeps it;
* `flaps_punished` : when a symbol is quarantined, and for how long.
-/

namespace MikoV2.Universe
open Py (Dict PySet)

/-! ## One symbol, in one call -/

/-- What the first loop reads and changes of a symbol. -/
structure SymbolFlaps where
  target : Option Bool
  start : Option ℤ
  count : Option ℤ
  quarantineUntil : Option ℤ
  level : Option ℕ

def UniverseService.flaps (symbol : String) (u : UniverseService) : SymbolFlaps where
  target := u.lastTargetState.get? symbol
  start := u.flapWindowStartMs.get? symbol
  count := u.flapCount.get? symbol
  quarantineUntil := u.quarantineUntilMs.get? symbol
  level := u.quarantineLevel.get? symbol

@[simp] theorem flaps_quarantineUntil (symbol : String) (u : UniverseService) :
    (u.flaps symbol).quarantineUntil = u.quarantineUntilMs.get? symbol := rfl

namespace SymbolFlaps
variable (cfg : Config) (nowMs : ℤ)

def quarantine (v : SymbolFlaps) : SymbolFlaps :=
  { v with
    quarantineUntil := some (nowMs + quarantineStep cfg (v.level.getD 0))
    level := some (v.level.getD 0 + 1)
    start := none
    count := some 0 }

/-- The count starts anew without a window, or after its end. -/
def renewed (v : SymbolFlaps) : SymbolFlaps :=
  if v.start.getD 0 = 0 ∨ nowMs - v.start.getD 0 > cfg.flapWindowMs then
    { v with start := some nowMs, count := some 0 }
  else v

def roundTrip (v : SymbolFlaps) : SymbolFlaps :=
  let v := v.renewed cfg nowMs
  let v := { v with count := some (v.count.getD 0 + 1) }
  if v.count.getD 0 ≥ cfg.flapThreshold ∧ ¬ v.quarantineUntil.getD 0 > nowMs then v.quarantine cfg nowMs else v

def transition (excluded target : Bool) (v : SymbolFlaps) : SymbolFlaps :=
  if excluded then v
  else { (if v.target = some true ∧ target = false then v.roundTrip cfg nowMs else v) with target := some target }

end SymbolFlaps

section Calls
variable {cfg : Config} {top5 : List String} {nowMs : ℤ} {u : UniverseService} {symbol other : String}

theorem flaps_enterQuarantine : (enterQuarantine cfg symbol nowMs u).flaps symbol =
    (u.flaps symbol).quarantine cfg nowMs := by
  simp [enterQuarantine, UniverseService.flaps, SymbolFlaps.quarantine, Dict.get?_set, Dict.get?_erase]

theorem flaps_enterQuarantine_other (h : other ≠ symbol) :
    (enterQuarantine cfg symbol nowMs u).flaps other = u.flaps other := by
  simp [enterQuarantine, UniverseService.flaps, Dict.get?_set, Dict.get?_erase, h]

/-- The window of an exit. -/
def renewWindow (cfg : Config) (symbol : String) (nowMs : ℤ) (u : UniverseService) : UniverseService :=
  let start := (u.flapWindowStartMs.get? symbol).getD 0
  if start = 0 ∨ nowMs - start > cfg.flapWindowMs then
    { u with
      flapWindowStartMs := u.flapWindowStartMs.set symbol nowMs
      flapCount := u.flapCount.set symbol 0 }
  else u

/-- One more exit in the window. -/
def countExit (symbol : String) (u : UniverseService) : UniverseService :=
  { u with flapCount := u.flapCount.set symbol ((u.flapCount.get? symbol).getD 0 + 1) }

theorem recordFlapRoundTrip_eq : recordFlapRoundTrip cfg symbol nowMs u =
    let u' := countExit symbol (renewWindow cfg symbol nowMs u)
    if (u'.flapCount.get? symbol).getD 0 ≥ cfg.flapThreshold ∧ isQuarantined symbol nowMs u' = false then
      enterQuarantine cfg symbol nowMs u'
    else u' := by
  have hcount : ((countExit symbol (renewWindow cfg symbol nowMs u)).flapCount.get? symbol).getD 0 =
      ((renewWindow cfg symbol nowMs u).flapCount.get? symbol).getD 0 + 1 := by
    simp [countExit, Dict.get?_set]
  dsimp only
  rw [hcount]
  rfl

theorem flaps_renewWindow : (renewWindow cfg symbol nowMs u).flaps symbol = (u.flaps symbol).renewed cfg nowMs := by
  have hstart : (u.flaps symbol).start = u.flapWindowStartMs.get? symbol := rfl
  unfold renewWindow SymbolFlaps.renewed
  rw [hstart]
  by_cases hnew : (u.flapWindowStartMs.get? symbol).getD 0 = 0 ∨
      nowMs - (u.flapWindowStartMs.get? symbol).getD 0 > cfg.flapWindowMs
  · rw [if_pos hnew, if_pos hnew]
    simp [UniverseService.flaps, Dict.get?_set]
  · rw [if_neg hnew, if_neg hnew]

theorem flaps_renewWindow_other (h : other ≠ symbol) :
    (renewWindow cfg symbol nowMs u).flaps other = u.flaps other := by
  unfold renewWindow
  dsimp only
  split
  · simp [UniverseService.flaps, Dict.get?_set, h]
  · rfl

theorem flaps_countExit : (countExit symbol u).flaps symbol =
    { u.flaps symbol with count := some ((u.flaps symbol).count.getD 0 + 1) } := by
  simp [countExit, UniverseService.flaps, Dict.get?_set]

theorem flaps_countExit_other (h : other ≠ symbol) : (countExit symbol u).flaps other = u.flaps other := by
  simp [countExit, UniverseService.flaps, Dict.get?_set, h]

theorem flaps_recordFlap : (recordFlapRoundTrip cfg symbol nowMs u).flaps symbol =
    (u.flaps symbol).roundTrip cfg nowMs := by
  have hcounted : (countExit symbol (renewWindow cfg symbol nowMs u)).flaps symbol =
      { (u.flaps symbol).renewed cfg nowMs with
        count := some (((u.flaps symbol).renewed cfg nowMs).count.getD 0 + 1) } := by
    rw [flaps_countExit, flaps_renewWindow]
  have hdue :
      ((countExit symbol (renewWindow cfg symbol nowMs u)).flapCount.get? symbol).getD 0 ≥ cfg.flapThreshold ∧
        isQuarantined symbol nowMs (countExit symbol (renewWindow cfg symbol nowMs u)) = false ↔
      ((countExit symbol (renewWindow cfg symbol nowMs u)).flaps symbol).count.getD 0 ≥ cfg.flapThreshold ∧
        ¬ ((countExit symbol (renewWindow cfg symbol nowMs u)).flaps symbol).quarantineUntil.getD 0 > nowMs := by
    rw [isQuarantined, decide_eq_false_iff_not]
    rfl
  rw [recordFlapRoundTrip_eq]
  dsimp only
  rw [hcounted] at hdue
  unfold SymbolFlaps.roundTrip
  dsimp only
  split
  case isTrue h =>
    rw [if_pos (hdue.mp h), flaps_enterQuarantine, hcounted]
  case isFalse h =>
    rw [if_neg fun h' => h (hdue.mpr h'), hcounted]

theorem flaps_recordFlap_other (cfg : Config) (nowMs : ℤ) (u : UniverseService) (h : other ≠ symbol) :
    (recordFlapRoundTrip cfg symbol nowMs u).flaps other = u.flaps other := by
  have hcounted : (countExit symbol (renewWindow cfg symbol nowMs u)).flaps other = u.flaps other := by
    rw [flaps_countExit_other h, flaps_renewWindow_other h]
  rw [recordFlapRoundTrip_eq]
  dsimp only
  split
  · rw [flaps_enterQuarantine_other h, hcounted]
  · exact hcounted

theorem recordTransition_ownKey (cfg : Config) (top5 : List String) (nowMs : ℤ) :
    Py.OwnKey (fun symbol u => UniverseService.flaps symbol u)
      (fun symbol =>
        SymbolFlaps.transition cfg nowMs (decide (symbol ∈ cfg.excludedSymbols)) (decide (symbol ∈ top5)))
      (recordTransition cfg top5 nowMs) := by
  constructor
  · intro u symbol
    unfold recordTransition SymbolFlaps.transition
    by_cases hex : symbol ∈ cfg.excludedSymbols
    · rw [if_pos hex, if_pos (decide_eq_true hex)]
    · rw [if_neg hex, if_neg (by simpa using hex)]
      dsimp only
      by_cases hexit : u.lastTargetState.get? symbol = some true ∧ decide (symbol ∈ top5) = false
      · have hexit' : (u.flaps symbol).target = some true ∧ decide (symbol ∈ top5) = false := hexit
        rw [if_pos hexit, if_pos hexit', ← flaps_recordFlap]
        simp [UniverseService.flaps, Dict.get?_set]
      · have hexit' : ¬ ((u.flaps symbol).target = some true ∧ decide (symbol ∈ top5) = false) := hexit
        rw [if_neg hexit, if_neg hexit']
        simp [UniverseService.flaps, Dict.get?_set]
  · intro u symbol other h
    unfold recordTransition
    split
    · rfl
    · dsimp only
      split
      · rw [← flaps_recordFlap_other cfg nowMs u h]
        simp [UniverseService.flaps, Dict.get?_set, h]
      · simp [UniverseService.flaps, Dict.get?_set, h]

/-- What the other loops of a call leave alone. -/
def UniverseService.counts (u : UniverseService) :
    Dict String Bool × Dict String ℤ × Dict String ℤ × Dict String ℤ :=
  (u.lastTargetState, u.flapWindowStartMs, u.flapCount, u.quarantineUntilMs)

theorem counts_foldl {σ : Type} (view : σ → UniverseService) (f : σ → String → σ)
    (hf : ∀ r s, (view (f r s)).counts = (view r).counts) (l : List String) :
    ∀ r, (view (l.foldl f r)).counts = (view r).counts := by
  induction l with
  | nil => exact fun _ => rfl
  | cons s l ih => exact fun r => (ih (f r s)).trans (hf r s)

theorem counts_maybeStableReset (u : UniverseService) (symbol : String) :
    (maybeStableReset cfg nowMs u symbol).counts = u.counts := by
  unfold maybeStableReset
  dsimp only
  split
  · rfl
  · split
    · rfl
    · split
      · rfl
      · split <;> rfl

theorem counts_rotateSymbol (r : Rotation) (symbol : String) :
    (rotateSymbol cfg top5 nowMs r symbol).service.counts = r.service.counts := by
  unfold rotateSymbol
  dsimp only
  split
  · rfl
  · split
    · rfl
    · split
      · rfl
      · split
        · split <;> rfl
        · rfl

/-- The symbols of the first loop. -/
def relevant (top5 : List String) (u : UniverseService) : List String :=
  (PySet.ofList (u.lastTargetState.keys ++ top5)).sorted

theorem counts_recordFlaps : (recordFlaps cfg top5 nowMs u).counts =
    ((relevant top5 u).foldl (recordTransition cfg top5 nowMs) u).counts := by
  unfold recordFlaps
  dsimp only
  exact counts_foldl (fun u => u) (maybeStableReset cfg nowMs) counts_maybeStableReset _ _

theorem counts_rotate : (rotate cfg top5 nowMs u).service.counts = (recordFlaps cfg top5 nowMs u).counts := by
  unfold rotate
  dsimp only
  exact counts_foldl Rotation.service (rotateSymbol cfg top5 nowMs) counts_rotateSymbol _ _

theorem counts_scanStep (cfg : Config) (u : UniverseService) (scan : ScanResult) (nowMs : ℤ) :
    (scanStep cfg u (scan, nowMs)).counts =
    ((relevant scan.top5 u).foldl (recordTransition cfg scan.top5 nowMs) u).counts := by
  unfold scanStep applyScan
  dsimp only
  rw [counts_rotate, counts_recordFlaps]

/-- **One call.** A symbol makes one transition. -/
theorem flaps_scanStep (cfg : Config) (u : UniverseService) (call : ScanCall) (symbol : String) :
    let v := (u.flaps symbol).transition cfg call.2 (decide (symbol ∈ cfg.excludedSymbols))
      (decide (symbol ∈ call.1.top5))
    let v' := (scanStep cfg u call).flaps symbol
    (symbol ∉ cfg.excludedSymbols → (v'.target = some true ↔ symbol ∈ call.1.top5)) ∧ v'.start = v.start ∧
      v'.count = v.count ∧ v'.quarantineUntil = v.quarantineUntil := by
  obtain ⟨scan, nowMs⟩ := call
  have hloop := (recordTransition_ownKey cfg scan.top5 nowMs).foldl symbol (relevant scan.top5 u) u
    (PySet.nodup_sorted _)
  have hcounts := counts_scanStep cfg u scan nowMs
  generalize (relevant scan.top5 u).foldl (recordTransition cfg scan.top5 nowMs) u = looped at hloop hcounts
  simp only [UniverseService.counts, Prod.mk.injEq] at hcounts
  obtain ⟨htarget, hstart, hcount, huntil⟩ := hcounts
  have hview : (scanStep cfg u (scan, nowMs)).flaps symbol =
      { looped.flaps symbol with level := (scanStep cfg u (scan, nowMs)).quarantineLevel.get? symbol } := by
    rw [UniverseService.flaps, htarget, hstart, hcount, huntil]
    rfl
  dsimp only
  rw [hview]
  dsimp only
  by_cases hmem : symbol ∈ relevant scan.top5 u
  · rw [if_pos hmem] at hloop
    rw [hloop]
    refine ⟨fun hex => ?_, rfl, rfl, rfl⟩
    simp [SymbolFlaps.transition, hex]
  · rw [if_neg hmem] at hloop
    rw [relevant, PySet.mem_sorted, PySet.mem_ofList, List.mem_append, not_or] at hmem
    obtain ⟨hkeys, htop⟩ := hmem
    have hnone : (u.flaps symbol).target = none := Dict.get?_eq_none.mpr hkeys
    rw [hloop, SymbolFlaps.transition, hnone]
    by_cases hex : symbol ∈ cfg.excludedSymbols
    · simp [hex]
    · simp [hex, htop]

/-- An excluded symbol is never quarantined. -/
theorem quarantineUntil_excluded (call : ScanCall) (hex : symbol ∈ cfg.excludedSymbols) :
    (scanStep cfg u call).quarantineUntilMs.get? symbol = u.quarantineUntilMs.get? symbol := by
  obtain ⟨-, -, -, huntil⟩ := flaps_scanStep cfg u call symbol
  rwa [SymbolFlaps.transition, if_pos (decide_eq_true hex), flaps_quarantineUntil, flaps_quarantineUntil] at huntil

end Calls

/-! ## The exits of a symbol -/

/-- What is known of a symbol from the calls, and from when it was quarantined. -/
structure FlapLedger where
  /-- in the top five of the last call -/
  inside : Bool
  /-- when it has left the top five, since its last quarantine began -/
  exits : List ℤ
  /-- those of the window -/
  window : List ℤ

/-- The window with an exit: a new one after the end of the old. -/
def renew (cfg : Config) (nowMs : ℤ) : List ℤ → List ℤ
  | [] => [nowMs]
  | first :: rest => if nowMs - first > cfg.flapWindowMs then [nowMs] else first :: rest ++ [nowMs]

namespace FlapLedger

def empty : FlapLedger := ⟨false, [], []⟩

/-- The symbol leaves the top five. -/
def Leaves (symbol : String) (call : ScanCall) (g : FlapLedger) : Prop := g.inside = true ∧ symbol ∉ call.1.top5

instance (symbol : String) (call : ScanCall) : DecidablePred (Leaves symbol call) := fun _ =>
  inferInstanceAs (Decidable (_ ∧ _))

/-- The ledger with the target of a call. -/
def note (cfg : Config) (symbol : String) (call : ScanCall) (g : FlapLedger) : FlapLedger where
  inside := decide (symbol ∈ call.1.top5)
  exits := if g.Leaves symbol call then g.exits ++ [call.2] else g.exits
  window := if g.Leaves symbol call then renew cfg call.2 g.window else g.window

/-- The symbol leaves the top five, is not quarantined, and has left it often enough in the window. -/
def Punished (cfg : Config) (symbol : String) (call : ScanCall) (s : UniverseService × FlapLedger) : Prop :=
  s.2.Leaves symbol call ∧ isQuarantined symbol call.2 s.1 = false ∧
    cfg.flapThreshold ≤ (s.2.note cfg symbol call).window.length

instance (cfg : Config) (symbol : String) (call : ScanCall) : DecidablePred (Punished cfg symbol call) := fun _ =>
  inferInstanceAs (Decidable (_ ∧ _ ∧ _))

/-- A call; a quarantine that begins ends the exits before it. -/
def step (cfg : Config) (symbol : String) (s : UniverseService × FlapLedger) (call : ScanCall) :
    UniverseService × FlapLedger :=
  let g := s.2.note cfg symbol call
  (scanStep cfg s.1 call, if Punished cfg symbol call s then { g with exits := [], window := [] } else g)

end FlapLedger

open FlapLedger

/-- The quarantine of a symbol begins exactly when it has left the top five often enough in the window, and lasts as
long as its level says. The window is of exits since the last quarantine began, none older than it is long. -/
structure FlapOk (cfg : Config) (symbol : String) (s : UniverseService × FlapLedger) (call : ScanCall) : Prop where
  punished : Punished cfg symbol call s →
    let «until» := call.2 + quarantineStep cfg ((s.1.quarantineLevel.get? symbol).getD 0)
    (scanStep cfg s.1 call).quarantineUntilMs.get? symbol = some «until» ∧
      isQuarantined symbol call.2 (scanStep cfg s.1 call) = decide («until» > call.2)
  spared : ¬ Punished cfg symbol call s →
    (scanStep cfg s.1 call).quarantineUntilMs.get? symbol = s.1.quarantineUntilMs.get? symbol
  suffix : (s.2.note cfg symbol call).window <:+ (s.2.note cfg symbol call).exits
  recent : s.2.Leaves symbol call → ∀ e ∈ (s.2.note cfg symbol call).window,
    e = call.2 ∨ call.2 - e ≤ cfg.flapWindowMs

/-- What the service keeps of a symbol has the window of the ledger, whose exits are in order. -/
structure InWindow (v : SymbolFlaps) (window : List ℤ) : Prop where
  closed : window = [] → v.start.getD 0 = 0
  opened : ∀ first rest, window = first :: rest → 0 < first ∧ v.start = some first ∧
    v.count = some ((first :: rest).length : ℤ) ∧ ∀ e ∈ rest, first ≤ e

/-- The service follows the ledger. -/
structure Counted (symbol : String) (calls : List ScanCall) (s : UniverseService × FlapLedger) : Prop where
  target : (s.1.flaps symbol).target = some true ↔ s.2.inside = true
  window : InWindow (s.1.flaps symbol) s.2.window
  suffix : s.2.window <:+ s.2.exits
  past : ∀ e ∈ s.2.window, ∃ call ∈ calls, call.2 = e

section Windows
variable {cfg : Config} {symbol : String} {nowMs : ℤ} {v : SymbolFlaps} {window : List ℤ}

theorem renew_ne_nil (cfg : Config) (nowMs : ℤ) (window : List ℤ) : renew cfg nowMs window ≠ [] := by
  cases window with
  | nil => exact List.cons_ne_nil _ _
  | cons first rest =>
    rw [renew]
    split
    · exact List.cons_ne_nil _ _
    · exact List.cons_ne_nil _ _

theorem mem_renew {e : ℤ} (h : e ∈ renew cfg nowMs window) : e = nowMs ∨ e ∈ window := by
  cases window with
  | nil => exact .inl (List.mem_singleton.mp h)
  | cons first rest =>
    rw [renew] at h
    split at h
    · exact .inl (List.mem_singleton.mp h)
    · rcases List.mem_append.mp h with hold | hnew
      · exact .inr hold
      · exact .inl (List.mem_singleton.mp hnew)

theorem renew_suffix {exits : List ℤ} (h : window <:+ exits) : renew cfg nowMs window <:+ exits ++ [nowMs] := by
  have hnew : [nowMs] <:+ exits ++ [nowMs] := List.suffix_append _ _
  cases window with
  | nil => exact hnew
  | cons first rest =>
    rw [renew]
    split
    · exact hnew
    · obtain ⟨earlier, rfl⟩ := h
      exact ⟨earlier, by rw [List.append_assoc]⟩

/-- No exit of the window is older than it is long. -/
theorem renew_recent (hwindow : ∀ first rest, window = first :: rest → ∀ e ∈ rest, first ≤ e) {e : ℤ}
    (he : e ∈ renew cfg nowMs window) : e = nowMs ∨ nowMs - e ≤ cfg.flapWindowMs := by
  cases window with
  | nil => exact .inl (List.mem_singleton.mp he)
  | cons first rest =>
    rw [renew] at he
    split at he
    · exact .inl (List.mem_singleton.mp he)
    case isFalse hopen =>
      rcases List.mem_append.mp he with hold | hnew
      · rcases List.mem_cons.mp hold with rfl | hrest
        · exact .inr (not_lt.mp hopen)
        · have hfirst := hwindow first rest rfl e hrest
          exact .inr (by omega)
      · exact .inl (List.mem_singleton.mp hnew)

/-- The count of an exit is that of the window with it. -/
theorem InWindow.exit (h : InWindow v window) (hpos : 0 < nowMs) (hpast : ∀ e ∈ window, e ≤ nowMs) :
    InWindow { v.renewed cfg nowMs with count := some ((v.renewed cfg nowMs).count.getD 0 + 1) }
      (renew cfg nowMs window) := by
  refine ⟨fun hnil => absurd hnil (renew_ne_nil cfg nowMs window), fun first' rest' hrenew => ?_⟩
  have hnew : v.renewed cfg nowMs = { v with start := some nowMs, count := some 0 } →
      renew cfg nowMs window = [nowMs] →
      0 < first' ∧ (v.renewed cfg nowMs).start = some first' ∧
        some ((v.renewed cfg nowMs).count.getD 0 + 1) = some ((first' :: rest').length : ℤ) ∧
        ∀ e ∈ rest', first' ≤ e := by
    intro hv hwindow
    rw [hwindow] at hrenew
    cases hrenew
    rw [hv]
    exact ⟨hpos, rfl, rfl, fun e he => absurd he List.not_mem_nil⟩
  cases hwindow : window with
  | nil =>
    have hstart := h.closed hwindow
    refine hnew ?_ (by rw [hwindow, renew])
    rw [SymbolFlaps.renewed, if_pos (.inl hstart)]
  | cons first rest =>
    obtain ⟨hfirst, hstart, hcount, hsorted⟩ := h.opened first rest hwindow
    have hnonzero : ¬ v.start.getD 0 = 0 := by
      rw [hstart, Option.getD_some]
      exact hfirst.ne'
    by_cases hend : nowMs - first > cfg.flapWindowMs
    · refine hnew ?_ (by rw [hwindow, renew, if_pos hend])
      rw [SymbolFlaps.renewed, if_pos (.inr (by rwa [hstart, Option.getD_some]))]
    · have hsame : v.renewed cfg nowMs = v := by
        rw [SymbolFlaps.renewed, if_neg (not_or.mpr ⟨hnonzero, by rwa [hstart, Option.getD_some]⟩)]
      rw [hwindow, renew, if_neg hend] at hrenew
      obtain ⟨hhead, htail⟩ := List.cons.inj hrenew
      rw [hsame, ← hhead, ← htail]
      refine ⟨hfirst, hstart, ?_, fun e he => ?_⟩
      · rw [hcount]
        simp
      · rcases List.mem_append.mp he with hold | hlast
        · exact hsorted e hold
        · rw [List.mem_singleton.mp hlast]
          exact hpast first (by rw [hwindow]; exact List.mem_cons_self)

/-- An exit, with the window of the ledger. -/
theorem InWindow.roundTrip (cfg : Config) (h : InWindow v window) (hpos : 0 < nowMs)
    (hpast : ∀ e ∈ window, e ≤ nowMs) :
    ∃ counted : SymbolFlaps, InWindow counted (renew cfg nowMs window) ∧
      counted.quarantineUntil = v.quarantineUntil ∧ counted.level = v.level ∧
      v.roundTrip cfg nowMs =
        if cfg.flapThreshold ≤ (renew cfg nowMs window).length ∧ ¬ v.quarantineUntil.getD 0 > nowMs then
          counted.quarantine cfg nowMs
        else counted := by
  have hcounted : InWindow { v.renewed cfg nowMs with count := some ((v.renewed cfg nowMs).count.getD 0 + 1) }
      (renew cfg nowMs window) := h.exit hpos hpast
  have huntil : (v.renewed cfg nowMs).quarantineUntil = v.quarantineUntil := by
    unfold SymbolFlaps.renewed
    split <;> rfl
  have hlevel : (v.renewed cfg nowMs).level = v.level := by
    unfold SymbolFlaps.renewed
    split <;> rfl
  have hcount : (v.renewed cfg nowMs).count.getD 0 + 1 = ((renew cfg nowMs window).length : ℤ) := by
    obtain ⟨first, rest, hrenew⟩ := List.exists_cons_of_ne_nil (renew_ne_nil cfg nowMs window)
    rw [hrenew]
    exact Option.some.inj (hcounted.opened first rest hrenew).2.2.1
  refine ⟨_, hcounted, huntil, hlevel, ?_⟩
  unfold SymbolFlaps.roundTrip
  dsimp only
  rw [Option.getD_some, hcount, huntil]

end Windows

section Steps
variable {cfg : Config} {symbol : String} {calls : List ScanCall} {s : UniverseService × FlapLedger} {call : ScanCall}

theorem InWindow.congr {v v' : SymbolFlaps} {window : List ℤ} (h : InWindow v window) (hstart : v'.start = v.start)
    (hcount : v'.count = v.count) : InWindow v' window := by
  refine ⟨fun hnil => ?_, fun first rest hwindow => ?_⟩
  · rw [hstart]
    exact h.closed hnil
  · rw [hstart, hcount]
    exact h.opened first rest hwindow

theorem note_inside : (s.2.note cfg symbol call).inside = true ↔ symbol ∈ call.1.top5 := decide_eq_true_iff

theorem note_of_leaves (h : s.2.Leaves symbol call) :
    (s.2.note cfg symbol call).exits = s.2.exits ++ [call.2] ∧
      (s.2.note cfg symbol call).window = renew cfg call.2 s.2.window := ⟨if_pos h, if_pos h⟩

theorem note_of_stays (h : ¬ s.2.Leaves symbol call) :
    (s.2.note cfg symbol call).exits = s.2.exits ∧ (s.2.note cfg symbol call).window = s.2.window :=
  ⟨if_neg h, if_neg h⟩

theorem step_of_punished (h : Punished cfg symbol call s) : step cfg symbol s call =
    (scanStep cfg s.1 call, { s.2.note cfg symbol call with exits := [], window := [] }) := by
  unfold step
  dsimp only
  rw [if_pos h]

theorem step_of_spared (h : ¬ Punished cfg symbol call s) :
    step cfg symbol s call = (scanStep cfg s.1 call, s.2.note cfg symbol call) := by
  unfold step
  dsimp only
  rw [if_neg h]

theorem punished_iff (h : s.2.Leaves symbol call) : Punished cfg symbol call s ↔
    cfg.flapThreshold ≤ (renew cfg call.2 s.2.window).length ∧
      ¬ (s.1.flaps symbol).quarantineUntil.getD 0 > call.2 := by
  unfold Punished isQuarantined
  rw [(note_of_leaves h).2, decide_eq_false_iff_not, flaps_quarantineUntil]
  exact ⟨fun hp => ⟨hp.2.2, hp.2.1⟩, fun hdue => ⟨h, hdue.2, hdue.1⟩⟩

/-- The window and the exits of a call are again in order. -/
theorem Counted.noted (h : Counted symbol calls s) (cfg : Config) (call : ScanCall) :
    (s.2.note cfg symbol call).window <:+ (s.2.note cfg symbol call).exits ∧
      ∀ e ∈ (s.2.note cfg symbol call).window, ∃ c ∈ calls ++ [call], c.2 = e := by
  have hpast : ∀ e ∈ s.2.window, ∃ c ∈ calls ++ [call], c.2 = e := by
    intro e he
    obtain ⟨earlier, hmem, hat⟩ := h.past e he
    exact ⟨earlier, List.mem_append_left _ hmem, hat⟩
  by_cases hleave : s.2.Leaves symbol call
  · rw [(note_of_leaves hleave).1, (note_of_leaves hleave).2]
    refine ⟨renew_suffix h.suffix, fun e he => ?_⟩
    rcases mem_renew he with rfl | hold
    · exact ⟨call, List.mem_append_right _ List.mem_cons_self, rfl⟩
    · exact hpast e hold
  · rw [(note_of_stays hleave).1, (note_of_stays hleave).2]
    exact ⟨h.suffix, hpast⟩

/-- A call that begins no quarantine. -/
theorem Counted.spared (h : Counted symbol calls s) (hex : symbol ∉ cfg.excludedSymbols)
    (hspared : ¬ Punished cfg symbol call s)
    (hwindow : InWindow ((scanStep cfg s.1 call).flaps symbol) (s.2.note cfg symbol call).window) :
    Counted symbol (calls ++ [call]) (step cfg symbol s call) := by
  obtain ⟨hsuffix, hpast⟩ := h.noted cfg call
  obtain ⟨htarget, -⟩ := flaps_scanStep cfg s.1 call symbol
  rw [step_of_spared hspared]
  constructor
  · dsimp only
    exact (htarget hex).trans note_inside.symm
  · dsimp only
    exact hwindow
  · dsimp only
    exact hsuffix
  · dsimp only
    exact hpast

/-- A call in which the symbol does not leave the top five. -/
theorem Counted.stay (h : Counted symbol calls s) (hex : symbol ∉ cfg.excludedSymbols)
    (hstay : ¬ s.2.Leaves symbol call) :
    FlapOk cfg symbol s call ∧ Counted symbol (calls ++ [call]) (step cfg symbol s call) := by
  have hspared : ¬ Punished cfg symbol call s := fun hpunished => hstay hpunished.1
  have hnoexit : ¬ ((s.1.flaps symbol).target = some true ∧ decide (symbol ∈ call.1.top5) = false) :=
    fun hexit => hstay ⟨h.target.mp hexit.1, of_decide_eq_false hexit.2⟩
  obtain ⟨-, hstart, hcount, huntil⟩ := flaps_scanStep cfg s.1 call symbol
  rw [SymbolFlaps.transition, if_neg (by simpa using hex), if_neg hnoexit] at hstart hcount huntil
  dsimp only at hstart hcount huntil
  rw [flaps_quarantineUntil, flaps_quarantineUntil] at huntil
  constructor
  · exact ⟨fun hpunished => absurd hpunished hspared, fun _ => huntil, (h.noted cfg call).1,
      fun hleave => absurd hleave hstay⟩
  · apply h.spared hex hspared
    rw [(note_of_stays hstay).2]
    exact h.window.congr hstart hcount

/-- A call in which it does. -/
theorem Counted.leave (h : Counted symbol calls s) (hex : symbol ∉ cfg.excludedSymbols) (hpos : 0 < call.2)
    (hpast : ∀ c ∈ calls, c.2 ≤ call.2) (hleave : s.2.Leaves symbol call) :
    FlapOk cfg symbol s call ∧ Counted symbol (calls ++ [call]) (step cfg symbol s call) := by
  have hpast' : ∀ e ∈ s.2.window, e ≤ call.2 := by
    intro e he
    obtain ⟨earlier, hmem, rfl⟩ := h.past e he
    exact hpast earlier hmem
  have hexit : (s.1.flaps symbol).target = some true ∧ decide (symbol ∈ call.1.top5) = false :=
    ⟨h.target.mpr hleave.1, decide_eq_false hleave.2⟩
  obtain ⟨counted, hcounted, huntil', hlevel', hround⟩ := h.window.roundTrip cfg hpos hpast'
  obtain ⟨htarget, hstart, hcount, huntil⟩ := flaps_scanStep cfg s.1 call symbol
  rw [SymbolFlaps.transition, if_neg (by simpa using hex), if_pos hexit, hround] at hstart hcount huntil
  dsimp only at hstart hcount huntil
  have hrecent : ∀ e ∈ (s.2.note cfg symbol call).window, e = call.2 ∨ call.2 - e ≤ cfg.flapWindowMs := by
    intro e he
    rw [(note_of_leaves hleave).2] at he
    exact renew_recent (fun first rest hfirst => (h.window.opened first rest hfirst).2.2.2) he
  by_cases hp : Punished cfg symbol call s
  · rw [if_pos ((punished_iff hleave).mp hp)] at hstart huntil
    have hquarantined : (scanStep cfg s.1 call).quarantineUntilMs.get? symbol =
        some (call.2 + quarantineStep cfg ((s.1.quarantineLevel.get? symbol).getD 0)) := by
      rw [← flaps_quarantineUntil, huntil, SymbolFlaps.quarantine, hlevel']
      rfl
    constructor
    · refine ⟨fun _ => ⟨hquarantined, ?_⟩, fun hnot => absurd hp hnot, (h.noted cfg call).1, fun _ => hrecent⟩
      rw [isQuarantined, hquarantined, Option.getD_some]
    · rw [step_of_punished hp]
      refine ⟨?_, ⟨fun _ => ?_, fun first rest hnil => absurd hnil (List.cons_ne_nil _ _).symm⟩,
        List.nil_suffix, fun e he => absurd he List.not_mem_nil⟩
      · dsimp only
        exact (htarget hex).trans note_inside.symm
      · dsimp only
        rw [hstart]
        rfl
  · rw [if_neg ((punished_iff hleave).not.mp hp)] at hstart hcount huntil
    rw [huntil', flaps_quarantineUntil, flaps_quarantineUntil] at huntil
    constructor
    · exact ⟨fun hnot => absurd hnot hp, fun _ => huntil, (h.noted cfg call).1, fun _ => hrecent⟩
    · apply h.spared hex hp
      rw [(note_of_leaves hleave).2]
      exact hcounted.congr hstart hcount

/-- Nothing is counted before the first call. -/
theorem flaps_seeded (cfg : Config) (alwaysInclude : List String) (seeds : List (List String)) (symbol : String) :
    (seeded cfg alwaysInclude seeds).flaps symbol = ⟨none, none, none, none, none⟩ := by
  unfold seeded
  generalize hinit : UniverseService.init cfg alwaysInclude = u
  have hu : u.flaps symbol = ⟨none, none, none, none, none⟩ := by
    rw [← hinit]
    rfl
  clear hinit
  induction seeds generalizing u with
  | nil => exact hu
  | cons symbols seeds ih => exact ih (seedSubscriptions cfg symbols u) hu

theorem counted_seeded (cfg : Config) (alwaysInclude : List String) (seeds : List (List String)) (symbol : String) :
    Counted symbol [] (seeded cfg alwaysInclude seeds, .empty) := by
  refine ⟨?_, ⟨fun _ => ?_, fun first rest hnil => absurd hnil (List.cons_ne_nil _ _).symm⟩, List.suffix_refl _,
    fun e he => absurd he List.not_mem_nil⟩
  · rw [flaps_seeded]
    exact iff_of_false (by simp) Bool.false_ne_true
  · rw [flaps_seeded]
    rfl

theorem Counted.step (h : Counted symbol calls s) (hex : symbol ∉ cfg.excludedSymbols) (hpos : 0 < call.2)
    (hpast : ∀ c ∈ calls, c.2 ≤ call.2) :
    FlapOk cfg symbol s call ∧ Counted symbol (calls ++ [call]) (step cfg symbol s call) := by
  by_cases hleave : s.2.Leaves symbol call
  · exact h.leave hex hpos hpast hleave
  · exact h.stay hex hleave

end Steps

/-- **Flaps.** A symbol that is not excluded is quarantined by a call exactly when it leaves the top five in it, is not
quarantined, and has left often enough in the window of the exit; an excluded one never is. -/
theorem flaps_punished (cfg : Config) (alwaysInclude : List String) (seeds : List (List String)) (calls : List ScanCall)
    (symbol : String) (hpos : ∀ call ∈ calls, 0 < call.2)
    (htimes : calls.Pairwise fun earlier later => earlier.2 ≤ later.2) :
    if symbol ∈ cfg.excludedSymbols then
      Runs.Always (fun u => u.quarantineUntilMs.get? symbol = none) (scanStep cfg) (seeded cfg alwaysInclude seeds)
        calls
    else
      Runs.Guarded (FlapOk cfg symbol) (step cfg symbol) (seeded cfg alwaysInclude seeds, .empty) calls := by
  split
  case isTrue hex =>
    intro pre hpre
    refine Runs.invariant (I := fun u : UniverseService => u.quarantineUntilMs.get? symbol = none) ?_
      (fun u call hu => ?_) pre
    · rw [← flaps_quarantineUntil, flaps_seeded]
    · rw [quarantineUntil_excluded call hex]
      exact hu
  case isFalse hex =>
    have hcall : ∀ pre call, pre ++ [call] <+: calls → 0 < call.2 ∧ ∀ c ∈ pre, c.2 ≤ call.2 := by
      intro pre call hpre
      refine ⟨hpos call (hpre.subset (by simp)), fun c hc => ?_⟩
      have hpairwise := List.pairwise_append.mp (htimes.sublist hpre.sublist)
      exact hpairwise.2.2 c hc call List.mem_cons_self
    have hrun : ∀ pre, pre <+: calls →
        Counted symbol pre (Runs.run (step cfg symbol) (seeded cfg alwaysInclude seeds, .empty) pre) := by
      refine Runs.history_invariant (J := fun pre s => pre <+: calls → Counted symbol pre s) ?_ ?_
      · exact fun _ => counted_seeded cfg alwaysInclude seeds symbol
      · intro pre call ih hpre
        obtain ⟨hnow, hpast⟩ := hcall pre call hpre
        exact ((ih ((List.prefix_append _ _).trans hpre)).step hex hnow hpast).2
    intro pre call hpre
    obtain ⟨hnow, hpast⟩ := hcall pre call hpre
    exact ((hrun pre ((List.prefix_append _ _).trans hpre)).step hex hnow hpast).1

/-- A symbol that is in the top five of a call, and then of none. -/
def comesAndGoes (symbol : String) (times : List (ℤ × ℤ)) : List ScanCall :=
  times.flatMap fun t => [(⟨[symbol], []⟩, t.1), (⟨[], []⟩, t.2)]

/-- Three exits within the hour; the third begins a quarantine of an hour. -/
theorem flaps_punished_three :
    Runs.Guarded (FlapOk {} "BTC_USDT") (step {} "BTC_USDT") (seeded {} [] [], .empty)
        (comesAndGoes "BTC_USDT" [(1, 2), (3, 4), (5, 6)]) ∧
      (Runs.run (scanStep {}) (seeded {} [] [])
        (comesAndGoes "BTC_USDT" [(1, 2), (3, 4), (5, 6)])).quarantineUntilMs.get? "BTC_USDT" = some 3600006 := by
  have hrun := flaps_punished {} [] [] (comesAndGoes "BTC_USDT" [(1, 2), (3, 4), (5, 6)]) "BTC_USDT" (by decide)
    (by decide)
  rw [if_neg (by decide)] at hrun
  exact ⟨hrun, by decide⟩

/-- A window that slides: a symbol that leaves the top five, and has left it often enough in the time before, is
quarantined. -/
def PunishedSliding (cfg : Config) (symbol : String) (s : UniverseService × FlapLedger) (call : ScanCall) : Prop :=
  s.2.Leaves symbol call → isQuarantined symbol call.2 s.1 = false →
    cfg.flapThreshold ≤ ((s.2.note cfg symbol call).exits.filter fun e => call.2 - e ≤ cfg.flapWindowMs).length →
    isQuarantined symbol call.2 (scanStep cfg s.1 call) = true

instance (cfg : Config) (symbol : String) (s : UniverseService × FlapLedger) (call : ScanCall) :
    Decidable (PunishedSliding cfg symbol s call) :=
  inferInstanceAs (Decidable (_ → _ → _ → _))

/-- The window ends between the second exit and the third: the last three exits lie within an hour. The exits of an
excluded symbol are not counted. -/
theorem not_punishedSliding_newWindow :
    ¬ Runs.Guarded (PunishedSliding {} "BTC_USDT") (step {} "BTC_USDT") (seeded {} [] [], .empty)
        (comesAndGoes "BTC_USDT" [(1, 2), (3000001, 3000002), (4200001, 4200002), (6000001, 6000002)]) ∧
      ¬ Runs.Guarded (PunishedSliding {} "XAU_USDT") (step {} "XAU_USDT") (seeded {} [] [], .empty)
        (comesAndGoes "XAU_USDT" [(1, 2), (3, 4), (5, 6)]) := by
  constructor
  · intro h
    have hlast := h (comesAndGoes "BTC_USDT" [(1, 2), (3000001, 3000002), (4200001, 4200002)] ++
      [(⟨["BTC_USDT"], []⟩, 6000001)]) (⟨[], []⟩, 6000002) (List.prefix_refl _)
    exact absurd hlast (by decide)
  · intro h
    have hlast := h (comesAndGoes "XAU_USDT" [(1, 2), (3, 4)] ++ [(⟨["XAU_USDT"], []⟩, 5)]) (⟨[], []⟩, 6)
      (List.prefix_refl _)
    exact absurd hlast (by decide)

end MikoV2.Universe
