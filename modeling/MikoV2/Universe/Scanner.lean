import Mathlib.Data.Rat.Defs
import MikoV2.Lib.Dict
import MikoV2.Lib.PySet

/-!
# `UniverseScanner`

The scanner ranks the symbols at every refresh and follows their ranks: up at once, down after the hysteresis, unless
the symbol is flapping.

* `targets` : the gate, the score, and the symbols wanted in the top five and in the top ten;
* `recordFlap`, `isFlapping` : flaps of a symbol, in a window;
* `transition` : the status of one symbol after a refresh; `refresh` : one refresh, of every symbol known;
* `refresh_symbol` : what a refresh does to each symbol, and returns of it.
-/

namespace MikoV2.Universe
open Py (Dict PySet)

inductive UniverseStatus
  | inTop5
  | inTop10
  | outsidePending
  | dropped
  | unknown
  deriving DecidableEq, Repr

structure ScannerConfig where
  maxTop : ℤ := 5
  maxWatch : ℤ := 10
  minSpreadBps : ℚ := 5
  maxSpreadBps : ℚ := 20
  minOiUsd : ℚ := 50000000
  hysteresisMs : ℤ := 300000
  maxPendingMs : ℤ := 600000
  flapThreshold : ℤ := 3
  flapWindowMs : ℤ := 300000
  alwaysInclude : List String := ["BTC_USDT"]
  weightOiChange : ℚ := 3 / 10
  weightLiq : ℚ := 3 / 10
  weightSqueeze : ℚ := 2 / 10
  weightFunding : ℚ := 1 / 10
  weightSpread : ℚ := 1 / 10

structure SymbolMetrics where
  symbol : String
  oiChange : ℚ := 0
  liq : ℚ := 0
  squeeze : ℚ := 0
  funding : ℚ := 0
  spreadBps : ℚ := 0
  oiUsd : ℚ := 0

structure SymbolState where
  status : UniverseStatus := .unknown
  pendingSinceMs : ℤ := 0
  flapCount : ℤ := 0
  lastFlapMs : ℤ := 0
  deriving DecidableEq

/-- `_states`; a symbol that is no key has the state `SymbolState()`. -/
structure UniverseScanner where
  states : Dict String SymbolState := .empty

def UniverseScanner.stateOf (symbol : String) (u : UniverseScanner) : SymbolState := (u.states.get? symbol).getD {}

def getStatus (symbol : String) (u : UniverseScanner) : UniverseStatus :=
  match u.states.get? symbol with
  | none => .unknown
  | some state => state.status

variable (cfg : ScannerConfig)

/-! ## Targets -/

def score (m : SymbolMetrics) : ℚ :=
  cfg.weightOiChange * m.oiChange + cfg.weightLiq * m.liq + cfg.weightSqueeze * m.squeeze
    + cfg.weightFunding * m.funding + cfg.weightSpread * m.spreadBps

def passesGate (m : SymbolMetrics) : Bool :=
  if m.oiUsd < cfg.minOiUsd then false
  else if m.spreadBps < cfg.minSpreadBps then false
  else if m.spreadBps > cfg.maxSpreadBps then false
  else true

/-- `for m, _ in scored: if len(target) >= limit: break; target.add(m.symbol)` -/
def fillTarget (limit : ℤ) : PySet String → List (SymbolMetrics × ℚ) → PySet String
  | target, [] => target
  | target, (m, _) :: rest =>
    if target.elems.length ≥ limit then target else fillTarget limit (target.add m.symbol) rest

structure Targets where
  top5 : PySet String
  top10 : PySet String

/-- The always included symbols, then the best of the eligible ones, equal scores in the order of the list; what is in
the top five is in the top ten. -/
def targets (metricsList : List SymbolMetrics) : Targets :=
  let always := PySet.ofList cfg.alwaysInclude
  let eligible := metricsList.filter fun m => m.symbol ∈ always ∨ passesGate cfg m = true
  let scored := (eligible.map fun m => (m, score cfg m)).insertionSort fun a b => b.2 ≤ a.2
  let top5 := fillTarget cfg.maxTop always scored
  let top10 := fillTarget cfg.maxWatch always scored
  ⟨top5, top5.elems.foldl PySet.add top10⟩

/-! ## One symbol -/

namespace SymbolState
variable (nowMs : ℤ)

def recordFlap (state : SymbolState) : SymbolState :=
  let state := if nowMs - state.lastFlapMs > cfg.flapWindowMs then { state with flapCount := 0 } else state
  { state with flapCount := state.flapCount + 1, lastFlapMs := nowMs }

def isFlapping (state : SymbolState) : Bool :=
  if nowMs - state.lastFlapMs > cfg.flapWindowMs then false else state.flapCount ≥ cfg.flapThreshold

/-- `if state.pending_since_ms == 0: state.pending_since_ms = now_ms` -/
def startPending (state : SymbolState) : SymbolState :=
  if state.pendingSinceMs = 0 then { state with pendingSinceMs := nowMs } else state

/-- A symbol below its status: it keeps it for the hysteresis, and while it is flapping. -/
def fallTo (lower : UniverseStatus) (state : SymbolState) : SymbolState :=
  let state := state.startPending nowMs
  let elapsed := nowMs - state.pendingSinceMs
  if elapsed < cfg.hysteresisMs ∨ state.isFlapping cfg nowMs = true then state
  else { state.recordFlap cfg nowMs with status := lower }

/-- The body of the last loop of `refresh`. -/
def transition (target5 target10 : Bool) (state : SymbolState) : SymbolState :=
  let current := state.status
  if target5 then
    let state := if current ≠ .inTop5 then state.recordFlap cfg nowMs else state
    { state with pendingSinceMs := 0, status := .inTop5 }
  else if target10 then
    if current = .inTop5 then state.fallTo cfg nowMs .inTop10
    else if current = .outsidePending then { state with pendingSinceMs := 0, status := .inTop10 }
    else
      let state := if current ≠ .inTop10 then state.recordFlap cfg nowMs else state
      { state with status := .inTop10 }
  else if current = .inTop5 ∨ current = .inTop10 then state.fallTo cfg nowMs .outsidePending
  else if current = .outsidePending then
    let elapsed := nowMs - state.pendingSinceMs
    if elapsed ≥ cfg.maxPendingMs then { state with status := .dropped } else state
  else { state with status := .dropped }

end SymbolState

/-! ## A refresh -/

/-- The scanner and the result while the last loop of `refresh` runs. -/
structure Refresh where
  scanner : UniverseScanner
  result : Dict String UniverseStatus := .empty

def refreshSymbol (t : Targets) (nowMs : ℤ) (r : Refresh) (sym : String) : Refresh :=
  let state := (r.scanner.stateOf sym).transition cfg nowMs (decide (sym ∈ t.top5)) (decide (sym ∈ t.top10))
  { scanner.states := r.scanner.states.set sym state
    result := r.result.set sym state.status }

/-- `refresh`, with what it returns. -/
def refresh (metricsList : List SymbolMetrics) (nowMs : ℤ) (u : UniverseScanner) : Refresh :=
  let allSymbols := PySet.ofList (u.states.keys ++ metricsList.map SymbolMetrics.symbol ++ cfg.alwaysInclude)
  allSymbols.elems.foldl (refreshSymbol cfg (targets cfg metricsList) nowMs) ⟨u, .empty⟩

/-! ## What a refresh does to each symbol -/

section Symbols
variable {cfg}

theorem getStatus_eq (symbol : String) (u : UniverseScanner) : getStatus symbol u = (u.stateOf symbol).status := by
  unfold getStatus UniverseScanner.stateOf
  cases u.states.get? symbol with
  | none => rfl
  | some state => rfl

/-- A symbol that the last loop visits. -/
def Known (cfg : ScannerConfig) (metricsList : List SymbolMetrics) (u : UniverseScanner) (symbol : String) : Prop :=
  symbol ∈ u.states.keys ∨ symbol ∈ metricsList.map SymbolMetrics.symbol ∨ symbol ∈ cfg.alwaysInclude

instance (metricsList : List SymbolMetrics) (u : UniverseScanner) (symbol : String) :
    Decidable (Known cfg metricsList u symbol) :=
  inferInstanceAs (Decidable (_ ∨ _ ∨ _))

/-- What the last loop changes of a symbol: its state, and its result. -/
def Refresh.symbol (symbol : String) (r : Refresh) : SymbolState × Option UniverseStatus :=
  (r.scanner.stateOf symbol, r.result.get? symbol)

theorem refreshSymbol_ownKey (cfg : ScannerConfig) (t : Targets) (nowMs : ℤ) :
    Py.OwnKey Refresh.symbol
      (fun symbol v =>
        let state := v.1.transition cfg nowMs (decide (symbol ∈ t.top5)) (decide (symbol ∈ t.top10))
        (state, some state.status))
      (refreshSymbol cfg t nowMs) := by
  constructor
  · intro r symbol
    simp [refreshSymbol, Refresh.symbol, UniverseScanner.stateOf, Dict.get?_set]
  · intro r symbol other h
    simp [refreshSymbol, Refresh.symbol, UniverseScanner.stateOf, Dict.get?_set, h]

/-- **One refresh.** Every symbol known makes one transition, and the result is its status; no other symbol has a
state. -/
theorem refresh_symbol (cfg : ScannerConfig) (metricsList : List SymbolMetrics) (nowMs : ℤ) (u : UniverseScanner)
    (symbol : String) :
    let t := targets cfg metricsList
    let state := (u.stateOf symbol).transition cfg nowMs (decide (symbol ∈ t.top5)) (decide (symbol ∈ t.top10))
    (refresh cfg metricsList nowMs u).symbol symbol =
      if Known cfg metricsList u symbol then (state, some state.status) else ({}, none) := by
  have hknown : symbol ∈ (PySet.ofList
      (u.states.keys ++ metricsList.map SymbolMetrics.symbol ++ cfg.alwaysInclude)).elems ↔
        Known cfg metricsList u symbol := by
    rw [← PySet.mem_def, PySet.mem_ofList, List.mem_append, List.mem_append, or_assoc]
    rfl
  unfold refresh
  dsimp only
  rw [(refreshSymbol_ownKey cfg (targets cfg metricsList) nowMs).foldl symbol _ _ (PySet.nodup _)]
  by_cases h : Known cfg metricsList u symbol
  · rw [if_pos (hknown.mpr h), if_pos h]
    rfl
  · have hnone : u.states.get? symbol = none := Dict.get?_eq_none.mpr fun hkey => h (.inl hkey)
    rw [if_neg fun hmem => h (hknown.mp hmem), if_neg h]
    simp [Refresh.symbol, UniverseScanner.stateOf, hnone]

/-- A symbol after a refresh has made its transition, or has no state. -/
theorem stateOf_refresh (cfg : ScannerConfig) (metricsList : List SymbolMetrics) (nowMs : ℤ) (u : UniverseScanner)
    (symbol : String) :
    let t := targets cfg metricsList
    let state := (refresh cfg metricsList nowMs u).scanner.stateOf symbol
    state = (u.stateOf symbol).transition cfg nowMs (decide (symbol ∈ t.top5)) (decide (symbol ∈ t.top10)) ∨
      (u.stateOf symbol = {} ∧ state = {}) := by
  have hview := refresh_symbol cfg metricsList nowMs u symbol
  dsimp only at hview ⊢
  by_cases h : Known cfg metricsList u symbol
  · rw [if_pos h] at hview
    exact .inl (congrArg Prod.fst hview)
  · rw [if_neg h] at hview
    have hnone : u.states.get? symbol = none := Dict.get?_eq_none.mpr fun hkey => h (.inl hkey)
    refine .inr ⟨?_, congrArg Prod.fst hview⟩
    rw [UniverseScanner.stateOf, hnone]
    rfl

end Symbols

end MikoV2.Universe
