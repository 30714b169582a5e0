import MikoV2.Execution.Pacer
import MikoV2.Lib.Runs
import MikoV2.Lib.Semaphore

/-!
# The REST gateway

A request takes a permit of a pool, of its IP and of its symbol, in that order and under one timeout, then a
token, and is sent. After three 429 answers in a row the circuit of a symbol opens for a minute; then one
request is let through as a probe. An order goes to the pacer first; when that refuses it, it is sent directly.

* `record429`, `recordSuccess`, `isCircuitOpen`, `giveBack`, `takeAll` : the source's functions;
* `Call`, `Phase` : an `acquire` or a `post_market_order` that is under way, and where it is suspended;
* `move` : what one resumption of a call does, `step` : the gateway with all its calls;
* `move_cases` : everything a resumption can do.
-/

namespace MikoV2.Execution

structure RestGatewayConfig where
  perIpLimit : ℕ := 15
  perSymbolLimit : ℕ := 2
  semEmergencyCount : ℕ := 3
  semNormalCount : ℕ := 9
  circuit429Threshold : ℤ := 3
  circuitOpenSeconds : ℚ := 60
  circuitHalfOpenTestMax : ℤ := 1
  /-- the configuration of the injected pacer -/
  pacer : PacerConfig := {}

/-- The four kinds of semaphore. -/
inductive Sem where
  | emergency
  | normal
  | ip (ip : String)
  | symbol (symbol : String)
  deriving DecidableEq, Repr

def RestGatewayConfig.limit (cfg : RestGatewayConfig) : Sem → ℕ
  | .emergency => cfg.semEmergencyCount
  | .normal => cfg.semNormalCount
  | .ip _ => cfg.perIpLimit
  | .symbol _ => cfg.perSymbolLimit

/-- What `post_market_order` reads of its payload. -/
structure Order where
  symbol : Option String
  reduceOnly : Option Bool

/-- `RestGateway`. The dictionaries of semaphores and counters are `defaultdict`s. -/
structure RestGateway where
  pacer : Pacer Order
  sems : Sem → Semaphore ℕ
  criticalBypass : Bool
  consecutive429 : String → ℕ
  circuitOpenUntil : String → Option ℚ
  halfOpenProbeUsed : String → Bool
  /-- a record: how often the circuit of the symbol was opened -/
  openings : String → ℕ

namespace RestGateway

def fresh (cfg : RestGatewayConfig) : RestGateway where
  pacer := Pacer.empty
  sems := fun k => Semaphore.new (cfg.limit k)
  criticalBypass := false
  consecutive429 := fun _ => 0
  circuitOpenUntil := fun _ => none
  halfOpenProbeUsed := fun _ => false
  openings := fun _ => 0

/-! ## The circuit -/

def record429 (cfg : RestGatewayConfig) (mono : ℚ) (symbol : String) (g : RestGateway) : RestGateway :=
  let count := g.consecutive429 symbol + 1
  let g' := { g with consecutive429 := Function.update g.consecutive429 symbol count }
  if cfg.circuit429Threshold ≤ count then { g' with
    circuitOpenUntil := Function.update g.circuitOpenUntil symbol (some (mono + cfg.circuitOpenSeconds))
    halfOpenProbeUsed := Function.update g.halfOpenProbeUsed symbol false
    openings := Function.update g.openings symbol (g.openings symbol + 1) }
  else g'

def recordSuccess (symbol : String) (g : RestGateway) : RestGateway := { g with
  consecutive429 := Function.update g.consecutive429 symbol 0
  circuitOpenUntil := Function.update g.circuitOpenUntil symbol none
  halfOpenProbeUsed := Function.update g.halfOpenProbeUsed symbol false }

/-- `is_circuit_open(symbol)`. The answer that lets the probe through takes the probe. -/
def isCircuitOpen (cfg : RestGatewayConfig) (mono : ℚ) (symbol : String) (g : RestGateway) : Bool × RestGateway :=
  match g.circuitOpenUntil symbol with
  | none => (false, g)
  | some until' =>
    if until' ≤ mono then
      if cfg.circuitHalfOpenTestMax ≤ 0 then (false, g.recordSuccess symbol)
      else if g.halfOpenProbeUsed symbol = false then
        (false, { g with halfOpenProbeUsed := Function.update g.halfOpenProbeUsed symbol true })
      else (true, g)
    else (true, g)

/-! ## Permits -/

/-- The semaphores of a request, in the order in which they are taken. -/
def semsOf (ip symbol : String) (isEmergency : Bool) : List Sem :=
  [if isEmergency then .emergency else .normal, .ip ip, .symbol symbol]

/-- Release each of the semaphores. -/
def giveBack (ks : List Sem) (g : RestGateway) : RestGateway :=
  ks.foldl (fun g k => { g with sems := Function.update g.sems k (g.sems k).release }) g

/-- `_do_acquire` from the semaphores `rest` on: the ones taken in the end, and the ones still missing, of
which the first is waited for. -/
def takeAll (t : ℕ) (sems : Sem → Semaphore ℕ) (taken : List Sem) : List Sem → (Sem → Semaphore ℕ) × List Sem × List Sem
  | [] => (sems, taken, [])
  | k :: rest => match (sems k).arrive t with
    | (true, s) => takeAll t (Function.update sems k s) (taken ++ [k]) rest
    | (false, s) => (Function.update sems k s, taken, k :: rest)

end RestGateway

/-! ## Calls -/

/-- How the exchange answers. -/
inductive Answer where
  | posted
  | rateLimited
  | raises
  deriving DecidableEq, Repr

inductive Ending where
  /-- `acquire` returned `False` -/
  | refused
  /-- the answer of the exchange was returned -/
  | posted
  /-- `None`, after a 429 -/
  | rateLimited
  /-- `None`, after both direct attempts -/
  | exhausted
  /-- an exception went out -/
  | raised
  /-- the permits of a bare `acquire` were given back -/
  | released
  deriving DecidableEq, Repr

/-- Where a call is suspended. -/
inductive Phase where
  /-- in `_do_acquire`, waiting for the first of `rest` -/
  | acquiring (taken rest : List Sem)
  /-- in `token_bucket.acquire()`, holding all three -/
  | token
  /-- a bare `acquire` returned `True` -/
  | admitted
  /-- in `_exchange_post` -/
  | exchange
  /-- in `_direct_market_post`, by attempt -/
  | directToken (attempt : ℕ)
  | directExchange (attempt : ℕ)
  | directSleep (attempt : ℕ)
  | ended (how : Ending)
  deriving DecidableEq, Repr

structure Call where
  ip : String
  symbol : String
  isEmergency : Bool
  /-- `some reduce_only` in `post_market_order`, `none` in a bare `acquire` -/
  order : Option Bool
  phase : Phase
  /-- a record: the number of its payload in the pacer -/
  queued : Option ℕ
  /-- a record: the opening of the circuit whose probe it is -/
  probe : Option ℕ

namespace Call

def sems (c : Call) : List Sem := RestGateway.semsOf c.ip c.symbol c.isEmergency

/-- The call has not returned. -/
def InProgress (c : Call) : Prop := ∀ how, c.phase ≠ .ended how

instance : DecidablePred InProgress := fun c =>
  match h : c.phase with
  | .ended how => isFalse fun hp => hp how h
  | .acquiring _ _ | .token | .admitted | .exchange | .directToken _ | .directExchange _ | .directSleep _ =>
    isTrue fun how he => by rw [h] at he; cases he

end Call

/-- What can happen to a call that is suspended. -/
inductive CallEvent where
  /-- it was given the permit it waits for -/
  | resume
  /-- `wait_for` times out -/
  | timeout
  /-- its task is cancelled -/
  | cancel
  /-- `token_bucket.acquire()` returns -/
  | token (ok : Bool)
  /-- `_exchange_post` returns or raises -/
  | exchange (answer : Answer)
  /-- `sleep(0.5)` returns -/
  | slept
  /-- the owner of an admitted `acquire` calls `release` -/
  | release
  deriving DecidableEq, Repr

inductive GatewayEvent where
  | acquire (ip symbol : String) (isEmergency : Bool)
  | postMarketOrder (order : Order) (priority : ℤ) (time : ℚ)
  | on (call : ℕ) (e : CallEvent)
  | record429 (symbol : String)
  | recordSuccess (symbol : String)
  | setCriticalBypass (val : Bool)
  /-- the monotonic clock advances to `mono` -/
  | tick (mono : ℚ)

/-- The gateway, the calls by number, the monotonic clock. -/
structure GatewayWorld where
  gateway : RestGateway
  calls : List Call
  mono : ℚ

namespace GatewayWorld
open RestGateway

def fresh (cfg : RestGatewayConfig) : GatewayWorld := ⟨RestGateway.fresh cfg, [], 0⟩

/-- All three taken, or waiting for the next. -/
def waiting (taken rest : List Sem) : Phase := if rest = [] then .token else .acquiring taken rest

/-- `acquire` up to its first suspension: the phase, and whether the call is a probe. -/
def acquire (cfg : RestGatewayConfig) (mono : ℚ) (t : ℕ) (ip symbol : String) (isEmergency : Bool) (g : RestGateway) :
    Phase × Option ℕ × RestGateway :=
  if g.criticalBypass then (.ended .raised, none, g)
  else match g.isCircuitOpen cfg mono symbol with
    | (true, g') => (.ended .refused, none, g')
    | (false, g') =>
      let (sems, taken, rest) := takeAll t g'.sems [] (semsOf ip symbol isEmergency)
      let probe := if g.halfOpenProbeUsed symbol = false ∧ g'.halfOpenProbeUsed symbol = true then
        some (g'.openings symbol) else none
      (waiting taken rest, probe, { g' with sems := sems })

/-- What happens to the call `c` with number `t`; `none` when it is not suspended there. -/
def move (cfg : RestGatewayConfig) (mono : ℚ) (t : ℕ) (c : Call) (g : RestGateway) :
    CallEvent → Option (Phase × RestGateway)
  | .resume => match c.phase with
    | .acquiring taken (k :: rest) =>
      if (g.sems k).granted t then
        let (sems, taken', rest') := takeAll t (Function.update g.sems k ((g.sems k).resume t)) (taken ++ [k]) rest
        some (waiting taken' rest', { g with sems := sems })
      else none
    | _ => none
  | .timeout => match c.phase with
    | .acquiring _ (k :: _) =>
      let g' := { g with sems := Function.update g.sems k ((g.sems k).abandon t) }
      -- the handler does not know how many of the three were taken
      some (.ended .refused, g'.giveBack c.sems.reverse)
    | _ => none
  | .cancel => match c.phase with
    | .acquiring _ (k :: _) =>
      -- `CancelledError` passes both handlers
      some (.ended .raised, { g with sems := Function.update g.sems k ((g.sems k).abandon t) })
    | .token | .directToken _ | .directExchange _ | .directSleep _ => some (.ended .raised, g)
    | .exchange => some (.ended .raised, g.giveBack c.sems.reverse)
    | _ => none
  | .token ok => match c.phase with
    | .token =>
      if ok then some (if c.order.isSome then .exchange else .admitted, g)
      else some (.ended .refused, g.giveBack c.sems.reverse)
    | .directToken n => some (if ok then .directExchange n else .directSleep n, g)
    | _ => none
  | .exchange answer => match c.phase with
    | .exchange => match answer with
      | .posted => some (.ended .posted, (g.recordSuccess c.symbol).giveBack c.sems.reverse)
      | .rateLimited => some (.ended .rateLimited, (g.record429 cfg mono c.symbol).giveBack c.sems.reverse)
      | .raises => some (.ended .raised, g.giveBack c.sems.reverse)
    | .directExchange n => match answer with
      | .posted => some (.ended .posted, g.recordSuccess c.symbol)
      | .rateLimited => some (.directSleep n, g.record429 cfg mono c.symbol)
      | .raises => some (.directSleep n, g)
    | _ => none
  | .slept => match c.phase with
    | .directSleep n => some (if n < 2 then .directToken (n + 1) else .ended .exhausted, g)
    | _ => none
  | .release => match c.phase with
    | .admitted => some (.ended .released, g.giveBack c.sems.reverse)
    | _ => none

/-- A new call enters `acquire`. -/
def enter (cfg : RestGatewayConfig) (w : GatewayWorld) (ip symbol : String) (isEmergency : Bool) (order : Option Bool)
    (queued : Option ℕ) (g : RestGateway) : GatewayWorld :=
  let (phase, probe, g') := acquire cfg w.mono w.calls.length ip symbol isEmergency g
  { w with gateway := g', calls := w.calls ++ [⟨ip, symbol, isEmergency, order, phase, queued, probe⟩] }

def step (cfg : RestGatewayConfig) (w : GatewayWorld) : GatewayEvent → GatewayWorld
  | .acquire ip symbol isEmergency => w.enter cfg ip symbol isEmergency none none w.gateway
  | .postMarketOrder order priority time =>
    let symbol := order.symbol.getD ""
    let isEmergency := decide (priority = 0)
    match w.gateway.pacer.enqueue cfg.pacer priority order time with
    | .ok pacer =>
      w.enter cfg "default" symbol isEmergency (some (order.reduceOnly.getD true)) (some w.gateway.pacer.seq)
        { w.gateway with pacer := pacer }
    | .error .full => { w with
        calls := w.calls ++ [⟨"default", symbol, isEmergency, some true, .directToken 1, none, none⟩] }
    | .error .assertion => { w with
        calls := w.calls ++ [⟨"default", symbol, isEmergency, some true, .ended .raised, none, none⟩] }
  | .on t e => match w.calls[t]? with
    | none => w
    | some c => match move cfg w.mono t c w.gateway e with
      | none => w
      | some (phase, g) => { w with gateway := g, calls := w.calls.set t { c with phase := phase } }
  | .record429 symbol => { w with gateway := w.gateway.record429 cfg w.mono symbol }
  | .recordSuccess symbol => { w with gateway := w.gateway.recordSuccess symbol }
  | .setCriticalBypass val => { w with gateway := { w.gateway with criticalBypass := val } }
  | .tick mono => { w with mono := max w.mono mono }

/-! ## What a resumption can do -/

section Moves
variable (cfg : RestGatewayConfig) (mono : ℚ) (t : ℕ) (c : Call) (g : RestGateway)

/-- Everything that can happen to a suspended call. -/
inductive Moved : CallEvent → Phase → RestGateway → Prop where
  | resumed {taken rest taken' rest' : List Sem} {k : Sem} {sems : Sem → Semaphore ℕ}
      (phase : c.phase = .acquiring taken (k :: rest)) (granted : (g.sems k).granted t = true)
      (takes : takeAll t (Function.update g.sems k ((g.sems k).resume t)) (taken ++ [k]) rest = (sems, taken', rest')) :
      Moved .resume (waiting taken' rest') { g with sems := sems }
  | timedOut {taken rest : List Sem} {k : Sem} (phase : c.phase = .acquiring taken (k :: rest)) :
      Moved .timeout (.ended .refused)
        (giveBack c.sems.reverse { g with sems := Function.update g.sems k ((g.sems k).abandon t) })
  | cancelledWaiting {taken rest : List Sem} {k : Sem} (phase : c.phase = .acquiring taken (k :: rest)) :
      Moved .cancel (.ended .raised) { g with sems := Function.update g.sems k ((g.sems k).abandon t) }
  | cancelledToken (phase : c.phase = .token) : Moved .cancel (.ended .raised) g
  | cancelledDirect (phase : ∃ n, c.phase = .directToken n ∨ c.phase = .directExchange n ∨ c.phase = .directSleep n) :
      Moved .cancel (.ended .raised) g
  | cancelledExchange (phase : c.phase = .exchange) : Moved .cancel (.ended .raised) (g.giveBack c.sems.reverse)
  | admitted (phase : c.phase = .token) : Moved (.token true) (if c.order.isSome then .exchange else .admitted) g
  | refused (phase : c.phase = .token) : Moved (.token false) (.ended .refused) (g.giveBack c.sems.reverse)
  | directToken {n : ℕ} {ok : Bool} (phase : c.phase = .directToken n) :
      Moved (.token ok) (if ok then .directExchange n else .directSleep n) g
  | posted (phase : c.phase = .exchange) :
      Moved (.exchange .posted) (.ended .posted) ((g.recordSuccess c.symbol).giveBack c.sems.reverse)
  | rateLimited (phase : c.phase = .exchange) :
      Moved (.exchange .rateLimited) (.ended .rateLimited) ((g.record429 cfg mono c.symbol).giveBack c.sems.reverse)
  | raised (phase : c.phase = .exchange) :
      Moved (.exchange .raises) (.ended .raised) (g.giveBack c.sems.reverse)
  | directPosted {n : ℕ} (phase : c.phase = .directExchange n) :
      Moved (.exchange .posted) (.ended .posted) (g.recordSuccess c.symbol)
  | directRateLimited {n : ℕ} (phase : c.phase = .directExchange n) :
      Moved (.exchange .rateLimited) (.directSleep n) (g.record429 cfg mono c.symbol)
  | directRaised {n : ℕ} (phase : c.phase = .directExchange n) : Moved (.exchange .raises) (.directSleep n) g
  | slept {n : ℕ} (phase : c.phase = .directSleep n) :
      Moved .slept (if n < 2 then .directToken (n + 1) else .ended .exhausted) g
  | released (phase : c.phase = .admitted) : Moved .release (.ended .released) (g.giveBack c.sems.reverse)

variable {cfg mono t c g} {e : CallEvent} {phase : Phase} {g' : RestGateway}

theorem move_cases (h : move cfg mono t c g e = some (phase, g')) : Moved cfg mono t c g e phase g' := by
  cases e with
  | resume =>
    simp only [move] at h
    split at h
    · rename_i hphase
      split at h
      · rename_i hgranted
        cases h
        exact .resumed hphase hgranted rfl
      · cases h
    · cases h
  | timeout =>
    simp only [move] at h
    split at h
    · rename_i hphase
      cases h
      exact .timedOut hphase
    · cases h
  | cancel =>
    simp only [move] at h
    split at h <;> cases h
    · exact .cancelledWaiting ‹_›
    · exact .cancelledToken ‹_›
    · exact .cancelledDirect ⟨_, Or.inl ‹_›⟩
    · exact .cancelledDirect ⟨_, Or.inr (Or.inl ‹_›)⟩
    · exact .cancelledDirect ⟨_, Or.inr (Or.inr ‹_›)⟩
    · exact .cancelledExchange ‹_›
  | token ok =>
    simp only [move] at h
    split at h
    · cases ok <;> cases h
      · exact .refused ‹_›
      · exact .admitted ‹_›
    · cases h
      exact .directToken ‹_›
    · cases h
  | exchange answer =>
    simp only [move] at h
    split at h
    · cases answer <;> cases h
      · exact .posted ‹_›
      · exact .rateLimited ‹_›
      · exact .raised ‹_›
    · cases answer <;> cases h
      · exact .directPosted ‹_›
      · exact .directRateLimited ‹_›
      · exact .directRaised ‹_›
    · cases h
  | slept =>
    simp only [move] at h
    split at h
    · cases h
      exact .slept ‹_›
    · cases h
  | release =>
    simp only [move] at h
    split at h
    · cases h
      exact .released ‹_›
    · cases h

end Moves

end GatewayWorld

end MikoV2.Execution
