import MikoV2.Lib.Runs
import MikoV2.Rotation.Agreement

/-!
# `MEXCWSClient`

The client keeps the symbols that it has subscribed. A subscription is two messages, one for the depth and one for the
deals, and each of the sends may raise.

* `connect`, `subscribe`, `unsubscribe`, `close` : the calls;
* `served` : what the exchange sends, by the messages that it has got;
* `View` : a symbol at the client and at the exchange; `view_subscribe`, `view_unsubscribe` : what a call does to it;
* `View.Agrees`, `View.Cut` : the two are of one mind, or a call has been cut between its messages;
* `ClientRun`, `client_run` : what holds after any run of calls;
* `rotate`, `applyRotation_ws` : a rotation of the runner, carried out by the client.
-/

namespace MikoV2.Ws
open Py (PySet)

inductive Channel
  | depth
  | deal
deriving DecidableEq, Repr

/-- `{"method": "sub.depth", "param": {"symbol": symbol}}`, and the other three. -/
structure Message where
  sub : Bool
  channel : Channel
  symbol : String
deriving DecidableEq, Repr

structure MEXCWSClient where
  symbols : List String
  /-- `on_deal` is given -/
  onDeal : Bool
  subscribed : PySet String := .empty
  /-- `_ws is not None` -/
  connected : Bool := false
  running : Bool := false
  /-- the messages sent on the connection -/
  sent : List Message := []

namespace MEXCWSClient

def send (sub : Bool) (channel : Channel) (symbol : String) (c : MEXCWSClient) : MEXCWSClient :=
  { c with sent := c.sent ++ [⟨sub, channel, symbol⟩] }

/-- The first loop of `connect`, and whether it came to its end; `raises n` when the `n`th message of the call does. -/
def connectDepth (raises : ℕ → Bool) : List String → ℕ → MEXCWSClient → Bool × MEXCWSClient
  | [], _, c => (true, c)
  | symbol :: symbols, n, c =>
    if raises n then (false, c)
    else connectDepth raises symbols (n + 1)
      { c.send true .depth symbol with subscribed := c.subscribed.add symbol }

def connectDeal (raises : ℕ → Bool) : List String → ℕ → MEXCWSClient → Bool × MEXCWSClient
  | [], _, c => (true, c)
  | symbol :: symbols, n, c =>
    if raises n then (false, c) else connectDeal raises symbols (n + 1) (c.send true .deal symbol)

/-- `connect`, and whether it returned; `opens` when `ws_connect` does. -/
def connect (opens : Bool) (raises : ℕ → Bool) (c : MEXCWSClient) : Bool × MEXCWSClient :=
  if opens then
    match connectDepth raises c.symbols 0 { c with connected := true, sent := [] } with
    | (false, c) => (false, c)
    | (true, c) =>
      match if c.onDeal then connectDeal raises c.symbols c.symbols.length c else (true, c) with
      | (false, c) => (false, c)
      | (true, c) => (true, { c with running := true })
  else (false, c)

/-- `subscribe`; the result is `none` when a send raises. -/
def subscribe (raises : Channel → Bool) (symbol : String) (c : MEXCWSClient) : Option Bool × MEXCWSClient :=
  if !c.connected || !c.running then (some false, c)
  else if symbol ∈ c.subscribed then (some false, c)
  else if raises .depth then (none, c)
  else
    let c := c.send true .depth symbol
    if c.onDeal && raises .deal then (none, c)
    else
      let c := if c.onDeal then c.send true .deal symbol else c
      (some true, { c with
        subscribed := c.subscribed.add symbol
        symbols := if symbol ∈ c.symbols then c.symbols else c.symbols ++ [symbol] })

def unsubscribe (raises : Channel → Bool) (symbol : String) (c : MEXCWSClient) : Option Bool × MEXCWSClient :=
  if !c.connected || !c.running then (some false, c)
  else if symbol ∉ c.subscribed then (some false, c)
  else if raises .depth then (none, c)
  else
    let c := c.send false .depth symbol
    if c.onDeal && raises .deal then (none, c)
    else
      let c := if c.onDeal then c.send false .deal symbol else c
      (some true, { c with
        subscribed := c.subscribed.discard symbol
        symbols := c.symbols.erase symbol })

/-- `close`; the connection is gone. -/
def close (c : MEXCWSClient) : MEXCWSClient :=
  { c with running := false, connected := false, subscribed := .empty, sent := [] }

/-- The watchdog of `_ping_loop` has had no data for a minute. -/
def starve (c : MEXCWSClient) : MEXCWSClient := { c with running := false }

end MEXCWSClient

/-! ## The exchange -/

/-- Whether the exchange sends a channel of a symbol, by the messages of a connection. -/
def served (sent : List Message) (channel : Channel) (symbol : String) : Bool :=
  sent.foldl (fun on m => if m.channel = channel ∧ m.symbol = symbol then m.sub else on) false

theorem served_append (sent : List Message) (m : Message) (channel : Channel) (symbol : String) :
    served (sent ++ [m]) channel symbol =
      if m.channel = channel ∧ m.symbol = symbol then m.sub else served sent channel symbol := by
  unfold served
  rw [List.foldl_append]
  rfl

section Send
variable (sub : Bool) (channel : Channel) (symbol : String) (c : MEXCWSClient)

@[simp] theorem send_symbols : (c.send sub channel symbol).symbols = c.symbols := rfl

@[simp] theorem send_onDeal : (c.send sub channel symbol).onDeal = c.onDeal := rfl

@[simp] theorem send_subscribed : (c.send sub channel symbol).subscribed = c.subscribed := rfl

@[simp] theorem send_running : (c.send sub channel symbol).running = c.running := rfl

@[simp] theorem send_connected : (c.send sub channel symbol).connected = c.connected := rfl

@[simp] theorem served_send (channel' : Channel) (k : String) : served (c.send sub channel symbol).sent channel' k =
    if channel = channel' ∧ symbol = k then sub else served c.sent channel' k := served_append ..

end Send

/-- Subscriptions of a list of symbols. -/
theorem served_subscribed (channel channel' : Channel) (symbol : String) (symbols : List String) :
    ∀ sent, served (sent ++ symbols.map fun s => ⟨true, channel, s⟩) channel' symbol =
      (decide (channel = channel' ∧ symbol ∈ symbols) || served sent channel' symbol) := by
  induction symbols with
  | nil => simp
  | cons s symbols ih =>
    intro sent
    rw [List.map_cons, ← List.singleton_append, ← List.append_assoc, ih, served_append]
    by_cases hone : channel = channel' ∧ s = symbol
    · obtain ⟨rfl, rfl⟩ := hone
      simp
    · rw [if_neg hone]
      by_cases hch : channel = channel'
      · have hs : symbol ≠ s := fun h => hone ⟨hch, h.symm⟩
        simp [hch, hs]
      · simp [hch]

/-- A symbol at the client and at the exchange. -/
structure View where
  subscribed : Bool
  depth : Bool
  deal : Bool
deriving DecidableEq, Repr

def MEXCWSClient.view (symbol : String) (c : MEXCWSClient) : View where
  subscribed := decide (symbol ∈ c.subscribed)
  depth := served c.sent .depth symbol
  deal := served c.sent .deal symbol

/-- The exchange sends what the client has subscribed. -/
def View.Agrees (onDeal : Bool) (v : View) : Prop := v.depth = v.subscribed ∧ v.deal = (v.subscribed && onDeal)

/-- A call has been cut between its two messages. -/
def View.Cut (onDeal : Bool) (v : View) : Prop := onDeal = true ∧ v.depth = !v.subscribed ∧ v.deal = v.subscribed

def subscribeView (onDeal : Bool) (raises : Channel → Bool) (v : View) : View :=
  if v.subscribed then v
  else if raises .depth then v
  else if onDeal && raises .deal then { v with depth := true }
  else ⟨true, true, onDeal || v.deal⟩

def unsubscribeView (onDeal : Bool) (raises : Channel → Bool) (v : View) : View :=
  if !v.subscribed then v
  else if raises .depth then v
  else if onDeal && raises .deal then { v with depth := false }
  else ⟨false, false, !onDeal && v.deal⟩

section Calls
variable {c : MEXCWSClient} {symbol k : String} {raises : Channel → Bool}

theorem view_subscribe (hconnected : c.connected = true) (hrunning : c.running = true) :
    (c.subscribe raises symbol).2.view k =
      if k = symbol then subscribeView c.onDeal raises (c.view k) else c.view k := by
  unfold MEXCWSClient.subscribe subscribeView MEXCWSClient.view
  rw [hconnected, hrunning, if_neg (by decide)]
  by_cases hk : k = symbol
  · subst hk
    rw [if_pos rfl]
    by_cases hmem : k ∈ c.subscribed
    · simp [hmem]
    · cases hdepth : raises .depth with
      | true => simp [hmem]
      | false =>
        cases hdeal : c.onDeal <;> cases hraise : raises .deal <;>
          simp [hmem, PySet.mem_add, hdeal]
  · rw [if_neg hk]
    have hne : symbol ≠ k := Ne.symm hk
    by_cases hmem : symbol ∈ c.subscribed
    · simp [hmem]
    · cases hdepth : raises .depth with
      | true => simp [hmem]
      | false =>
        cases hdeal : c.onDeal <;> cases hraise : raises .deal <;>
          simp [hmem, PySet.mem_add, hdeal, hk, hne]

theorem view_unsubscribe (hconnected : c.connected = true) (hrunning : c.running = true) :
    (c.unsubscribe raises symbol).2.view k =
      if k = symbol then unsubscribeView c.onDeal raises (c.view k) else c.view k := by
  unfold MEXCWSClient.unsubscribe unsubscribeView MEXCWSClient.view
  rw [hconnected, hrunning, if_neg (by decide)]
  by_cases hk : k = symbol
  · subst hk
    rw [if_pos rfl]
    by_cases hmem : k ∈ c.subscribed
    · cases hdepth : raises .depth with
      | true => simp [hmem]
      | false =>
        cases hdeal : c.onDeal <;> cases hraise : raises .deal <;>
          simp [hmem, PySet.mem_discard, hdeal]
    · simp [hmem]
  · rw [if_neg hk]
    have hne : symbol ≠ k := Ne.symm hk
    by_cases hmem : symbol ∈ c.subscribed
    · cases hdepth : raises .depth with
      | true => simp [hmem]
      | false =>
        cases hdeal : c.onDeal <;> cases hraise : raises .deal <;>
          simp [hmem, PySet.mem_discard, hdeal, hk, hne]
    · simp [hmem]

end Calls

/-! ## A symbol -/

section Views
variable {onDeal : Bool} {v : View} {raises : Channel → Bool}

/-- The call for a symbol is cut after its first message. -/
def CutBy (raises : Channel → Bool) : Prop := raises .depth = false ∧ raises .deal = true

/-- In both states the deals are sent where the client has subscribed them. -/
theorem View.deal_of (h : v.Agrees onDeal ∨ v.Cut onDeal) : v.deal = (v.subscribed && onDeal) := by
  rcases h with h | ⟨hdeal, -, hv⟩
  · exact h.2
  · rw [hv, hdeal, Bool.and_true]

theorem subscribeView_kept (h : v.Agrees onDeal ∨ v.Cut onDeal) :
    (subscribeView onDeal raises v).Agrees onDeal ∨
      (subscribeView onDeal raises v).Cut onDeal ∧ (v.Cut onDeal ∨ CutBy raises) := by
  have hsame : v.Agrees onDeal ∨ v.Cut onDeal ∧ (v.Cut onDeal ∨ CutBy raises) := h.imp_right fun hcut => ⟨hcut, .inl hcut⟩
  have hdeal := View.deal_of h
  unfold subscribeView
  split
  · exact hsame
  · rename_i hsub
    rw [Bool.not_eq_true] at hsub
    rw [hsub, Bool.false_and] at hdeal
    split
    · exact hsame
    · rename_i hdepth
      split
      · rename_i hraise
        rw [Bool.and_eq_true] at hraise
        exact .inr ⟨⟨hraise.1, by rw [hsub]; rfl, by rw [hsub]; exact hdeal⟩, .inr ⟨Bool.not_eq_true _ ▸ hdepth, hraise.2⟩⟩
      · exact .inl ⟨rfl, by rw [hdeal, Bool.or_false, Bool.true_and]⟩

theorem unsubscribeView_kept (h : v.Agrees onDeal ∨ v.Cut onDeal) :
    (unsubscribeView onDeal raises v).Agrees onDeal ∨
      (unsubscribeView onDeal raises v).Cut onDeal ∧ (v.Cut onDeal ∨ CutBy raises) := by
  have hsame : v.Agrees onDeal ∨ v.Cut onDeal ∧ (v.Cut onDeal ∨ CutBy raises) := h.imp_right fun hcut => ⟨hcut, .inl hcut⟩
  have hdeal := View.deal_of h
  unfold unsubscribeView
  split
  · exact hsame
  · rename_i hsub
    rw [Bool.not_eq_true, Bool.not_eq_false'] at hsub
    rw [hsub, Bool.true_and] at hdeal
    split
    · exact hsame
    · rename_i hdepth
      split
      · rename_i hraise
        rw [Bool.and_eq_true] at hraise
        exact .inr ⟨⟨hraise.1, by rw [hsub]; rfl, by rw [hsub, ← hraise.1]; exact hdeal⟩,
          .inr ⟨Bool.not_eq_true _ ▸ hdepth, hraise.2⟩⟩
      · exact .inl ⟨rfl, by rw [hdeal, Bool.not_and_self]; rfl⟩

end Views

/-! ## Runs -/

inductive ClientEvent
  | connect (opens : Bool) (raises : ℕ → Bool)
  | subscribe (symbol : String) (raises : Channel → Bool)
  | unsubscribe (symbol : String) (raises : Channel → Bool)
  | starve
  | close

def clientStep (c : MEXCWSClient) : ClientEvent → MEXCWSClient
  | .connect opens raises => (c.connect opens raises).2
  | .subscribe symbol raises => (c.subscribe raises symbol).2
  | .unsubscribe symbol raises => (c.unsubscribe raises symbol).2
  | .starve => c.starve
  | .close => c.close

/-- A client is not connected while it runs. -/
def ClientAllowed (c : MEXCWSClient) : ClientEvent → Prop
  | .connect _ _ => c.running = false
  | _ => True

/-- The event is a call for the symbol that is cut between its messages. -/
def Cuts (symbol : String) : ClientEvent → Prop
  | .subscribe s raises => s = symbol ∧ CutBy raises
  | .unsubscribe s raises => s = symbol ∧ CutBy raises
  | _ => False

section Invariant
variable {c c' : MEXCWSClient} {evs : List ClientEvent} {ev : ClientEvent} {symbol k : String} {raises : Channel → Bool}

/-- A symbol is subscribed as the client has it, or a call for it has been cut. -/
def Served (evs : List ClientEvent) (c : MEXCWSClient) (s : String) : Prop :=
  (c.view s).Agrees c.onDeal ∨ (c.view s).Cut c.onDeal ∧ ∃ ev ∈ evs, Cuts s ev

theorem Served.either (h : Served evs c symbol) : (c.view symbol).Agrees c.onDeal ∨ (c.view symbol).Cut c.onDeal :=
  h.imp_right And.left

structure Known (evs : List ClientEvent) (c : MEXCWSClient) : Prop where
  nodup : c.symbols.Nodup
  listed : ∀ s ∈ c.subscribed, s ∈ c.symbols
  closed : c.connected = false → c.running = false ∧ ∀ s, s ∉ c.subscribed
  all : c.running = true → ∀ s ∈ c.symbols, s ∈ c.subscribed
  served : c.running = true → ∀ s, Served evs c s

theorem Known.connected (h : Known evs c) (hrunning : c.running = true) : c.connected = true := by
  by_contra hnot
  rw [Bool.not_eq_true] at hnot
  rw [(h.closed hnot).1] at hrunning
  cases hrunning

theorem Known.mono (h : Known evs c) (ev : ClientEvent) : Known (evs ++ [ev]) c := by
  refine ⟨h.nodup, h.listed, h.closed, h.all, fun hrunning s => ?_⟩
  refine (h.served hrunning s).imp_right fun ⟨hcut, ev', hmem, hcuts⟩ => ⟨hcut, ev', List.mem_append_left _ hmem, hcuts⟩

/-- What a call of `subscribe` changes of the client. -/
theorem subscribe_cases (raises : Channel → Bool) (symbol : String) (c : MEXCWSClient) :
    (∃ sent, (c.subscribe raises symbol).2 = { c with sent }) ∨
      c.connected = true ∧ ∃ sent, (c.subscribe raises symbol).2 = { c with
        sent
        subscribed := c.subscribed.add symbol
        symbols := if symbol ∈ c.symbols then c.symbols else c.symbols ++ [symbol] } := by
  unfold MEXCWSClient.subscribe
  split
  · exact .inl ⟨c.sent, rfl⟩
  · rename_i hready
    have hconnected : c.connected = true := by
      by_contra hnot
      rw [Bool.not_eq_true] at hnot
      rw [hnot] at hready
      exact hready rfl
    split
    · exact .inl ⟨c.sent, rfl⟩
    · split
      · exact .inl ⟨c.sent, rfl⟩
      · dsimp only
        split
        · exact .inl ⟨_, rfl⟩
        · by_cases hdeal : (c.send true .depth symbol).onDeal = true
          · rw [if_pos hdeal]
            exact .inr ⟨hconnected, _, rfl⟩
          · rw [if_neg hdeal]
            exact .inr ⟨hconnected, _, rfl⟩

theorem unsubscribe_cases (raises : Channel → Bool) (symbol : String) (c : MEXCWSClient) :
    (∃ sent, (c.unsubscribe raises symbol).2 = { c with sent }) ∨
      ∃ sent, (c.unsubscribe raises symbol).2 = { c with
        sent
        subscribed := c.subscribed.discard symbol
        symbols := c.symbols.erase symbol } := by
  unfold MEXCWSClient.unsubscribe
  split
  · exact .inl ⟨c.sent, rfl⟩
  · split
    · exact .inl ⟨c.sent, rfl⟩
    · split
      · exact .inl ⟨c.sent, rfl⟩
      · dsimp only
        split
        · exact .inl ⟨_, rfl⟩
        · by_cases hdeal : (c.send false .depth symbol).onDeal = true
          · rw [if_pos hdeal]
            exact .inr ⟨_, rfl⟩
          · rw [if_neg hdeal]
            exact .inr ⟨_, rfl⟩

/-- What an event leaves of a symbol. -/
theorem Served.step (h : Served evs c k) (honDeal : c'.onDeal = c.onDeal)
    (hview : c'.view k = c.view k ∨ (c'.view k).Agrees c.onDeal ∨
      (c'.view k).Cut c.onDeal ∧ ((c.view k).Cut c.onDeal ∨ Cuts k ev)) : Served (evs ++ [ev]) c' k := by
  unfold Served at h ⊢
  rw [honDeal]
  have hcuts : (c.view k).Cut c.onDeal → ∃ ev' ∈ evs ++ [ev], Cuts k ev' := by
    intro hcut
    rcases h with hagrees | ⟨-, ev', hmem, hcuts⟩
    · have hne := hagrees.1.symm.trans hcut.2.1
      cases hsub : (c.view k).subscribed <;> rw [hsub] at hne <;> cases hne
    · exact ⟨ev', List.mem_append_left _ hmem, hcuts⟩
  rcases hview with hsame | hagrees | ⟨hcut, hold | hnew⟩
  · rw [hsame]
    exact h.imp_right fun hcut => ⟨hcut.1, hcuts hcut.1⟩
  · exact .inl hagrees
  · exact .inr ⟨hcut, hcuts hold⟩
  · exact .inr ⟨hcut, ev, List.mem_append_right _ (List.mem_singleton_self _), hnew⟩

theorem subscribe_eq_true (h : (c.subscribe raises symbol).1 = some true) :
    symbol ∉ c.subscribed ∧ raises .depth = false ∧ (c.onDeal && raises .deal) = false := by
  unfold MEXCWSClient.subscribe at h
  split at h
  · cases h
  · split at h
    · cases h
    · rename_i hmem
      split at h
      · cases h
      · rename_i hdepth
        dsimp only at h
        split at h
        · cases h
        · rename_i hdeal
          exact ⟨hmem, Bool.not_eq_true _ ▸ hdepth, Bool.not_eq_true _ ▸ hdeal⟩

theorem unsubscribe_eq_true (h : (c.unsubscribe raises symbol).1 = some true) :
    symbol ∈ c.subscribed ∧ raises .depth = false ∧ (c.onDeal && raises .deal) = false := by
  unfold MEXCWSClient.unsubscribe at h
  split at h
  · cases h
  · split at h
    · cases h
    · rename_i hmem
      split at h
      · cases h
      · rename_i hdepth
        dsimp only at h
        split at h
        · cases h
        · rename_i hdeal
          exact ⟨not_not.mp hmem, Bool.not_eq_true _ ▸ hdepth, Bool.not_eq_true _ ▸ hdeal⟩

theorem Known.subscribe (h : Known evs c) (symbol : String) (raises : Channel → Bool) :
    Known (evs ++ [.subscribe symbol raises]) (c.subscribe raises symbol).2 := by
  have hview : c.running = true → ∀ s, (c.subscribe raises symbol).2.view s = c.view s ∨
      ((c.subscribe raises symbol).2.view s).Agrees c.onDeal ∨ ((c.subscribe raises symbol).2.view s).Cut c.onDeal ∧
        ((c.view s).Cut c.onDeal ∨ Cuts s (.subscribe symbol raises)) := by
    intro hrunning s
    rw [view_subscribe (h.connected hrunning) hrunning]
    split
    · rename_i hs
      exact .inr ((subscribeView_kept (h.served hrunning s).either).imp_right
        (And.imp_right (Or.imp_right fun hcut => ⟨hs.symm, hcut⟩)))
    · exact .inl rfl
  rcases subscribe_cases raises symbol c with ⟨sent, heq⟩ | ⟨hconnected, sent, heq⟩
  · rw [heq] at hview ⊢
    exact ⟨h.nodup, h.listed, h.closed, h.all, fun hrunning s => (h.served hrunning s).step rfl (hview hrunning s)⟩
  · rw [heq] at hview ⊢
    refine ⟨?_, fun s hs => ?_, fun hnot => ?_, fun hrunning s hs => ?_,
      fun hrunning s => (h.served hrunning s).step rfl (hview hrunning s)⟩
    · show (if symbol ∈ c.symbols then c.symbols else c.symbols ++ [symbol]).Nodup
      split
      · exact h.nodup
      · rename_i hnew
        exact List.nodup_append.mpr ⟨h.nodup, List.nodup_singleton symbol, fun a ha b hb hab => hnew (by
          rw [← List.mem_singleton.mp hb, ← hab]; exact ha)⟩
    · show s ∈ if symbol ∈ c.symbols then c.symbols else c.symbols ++ [symbol]
      rcases PySet.mem_add.mp hs with hs | rfl
      · split
        · exact h.listed s hs
        · exact List.mem_append_left _ (h.listed s hs)
      · split
        · assumption
        · exact List.mem_append_right _ (List.mem_singleton_self s)
    · rw [hconnected] at hnot
      cases hnot
    · have hs : s ∈ if symbol ∈ c.symbols then c.symbols else c.symbols ++ [symbol] := hs
      refine PySet.mem_add.mpr ?_
      split at hs
      · exact .inl (h.all hrunning s hs)
      · rcases List.mem_append.mp hs with hs | hs
        · exact .inl (h.all hrunning s hs)
        · exact .inr (List.mem_singleton.mp hs)

theorem Known.unsubscribe (h : Known evs c) (symbol : String) (raises : Channel → Bool) :
    Known (evs ++ [.unsubscribe symbol raises]) (c.unsubscribe raises symbol).2 := by
  have hview : c.running = true → ∀ s, (c.unsubscribe raises symbol).2.view s = c.view s ∨
      ((c.unsubscribe raises symbol).2.view s).Agrees c.onDeal ∨ ((c.unsubscribe raises symbol).2.view s).Cut c.onDeal ∧
        ((c.view s).Cut c.onDeal ∨ Cuts s (.unsubscribe symbol raises)) := by
    intro hrunning s
    rw [view_unsubscribe (h.connected hrunning) hrunning]
    split
    · rename_i hs
      exact .inr ((unsubscribeView_kept (h.served hrunning s).either).imp_right
        (And.imp_right (Or.imp_right fun hcut => ⟨hs.symm, hcut⟩)))
    · exact .inl rfl
  rcases unsubscribe_cases raises symbol c with ⟨sent, heq⟩ | ⟨sent, heq⟩
  · rw [heq] at hview ⊢
    exact ⟨h.nodup, h.listed, h.closed, h.all, fun hrunning s => (h.served hrunning s).step rfl (hview hrunning s)⟩
  · rw [heq] at hview ⊢
    refine ⟨h.nodup.erase symbol, fun s hs => ?_, fun hnot => ?_, fun hrunning s hs => ?_,
      fun hrunning s => (h.served hrunning s).step rfl (hview hrunning s)⟩
    · obtain ⟨hs, hne⟩ := PySet.mem_discard.mp hs
      exact (List.mem_erase_of_ne hne).mpr (h.listed s hs)
    · obtain ⟨hrunning, hnone⟩ := h.closed hnot
      exact ⟨hrunning, fun s hs => hnone s (PySet.mem_discard.mp hs).1⟩
    · obtain ⟨hne, hs⟩ := (h.nodup.mem_erase_iff).mp hs
      exact PySet.mem_discard.mpr ⟨h.all hrunning s hs, hne⟩

/-! ## Connecting -/

theorem connectDepth_spec (raises : ℕ → Bool) (l : List String) : ∀ (n : ℕ) (c : MEXCWSClient), ∃ done, done <+: l ∧
    (MEXCWSClient.connectDepth raises l n c).2 = { c with
      sent := c.sent ++ done.map fun s => ⟨true, .depth, s⟩
      subscribed := done.foldl PySet.add c.subscribed } ∧
    ((MEXCWSClient.connectDepth raises l n c).1 = true → done = l) := by
  induction l with
  | nil => exact fun n c => ⟨[], List.prefix_refl _, by simp [MEXCWSClient.connectDepth], fun _ => rfl⟩
  | cons s l ih =>
    intro n c
    unfold MEXCWSClient.connectDepth
    split
    · exact ⟨[], List.nil_prefix, by simp, fun h => (nomatch h)⟩
    · obtain ⟨done, hpre, heq, hall⟩ := ih (n + 1) { c.send true .depth s with subscribed := c.subscribed.add s }
      refine ⟨s :: done, List.cons_prefix_cons.mpr ⟨rfl, hpre⟩, heq.trans ?_, fun h => congrArg (s :: ·) (hall h)⟩
      simp [MEXCWSClient.send]

theorem connectDeal_spec (raises : ℕ → Bool) (l : List String) : ∀ (n : ℕ) (c : MEXCWSClient), ∃ done, done <+: l ∧
    (MEXCWSClient.connectDeal raises l n c).2 = { c with sent := c.sent ++ done.map fun s => ⟨true, .deal, s⟩ } ∧
    ((MEXCWSClient.connectDeal raises l n c).1 = true → done = l) := by
  induction l with
  | nil => exact fun n c => ⟨[], List.prefix_refl _, by simp [MEXCWSClient.connectDeal], fun _ => rfl⟩
  | cons s l ih =>
    intro n c
    unfold MEXCWSClient.connectDeal
    split
    · exact ⟨[], List.nil_prefix, by simp, fun h => (nomatch h)⟩
    · obtain ⟨done, hpre, heq, hall⟩ := ih (n + 1) (c.send true .deal s)
      refine ⟨s :: done, List.cons_prefix_cons.mpr ⟨rfl, hpre⟩, heq.trans ?_, fun h => congrArg (s :: ·) (hall h)⟩
      simp [MEXCWSClient.send]

/-- The client after a `connect` that has returned. -/
def MEXCWSClient.opened (c : MEXCWSClient) : MEXCWSClient :=
  { c with
    connected := true
    running := true
    sent := (c.symbols.map fun s => ⟨true, .depth, s⟩) ++
      if c.onDeal then c.symbols.map fun s => ⟨true, .deal, s⟩ else []
    subscribed := c.symbols.foldl PySet.add c.subscribed }

/-- `connect` returns, or has come to some of the messages. -/
theorem connect_cases (opens : Bool) (raises : ℕ → Bool) (c : MEXCWSClient) :
    opens = false ∧ c.connect opens raises = (false, c) ∨ c.connect opens raises = (true, c.opened) ∨
      ∃ done sent, done <+: c.symbols ∧ c.connect opens raises =
        (false, { c with connected := true, sent, subscribed := done.foldl PySet.add c.subscribed }) := by
  unfold MEXCWSClient.connect
  cases opens with
  | false => exact .inl ⟨rfl, rfl⟩
  | true =>
    refine .inr ?_
    rw [if_pos rfl]
    obtain ⟨done, hpre, heq, hall⟩ := connectDepth_spec raises c.symbols 0 { c with connected := true, sent := [] }
    rcases hdepth : MEXCWSClient.connectDepth raises c.symbols 0 { c with connected := true, sent := [] } with ⟨ok, c₁⟩
    rw [hdepth] at heq hall
    dsimp only at heq hall
    subst heq
    cases ok with
    | false => exact .inr ⟨done, _, hpre, rfl⟩
    | true =>
      obtain rfl := hall rfl
      dsimp only
      cases honDeal : c.onDeal with
      | false =>
        refine .inl ?_
        unfold MEXCWSClient.opened
        simp [honDeal]
      | true =>
        rw [if_pos rfl]
        obtain ⟨dealt, hpre', heq, hall⟩ := connectDeal_spec raises c.symbols c.symbols.length { c with
          connected := true
          sent := [] ++ c.symbols.map fun s => ⟨true, .depth, s⟩
          subscribed := c.symbols.foldl PySet.add c.subscribed }
        rcases hdeal : MEXCWSClient.connectDeal raises c.symbols c.symbols.length { c with
          connected := true
          sent := [] ++ c.symbols.map fun s => ⟨true, .depth, s⟩
          subscribed := c.symbols.foldl PySet.add c.subscribed } with ⟨ok, c₂⟩
        rw [hdeal] at heq hall
        dsimp only at heq hall
        subst heq
        simp only [honDeal] at hdeal
        rw [hdeal]
        cases ok with
        | false => exact .inr ⟨c.symbols, _, List.prefix_refl _, rfl⟩
        | true =>
          obtain rfl := hall rfl
          refine .inl ?_
          unfold MEXCWSClient.opened
          simp [honDeal]

/-- After a `connect` that has returned, everything is served. -/
theorem opened_agrees (h : ∀ s ∈ c.subscribed, s ∈ c.symbols) (s : String) : (c.opened.view s).Agrees c.onDeal := by
  have hmem : s ∈ c.symbols.foldl PySet.add c.subscribed ↔ s ∈ c.symbols := by
    rw [PySet.mem_foldl_add]
    exact ⟨fun hs => hs.elim (h s) id, .inr⟩
  have hsub : (c.opened.view s).subscribed = decide (s ∈ c.symbols) := decide_eq_decide.mpr hmem
  have hdepth : served (c.symbols.map fun s => ⟨true, .depth, s⟩) .depth s = decide (s ∈ c.symbols) := by
    have hall := served_subscribed .depth .depth s c.symbols []
    simpa [served] using hall
  have hnone : served (c.symbols.map fun s => ⟨true, .depth, s⟩) .deal s = false := by
    have hall := served_subscribed .depth .deal s c.symbols []
    simpa [served] using hall
  refine ⟨?_, ?_⟩
  · rw [hsub]
    show served (_ ++ if c.onDeal then _ else []) .depth s = _
    cases c.onDeal with
    | false => rw [if_neg (by decide), List.append_nil, hdepth]
    | true =>
      rw [if_pos rfl, served_subscribed, hdepth]
      simp
  · rw [hsub]
    show served (_ ++ if c.onDeal then _ else []) .deal s = _
    cases c.onDeal with
    | false => rw [if_neg (by decide), List.append_nil, hnone, Bool.and_false]
    | true =>
      rw [if_pos rfl, served_subscribed, hnone]
      simp

theorem Known.connect (h : Known evs c) (hstopped : c.running = false) (opens : Bool) (raises : ℕ → Bool) :
    Known (evs ++ [.connect opens raises]) (c.connect opens raises).2 := by
  have hlisted : ∀ {done : List String}, done <+: c.symbols → ∀ s ∈ done.foldl PySet.add c.subscribed, s ∈ c.symbols :=
    fun hpre s hs => ((PySet.mem_foldl_add _).mp hs).elim (h.listed s) fun hs => hpre.subset hs
  rcases connect_cases opens raises c with ⟨-, hsame⟩ | hopened | ⟨done, sent, hpre, hcut⟩
  · rw [hsame]
    exact h.mono _
  · rw [hopened]
    exact ⟨h.nodup, hlisted (List.prefix_refl _), fun hnot => (nomatch hnot), fun _ s hs =>
      (PySet.mem_foldl_add _).mpr (.inr hs), fun _ s => .inl (opened_agrees h.listed s)⟩
  · rw [hcut]
    refine ⟨h.nodup, hlisted hpre, fun hnot => (nomatch hnot), fun hrunning => ?_, fun hrunning => ?_⟩ <;>
      exact absurd hrunning (by rw [hstopped]; exact Bool.false_ne_true)

theorem Known.event (h : Known evs c) (ev : ClientEvent) (hallowed : ClientAllowed c ev) :
    Known (evs ++ [ev]) (clientStep c ev) := by
  cases ev with
  | connect opens raises => exact h.connect hallowed opens raises
  | subscribe symbol raises => exact h.subscribe symbol raises
  | unsubscribe symbol raises => exact h.unsubscribe symbol raises
  | starve => exact ⟨h.nodup, h.listed, fun hnot => ⟨rfl, (h.closed hnot).2⟩, fun hrunning => (nomatch hrunning),
      fun hrunning => (nomatch hrunning)⟩
  | close => exact ⟨h.nodup, fun s hs => absurd hs (PySet.not_mem_empty s), fun _ => ⟨rfl, PySet.not_mem_empty⟩,
      fun hrunning => (nomatch hrunning), fun hrunning => (nomatch hrunning)⟩

theorem known_run {symbols : List String} (hnodup : symbols.Nodup) (onDeal : Bool)
    (hallowed : Runs.Guarded ClientAllowed clientStep { symbols, onDeal } evs) :
    Known evs (Runs.run clientStep { symbols, onDeal } evs) := by
  refine Runs.history_of_guarded (J := Known) ?_ (fun pre ev h hev => h.event ev hev) evs hallowed
  exact ⟨hnodup, fun s hs => absurd hs (PySet.not_mem_empty s), fun _ => ⟨rfl, PySet.not_mem_empty⟩,
    fun hrunning => (nomatch hrunning), fun hrunning => (nomatch hrunning)⟩

end Invariant

/-! ## The rotations of the runner -/

section Rotations
open Rotation (Subscriptions Attempt subscribeOne unsubscribeOne applyRotation)
variable {c : MEXCWSClient} {s : Subscriptions}

/-- The client's calls in `_apply_rotation`, one symbol after the other. -/
def rotate (raises : String → Channel → Bool) (decision : Universe.RotationDecision) (c : MEXCWSClient) : MEXCWSClient :=
  decision.toUnsubscribe.foldl (fun c s => (c.unsubscribe (raises s) s).2)
    (decision.toSubscribe.foldl (fun c s => (c.subscribe (raises s) s).2) c)

/-- How the calls for a symbol go, by what the sends do. -/
def attemptOf (running onDeal : Bool) (raises : Channel → Bool) : Attempt :=
  if !running then .notRunning
  else if raises .depth || onDeal && raises .deal then .sendFails
  else .returns

/-- The client's set is that of the runner's model. -/
structure Mirrors (running onDeal : Bool) (s : Subscriptions) (c : MEXCWSClient) : Prop where
  ws : s.ws = c.subscribed
  running : c.running = running
  onDeal : c.onDeal = onDeal
  connected : c.running = true → c.connected = true

theorem subscribe_flags (raises : Channel → Bool) (symbol : String) (c : MEXCWSClient) :
    (c.subscribe raises symbol).2.running = c.running ∧ (c.subscribe raises symbol).2.onDeal = c.onDeal ∧
      (c.subscribe raises symbol).2.connected = c.connected := by
  rcases subscribe_cases raises symbol c with ⟨sent, heq⟩ | ⟨-, sent, heq⟩ <;> rw [heq] <;> exact ⟨rfl, rfl, rfl⟩

theorem unsubscribe_flags (raises : Channel → Bool) (symbol : String) (c : MEXCWSClient) :
    (c.unsubscribe raises symbol).2.running = c.running ∧ (c.unsubscribe raises symbol).2.onDeal = c.onDeal ∧
      (c.unsubscribe raises symbol).2.connected = c.connected := by
  rcases unsubscribe_cases raises symbol c with ⟨sent, heq⟩ | ⟨sent, heq⟩ <;> rw [heq] <;> exact ⟨rfl, rfl, rfl⟩

theorem Mirrors.subscribe {running onDeal : Bool} (h : Mirrors running onDeal s c) (raises : String → Channel → Bool)
    (symbol : String) : Mirrors running onDeal (subscribeOne (fun k => attemptOf running onDeal (raises k)) s symbol)
      (c.subscribe (raises symbol) symbol).2 := by
  obtain ⟨hrunning, honDeal, hconnected⟩ := subscribe_flags (raises symbol) symbol c
  refine ⟨?_, hrunning.trans h.running, honDeal.trans h.onDeal, by rw [hrunning, hconnected]; exact h.connected⟩
  obtain ⟨hws, rfl, rfl, hready⟩ := h
  unfold subscribeOne MEXCWSClient.subscribe attemptOf
  rw [hws]
  by_cases hmem : symbol ∈ c.subscribed
  · rw [if_pos hmem, if_pos hmem, hws]
    split <;> rfl
  · rw [if_neg hmem, if_neg hmem]
    cases hrun : c.running with
    | false => simp [hws]
    | true =>
      rw [hready hrun]
      cases hdepth : raises symbol .depth with
      | true => simp [hws, hdepth]
      | false => cases hdeal : c.onDeal <;> cases hraise : raises symbol .deal <;> simp [hws, hdepth, hdeal, hraise]

theorem Mirrors.unsubscribe {running onDeal : Bool} (h : Mirrors running onDeal s c) (raises : String → Channel → Bool)
    (symbol : String) : Mirrors running onDeal (unsubscribeOne (fun k => attemptOf running onDeal (raises k)) s symbol)
      (c.unsubscribe (raises symbol) symbol).2 := by
  obtain ⟨hrunning, honDeal, hconnected⟩ := unsubscribe_flags (raises symbol) symbol c
  refine ⟨?_, hrunning.trans h.running, honDeal.trans h.onDeal, by rw [hrunning, hconnected]; exact h.connected⟩
  obtain ⟨hws, rfl, rfl, hready⟩ := h
  unfold unsubscribeOne MEXCWSClient.unsubscribe attemptOf
  rw [hws]
  by_cases hmem : symbol ∈ c.subscribed
  · rw [if_neg (not_not.mpr hmem), if_neg (not_not.mpr hmem)]
    cases hrun : c.running with
    | false => simp [hws]
    | true =>
      rw [hready hrun]
      cases hdepth : raises symbol .depth with
      | true => simp [hws, hdepth]
      | false => cases hdeal : c.onDeal <;> cases hraise : raises symbol .deal <;> simp [hws, hdepth, hdeal, hraise]
  · rw [if_pos hmem, if_pos hmem, hws]
    split <;> rfl

/-- **A rotation.** The runner's model has the set that the client comes to. -/
theorem Mirrors.rotate {running onDeal : Bool} (h : Mirrors running onDeal s c) (raises : String → Channel → Bool)
    (decision : Universe.RotationDecision) :
    Mirrors running onDeal (applyRotation (fun k => attemptOf running onDeal (raises k)) decision s)
      (Ws.rotate raises decision c) := by
  have hsub : ∀ (l : List String) {s : Subscriptions} {c : MEXCWSClient}, Mirrors running onDeal s c →
      Mirrors running onDeal (l.foldl (subscribeOne fun k => attemptOf running onDeal (raises k)) s)
        (l.foldl (fun c s => (c.subscribe (raises s) s).2) c) := by
    intro l
    induction l with
    | nil => exact fun h => h
    | cons symbol l ih => exact fun h => ih (h.subscribe raises symbol)
  have hunsub : ∀ (l : List String) {s : Subscriptions} {c : MEXCWSClient}, Mirrors running onDeal s c →
      Mirrors running onDeal (l.foldl (unsubscribeOne fun k => attemptOf running onDeal (raises k)) s)
        (l.foldl (fun c s => (c.unsubscribe (raises s) s).2) c) := by
    intro l
    induction l with
    | nil => exact fun h => h
    | cons symbol l ih => exact fun h => ih (h.unsubscribe raises symbol)
  exact hunsub _ (hsub _ h)

end Rotations

/-! ## What holds after any run -/

/-- What holds of a client after the events. -/
structure ClientRun (evs : List ClientEvent) (c : MEXCWSClient) : Prop where
  /-- it has subscribed what it lists -/
  listed : c.running = true → ∀ s, s ∈ c.subscribed ↔ s ∈ c.symbols
  /-- without a connection nothing is subscribed -/
  closed : c.connected = false → c.running = false ∧ ∀ s, s ∉ c.subscribed
  /-- what the exchange sends is what is subscribed, or a call has been cut between its messages -/
  served : c.running = true → ∀ s, (c.view s).Agrees c.onDeal ∨ (c.view s).Cut c.onDeal ∧ ∃ ev ∈ evs, Cuts s ev
  /-- a call that returns `True` puts it right -/
  subscribes : c.running = true → ∀ s raises, (c.subscribe raises s).1 = some true →
    ((c.subscribe raises s).2.view s).Agrees c.onDeal
  unsubscribes : c.running = true → ∀ s raises, (c.unsubscribe raises s).1 = some true →
    ((c.unsubscribe raises s).2.view s).Agrees c.onDeal
  /-- and so does a new connection, with the same subscriptions -/
  reconnects : c.running = true → ∀ raises, (c.close.connect true raises).1 = true →
    ∀ s, (s ∈ (c.close.connect true raises).2.subscribed ↔ s ∈ c.subscribed) ∧
      ((c.close.connect true raises).2.view s).Agrees c.onDeal
  /-- a rotation of the runner's model is that of the client -/
  rotates : ∀ (s : Rotation.Subscriptions) raises decision, s.ws = c.subscribed →
    (Rotation.applyRotation (fun k => attemptOf c.running c.onDeal (raises k)) decision s).ws =
      (rotate raises decision c).subscribed

/-- **The client**, after any run of calls that connects it only while it is not running. -/
theorem client_run {symbols : List String} (hnodup : symbols.Nodup) (onDeal : Bool) (evs : List ClientEvent)
    (hallowed : Runs.Guarded ClientAllowed clientStep { symbols, onDeal } evs) :
    ClientRun evs (Runs.run clientStep { symbols, onDeal } evs) := by
  have h := known_run hnodup onDeal hallowed
  generalize Runs.run clientStep { symbols, onDeal } evs = c at h
  refine ⟨fun hrunning s => ⟨h.listed s, h.all hrunning s⟩, h.closed, h.served, fun hrunning s raises hret => ?_,
    fun hrunning s raises hret => ?_, fun hrunning raises hret s => ?_, fun s raises decision hws => ?_⟩
  · obtain ⟨hnew, hdepth, hdeal⟩ := subscribe_eq_true hret
    rw [view_subscribe (h.connected hrunning) hrunning, if_pos rfl]
    have hview : (c.view s).subscribed = false := decide_eq_false hnew
    have hold := View.deal_of (h.served hrunning s).either
    unfold subscribeView
    rw [hview, Bool.false_and] at hold
    rw [hview, if_neg (by decide), hdepth, if_neg (by decide), hdeal, if_neg (by decide), hold]
    exact ⟨rfl, by rw [Bool.or_false, Bool.true_and]⟩
  · obtain ⟨hmem, hdepth, hdeal⟩ := unsubscribe_eq_true hret
    rw [view_unsubscribe (h.connected hrunning) hrunning, if_pos rfl]
    have hview : (c.view s).subscribed = true := decide_eq_true hmem
    have hold := View.deal_of (h.served hrunning s).either
    unfold unsubscribeView
    rw [hview, Bool.true_and] at hold
    rw [hview, if_neg (by decide), hdepth, if_neg (by decide), hdeal, if_neg (by decide), hold]
    exact ⟨rfl, by rw [Bool.not_and_self]; rfl⟩
  · rcases connect_cases true raises c.close with ⟨hnot, -⟩ | hopened | ⟨done, sent, -, hcut⟩
    · cases hnot
    · rw [hopened]
      refine ⟨?_, opened_agrees (fun s hs => absurd hs (PySet.not_mem_empty s)) s⟩
      have hmem : s ∈ c.symbols.foldl PySet.add .empty ↔ s ∈ c.symbols := PySet.mem_ofList
      exact hmem.trans ⟨h.all hrunning s, h.listed s⟩
    · rw [hcut] at hret
      cases hret
  · exact (Mirrors.rotate ⟨hws, rfl, rfl, h.connected⟩ raises decision).ws

/-- A subscription that is cut: the depth of the symbol is sent, and the client does not know it. -/
def cutEvents : List ClientEvent :=
  [.connect true fun _ => false, .subscribe "ETH_USDT" (· = .deal), .unsubscribe "BTC_USDT" fun _ => false]

theorem client_run_cut :
    ClientRun cutEvents (Runs.run clientStep { symbols := ["BTC_USDT"], onDeal := true } cutEvents) ∧
      (Runs.run clientStep { symbols := ["BTC_USDT"], onDeal := true } cutEvents).view "ETH_USDT" = ⟨false, true, false⟩ ∧
      (Runs.run clientStep { symbols := ["BTC_USDT"], onDeal := true } cutEvents).view "BTC_USDT" = ⟨false, false, false⟩ :=
  ⟨client_run (by decide) true cutEvents (Runs.guarded_cons.mpr ⟨rfl, Runs.guarded_cons.mpr
    ⟨trivial, Runs.guarded_cons.mpr ⟨trivial, Runs.guarded_nil⟩⟩⟩), by decide, by decide⟩

end MikoV2.Ws
