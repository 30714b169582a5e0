import MikoV2.Dashboard.Routes
import MikoV2.Lib.Runs
import Mathlib.Logic.Function.Basic

/-!
# The clients of the event stream

Any number of clients, each with one connection at a time. A stream emits its items into the connection, and the client
receives them from there; where the connection breaks, the items in between are lost, and the client comes back with
the id of the last item that it received.

* `Client`, `sseStep` : the clients and the server;
* `awaited` : the events of the buffer that a client is owed when it comes back; `Resumed` : it gets them, in order;
* `Resumable` : the connections at which no keepalive has overtaken an event that is awaited;
* `received_goOn` : a connection that goes on delivers everything that is under way.
-/

namespace MikoV2.Dashboard
open Keyed

/-- An open connection: what was written and is not received yet, and the stream behind it. -/
structure Connection (D : Type) where
  flight : List (Item D) := []
  stream : SseStream D

structure Client (D : Type) where
  received : List (Item D) := []
  connection : Option (Connection D) := none
  /-- the events that were awaited when it last connected, without those that it received since -/
  owed : List (Item D) := []

structure World (D : Type) where
  routes : DashboardRoutes D := {}
  clients : ℕ → Client D := fun _ => {}

variable {D : Type}

/-- The query parameter: `first` where nothing was received. -/
def Client.lastEventId (c : Client D) (first : Option ℤ) : Option ℤ :=
  match c.received.getLast? with
  | some x => some x.id
  | none => first

/-- The items that are under way to the client. -/
def Client.pending (c : Client D) : List (Item D) :=
  match c.connection with
  | some conn => conn.flight ++ conn.stream.replay
  | none => []

variable (cfg : RoutesConfig)

section Step
variable [DecidableEq D]

/-- The events of the buffer that were pushed after the first item of the client, and that it has not received. -/
def awaited (r : DashboardRoutes D) (received : List (Item D)) : List (Item D) :=
  r.eventBuffer.filter fun e => (received.head?.any fun f => f.id < e.id) ∧ e ∉ received

def Client.connect (c : Client D) (r : DashboardRoutes D) (first : Option ℤ) (token : String) : Client D :=
  match sseStream cfg r (c.lastEventId first) token with
  | some st => { c with connection := some { stream := st }, owed := awaited r c.received }
  | none => { c with connection := none }

def Client.emit (c : Client D) (r : DashboardRoutes D) (nowMs : ℤ) : DashboardRoutes D × Client D :=
  match c.connection with
  | some conn =>
    let (x, st, r') := conn.stream.next r nowMs
    (r', { c with connection := some { flight := conn.flight ++ [x], stream := st } })
  | none => (r, c)

def Client.receive (c : Client D) : Client D :=
  match c.connection with
  | some { flight := x :: flight, stream := st } =>
    { received := c.received ++ [x], connection := some { flight := flight, stream := st }
      owed := c.owed.filter fun e => e ≠ x }
  | _ => c

def Client.drop (c : Client D) : Client D := { c with connection := none }

inductive SseAct (D : Type)
  | push (eventType : String) (data : D)
  /-- Client `i` connects, also where its connection is still open. -/
  | connect (i : ℕ) (first : Option ℤ) (token : String)
  /-- The stream of client `i` writes its next item. -/
  | emit (i : ℕ) (nowMs : ℤ)
  | receive (i : ℕ)
  | drop (i : ℕ)
  /-- A stream whose client has gone emits a keepalive. -/
  | idle (nowMs : ℤ)

def World.update (w : World D) (i : ℕ) (c : Client D) : World D :=
  { w with clients := Function.update w.clients i c }

def sseStep (w : World D) : SseAct D → World D
  | .push eventType data => { w with routes := pushEvent cfg w.routes eventType data }
  | .connect i first token => w.update i ((w.clients i).connect cfg w.routes first token)
  | .emit i nowMs =>
    let (routes, c) := (w.clients i).emit w.routes nowMs
    { w.update i c with routes := routes }
  | .receive i => w.update i (w.clients i).receive
  | .drop i => w.update i (w.clients i).drop
  | .idle nowMs => { w with routes := (SseStream.next w.routes { replay := [] } nowMs).2.2 }

/-- What the client is owed is newer than what it received, and under way while it is connected; and its ids increase.
So nothing is received twice, and nothing that is owed is skipped. -/
structure Resumed (c : Client D) : Prop where
  increasing : Increasing Item.id c.received
  newer : ∀ e ∈ c.owed, ∀ x ∈ c.received, x.id < e.id
  pending : ∀ e ∈ c.owed, c.connection ≠ none → e ∈ c.pending

def AllResumed (w : World D) : Prop := ∀ i, Resumed (w.clients i)

/-- Where a client is let in, the events that it awaits are newer than the keepalives it received; and where the buffer
has no size, there is one at most, the first that comes after what it received. -/
def Resumable (w : World D) : SseAct D → Prop
  | .connect i _ token => validateToken cfg token = true → ∀ e ∈ awaited w.routes (w.clients i).received,
    (∀ k ∈ (w.clients i).received, ¬ k.Pushed → k.id < e.id) ∧
    (1 ≤ cfg.replayBufferSize ∨
      ∀ e' ∈ w.routes.eventBuffer, (∀ x ∈ (w.clients i).received, x.id < e'.id) → e.id ≤ e'.id)
  | _ => True

end Step

/-! ## A connection that goes on -/

section GoOn
variable [DecidableEq D] {i : ℕ} {flight replay : List (Item D)}

/-- The stream of client `i` writes what it has still to replay, and the client receives it all. -/
def goOn (w : World D) (i : ℕ) (nowMs : ℤ) : List (SseAct D) :=
  match (w.clients i).connection with
  | some conn =>
    List.replicate conn.stream.replay.length (.emit i nowMs) ++
      List.replicate (conn.flight ++ conn.stream.replay).length (.receive i)
  | none => []

theorem run_emits (nowMs : ℤ) (w : World D)
    (hconn : (w.clients i).connection = some { flight := flight, stream := { replay := replay } }) :
    let w' := Runs.run (sseStep cfg) w (List.replicate replay.length (.emit i nowMs))
    (w'.clients i).received = (w.clients i).received ∧
      (w'.clients i).connection = some { flight := flight ++ replay, stream := { replay := [] } } := by
  induction replay generalizing w flight with
  | nil => exact ⟨rfl, by rw [List.append_nil]; exact hconn⟩
  | cons x replay ih =>
    have hstep : (sseStep cfg w (.emit i nowMs)).clients i = { w.clients i with
        connection := some { flight := flight ++ [x], stream := { replay := replay } } } := by
      simp [sseStep, World.update, Client.emit, hconn, SseStream.next]
    obtain ⟨hreceived, hafter⟩ := ih (sseStep cfg w (.emit i nowMs)) (by rw [hstep])
    rw [hstep] at hreceived
    refine ⟨hreceived, ?_⟩
    rw [List.append_assoc, List.singleton_append] at hafter
    exact hafter

theorem run_receives (w : World D) (st : SseStream D)
    (hconn : (w.clients i).connection = some { flight := flight, stream := st }) :
    ((Runs.run (sseStep cfg) w (List.replicate flight.length (.receive i))).clients i).received =
      (w.clients i).received ++ flight := by
  induction flight generalizing w with
  | nil => exact (List.append_nil _).symm
  | cons x flight ih =>
    have hstep : (sseStep cfg w (.receive i)).clients i = (w.clients i).receive := by simp [sseStep, World.update]
    have hreceive : (w.clients i).receive.received = (w.clients i).received ++ [x] ∧
        (w.clients i).receive.connection = some { flight := flight, stream := st } := by
      unfold Client.receive
      rw [hconn]
      exact ⟨rfl, rfl⟩
    have hrest := ih (sseStep cfg w (.receive i)) (by rw [hstep, hreceive.2])
    rw [hstep, hreceive.1, List.append_assoc, List.singleton_append] at hrest
    exact hrest

/-- What is under way is received, in order. -/
theorem received_goOn (w : World D) (i : ℕ) (nowMs : ℤ) :
    ((Runs.run (sseStep cfg) w (goOn w i nowMs)).clients i).received =
      (w.clients i).received ++ (w.clients i).pending := by
  unfold goOn Client.pending
  cases hconn : (w.clients i).connection with
  | none => exact (List.append_nil _).symm
  | some conn =>
    obtain ⟨flight, ⟨replay⟩⟩ := conn
    obtain ⟨hreceived, hafter⟩ := run_emits cfg nowMs w hconn
    dsimp only
    rw [Runs.run_append, run_receives cfg _ _ hafter, hreceived]

end GoOn

end MikoV2.Dashboard
