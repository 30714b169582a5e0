import Mathlib.Algebra.Order.Group.Int
import MikoV2.Lib.Increasing

/-!
# `src/dashboard/routes.py`: the event stream

* `pushEvent`, `replayEvents`, `validateToken` : the buffer of the pushed events, and what is read from it;
* `sseStream`, `SseStream.next` : the generator of a stream: the events that are replayed, then keepalives, which take
  their numbers from the counter of the events;
* `replayEvents_eq`, `pushEvent_suffix`, `length_pushEvent_le` : what the loop and the slice take.
-/

namespace MikoV2.Dashboard
open Keyed

structure RoutesConfig where
  authToken : String := ""
  replayBufferSize : ℤ := 100
deriving DecidableEq, Repr

/-- The data of an item: what was pushed, or the time of a keepalive. -/
inductive ItemData (D : Type)
  | pushed (data : D)
  | ts (ms : ℤ)
deriving DecidableEq, Repr

structure Item (D : Type) where
  id : ℕ
  event : String
  data : ItemData D
deriving DecidableEq, Repr

/-- It was pushed, and is no keepalive. -/
def Item.Pushed {D : Type} (x : Item D) : Prop := ∃ data, x.data = .pushed data

/-- The event buffer and the counter of `DashboardRoutes`. -/
structure DashboardRoutes (D : Type) where
  eventBuffer : List (Item D) := []
  eventIdCounter : ℕ := 0

variable {D : Type} (cfg : RoutesConfig)

def validateToken (token : String) : Bool := if cfg.authToken = "" then true else token = cfg.authToken

/-- `l[start:]` -/
def sliceFrom {α : Type} (l : List α) (start : ℤ) : List α :=
  if start < 0 then l.drop (l.length + start).toNat else l.drop start.toNat

def pushEvent (r : DashboardRoutes D) (eventType : String) (data : D) : DashboardRoutes D :=
  let buffer := r.eventBuffer ++ [{ id := r.eventIdCounter + 1, event := eventType, data := .pushed data }]
  { eventBuffer := if cfg.replayBufferSize < buffer.length then sliceFrom buffer (-cfg.replayBufferSize) else buffer
    eventIdCounter := r.eventIdCounter + 1 }

/-- The loop over the buffer; it breaks after the item that fills `out`. -/
def replayLoop (limit lastEventId : ℤ) : List (Item D) → List (Item D) → List (Item D)
  | [], out => out
  | ev :: buffer, out =>
    if lastEventId < ev.id then
      if limit ≤ (out ++ [ev]).length then out ++ [ev] else replayLoop limit lastEventId buffer (out ++ [ev])
    else replayLoop limit lastEventId buffer out

def replayEvents (r : DashboardRoutes D) (lastEventId : ℤ) : List (Item D) :=
  replayLoop cfg.replayBufferSize lastEventId r.eventBuffer []

/-- A running `sse_stream`: the events it has still to replay. -/
structure SseStream (D : Type) where
  replay : List (Item D)

/-- `sse_stream` up to its first item; `none` where it raises `PermissionError`. -/
def sseStream (r : DashboardRoutes D) (lastEventId : Option ℤ) (authToken : String) : Option (SseStream D) :=
  if !validateToken cfg authToken then none
  else some { replay := (lastEventId.map (replayEvents cfg r)).getD [] }

/-- The next item, the stream after it, and the counter. -/
def SseStream.next (r : DashboardRoutes D) (st : SseStream D) (nowMs : ℤ) :
    Item D × SseStream D × DashboardRoutes D :=
  match st.replay with
  | ev :: replay => (ev, { replay := replay }, r)
  | [] =>
    let r := { r with eventIdCounter := r.eventIdCounter + 1 }
    ({ id := r.eventIdCounter, event := "keepalive", data := .ts nowMs }, st, r)

/-! ## Without loops and slices -/

theorem replayLoop_eq (limit last : ℤ) (buffer out : List (Item D)) (hout : out.length < max limit 1) :
    replayLoop limit last buffer out =
      out ++ (buffer.filter fun ev => last < ev.id).take ((max limit 1).toNat - out.length) := by
  induction buffer generalizing out with
  | nil => simp [replayLoop]
  | cons ev buffer ih =>
    unfold replayLoop
    by_cases hlast : last < ev.id
    · have hfilter : (ev :: buffer).filter (fun ev => decide (last < (ev.id : ℤ))) =
          ev :: buffer.filter fun ev => decide (last < (ev.id : ℤ)) :=
        List.filter_cons_of_pos (decide_eq_true hlast)
      have hlen : (out ++ [ev]).length = out.length + 1 := by simp
      rw [if_pos hlast, hfilter]
      by_cases hfull : limit ≤ (out ++ [ev]).length
      · have hone : (max limit 1).toNat - out.length = 1 := by omega
        rw [if_pos hfull, hone]
        simp
      · have hmore : (max limit 1).toNat - out.length = (max limit 1).toNat - (out ++ [ev]).length + 1 := by omega
        rw [if_neg hfull, ih _ (by omega), hmore, List.take_succ_cons, List.append_assoc, List.singleton_append]
    · rw [if_neg hlast, ih out hout, List.filter_cons_of_neg (by simpa using hlast)]

/-- The events after the last id, in order: the size of the buffer, and one at least. -/
theorem replayEvents_eq (r : DashboardRoutes D) (last : ℤ) : replayEvents cfg r last =
    (r.eventBuffer.filter fun ev => last < ev.id).take (max cfg.replayBufferSize 1).toNat := by
  unfold replayEvents
  rw [replayLoop_eq _ _ _ _ (by simp), List.nil_append, List.length_nil, Nat.sub_zero]

theorem sliceFrom_suffix {α : Type} (l : List α) (start : ℤ) : sliceFrom l start <:+ l := by
  unfold sliceFrom
  split
  · exact List.drop_suffix _ l
  · exact List.drop_suffix _ l

/-- The buffer after a push: a last part of the events before, and the new one. -/
theorem pushEvent_suffix (r : DashboardRoutes D) (eventType : String) (data : D) :
    (pushEvent cfg r eventType data).eventBuffer <:+
      r.eventBuffer ++ [{ id := r.eventIdCounter + 1, event := eventType, data := .pushed data }] := by
  unfold pushEvent
  dsimp only
  split
  · exact sliceFrom_suffix _ _
  · exact List.suffix_refl _

theorem length_pushEvent_le (r : DashboardRoutes D) (eventType : String) (data : D) (hsize : 1 ≤ cfg.replayBufferSize) :
    (pushEvent cfg r eventType data).eventBuffer.length ≤ cfg.replayBufferSize := by
  unfold pushEvent sliceFrom
  dsimp only
  split
  · rw [if_pos (by omega), List.length_drop]
    omega
  · omega

end MikoV2.Dashboard
