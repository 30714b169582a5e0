import MikoV2.Dashboard.Clients

/-!
# Resuming the event stream

* `Lined` : the items of a client, received or under way, and the events of the buffer between them;
* `Lined.connect`, `awaited_replayed` : coming back, where no keepalive has overtaken an event that is awaited;
* `Sound`, `sound_step` : what every such connection, and every other step, keeps;
* `resumed_iff` : the runs in which every client resumes; `not_resumed_keepalive` : one in which it does not.
-/

namespace MikoV2.Dashboard
open Keyed

variable {D : Type} {cfg : RoutesConfig} {r r' : DashboardRoutes D} {items received pending : List (Item D)}
  {x y e : Item D} {c : Client D} {first : Option ℤ}

/-! ## The items of a client -/

/-- The items of a client, in order, up to the counter. Between the first of them and an event among them there is no
other event of the buffer. -/
structure Lined (r : DashboardRoutes D) (items : List (Item D)) : Prop where
  increasing : Increasing Item.id items
  le_counter : ∀ x ∈ items, x.id ≤ r.eventIdCounter
  covers : ∀ x ∈ items, x.Pushed → ∀ e ∈ r.eventBuffer, (∀ f ∈ items.head?, f.id < e.id) → e.id ≤ x.id → e ∈ items

/-- The buffer of the events, in order, up to the counter, of its size. -/
structure Buffered (cfg : RoutesConfig) (r : DashboardRoutes D) : Prop where
  increasing : Increasing Item.id r.eventBuffer
  le_counter : ∀ e ∈ r.eventBuffer, e.id ≤ r.eventIdCounter
  fits : 1 ≤ cfg.replayBufferSize → r.eventBuffer.length ≤ cfg.replayBufferSize

theorem buffered_push (h : Buffered cfg r) (eventType : String) (data : D) :
    Buffered cfg (pushEvent cfg r eventType data) := by
  have hsuffix := pushEvent_suffix cfg r eventType data
  refine ⟨?_, fun e he => ?_, length_pushEvent_le cfg r eventType data⟩
  · refine List.Pairwise.sublist hsuffix.sublist (h.increasing.append ?_ h.le_counter ?_)
    · exact List.pairwise_singleton _ _
    · intro x hx
      rw [List.mem_singleton.mp hx]
      exact Nat.lt_succ_self _
  · rcases List.mem_append.mp (hsuffix.mem he) with he | he
    · exact Nat.le_succ_of_le (h.le_counter e he)
    · rw [List.mem_singleton.mp he]
      exact Nat.le_refl _

namespace Lined

/-- The counter goes on, and the buffer has no other events than before and newer ones. -/
theorem routes (h : Lined r items) (hcounter : r.eventIdCounter ≤ r'.eventIdCounter)
    (hbuffer : ∀ e ∈ r'.eventBuffer, e ∈ r.eventBuffer ∨ r.eventIdCounter < e.id) : Lined r' items := by
  refine ⟨h.increasing, fun x hx => Nat.le_trans (h.le_counter x hx) hcounter, fun x hx hpushed e he hfirst hle => ?_⟩
  rcases hbuffer e he with he | hnew
  · exact h.covers x hx hpushed e he hfirst hle
  · have hx' := h.le_counter x hx
    omega

theorem push (h : Lined r items) (eventType : String) (data : D) : Lined (pushEvent cfg r eventType data) items := by
  apply h.routes
  · exact Nat.le_succ _
  · intro e he
    rcases List.mem_append.mp ((pushEvent_suffix cfg r eventType data).mem he) with he | he
    · exact Or.inl he
    · rw [List.mem_singleton.mp he]
      exact Or.inr (Nat.lt_succ_self _)

theorem count (h : Lined r items) : Lined { r with eventIdCounter := r.eventIdCounter + 1 } items :=
  h.routes (Nat.le_succ _) fun _ he => Or.inl he

theorem head?_append {l m : List (Item D)} (hx : x ∈ l) : (l ++ m).head? = l.head? := by
  obtain ⟨f, hf⟩ := Option.isSome_iff_exists.mp (List.isSome_head?.mpr (List.ne_nil_of_mem hx))
  rw [List.head?_append, hf, Option.some_or]

/-- What was received, without what is under way. -/
theorem left (h : Lined r (received ++ pending)) : Lined r received := by
  have hmem : ∀ x ∈ received, x ∈ received ++ pending := fun x hx => List.mem_append_left _ hx
  refine ⟨h.increasing.left, fun x hx => h.le_counter x (hmem x hx), fun x hx hpushed e he hfirst hle => ?_⟩
  rw [← head?_append (m := pending) hx] at hfirst
  exact h.increasing.mem_left_of_le hx (h.covers x (hmem x hx) hpushed e he hfirst hle) hle

/-- A keepalive is emitted. -/
theorem keepalive (h : Lined r items) {k : Item D} (hid : k.id = r.eventIdCounter + 1) (hk : ¬ k.Pushed) :
    Lined { r with eventIdCounter := r.eventIdCounter + 1 } (items ++ [k]) := by
  constructor
  · refine h.increasing.append (List.pairwise_singleton _ _) h.le_counter fun x hx => ?_
    rw [List.mem_singleton.mp hx, hid]
    exact Nat.lt_succ_self _
  · intro x hx
    rcases List.mem_append.mp hx with hx | hx
    · exact Nat.le_succ_of_le (h.le_counter x hx)
    · rw [List.mem_singleton.mp hx, hid]
  · intro x hx hpushed e he hfirst hle
    rcases List.mem_append.mp hx with hx | hx
    · rw [head?_append hx] at hfirst
      exact List.mem_append_left _ (h.covers x hx hpushed e he hfirst hle)
    · rw [List.mem_singleton.mp hx] at hpushed
      exact absurd hpushed hk

end Lined

/-! ## Coming back -/

section Connect
variable {last : Option ℤ} {l : ℤ}

/-- What a stream replays. -/
def replayed (cfg : RoutesConfig) (r : DashboardRoutes D) (last : Option ℤ) : List (Item D) :=
  (last.map (replayEvents cfg r)).getD []

theorem mem_replayed (h : x ∈ replayed cfg r last) : x ∈ r.eventBuffer ∧ ∃ l, last = some l ∧ l < x.id := by
  unfold replayed at h
  cases last with
  | none => cases h
  | some l =>
    rw [Option.map_some, Option.getD_some, replayEvents_eq] at h
    obtain ⟨hbuffer, hlt⟩ := List.mem_filter.mp (List.mem_of_mem_take h)
    exact ⟨hbuffer, l, rfl, of_decide_eq_true hlt⟩

theorem replayed_increasing (h : Buffered cfg r) : Increasing Item.id (replayed cfg r last) := by
  unfold replayed
  cases last with
  | none => exact List.Pairwise.nil
  | some l =>
    rw [Option.map_some, Option.getD_some, replayEvents_eq]
    exact h.increasing.sublist ((List.take_sublist _ _).trans List.filter_sublist)

/-- With an event, the older ones of the buffer are replayed, up to the last id. -/
theorem mem_replayed_of_le (h : Buffered cfg r) (hx : x ∈ replayed cfg r (some l)) (he : e ∈ r.eventBuffer)
    (hlast : l < e.id) (hle : e.id ≤ x.id) : e ∈ replayed cfg r (some l) := by
  simp only [replayed, Option.map_some, Option.getD_some, replayEvents_eq] at hx ⊢
  have hfilter : Increasing Item.id (r.eventBuffer.filter fun ev => decide (l < (ev.id : ℤ))) :=
    h.increasing.sublist List.filter_sublist
  exact hfilter.mem_take_of_le hx (List.mem_filter.mpr ⟨he, decide_eq_true hlast⟩) hle

/-- An event after the last id is replayed, where the buffer has a size or it is the first one. -/
theorem mem_replayed_of_lt (h : Buffered cfg r) (he : e ∈ r.eventBuffer) (hlast : l < e.id)
    (hfirst : 1 ≤ cfg.replayBufferSize ∨ ∀ e' ∈ r.eventBuffer, l < e'.id → e.id ≤ e'.id) :
    e ∈ replayed cfg r (some l) := by
  have hmem : e ∈ r.eventBuffer.filter fun ev => decide (l < (ev.id : ℤ)) :=
    List.mem_filter.mpr ⟨he, decide_eq_true hlast⟩
  rcases hfirst with hsize | hfirst
  · have hlen := List.length_filter_le (fun ev : Item D => decide (l < (ev.id : ℤ))) r.eventBuffer
    have hfits := h.fits hsize
    simp only [replayed, Option.map_some, Option.getD_some, replayEvents_eq]
    rwa [List.take_of_length_le (by omega)]
  · have hcons : ∃ y, y ∈ replayed cfg r (some l) := by
      simp only [replayed, Option.map_some, Option.getD_some, replayEvents_eq]
      have hpos : 0 < (max cfg.replayBufferSize 1).toNat := by omega
      exact List.exists_mem_of_length_pos (by rw [List.length_take]; have := List.length_pos_of_mem hmem; omega)
    obtain ⟨y, hy⟩ := hcons
    obtain ⟨hbuffer, l', hl', hlt⟩ := mem_replayed hy
    cases hl'
    exact mem_replayed_of_le h hy he hlast (hfirst y hbuffer hlt)

/-- Without a size, one event is replayed at most. -/
theorem eq_of_mem_replayed (hsize : ¬ 1 ≤ cfg.replayBufferSize) (hx : x ∈ replayed cfg r (some l))
    (he : e ∈ replayed cfg r (some l)) : e = x := by
  have hone : (max cfg.replayBufferSize 1).toNat = 1 := by omega
  simp only [replayed, Option.map_some, Option.getD_some, replayEvents_eq, hone] at hx he
  cases hfilter : r.eventBuffer.filter fun ev => decide (l < (ev.id : ℤ)) with
  | nil => rw [hfilter] at hx; cases hx
  | cons y rest =>
    rw [hfilter, List.take_succ_cons, List.take_zero] at hx he
    rw [List.mem_singleton.mp hx, List.mem_singleton.mp he]

theorem exists_getLast? (hx : x ∈ received) : ∃ y, received.getLast? = some y :=
  ⟨_, List.getLast?_eq_some_getLast (List.ne_nil_of_mem hx)⟩

theorem lastEventId_of_getLast? (hy : c.received.getLast? = some y) : c.lastEventId first = some (y.id : ℤ) := by
  unfold Client.lastEventId
  rw [hy]

/-- What is replayed is newer than what was received. -/
theorem lt_replayed (h : Lined r c.received) (hx : x ∈ c.received) (he : e ∈ replayed cfg r (c.lastEventId first)) :
    x.id < e.id := by
  obtain ⟨y, hy⟩ := exists_getLast? hx
  obtain ⟨-, l, hl, hlt⟩ := mem_replayed he
  rw [lastEventId_of_getLast? hy] at hl
  have hle := h.increasing.le_getLast hy hx
  have heq : (y.id : ℤ) = l := Option.some.inj hl
  omega

variable [DecidableEq D]

theorem mem_awaited : e ∈ awaited r received ↔
    e ∈ r.eventBuffer ∧ (∃ f, received.head? = some f ∧ f.id < e.id) ∧ e ∉ received := by
  unfold awaited
  rw [List.mem_filter, decide_eq_true_eq, Option.any_eq_true]
  simp only [decide_eq_true_eq]

/-- An awaited event is newer than the last item, unless a keepalive has overtaken it. -/
theorem lt_of_awaited (h : Lined r received) (hy : received.getLast? = some y) (he : e ∈ awaited r received)
    (hkeepalive : ∀ k ∈ received, ¬ k.Pushed → k.id < e.id) : y.id < e.id := by
  obtain ⟨hbuffer, ⟨f, hf, hlt⟩, hnot⟩ := mem_awaited.mp he
  have hmem : y ∈ received := List.mem_of_getLast? hy
  by_cases hpushed : y.Pushed
  · by_contra hle
    apply hnot
    apply h.covers y hmem hpushed e hbuffer _ (Nat.le_of_not_lt hle)
    intro f' hf'
    rw [hf] at hf'
    rwa [← Option.some.inj hf']
  · exact hkeepalive y hmem hpushed

theorem Lined.connect (h : Lined r c.received) (hbuffer : Buffered cfg r) (first : Option ℤ)
    (hkeepalive : ∀ e ∈ awaited r c.received, ∀ k ∈ c.received, ¬ k.Pushed → k.id < e.id) :
    Lined r (c.received ++ replayed cfg r (c.lastEventId first)) := by
  constructor
  · refine List.pairwise_append.mpr ⟨h.increasing, replayed_increasing hbuffer, fun x hx e he => ?_⟩
    exact lt_replayed h hx he
  · intro x hx
    rcases List.mem_append.mp hx with hx | hx
    · exact h.le_counter x hx
    · exact hbuffer.le_counter x (mem_replayed hx).1
  · intro x hx hpushed e he hfirst hle
    rcases List.mem_append.mp hx with hx | hx
    · rw [Lined.head?_append hx] at hfirst
      exact List.mem_append_left _ (h.covers x hx hpushed e he hfirst hle)
    · obtain ⟨-, l, hl, -⟩ := mem_replayed hx
      by_cases hlast : l < e.id
      · apply List.mem_append_right
        rw [hl] at hx ⊢
        exact mem_replayed_of_le hbuffer hx he hlast hle
      · apply List.mem_append_left
        cases hy : c.received.getLast? with
        | none =>
          -- The first item is replayed, and newer than the last id.
          rw [List.getLast?_eq_none_iff] at hy
          obtain ⟨f, hf⟩ := Option.isSome_iff_exists.mp (List.isSome_head?.mpr (List.ne_nil_of_mem hx))
          obtain ⟨-, l', hl', hlt⟩ := mem_replayed (List.mem_of_mem_head? hf)
          rw [hy, List.nil_append] at hfirst
          have hnewer := hfirst f hf
          rw [hl] at hl'
          have heq := Option.some.inj hl'
          omega
        | some y =>
          rw [lastEventId_of_getLast? hy] at hl
          have heq : (y.id : ℤ) = l := Option.some.inj hl
          have hmem : y ∈ c.received := List.mem_of_getLast? hy
          rw [Lined.head?_append hmem] at hfirst
          obtain ⟨f, hf⟩ := Option.isSome_iff_exists.mp (List.isSome_head?.mpr (List.ne_nil_of_mem hmem))
          by_contra hnot
          have hawaited := mem_awaited.mpr ⟨he, ⟨f, hf, hfirst f hf⟩, hnot⟩
          have hlt := lt_of_awaited h hy hawaited (hkeepalive e hawaited)
          omega

/-- Where no keepalive has overtaken them, the awaited events are newer than what was received, and replayed. -/
theorem awaited_replayed (h : Lined r c.received) (hbuffer : Buffered cfg r) (he : e ∈ awaited r c.received)
    (hkeepalive : ∀ k ∈ c.received, ¬ k.Pushed → k.id < e.id)
    (hfirst : 1 ≤ cfg.replayBufferSize ∨
      ∀ e' ∈ r.eventBuffer, (∀ x ∈ c.received, x.id < e'.id) → e.id ≤ e'.id) :
    (∀ x ∈ c.received, x.id < e.id) ∧ e ∈ replayed cfg r (c.lastEventId first) := by
  obtain ⟨hmem, ⟨f, hf, -⟩, -⟩ := mem_awaited.mp he
  obtain ⟨y, hy⟩ := exists_getLast? (List.mem_of_mem_head? hf)
  have hlt := lt_of_awaited h hy he hkeepalive
  refine ⟨fun x hx => Nat.lt_of_le_of_lt (h.increasing.le_getLast hy hx) hlt, ?_⟩
  rw [lastEventId_of_getLast? hy]
  apply mem_replayed_of_lt hbuffer hmem (Int.ofNat_lt.mpr hlt)
  refine hfirst.imp_right fun hleast e' he' hlast => hleast e' he' fun x hx => ?_
  have hle := h.increasing.le_getLast hy hx
  omega

/-- And only there. -/
theorem resumable_of_replayed (hbuffer : Buffered cfg r) (hawaited : e ∈ awaited r c.received)
    (he : e ∈ replayed cfg r (c.lastEventId first)) (hnewer : ∀ x ∈ c.received, x.id < e.id) :
    (∀ k ∈ c.received, ¬ k.Pushed → k.id < e.id) ∧ (1 ≤ cfg.replayBufferSize ∨
      ∀ e' ∈ r.eventBuffer, (∀ x ∈ c.received, x.id < e'.id) → e.id ≤ e'.id) := by
  refine ⟨fun k hk _ => hnewer k hk, ?_⟩
  by_cases hsize : 1 ≤ cfg.replayBufferSize
  · exact Or.inl hsize
  · refine Or.inr fun e' he' hnewer' => ?_
    by_contra hlt
    obtain ⟨-, ⟨f, hf, -⟩, -⟩ := mem_awaited.mp hawaited
    obtain ⟨y, hy⟩ := exists_getLast? (List.mem_of_mem_head? hf)
    rw [lastEventId_of_getLast? hy] at he
    have hlast := hnewer' y (List.mem_of_getLast? hy)
    have hmem := mem_replayed_of_le hbuffer he he' (Int.ofNat_lt.mpr hlast) (Nat.le_of_not_le hlt)
    have heq := eq_of_mem_replayed hsize he hmem
    exact hlt (heq ▸ Nat.le_refl _)

end Connect

/-! ## A step of a client -/

section Clients
variable {token : String}

/-- The items of a client are lined up, and what it is owed is among those under way. -/
structure ClientSound (r : DashboardRoutes D) (c : Client D) : Prop where
  lined : Lined r (c.received ++ c.pending)
  resumed : Resumed c

/-- Writing an item leaves it under way; where nothing is left to replay, a keepalive joins it. -/
theorem emit_cases (c : Client D) (r : DashboardRoutes D) (nowMs : ℤ) :
    (c.emit r nowMs).2.received = c.received ∧ (c.emit r nowMs).2.owed = c.owed ∧
    ((c.emit r nowMs).2.connection ≠ none → c.connection ≠ none) ∧
    ((c.emit r nowMs).1 = r ∧ (c.emit r nowMs).2.pending = c.pending ∨
      (c.emit r nowMs).1 = { r with eventIdCounter := r.eventIdCounter + 1 } ∧
      ∃ k : Item D, (c.emit r nowMs).2.pending = c.pending ++ [k] ∧ k.id = r.eventIdCounter + 1 ∧ ¬ k.Pushed) := by
  unfold Client.emit
  cases hconn : c.connection with
  | none => exact ⟨rfl, rfl, fun h => absurd hconn h, Or.inl ⟨rfl, rfl⟩⟩
  | some conn =>
    obtain ⟨flight, ⟨replay⟩⟩ := conn
    have hpending : c.pending = flight ++ replay := by
      unfold Client.pending
      rw [hconn]
    cases replay with
    | cons x replay =>
      refine ⟨rfl, rfl, fun _ => nofun, Or.inl ⟨rfl, ?_⟩⟩
      show (flight ++ [x]) ++ replay = c.pending
      rw [hpending, List.append_assoc, List.singleton_append]
    | nil =>
      refine ⟨rfl, rfl, fun _ => nofun, Or.inr ⟨rfl, ?_⟩⟩
      refine ⟨{ id := r.eventIdCounter + 1, event := "keepalive", data := .ts nowMs }, ?_, rfl, nofun⟩
      show (flight ++ [_]) ++ [] = _
      rw [hpending, List.append_nil, List.append_nil]
      rfl

theorem emit_routes (c : Client D) (r : DashboardRoutes D) (nowMs : ℤ) :
    (c.emit r nowMs).1.eventBuffer = r.eventBuffer ∧ r.eventIdCounter ≤ (c.emit r nowMs).1.eventIdCounter := by
  obtain ⟨-, -, -, ⟨h, -⟩ | ⟨h, -⟩⟩ := emit_cases c r nowMs
  · rw [h]
    exact ⟨rfl, Nat.le_refl _⟩
  · rw [h]
    exact ⟨rfl, Nat.le_succ _⟩

namespace ClientSound

theorem routes (h : ClientSound r c)
    (hroutes : Lined r (c.received ++ c.pending) → Lined r' (c.received ++ c.pending)) : ClientSound r' c := ⟨hroutes h.lined, h.resumed⟩

theorem drop (h : ClientSound r c) : ClientSound r c.drop := by
  constructor
  · show Lined r (c.received ++ [])
    rw [List.append_nil]
    exact h.lined.left
  · exact ⟨h.resumed.increasing, h.resumed.newer, fun _ _ hopen => absurd rfl hopen⟩

theorem emit (h : ClientSound r c) (nowMs : ℤ) : ClientSound (c.emit r nowMs).1 (c.emit r nowMs).2 := by
  obtain ⟨hreceived, howed, hopen, hpending⟩ := emit_cases c r nowMs
  have hresumed : (∀ e ∈ c.pending, e ∈ (c.emit r nowMs).2.pending) → Resumed (c.emit r nowMs).2 := by
    intro hkeep
    constructor
    · rw [hreceived]
      exact h.resumed.increasing
    · rw [hreceived, howed]
      exact h.resumed.newer
    · rw [howed]
      exact fun e he hconn => hkeep e (h.resumed.pending e he (hopen hconn))
  rcases hpending with ⟨hroutes, hpending⟩ | ⟨hroutes, k, hpending, hid, hk⟩
  · refine ⟨?_, hresumed fun e he => by rwa [hpending]⟩
    rw [hroutes, hreceived, hpending]
    exact h.lined
  · refine ⟨?_, hresumed fun e he => by rw [hpending]; exact List.mem_append_left _ he⟩
    rw [hroutes, hreceived, hpending, ← List.append_assoc]
    exact h.lined.keepalive hid hk

end ClientSound

variable [DecidableEq D]

theorem connect_refused (h : validateToken cfg token = false) : c.connect cfg r first token = c.drop := by
  unfold Client.connect sseStream
  rw [h]
  rfl

theorem connect_accepted (h : validateToken cfg token = true) : c.connect cfg r first token =
    { c with
      connection := some { stream := { replay := replayed cfg r (c.lastEventId first) } }
      owed := awaited r c.received } := by
  unfold Client.connect sseStream
  rw [h]
  rfl

/-- The client receives the first item that is under way, or nothing. -/
theorem receive_cases (c : Client D) : c.receive = c ∨
    ∃ x, c.pending = x :: c.receive.pending ∧ c.receive.received = c.received ++ [x] ∧
      c.receive.owed = (c.owed.filter fun e => e ≠ x) ∧ c.connection ≠ none := by
  unfold Client.receive
  split
  · rename_i x flight st hconn
    refine Or.inr ⟨x, ?_, rfl, rfl, by rw [hconn]; nofun⟩
    unfold Client.pending
    rw [hconn]
    rfl
  · exact Or.inl rfl

namespace ClientSound

theorem connect (h : ClientSound r c) (hbuffer : Buffered cfg r) (htoken : validateToken cfg token = true)
    (hresumable : ∀ e ∈ awaited r c.received, (∀ k ∈ c.received, ¬ k.Pushed → k.id < e.id) ∧
      (1 ≤ cfg.replayBufferSize ∨
        ∀ e' ∈ r.eventBuffer, (∀ x ∈ c.received, x.id < e'.id) → e.id ≤ e'.id)) :
    ClientSound r (c.connect cfg r first token) := by
  have hreplayed : ∀ e ∈ awaited r c.received,
      (∀ x ∈ c.received, x.id < e.id) ∧ e ∈ replayed cfg r (c.lastEventId first) := fun e he =>
    awaited_replayed h.lined.left hbuffer he (hresumable e he).1 (hresumable e he).2
  rw [connect_accepted htoken]
  constructor
  · exact h.lined.left.connect hbuffer first fun e he => (hresumable e he).1
  · exact ⟨h.resumed.increasing, fun e he => (hreplayed e he).1, fun e he _ => (hreplayed e he).2⟩

theorem receive (h : ClientSound r c) : ClientSound r c.receive := by
  rcases receive_cases c with heq | ⟨x, hpending, hreceived, howed, hopen⟩
  · rwa [heq]
  · have hitems : c.receive.received ++ c.receive.pending = c.received ++ c.pending := by
      rw [hreceived, hpending, List.append_assoc, List.singleton_append]
    have hlined : Lined r (c.receive.received ++ c.receive.pending) := hitems ▸ h.lined
    have hrest : ∀ e ∈ c.receive.owed, e ∈ c.owed ∧ e ∈ c.receive.pending := by
      intro e he
      rw [howed] at he
      obtain ⟨he, hne⟩ := List.mem_filter.mp he
      have hmem := h.resumed.pending e he hopen
      rw [hpending] at hmem
      exact ⟨he, (List.mem_cons.mp hmem).resolve_left (of_decide_eq_true hne)⟩
    refine ⟨hlined, hlined.increasing.left, fun e he y hy => ?_, fun e he _ => (hrest e he).2⟩
    exact (List.pairwise_append.mp hlined.increasing).2.2 y hy e (hrest e he).2

end ClientSound

/-! ## Every run -/

structure Sound (cfg : RoutesConfig) (w : World D) : Prop where
  buffered : Buffered cfg w.routes
  clients : ∀ i, ClientSound w.routes (w.clients i)

omit [DecidableEq D] in
theorem sound_start (cfg : RoutesConfig) : Sound cfg ({} : World D) := by
  refine ⟨⟨List.Pairwise.nil, nofun, fun h => ?_⟩, fun i => ⟨⟨List.Pairwise.nil, nofun, nofun⟩, ?_⟩⟩
  · show ((0 : ℕ) : ℤ) ≤ cfg.replayBufferSize
    omega
  · exact ⟨List.Pairwise.nil, nofun, nofun⟩

omit [DecidableEq D] in
/-- Client `i` takes a step, and the other clients see the counter go on. -/
theorem Sound.update {w : World D} (hs : Sound cfg w) {i : ℕ} {r' : DashboardRoutes D} {c' : Client D}
    (hbuffer : r'.eventBuffer = w.routes.eventBuffer) (hcounter : w.routes.eventIdCounter ≤ r'.eventIdCounter)
    (hc : ClientSound r' c') : Sound cfg { w.update i c' with routes := r' } := by
  refine ⟨⟨?_, fun e he => ?_, fun hsize => ?_⟩, fun j => ?_⟩
  · rw [hbuffer]
    exact hs.buffered.increasing
  · rw [hbuffer] at he
    exact Nat.le_trans (hs.buffered.le_counter e he) hcounter
  · rw [hbuffer]
    exact hs.buffered.fits hsize
  · show ClientSound r' (Function.update w.clients i c' j)
    rw [Function.update_apply]
    split
    · exact hc
    · refine (hs.clients j).routes fun h => h.routes hcounter fun e he => Or.inl ?_
      rwa [← hbuffer]

theorem sound_step {w : World D} (hs : Sound cfg w) {a : SseAct D} (ha : Resumable cfg w a) :
    Sound cfg (sseStep cfg w a) := by
  cases a with
  | push eventType data =>
    exact ⟨buffered_push hs.buffered eventType data, fun i => (hs.clients i).routes fun h => h.push eventType data⟩
  | connect i first token =>
    refine hs.update rfl (Nat.le_refl _) ?_
    by_cases htoken : validateToken cfg token = true
    · exact (hs.clients i).connect hs.buffered htoken (ha htoken)
    · rw [connect_refused (Bool.eq_false_iff.mpr htoken)]
      exact (hs.clients i).drop
  | emit i nowMs =>
    obtain ⟨hbuffer, hcounter⟩ := emit_routes (w.clients i) w.routes nowMs
    exact hs.update hbuffer hcounter ((hs.clients i).emit nowMs)
  | receive i => exact hs.update rfl (Nat.le_refl _) (hs.clients i).receive
  | drop i => exact hs.update rfl (Nat.le_refl _) (hs.clients i).drop
  | idle nowMs =>
    refine ⟨⟨hs.buffered.increasing, fun e he => ?_, hs.buffered.fits⟩, fun i => (hs.clients i).routes fun h => h.count⟩
    exact Nat.le_succ_of_le (hs.buffered.le_counter e he)

theorem resumable_of_resumed {w : World D} (hs : Sound cfg w) {a : SseAct D}
    (h : AllResumed (sseStep cfg w a)) : Resumable cfg w a := by
  cases a with
  | connect i first token =>
    intro htoken e he
    have hresumed : Resumed ((w.clients i).connect cfg w.routes first token) := by
      have hi := h i
      simp only [sseStep, World.update, Function.update_self] at hi
      exact hi
    rw [connect_accepted htoken] at hresumed
    exact resumable_of_replayed hs.buffered he (hresumed.pending e he (Option.some_ne_none _)) (hresumed.newer e he)
  | _ => trivial

/-- **Resuming loses and repeats nothing in exactly the runs in which no keepalive overtakes an event that is awaited.**
In such a run a client whose connection goes on receives each event that it is owed once. -/
theorem resumed_iff (cfg : RoutesConfig) (as : List (SseAct D)) :
    (Runs.Always AllResumed (sseStep cfg) {} as ↔ Runs.Guarded (Resumable cfg) (sseStep cfg) {} as) ∧
    (Runs.Guarded (Resumable cfg) (sseStep cfg) {} as →
      let w := Runs.run (sseStep cfg) {} as
      ∀ i e nowMs, e ∈ (w.clients i).owed → (w.clients i).connection ≠ none →
        ((Runs.run (sseStep cfg) w (goOn w i nowMs)).clients i).received.count e = 1) := by
  have hstart := sound_start (D := D) cfg
  constructor
  · rw [Runs.always_iff_guarded fun i => (hstart.clients i).resumed]
    refine Runs.guarded_iff_guarded hstart (fun w a _ hs ha => ?_) fun w a _ hs ha h => ha (resumable_of_resumed hs h)
    have hstep := sound_step hs ha
    exact ⟨hstep, fun i => (hstep.clients i).resumed⟩
  · intro hguarded w i e nowMs howed hopen
    have hs : Sound cfg w := (Runs.always_of_guarded hstart (fun w a hs ha => sound_step hs ha) hguarded).last
    have hpending := (hs.clients i).resumed.pending e howed hopen
    rw [received_goOn]
    rw [(hs.clients i).lined.increasing.nodup.count, if_pos (List.mem_append_right _ hpending)]

/-- A keepalive, an event, and another keepalive: the client comes back after the event. -/
theorem not_resumed_keepalive :
    ¬ Runs.Always AllResumed (sseStep {}) ({} : World ℕ)
      [.connect 0 none "", .emit 0 1000, .receive 0, .push "fill" 7, .emit 0 2000, .receive 0, .drop 0,
        .connect 0 none ""] := by
  intro h
  have hnewer := (h.last 0).newer { id := 2, event := "fill", data := .pushed 7 } (by decide)
    { id := 3, event := "keepalive", data := .ts 2000 } (by decide)
  exact absurd hnewer (by decide)

end Clients

end MikoV2.Dashboard
