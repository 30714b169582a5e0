import MikoV2.Queues.Telemetry

/-!
# Which items the telemetry queue drops

The producers and the bridge, without `close`. What is kept is what the bridge holds and what is in the deque, in the
order of the puts. A put on a full deque drops the oldest item of the deque, while the bridge may hold one that is older;
an item put back on a full deque drops the newest.

* `kept`, `lost` : the items that are kept, and those that a step loses;
* `Ordered`, `ordered_run` : the invariant; `DropsOldest` : a step loses nothing that is newer than what it keeps;
* `Fair` : the steps that drop the oldest; `dropsOldest_iff_fair`.
-/

namespace MikoV2.Queues
namespace TelemetryQueue

variable {α : Type} {maxlen : ℕ} {q : TelemetryQueue α}

/-- What is neither forwarded nor lost, the oldest first. -/
def kept (q : TelemetryQueue α) : List (Tagged α) := q.inHand ++ q.deque

/-- What a step loses: what the deque puts out, a `None` that the bridge pops, and an item whose put raises. -/
def lost (maxlen : ℕ) (q : TelemetryQueue α) : BridgeEvent α → List (Tagged α)
  | .put item => BoundedDeque.appendEvicts maxlen q.deque ⟨q.puts, item⟩
  | .look => []
  | .take => match q.bridge with
    | .looked => q.deque.head?.toList.filter (·.item.isNone)
    | _ => []
  | .forward ended => match q.bridge, ended with
    | .putting x, .full => BoundedDeque.appendleftEvicts maxlen q.deque x
    | .putting x, .error => [x]
    | _, _ => []

/-- The puts come in their order: what is forwarded before what is kept, and this before what is to come. -/
structure Ordered (maxlen : ℕ) (q : TelemetryQueue α) : Prop where
  sorted : (q.forwarded ++ q.kept).Pairwise fun x y => x.seq < y.seq
  fresh : ∀ x ∈ q.forwarded ++ q.kept, x.seq < q.puts
  length : q.deque.length ≤ maxlen
  room : q.inHand ≠ [] → 0 < maxlen

/-- What has been forwarded is in the order of the puts, and what a step loses is older than all that it keeps. -/
def DropsOldest (maxlen : ℕ) (q : TelemetryQueue α) (e : BridgeEvent α) : Prop :=
  (q.bridgeStep maxlen e).forwarded.Pairwise (fun x y => x.seq < y.seq) ∧
    ∀ x ∈ q.lost maxlen e, ∀ y ∈ (q.bridgeStep maxlen e).kept, x.seq < y.seq

/-- No put on a full deque while the bridge holds an item, and no item put back on a full deque. -/
def Fair (maxlen : ℕ) (q : TelemetryQueue α) : BridgeEvent α → Prop
  | .put _ => q.deque.length = maxlen → q.inHand = []
  | .look => True
  | .take => True
  | .forward ended => q.inHand ≠ [] → ended = .full → q.deque.length < maxlen

/-- What comes in with a step. -/
def incoming (q : TelemetryQueue α) : BridgeEvent α → List (Tagged α)
  | .put item => [⟨q.puts, item⟩]
  | _ => []

theorem ordered_init : Ordered maxlen (init : TelemetryQueue α) :=
  ⟨List.Pairwise.nil, nofun, Nat.zero_le _, fun h => absurd rfl h⟩

/-- The items of a step: what was forwarded or kept, and what comes in, in this order, has the items forwarded and kept
after the step as a sublist. -/
theorem sublist_step (e : BridgeEvent α) :
    ((q.bridgeStep maxlen e).forwarded ++ (q.bridgeStep maxlen e).kept).Sublist
      (q.forwarded ++ q.kept ++ q.incoming e) := by
  obtain ⟨deque, forwarded, dropped, stopEvent, bridge, closer, puts⟩ := q
  cases e with
  | put item =>
    have hsub : (BoundedDeque.append maxlen deque ⟨puts, item⟩).Sublist (deque ++ [⟨puts, item⟩]) := List.drop_sublist _ _
    simp only [bridgeStep, putNowait, kept, incoming, List.append_assoc]
    exact (List.Sublist.refl forwarded).append ((List.Sublist.refl _).append hsub)
  | look =>
    simp only [incoming, List.append_nil]
    cases bridge with
    | idle => cases stopEvent <;> exact List.Sublist.refl _
    | _ => exact List.Sublist.refl _
  | take =>
    simp only [incoming, List.append_nil]
    cases bridge with
    | looked =>
      cases deque with
      | nil => exact List.Sublist.refl _
      | cons x rest =>
        obtain ⟨seq, item⟩ := x
        cases item with
        | none => exact (List.Sublist.refl forwarded).append (List.sublist_cons_self _ _)
        | some v => exact List.Sublist.refl _
    | _ => exact List.Sublist.refl _
  | forward ended =>
    simp only [incoming, List.append_nil]
    cases bridge with
    | putting x =>
      cases ended with
      | ok =>
        show ((forwarded ++ [x]) ++ deque).Sublist (forwarded ++ ([x] ++ deque))
        rw [List.append_assoc]
      | full => exact (List.Sublist.refl forwarded).append (List.take_sublist _ _)
      | error => exact (List.Sublist.refl forwarded).append (List.sublist_cons_self _ _)
    | _ => exact List.Sublist.refl _

theorem puts_step (e : BridgeEvent α) : (q.bridgeStep maxlen e).puts = q.puts + (q.incoming e).length := by
  cases e with
  | put item => rfl
  | look =>
    simp only [bridgeStep]
    split <;> rfl
  | take =>
    simp only [bridgeStep]
    split
    · unfold take
      split <;> rfl
    · rfl
  | forward ended =>
    simp only [bridgeStep]
    split
    · cases ended <;> rfl
    · rfl

theorem Ordered.incoming (h : Ordered maxlen q) (e : BridgeEvent α) :
    (q.forwarded ++ q.kept ++ q.incoming e).Pairwise fun x y => x.seq < y.seq := by
  cases e with
  | put item =>
    refine List.pairwise_append.mpr ⟨h.sorted, List.pairwise_singleton _ _, fun x hx y hy => ?_⟩
    rw [List.mem_singleton.mp hy]
    exact h.fresh x hx
  | _ =>
    simp only [TelemetryQueue.incoming, List.append_nil]
    exact h.sorted

/-- What the bridge holds it has taken from the deque. -/
theorem room_step (h : Ordered maxlen q) (e : BridgeEvent α) (hhand : (q.bridgeStep maxlen e).inHand ≠ []) :
    0 < maxlen := by
  obtain ⟨deque, forwarded, dropped, stopEvent, bridge, closer, puts⟩ := q
  cases e with
  | put item => exact h.room hhand
  | look =>
    cases bridge with
    | idle => cases stopEvent <;> exact absurd rfl hhand
    | _ => exact h.room hhand
  | take =>
    cases bridge with
    | looked =>
      cases deque with
      | nil => exact absurd rfl hhand
      | cons x rest => exact Nat.zero_lt_of_lt h.length
    | _ => exact h.room hhand
  | forward ended =>
    cases bridge with
    | putting x => cases ended <;> exact absurd rfl hhand
    | _ => exact h.room hhand

theorem Ordered.step (h : Ordered maxlen q) (e : BridgeEvent α) : Ordered maxlen (q.bridgeStep maxlen e) := by
  refine ⟨(h.incoming e).sublist (sublist_step e), fun x hx => ?_, length_bridgeStep h.length e, room_step h e⟩
  rw [puts_step]
  rcases List.mem_append.mp ((sublist_step e).subset hx) with hold | hnew
  · exact Nat.lt_add_right _ (h.fresh x hold)
  · cases e with
    | put item =>
      rw [List.mem_singleton.mp hnew]
      exact Nat.lt_succ_self q.puts
    | _ => cases hnew

theorem ordered_run (maxlen : ℕ) (es : List (BridgeEvent α)) : Ordered maxlen (Runs.run (bridgeStep maxlen) init es) :=
  Runs.invariant ordered_init (fun _ e h => h.step e) es

/-! ## What is lost -/

theorem Ordered.kept (h : Ordered maxlen q) : q.kept.Pairwise fun x y => x.seq < y.seq :=
  h.sorted.sublist (List.sublist_append_right _ _)

/-- A fair step loses what is oldest. -/
theorem Fair.dropsOldest (h : Ordered maxlen q) {e : BridgeEvent α} (hfair : Fair maxlen q e) : DropsOldest maxlen q e := by
  refine ⟨(h.step e).sorted.sublist (List.sublist_append_left _ _), fun x hx y hy => ?_⟩
  have hkept := h.kept
  cases e with
  | put item =>
    by_cases hfull : q.deque.length = maxlen
    · have hnone : q.inHand = [] := hfair hfull
      have hafter : (q.bridgeStep maxlen (.put item)).kept = BoundedDeque.append maxlen q.deque ⟨q.puts, item⟩ := by
        show q.inHand ++ _ = _
        rw [hnone]
        rfl
      have hall := h.incoming (.put item)
      rw [TelemetryQueue.kept, hnone, List.nil_append, List.append_assoc] at hall
      have hboth : (BoundedDeque.appendEvicts maxlen q.deque ⟨q.puts, item⟩ ++
          BoundedDeque.append maxlen q.deque ⟨q.puts, item⟩).Pairwise fun x y => x.seq < y.seq := by
        rw [BoundedDeque.evicts_append]
        exact (List.pairwise_append.mp hall).2.1
      rw [hafter] at hy
      exact (List.pairwise_append.mp hboth).2.2 x hx y hy
    · have hlt : q.deque.length < maxlen := lt_of_le_of_ne h.length hfull
      rw [lost, BoundedDeque.appendEvicts_of_lt hlt] at hx
      cases hx
  | look => cases hx
  | take =>
    obtain ⟨deque, forwarded, dropped, stopEvent, bridge, closer, puts⟩ := q
    cases bridge with
    | looked =>
      cases deque with
      | nil => cases hx
      | cons z rest =>
        obtain ⟨seq, item⟩ := z
        cases item with
        | none =>
          obtain rfl : x = ⟨seq, none⟩ := by simpa [lost] using hx
          exact List.rel_of_pairwise_cons hkept hy
        | some v => simp [lost] at hx
    | _ => cases hx
  | forward ended =>
    obtain ⟨deque, forwarded, dropped, stopEvent, bridge, closer, puts⟩ := q
    cases bridge with
    | putting z =>
      cases ended with
      | ok => cases hx
      | full =>
        have hlt : deque.length < maxlen := hfair (List.cons_ne_nil z []) rfl
        simp only [lost] at hx
        rw [BoundedDeque.appendleftEvicts_of_lt hlt] at hx
        cases hx
      | error =>
        obtain rfl : x = z := List.mem_singleton.mp hx
        exact List.rel_of_pairwise_cons hkept hy
    | _ => cases hx

/-- A step that is not fair loses an item that is newer than one it keeps. -/
theorem not_dropsOldest (h : Ordered maxlen q) {e : BridgeEvent α} (hunfair : ¬ Fair maxlen q e) :
    ¬ DropsOldest maxlen q e := by
  have hkept := h.kept
  rintro ⟨-, hdrops⟩
  cases e with
  | look => exact hunfair trivial
  | take => exact hunfair trivial
  | put item =>
    obtain ⟨hfull, hhand⟩ : q.deque.length = maxlen ∧ q.inHand ≠ [] := by
      simpa [Fair] using hunfair
    obtain ⟨z, hz⟩ := List.exists_mem_of_ne_nil _ hhand
    have hpos := h.room hhand
    cases hdeque : q.deque with
    | nil =>
      rw [hdeque] at hfull
      exact absurd hfull.symm hpos.ne'
    | cons x rest =>
      -- the put drops the oldest of the deque, and the bridge keeps an older one
      have hlost : x ∈ q.lost maxlen (.put item) := by
        have hone : rest.length + 1 + 1 - maxlen = 1 := by
          rw [hdeque, List.length_cons] at hfull
          omega
        simp [lost, BoundedDeque.appendEvicts, hdeque, hone]
      have hlt : z.seq < x.seq := by
        rw [TelemetryQueue.kept, hdeque] at hkept
        exact (List.pairwise_append.mp hkept).2.2 z hz x List.mem_cons_self
      exact absurd (hdrops x hlost z (List.mem_append_left _ hz)) (by omega)
  | forward ended =>
    obtain ⟨deque, forwarded, dropped, stopEvent, bridge, closer, puts⟩ := q
    obtain ⟨hhand, rfl, hfull⟩ : inHand ⟨deque, forwarded, dropped, stopEvent, bridge, closer, puts⟩ ≠ [] ∧
        ended = .full ∧ maxlen ≤ deque.length := by
      simpa [Fair] using hunfair
    have hpos := h.room hhand
    have hle : deque.length ≤ maxlen := h.length
    cases bridge with
    | putting z =>
      -- the item that is put back stays, and the newest goes
      have hz : z ∈ BoundedDeque.appendleft maxlen deque z := by
        obtain ⟨n, rfl⟩ := Nat.exists_eq_succ_of_ne_zero hpos.ne'
        exact List.mem_cons_self
      have hsome : BoundedDeque.appendleftEvicts maxlen deque z ≠ [] := by
        rw [Ne, ← List.length_eq_zero_iff, BoundedDeque.appendleftEvicts, List.length_drop, List.length_cons]
        omega
      obtain ⟨x, hx⟩ := List.exists_mem_of_ne_nil _ hsome
      have hboth : (BoundedDeque.appendleft maxlen deque z ++
          BoundedDeque.appendleftEvicts maxlen deque z).Pairwise fun x y => x.seq < y.seq := by
        rw [BoundedDeque.appendleft_evicts]
        exact hkept
      have hlt : z.seq < x.seq := (List.pairwise_append.mp hboth).2.2 z hz x hx
      exact absurd (hdrops x hx z hz) (by omega)
    | _ => exact hhand rfl

/-- **Drop oldest.** In every step of a run the items are forwarded in the order of the puts and what is lost is older
than all that is kept, exactly when no put finds the deque full while the bridge holds an item, and no item is put back
on a full deque. -/
theorem dropsOldest_iff_fair (maxlen : ℕ) (es : List (BridgeEvent α)) :
    Runs.Guarded (DropsOldest maxlen) (bridgeStep maxlen) init es ↔
      Runs.Guarded (Fair maxlen) (bridgeStep maxlen) init es :=
  Runs.guarded_iff_guarded ordered_init (fun _ e _ h hfair => ⟨h.step e, hfair.dropsOldest h⟩)
    fun _ _ _ h hunfair => not_dropsOldest h hunfair

/-- The deque is full again when an item comes back to it. -/
def refilled : List (BridgeEvent ℕ) := [.put (some 0), .look, .take, .put (some 1), .forward .full]

/-- The newer item is lost, and the older one kept. -/
theorem not_dropsOldest_refilled :
    ¬ ∀ (maxlen : ℕ) (es : List (BridgeEvent ℕ)),
      Runs.Guarded (DropsOldest maxlen) (bridgeStep maxlen) (init : TelemetryQueue ℕ) es := by
  intro h
  obtain ⟨-, hdrops⟩ := h 1 refilled [.put (some 0), .look, .take, .put (some 1)] (.forward .full) (List.prefix_refl _)
  exact absurd (hdrops ⟨1, some 1⟩ List.mem_cons_self ⟨0, some 0⟩ List.mem_cons_self) (by decide)

end TelemetryQueue
end MikoV2.Queues
