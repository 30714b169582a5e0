import MikoV2.Execution.Permits

/-!
# The pacer under the gateway

`post_market_order` puts its payload into the pacer and sends the order itself; nobody takes the payload out.

* `Unoccupied` : the heap holds only orders that are under way, and no other order fills it;
* `Call.Ends` : the ways for a call to return, `KeepsUnoccupied` : no order that the pacer took does;
* `unoccupied_iff` : these are the runs in which the pacer is not occupied by orders that finished.
-/

namespace MikoV2.Execution

/-- The event ends the call. -/
def Call.Ends (c : Call) (e : CallEvent) : Prop := match c.phase, e with
  | .acquiring _ _, .timeout | .acquiring _ _, .cancel | .token, .cancel | .token, .token false |
    .exchange, .cancel | .exchange, .exchange _ | .admitted, .release => True
  | .directToken _, .cancel | .directExchange _, .cancel | .directSleep _, .cancel |
    .directExchange _, .exchange .posted => True
  | .directSleep n, .slept => 2 ≤ n
  | _, _ => False

namespace GatewayWorld
open RestGateway

/-- Finished orders do not occupy the pacer. -/
structure Unoccupied (cfg : RestGatewayConfig) (w : GatewayWorld) : Prop where
  live : ∀ item ∈ w.gateway.pacer.heap.items, ∃ c ∈ w.calls, c.queued = some item.seq ∧ c.InProgress
  idle : (∀ c ∈ w.calls, ¬ c.InProgress) → w.gateway.pacer.heap.items = []
  /-- a critical order that finds the pacer full finds it full of orders under way -/
  room : cfg.pacer.criticalMaxsize ≤ w.gateway.pacer.qsize →
    cfg.pacer.criticalMaxsize ≤ (w.calls.filter (·.InProgress)).length

/-- No order whose payload the pacer took returns. -/
def KeepsUnoccupied (cfg : RestGatewayConfig) (w : GatewayWorld) : GatewayEvent → Prop
  | .on t e => ∀ c, w.calls[t]? = some c → c.queued ≠ none → ¬ c.Ends e
  | .postMarketOrder order priority time =>
    (∃ refusal, w.gateway.pacer.enqueue cfg.pacer priority order time = .error refusal) ∨
      (w.gateway.criticalBypass = false ∧ (w.gateway.isCircuitOpen cfg w.mono (order.symbol.getD "")).1 = false)
  | _ => True

/-! ## What the functions do to the pacer -/

theorem giveBack_pacer (ks : List Sem) (g : RestGateway) : (g.giveBack ks).pacer = g.pacer := by
  induction ks generalizing g with
  | nil => rfl
  | cons k ks ih => exact ih _

theorem record429_pacer (cfg : RestGatewayConfig) (mono : ℚ) (symbol : String) (g : RestGateway) :
    (g.record429 cfg mono symbol).pacer = g.pacer := by
  unfold record429
  simp only
  split <;> rfl

theorem isCircuitOpen_pacer (cfg : RestGatewayConfig) (mono : ℚ) (symbol : String) (g : RestGateway) :
    (g.isCircuitOpen cfg mono symbol).2.pacer = g.pacer := by
  unfold isCircuitOpen
  repeat' split
  all_goals rfl

theorem waiting_inProgress (taken rest : List Sem) (how : Ending) : waiting taken rest ≠ .ended how := by
  unfold waiting
  split <;> nofun

section Moves
variable {cfg : RestGatewayConfig} {mono : ℚ} {t : ℕ} {c : Call} {g g' : RestGateway} {e : CallEvent} {phase : Phase}

theorem Moved.pacer (h : Moved cfg mono t c g e phase g') : g'.pacer = g.pacer := by
  cases h <;> simp only [giveBack_pacer, record429_pacer, recordSuccess]

theorem Moved.ends (h : Moved cfg mono t c g e phase g') : (∃ how, phase = .ended how) → c.Ends e := by
  rintro ⟨how, hhow⟩
  cases h with
  | resumed => exact absurd hhow (waiting_inProgress _ _ how)
  | cancelledDirect hphase =>
    obtain ⟨n, hphase | hphase | hphase⟩ := hphase <;> simp [Call.Ends, hphase]
  | admitted => split at hhow <;> cases hhow
  | directToken => split at hhow <;> cases hhow
  | slept hphase =>
    split at hhow
    · cases hhow
    · rename_i hn
      simp only [Call.Ends, hphase]
      omega
  | directRateLimited => cases hhow
  | directRaised => cases hhow
  | _ => simp [Call.Ends, *]

variable (cfg mono t g) in
theorem move_of_ends (hform : c.Formed) (h : c.Ends e) :
    ∃ how g', move cfg mono t c g e = some (.ended how, g') := by
  unfold Call.Ends at h
  split at h
  · rename_i taken rest hphase
    obtain ⟨k, rest, rfl⟩ := List.exists_cons_of_ne_nil (hform _ _ hphase).2
    simp only [move, hphase]
    exact ⟨_, _, rfl⟩
  · rename_i taken rest hphase
    obtain ⟨k, rest, rfl⟩ := List.exists_cons_of_ne_nil (hform _ _ hphase).2
    simp only [move, hphase]
    exact ⟨_, _, rfl⟩
  case h_6 answer hphase =>
    cases answer <;> simp only [move, hphase] <;> exact ⟨_, _, rfl⟩
  case h_12 n hphase =>
    simp only [move, hphase]
    rw [if_neg (by omega)]
    exact ⟨_, _, rfl⟩
  case h_13 => cases h
  all_goals
    rename_i hphase
    simp only [move, hphase]
    exact ⟨_, _, rfl⟩

theorem isCircuitOpen_of_pacer (symbol : String) (pacer : Pacer Order) :
    (isCircuitOpen cfg mono symbol { g with pacer := pacer }).1 = (g.isCircuitOpen cfg mono symbol).1 := by
  unfold isCircuitOpen
  cases g.circuitOpenUntil symbol with
  | none => rfl
  | some until' =>
    simp only
    repeat' split
    all_goals rfl

variable (cfg mono t g) in
/-- `acquire` returns at once when the bypass is set or the circuit refuses. -/
theorem acquire_ended (ip symbol : String) (isEmergency : Bool) :
    (acquire cfg mono t ip symbol isEmergency g).2.2.pacer = g.pacer ∧
      ((∃ how, (acquire cfg mono t ip symbol isEmergency g).1 = .ended how) ↔
        ¬ (g.criticalBypass = false ∧ (g.isCircuitOpen cfg mono symbol).1 = false)) := by
  have hpacer := isCircuitOpen_pacer cfg mono symbol g
  unfold acquire
  by_cases hbypass : g.criticalBypass = true
  · rw [if_pos hbypass]
    exact ⟨rfl, iff_of_true ⟨_, rfl⟩ fun hall => by rw [hbypass] at hall; cases hall.1⟩
  rw [if_neg hbypass]
  have hfalse : g.criticalBypass = false := Bool.eq_false_iff.mpr hbypass
  rcases hopen : g.isCircuitOpen cfg mono symbol with ⟨isOpen, g₁⟩
  rw [hopen] at hpacer
  cases isOpen with
  | true => exact ⟨hpacer, iff_of_true ⟨_, rfl⟩ fun hall => by cases hall.2⟩
  | false =>
    refine ⟨hpacer, iff_of_false ?_ (not_not.mpr ⟨hfalse, rfl⟩)⟩
    rintro ⟨how, hhow⟩
    exact waiting_inProgress _ _ how hhow

end Moves

/-! ## The invariant -/

/-- The payloads of the orders, in order, are all in the heap. -/
structure Stuck (w : GatewayWorld) : Prop where
  queued : w.calls.filterMap (·.queued) = List.range w.gateway.pacer.seq
  heap : (w.gateway.pacer.heap.items.map (·.seq)).Perm (List.range w.gateway.pacer.seq)

/-- And these orders are under way. -/
def Live (w : GatewayWorld) : Prop := ∀ c ∈ w.calls, c.queued ≠ none → c.InProgress

section Steps
variable {cfg : RestGatewayConfig} {w : GatewayWorld}

theorem filter_queued_le (l : List Call) (h : ∀ c ∈ l, c.queued ≠ none → c.InProgress) :
    (l.filterMap (·.queued)).length ≤ (l.filter (·.InProgress)).length := by
  induction l with
  | nil => exact le_refl _
  | cons c l ih =>
    have := ih fun d hd => h d (List.mem_cons_of_mem c hd)
    have hc := h c List.mem_cons_self
    rw [List.filterMap_cons, List.filter_cons]
    cases hq : c.queued with
    | none =>
      simp only
      split
      · rw [List.length_cons]
        omega
      · exact this
    | some n =>
      rw [if_pos (decide_eq_true (hc (by rw [hq]; nofun)))]
      simp only [List.length_cons]
      omega

theorem eq_of_nodup_filterMap {α β : Type} {f : α → Option β} {l : List α} {a b : α} {n : β}
    (h : (l.filterMap f).Nodup) (ha : a ∈ l) (hb : b ∈ l) (hfa : f a = some n) (hfb : f b = some n) : a = b := by
  induction l with
  | nil => cases ha
  | cons c l ih =>
    have htail : (l.filterMap f).Nodup := h.sublist ((List.sublist_cons_self c l).filterMap f)
    have hhead : ∀ d ∈ l, f c = some n → f d = some n → False := by
      intro d hd hfc hfd
      rw [List.filterMap_cons_some hfc, List.nodup_cons] at h
      exact h.1 (List.mem_filterMap.mpr ⟨d, hd, hfd⟩)
    rcases List.mem_cons.mp ha with rfl | hal <;> rcases List.mem_cons.mp hb with rfl | hbl
    · rfl
    · exact (hhead b hbl hfa hfb).elim
    · exact (hhead a hal hfb hfa).elim
    · exact ih htail hal hbl

theorem Stuck.unoccupied (h : Stuck w) (hlive : w.Live) : Unoccupied cfg w := by
  have hitem : ∀ item ∈ w.gateway.pacer.heap.items, ∃ c ∈ w.calls, c.queued = some item.seq ∧ c.InProgress := by
    intro item hitem
    have hseq : item.seq ∈ w.calls.filterMap (·.queued) := by
      rw [h.queued]
      exact h.heap.subset (List.mem_map_of_mem hitem)
    obtain ⟨c, hc, hqueued⟩ := List.mem_filterMap.mp hseq
    exact ⟨c, hc, hqueued, hlive c hc (by rw [hqueued]; nofun)⟩
  refine ⟨hitem, fun hidle => ?_, fun hfull => ?_⟩
  · refine List.eq_nil_iff_forall_not_mem.mpr fun item hmem => ?_
    obtain ⟨c, hc, -, hprogress⟩ := hitem item hmem
    exact hidle c hc hprogress
  · have hsize : w.gateway.pacer.qsize = (w.calls.filterMap (·.queued)).length := by
      have := h.heap.length_eq
      rw [h.queued]
      simpa [Pacer.qsize] using this
    have := filter_queued_le w.calls hlive
    omega

/-- The payload of an order that finished stays, and no other order has it. -/
theorem Stuck.occupied (h : Stuck w) {c : Call} (hc : c ∈ w.calls) (hqueued : c.queued ≠ none)
    (hended : ¬ c.InProgress) : ¬ Unoccupied cfg w := by
  intro hun
  obtain ⟨n, hn⟩ := Option.ne_none_iff_exists'.mp hqueued
  have hmem : n ∈ w.gateway.pacer.heap.items.map (·.seq) := by
    refine h.heap.symm.subset ?_
    rw [← h.queued]
    exact List.mem_filterMap.mpr ⟨c, hc, hn⟩
  obtain ⟨item, hitem, hseq⟩ := List.mem_map.mp hmem
  obtain ⟨d, hd, hdq, hprogress⟩ := hun.live item hitem
  have hnodup : (w.calls.filterMap (·.queued)).Nodup := by
    rw [h.queued]
    exact List.nodup_range
  have heq : c = d := eq_of_nodup_filterMap hnodup hc hd hn (by rw [hdq, hseq])
  exact hended (heq ▸ hprogress)

/-- The payload of a new order goes into the heap, under the next number. -/
theorem Stuck.append (h : Stuck w) {c : Call} {g : RestGateway}
    (hnew : (c.queued = none ∧ g.pacer = w.gateway.pacer) ∨
      (c.queued = some w.gateway.pacer.seq ∧
        ∃ pacing priority order time, w.gateway.pacer.enqueue pacing priority order time = .ok g.pacer)) :
    Stuck { w with gateway := g, calls := w.calls ++ [c] } := by
  rcases hnew with ⟨hqueued, hpacer⟩ | ⟨hqueued, pacing, priority, order, time, henq⟩
  · refine ⟨?_, by rw [hpacer]; exact h.heap⟩
    rw [List.filterMap_append, h.queued, hpacer]
    simp [hqueued]
  · obtain ⟨-, hpacer⟩ := Pacer.enqueue_ok henq
    refine ⟨?_, ?_⟩
    · rw [List.filterMap_append, h.queued, hpacer, List.range_succ]
      simp [hqueued]
    · rw [hpacer, List.range_succ]
      have hpush := (MinQueue.push_perm (⟨priority, w.gateway.pacer.seq, time, order⟩ : PacerItem Order)
        w.gateway.pacer.heap).map (·.seq)
      refine hpush.trans ?_
      exact (h.heap.cons w.gateway.pacer.seq).trans (List.perm_append_singleton _ _).symm

theorem Stuck.set (h : Stuck w) {t : ℕ} {c : Call} {phase : Phase} {g : RestGateway} (hc : w.calls[t]? = some c)
    (hpacer : g.pacer = w.gateway.pacer) :
    Stuck { w with gateway := g, calls := w.calls.set t { c with phase := phase } } := by
  have hsame : (w.calls.set t { c with phase := phase }).map (·.queued) = w.calls.map (·.queued) :=
    Slots.map_set_of_eq _ hc rfl
  have hfilter : ∀ l : List Call, l.filterMap (·.queued) = (l.map (·.queued)).filterMap id := fun l => by
    rw [List.filterMap_map]
    rfl
  refine ⟨?_, by rw [hpacer]; exact h.heap⟩
  rw [hfilter, hsame, ← hfilter, h.queued, hpacer]

variable (cfg) in
theorem step_stuck (h : Stuck w) (e : GatewayEvent) : Stuck (step cfg w e) := by
  cases e with
  | acquire ip symbol isEmergency =>
    simp only [step, enter]
    have hpacer := (acquire_ended cfg w.mono w.calls.length w.gateway ip symbol isEmergency).1
    exact h.append (Or.inl ⟨rfl, hpacer⟩)
  | postMarketOrder order priority time =>
    simp only [step]
    split
    · rename_i pacer henq
      simp only [enter]
      refine h.append (Or.inr ⟨rfl, cfg.pacer, priority, order, time, ?_⟩)
      rw [(acquire_ended cfg w.mono w.calls.length _ _ _ _).1]
      exact henq
    · exact h.append (Or.inl ⟨rfl, rfl⟩)
    · exact h.append (Or.inl ⟨rfl, rfl⟩)
  | on t e =>
    simp only [step]
    cases hc : w.calls[t]? with
    | none => exact h
    | some c =>
      simp only
      cases hmove : move cfg w.mono t c w.gateway e with
      | none => exact h
      | some moved => exact h.set hc (move_cases hmove).pacer
  | record429 symbol =>
    have hpacer := record429_pacer cfg w.mono symbol w.gateway
    exact ⟨by simp only [step, hpacer]; exact h.queued, by simp only [step, hpacer]; exact h.heap⟩
  | recordSuccess symbol => exact ⟨h.queued, h.heap⟩
  | setCriticalBypass val => exact ⟨h.queued, h.heap⟩
  | tick mono => exact ⟨h.queued, h.heap⟩

theorem Live.append (h : w.Live) {c : Call} {g : RestGateway} (hc : c.queued ≠ none → c.InProgress) :
    Live { w with gateway := g, calls := w.calls ++ [c] } := by
  intro d hd
  rcases List.mem_append.mp hd with hold | hnew
  · exact h d hold
  · rw [List.mem_singleton.mp hnew]
    exact hc

theorem step_live (h : w.Live) {e : GatewayEvent} (hok : KeepsUnoccupied cfg w e) : (step cfg w e).Live := by
  cases e with
  | acquire ip symbol isEmergency =>
    simp only [step, enter]
    exact h.append fun hq => absurd rfl hq
  | postMarketOrder order priority time =>
    simp only [step]
    split
    · rename_i pacer henq
      simp only [enter]
      refine h.append fun _ how hhow => ?_
      rcases hok with ⟨refusal, herr⟩ | hthrough
      · rw [herr] at henq
        cases henq
      · refine (acquire_ended cfg w.mono w.calls.length _ _ _ _).2.mp ⟨how, hhow⟩ ⟨hthrough.1, ?_⟩
        rw [isCircuitOpen_of_pacer]
        exact hthrough.2
    · exact h.append fun hq => absurd rfl hq
    · exact h.append fun hq => absurd rfl hq
  | on t e =>
    simp only [step]
    cases hc : w.calls[t]? with
    | none => exact h
    | some c =>
      simp only
      cases hmove : move cfg w.mono t c w.gateway e with
      | none => exact h
      | some moved =>
        intro d hd hqueued how hhow
        rcases List.mem_or_eq_of_mem_set hd with hold | rfl
        · exact h d hold hqueued how hhow
        · exact hok c hc hqueued ((move_cases hmove).ends ⟨how, hhow⟩)
  | record429 symbol | recordSuccess symbol | setCriticalBypass val | tick mono => exact h

theorem step_occupied (hstuck : Stuck w) (hform : w.Formed) {e : GatewayEvent} (hok : ¬ KeepsUnoccupied cfg w e) :
    ¬ Unoccupied cfg (step cfg w e) := by
  have hnext := step_stuck cfg hstuck e
  cases e with
  | on t e =>
    simp only [KeepsUnoccupied, not_forall, not_not] at hok
    obtain ⟨c, hc, hqueued, hends⟩ := hok
    obtain ⟨how, g', hmove⟩ := move_of_ends cfg w.mono t w.gateway
      (hform c (List.mem_of_getElem? hc)) hends
    have hlt : t < w.calls.length := (List.getElem?_eq_some_iff.mp hc).choose
    have hmem : { c with phase := .ended how } ∈ (step cfg w (.on t e)).calls := by
      simp only [step, hc, hmove]
      exact List.mem_set hlt _
    exact hnext.occupied hmem hqueued fun hprogress => hprogress how rfl
  | postMarketOrder order priority time =>
    simp only [KeepsUnoccupied, not_or] at hok
    obtain ⟨hnot, hended⟩ := hok
    cases henq : w.gateway.pacer.enqueue cfg.pacer priority order time with
    | error refusal => exact absurd ⟨refusal, henq⟩ hnot
    | ok pacer =>
      have hblocked : ¬ (w.gateway.criticalBypass = false ∧ (isCircuitOpen cfg w.mono (order.symbol.getD "")
          { w.gateway with pacer := pacer }).1 = false) := by
        rw [isCircuitOpen_of_pacer]
        exact hended
      obtain ⟨how, hhow⟩ := (acquire_ended cfg w.mono w.calls.length { w.gateway with pacer := pacer } "default"
        (order.symbol.getD "") (decide (priority = 0))).2.mpr hblocked
      obtain ⟨c, hc, hqueued, hphase⟩ : ∃ c ∈ (step cfg w (.postMarketOrder order priority time)).calls,
          c.queued ≠ none ∧ c.phase = .ended how := by
        simp only [step, henq, enter]
        exact ⟨_, List.mem_append_right _ (List.mem_singleton_self _), Option.some_ne_none _, hhow⟩
      exact hnext.occupied hc hqueued fun hprogress => hprogress how hphase
  | _ => exact absurd trivial hok

end Steps

/-- **The pacer is not occupied by finished orders** in exactly the runs in which no order returns whose payload
the pacer took. -/
theorem unoccupied_iff (cfg : RestGatewayConfig) (events : List GatewayEvent) :
    Runs.Always (Unoccupied cfg) (step cfg) (fresh cfg) events ↔
      Runs.Guarded (KeepsUnoccupied cfg) (step cfg) (fresh cfg) events := by
  have hnone : ∀ c ∈ (fresh cfg).calls, False := by
    intro c hc
    cases hc
  have hform : (fresh cfg).Formed := fun c hc => (hnone c hc).elim
  have hstuck : Stuck (fresh cfg) := ⟨rfl, List.Perm.nil⟩
  have hlive : (fresh cfg).Live := fun c hc => (hnone c hc).elim
  rw [Runs.always_iff_guarded (hstuck.unoccupied hlive)]
  refine Runs.guarded_iff_guarded (I := fun w => w.Formed ∧ Stuck w ∧ w.Live) ⟨hform, hstuck, hlive⟩ ?_ ?_
  · rintro w e - ⟨hf, hs, hl⟩ hok
    have hs' := step_stuck cfg hs e
    have hl' := step_live hl hok
    exact ⟨⟨(step_total cfg hf e).1, hs', hl'⟩, hs'.unoccupied hl'⟩
  · rintro w e - ⟨hf, hs, -⟩ hok hun
    exact step_occupied hs hf hok hun

/-- One order is posted and answered: its payload stays. -/
def postedOnce : List GatewayEvent :=
  [.postMarketOrder ⟨some "BTCUSDT", some true⟩ 0 0, .on 0 (.token true), .on 0 (.exchange .posted)]

theorem not_unoccupied_postedOnce : ¬ Runs.Always (Unoccupied {}) (step {}) (fresh {}) postedOnce := by
  intro h
  have hidle : ∀ c ∈ (Runs.run (step {}) (fresh {}) postedOnce).calls, ¬ c.InProgress := by decide
  have hsize : (Runs.run (step {}) (fresh {}) postedOnce).gateway.pacer.heap.items.length = 1 := by decide
  rw [h.last.idle hidle] at hsize
  cases hsize

end GatewayWorld

end MikoV2.Execution
