import MikoV2.Execution.Permits

/-!
# The half-open probe

`is_circuit_open` takes the probe when it lets a request through. Whoever took it has to close the circuit or
open it again; a request that ends otherwise leaves a circuit that refuses everything.

* `ProbeLive` : a taken probe is with a request that is under way, and an opening has at most one;
* `GivesUp` : the ways for a request to end without telling the circuit;
* `probeLive_iff` : the probe stays live in exactly the runs in which the current probe never gives up.
-/

namespace MikoV2.Execution

namespace Call

/-- The event ends the call, and the circuit is told nothing. -/
def GivesUp (c : Call) (e : CallEvent) : Prop := match c.phase, e with
  | .acquiring _ _, .timeout | .acquiring _ _, .cancel | .token, .cancel | .token, .token false |
    .exchange, .cancel | .exchange, .exchange .raises | .admitted, .release => True
  | _, _ => False

/-- In `_direct_market_post`, which does not ask the circuit. -/
def Direct (c : Call) : Prop :=
  ∃ n, c.phase = .directToken n ∨ c.phase = .directExchange n ∨ c.phase = .directSleep n

end Call

namespace GatewayWorld
open RestGateway

/-- The call was let through as the probe of the current opening, and the circuit has not heard of it. -/
def OpenProbe (w : GatewayWorld) (c : Call) : Prop :=
  c.probe = some (w.gateway.openings c.symbol) ∧ w.gateway.circuitOpenUntil c.symbol ≠ none ∧
    w.gateway.halfOpenProbeUsed c.symbol = true

structure ProbeLive (w : GatewayWorld) : Prop where
  /-- a circuit past its period whose probe is taken has a request under way that will resolve it -/
  live : ∀ symbol until', w.gateway.circuitOpenUntil symbol = some until' → until' ≤ w.mono →
    w.gateway.halfOpenProbeUsed symbol = true →
    ∃ c ∈ w.calls, c.symbol = symbol ∧ c.probe = some (w.gateway.openings symbol) ∧ c.InProgress
  /-- each opening of a circuit admits at most one -/
  single : ∀ (i j : ℕ) (c d : Call) (n : ℕ), w.calls[i]? = some c → w.calls[j]? = some d → c.symbol = d.symbol →
    c.probe = some n → d.probe = some n → i = j

/-- The current probe of a circuit does not give up. -/
def KeepsProbe (w : GatewayWorld) : GatewayEvent → Prop
  | .on t e => ∀ c, w.calls[t]? = some c → w.OpenProbe c → ¬ c.GivesUp e
  | _ => True

/-! ## What the functions do to the circuits -/

/-- Nothing changes in the circuits. -/
structure SameCircuits (g g' : RestGateway) : Prop where
  consecutive : g'.consecutive429 = g.consecutive429
  openUntil : g'.circuitOpenUntil = g.circuitOpenUntil
  used : g'.halfOpenProbeUsed = g.halfOpenProbeUsed
  openings : g'.openings = g.openings

theorem SameCircuits.refl (g : RestGateway) : SameCircuits g g := ⟨rfl, rfl, rfl, rfl⟩

theorem SameCircuits.trans {g g' g'' : RestGateway} (h : SameCircuits g g') (h' : SameCircuits g' g'') :
    SameCircuits g g'' :=
  ⟨h'.consecutive.trans h.consecutive, h'.openUntil.trans h.openUntil, h'.used.trans h.used,
    h'.openings.trans h.openings⟩

theorem giveBack_circuits (ks : List Sem) (g : RestGateway) : SameCircuits g (g.giveBack ks) := by
  induction ks generalizing g with
  | nil => exact SameCircuits.refl g
  | cons k ks ih =>
    have hone : SameCircuits g { g with sems := Function.update g.sems k (g.sems k).release } := ⟨rfl, rfl, rfl, rfl⟩
    exact hone.trans (ih _)

theorem permits_circuits (ks : List Sem) (sems : Sem → Semaphore ℕ) (g : RestGateway) :
    SameCircuits g (giveBack ks { g with sems := sems }) := by
  have hone : SameCircuits g { g with sems := sems } := ⟨rfl, rfl, rfl, rfl⟩
  exact hone.trans (giveBack_circuits ks _)

section Circuits
variable {cfg : RestGatewayConfig} {mono : ℚ} {t : ℕ} {c : Call} {g g' : RestGateway} {e : CallEvent} {phase : Phase}

/-- A resumption leaves the circuits alone, or reports an answer of the exchange; when it ends a call that
asked the circuit without a report, that call gives up. -/
theorem Moved.circuits (h : Moved cfg mono t c g e phase g') :
    (SameCircuits g g' ∧ ((∃ how, phase = .ended how) → c.GivesUp e ∨ c.Direct) ∧
        ({ c with phase := phase }.Direct → c.Direct)) ∨
      (SameCircuits (g.recordSuccess c.symbol) g' ∧ ∃ how, phase = .ended how) ∨
        (SameCircuits (g.record429 cfg mono c.symbol) g' ∧ ({ c with phase := phase }.Direct → c.Direct)) := by
  have hended : ∀ how, ¬ { c with phase := .ended how }.Direct := by
    rintro how ⟨n, hn | hn | hn⟩ <;> cases hn
  cases h with
  | resumed hphase hgranted htakes =>
    refine Or.inl ⟨⟨rfl, rfl, rfl, rfl⟩, ?_, ?_⟩
    · rintro ⟨how, hhow⟩
      unfold waiting at hhow
      split at hhow <;> cases hhow
    · rintro ⟨n, hn⟩
      unfold waiting at hn
      split at hn <;> rcases hn with hn | hn | hn <;> cases hn
  | timedOut hphase =>
    refine Or.inl ⟨permits_circuits _ _ _, fun _ => Or.inl ?_,
      fun hd => absurd hd (hended _)⟩
    simp [Call.GivesUp, hphase]
  | cancelledWaiting hphase =>
    refine Or.inl ⟨⟨rfl, rfl, rfl, rfl⟩, fun _ => Or.inl ?_, fun hd => absurd hd (hended _)⟩
    simp [Call.GivesUp, hphase]
  | cancelledToken hphase =>
    refine Or.inl ⟨SameCircuits.refl g, fun _ => Or.inl ?_, fun hd => absurd hd (hended _)⟩
    simp [Call.GivesUp, hphase]
  | cancelledDirect hphase =>
    exact Or.inl ⟨SameCircuits.refl g, fun _ => Or.inr hphase, fun hd => absurd hd (hended _)⟩
  | cancelledExchange hphase | raised hphase | refused hphase | released hphase =>
    refine Or.inl ⟨giveBack_circuits _ _, fun _ => Or.inl ?_, fun hd => absurd hd (hended _)⟩
    simp [Call.GivesUp, hphase]
  | admitted hphase =>
    refine Or.inl ⟨SameCircuits.refl g, ?_, ?_⟩
    · rintro ⟨how, hhow⟩
      split at hhow <;> cases hhow
    · rintro ⟨n, hn⟩
      split at hn <;> rcases hn with hn | hn | hn <;> cases hn
  | directToken hphase => exact Or.inl ⟨SameCircuits.refl g, fun _ => Or.inr ⟨_, Or.inl hphase⟩, fun _ => ⟨_, Or.inl hphase⟩⟩
  | posted hphase => exact Or.inr (Or.inl ⟨giveBack_circuits _ _, _, rfl⟩)
  | rateLimited hphase => exact Or.inr (Or.inr ⟨giveBack_circuits _ _, fun hd => absurd hd (hended _)⟩)
  | directPosted hphase => exact Or.inr (Or.inl ⟨SameCircuits.refl _, _, rfl⟩)
  | directRateLimited hphase =>
    exact Or.inr (Or.inr ⟨SameCircuits.refl _, fun _ => ⟨_, Or.inr (Or.inl hphase)⟩⟩)
  | directRaised hphase =>
    exact Or.inl ⟨SameCircuits.refl g, fun _ => Or.inr ⟨_, Or.inr (Or.inl hphase)⟩, fun _ => ⟨_, Or.inr (Or.inl hphase)⟩⟩
  | slept hphase =>
    exact Or.inl ⟨SameCircuits.refl g, fun _ => Or.inr ⟨_, Or.inr (Or.inr hphase)⟩, fun _ => ⟨_, Or.inr (Or.inr hphase)⟩⟩

variable (cfg mono t g) in
/-- A call that gives up does so whatever the state, and tells the circuits nothing. -/
theorem move_of_givesUp (hform : c.Formed) (h : c.GivesUp e) :
    ∃ how g', move cfg mono t c g e = some (.ended how, g') ∧ SameCircuits g g' := by
  unfold Call.GivesUp at h
  split at h
  · rename_i taken rest hphase
    cases rest with
    | nil => exact absurd rfl (hform _ _ hphase).2
    | cons k rest =>
      simp only [move, hphase]
      exact ⟨_, _, rfl, permits_circuits _ _ _⟩
  · rename_i taken rest hphase
    cases rest with
    | nil => exact absurd rfl (hform _ _ hphase).2
    | cons k rest =>
      simp only [move, hphase]
      exact ⟨_, _, rfl, ⟨rfl, rfl, rfl, rfl⟩⟩
  · rename_i hphase
    simp only [move, hphase]
    exact ⟨_, _, rfl, SameCircuits.refl g⟩
  · rename_i hphase
    simp only [move, hphase]
    exact ⟨_, _, rfl, giveBack_circuits _ _⟩
  · rename_i hphase
    simp only [move, hphase]
    exact ⟨_, _, rfl, giveBack_circuits _ _⟩
  · rename_i hphase
    simp only [move, hphase]
    exact ⟨_, _, rfl, giveBack_circuits _ _⟩
  · rename_i hphase
    simp only [move, hphase]
    exact ⟨_, _, rfl, giveBack_circuits _ _⟩
  · cases h

theorem isCircuitOpen_cases {symbol : String} {isOpen : Bool} (h : isCircuitOpen cfg mono symbol g = (isOpen, g')) :
    g' = g ∨ (isOpen = false ∧ g' = g.recordSuccess symbol) ∨
      (isOpen = false ∧ g.halfOpenProbeUsed symbol = false ∧
        (∃ until', g.circuitOpenUntil symbol = some until' ∧ until' ≤ mono) ∧
        g' = { g with halfOpenProbeUsed := Function.update g.halfOpenProbeUsed symbol true }) := by
  unfold isCircuitOpen at h
  split at h
  · cases h
    exact Or.inl rfl
  · rename_i until' huntil
    split at h
    swap
    · cases h
      exact Or.inl rfl
    rename_i hpast
    split at h
    · cases h
      exact Or.inr (Or.inl ⟨rfl, rfl⟩)
    split at h
    · rename_i hused
      cases h
      exact Or.inr (Or.inr ⟨rfl, hused, ⟨until', huntil, hpast⟩, rfl⟩)
    · cases h
      exact Or.inl rfl

/-- `acquire` returns at once, or lets the request through: as no probe, or as the probe that it took. -/
theorem acquire_cases {ip symbol : String} {isEmergency : Bool} {probe : Option ℕ}
    (h : acquire cfg mono t ip symbol isEmergency g = (phase, probe, g')) :
    ((∃ how, phase = .ended how) ∧ probe = none ∧ SameCircuits g g') ∨
      ((∃ taken rest, phase = waiting taken rest) ∧
        ((probe = none ∧ (SameCircuits g g' ∨ SameCircuits (g.recordSuccess symbol) g')) ∨
          (probe = some (g.openings symbol) ∧ ∃ until', g.circuitOpenUntil symbol = some until' ∧ until' ≤ mono ∧
            g.halfOpenProbeUsed symbol = false ∧
            SameCircuits { g with halfOpenProbeUsed := Function.update g.halfOpenProbeUsed symbol true } g'))) := by
  unfold acquire at h
  split at h
  · cases h
    exact Or.inl ⟨⟨_, rfl⟩, rfl, SameCircuits.refl g⟩
  split at h <;> rename_i g₁ hopen
  · cases h
    rcases isCircuitOpen_cases hopen with rfl | ⟨hfalse, -⟩ | ⟨hfalse, -⟩
    · exact Or.inl ⟨⟨_, rfl⟩, rfl, SameCircuits.refl _⟩
    · cases hfalse
    · cases hfalse
  · cases h
    refine Or.inr ⟨⟨_, _, rfl⟩, ?_⟩
    rcases isCircuitOpen_cases hopen with rfl | ⟨-, rfl⟩ | ⟨-, hused, ⟨until', huntil, hpast⟩, rfl⟩
    · refine Or.inl ⟨if_neg ?_, Or.inl ⟨rfl, rfl, rfl, rfl⟩⟩
      rintro ⟨hfalse, htrue⟩
      rw [hfalse] at htrue
      cases htrue
    · refine Or.inl ⟨if_neg ?_, Or.inr ⟨rfl, rfl, rfl, rfl⟩⟩
      rintro ⟨-, htrue⟩
      simp [recordSuccess] at htrue
    · refine Or.inr ⟨if_pos ⟨hused, Function.update_self _ _ _⟩, until', huntil, hpast, hused, rfl, rfl, rfl, rfl⟩

end Circuits

/-! ## The invariant -/

structure ProbeInv (cfg : RestGatewayConfig) (w : GatewayWorld) : Prop where
  /-- an open circuit has reached the threshold, so that the next 429 opens it again -/
  count : ∀ symbol, w.gateway.circuitOpenUntil symbol ≠ none →
    cfg.circuit429Threshold ≤ w.gateway.consecutive429 symbol
  /-- a probe is taken only past the period -/
  past : ∀ symbol until', w.gateway.circuitOpenUntil symbol = some until' →
    w.gateway.halfOpenProbeUsed symbol = true → until' ≤ w.mono
  live : ∀ symbol, w.gateway.circuitOpenUntil symbol ≠ none → w.gateway.halfOpenProbeUsed symbol = true →
    ∃ (i : ℕ) (c : Call), w.calls[i]? = some c ∧ c.symbol = symbol ∧
      c.probe = some (w.gateway.openings symbol) ∧ c.InProgress
  /-- no probe is ahead of the openings, and the probe of the current one took the flag or was resolved -/
  stamp : ∀ c ∈ w.calls, ∀ n, c.probe = some n → n ≤ w.gateway.openings c.symbol ∧
    (n = w.gateway.openings c.symbol → w.gateway.circuitOpenUntil c.symbol = none ∨
      w.gateway.halfOpenProbeUsed c.symbol = true)
  direct : ∀ c ∈ w.calls, c.Direct → c.probe = none
  single : ∀ (i j : ℕ) (c d : Call) (n : ℕ), w.calls[i]? = some c → w.calls[j]? = some d → c.symbol = d.symbol →
    c.probe = some n → d.probe = some n → i = j

namespace ProbeInv
variable {cfg : RestGatewayConfig} {w : GatewayWorld} {g : RestGateway}

theorem probeLive (h : ProbeInv cfg w) : ProbeLive w where
  live := by
    intro symbol until' huntil _ hused
    obtain ⟨i, c, hc, hsymbol, hprobe, hprogress⟩ := h.live symbol (by rw [huntil]; nofun) hused
    exact ⟨c, List.mem_of_getElem? hc, hsymbol, hprobe, hprogress⟩
  single := h.single

theorem fresh : ProbeInv cfg (fresh cfg) where
  count := fun _ h => absurd rfl h
  past := by rintro _ _ ⟨⟩
  live := fun _ h => absurd rfl h
  stamp := by intro c hc; cases hc
  direct := by intro c hc; cases hc
  single := by intro i j c d n hc; simp [GatewayWorld.fresh] at hc

theorem circuits (h : ProbeInv cfg w) (hg : SameCircuits w.gateway g) : ProbeInv cfg { w with gateway := g } := by
  obtain ⟨hcount, huntil, hused, hopenings⟩ := hg
  refine ⟨?_, ?_, ?_, ?_, h.direct, h.single⟩ <;> simp only [hcount, huntil, hused, hopenings]
  · exact h.count
  · exact h.past
  · exact h.live
  · exact h.stamp

theorem success (h : ProbeInv cfg w) (symbol : String) :
    ProbeInv cfg { w with gateway := w.gateway.recordSuccess symbol } := by
  have hother : ∀ s, (w.gateway.recordSuccess symbol).circuitOpenUntil s ≠ none → s ≠ symbol := by
    rintro s hs rfl
    exact hs (Function.update_self s _ _)
  refine ⟨fun s hs => ?_, fun s u hs hused => ?_, fun s hs hused => ?_, fun c hc n hn => ?_, h.direct, h.single⟩
  · have hne := hother s hs
    simp only [recordSuccess, Function.update_of_ne hne] at hs ⊢
    exact h.count s hs
  · have hne := hother s (by rw [hs]; exact Option.some_ne_none u)
    simp only [recordSuccess, Function.update_of_ne hne] at hs hused
    exact h.past s u hs hused
  · have hne := hother s hs
    simp only [recordSuccess, Function.update_of_ne hne] at hs hused
    exact h.live s hs hused
  · obtain ⟨hle, hcur⟩ := h.stamp c hc n hn
    refine ⟨hle, fun heq => ?_⟩
    by_cases hs : c.symbol = symbol
    · exact Or.inl (by rw [hs]; exact Function.update_self _ _ _)
    · simp only [recordSuccess, Function.update_of_ne hs]
      exact hcur heq

theorem limited (h : ProbeInv cfg w) (symbol : String) :
    ProbeInv cfg { w with gateway := w.gateway.record429 cfg w.mono symbol } := by
  unfold record429
  simp only
  split
  · rename_i hthreshold
    refine ⟨fun s hs => ?_, fun s u hs hused => ?_, fun s hs hused => ?_, fun c hc n hn => ?_, h.direct, h.single⟩
    · by_cases hne : s = symbol
      · subst hne
        simpa using hthreshold
      · simp only [Function.update_of_ne hne] at hs ⊢
        exact h.count s hs
    · by_cases hne : s = symbol
      · subst hne
        simp at hused
      · simp only [Function.update_of_ne hne] at hs hused
        exact h.past s u hs hused
    · by_cases hne : s = symbol
      · subst hne
        simp at hused
      · simp only [Function.update_of_ne hne] at hs hused ⊢
        exact h.live s hs hused
    · obtain ⟨hle, hcur⟩ := h.stamp c hc n hn
      by_cases hne : c.symbol = symbol
      · simp only [hne, Function.update_self] at hle ⊢
        omega
      · simp only [Function.update_of_ne hne]
        exact ⟨hle, hcur⟩
  · rename_i hthreshold
    refine ⟨fun s hs => ?_, h.past, h.live, h.stamp, h.direct, h.single⟩
    by_cases hne : s = symbol
    · subst hne
      have := h.count s hs
      simp only [Function.update_self]
      push_cast at hthreshold ⊢
      omega
    · simp only [Function.update_of_ne hne]
      exact h.count s hs

/-- A call goes on, or ends without being the probe that its circuit waits for. -/
theorem setPhase (h : ProbeInv cfg w) {t : ℕ} {c : Call} {phase : Phase} (hc : w.calls[t]? = some c)
    (hdirect : { c with phase := phase }.Direct → c.probe = none)
    (hended : (∃ how, phase = .ended how) → ¬ w.OpenProbe c) :
    ProbeInv cfg { w with calls := w.calls.set t { c with phase := phase } } := by
  have hset := Slots.getElem?_set hc { c with phase := phase }
  have hat : ∀ (i : ℕ) (d : Call), (w.calls.set t { c with phase := phase })[i]? = some d →
      ∃ d' : Call, w.calls[i]? = some d' ∧ d.symbol = d'.symbol ∧ d.probe = d'.probe := by
    intro i d hd
    rw [hset] at hd
    split at hd
    · rename_i hi
      cases hd
      exact ⟨c, hi ▸ hc, rfl, rfl⟩
    · exact ⟨d, hd, rfl, rfl⟩
  have hmem : ∀ d ∈ w.calls.set t { c with phase := phase }, d = { c with phase := phase } ∨ d ∈ w.calls := fun d hd =>
    (List.mem_or_eq_of_mem_set hd).symm
  have hcmem : c ∈ w.calls := List.mem_of_getElem? hc
  refine ⟨h.count, h.past, fun s hs hused => ?_, fun d hd n hn => ?_, fun d hd hdir => ?_, ?_⟩
  · obtain ⟨i, d, hd, hsymbol, hprobe, hprogress⟩ := h.live s hs hused
    by_cases hi : i = t
    · subst hi
      have hdc : d = c := Option.some.inj (hd.symm.trans hc)
      subst hdc
      refine ⟨i, { d with phase := phase }, (hset i).trans (if_pos rfl), hsymbol, hprobe, fun how hhow => ?_⟩
      refine hended ⟨how, hhow⟩ ⟨?_, ?_, ?_⟩ <;> rw [hsymbol] <;> assumption
    · exact ⟨i, d, (hset i).trans ((if_neg hi).trans hd), hsymbol, hprobe, hprogress⟩
  · rcases hmem d hd with rfl | hold
    · exact h.stamp c hcmem n hn
    · exact h.stamp d hold n hn
  · rcases hmem d hd with rfl | hold
    · exact hdirect hdir
    · exact h.direct d hold hdir
  · intro i j a b n ha hb hsymbol hpa hpb
    obtain ⟨a', ha', hsa, hpa'⟩ := hat i a ha
    obtain ⟨b', hb', hsb, hpb'⟩ := hat j b hb
    exact h.single i j a' b' n ha' hb' (by rw [← hsa, ← hsb, hsymbol]) (hpa'.symm.trans hpa) (hpb'.symm.trans hpb)

theorem single_append (h : ProbeInv cfg w) {c : Call}
    (hfirst : ∀ n, c.probe = some n → ∀ d ∈ w.calls, d.symbol = c.symbol → d.probe ≠ some n) :
    ∀ (i j : ℕ) (a b : Call) (n : ℕ), (w.calls ++ [c])[i]? = some a → (w.calls ++ [c])[j]? = some b →
      a.symbol = b.symbol → a.probe = some n → b.probe = some n → i = j := by
  intro i j a b n ha hb hsymbol hpa hpb
  have hat : ∀ (k : ℕ) (d : Call), (w.calls ++ [c])[k]? = some d →
      w.calls[k]? = some d ∨ (k = w.calls.length ∧ d = c) := fun k d => Slots.getElem?_concat.mp
  rcases hat i a ha with hold | ⟨rfl, rfl⟩ <;> rcases hat j b hb with hold' | ⟨rfl, rfl⟩
  · exact h.single i j a b n hold hold' hsymbol hpa hpb
  · exact absurd hpa (hfirst n hpb a (List.mem_of_getElem? hold) hsymbol)
  · exact absurd hpb (hfirst n hpa b (List.mem_of_getElem? hold') hsymbol.symm)
  · rfl

/-- A new call is no probe, or the first of its opening. -/
theorem append (h : ProbeInv cfg w) {c : Call} (hdirect : c.Direct → c.probe = none)
    (hprobe : ∀ n, c.probe = some n → n = w.gateway.openings c.symbol ∧ w.gateway.halfOpenProbeUsed c.symbol = true ∧
      ∀ d ∈ w.calls, d.symbol = c.symbol → d.probe ≠ some n) :
    ProbeInv cfg { w with calls := w.calls ++ [c] } := by
  have hmem : ∀ d ∈ w.calls ++ [c], d ∈ w.calls ∨ d = c := fun d hd =>
    (List.mem_append.mp hd).imp id fun hd => List.mem_singleton.mp hd
  refine ⟨h.count, h.past, fun s hs hused => ?_, fun d hd n hn => ?_, fun d hd hdir => ?_, ?_⟩
  · obtain ⟨i, d, hd, hrest⟩ := h.live s hs hused
    exact ⟨i, d, Slots.getElem?_append hd _, hrest⟩
  · rcases hmem d hd with hold | rfl
    · exact h.stamp d hold n hn
    · obtain ⟨heq, hused, -⟩ := hprobe n hn
      exact ⟨heq.le, fun _ => Or.inr hused⟩
  · rcases hmem d hd with hold | rfl
    · exact h.direct d hold hdir
    · exact hdirect hdir
  · exact single_append h fun n hn => (hprobe n hn).2.2

/-- The probe is taken by the call that enters. -/
theorem take (h : ProbeInv cfg w) {c : Call} {until' : ℚ} (hdirect : ¬ c.Direct) (hprogress : c.InProgress)
    (huntil : w.gateway.circuitOpenUntil c.symbol = some until') (hpast : until' ≤ w.mono)
    (hused : w.gateway.halfOpenProbeUsed c.symbol = false) (hprobe : c.probe = some (w.gateway.openings c.symbol)) :
    ProbeInv cfg { w with
      gateway := { w.gateway with
        halfOpenProbeUsed := Function.update w.gateway.halfOpenProbeUsed c.symbol true }
      calls := w.calls ++ [c] } := by
  have hbehind : ∀ d ∈ w.calls, d.symbol = c.symbol → ∀ n, d.probe = some n → n < w.gateway.openings c.symbol := by
    intro d hd hsymbol n hn
    obtain ⟨hle, hcur⟩ := h.stamp d hd n hn
    rw [hsymbol] at hle hcur
    rcases Nat.lt_or_eq_of_le hle with hlt | heq
    · exact hlt
    · rcases hcur heq with hnone | hflag
      · rw [huntil] at hnone
        cases hnone
      · rw [hused] at hflag
        cases hflag
  refine ⟨h.count, fun s u hs hflag => ?_, fun s hs hflag => ?_, fun d hd n hn => ?_, fun d hd hdir => ?_, ?_⟩
  · by_cases hne : s = c.symbol
    · subst hne
      rw [huntil] at hs
      cases hs
      exact hpast
    · simp only [Function.update_of_ne hne] at hflag
      exact h.past s u hs hflag
  · by_cases hne : s = c.symbol
    · subst hne
      exact ⟨w.calls.length, c, List.getElem?_concat_length, rfl, hprobe, hprogress⟩
    · simp only [Function.update_of_ne hne] at hflag
      obtain ⟨i, d, hd, hrest⟩ := h.live s hs hflag
      exact ⟨i, d, Slots.getElem?_append hd _, hrest⟩
  · rcases List.mem_append.mp hd with hold | hnew
    · obtain ⟨hle, hcur⟩ := h.stamp d hold n hn
      refine ⟨hle, fun heq => ?_⟩
      by_cases hne : d.symbol = c.symbol
      · exact Or.inr (by simp only [hne, Function.update_self])
      · simp only [Function.update_of_ne hne]
        exact hcur heq
    · rw [List.mem_singleton.mp hnew] at hn ⊢
      rw [hprobe] at hn
      cases hn
      exact ⟨le_refl _, fun _ => Or.inr (by simp only [Function.update_self])⟩
  · rcases List.mem_append.mp hd with hold | hnew
    · exact h.direct d hold hdir
    · rw [List.mem_singleton.mp hnew] at hdir
      exact absurd hdir hdirect
  · refine single_append h fun n hn d hd hsymbol hdn => ?_
    rw [hprobe] at hn
    cases hn
    exact absurd (hbehind d hd hsymbol _ hdn) (lt_irrefl _)

theorem enter (h : ProbeInv cfg w) (ip symbol : String) (isEmergency : Bool) (order : Option Bool)
    (queued : Option ℕ) (hg : SameCircuits w.gateway g) :
    ProbeInv cfg (w.enter cfg ip symbol isEmergency order queued g) := by
  have hw := h.circuits hg
  unfold GatewayWorld.enter
  split
  rename_i phase probe g' hacq
  rcases acquire_cases hacq with ⟨⟨how, rfl⟩, rfl, hsame⟩ | ⟨⟨taken, rest, rfl⟩, hprobe⟩
  · refine (hw.circuits hsame).append ?_ (by rintro n ⟨⟩)
    rintro ⟨n, hn⟩
    rcases hn with hn | hn | hn <;> cases hn
  · have hnot : ∀ c : Call, c.phase = waiting taken rest → ¬ c.Direct ∧ c.InProgress := by
      intro c hc
      unfold waiting at hc
      constructor
      · rintro ⟨n, hn⟩
        split at hc <;> rcases hn with hn | hn | hn <;> rw [hc] at hn <;> cases hn
      · intro how hhow
        split at hc <;> rw [hc] at hhow <;> cases hhow
    rcases hprobe with ⟨rfl, hsame | hclosed⟩ | ⟨rfl, until', huntil, hpast, hused, htaken⟩
    · exact (hw.circuits hsame).append (fun hd => absurd hd (hnot _ rfl).1) (by rintro n ⟨⟩)
    · exact ((hw.success symbol).circuits hclosed).append (fun hd => absurd hd (hnot _ rfl).1) (by rintro n ⟨⟩)
    · exact (hw.take (hnot _ rfl).1 (hnot ⟨ip, symbol, isEmergency, order, _, queued, _⟩ rfl).2 huntil hpast hused
        rfl).circuits htaken

/-- After a 429 the probe of the symbol is resolved: its circuit opened again, or was not open. -/
theorem limited_resolves (h : ProbeInv cfg w) (c : Call) :
    ¬ ({ w with gateway := w.gateway.record429 cfg w.mono c.symbol } : GatewayWorld).OpenProbe c := by
  rintro ⟨-, hopen, hused⟩
  unfold record429 at hopen hused
  simp only at hopen hused
  split at hused <;> rename_i hthreshold
  · simp at hused
  · rw [if_neg hthreshold] at hopen
    have := h.count c.symbol hopen
    push_cast at hthreshold
    omega

theorem moved (h : ProbeInv cfg w) {t : ℕ} {c : Call} {e : CallEvent} {phase : Phase} (hc : w.calls[t]? = some c)
    (hok : w.OpenProbe c → ¬ c.GivesUp e) (hmoved : Moved cfg w.mono t c w.gateway e phase g) :
    ProbeInv cfg { w with gateway := g, calls := w.calls.set t { c with phase := phase } } := by
  have hdirect : c.Direct → c.probe = none := h.direct c (List.mem_of_getElem? hc)
  rcases hmoved.circuits with ⟨hsame, hends, hdir⟩ | ⟨hsame, how, rfl⟩ | ⟨hsame, hdir⟩
  · have hopen : ({ w with gateway := g } : GatewayWorld).OpenProbe c → w.OpenProbe c := by
      unfold OpenProbe
      simp only [hsame.openUntil, hsame.used, hsame.openings]
      exact id
    refine (h.circuits hsame).setPhase hc (fun hd => hdirect (hdir hd)) fun hended hprobe => ?_
    rcases hends hended with hgives | hd
    · exact hok (hopen hprobe) hgives
    · have hnone := hdirect hd
      rw [hprobe.1] at hnone
      cases hnone
  · refine ((h.success c.symbol).circuits hsame).setPhase hc ?_ fun _ hprobe => ?_
    · rintro ⟨n, hn⟩
      rcases hn with hn | hn | hn <;> cases hn
    · apply hprobe.2.1
      show g.circuitOpenUntil c.symbol = none
      rw [hsame.openUntil]
      exact Function.update_self _ _ _
  · refine ((h.limited c.symbol).circuits hsame).setPhase hc (fun hd => hdirect (hdir hd)) fun _ hprobe => ?_
    apply h.limited_resolves c
    unfold OpenProbe at hprobe ⊢
    simpa only [hsame.openUntil, hsame.used, hsame.openings] using hprobe

theorem step (h : ProbeInv cfg w) {e : GatewayEvent} (hok : KeepsProbe w e) : ProbeInv cfg (step cfg w e) := by
  cases e with
  | acquire ip symbol isEmergency => exact h.enter ip symbol isEmergency none none (SameCircuits.refl _)
  | postMarketOrder order priority time =>
    simp only [GatewayWorld.step]
    split
    · exact h.enter _ _ _ _ _ ⟨rfl, rfl, rfl, rfl⟩
    · exact h.append (fun _ => rfl) (by rintro n ⟨⟩)
    · exact h.append (fun _ => rfl) (by rintro n ⟨⟩)
  | on t e =>
    simp only [GatewayWorld.step]
    cases hc : w.calls[t]? with
    | none => exact h
    | some c =>
      simp only
      cases hmove : move cfg w.mono t c w.gateway e with
      | none => exact h
      | some moved => exact h.moved hc (hok c hc) (move_cases hmove)
  | record429 symbol => exact h.limited symbol
  | recordSuccess symbol => exact h.success symbol
  | setCriticalBypass val => exact h.circuits ⟨rfl, rfl, rfl, rfl⟩
  | tick mono =>
    refine ⟨h.count, fun s u hs hused => ?_, h.live, h.stamp, h.direct, h.single⟩
    exact (h.past s u hs hused).trans (le_max_left _ _)

/-- A probe that gives up leaves its circuit with nobody who could resolve it. -/
theorem stranded (h : ProbeInv cfg w) {t : ℕ} {c : Call} {e : CallEvent} (hform : c.Formed)
    (hc : w.calls[t]? = some c) (hprobe : w.OpenProbe c) (hgives : c.GivesUp e) :
    ¬ ProbeLive (GatewayWorld.step cfg w (.on t e)) := by
  obtain ⟨how, g', hmove, hsame⟩ := move_of_givesUp cfg w.mono t w.gateway hform hgives
  obtain ⟨hcur, hopen, hused⟩ := hprobe
  obtain ⟨until', huntil⟩ := Option.ne_none_iff_exists'.mp hopen
  have hlt : t < w.calls.length := (List.getElem?_eq_some_iff.mp hc).choose
  intro hlive
  simp only [GatewayWorld.step, hc, hmove] at hlive
  obtain ⟨d, hd, hsymbol, hdprobe, hprogress⟩ := hlive.live c.symbol until' (by rw [hsame.openUntil]; exact huntil)
    (h.past c.symbol until' huntil hused) (by rw [hsame.used]; exact hused)
  obtain ⟨i, hi⟩ := List.mem_iff_getElem?.mp hd
  simp only [hsame.openings] at hdprobe
  by_cases hit : t = i
  · subst hit
    rw [List.getElem?_set_self hlt] at hi
    cases hi
    exact hprogress how rfl
  · rw [List.getElem?_set_ne hit] at hi
    exact hit (h.single t i c d _ hc hi hsymbol.symm hcur hdprobe)

end ProbeInv

/-- **The probe stays live** in exactly the runs in which no request that is the current probe of its circuit
times out, is cancelled, gets no token, fails without an answer, or is released without a report. -/
theorem probeLive_iff (cfg : RestGatewayConfig) (events : List GatewayEvent) :
    Runs.Always ProbeLive (step cfg) (fresh cfg) events ↔ Runs.Guarded KeepsProbe (step cfg) (fresh cfg) events := by
  have hform : (fresh cfg).Formed := by
    intro c hc
    cases hc
  have hfresh : ProbeInv cfg (fresh cfg) := ProbeInv.fresh
  rw [Runs.always_iff_guarded hfresh.probeLive]
  refine Runs.guarded_iff_guarded (I := fun w => w.Formed ∧ ProbeInv cfg w) ⟨hform, hfresh⟩ ?_ ?_
  · rintro w e - ⟨hf, hinv⟩ hok
    have hnext := hinv.step hok
    exact ⟨⟨(step_total cfg hf e).1, hnext⟩, hnext.probeLive⟩
  · rintro w e - ⟨hf, hinv⟩ hok hlive
    cases e with
    | on t e =>
      simp only [KeepsProbe, not_forall, not_not] at hok
      obtain ⟨c, hc, hprobe, hgives⟩ := hok
      exact hinv.stranded (hf c (List.mem_of_getElem? hc)) hc hprobe hgives hlive
    | _ => exact hok trivial

/-- Three orders are answered with 429. A minute later the next order is let through as the probe, and the
exchange call raises: every later order of the symbol is refused. -/
def probeRaises : List GatewayEvent :=
  let order : Order := ⟨some "BTCUSDT", some true⟩
  [.postMarketOrder order 1 0, .on 0 (.token true), .on 0 (.exchange .rateLimited),
    .postMarketOrder order 1 0, .on 1 (.token true), .on 1 (.exchange .rateLimited),
    .postMarketOrder order 1 0, .on 2 (.token true), .on 2 (.exchange .rateLimited), .tick 61,
    .postMarketOrder order 1 61, .on 3 (.token true), .on 3 (.exchange .raises)]

theorem not_probeLive_probeRaises : ¬ Runs.Always ProbeLive (step {}) (fresh {}) probeRaises := by
  intro h
  let w := Runs.run (step {}) (fresh {}) probeRaises
  have hstuck : w.gateway.circuitOpenUntil "BTCUSDT" = some 60 ∧ w.gateway.halfOpenProbeUsed "BTCUSDT" = true ∧
      (60 : ℚ) ≤ w.mono ∧ ∀ c ∈ w.calls, ¬ c.InProgress := by
    decide +kernel
  obtain ⟨huntil, hused, hpast, hidle⟩ := hstuck
  obtain ⟨c, hc, -, -, hprogress⟩ := h.last.live "BTCUSDT" 60 huntil hpast hused
  exact hidle c hc hprogress

end GatewayWorld

end MikoV2.Execution
