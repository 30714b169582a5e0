import Mathlib.Data.Int.Order.Basic
import MikoV2.DataLayer.Seq
import MikoV2.Lib.Runs

/-!
# Runs of the validator

Calls on any symbols wait for their locks and then run without a break. Which lock a call waits for, and whether a
`reset` has meanwhile deleted it, is left open: the waiting calls run in any order.

* `body`, `SeqWorld.step` : a call, and the steps of the waiting calls;
* `segmentOf` : the last re-basing of a symbol, and what was accepted since;
* `Gapless` : the accepted updates increase and leave no number out; `StepSound` : what one call may do;
* `sequence_sound` : both hold in every run.
-/

namespace MikoV2.DataLayer

inductive SeqCall
  | validate (symbol : String) (epoch : ℕ) (firstU finalU : ℤ)
  | setEpoch (symbol : String) (epoch : ℕ)
  | setLastU (symbol : String) (lastU : ℤ)
  | reset (symbol : String)

def SeqCall.symbol : SeqCall → String
  | .validate symbol _ _ _ => symbol
  | .setEpoch symbol _ => symbol
  | .setLastU symbol _ => symbol
  | .reset symbol => symbol

/-- `reset`, on the states. -/
def reset (states : SeqStates) (symbol : String) : SeqStates := Function.update states symbol none

/-- What a call does under its lock. -/
def body (mode : SeqMode) (states : SeqStates) : SeqCall → Option SeqResult × SeqStates
  | .validate symbol epoch firstU finalU =>
    let r := validate mode states symbol epoch firstU finalU
    (some r.1, r.2)
  | .setEpoch symbol epoch => (none, setEpoch states symbol epoch)
  | .setLastU symbol lastU => (none, setLastU states symbol lastU)
  | .reset symbol => (none, reset states symbol)

/-- A call that has run: with its result, and the state that it leaves of its symbol. -/
structure SeqEntry where
  call : SeqCall
  result : Option SeqResult
  after : Option SeqState

structure SeqWorld where
  states : SeqStates
  waiting : List SeqCall
  log : List SeqEntry

inductive SeqEvent
  | arrive (call : SeqCall)
  /-- the waiting call at the place `i` gets its lock -/
  | enter (i : ℕ)

namespace SeqWorld

def start (states : SeqStates) : SeqWorld := ⟨states, [], []⟩

def step (mode : SeqMode) (w : SeqWorld) : SeqEvent → SeqWorld
  | .arrive call => { w with waiting := w.waiting ++ [call] }
  | .enter i => match w.waiting[i]? with
    | none => w
    | some call =>
      let r := body mode w.states call
      ⟨r.2, w.waiting.eraseIdx i, w.log ++ [⟨call, r.1, r.2 call.symbol⟩]⟩

end SeqWorld

/-! ## What was accepted -/

structure SeqUpdate where
  epoch : ℕ
  firstU : ℤ
  finalU : ℤ

/-- The number by which the mode orders the update. -/
def SeqUpdate.seq (mode : SeqMode) (m : SeqUpdate) : ℤ := finalSeq mode m.firstU m.finalU

def SeqEntry.accepted (e : SeqEntry) : Bool := e.result.any SeqResult.isValid

/-- The state that the last re-basing has left, and the updates accepted since. -/
structure Segment where
  base : Option SeqState
  accepted : List SeqUpdate

/-- `set_epoch`, `set_last_u` and `reset` begin a new segment of their symbol. -/
def Segment.next (symbol : String) (g : Segment) (e : SeqEntry) : Segment :=
  if e.call.symbol ≠ symbol then g
  else match e.call with
    | .validate _ epoch firstU finalU =>
      if e.accepted then { g with accepted := g.accepted ++ [⟨epoch, firstU, finalU⟩] } else g
    | .setEpoch _ _ => ⟨e.after, []⟩
    | .setLastU _ _ => ⟨e.after, []⟩
    | .reset _ => ⟨e.after, []⟩

def segmentOf (states : SeqStates) (symbol : String) (log : List SeqEntry) : Segment :=
  log.foldl (Segment.next symbol) ⟨states symbol, []⟩

/-- From the base to the last number the updates increase, and in `BINANCE` mode their ranges leave no number out. -/
structure Covers (mode : SeqMode) (base : SeqState) (accepted : List SeqUpdate) (last : ℤ) : Prop where
  epoch : ∀ m ∈ accepted, m.epoch = base.epoch
  increasing : accepted.Pairwise fun earlier later => earlier.seq mode < later.seq mode
  above : ∀ m ∈ accepted, base.lastU < m.seq mode ∧ m.seq mode ≤ last
  last_eq : last = ((accepted.map (SeqUpdate.seq mode)).getLast?).getD base.lastU
  covered : mode = .BINANCE → ∀ n, base.lastU < n → n ≤ last → ∃ m ∈ accepted, m.firstU ≤ n ∧ n ≤ m.finalU

/-- The state of a symbol follows from its base and the updates accepted since. -/
def Gapless (mode : SeqMode) (g : Segment) (state : Option SeqState) : Prop :=
  match g.base with
  | none => state = none ∧ g.accepted = []
  | some base => ∃ last, state = some ⟨last, base.epoch⟩ ∧ Covers mode base g.accepted last

/-- So does that of every symbol, in a world that has started with `states`. -/
def SeqWorld.AllGapless (mode : SeqMode) (states : SeqStates) (w : SeqWorld) : Prop :=
  ∀ symbol, Gapless mode (segmentOf states symbol w.log) (w.states symbol)

/-- What a call may do to the states. -/
structure CallSound (mode : SeqMode) (states : SeqStates) (call : SeqCall) : Prop where
  other : ∀ symbol ≠ call.symbol, (body mode states call).2 symbol = states symbol
  rejected : ∀ r, (body mode states call).1 = some r → r.isValid = false → (body mode states call).2 = states
  same_epoch : ∀ symbol epoch firstU finalU, call = .validate symbol epoch firstU finalU →
    (validate mode states symbol epoch firstU finalU).1.isValid = true → (states symbol).map SeqState.epoch = some epoch

/-- The states change only by the calls that run. -/
def StepSound (mode : SeqMode) (w : SeqWorld) : SeqEvent → Prop
  | .arrive call => (w.step mode (.arrive call)).states = w.states
  | .enter i => ∀ call, w.waiting[i]? = some call → CallSound mode w.states call

section Calls
variable {mode : SeqMode} {states : SeqStates} {base : SeqState} {accepted : List SeqUpdate} {last : ℤ}

theorem Covers.nil (mode : SeqMode) (base : SeqState) : Covers mode base [] base.lastU where
  epoch := fun _ h => absurd h List.not_mem_nil
  increasing := List.Pairwise.nil
  above := fun _ h => absurd h List.not_mem_nil
  last_eq := rfl
  covered := fun _ n hlow hup => by omega

/-- A newer update that is not beyond the next number. -/
theorem Covers.accept (h : Covers mode base accepted last) {m : SeqUpdate} (hepoch : m.epoch = base.epoch)
    (hnew : last < m.seq mode) (hnext : mode = .BINANCE → m.firstU ≤ last + 1) :
    Covers mode base (accepted ++ [m]) (m.seq mode) := by
  have hlow : base.lastU ≤ last := by
    rw [h.last_eq]
    cases hmem : (accepted.map (SeqUpdate.seq mode)).getLast? with
    | none => exact le_refl _
    | some v =>
      obtain ⟨m', hm', rfl⟩ := List.mem_map.mp (List.mem_of_getLast? hmem)
      exact le_of_lt (h.above m' hm').1
  refine ⟨fun m' hm' => ?_, ?_, fun m' hm' => ?_, by simp, fun hmode n hbase hn => ?_⟩
  · rcases List.mem_append.mp hm' with hold | hown
    · exact h.epoch m' hold
    · rwa [List.mem_singleton.mp hown]
  · refine List.pairwise_append.mpr ⟨h.increasing, List.pairwise_singleton _ _, fun m' hm' m'' hm'' => ?_⟩
    rw [List.mem_singleton.mp hm'']
    exact lt_of_le_of_lt (h.above m' hm').2 hnew
  · rcases List.mem_append.mp hm' with hold | hown
    · obtain ⟨hlow', hup⟩ := h.above m' hold
      exact ⟨hlow', le_of_lt (lt_of_le_of_lt hup hnew)⟩
    · rw [List.mem_singleton.mp hown]
      exact ⟨lt_of_le_of_lt hlow hnew, le_refl _⟩
  · by_cases hold : n ≤ last
    · obtain ⟨m', hm', hrange⟩ := h.covered hmode n hbase hold
      exact ⟨m', List.mem_append_left _ hm', hrange⟩
    · -- what is beyond the old last number is in the range of the update
      have hfirst := hnext hmode
      have hfinal : m.seq mode = m.finalU := by rw [hmode]; rfl
      exact ⟨m, List.mem_append_right _ (List.mem_singleton_self m), by omega, by omega⟩

theorem gapless_rebased (mode : SeqMode) (state : Option SeqState) : Gapless mode ⟨state, []⟩ state := by
  cases state with
  | none => exact ⟨rfl, rfl⟩
  | some base => exact ⟨base.lastU, rfl, Covers.nil mode base⟩

theorem setLastU_other {symbol other : String} (h : other ≠ symbol) (lastU : ℤ) :
    setLastU states symbol lastU other = states other := by
  unfold setLastU
  cases states symbol <;> exact Function.update_of_ne h ..

/-- An update is accepted, and becomes the state of its symbol; or the states stay as they are. -/
theorem validate_cases (mode : SeqMode) (states : SeqStates) (symbol : String) (epoch : ℕ) (firstU finalU : ℤ) :
    ((validate mode states symbol epoch firstU finalU).1.isValid = true ∧
        (∃ st, states symbol = some st ∧ epoch = st.epoch) ∧
        (validate mode states symbol epoch firstU finalU).2 =
          Function.update states symbol (some ⟨finalSeq mode firstU finalU, epoch⟩)) ∨
      ((validate mode states symbol epoch firstU finalU).1.isValid = false ∧
        (validate mode states symbol epoch firstU finalU).2 = states) := by
  rcases hr : validate mode states symbol epoch firstU finalU with ⟨r, states'⟩
  obtain ⟨haccepted, -, hst, hstates⟩ | hrejected := validate_states hr
  · exact .inl ⟨haccepted, hst, hstates⟩
  · exact .inr hrejected

theorem body_sound (mode : SeqMode) (states : SeqStates) (call : SeqCall) : CallSound mode states call := by
  cases call with
  | validate symbol epoch firstU finalU =>
    have hcases := validate_cases mode states symbol epoch firstU finalU
    refine ⟨fun other hother => ?_, fun r hr hrejected => ?_, ?_⟩
    · obtain ⟨-, -, hstates⟩ | ⟨-, hstates⟩ := hcases
      · exact (congrFun hstates other).trans (Function.update_of_ne hother ..)
      · exact congrFun hstates other
    · cases hr
      obtain ⟨haccepted, -⟩ | ⟨-, hstates⟩ := hcases
      · exact absurd (hrejected.symm.trans haccepted) Bool.false_ne_true
      · exact hstates
    · rintro symbol' epoch' firstU' finalU' hcall haccepted
      cases hcall
      obtain ⟨-, ⟨st, hst, rfl⟩, -⟩ | ⟨hrejected, -⟩ := hcases
      · rw [hst]
        rfl
      · exact absurd (hrejected.symm.trans haccepted) Bool.false_ne_true
  | setEpoch symbol epoch =>
    exact ⟨fun other hother => Function.update_of_ne hother .., by rintro r ⟨⟩, by rintro _ _ _ _ ⟨⟩⟩
  | setLastU symbol lastU =>
    exact ⟨fun other hother => setLastU_other hother lastU, by rintro r ⟨⟩, by rintro _ _ _ _ ⟨⟩⟩
  | reset symbol =>
    exact ⟨fun other hother => Function.update_of_ne hother .., by rintro r ⟨⟩, by rintro _ _ _ _ ⟨⟩⟩

/-- A validated update goes on with the segment of its symbol. -/
theorem Gapless.validate {g : Segment} {symbol : String} (h : Gapless mode g (states symbol)) (epoch : ℕ)
    (firstU finalU : ℤ) :
    Gapless mode (if (validate mode states symbol epoch firstU finalU).1.isValid then
        { g with accepted := g.accepted ++ [⟨epoch, firstU, finalU⟩] } else g)
      ((validate mode states symbol epoch firstU finalU).2 symbol) := by
  obtain ⟨haccepted, ⟨st, hst, hepoch⟩, hstates⟩ | ⟨hrejected, hstates⟩ :=
    validate_cases mode states symbol epoch firstU finalU
  · rw [if_pos haccepted, hstates, Function.update_self]
    obtain ⟨-, hnew, hnext⟩ := (validate_isValid hst).mp haccepted
    unfold Gapless at h ⊢
    cases hbase : g.base with
    | none =>
      rw [hbase] at h
      exact absurd (hst.symm.trans h.1) (Option.some_ne_none st)
    | some base =>
      rw [hbase] at h
      obtain ⟨last, hlast, hcovers⟩ := h
      cases hst.symm.trans hlast
      dsimp only at hepoch hnew hnext ⊢
      exact ⟨finalSeq mode firstU finalU, by rw [hepoch], hcovers.accept hepoch hnew hnext⟩
  · rw [if_neg (by simp [hrejected]), hstates]
    exact h

/-- A call of the symbol goes on with the segment, or begins a new one. -/
theorem Gapless.body {g : Segment} {symbol : String} (h : Gapless mode g (states symbol)) (call : SeqCall) :
    Gapless mode (g.next symbol ⟨call, (body mode states call).1, (body mode states call).2 call.symbol⟩)
      ((body mode states call).2 symbol) := by
  unfold Segment.next
  by_cases hsymbol : call.symbol = symbol
  · rw [if_neg (not_not.mpr hsymbol)]
    subst hsymbol
    cases call with
    | validate symbol epoch firstU finalU => exact h.validate epoch firstU finalU
    | setEpoch symbol epoch => exact gapless_rebased mode _
    | setLastU symbol lastU => exact gapless_rebased mode _
    | reset symbol => exact gapless_rebased mode _
  · rw [if_pos hsymbol, (body_sound mode states call).other symbol (Ne.symm hsymbol)]
    exact h

theorem SeqWorld.AllGapless.step {w : SeqWorld} (h : w.AllGapless mode states) (e : SeqEvent) :
    (w.step mode e).AllGapless mode states := by
  intro symbol
  cases e with
  | arrive call => exact h symbol
  | enter i =>
    rw [SeqWorld.step]
    cases hcall : w.waiting[i]? with
    | none => exact h symbol
    | some call =>
      dsimp only
      rw [segmentOf, List.foldl_append]
      exact (h symbol).body call

end Calls

/-- **The sequence of a symbol.** At any time of a run the updates accepted since the last re-basing increase, and in
`BINANCE` mode they cover every number up to the last; a call changes its own symbol only, a rejected one nothing, and
an accepted one is of the epoch of the state. -/
theorem sequence_sound (mode : SeqMode) (states : SeqStates) (events : List SeqEvent) :
    Runs.Always (SeqWorld.AllGapless mode states) (SeqWorld.step mode) (SeqWorld.start states) events ∧
      Runs.Guarded (StepSound mode) (SeqWorld.step mode) (SeqWorld.start states) events := by
  constructor
  · intro pre _
    refine Runs.invariant (fun symbol => ?_) (fun w e h => h.step e) pre
    exact gapless_rebased mode (states symbol)
  · refine Runs.guarded_of_forall fun e _ w => ?_
    cases e with
    | arrive call => rfl
    | enter i => exact fun call _ => body_sound mode w.states call

/-- The numbers accepted in an epoch of a symbol. -/
def acceptedIn (mode : SeqMode) (symbol : String) (epoch : ℕ) (log : List SeqEntry) : List ℤ :=
  log.filterMap fun e => match e.call with
    | .validate symbol' epoch' firstU finalU =>
      if symbol' = symbol ∧ epoch' = epoch ∧ e.accepted then some (finalSeq mode firstU finalU) else none
    | _ => none

/-- `set_last_u` goes back within an epoch. -/
theorem not_increasing_setLastU :
    ¬ (acceptedIn .MEXC "BTC_USDT" 1 (Runs.run (SeqWorld.step .MEXC) (SeqWorld.start fun _ => none)
      [.arrive (.setEpoch "BTC_USDT" 1), .enter 0, .arrive (.validate "BTC_USDT" 1 5 (-1)), .enter 0,
        .arrive (.setLastU "BTC_USDT" 3), .enter 0, .arrive (.validate "BTC_USDT" 1 4 (-1)), .enter 0]).log).Pairwise
          (· < ·) := by
  decide

end MikoV2.DataLayer
