import Mathlib.Logic.Relation
import MikoV2.Paper.Manager

/-!
# What a call of the manager can do to positions and their rows

A call is a sequence of moves: an opening or a closing write with the memory update after it, a funding
payment, the load of `on_startup`, a restart, and `Quiet` work that leaves positions, trades and the table
alone. Every invariant of the manager is proved of the moves.

* `OpenSpec`, `CloseSpec` : everything `settleOpen` and `settleClose` do;
* `Move`, `Moves` : one move, a sequence of them; `Moves.keeps` : what every move keeps;
* `step_moves` : every call is a sequence of moves;
* `fundingCheck_passed` : the funding loop ends because the boundary has passed the sample, not for lack of
  rounds.
-/

namespace MikoV2.Paper
open PaperMath Store Relation
open Py (Dict)

variable {env : Env} {s s' : World} {pos : PaperPosition} {symbol : String}

/-! ## Quiet work -/

/-- Positions, trades, realized equity, outcomes and the table as the connection sees it are unchanged; the
disk may have received what was pending. So is the observation row. -/
structure Quiet (s s' : World) : Prop where
  positions : s'.mem.positions = s.mem.positions
  closedTrades : s'.mem.closedTrades = s.mem.closedTrades
  realizedEquity : s'.mem.realizedEquity = s.mem.realizedEquity
  log : s'.log = s.log
  view : s'.conn.view.positions = s.conn.view.positions
  disk : s'.conn.disk.positions = s.conn.disk.positions ∨ s'.conn.disk.positions = s.conn.view.positions
  observation : Sqlite.Frame Db.observation s.conn s'.conn

theorem Quiet.refl (s : World) : Quiet s s := ⟨rfl, rfl, rfl, rfl, rfl, Or.inl rfl, .refl _ _⟩

theorem Quiet.trans {t : World} (h₁ : Quiet s s') (h₂ : Quiet s' t) : Quiet s t := by
  refine ⟨h₂.positions.trans h₁.positions, h₂.closedTrades.trans h₁.closedTrades,
    h₂.realizedEquity.trans h₁.realizedEquity, h₂.log.trans h₁.log, h₂.view.trans h₁.view, ?_,
    h₁.observation.trans h₂.observation⟩
  rcases h₂.disk with h | h
  · rw [h]; exact h₁.disk
  · rw [h, h₁.view]; exact Or.inr rfl

/-- Memory fields that no close, entry or startup reads for its write. -/
theorem Quiet.of_conn (h₁ : s'.mem.positions = s.mem.positions) (h₂ : s'.mem.closedTrades = s.mem.closedTrades)
    (h₃ : s'.mem.realizedEquity = s.mem.realizedEquity) (h₄ : s'.log = s.log) (h₅ : s'.conn = s.conn) :
    Quiet s s' := ⟨h₁, h₂, h₃, h₄, by rw [h₅], Or.inl (by rw [h₅]), h₅ ▸ .refl _ _⟩

theorem writeEvent_quiet (env : Env) (positionId : Option String) (symbol : String) (eventType : EventType)
    (reason : Option String) (sourceSeq : Option ℤ) (tsMs : ℤ) (s : World) :
    Quiet s (writeEvent env positionId symbol eventType reason sourceSeq tsMs s) := by
  have hs : ∀ ev d, (insertEvent ev d).2.positions = d.positions := fun _ _ => rfl
  have ho : ∀ ev d, (insertEvent ev d).2.observation = d.observation := fun _ _ => rfl
  refine ⟨rfl, rfl, rfl, rfl, ?_, ?_, .of_write (ho _) (Prod.mk.eta (p := s.conn.write _ _ _ _)).symm⟩
  · exact Sqlite.write_frame_view (f := Db.positions) (hs _) (Prod.mk.eta (p := s.conn.write _ _ _ _)).symm
  · exact Sqlite.write_frame_disk (f := Db.positions) (hs _) (Prod.mk.eta (p := s.conn.write _ _ _ _)).symm

theorem reject_quiet (env : Env) (symbol : String) (signalTsMs : ℤ) (refusal : Refusal) (s : World) :
    Quiet s (reject env symbol signalTsMs refusal s) := by
  unfold reject
  dsimp only
  have hset : Quiet s { s with mem.lastRejectionReason := some refusal.reason } := .of_conn rfl rfl rfl rfl rfl
  split
  · exact hset.trans (writeEvent_quiet ..)
  · exact hset

theorem otherCommit_quiet (env : Env) (s : World) : Quiet s (step env s .otherCommit) := by
  refine ⟨rfl, rfl, rfl, rfl, ?_, ?_, .of_commit (Prod.mk.eta (p := s.conn.commit env.faults .otherCommit)).symm⟩ <;>
    rcases Sqlite.commit_cases (Prod.mk.eta (p := s.conn.commit env.faults .otherCommit)).symm
      with ⟨-, -, hd, hv⟩ | ⟨-, -, hd, hv⟩
  · exact congrArg Db.positions hv
  · exact congrArg Db.positions hv
  · exact Or.inl (congrArg Db.positions hd)
  · exact Or.inr (congrArg Db.positions hd)

/-! ## The two writes -/

/-- Everything `settleOpen` does: the write, its outcome in the log, and `positions` when it returned. -/
structure OpenSpec (env : Env) (pos : PaperPosition) (s s' : World) (rows : Option ℕ) : Prop where
  write : s.conn.write env.faults .insertPosition .commitOpen
    (insertPosition env pos (env.wallMs s.conn.issued)) = (rows, s'.conn)
  log : s'.log = s.log ++ [.opened pos rows]
  positions : s'.mem.positions = if rows.isSome then s.mem.positions.set pos.symbol pos else s.mem.positions
  closedTrades : s'.mem.closedTrades = s.mem.closedTrades
  realizedEquity : s'.mem.realizedEquity = s.mem.realizedEquity

theorem settleOpen_spec {b : Bool} (h : settleOpen env pos s = (b, s')) :
    ∃ rows, b = rows.isSome ∧ OpenSpec env pos s s' rows := by
  unfold settleOpen writePositionOpen at h
  rcases hw : s.conn.write env.faults .insertPosition .commitOpen
    (insertPosition env pos (env.wallMs s.conn.issued)) with ⟨rows, conn⟩
  rw [hw] at h
  cases rows with
  | none => cases h; exact ⟨none, rfl, hw, rfl, rfl, rfl, rfl⟩
  | some n => cases h; exact ⟨some n, rfl, hw, rfl, rfl, rfl, rfl⟩

/-- Everything `settleClose` does. -/
structure CloseSpec (env : Env) (trade : PaperTradeResult) (exitFee : ℚ) (symbol : String) (s s' : World)
    (rows : Option ℕ) : Prop where
  write : s.conn.write env.faults .updatePosition .commitClose
    (updatePosition trade exitFee (env.wallMs s.conn.issued)) = (rows, s'.conn)
  log : s'.log = s.log ++ [.closed trade exitFee rows]
  positions : s'.mem.positions = if rows.isSome then s.mem.positions.erase symbol else s.mem.positions
  closedTrades : s'.mem.closedTrades = if rows.isSome then s.mem.closedTrades ++ [trade] else s.mem.closedTrades
  realizedEquity : s'.mem.realizedEquity =
    if rows.isSome then s.mem.realizedEquity + trade.pnlNet else s.mem.realizedEquity

theorem settleClose_spec {trade : PaperTradeResult} {exitFee : ℚ} {b : Bool}
    (h : settleClose env trade exitFee symbol s = (b, s')) :
    ∃ rows, b = rows.isSome ∧ CloseSpec env trade exitFee symbol s s' rows := by
  unfold settleClose writePositionClose at h
  rcases hw : s.conn.write env.faults .updatePosition .commitClose
    (updatePosition trade exitFee (env.wallMs s.conn.issued)) with ⟨rows, conn⟩
  rw [hw] at h
  cases rows with
  | none => cases h; exact ⟨none, rfl, hw, rfl, rfl, rfl, rfl⟩
  | some n => cases h; exact ⟨some n, rfl, hw, rfl, rfl, rfl, rfl⟩

/-! ## Moves -/

/-- A close at the stop or the target is a close at that price. -/
def ExitAt (pos : PaperPosition) (exitPrice : ℚ) : ExitReason → Prop
  | .SL => exitPrice = pos.slPrice
  | .TP => exitPrice = pos.tpPrice
  | .END_OF_BACKTEST => True

/-- One move; an opening is one that `allow` permits on the table it finds, loads and restarts are there when
there are `restarts`. -/
inductive Move (env : Env) (allow : List PaperPositionRow → PaperPosition → Prop) (restarts : Prop) :
    World → World → Prop
  | quiet {s s' : World} (h : Quiet s s') : Move env allow restarts s s'
  | funded {s : World} {symbol : String} {pos : PaperPosition} (fundingPaid : ℚ)
      (h : s.mem.positions.get? symbol = some pos) :
      Move env allow restarts s { s with mem.positions := s.mem.positions.set symbol { pos with fundingPaid } }
  | opened {s : World} {pos : PaperPosition} (hfree : s.mem.positions.get? pos.symbol = none)
      (hfund : pos.fundingPaid = 0) (h : allow s.conn.view.positions pos) :
      Move env allow restarts s (settleOpen env pos s).2
  | closed {s : World} {symbol : String} {pos : PaperPosition} (tsMs : ℤ) (exitPrice : ℚ) (reason : ExitReason)
      (h : s.mem.positions.get? symbol = some pos) (hexit : ExitAt pos exitPrice reason) :
      Move env allow restarts s (settleClose env (tradeOf env pos symbol tsMs exitPrice reason)
        (computeExitFee exitPrice pos.qty env.cfg.feeTaker env.cfg.feeMaker reason) symbol s).2
  | loaded {s : World} (h : restarts) : Move env allow restarts s (onStartup env s).2
  | restarted {s : World} (h : restarts) : Move env allow restarts s (restart env s)

def Moves (env : Env) (allow : List PaperPositionRow → PaperPosition → Prop) (restarts : Prop) :
    World → World → Prop :=
  ReflTransGen (Move env allow restarts)

variable {allow : List PaperPositionRow → PaperPosition → Prop} {restarts : Prop}

theorem Moves.refl (s : World) : Moves env allow restarts s s := ReflTransGen.refl

theorem Moves.trans {t : World} (h₁ : Moves env allow restarts s s') (h₂ : Moves env allow restarts s' t) :
    Moves env allow restarts s t := ReflTransGen.trans h₁ h₂

theorem Moves.one (h : Move env allow restarts s s') : Moves env allow restarts s s' := ReflTransGen.single h

theorem Moves.quiet (h : Quiet s s') : Moves env allow restarts s s' := .one (.quiet h)

/-- What every move keeps, every sequence of moves keeps. -/
theorem Moves.keeps {I : World → Prop} (hI : ∀ s s', I s → Move env allow restarts s s' → I s')
    (h : Moves env allow restarts s s') (h0 : I s) : I s' := by
  induction h with
  | refl => exact h0
  | tail _ hm ih => exact hI _ _ ih hm

theorem foldl_moves {α : Type} {f : World → α → World} (hf : ∀ s a, Moves env allow restarts s (f s a)) (l : List α) :
    ∀ s, Moves env allow restarts s (l.foldl f s) := by
  induction l with
  | nil => exact Moves.refl
  | cons a l ih => exact fun s => (hf s a).trans (ih _)

/-! ## The methods are sequences of moves -/

theorem closePosition_moves (env : Env) (symbol : String) (tsMs : ℤ) (exitPrice : ℚ) (reason : ExitReason)
    (s : World) (hexit : ∀ pos, s.mem.positions.get? symbol = some pos → ExitAt pos exitPrice reason) :
    Moves env allow restarts s (closePosition env symbol tsMs exitPrice reason s) := by
  unfold closePosition
  split
  · exact .refl s
  · rename_i pos hpos
    have hclose : Moves env allow restarts s _ := .one (.closed tsMs exitPrice reason hpos (hexit pos hpos))
    dsimp only
    split
    · rename_i t ht
      rw [ht] at hclose
      exact hclose
    · rename_i t ht
      rw [ht] at hclose
      exact hclose.trans (.quiet (writeEvent_quiet ..))

theorem checkExitsOnCandle_moves (env : Env) (c : Candle5s) (symbol : String) (s : World) :
    Moves env allow restarts s (checkExitsOnCandle env c symbol s) := by
  unfold checkExitsOnCandle
  split
  · exact .refl s
  · rename_i pos hpos
    have hsl : ∀ p, s.mem.positions.get? symbol = some p → ExitAt p pos.slPrice .SL := by
      intro p hp
      rw [hpos] at hp
      cases hp
      rfl
    have htp : ∀ p, s.mem.positions.get? symbol = some p → ExitAt p pos.tpPrice .TP := by
      intro p hp
      rw [hpos] at hp
      cases hp
      rfl
    split
    · exact .refl s
    · split
      · exact closePosition_moves env symbol _ _ _ s hsl
      · split
        · exact closePosition_moves env symbol _ _ _ s htp
        · exact .refl s

theorem finalizeActive_moves (env : Env) (symbol : String) (s : World) :
    Moves env allow restarts s (finalizeActive env symbol s) := by
  unfold finalizeActive
  split
  · exact .refl s
  · refine Moves.trans (.quiet (Quiet.of_conn ?_ ?_ ?_ ?_ ?_)) (checkExitsOnCandle_moves ..) <;> rfl

theorem mergeCandle_moves (env : Env) (sample : OhlcvSample) (s : World) :
    Moves env allow restarts s (mergeCandle env sample s) := by
  unfold mergeCandle
  dsimp only
  split
  · exact .quiet (Quiet.of_conn rfl rfl rfl rfl rfl)
  · split
    · exact (finalizeActive_moves env sample.symbol s).trans (.quiet (Quiet.of_conn rfl rfl rfl rfl rfl))
    · split
      · exact .quiet (Quiet.of_conn rfl rfl rfl rfl rfl)
      · exact .refl s

theorem applyFunding_moves (env : Env) (symbol : String) (s : World) :
    Moves env allow restarts s (applyFunding symbol s) := by
  unfold applyFunding
  split
  · exact .refl s
  · rename_i pos hpos
    exact .one (.funded _ hpos)

theorem fundingLoop_moves (env : Env) (symbol : String) (tsMs : ℤ) : ∀ (fuel : ℕ) (next : ℤ) (s : World),
    Moves env allow restarts s (fundingLoop env symbol tsMs fuel next s)
  | 0, _, _ => .quiet (Quiet.of_conn rfl rfl rfl rfl rfl)
  | fuel + 1, next, s => by
    unfold fundingLoop
    split
    · refine Moves.trans ?_ (fundingLoop_moves env symbol tsMs fuel _ _)
      split
      · exact applyFunding_moves env symbol s
      · exact .refl s
    · exact .quiet (Quiet.of_conn rfl rfl rfl rfl rfl)

theorem fundingLoop_passed (env : Env) (symbol : String) (tsMs : ℤ) : ∀ (fuel : ℕ) (next : ℤ) (s : World),
    tsMs - next < fuel → ∃ n, (fundingLoop env symbol tsMs fuel next s).mem.nextFundingMs symbol = some n ∧ tsMs < n
  | 0, next, s, hfuel => ⟨next, by simp [fundingLoop], by omega⟩
  | fuel + 1, next, s, hfuel => by
    unfold fundingLoop
    split
    · have hlater := lt_nextFundingTsMs (next + 1)
      exact fundingLoop_passed env symbol tsMs fuel _ _ (by omega)
    · exact ⟨next, by simp, by omega⟩

theorem fundingCheck_passed (env : Env) (symbol : String) (tsMs : ℤ) (s : World) :
    ∃ n, (fundingCheck env symbol tsMs s).mem.nextFundingMs symbol = some n ∧ tsMs < n :=
  fundingLoop_passed env symbol tsMs _ _ s (by omega)

theorem onOhlcv_moves (env : Env) (sample : OhlcvSample) (monoMs : ℤ) (s : World) :
    Moves env allow restarts s (onOhlcv env sample monoMs s) := by
  unfold onOhlcv
  split
  · exact .refl s
  · have hmerge : Moves env allow restarts s (mergeCandle env sample s) := mergeCandle_moves ..
    have hfund : Moves env allow restarts _ (fundingCheck env sample.symbol sample.tsMs (mergeCandle env sample s)) :=
      fundingLoop_moves ..
    exact (hmerge.trans hfund).trans (.quiet (Quiet.of_conn rfl rfl rfl rfl rfl))

theorem finalize_moves (env : Env) (lastTsMs : ℤ) (lastPrices : String → Option ℚ) (s : World) :
    Moves env allow restarts s (finalize env lastTsMs lastPrices s) := by
  unfold finalize
  refine (foldl_moves (fun s symbol => finalizeActive_moves env symbol s) _ s).trans
    (foldl_moves (fun s symbol => ?_) _ _)
  unfold finalizePosition
  split
  · exact .refl s
  · exact closePosition_moves env _ _ _ _ s fun _ _ => trivial

theorem entryGate_ok {m : Manager} {lastPrice : Option ℚ} {nowMono : ℤ} {px : ℚ}
    (h : entryGate env m symbol lastPrice nowMono = .ok px) : symbol ∉ m.positions.keys := by
  unfold entryGate at h
  intro hsym
  simp only [hsym, if_true] at h
  repeat' split at h
  all_goals cases h

theorem entrySizing_ok {m : Manager} {direction : Direction} {signalTsMs : ℤ} {px : ℚ}
    (h : entrySizing env m symbol direction signalTsMs px = .ok pos) :
    pos.symbol = symbol ∧ pos.positionId = positionId symbol signalTsMs ∧ pos.fundingPaid = 0 := by
  unfold entrySizing at h
  dsimp only at h
  repeat' split at h
  all_goals cases h
  exact ⟨rfl, rfl, rfl⟩

/-- The position an accepted entry hands to the writer: its symbol is free, its id is the signal's. -/
theorem entryDecision_ok {m : Manager} {direction : Direction} {signalTsMs nowMono : ℤ} {lastPrice : Option ℚ}
    (h : entryDecision env m symbol direction signalTsMs lastPrice nowMono = .ok pos) :
    pos.symbol = symbol ∧ pos.positionId = positionId symbol signalTsMs ∧ pos.fundingPaid = 0 ∧
      m.positions.get? symbol = none := by
  unfold entryDecision at h
  split at h
  · cases h
  · rename_i px hpx
    obtain ⟨hsym, hid, hfund⟩ := entrySizing_ok h
    exact ⟨hsym, hid, hfund, Dict.get?_eq_none.mpr (entryGate_ok hpx)⟩

/-- An entry is refused, or its position goes to the writer; the rest of the call is quiet. -/
theorem onEntry_cases (env : Env) (symbol : String) (direction : Direction) (signalTsMs : ℤ)
    (lastPrice : Option ℚ) (monoMs : ℤ) (s : World) {b : Bool} {t : World}
    (h : onEntry env symbol direction signalTsMs lastPrice monoMs s = (b, t)) :
    (∃ refusal, entryDecision env s.mem symbol direction signalTsMs lastPrice monoMs = .error refusal ∧
        b = false ∧ Quiet s t) ∨
      ∃ pos rows s₁, entryDecision env s.mem symbol direction signalTsMs lastPrice monoMs = .ok pos ∧
        b = rows.isSome ∧ OpenSpec env pos s s₁ rows ∧ Quiet s₁ t := by
  unfold onEntry at h
  dsimp only at h
  have hclear : Quiet s { s with mem.lastRejectionReason := none } := .of_conn rfl rfl rfl rfl rfl
  split at h
  · rename_i refusal hdec
    cases h
    exact Or.inl ⟨refusal, hdec, rfl, hclear.trans (reject_quiet ..)⟩
  · rename_i pos hdec
    rcases hopen : settleOpen env pos { s with mem.lastRejectionReason := none } with ⟨ok, s₁⟩
    obtain ⟨rows, rfl, hw, hlog, hpos, htr, heq⟩ := settleOpen_spec hopen
    refine Or.inr ⟨pos, rows, s₁, hdec, ?_⟩
    rw [hopen] at h
    cases rows with
    | none => cases h; exact ⟨rfl, ⟨hw, hlog, hpos, htr, heq⟩, .refl _⟩
    | some n => cases h; exact ⟨rfl, ⟨hw, hlog, hpos, htr, heq⟩, writeEvent_quiet ..⟩

theorem onEntry_moves {direction : Direction} {signalTsMs monoMs : ℤ} {lastPrice : Option ℚ}
    (hallow : ∀ pos, entryDecision env s.mem symbol direction signalTsMs lastPrice monoMs = .ok pos →
      allow s.conn.view.positions pos) :
    Moves env allow restarts s (onEntry env symbol direction signalTsMs lastPrice monoMs s).2 := by
  unfold onEntry
  dsimp only
  have hclear : Moves env allow restarts s { s with mem.lastRejectionReason := none } :=
    .quiet (.of_conn rfl rfl rfl rfl rfl)
  split
  · exact hclear.trans (.quiet (reject_quiet ..))
  · rename_i pos hdec
    obtain ⟨hsym, -, hfund, hfree⟩ := entryDecision_ok hdec
    have hopen : Move env allow restarts { s with mem.lastRejectionReason := none } _ :=
      .opened (hsym ▸ hfree) hfund (hallow pos hdec)
    split
    · rename_i t ht
      rw [ht] at hopen
      exact hclear.trans (.one hopen)
    · rename_i t ht
      rw [ht] at hopen
      exact (hclear.trans (.one hopen)).trans (.quiet (writeEvent_quiet ..))

/-- Every call is a sequence of moves, the openings those that `on_entry` accepts. -/
theorem step_moves {a : Action}
    (hallow : ∀ symbol direction signalTsMs lastPrice monoMs pos,
      a = .onEntry symbol direction signalTsMs lastPrice monoMs →
      entryDecision env s.mem symbol direction signalTsMs lastPrice monoMs = .ok pos →
      allow s.conn.view.positions pos)
    (hrestart : a = .onStartup ∨ a = .restart → restarts) : Moves env allow restarts s (step env s a) := by
  cases a with
  | onStartup => exact .one (.loaded (hrestart (Or.inl rfl)))
  | onWsTick symbol price monoMs =>
    refine .quiet ?_
    unfold step onWsTick
    dsimp only
    split
    · exact .refl s
    · split
      · exact .refl s
      · exact .of_conn rfl rfl rfl rfl rfl
  | onTicker symbol fundingRate => exact .quiet (.of_conn rfl rfl rfl rfl rfl)
  | onOhlcv sample monoMs => exact onOhlcv_moves ..
  | onEntry symbol direction signalTsMs lastPrice monoMs =>
    exact onEntry_moves fun pos h => hallow _ _ _ _ _ pos rfl h
  | finalize lastTsMs lastPrices => exact finalize_moves ..
  | restart => exact .one (.restarted (hrestart (Or.inr rfl)))
  | otherCommit => exact .quiet (otherCommit_quiet env s)

/-- A feed opens nothing and loads nothing. -/
theorem feed_moves (env : Env) (s : World) (f : Feed) :
    Moves env (fun _ _ => False) False s (step env s f.action) := by
  refine step_moves (fun symbol direction signalTsMs lastPrice monoMs pos ha => ?_) fun ha => ?_
  · cases f <;> cases ha
  · cases f <;> rcases ha with ha | ha <;> cases ha

end MikoV2.Paper
