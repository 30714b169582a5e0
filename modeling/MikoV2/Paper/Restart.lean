import Mathlib.Tactic.Linarith
import MikoV2.Paper.Agreement

/-!
# Crash and restart

`on_startup` reads the `OPEN` rows and nothing else: the funding a position has accrued is in memory only,
and `_realized_equity` starts again from `initial_equity`.

* `realizedEquity_eq` : the realized equity is the initial equity plus the trades closed since the start;
* `restart_get?` : the positions of a restarted manager are the `OPEN` rows;
* `RestartKeeps` : the claim about a state, `Recoverable` : what memory and table must be for it;
* `restartKeeps_iff_recoverable` : they are equivalent in every reachable state.
-/

namespace MikoV2.Paper
open PaperMath Store Runs
open Py (Dict)

variable {env : Env} {s s' : World} {pos : PaperPosition} {symbol : String}

/-! ## Realized equity -/

def Ledger (env : Env) (s : World) : Prop :=
  s.mem.realizedEquity = env.cfg.initialEquity + (s.mem.closedTrades.map PaperTradeResult.pnlNet).sum

theorem Ledger.fresh (env : Env) : Ledger env (fresh env) := (add_zero _).symm

theorem restart_mem (env : Env) (s : World) :
    (restart env s).mem.closedTrades = [] ∧ (restart env s).mem.realizedEquity = env.cfg.initialEquity := by
  obtain ⟨-, -, -, htr, heq, -⟩ := onStartup_cases env (crash env s)
  exact ⟨htr, heq⟩

theorem Ledger.move {allow : List PaperPositionRow → PaperPosition → Prop} (h : Ledger env s)
    (hm : Move env allow restarts s s') : Ledger env s' := by
  unfold Ledger at h ⊢
  cases hm with
  | quiet hq => rw [hq.realizedEquity, hq.closedTrades, h]
  | funded fundingPaid hget => exact h
  | opened hfree hfund hnew =>
    obtain ⟨rows, -, hspec⟩ := settleOpen_spec (Prod.mk.eta (p := settleOpen env _ s)).symm
    rw [hspec.realizedEquity, hspec.closedTrades, h]
  | closed tsMs exitPrice reason hget =>
    obtain ⟨rows, -, hspec⟩ := settleClose_spec (Prod.mk.eta (p := settleClose env _ _ _ s)).symm
    rw [hspec.realizedEquity, hspec.closedTrades, h]
    cases rows with
    | none => rfl
    | some n => simp [add_assoc]
  | loaded =>
    obtain ⟨-, -, -, htr, heq, -⟩ := onStartup_cases env s
    rw [heq, htr, h]
  | restarted =>
    obtain ⟨htr, heq⟩ := restart_mem env s
    rw [heq, htr]
    exact (add_zero _).symm

/-! ## The restarted positions -/

/-- The positions of a restarted manager are the `OPEN` rows. -/
theorem restart_get? (hselect : ∀ n, env.faults n .selectOpen = false) (ht : TableOk s) (hc : Covered s) :
    (restart env s).mem.positions.get? symbol = some pos ↔
      ∃ r ∈ openRows s.conn.view, r.symbol = symbol ∧ r.toPosition = pos := by
  obtain ⟨-, -, -, -, -, ⟨hraise, -⟩ | hpos⟩ := onStartup_cases env (crash env s)
  · rw [hselect] at hraise
    cases hraise
  · rw [openRows_congr (show (crash env s).conn.view.positions = s.conn.view.positions from
      ht.settled.symm)] at hpos
    have hitems : (restart env s).mem.positions.items =
        (openRows s.conn.view).map fun r => (r.symbol, r.toPosition) := by
      rw [restart, hpos]
      exact Dict.items_update_of_disjoint _ .empty (hc.nodup_symbols ht) (by simp)
    rw [← Dict.mem_items, hitems, List.mem_map]
    simp only [Prod.mk.injEq]

/-! ## What a restart loses -/

/-- The `pnl_net` of the closed positions of the table. -/
def closedPnl (db : Db) : ℚ := ((db.positions.filter fun r => !r.isOpen).map fun r => r.pnlNet.getD 0).sum

/-- A restart in this state loses no money state: positions, funding included, and realized equity, which is
the initial equity plus the closed positions, are the crashed manager's, and so are the equity that sizes the
next entry, at any prices, and the trade of any close. -/
structure RestartKeeps (env : Env) (s : World) : Prop where
  positions : ∀ symbol, (restart env s).mem.positions.get? symbol = s.mem.positions.get? symbol
  realizedEquity : (restart env s).mem.realizedEquity = s.mem.realizedEquity
  total : s.mem.realizedEquity = env.cfg.initialEquity + closedPnl s.conn.disk
  sizing : ∀ lastPrice, equity { (restart env s).mem with lastPrice } = equity { s.mem with lastPrice }
  trades : ∀ symbol tsMs exitPrice reason,
    ((restart env s).mem.positions.get? symbol).map (tradeOf env · symbol tsMs exitPrice reason) =
      (s.mem.positions.get? symbol).map (tradeOf env · symbol tsMs exitPrice reason)

/-- Every position in memory has its `OPEN` row and no accrued funding, and neither the trades closed since
the manager started nor the closed rows have a net result. -/
structure Recoverable (s : World) : Prop where
  backed : ∀ symbol pos, s.mem.positions.get? symbol = some pos →
    ∃ r ∈ openRows s.conn.disk, r.symbol = symbol ∧ r.positionId = pos.positionId
  funding : ∀ symbol pos, s.mem.positions.get? symbol = some pos → pos.fundingPaid = 0
  trades : (s.mem.closedTrades.map PaperTradeResult.pnlNet).sum = 0
  rows : closedPnl s.conn.disk = 0

theorem equity_congr {m m' : Manager} (hpos : ∀ symbol, m.positions.get? symbol = m'.positions.get? symbol)
    (hreal : m.realizedEquity = m'.realizedEquity) (hpx : m.lastPrice = m'.lastPrice) : equity m = equity m' := by
  unfold equity
  rw [hreal, hpx]
  exact (Dict.items_perm hpos).foldl_eq' (fun _ _ _ _ eq => add_right_comm (G := ℚ) eq _ _) _

theorem Recoverable.positions (h : Recoverable s) (hselect : ∀ n, env.faults n .selectOpen = false)
    (ht : TableOk s) (hc : Covered s) (symbol : String) :
    (restart env s).mem.positions.get? symbol = s.mem.positions.get? symbol := by
  have hdisk : openRows s.conn.disk = openRows s.conn.view := openRows_congr (Eq.symm ht.settled)
  refine Option.ext fun pos => ?_
  rw [restart_get? hselect ht hc]
  constructor
  · rintro ⟨r, hr, rfl, rfl⟩
    obtain ⟨p, hp, hrp⟩ := hc r hr
    rw [hp, hrp, unfunded, ← h.funding _ _ hp]
  · intro hget
    obtain ⟨r, hr, rfl, -⟩ := h.backed _ _ hget
    rw [hdisk] at hr
    obtain ⟨p, hp, hrp⟩ := hc r hr
    rw [hget] at hp
    cases hp
    refine ⟨r, hr, rfl, ?_⟩
    rw [hrp, unfunded, ← h.funding _ _ hget]

theorem restartKeeps_iff (hselect : ∀ n, env.faults n .selectOpen = false) (ht : TableOk s) (hc : Covered s)
    (hl : Ledger env s) : RestartKeeps env s ↔ Recoverable s := by
  have hdisk : openRows s.conn.disk = openRows s.conn.view := openRows_congr (Eq.symm ht.settled)
  obtain ⟨-, hreal⟩ := restart_mem env s
  unfold Ledger at hl
  constructor
  · intro h
    have hrow : ∀ symbol pos, s.mem.positions.get? symbol = some pos →
        ∃ r ∈ openRows s.conn.view, r.symbol = symbol ∧ r.toPosition = pos := by
      intro symbol pos hget
      rw [← restart_get? hselect ht hc, h.positions, hget]
    have hback := h.realizedEquity
    have htotal := h.total
    rw [hreal] at hback
    refine ⟨?_, ?_, by linarith, by linarith⟩
    · intro symbol pos hget
      obtain ⟨r, hr, hs, rfl⟩ := hrow symbol pos hget
      exact ⟨r, hdisk ▸ hr, hs, rfl⟩
    · intro symbol pos hget
      obtain ⟨r, hr, -, rfl⟩ := hrow symbol pos hget
      exact ht.unfunded r (mem_openRows.mp hr).1
  · intro h
    have hpos := h.positions hselect ht hc
    have hsame : (restart env s).mem.realizedEquity = s.mem.realizedEquity := by
      rw [hreal, hl, h.trades, add_zero]
    refine ⟨hpos, hsame, ?_, fun lastPrice => equity_congr hpos hsame rfl, ?_⟩
    · rw [h.rows, hl, h.trades]
    · intro symbol tsMs exitPrice reason
      rw [hpos]

/-- What holds in every state a run reaches when no call raises. -/
theorem reliable_run (cfg : PaperPositionConfig) (wallMs : ℕ → ℤ) (calls : List Action) :
    TableOk (run (step (reliable cfg wallMs)) (fresh (reliable cfg wallMs)) calls) ∧
      Covered (run (step (reliable cfg wallMs)) (fresh (reliable cfg wallMs)) calls) ∧
      Ledger (reliable cfg wallMs) (run (step (reliable cfg wallMs)) (fresh (reliable cfg wallMs)) calls) := by
  have hf : ∀ n t, (reliable cfg wallMs).faults n t = false := fun _ _ => rfl
  refine invariant (I := fun s => TableOk s ∧ Covered s ∧ Ledger (reliable cfg wallMs) s)
    ⟨.fresh _, .fresh _, .fresh _⟩ (fun s a h => ?_) calls
  refine Moves.keeps (I := fun s => TableOk s ∧ Covered s ∧ Ledger (reliable cfg wallMs) s)
    (fun s s' h hm => ?_) (step_moves_any _ s a) h
  obtain ⟨ht, hc, hl⟩ := h
  exact ⟨ht.move (hf · _) (hf · _) hm, hc.move (hf · _) (hf · _) (hf · _) ht hm, hl.move hm⟩

/-- **A restart loses no money state exactly when there is none to lose**: in every state a run reaches, with
every call succeeding. -/
theorem restartKeeps_iff_recoverable (cfg : PaperPositionConfig) (wallMs : ℕ → ℤ) (calls : List Action) :
    RestartKeeps (reliable cfg wallMs) (run (step (reliable cfg wallMs)) (fresh (reliable cfg wallMs)) calls) ↔
      Recoverable (run (step (reliable cfg wallMs)) (fresh (reliable cfg wallMs)) calls) := by
  obtain ⟨ht, hc, hl⟩ := reliable_run cfg wallMs calls
  exact restartKeeps_iff (fun _ => rfl) ht hc hl

/-- The symbol is entered at 100.02 and closed at 100. -/
def entryAndLoss : List Action :=
  warmUp ++ [.onEntry "BTC_USDT" .LONG 80000 (some 100) 0, .finalize 85000 fun _ => none]

theorem not_restartKeeps_entryAndLoss :
    ¬ RestartKeeps (reliable {} fun _ => 0)
      (run (step (reliable {} fun _ => 0)) (fresh (reliable {} fun _ => 0)) entryAndLoss) := by
  intro h
  have hreal := h.realizedEquity
  revert hreal
  decide +kernel

end MikoV2.Paper
