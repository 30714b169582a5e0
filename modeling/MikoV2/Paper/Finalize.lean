import MikoV2.Paper.Rows

/-!
# Closing out, and the rest of the database

* `finalize_empties` : when the close writes do not raise, `finalize` leaves no position in memory;
* `observation_frame` : no call of the manager changes the observation row, though its commits may publish it;
* `PaperOk` : the table is in order and covered by memory, kept by moves and by a new process that loads it.
-/

namespace MikoV2.Paper
open PaperMath Store
open Py (Dict)

variable {env : Env} {s s' : World} {symbol : String} {allow : List PaperPositionRow → PaperPosition → Prop}
  {restarts : Prop}

/-! ## `finalize` -/

theorem closePosition_get? (hup : ∀ n, env.faults n .updatePosition = false)
    (hco : ∀ n, env.faults n .commitClose = false) (symbol : String) (tsMs : ℤ) (exitPrice : ℚ)
    (reason : ExitReason) (s : World) (k : String) :
    (closePosition env symbol tsMs exitPrice reason s).mem.positions.get? k =
      if k = symbol then none else s.mem.positions.get? k := by
  unfold closePosition
  cases hget : s.mem.positions.get? symbol with
  | none =>
    dsimp only
    split
    · rename_i hk
      rw [hk, hget]
    · rfl
  | some pos =>
    dsimp only
    rcases hclose : settleClose env (tradeOf env pos symbol tsMs exitPrice reason)
      (computeExitFee exitPrice pos.qty env.cfg.feeTaker env.cfg.feeMaker reason) symbol s with ⟨ok, t⟩
    obtain ⟨rows, rfl, hspec⟩ := settleClose_spec hclose
    have hrows := Sqlite.write_isSome hup hco hspec.write
    have hpos := hspec.positions
    rw [hrows, if_pos rfl] at hpos
    rw [hrows]
    show t.mem.positions.get? k = _
    rw [hpos, Dict.get?_erase]

theorem finalizePosition_get? (hup : ∀ n, env.faults n .updatePosition = false)
    (hco : ∀ n, env.faults n .commitClose = false) (lastTsMs : ℤ) (lastPrices : String → Option ℚ) (s : World)
    (symbol k : String) :
    (finalizePosition env lastTsMs lastPrices s symbol).mem.positions.get? k =
      if k = symbol then none else s.mem.positions.get? k := by
  unfold finalizePosition
  cases hget : s.mem.positions.get? symbol with
  | none =>
    dsimp only
    split
    · rename_i hk
      rw [hk, hget]
    · rfl
  | some pos => exact closePosition_get? hup hco ..

theorem foldl_finalizePosition_get? (hup : ∀ n, env.faults n .updatePosition = false)
    (hco : ∀ n, env.faults n .commitClose = false) (lastTsMs : ℤ) (lastPrices : String → Option ℚ) (k : String)
    (l : List String) : ∀ s, (l.foldl (finalizePosition env lastTsMs lastPrices) s).mem.positions.get? k =
      if k ∈ l then none else s.mem.positions.get? k := by
  induction l with
  | nil => exact fun s => rfl
  | cons symbol l ih =>
    intro s
    rw [List.foldl_cons, ih, finalizePosition_get? hup hco]
    by_cases hk : k = symbol
    · simp [hk]
    · simp [hk]

/-- When the close writes do not raise, `finalize` closes every position. -/
theorem finalize_empties (hup : ∀ n, env.faults n .updatePosition = false)
    (hco : ∀ n, env.faults n .commitClose = false) (lastTsMs : ℤ) (lastPrices : String → Option ℚ) (s : World) :
    (finalize env lastTsMs lastPrices s).mem.positions.items = [] := by
  refine List.eq_nil_iff_forall_not_mem.mpr fun e he => ?_
  have hget := Dict.mem_items.mp (show (e.1, e.2) ∈ _ from he)
  unfold finalize at hget
  dsimp only at hget
  rw [foldl_finalizePosition_get? hup hco] at hget
  split at hget
  · cases hget
  · rename_i hk
    rw [Dict.get?_eq_none.mpr hk] at hget
    cases hget

/-! ## The observation row -/

theorem Move.observation_frame (h : Move env allow False s s') : Sqlite.Frame Db.observation s.conn s'.conn := by
  cases h with
  | quiet hq => exact hq.observation
  | funded fundingPaid hget => exact .refl _ _
  | opened hfree hfund hnew =>
    obtain ⟨rows, -, hspec⟩ := settleOpen_spec (Prod.mk.eta (p := settleOpen env _ s)).symm
    exact .of_write (fun _ => rfl) hspec.write
  | closed tsMs exitPrice reason hget =>
    obtain ⟨rows, -, hspec⟩ := settleClose_spec (Prod.mk.eta (p := settleClose env _ _ _ s)).symm
    exact .of_write (fun _ => rfl) hspec.write
  | loaded h => exact h.elim
  | restarted h => exact h.elim

/-- Moves that do not restart leave the observation row alone. -/
theorem Moves.observation_frame (h : Moves env allow False s s') : Sqlite.Frame Db.observation s.conn s'.conn :=
  h.keeps (I := fun t => Sqlite.Frame Db.observation s.conn t.conn)
    (fun _ _ hframe hm => hframe.trans hm.observation_frame) (.refl _ _)

/-! ## Openings -/

def PositionWrite.isOpening : PositionWrite → Bool
  | .opened _ rows => rows.isSome
  | .closed _ _ _ => false

/-- How many positions have been opened so far. -/
def openings (s : World) : ℕ := s.log.countP PositionWrite.isOpening

/-- Moves without an entry open nothing. -/
theorem Moves.openings_eq (h : Moves env (fun _ _ => False) restarts s s') : openings s' = openings s := by
  refine h.keeps (I := fun t => openings t = openings s) (fun t t' ht hm => ?_) rfl
  rw [← ht]
  unfold openings
  cases hm with
  | quiet hq => rw [hq.log]
  | funded fundingPaid hget => rfl
  | opened hfree hfund hnew => exact hnew.elim
  | closed tsMs exitPrice reason hget =>
    obtain ⟨rows, -, hspec⟩ := settleClose_spec (Prod.mk.eta (p := settleClose env _ _ _ t)).symm
    rw [hspec.log, List.countP_append]
    rfl
  | loaded =>
    obtain ⟨-, -, hlog, -⟩ := onStartup_cases env t
    rw [hlog]
  | restarted hr =>
    obtain ⟨-, -, hlog, -⟩ := onStartup_cases env (crash env t)
    unfold restart
    rw [hlog]
    rfl

/-! ## The table and memory together -/

structure PaperOk (s : World) : Prop where
  table : TableOk s
  covered : Covered s

/-- The calls on the paper tables do not raise. -/
structure PaperReliable (env : Env) : Prop where
  selectOpen : ∀ n, env.faults n .selectOpen = false
  insertPosition : ∀ n, env.faults n .insertPosition = false
  commitOpen : ∀ n, env.faults n .commitOpen = false
  updatePosition : ∀ n, env.faults n .updatePosition = false
  commitClose : ∀ n, env.faults n .commitClose = false

theorem PaperOk.fresh (env : Env) : PaperOk (fresh env) := ⟨.fresh env, .fresh env⟩

theorem PaperOk.moves (h : PaperOk s) (hrel : PaperReliable env) (hm : Moves env allow restarts s s') :
    PaperOk s' :=
  hm.keeps (I := PaperOk) (fun _ _ hok hmove =>
    ⟨hok.table.move hrel.commitOpen hrel.commitClose hmove,
      hok.covered.move hrel.commitOpen hrel.commitClose hrel.selectOpen hok.table hmove⟩) h

/-- Work on the connection that leaves the table alone. -/
theorem PaperOk.of_frame (h : PaperOk s) (hframe : Sqlite.Frame Db.positions s.conn s'.conn)
    (hpos : s'.mem.positions = s.mem.positions) : PaperOk s' :=
  ⟨h.table.congr hframe.view (hframe.settled h.table.settled).2, h.covered.congr hframe.view hpos⟩

/-- A new process on the same file, after work that leaves the table alone, loads the `OPEN` rows. -/
theorem PaperOk.loaded (h : PaperOk s) (hrel : PaperReliable env)
    (hframe : Sqlite.Frame Db.positions (crash env s).conn s'.conn) : PaperOk (onStartup env s').2 := by
  have hcrash : (crash env s).conn.view.positions = s.conn.view.positions := h.table.settled.symm
  have hview : s'.conn.view.positions = s.conn.view.positions := hframe.view.trans hcrash
  have hdisk : s'.conn.disk.positions = s.conn.disk.positions :=
    (hframe.settled (show (crash env s).conn.Settled Db.positions from rfl)).2
  obtain ⟨hview', hdisk', -, -, -, ⟨hraise, -⟩ | hpos⟩ := onStartup_cases env s'
  · rw [hrel.selectOpen] at hraise
    cases hraise
  · rw [openRows_congr hview] at hpos
    exact ⟨h.table.congr (by rw [hview', hview]) (by rw [hdisk', hdisk]),
      h.covered.load h.table (by rw [hview', hview]) hpos⟩

/-- No position in memory: no `OPEN` row, on the disk neither. -/
theorem PaperOk.flat (h : PaperOk s) (hempty : s.mem.positions.items = []) : openRows s.conn.disk = [] := by
  have hview : openRows s.conn.view = [] := by
    refine List.eq_nil_iff_forall_not_mem.mpr fun r hr => ?_
    obtain ⟨pos, hget, -⟩ := h.covered r hr
    have hmem := Dict.mem_items.mpr hget
    rw [hempty] at hmem
    cases hmem
  rw [← openRows_congr h.table.settled]
  exact hview

end MikoV2.Paper
