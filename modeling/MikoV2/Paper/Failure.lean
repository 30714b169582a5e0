import MikoV2.Paper.Agreement

/-!
# The position writers under failure

Statements, event commits, the commits of other users of the connection and the read of `on_startup` may
raise. While the commits of the two position writers do not, a writer that returns `False` has changed
nothing and one that returns `True` has changed exactly its row. A position commit that raises leaves its
statement pending, and the next commit on the connection publishes it.

* `lastClose`, `closedTrue` : what the log says of an id, and of the closes that returned `True`;
* `Recorded` : the table and `closed_trades` are what the outcomes in the log say;
* `AllOrNothing` : the claim about a state; `allOrNothing_of_commits` : it holds along the runs in which the
  position commits do not raise and no accepted entry reuses an id.
-/

namespace MikoV2.Paper
open PaperMath Store Runs
open Py (Dict)

variable {env : Env} {s s' : World} {pos : PaperPosition} {symbol : String} {trade : PaperTradeResult}
  {exitFee : ℚ} {rows : Option ℕ}

/-! ## Reading the log -/

/-- What a close of `id` returned, for a record of one. -/
def closeOf (id : String) : PositionWrite → Option (Option ℕ)
  | .closed trade _ rows => if trade.positionId = id then some rows else none
  | .opened _ _ => none

/-- What the last close of `id` returned. -/
def lastClose (log : List PositionWrite) (id : String) : Option (Option ℕ) := (log.filterMap (closeOf id)).getLast?

/-- The trades whose close returned `True`. -/
def closedTrue (log : List PositionWrite) : List PaperTradeResult :=
  log.filterMap fun w => match w with
    | .closed trade _ (some _) => some trade
    | _ => none

theorem closedTrue_append (log : List PositionWrite) (w : PositionWrite) :
    closedTrue (log ++ [w]) = closedTrue log ++ closedTrue [w] := List.filterMap_append

theorem lastClose_append (log : List PositionWrite) (w : PositionWrite) (id : String) :
    lastClose (log ++ [w]) id = match closeOf id w with
      | some rows => some rows
      | none => lastClose log id := by
  unfold lastClose
  rw [List.filterMap_append]
  cases h : closeOf id w with
  | none => simp [h]
  | some rows => simp [h]

/-- A close that returned `False` and was not followed by one that returned `True` leaves `False` as the
last outcome. -/
theorem lastClose_of_failed {l₁ l₂ : List PositionWrite}
    (h : ∀ trade' exitFee' n, .closed trade' exitFee' (some n) ∈ l₂ → trade'.positionId ≠ trade.positionId) :
    lastClose (l₁ ++ .closed trade exitFee none :: l₂) trade.positionId = some none := by
  have hall : ∀ rows ∈ l₂.filterMap (closeOf trade.positionId), rows = none := by
    intro rows hrows
    obtain ⟨w, hw, hof⟩ := List.mem_filterMap.mp hrows
    cases w with
    | opened pos rows' => simp [closeOf] at hof
    | closed trade' exitFee' rows' =>
      simp only [closeOf, Option.ite_none_right_eq_some, Option.some.injEq] at hof
      obtain ⟨hid, rfl⟩ := hof
      cases rows' with
      | none => rfl
      | some n => exact absurd hid (h _ _ _ hw)
  unfold lastClose
  rw [List.filterMap_append, List.filterMap_cons_some (b := none) (by simp [closeOf]), List.getLast?_append]
  cases hlast : (none :: l₂.filterMap (closeOf trade.positionId)).getLast? with
  | none => simp at hlast
  | some rows =>
    rcases List.mem_cons.mp (List.mem_of_getLast? hlast) with rfl | hmem
    · rfl
    · rw [hall rows hmem]; rfl

/-! ## The log records the table -/

/-- The row carries the exit columns of the trade. -/
structure ExitOf (trade : PaperTradeResult) (r : PaperPositionRow) : Prop where
  positionId : r.positionId = trade.positionId
  status : r.status = .CLOSED
  exitPrice : r.exitPrice = some trade.exitPrice
  exitReason : r.exitReason = some trade.exitReason
  pnlNet : r.pnlNet = some trade.pnlNet

/-- Every row was inserted by a write that returned `True`; a close whose last attempt returned `False` left
the row `OPEN`; a close that returned `True` changed one row, to its trade; `closed_trades` are the last of
the trades whose close returned `True`. -/
structure Recorded (s : World) : Prop where
  opened : ∀ r ∈ s.conn.view.positions, ∃ n, .opened r.toPosition (some n) ∈ s.log
  failed : ∀ id, lastClose s.log id = some none → ∃ r ∈ openRows s.conn.view, r.positionId = id
  closed : ∀ trade exitFee n, .closed trade exitFee (some n) ∈ s.log →
    n = 1 ∧ ∃ r ∈ s.conn.view.positions, ExitOf trade r
  trades : s.mem.closedTrades <:+ closedTrue s.log

theorem Recorded.fresh (env : Env) : Recorded (fresh env) where
  opened := by simp [Paper.fresh, Sqlite.Conn.openDb]
  failed := by simp [Paper.fresh, lastClose]
  closed := by simp [Paper.fresh]
  trades := by simp [Paper.fresh, Manager.init]

theorem Recorded.congr (h : Recorded s) (hview : s'.conn.view.positions = s.conn.view.positions)
    (hlog : s'.log = s.log) (htr : s'.mem.closedTrades <:+ s.mem.closedTrades) : Recorded s' where
  opened := by rw [hview, hlog]; exact h.opened
  failed := by rw [openRows_congr hview, hlog]; exact h.failed
  closed := by rw [hview, hlog]; exact h.closed
  trades := by rw [hlog]; exact htr.trans h.trades

theorem Recorded.opening (h : Recorded s) (hco : ∀ n, env.faults n .commitOpen = false)
    (hspec : OpenSpec env pos s s' rows) (hnew : pos.positionId ∉ ids s.conn.view.positions) : Recorded s' := by
  have htable := hspec.table hco
  rw [insertPosition_fresh hnew] at htable
  have hlast : ∀ id, lastClose s'.log id = lastClose s.log id := fun id => by
    rw [hspec.log, lastClose_append]
    rfl
  have hview : ∀ r ∈ s.conn.view.positions, r ∈ s'.conn.view.positions := by
    intro r hr
    rcases htable with ⟨-, -, hv⟩ | ⟨-, -, hv⟩
    · rw [hv]; exact hr
    · rw [hv]; exact List.mem_append_left _ hr
  have hold : ∀ r ∈ s.conn.view.positions, ∃ n, .opened r.toPosition (some n) ∈ s'.log := by
    intro r hr
    obtain ⟨n, hn⟩ := h.opened r hr
    exact ⟨n, hspec.log ▸ List.mem_append_left _ hn⟩
  refine ⟨?_, ?_, ?_, ?_⟩
  · intro r hr
    rcases htable with ⟨-, -, hv⟩ | ⟨hrows, -, hv⟩
    · rw [hv] at hr
      exact hold r hr
    · rw [hv, List.mem_append, List.mem_singleton] at hr
      rcases hr with hr | rfl
      · exact hold r hr
      · refine ⟨1, ?_⟩
        rw [hspec.log, hrows]
        exact List.mem_append_right _ (List.mem_singleton_self _)
  · intro id hid
    rw [hlast] at hid
    obtain ⟨r, hr, hrid⟩ := h.failed id hid
    obtain ⟨hmem, hopen⟩ := mem_openRows.mp hr
    exact ⟨r, mem_openRows.mpr ⟨hview r hmem, hopen⟩, hrid⟩
  · intro trade exitFee n hmem
    rw [hspec.log, List.mem_append, List.mem_singleton] at hmem
    rcases hmem with hmem | hmem
    · obtain ⟨hn, r, hr, hex⟩ := h.closed trade exitFee n hmem
      exact ⟨hn, r, hview r hr, hex⟩
    · cases hmem
  · rw [hspec.closedTrades, hspec.log, closedTrue_append]
    exact (List.append_nil _).symm ▸ h.trades

/-- A close whose write changed nothing. -/
theorem Recorded.notClosed (h : Recorded s) (hspec : CloseSpec env trade exitFee symbol s s' none)
    (hv : s'.conn.view = s.conn.view) {r₀ : PaperPositionRow} (hr₀ : r₀ ∈ openRows s.conn.view)
    (hrid : r₀.positionId = trade.positionId) : Recorded s' := by
  refine ⟨?_, ?_, ?_, ?_⟩
  · intro r hr
    rw [hv] at hr
    obtain ⟨n, hn⟩ := h.opened r hr
    exact ⟨n, hspec.log ▸ List.mem_append_left _ hn⟩
  · intro id hlast
    rw [hspec.log, lastClose_append] at hlast
    rw [hv]
    by_cases hk : trade.positionId = id
    · exact ⟨r₀, hr₀, hrid.trans hk⟩
    · simp only [closeOf, hk, if_false] at hlast
      exact h.failed id hlast
  · intro trade' exitFee' n hmem
    rw [hspec.log, List.mem_append, List.mem_singleton] at hmem
    rw [hv]
    rcases hmem with hmem | hmem
    · exact h.closed _ _ _ hmem
    · cases hmem
  · rw [hspec.closedTrades, hspec.log, closedTrue_append]
    exact (List.append_nil _).symm ▸ h.trades

/-- A close whose write changed its row. -/
theorem Recorded.didClose (h : Recorded s) (hspec : CloseSpec env trade exitFee symbol s s' (some 1)) {now : ℤ}
    (hv : s'.conn.view = (updatePosition trade exitFee now s.conn.view).2) {r₀ : PaperPositionRow}
    (hr₀ : r₀ ∈ openRows s.conn.view) (hrid : r₀.positionId = trade.positionId) : Recorded s' := by
  refine ⟨?_, ?_, ?_, ?_⟩
  · intro r hr
    rw [hv] at hr
    rw [hspec.log]
    rcases Sqlite.mem_update.mp hr with ⟨hr, -⟩ | ⟨r₁, hr₁, -, rfl⟩
    · obtain ⟨n, hn⟩ := h.opened r hr
      exact ⟨n, List.mem_append_left _ hn⟩
    · obtain ⟨n, hn⟩ := h.opened r₁ hr₁
      exact ⟨n, List.mem_append_left _ hn⟩
  · intro id hlast
    rw [hspec.log, lastClose_append] at hlast
    by_cases hk : trade.positionId = id
    · simp only [closeOf, hk, if_true] at hlast
      cases hlast
    · simp only [closeOf, hk, if_false] at hlast
      obtain ⟨r, hr, hri⟩ := h.failed id hlast
      refine ⟨r, ?_, hri⟩
      rw [hv, openRows_updatePosition, List.mem_filter, decide_eq_true_eq]
      exact ⟨hr, fun he => hk (he.symm.trans hri)⟩
  · intro trade' exitFee' n hmem
    rw [hspec.log, List.mem_append, List.mem_singleton] at hmem
    rcases hmem with hmem | hmem
    · obtain ⟨hn, r, hr, hex⟩ := h.closed _ _ _ hmem
      have hclosed : r.isOpen = false := by rw [PaperPositionRow.isOpen, hex.status]; rfl
      refine ⟨hn, r, ?_, hex⟩
      rw [hv]
      exact Sqlite.mem_update.mpr (Or.inl ⟨hr, by simp [hclosed]⟩)
    · cases hmem
      obtain ⟨hr₀mem, hr₀open⟩ := mem_openRows.mp hr₀
      refine ⟨rfl, closeRow trade exitFee now r₀, ?_, hrid, rfl, rfl, rfl, rfl⟩
      rw [hv]
      exact Sqlite.mem_update.mpr (Or.inr ⟨r₀, hr₀mem, by simp [hrid, hr₀open], rfl⟩)
  · rw [hspec.closedTrades, hspec.log, closedTrue_append]
    obtain ⟨pre, hpre⟩ := h.trades
    exact ⟨pre, by rw [Option.isSome_some, if_pos rfl, ← List.append_assoc, hpre]; rfl⟩

theorem Recorded.closing (h : Recorded s) (ht : TableOk s) (hb : Backed s)
    (hco : ∀ n, env.faults n .commitClose = false) (hspec : CloseSpec env trade exitFee symbol s s' rows)
    (hget : s.mem.positions.get? symbol = some pos) (hid : trade.positionId = pos.positionId) : Recorded s' := by
  obtain ⟨-, r₀, hr₀, hrpos⟩ := hb.get hget
  have hrid : r₀.positionId = trade.positionId := (congrArg PaperPosition.positionId hrpos).trans hid.symm
  rcases hspec.table hco with ⟨rfl, -, hv⟩ | ⟨hrows, -, hv⟩
  · exact h.notClosed hspec hv hr₀ hrid
  · rcases hb.close_rows ht hco hspec hget hid with rfl | rfl
    · cases hrows
    · exact h.didClose hspec hv hr₀ hrid

theorem Recorded.move (hopen : ∀ n, env.faults n .commitOpen = false) (hclose : ∀ n, env.faults n .commitClose = false)
    (ht : TableOk s) (hb : Backed s) (h : Recorded s)
    (hm : Move env (fun table pos => pos.positionId ∉ ids table) True s s') : Recorded s' := by
  cases hm with
  | quiet hq => exact h.congr hq.view hq.log (by rw [hq.closedTrades])
  | funded fundingPaid hget => exact h.congr rfl rfl (List.suffix_refl _)
  | opened hfree hfund hnew =>
    obtain ⟨rows, -, hspec⟩ := settleOpen_spec (Prod.mk.eta (p := settleOpen env _ s)).symm
    exact h.opening hopen hspec hnew
  | closed tsMs exitPrice reason hget =>
    obtain ⟨rows, -, hspec⟩ := settleClose_spec (Prod.mk.eta (p := settleClose env _ _ _ s)).symm
    exact h.closing ht hb hclose hspec hget rfl
  | loaded =>
    obtain ⟨hview, -, hlog, htr, -⟩ := onStartup_cases env s
    exact h.congr (by rw [hview]) hlog (by rw [htr])
  | restarted =>
    obtain ⟨-, -, hlog, htr, -⟩ := onStartup_cases env (crash env s)
    refine h.congr (ht.restart_table env).1 hlog ?_
    rw [restart, htr]
    exact List.nil_suffix

/-! ## The claim along runs -/

/-- What the outcomes so far promise of the committed table, (a) for the openings that returned `False`,
(b) for the closes that returned `False` and were not followed by one that returned `True`, (c) for the
closes that returned `True`. -/
structure AllOrNothing (s : World) : Prop where
  opened : ∀ r ∈ s.conn.disk.positions, ∃ n, .opened r.toPosition (some n) ∈ s.log
  failedClose : ∀ l₁ trade exitFee l₂, s.log = l₁ ++ .closed trade exitFee none :: l₂ →
    (∀ trade' exitFee' n, .closed trade' exitFee' (some n) ∈ l₂ → trade'.positionId ≠ trade.positionId) →
    ∃ r ∈ openRows s.conn.disk, r.positionId = trade.positionId
  closed : ∀ trade exitFee n, .closed trade exitFee (some n) ∈ s.log →
    n = 1 ∧ ∃ r ∈ s.conn.disk.positions, ExitOf trade r
  trades : s.mem.closedTrades <:+ closedTrue s.log

theorem Recorded.allOrNothing (h : Recorded s) (ht : TableOk s) : AllOrNothing s := by
  have hset : s.conn.view.positions = s.conn.disk.positions := ht.settled
  refine ⟨hset ▸ h.opened, ?_, hset ▸ h.closed, h.trades⟩
  intro l₁ trade exitFee l₂ hlog hno
  rw [← openRows_congr hset]
  exact h.failed _ (hlog ▸ lastClose_of_failed hno)

/-- **The position writers are all or nothing** along every run in which their commits do not raise and no
accepted entry reuses an id, whatever else raises. -/
theorem allOrNothing_of_commits (env : Env) (hopen : ∀ n, env.faults n .commitOpen = false)
    (hclose : ∀ n, env.faults n .commitClose = false) (calls : List Action)
    (hnew : Guarded (NewId env) (step env) (fresh env) calls) :
    Always AllOrNothing (step env) (fresh env) calls := by
  have hI : Always (fun s => TableOk s ∧ Backed s ∧ Recorded s) (step env) (fresh env) calls := by
    refine always_of_guarded ⟨.fresh env, .fresh env, .fresh env⟩ (fun s a h ha => ?_) hnew
    refine Moves.keeps (I := fun s => TableOk s ∧ Backed s ∧ Recorded s) (fun s s' h hm => ?_) ha.moves h
    obtain ⟨ht, hb, hr⟩ := h
    exact ⟨ht.move hopen hclose hm, hb.move hopen hclose ht hm, hr.move hopen hclose ht hb hm⟩
  exact hI.mono fun s h => h.2.2.allOrNothing h.1

/-- The event writes and the first close raise; the commits of the position writers do not. -/
def faultyEnv : Env := ⟨{}, fun n call => call = .insertEvent || (call = .updatePosition && n < 5), fun _ => 0⟩

/-- An entry, a close that fails, a restart and the close again. -/
def retriedClose : List Action :=
  warmUp ++ [.onEntry "BTC_USDT" .LONG 80000 (some 100) 0] ++
    [.finalize 85000 fun _ => none, .restart, .finalize 90000 fun _ => none]

theorem allOrNothing_retriedClose : Always AllOrNothing (step faultyEnv) (fresh faultyEnv) retriedClose := by
  refine allOrNothing_of_commits faultyEnv (fun _ => by simp [faultyEnv]) (fun _ => by simp [faultyEnv]) _ ?_
  refine guarded_append.mpr ⟨guarded_append.mpr ⟨guarded_of_forall fun a ha s => ?_, ?_⟩,
    guarded_of_forall fun a ha s => ?_⟩
  · obtain ⟨k, -, rfl⟩ := List.mem_map.mp ha
    trivial
  · refine guarded_cons.mpr ⟨fun _ => ?_, guarded_nil⟩
    decide +kernel
  · simp only [List.mem_cons, List.not_mem_nil, or_false] at ha
    rcases ha with rfl | rfl | rfl <;> trivial

/-- The commit of every opening raises. -/
def commitFails : Env := ⟨{}, fun _ call => call = .commitOpen, fun _ => 0⟩

/-- The writer of the first entry returns `False`; the event of the second entry, refused, is committed on
the same connection. -/
def publishedByEvent : List Action :=
  warmUp ++ [.onEntry "BTC_USDT" .LONG 80000 (some 100) 0, .onEntry "ETH_USDT" .LONG 80000 (some 100) 0]

/-- The writer returned `False`. -/
def PositionWrite.failed : PositionWrite → Bool
  | .opened _ rows => rows.isNone
  | .closed _ _ rows => rows.isNone

theorem not_allOrNothing_publishedByEvent :
    ¬ Always AllOrNothing (step commitFails) (fresh commitFails) publishedByEvent := by
  intro h
  have hrows : (run (step commitFails) (fresh commitFails) publishedByEvent).conn.disk.positions.length = 1 := by
    decide +kernel
  have hlog : ∀ w ∈ (run (step commitFails) (fresh commitFails) publishedByEvent).log, ∀ pos n,
      w ≠ .opened pos (some n) := by
    have hall : (run (step commitFails) (fresh commitFails) publishedByEvent).log.all PositionWrite.failed = true := by
      decide +kernel
    rintro w hw pos n rfl
    exact absurd (List.all_eq_true.mp hall _ hw) (by simp [PositionWrite.failed])
  obtain ⟨r, hr⟩ := List.exists_mem_of_length_pos (hrows ▸ Nat.one_pos)
  obtain ⟨n, hn⟩ := h.last.opened r hr
  exact hlog _ hn _ _ rfl

end MikoV2.Paper
