import MikoV2.Paper.Table

/-!
# Memory and the rows of the table

While the commits of the position writers do not raise:

* `TableOk` : nothing is pending in the table, its ids are distinct, funding is never written;
* `Covered` : every `OPEN` row is the position its symbol has in memory. This needs the reads of `on_startup`;
* `Backed` : every position in memory has its `OPEN` row. This needs entries whose id is new.

Each is kept by the moves, so by every call.
-/

namespace MikoV2.Paper
open PaperMath Store
open Py (Dict)

variable {env : Env} {s s' : World} {pos : PaperPosition} {symbol : String} {trade : PaperTradeResult}
  {exitFee : ℚ} {rows : Option ℕ}

/-- A position as the table has it: `funding_paid` is written once, at the entry, as zero. -/
def unfunded (pos : PaperPosition) : PaperPosition := { pos with fundingPaid := 0 }

theorem openRows_congr {d e : Db} (h : d.positions = e.positions) : openRows d = openRows e := by
  rw [openRows, h, openRows]

/-! ## The table -/

structure TableOk (s : World) : Prop where
  settled : s.conn.Settled Db.positions
  distinct : (ids s.conn.view.positions).Nodup
  unfunded : ∀ r ∈ s.conn.view.positions, r.fundingPaid = 0

theorem TableOk.fresh (env : Env) : TableOk (fresh env) where
  settled := rfl
  distinct := List.nodup_nil
  unfunded := by simp [Paper.fresh, Sqlite.Conn.openDb]

theorem TableOk.congr (h : TableOk s) (hview : s'.conn.view.positions = s.conn.view.positions)
    (hdisk : s'.conn.disk.positions = s.conn.disk.positions) : TableOk s' where
  settled := by rw [Sqlite.Conn.Settled, hview, hdisk]; exact h.settled
  distinct := by rw [hview]; exact h.distinct
  unfunded := by rw [hview]; exact h.unfunded

theorem Quiet.disk_eq (hq : Quiet s s') (h : s.conn.Settled Db.positions) :
    s'.conn.disk.positions = s.conn.disk.positions :=
  hq.disk.elim id fun e => e.trans h

/-- An opening changes the table by its insert, or not at all. -/
theorem OpenSpec.table (hspec : OpenSpec env pos s s' rows) (hco : ∀ n, env.faults n .commitOpen = false) :
    (rows = none ∧ s'.conn.disk = s.conn.disk ∧ s'.conn.view = s.conn.view) ∨
      (rows = some (insertPosition env pos (env.wallMs s.conn.issued) s.conn.view).1 ∧
        s'.conn.disk = s'.conn.view ∧
        s'.conn.view = (insertPosition env pos (env.wallMs s.conn.issued) s.conn.view).2) := by
  rcases Sqlite.write_atomic hco hspec.write with h | ⟨h, hd, hv⟩
  · exact Or.inl h
  · exact Or.inr ⟨h, hd.trans hv.symm, hv⟩

/-- A close changes the table by its update, or not at all. -/
theorem CloseSpec.table (hspec : CloseSpec env trade exitFee symbol s s' rows)
    (hco : ∀ n, env.faults n .commitClose = false) :
    (rows = none ∧ s'.conn.disk = s.conn.disk ∧ s'.conn.view = s.conn.view) ∨
      (rows = some (updatePosition trade exitFee (env.wallMs s.conn.issued) s.conn.view).1 ∧
        s'.conn.disk = s'.conn.view ∧
        s'.conn.view = (updatePosition trade exitFee (env.wallMs s.conn.issued) s.conn.view).2) := by
  rcases Sqlite.write_atomic hco hspec.write with h | ⟨h, hd, hv⟩
  · exact Or.inl h
  · exact Or.inr ⟨h, hd.trans hv.symm, hv⟩

theorem TableOk.opened (h : TableOk s) (hco : ∀ n, env.faults n .commitOpen = false)
    (hspec : OpenSpec env pos s s' rows) (hfund : pos.fundingPaid = 0) : TableOk s' := by
  rcases hspec.table hco with ⟨-, hd, hv⟩ | ⟨-, hd, hv⟩
  · exact h.congr (by rw [hv]) (by rw [hd])
  · refine ⟨by rw [Sqlite.Conn.Settled, hd], by rw [hv]; exact ids_insert _ _ _ h.distinct, ?_⟩
    intro r hr
    rw [hv] at hr
    rcases insertPosition_cases env pos (env.wallMs s.conn.issued) s.conn.view with he | ⟨-, he⟩
    · exact h.unfunded r (he ▸ hr)
    · rw [he, List.mem_append, List.mem_singleton] at hr
      rcases hr with hr | rfl
      · exact h.unfunded r hr
      · exact hfund

theorem TableOk.closed (h : TableOk s) (hco : ∀ n, env.faults n .commitClose = false)
    (hspec : CloseSpec env trade exitFee symbol s s' rows) : TableOk s' := by
  rcases hspec.table hco with ⟨-, hd, hv⟩ | ⟨-, hd, hv⟩
  · exact h.congr (by rw [hv]) (by rw [hd])
  · refine ⟨by rw [Sqlite.Conn.Settled, hd], by rw [hv, ids_update]; exact h.distinct, ?_⟩
    intro r hr
    rw [hv] at hr
    rcases Sqlite.mem_update.mp hr with ⟨hr, -⟩ | ⟨r₀, hr₀, -, rfl⟩
    · exact h.unfunded r hr
    · exact h.unfunded r₀ hr₀

/-- `on_startup` reads the `OPEN` rows or, when the read raises, leaves `positions` as they are. -/
theorem onStartup_cases (env : Env) (s : World) :
    (onStartup env s).2.conn.view = s.conn.view ∧ (onStartup env s).2.conn.disk = s.conn.disk ∧
      (onStartup env s).2.log = s.log ∧ (onStartup env s).2.mem.closedTrades = s.mem.closedTrades ∧
      (onStartup env s).2.mem.realizedEquity = s.mem.realizedEquity ∧
      ((env.faults s.conn.issued .selectOpen = true ∧ (onStartup env s).2.mem.positions = s.mem.positions) ∨
        (onStartup env s).2.mem.positions =
          s.mem.positions.update ((openRows s.conn.view).map fun r => (r.symbol, r.toPosition))) := by
  unfold onStartup
  rcases hx : s.conn.execute env.faults .selectOpen (fun db => (openRows db, db)) with ⟨r, c⟩
  rcases Sqlite.execute_cases hx with ⟨rfl, hf, hd, hv⟩ | ⟨rfl, -, hd, hv⟩
  · exact ⟨hv, hd, rfl, rfl, rfl, Or.inl ⟨hf, rfl⟩⟩
  · exact ⟨hv, hd, rfl, rfl, rfl, Or.inr rfl⟩

/-- The table of a restarted manager. -/
theorem TableOk.restart_table (h : TableOk s) (env : Env) :
    (restart env s).conn.view.positions = s.conn.view.positions ∧
      (restart env s).conn.disk.positions = s.conn.disk.positions := by
  obtain ⟨hview, hdisk, -⟩ := onStartup_cases env (crash env s)
  refine ⟨?_, ?_⟩
  · rw [restart, hview]
    exact h.settled.symm
  · rw [restart, hdisk]
    rfl

theorem TableOk.move {allow : List PaperPositionRow → PaperPosition → Prop} {restarts : Prop}
    (hopen : ∀ n, env.faults n .commitOpen = false) (hclose : ∀ n, env.faults n .commitClose = false)
    (h : TableOk s) (hm : Move env allow restarts s s') : TableOk s' := by
  cases hm with
  | quiet hq => exact h.congr hq.view (hq.disk_eq h.settled)
  | funded fundingPaid hget => exact h.congr rfl rfl
  | opened hfree hfund hnew =>
    obtain ⟨rows, -, hspec⟩ := settleOpen_spec (Prod.mk.eta (p := settleOpen env _ s)).symm
    exact h.opened hopen hspec hfund
  | closed tsMs exitPrice reason hget =>
    obtain ⟨rows, -, hspec⟩ := settleClose_spec (Prod.mk.eta (p := settleClose env _ _ _ s)).symm
    exact h.closed hclose hspec
  | loaded =>
    obtain ⟨hview, hdisk, -⟩ := onStartup_cases env s
    exact h.congr (by rw [hview]) (by rw [hdisk])
  | restarted =>
    obtain ⟨hview, hdisk⟩ := h.restart_table env
    exact h.congr hview hdisk

/-! ## Every `OPEN` row is a position in memory -/

def Covered (s : World) : Prop :=
  ∀ r ∈ openRows s.conn.view, ∃ pos, s.mem.positions.get? r.symbol = some pos ∧ r.toPosition = unfunded pos

theorem Covered.fresh (env : Env) : Covered (fresh env) := by
  simp [Covered, Paper.fresh, Sqlite.Conn.openDb, openRows]

theorem Covered.congr (h : Covered s) (hview : s'.conn.view.positions = s.conn.view.positions)
    (hpos : s'.mem.positions = s.mem.positions) : Covered s' := by
  rw [Covered, openRows_congr hview, hpos]
  exact h

/-- Covered rows with the same symbol are the same row. -/
theorem Covered.symbol_inj (h : Covered s) (ht : TableOk s) {r r' : PaperPositionRow}
    (hr : r ∈ openRows s.conn.view) (hr' : r' ∈ openRows s.conn.view) (hs : r.symbol = r'.symbol) : r = r' := by
  obtain ⟨pos, hget, hpos⟩ := h r hr
  obtain ⟨pos', hget', hpos'⟩ := h r' hr'
  rw [hs, hget'] at hget
  cases hget
  have hid : r.positionId = r'.positionId := congrArg PaperPosition.positionId (hpos.trans hpos'.symm)
  exact List.inj_on_of_nodup_map ht.distinct (mem_openRows.mp hr).1 (mem_openRows.mp hr').1 hid

theorem Covered.nodup_symbols (h : Covered s) (ht : TableOk s) :
    ((openRows s.conn.view).map fun r => (r.symbol, r.toPosition)).map Prod.fst |>.Nodup := by
  rw [List.map_map]
  refine List.Nodup.map_on (fun r hr r' hr' hs => h.symbol_inj ht hr hr' hs) ?_
  exact (List.Nodup.of_map _ ht.distinct).sublist List.filter_sublist

theorem Covered.funded (h : Covered s) (hget : s.mem.positions.get? symbol = some pos) (fundingPaid : ℚ) :
    Covered { s with mem.positions := s.mem.positions.set symbol { pos with fundingPaid } } := by
  intro r hr
  obtain ⟨p, hp, hrp⟩ := h r hr
  by_cases hk : r.symbol = symbol
  · rw [hk, hget] at hp
    cases hp
    exact ⟨{ pos with fundingPaid }, by rw [hk, Dict.get?_set, if_pos rfl], hrp⟩
  · exact ⟨p, by rw [Dict.get?_set, if_neg hk, hp], hrp⟩

theorem Covered.opened (h : Covered s) (hco : ∀ n, env.faults n .commitOpen = false)
    (hspec : OpenSpec env pos s s' rows) (hfree : s.mem.positions.get? pos.symbol = none)
    (hfund : pos.fundingPaid = 0) : Covered s' := by
  have hkeep : ∀ r ∈ openRows s.conn.view, ∃ p, s'.mem.positions.get? r.symbol = some p ∧ r.toPosition = unfunded p := by
    intro r hr
    obtain ⟨p, hp, hrp⟩ := h r hr
    refine ⟨p, ?_, hrp⟩
    rw [hspec.positions]
    split
    · rw [Dict.get?_set, if_neg ?_, hp]
      intro hk
      rw [hk, hfree] at hp
      cases hp
    · exact hp
  intro r hr
  rcases hspec.table hco with ⟨-, -, hv⟩ | ⟨rfl, -, hv⟩
  · rw [hv] at hr
    exact hkeep r hr
  · rcases insertPosition_cases env pos (env.wallMs s.conn.issued) s.conn.view with he | ⟨hnew, he⟩
    · rw [openRows_congr (hv ▸ he)] at hr
      exact hkeep r hr
    · rw [hv, insertPosition_fresh hnew, openRows_append _ openRow_isOpen, List.mem_append,
        List.mem_singleton] at hr
      rcases hr with hr | rfl
      · exact hkeep r hr
      · refine ⟨pos, ?_, ?_⟩
        · rw [hspec.positions, Option.isSome_some, if_pos rfl]
          exact (Dict.get?_set ..).trans (if_pos rfl)
        · rw [openRow_toPosition, unfunded, ← hfund]

theorem Covered.closed (h : Covered s) (hco : ∀ n, env.faults n .commitClose = false)
    (hspec : CloseSpec env trade exitFee symbol s s' rows) (hget : s.mem.positions.get? symbol = some pos)
    (hid : trade.positionId = pos.positionId) : Covered s' := by
  rcases hspec.table hco with ⟨rfl, -, hv⟩ | ⟨rfl, -, hv⟩
  · exact h.congr (by rw [hv]) hspec.positions
  · intro r hr
    rw [hv, openRows_updatePosition, List.mem_filter, decide_eq_true_eq, hid] at hr
    obtain ⟨p, hp, hrp⟩ := h r hr.1
    refine ⟨p, ?_, hrp⟩
    rw [hspec.positions, Option.isSome_some, if_pos rfl, Dict.get?_erase, if_neg ?_, hp]
    intro hk
    rw [hk, hget] at hp
    cases hp
    exact hr.2 (congrArg PaperPosition.positionId hrp)

/-- Loading all `OPEN` rows covers them, whatever was in memory. -/
theorem Covered.load (h : Covered s) (ht : TableOk s) {d : Dict String PaperPosition}
    (hview : s'.conn.view.positions = s.conn.view.positions)
    (hpos : s'.mem.positions = d.update ((openRows s.conn.view).map fun r => (r.symbol, r.toPosition))) :
    Covered s' := by
  intro r hr
  rw [openRows_congr hview] at hr
  refine ⟨r.toPosition, ?_, ?_⟩
  · rw [hpos]
    exact Dict.get?_update_of_mem _ _ (h.nodup_symbols ht) (List.mem_map.mpr ⟨r, hr, rfl⟩)
  · rw [unfunded, show (0 : ℚ) = r.toPosition.fundingPaid from (ht.unfunded r (mem_openRows.mp hr).1).symm]

theorem Covered.move {allow : List PaperPositionRow → PaperPosition → Prop} {restarts : Prop}
    (hopen : ∀ n, env.faults n .commitOpen = false) (hclose : ∀ n, env.faults n .commitClose = false)
    (hselect : ∀ n, env.faults n .selectOpen = false) (ht : TableOk s) (h : Covered s) (hm : Move env allow restarts s s') :
    Covered s' := by
  cases hm with
  | quiet hq => exact h.congr hq.view hq.positions
  | funded fundingPaid hget => exact h.funded hget fundingPaid
  | opened hfree hfund hnew =>
    obtain ⟨rows, -, hspec⟩ := settleOpen_spec (Prod.mk.eta (p := settleOpen env _ s)).symm
    exact h.opened hopen hspec hfree hfund
  | closed tsMs exitPrice reason hget =>
    obtain ⟨rows, -, hspec⟩ := settleClose_spec (Prod.mk.eta (p := settleClose env _ _ _ s)).symm
    exact h.closed hclose hspec hget rfl
  | loaded =>
    obtain ⟨hview, -, -, -, -, ⟨hraise, -⟩ | hpos⟩ := onStartup_cases env s
    · rw [hselect] at hraise
      cases hraise
    · exact h.load ht (by rw [hview]) hpos
  | restarted =>
    obtain ⟨-, -, -, -, -, ⟨hraise, -⟩ | hpos⟩ := onStartup_cases env (crash env s)
    · rw [hselect] at hraise
      cases hraise
    · rw [openRows_congr (show (crash env s).conn.view.positions = s.conn.view.positions from
        ht.settled.symm)] at hpos
      exact h.load ht (ht.restart_table env).1 hpos

/-! ## Every position in memory has its `OPEN` row -/

def Backed (s : World) : Prop :=
  ∀ e ∈ s.mem.positions.items, e.1 = e.2.symbol ∧ ∃ r ∈ openRows s.conn.view, r.toPosition = unfunded e.2

theorem Backed.fresh (env : Env) : Backed (fresh env) := by
  simp [Backed, Paper.fresh, Manager.init]

theorem Backed.get (h : Backed s) (hget : s.mem.positions.get? symbol = some pos) :
    symbol = pos.symbol ∧ ∃ r ∈ openRows s.conn.view, r.toPosition = unfunded pos :=
  h (symbol, pos) (Dict.mem_items.mpr hget)

/-- Positions with the same id are the same entry. -/
theorem Backed.id_inj (h : Backed s) (ht : TableOk s) {e e' : String × PaperPosition}
    (he : e ∈ s.mem.positions.items) (he' : e' ∈ s.mem.positions.items)
    (hid : e.2.positionId = e'.2.positionId) : e = e' := by
  obtain ⟨hsym, r, hr, hrpos⟩ := h e he
  obtain ⟨hsym', r', hr', hrpos'⟩ := h e' he'
  have hrid : r.positionId = r'.positionId :=
    (congrArg PaperPosition.positionId hrpos).trans (hid.trans (congrArg PaperPosition.positionId hrpos').symm)
  have hrr : r = r' := List.inj_on_of_nodup_map ht.distinct (mem_openRows.mp hr).1 (mem_openRows.mp hr').1 hrid
  subst hrr
  have hs : r.toPosition.symbol = e.2.symbol := by rw [hrpos]; rfl
  have hs' : r.toPosition.symbol = e'.2.symbol := by rw [hrpos']; rfl
  have hk : e.1 = e'.1 := by rw [hsym, hsym', ← hs, hs']
  exact List.inj_on_of_nodup_map s.mem.positions.nodup he he' hk

theorem Backed.congr (h : Backed s) (hview : s'.conn.view.positions = s.conn.view.positions)
    (hpos : s'.mem.positions = s.mem.positions) : Backed s' := by
  rw [Backed, openRows_congr hview, hpos]
  exact h

theorem Backed.funded (h : Backed s) (hget : s.mem.positions.get? symbol = some pos) (fundingPaid : ℚ) :
    Backed { s with mem.positions := s.mem.positions.set symbol { pos with fundingPaid } } := by
  intro e he
  have hget' := Dict.mem_items.mp he
  rw [Dict.get?_set] at hget'
  split at hget'
  · rename_i hk
    obtain ⟨hsym, r, hr, hrpos⟩ := h.get hget
    rw [hk, ← Option.some.inj hget']
    exact ⟨hsym, r, hr, hrpos⟩
  · exact h e (Dict.mem_items.mpr hget')

theorem Backed.opened (h : Backed s) (hco : ∀ n, env.faults n .commitOpen = false)
    (hspec : OpenSpec env pos s s' rows) (hfund : pos.fundingPaid = 0)
    (hnew : pos.positionId ∉ ids s.conn.view.positions) : Backed s' := by
  rcases hspec.table hco with ⟨rfl, -, hv⟩ | ⟨rfl, -, hv⟩
  · exact h.congr (by rw [hv]) hspec.positions
  · intro e he
    have hget := Dict.mem_items.mp he
    rw [hspec.positions, Option.isSome_some, if_pos rfl, Dict.get?_set] at hget
    rw [hv, insertPosition_fresh hnew, openRows_append _ openRow_isOpen]
    split at hget
    · rename_i hk
      rw [hk, ← Option.some.inj hget]
      refine ⟨rfl, _, List.mem_append_right _ (List.mem_singleton_self _), ?_⟩
      rw [openRow_toPosition, unfunded, ← hfund]
    · obtain ⟨hsym, r, hr, hrpos⟩ := h e (Dict.mem_items.mpr hget)
      exact ⟨hsym, r, List.mem_append_left _ hr, hrpos⟩

/-- The close of a backed position changes one row. -/
theorem Backed.close_rows (h : Backed s) (ht : TableOk s) (hco : ∀ n, env.faults n .commitClose = false)
    (hspec : CloseSpec env trade exitFee symbol s s' rows) (hget : s.mem.positions.get? symbol = some pos)
    (hid : trade.positionId = pos.positionId) : rows = none ∨ rows = some 1 := by
  obtain ⟨-, r, hr, hrpos⟩ := h.get hget
  have hone := updatePosition_rows exitFee (env.wallMs s.conn.issued) ht.distinct hr
    ((congrArg PaperPosition.positionId hrpos).trans hid.symm)
  rcases hspec.table hco with ⟨hrows, -⟩ | ⟨hrows, -⟩
  · exact Or.inl hrows
  · exact Or.inr (hrows.trans (congrArg some hone))

theorem Backed.closed (h : Backed s) (ht : TableOk s) (hco : ∀ n, env.faults n .commitClose = false)
    (hspec : CloseSpec env trade exitFee symbol s s' rows) (hget : s.mem.positions.get? symbol = some pos)
    (hid : trade.positionId = pos.positionId) : Backed s' := by
  rcases hspec.table hco with ⟨rfl, -, hv⟩ | ⟨rfl, -, hv⟩
  · exact h.congr (by rw [hv]) hspec.positions
  · intro e he
    rw [hspec.positions, Option.isSome_some, if_pos rfl, Dict.items_erase, List.mem_filter,
      decide_eq_true_eq] at he
    obtain ⟨hsym, r, hr, hrpos⟩ := h e he.1
    refine ⟨hsym, r, ?_, hrpos⟩
    rw [hv, openRows_updatePosition, List.mem_filter, decide_eq_true_eq, hid,
      show r.positionId = e.2.positionId from congrArg PaperPosition.positionId hrpos]
    refine ⟨hr, fun heq => he.2 ?_⟩
    rw [h.id_inj ht he.1 (Dict.mem_items.mpr hget) heq]

/-- Loading `OPEN` rows over backed positions, or not loading them. -/
theorem Backed.load (h : Backed s) (ht : TableOk s) {d : Dict String PaperPosition}
    (hd : ∀ e ∈ d.items, e ∈ s.mem.positions.items) (hview : s'.conn.view.positions = s.conn.view.positions)
    (hpos : s'.mem.positions = d ∨
      s'.mem.positions = d.update ((openRows s.conn.view).map fun r => (r.symbol, r.toPosition))) : Backed s' := by
  intro e he
  rw [openRows_congr hview]
  rcases hpos with hpos | hpos
  · exact h e (hd e (hpos ▸ he))
  · rw [hpos] at he
    rcases Dict.mem_items_update _ _ he with he | he
    · exact h e (hd e he)
    · obtain ⟨r, hr, rfl⟩ := List.mem_map.mp he
      refine ⟨rfl, r, hr, ?_⟩
      rw [unfunded, show (0 : ℚ) = r.toPosition.fundingPaid from (ht.unfunded r (mem_openRows.mp hr).1).symm]

theorem Backed.move (hopen : ∀ n, env.faults n .commitOpen = false) (hclose : ∀ n, env.faults n .commitClose = false)
    (ht : TableOk s) (h : Backed s) (hm : Move env (fun table pos => pos.positionId ∉ ids table) True s s') : Backed s' := by
  cases hm with
  | quiet hq => exact h.congr hq.view hq.positions
  | funded fundingPaid hget => exact h.funded hget fundingPaid
  | opened hfree hfund hnew =>
    obtain ⟨rows, -, hspec⟩ := settleOpen_spec (Prod.mk.eta (p := settleOpen env _ s)).symm
    exact h.opened hopen hspec hfund hnew
  | closed tsMs exitPrice reason hget =>
    obtain ⟨rows, -, hspec⟩ := settleClose_spec (Prod.mk.eta (p := settleClose env _ _ _ s)).symm
    exact h.closed ht hclose hspec hget rfl
  | loaded =>
    obtain ⟨hview, -, -, -, -, hpos⟩ := onStartup_cases env s
    exact h.load ht (fun e he => he) (by rw [hview]) (hpos.imp And.right id)
  | restarted =>
    obtain ⟨-, -, -, -, -, hpos⟩ := onStartup_cases env (crash env s)
    rw [openRows_congr (show (crash env s).conn.view.positions = s.conn.view.positions from
      ht.settled.symm)] at hpos
    exact h.load ht (d := .empty) (by simp) (ht.restart_table env).1 (hpos.imp And.right id)

/-! ## New ids -/

/-- `on_entry` passes every check in this state. -/
def Accepts (env : Env) (m : Manager) (symbol : String) (direction : Direction) (signalTsMs : ℤ)
    (lastPrice : Option ℚ) (monoMs : ℤ) : Prop :=
  ∃ pos, entryDecision env m symbol direction signalTsMs lastPrice monoMs = .ok pos

/-- An entry that passes every check finds no row with its id in the table. -/
def NewId (env : Env) (s : World) : Action → Prop
  | .onEntry symbol direction signalTsMs lastPrice monoMs =>
    Accepts env s.mem symbol direction signalTsMs lastPrice monoMs →
      positionId symbol signalTsMs ∉ ids s.conn.view.positions
  | _ => True

theorem NewId.moves {a : Action} (hnew : NewId env s a) :
    Moves env (fun table pos => pos.positionId ∉ ids table) True s (step env s a) := by
  refine step_moves (fun symbol direction signalTsMs lastPrice monoMs pos ha hdec => ?_) fun _ => trivial
  subst ha
  rw [(entryDecision_ok hdec).2.1]
  exact hnew ⟨pos, hdec⟩

/-- Without a condition on ids, every call is a sequence of moves. -/
theorem step_moves_any (env : Env) (s : World) (a : Action) : Moves env (fun _ _ => True) True s (step env s a) :=
  step_moves (fun _ _ _ _ _ _ _ _ => trivial) fun _ => trivial

end MikoV2.Paper
