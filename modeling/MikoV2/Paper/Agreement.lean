import Mathlib.Data.List.Perm.Basic
import MikoV2.Lib.Runs
import MikoV2.Paper.Rows

/-!
# The `OPEN` rows and the positions in memory

With no call raising, the `OPEN` rows are the positions in memory. What breaks this is an accepted entry
whose id is already in the table: the `INSERT OR IGNORE` is ignored, the writer returns `True`, and memory
holds a position no row backs.

* `Synced` : the invariant; `Synced.move` : the moves keep it while ids are new;
* `Agrees`, `StepAgrees` : the agreement after a call, and what the call itself must have done;
* `stepAgrees_iff_newIds` : every call of a run agrees exactly when no accepted entry reuses an id.
-/

namespace MikoV2.Paper
open PaperMath Store Runs
open Py (Dict)

variable {env : Env} {s s' : World} {pos : PaperPosition} {symbol : String}

/-- Rows and positions back each other, and every close so far changed one row. -/
structure Synced (s : World) : Prop where
  table : TableOk s
  covered : Covered s
  backed : Backed s
  closes : ∀ trade exitFee rows, .closed trade exitFee rows ∈ s.log → rows = some 1

theorem Synced.fresh (env : Env) : Synced (fresh env) :=
  ⟨.fresh env, .fresh env, .fresh env, by simp [Paper.fresh]⟩

/-- With no call raising, every move keeps the invariant if ids are not reused. -/
theorem Synced.move (hf : ∀ n t, env.faults n t = false) (h : Synced s)
    (hm : Move env (fun table pos => pos.positionId ∉ ids table) True s s') : Synced s' := by
  refine ⟨h.table.move (hf · _) (hf · _) hm, h.covered.move (hf · _) (hf · _) (hf · _) h.table hm,
    h.backed.move (hf · _) (hf · _) h.table hm, ?_⟩
  cases hm with
  | quiet hq => rw [hq.log]; exact h.closes
  | funded fundingPaid hget => exact h.closes
  | opened hfree hfund hnew =>
    obtain ⟨rows, -, hspec⟩ := settleOpen_spec (Prod.mk.eta (p := settleOpen env _ s)).symm
    intro trade exitFee rows' hmem
    rw [hspec.log, List.mem_append, List.mem_singleton] at hmem
    exact hmem.elim (h.closes trade exitFee rows') fun e => by cases e
  | closed tsMs exitPrice reason hget =>
    obtain ⟨rows, -, hspec⟩ := settleClose_spec (Prod.mk.eta (p := settleClose env _ _ _ s)).symm
    intro trade exitFee rows' hmem
    rw [hspec.log, List.mem_append, List.mem_singleton] at hmem
    rcases hmem with hmem | hmem
    · exact h.closes trade exitFee rows' hmem
    · cases hmem
      refine (h.backed.close_rows h.table (hf · _) hspec hget rfl).resolve_left fun hnone => ?_
      have hw := hspec.write
      rw [Sqlite.write_of_no_faults hf, hnone] at hw
      cases hw
  | loaded =>
    obtain ⟨-, -, hlog, -⟩ := onStartup_cases env s
    rw [hlog]
    exact h.closes
  | restarted =>
    obtain ⟨-, -, hlog, -⟩ := onStartup_cases env (crash env s)
    rw [restart, hlog]
    exact h.closes

theorem Synced.step (hf : ∀ n t, env.faults n t = false) {a : Action} (h : Synced s) (hnew : NewId env s a) :
    Synced (step env s a) :=
  hnew.moves.keeps (fun _ _ h hm => h.move hf hm) h

/-! ## The claim along runs -/

/-- What a row and an entry of `positions` must agree on. -/
structure Agreed where
  positionId : String
  symbol : String
  direction : Direction
  entryPrice : ℚ
  qty : ℚ
  slPrice : ℚ
  tpPrice : ℚ
  entryFee : ℚ
deriving DecidableEq

def agreed (pos : PaperPosition) : Agreed :=
  ⟨pos.positionId, pos.symbol, pos.direction, pos.entryPrice, pos.qty, pos.slPrice, pos.tpPrice, pos.entryFee⟩

/-- The committed `OPEN` rows and the entries of `positions` are in one-to-one correspondence. -/
structure Agrees (s : World) : Prop where
  rows : ((openRows s.conn.disk).map fun r => agreed r.toPosition).Perm
    (s.mem.positions.items.map fun e => agreed e.2)
  keyed : ∀ e ∈ s.mem.positions.items, e.1 = e.2.symbol

/-- The call leaves memory and table in agreement, an entry that returned `True` left exactly one `OPEN` row
with its id, and every close so far turned exactly one row `CLOSED`. -/
structure StepAgrees (env : Env) (s : World) (a : Action) : Prop where
  agrees : Agrees (step env s a)
  entry : ∀ symbol direction signalTsMs lastPrice monoMs, a = .onEntry symbol direction signalTsMs lastPrice monoMs →
    (onEntry env symbol direction signalTsMs lastPrice monoMs s).1 = true →
    (ids (openRows (step env s a).conn.disk)).count (positionId symbol signalTsMs) = 1
  closes : ∀ trade exitFee rows, .closed trade exitFee rows ∈ (step env s a).log → rows = some 1

theorem Synced.disk_openRows (h : Synced s) : openRows s.conn.disk = openRows s.conn.view :=
  openRows_congr (Eq.symm h.table.settled)

theorem Synced.agrees (h : Synced s) : Agrees s := by
  refine ⟨?_, fun e he => (h.backed e he).1⟩
  rw [h.disk_openRows]
  have hleft : ((openRows s.conn.view).map fun r => agreed r.toPosition).Nodup := by
    have hids := nodup_openRows h.table.distinct
    exact List.Nodup.of_map Agreed.positionId (by rw [List.map_map]; exact hids)
  have hright : (s.mem.positions.items.map fun e => agreed e.2).Nodup := by
    refine List.Nodup.map_on (fun e he e' he' heq => ?_) (List.Nodup.of_map _ s.mem.positions.nodup)
    exact h.backed.id_inj h.table he he' (congrArg Agreed.positionId heq)
  refine (List.perm_ext_iff_of_nodup hleft hright).mpr fun x => ?_
  simp only [List.mem_map]
  constructor
  · rintro ⟨r, hr, rfl⟩
    obtain ⟨p, hp, hrp⟩ := h.covered r hr
    exact ⟨(r.symbol, p), Dict.mem_items.mpr hp, by rw [hrp]; rfl⟩
  · rintro ⟨e, he, rfl⟩
    obtain ⟨-, r, hr, hrp⟩ := h.backed e he
    exact ⟨r, hr, by rw [hrp]; rfl⟩

/-- An accepted entry, no call raising: its insert is committed and its position reaches memory. -/
theorem onEntry_accepted (hf : ∀ n t, env.faults n t = false) {direction : Direction} {signalTsMs monoMs : ℤ}
    {lastPrice : Option ℚ} {b : Bool}
    (hdec : entryDecision env s.mem symbol direction signalTsMs lastPrice monoMs = .ok pos)
    (h : onEntry env symbol direction signalTsMs lastPrice monoMs s = (b, s')) :
    b = true ∧ s'.mem.positions = s.mem.positions.set symbol pos ∧
      s'.conn.disk.positions = (insertPosition env pos (env.wallMs s.conn.issued) s.conn.view).2.positions := by
  rcases onEntry_cases env symbol direction signalTsMs lastPrice monoMs s h with
    ⟨refusal, herr, -, -⟩ | ⟨pos', rows, s₁, hdec', rfl, ⟨hw, -, hpos, -, -⟩, hq⟩
  · rw [hdec] at herr; cases herr
  · rw [hdec] at hdec'
    cases hdec'
    rw [Sqlite.write_of_no_faults hf, Prod.mk.injEq] at hw
    obtain ⟨rfl, hconn⟩ := hw
    refine ⟨rfl, ?_, ?_⟩
    · rw [hq.positions, hpos, (entryDecision_ok hdec).1]
      rfl
    · rcases hq.disk with hd | hd <;> rw [hd, ← hconn]

theorem Synced.stepAgrees (hf : ∀ n t, env.faults n t = false) {a : Action} (h : Synced s) (hnew : NewId env s a) :
    StepAgrees env s a := by
  have hs := h.step hf hnew
  refine ⟨hs.agrees, ?_, hs.closes⟩
  rintro symbol direction signalTsMs lastPrice monoMs rfl htrue
  rcases hentry : onEntry env symbol direction signalTsMs lastPrice monoMs s with ⟨b, t⟩
  rcases onEntry_cases env symbol direction signalTsMs lastPrice monoMs s hentry with
    ⟨refusal, herr, rfl, -⟩ | ⟨pos, rows, s₁, hdec, -, -, -⟩
  · rw [hentry] at htrue; cases htrue
  · obtain ⟨-, hpos, -⟩ := onEntry_accepted hf hdec hentry
    have ht : Paper.step env s (.onEntry symbol direction signalTsMs lastPrice monoMs) = t := by
      rw [Paper.step, hentry]
    rw [ht] at hs ⊢
    have hget : t.mem.positions.get? symbol = some pos := by
      rw [hpos, Dict.get?_set, if_pos rfl]
    obtain ⟨-, r, hr, hrp⟩ := hs.backed.get hget
    have hmem : positionId symbol signalTsMs ∈ ids (openRows t.conn.view) := by
      rw [← (entryDecision_ok hdec).2.1]
      exact mem_ids.mpr ⟨r, hr, congrArg PaperPosition.positionId hrp⟩
    rw [hs.disk_openRows]
    exact List.count_eq_one_of_mem (nodup_openRows hs.table.distinct) hmem

/-- An accepted entry whose id is taken adds a position to memory and no row. -/
theorem Synced.reuse_breaks (hf : ∀ n t, env.faults n t = false) {a : Action} (h : Synced s)
    (hold : ¬ NewId env s a) : ¬ StepAgrees env s a := by
  intro hagrees
  cases a with
  | onEntry symbol direction signalTsMs lastPrice monoMs =>
    simp only [NewId, Classical.not_imp, not_not] at hold
    obtain ⟨⟨pos, hdec⟩, hid⟩ := hold
    rcases hentry : onEntry env symbol direction signalTsMs lastPrice monoMs s with ⟨b, t⟩
    obtain ⟨-, hpos, hdisk⟩ := onEntry_accepted hf hdec hentry
    obtain ⟨hsym, hpid, -, hfree⟩ := entryDecision_ok hdec
    rw [← hpid] at hid
    rw [insertPosition_reused hid] at hdisk
    have hbefore := h.agrees.rows.length_eq
    have hafter := hagrees.agrees.rows.length_eq
    rw [List.length_map, List.length_map, h.disk_openRows] at hbefore
    simp only [Paper.step, hentry, List.length_map, openRows_congr hdisk, hpos,
      Dict.items_set_of_not_mem (Dict.get?_eq_none.mp hfree), List.length_append, List.length_cons,
      List.length_nil] at hafter
    omega
  | _ => exact hold trivial

/-- A run in which no call on the connection raises. -/
def reliable (cfg : PaperPositionConfig) (wallMs : ℕ → ℤ) : Env := ⟨cfg, fun _ _ => false, wallMs⟩

/-- **Memory and table agree after every call of a run exactly when no accepted entry of it reuses an id.** -/
theorem stepAgrees_iff_newIds (cfg : PaperPositionConfig) (wallMs : ℕ → ℤ) (calls : List Action) :
    Guarded (StepAgrees (reliable cfg wallMs)) (step (reliable cfg wallMs)) (fresh (reliable cfg wallMs)) calls ↔
      Guarded (NewId (reliable cfg wallMs)) (step (reliable cfg wallMs)) (fresh (reliable cfg wallMs)) calls := by
  have hf : ∀ n t, (reliable cfg wallMs).faults n t = false := fun _ _ => rfl
  exact guarded_iff_guarded (Synced.fresh _) (fun s a _ h hnew => ⟨h.step hf hnew, h.stepAgrees hf hnew⟩)
    (fun s a _ h hold => h.reuse_breaks hf hold)

/-! ## A reused id -/

/-- Sixteen one-second samples, five seconds apart: fifteen finished candles, enough for the default ATR. -/
def warmUp : List Action :=
  (List.range 16).map fun k => .onOhlcv ⟨"BTC_USDT", 5 * k, 5000 * k, 100, 101, 99, 100⟩ 0

/-- The symbol is entered, closed by `finalize`, and entered again with the same signal time. -/
def reentry : List Action :=
  warmUp ++ [.onEntry "BTC_USDT" .LONG 80000 (some 100) 0, .finalize 80000 fun _ => none] ++
    [.onEntry "BTC_USDT" .LONG 80000 (some 100) 0]

theorem not_stepAgrees_reentry :
    ¬ Guarded (StepAgrees (reliable {} fun _ => 0)) (step (reliable {} fun _ => 0))
      (fresh (reliable {} fun _ => 0)) reentry := by
  intro h
  have hlast := (h _ _ (List.prefix_refl _)).agrees.rows.length_eq
  revert hlast
  decide +kernel

end MikoV2.Paper
