import MikoV2.Lib.Runs
import MikoV2.Paper.Rows
import MikoV2.Trading.Risk

/-!
# The risk of a paper trade

As for the simulator, with the table in between: a position that `on_startup` loads is the one that an entry
handed to the writer, perhaps in an earlier process.

* `EnteredWith` : a position is the one that an entry of the run made, at this equity;
* `entryDecision_sized` : what an accepted entry makes is sized for its share of the equity;
* `Provenance` : every position, every row and every close goes back to an entry, whatever calls raise;
* `RiskKept`, `riskKept_run` : what that says about the stop, the target and the outcome.
-/

namespace MikoV2.Paper
open PaperMath Store Runs
open Py (Dict)

variable {env : Env} {s s' : World} {symbol : String} {pos : PaperPosition} {pre calls : List Action} {eq : ℚ}

def PaperPositionConfig.Budgeted (cfg : PaperPositionConfig) : Prop :=
  Budget cfg.riskPct cfg.tpRMultiple cfg.minSlDistancePct cfg.maxSlDistancePct (cfg.entrySlippageBps / 10000)

def Bracketed (pos : PaperPosition) : Prop := Bracket pos.direction pos.slPrice pos.entryPrice pos.tpPrice

/-- Some entry of the run, made when `equity` was `eq`, made this position. -/
def EnteredWith (env : Env) (calls : List Action) (pos : PaperPosition) (eq : ℚ) : Prop :=
  ∃ pre symbol direction signalTsMs lastPrice monoMs opened,
    pre ++ [.onEntry symbol direction signalTsMs lastPrice monoMs] <+: calls ∧
    entryDecision env (run (step env) (fresh env) pre).mem symbol direction signalTsMs lastPrice monoMs = .ok opened ∧
    pos = { opened with fundingPaid := pos.fundingPaid } ∧
    eq = equity (run (step env) (fresh env) pre).mem

/-- The trade closes the position. -/
structure ClosesPosition (pos : PaperPosition) (t : PaperTradeResult) : Prop where
  positionId : t.positionId = pos.positionId
  direction : t.direction = pos.direction
  entryTsMs : t.entryTsMs = pos.entryTsMs
  entryPrice : t.entryPrice = pos.entryPrice
  qty : t.qty = pos.qty
  slPrice : t.slPrice = pos.slPrice
  tpPrice : t.tpPrice = pos.tpPrice

/-- The trades closed so far, restarts included. -/
def closes (s : World) : List PaperTradeResult :=
  s.log.filterMap fun w => match w with
    | .closed trade _ (some _) => some trade
    | _ => none

theorem EnteredWith.mono (h : EnteredWith env pre pos eq) (hpre : pre <+: calls) : EnteredWith env calls pos eq := by
  obtain ⟨p, sym, direction, ts, px, mono, opened, hp, hdec, hpos, heq⟩ := h
  exact ⟨p, sym, direction, ts, px, mono, opened, hp.trans hpre, hdec, hpos, heq⟩

theorem EnteredWith.funded (h : EnteredWith env calls pos eq) (fundingPaid : ℚ) :
    EnteredWith env calls { pos with fundingPaid } eq := by
  obtain ⟨p, sym, direction, ts, px, mono, opened, hp, hdec, hpos, heq⟩ := h
  refine ⟨p, sym, direction, ts, px, mono, opened, hp, hdec, ?_, heq⟩
  rw [hpos]

/-! ## Sizing -/

theorem entrySizing_sized (hcfg : env.cfg.Budgeted) {m : Manager} {direction : Direction} {signalTsMs : ℤ}
    {px : ℚ} (h : entrySizing env m symbol direction signalTsMs px = .ok pos) :
    Sized pos.direction pos.slPrice pos.entryPrice pos.tpPrice pos.qty env.cfg.tpRMultiple
      (env.cfg.riskPct * equity m) := by
  unfold entrySizing at h
  dsimp only at h
  split at h
  · cases h
  rename_i atr hatr
  split at h
  · cases h
  rename_i hatr0
  split at h
  · cases h
  rename_i hfill
  split at h
  · cases h
  rename_i hd0
  split at h
  · cases h
  rename_i hqty
  cases h
  -- the fill of the entry is the price at which the distance is clamped
  have hfill : 0 < applyEntrySlippage px direction env.cfg.entrySlippageBps := not_le.mp hfill
  have hdist : computeSlDistance atr (applyEntrySlippage px direction env.cfg.entrySlippageBps)
      env.cfg.slAtrMultiplier env.cfg.maxSlDistancePct env.cfg.minSlDistancePct =
      max (min (env.cfg.slAtrMultiplier * atr)
        (env.cfg.maxSlDistancePct * applyEntrySlippage px direction env.cfg.entrySlippageBps))
        (env.cfg.minSlDistancePct * applyEntrySlippage px direction env.cfg.entrySlippageBps) := by
    unfold computeSlDistance
    rw [if_neg (not_or.mpr ⟨hatr0, not_le.mpr hfill⟩)]
  obtain ⟨hd, hcap⟩ := hcfg.clamp hfill (env.cfg.slAtrMultiplier * atr)
  rw [← hdist] at hd hcap
  have hqty' : computeQty (equity m) env.cfg.riskPct
      (computeSlDistance atr (applyEntrySlippage px direction env.cfg.entrySlippageBps)
        env.cfg.slAtrMultiplier env.cfg.maxSlDistancePct env.cfg.minSlDistancePct) =
      env.cfg.riskPct * equity m / computeSlDistance atr (applyEntrySlippage px direction env.cfg.entrySlippageBps)
        env.cfg.slAtrMultiplier env.cfg.maxSlDistancePct env.cfg.minSlDistancePct := by
    unfold computeQty at hqty ⊢
    split at hqty
    · exact absurd (le_refl (0 : ℚ)) hqty
    · rename_i hpos
      rw [if_neg hpos, mul_comm]
  have hnear : applyEntrySlippage px direction env.cfg.entrySlippageBps *
      (1 - |env.cfg.entrySlippageBps / 10000|) ≤ applyEntrySlippage px direction env.cfg.entrySlippageBps :=
    mul_le_of_le_one_right hfill.le (by linarith [abs_nonneg (env.cfg.entrySlippageBps / 10000)])
  have hsized : Sized direction _ _ _ _ env.cfg.tpRMultiple (env.cfg.riskPct * equity m) :=
    Sized.of_distance hcfg hfill hnear hd hcap
  rw [← hqty'] at hsized
  exact hsized

/-- What an accepted entry makes risks its share of the equity. -/
theorem entryDecision_sized (hcfg : env.cfg.Budgeted) {m : Manager} {direction : Direction} {signalTsMs nowMono : ℤ}
    {lastPrice : Option ℚ} (h : entryDecision env m symbol direction signalTsMs lastPrice nowMono = .ok pos) :
    Sized pos.direction pos.slPrice pos.entryPrice pos.tpPrice pos.qty env.cfg.tpRMultiple
      (env.cfg.riskPct * equity m) := by
  unfold entryDecision at h
  split at h
  · cases h
  · exact entrySizing_sized hcfg h

theorem EnteredWith.sized (hcfg : env.cfg.Budgeted) (h : EnteredWith env calls pos eq) :
    Sized pos.direction pos.slPrice pos.entryPrice pos.tpPrice pos.qty env.cfg.tpRMultiple (env.cfg.riskPct * eq) := by
  obtain ⟨p, sym, direction, ts, px, mono, opened, -, hdec, hpos, heq⟩ := h
  have hsized := entryDecision_sized hcfg hdec
  rw [hpos, heq]
  exact hsized

/-! ## Provenance -/

/-- Every row of the table was made by an entry. -/
def RowsEntered (env : Env) (calls : List Action) (db : Db) : Prop :=
  ∀ r ∈ db.positions, ∃ eq, EnteredWith env calls r.toPosition eq

theorem RowsEntered.congr {db db' : Db} (h : RowsEntered env calls db) (he : db'.positions = db.positions) :
    RowsEntered env calls db' := by
  unfold RowsEntered
  rw [he]
  exact h

theorem RowsEntered.insert {db : Db} (h : RowsEntered env calls db) (hpos : ∃ eq, EnteredWith env calls pos eq)
    (now : ℤ) : RowsEntered env calls (insertPosition env pos now db).2 := by
  intro r hr
  rcases insertPosition_cases env pos now db with he | ⟨-, he⟩
  · exact h r (he ▸ hr)
  · rw [he, List.mem_append, List.mem_singleton] at hr
    rcases hr with hr | rfl
    · exact h r hr
    · exact hpos

theorem RowsEntered.update {db : Db} (h : RowsEntered env calls db) (trade : PaperTradeResult) (exitFee : ℚ) (now : ℤ) :
    RowsEntered env calls (updatePosition trade exitFee now db).2 := by
  intro r hr
  rcases Sqlite.mem_update.mp hr with ⟨hr, -⟩ | ⟨r₀, hr₀, -, rfl⟩
  · exact h r hr
  · exact h r₀ hr₀

/-- Every position and row was entered, and every close is of an entered position at its stop, its target or the
end. -/
structure Provenance (env : Env) (calls : List Action) (s : World) : Prop where
  positions : ∀ symbol pos, s.mem.positions.get? symbol = some pos → ∃ eq, EnteredWith env calls pos eq
  view : RowsEntered env calls s.conn.view
  disk : RowsEntered env calls s.conn.disk
  log : ∀ trade exitFee rows, .closed trade exitFee rows ∈ s.log → ∃ pos eq symbol tsMs px reason,
    EnteredWith env calls pos eq ∧ ExitAt pos px reason ∧ trade = tradeOf env pos symbol tsMs px reason
  trades : ∀ trade ∈ s.mem.closedTrades, trade ∈ closes s

theorem Provenance.mono (h : Provenance env pre s) (hpre : pre <+: calls) : Provenance env calls s := by
  refine ⟨fun symbol pos hget => ?_, fun r hr => ?_, fun r hr => ?_, fun trade exitFee rows ht => ?_, h.trades⟩
  · obtain ⟨eq, he⟩ := h.positions symbol pos hget
    exact ⟨eq, he.mono hpre⟩
  · obtain ⟨eq, he⟩ := h.view r hr
    exact ⟨eq, he.mono hpre⟩
  · obtain ⟨eq, he⟩ := h.disk r hr
    exact ⟨eq, he.mono hpre⟩
  · obtain ⟨pos, eq, symbol, tsMs, px, reason, he, hexit, rfl⟩ := h.log trade exitFee rows ht
    exact ⟨pos, eq, symbol, tsMs, px, reason, he.mono hpre, hexit, rfl⟩

theorem closes_append (s : World) (w : PositionWrite) (hlog : s'.log = s.log ++ [w]) {trade : PaperTradeResult}
    (h : trade ∈ closes s) : trade ∈ closes s' := by
  unfold closes at h ⊢
  rw [hlog, List.filterMap_append]
  exact List.mem_append_left _ h

/-- `on_startup` loads entered rows. -/
theorem Provenance.load (h : Provenance env calls s) : Provenance env calls (onStartup env s).2 := by
  obtain ⟨hview, hdisk, hlog, htr, -, hpos⟩ := onStartup_cases env s
  refine ⟨fun symbol pos hget => ?_, hview ▸ h.view, hdisk ▸ h.disk, ?_, ?_⟩
  · rcases hpos with ⟨-, hpos⟩ | hpos
    · rw [hpos] at hget
      exact h.positions symbol pos hget
    · rw [hpos] at hget
      rcases Dict.mem_items_update _ _ (Dict.mem_items.mpr hget) with hm | hm
      · exact h.positions symbol pos (Dict.mem_items.mp hm)
      · obtain ⟨r, hr, he⟩ := List.mem_map.mp hm
        cases he
        exact h.view r (mem_openRows.mp hr).1
  · rw [hlog]
    exact h.log
  · unfold closes
    rw [htr, hlog]
    exact h.trades

theorem Provenance.move {allow : List PaperPositionRow → PaperPosition → Prop}
    (hallow : ∀ table pos, allow table pos → ∃ eq, EnteredWith env calls pos eq) (h : Provenance env calls s)
    (hm : Move env allow True s s') : Provenance env calls s' := by
  cases hm with
  | quiet hq =>
    refine ⟨?_, h.view.congr hq.view, ?_, ?_, ?_⟩
    · rw [hq.positions]
      exact h.positions
    · rcases hq.disk with hd | hd
      · exact h.disk.congr hd
      · exact h.view.congr hd
    · rw [hq.log]
      exact h.log
    · unfold closes
      rw [hq.closedTrades, hq.log]
      exact h.trades
  | @funded symbol pos fundingPaid hget =>
    refine ⟨fun k p hp => ?_, h.view, h.disk, h.log, h.trades⟩
    rw [Dict.get?_set] at hp
    split at hp
    · cases hp
      obtain ⟨eq, he⟩ := h.positions symbol pos hget
      exact ⟨eq, he.funded fundingPaid⟩
    · exact h.positions k p hp
  | @opened pos hfree hfund hopen =>
    obtain ⟨rows, -, hspec⟩ := settleOpen_spec (Prod.mk.eta (p := settleOpen env pos s)).symm
    have hentered := hallow _ pos hopen
    obtain ⟨hview, hdisk⟩ := Sqlite.write_keeps (P := RowsEntered env calls) (fun d hd => hd.insert hentered _)
      h.view h.disk hspec.write
    refine ⟨fun k p hp => ?_, hview, hdisk, fun trade exitFee rows' ht => ?_, fun trade ht => ?_⟩
    · rw [hspec.positions] at hp
      split at hp
      · rw [Dict.get?_set] at hp
        split at hp
        · cases hp
          exact hentered
        · exact h.positions k p hp
      · exact h.positions k p hp
    · rw [hspec.log, List.mem_append, List.mem_singleton] at ht
      rcases ht with ht | ht
      · exact h.log trade exitFee rows' ht
      · cases ht
    · rw [hspec.closedTrades] at ht
      exact closes_append s _ hspec.log (h.trades trade ht)
  | @closed symbol pos tsMs px reason hget hexit =>
    obtain ⟨rows, -, hspec⟩ := settleClose_spec (Prod.mk.eta (p := settleClose env _ _ _ s)).symm
    obtain ⟨eq, hentered⟩ := h.positions symbol pos hget
    obtain ⟨hview, hdisk⟩ := Sqlite.write_keeps (P := RowsEntered env calls) (fun d hd => hd.update _ _ _)
      h.view h.disk hspec.write
    refine ⟨fun k p hp => ?_, hview, hdisk, fun trade exitFee rows' ht => ?_, fun trade ht => ?_⟩
    · rw [hspec.positions] at hp
      split at hp
      · rw [Dict.get?_erase] at hp
        split at hp
        · cases hp
        · exact h.positions k p hp
      · exact h.positions k p hp
    · rw [hspec.log, List.mem_append, List.mem_singleton] at ht
      rcases ht with ht | ht
      · exact h.log trade exitFee rows' ht
      · cases ht
        exact ⟨pos, eq, symbol, tsMs, px, reason, hentered, hexit, rfl⟩
    · rw [hspec.closedTrades] at ht
      cases rows with
      | none => exact closes_append s _ hspec.log (h.trades trade ht)
      | some n =>
        rcases List.mem_append.mp ht with ht | ht
        · exact closes_append s _ hspec.log (h.trades trade ht)
        · rw [List.mem_singleton.mp ht]
          unfold closes
          rw [hspec.log, List.filterMap_append]
          exact List.mem_append_right _ (List.mem_singleton_self _)
  | loaded => exact h.load
  | restarted =>
    refine Provenance.load ⟨fun k p hp => ?_, h.disk, h.disk, h.log, fun trade ht => ?_⟩
    · cases hp
    · cases ht

theorem provenance_run (env : Env) (calls : List Action) :
    Provenance env calls (run (step env) (fresh env) calls) := by
  refine history_invariant (J := Provenance env) ⟨?_, ?_, ?_, ?_, ?_⟩ (fun pre a h => ?_) calls
  · intro symbol pos hget
    cases hget
  · intro r hr
    cases hr
  · intro r hr
    cases hr
  · intro trade exitFee rows ht
    cases ht
  · intro trade ht
    cases ht
  · have hstep : Moves env (fun _ pos => ∃ eq, EnteredWith env (pre ++ [a]) pos eq) True
        (run (step env) (fresh env) pre) _ :=
      step_moves (fun symbol direction ts px mono pos ha hdec =>
        ⟨_, pre, symbol, direction, ts, px, mono, pos, ha ▸ List.prefix_refl _, hdec, rfl, rfl⟩) fun _ => trivial
    exact hstep.keeps (fun s s' hs hm => hs.move (fun _ _ h => h) hm) (h.mono (List.prefix_append pre [a]))

/-! ## Outcomes -/

/-- Positions are bracketed, and a trade at its stop or target pays what the entry budgeted, in every process of
the run. -/
structure RiskKept (env : Env) (calls : List Action) (s : World) : Prop where
  bracketed : ∀ symbol pos, s.mem.positions.get? symbol = some pos → Bracketed pos
  logged : ∀ t ∈ s.mem.closedTrades, t ∈ closes s
  trades : ∀ t ∈ closes s, ∃ pos eq, EnteredWith env calls pos eq ∧ ClosesPosition pos t ∧
    (t.exitReason = .SL → t.rMultiple = -1 ∧ t.pnlGross = -(env.cfg.riskPct * eq)) ∧
    (t.exitReason = .TP → t.rMultiple = env.cfg.tpRMultiple ∧
      t.pnlGross = env.cfg.tpRMultiple * (env.cfg.riskPct * eq))

theorem riskKept_run (hcfg : env.cfg.Budgeted) (calls : List Action) :
    RiskKept env calls (run (step env) (fresh env) calls) := by
  have hprov := provenance_run env calls
  refine ⟨fun symbol pos hget => ?_, hprov.trades, fun t ht => ?_⟩
  · obtain ⟨eq, he⟩ := hprov.positions symbol pos hget
    exact (he.sized hcfg).bracket
  · unfold closes at ht
    obtain ⟨w, hw, hsome⟩ := List.mem_filterMap.mp ht
    split at hsome
    · rename_i trade exitFee n
      cases hsome
      obtain ⟨pos, eq, symbol, tsMs, px, reason, he, hexit, rfl⟩ := hprov.log _ _ _ hw
      have hsized := he.sized hcfg
      refine ⟨pos, eq, he, ⟨rfl, rfl, rfl, rfl, rfl, rfl, rfl⟩, fun hsl => ?_, fun htp => ?_⟩
      · have hpx : px = pos.slPrice := by
          rw [show reason = .SL from hsl] at hexit
          exact hexit
        rw [hpx]
        exact ⟨hsized.stop.2, hsized.stop.1⟩
      · have hpx : px = pos.tpPrice := by
          rw [show reason = .TP from htp] at hexit
          exact hexit
        rw [hpx]
        exact ⟨hsized.take.2, hsized.take.1⟩
    · cases hsome

end MikoV2.Paper
