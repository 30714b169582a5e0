import MikoV2.Paper.Agreement
import MikoV2.Parity.Exit

/-!
# The entries of the backtest and of the paper trader

Documented: the formulas of `paper_math` mirror `position_sim.on_entry`. Both clamp the distance of the stop between
two shares of a price. The simulator takes them of the price of the signal, the paper trader of the slipped price.

* `clamped` : the clamp over any price; `clamped_pos_iff`, `clamped_eq_iff` : when it is positive, and when it gives
  the same at two prices;
* `Ready` : the checks before sizing, which both make; `filled` : the position sized by a distance;
* `entryDecision_refused`, `entryDecision_sized` : what the simulator decides, `paper_refused`, `paper_sized` : what the
  paper trader decides;
* `EnteredAlike`, `enteredAlike_opened`, `enteredAlike_refused` : both do the same;
* `PricesAlike`, `enteredAlike_iff` : they do exactly when it does not matter which price the distance is taken of.
-/

namespace MikoV2.Parity
open Backtest PositionSim Store
open Paper (Manager World Env)
open PaperMath (Direction applyEntrySlippage computeSlDistance computeQty computeSlPrice computeTpPrice computeEntryFee)
open Py (Dict)

/-! ## The clamp -/

section Clamp
variable {raw cap floor x y : ℚ}

/-- `max(min(raw, cap * x), floor * x)`. -/
def clamped (raw cap floor x : ℚ) : ℚ := max (min raw (cap * x)) (floor * x)

/-- The clamp is not active at the price. -/
def Within (raw cap floor x : ℚ) : Prop := floor * x ≤ raw ∧ raw ≤ cap * x

theorem Within.clamped (h : Within raw cap floor x) : clamped raw cap floor x = raw := by
  unfold Parity.clamped
  rw [min_eq_left h.2, max_eq_left h.1]

theorem clamped_pos_iff (hx : 0 < x) : 0 < clamped raw cap floor x ↔ (0 < raw ∧ 0 < cap) ∨ 0 < floor := by
  unfold clamped
  rw [lt_max_iff, lt_min_iff, mul_pos_iff_of_pos_right hx, mul_pos_iff_of_pos_right hx]

/-- A positive distance at the floor is that of no larger price, and of a smaller one only where it is `raw`. -/
theorem within_of_floor (hx : 0 < x) (hy : 0 < y) (hne : x ≠ y) (hpos : 0 < floor * x)
    (hmin : min raw (cap * x) ≤ floor * x) (h : clamped raw cap floor y = floor * x) :
    Within raw cap floor x ∧ Within raw cap floor y := by
  have hfloor : 0 < floor := (mul_pos_iff_of_pos_right hx).mp hpos
  have hle : floor * y ≤ floor * x := h ▸ le_max_right _ _
  have hlt : y < x := lt_of_le_of_ne (le_of_mul_le_mul_left hle hfloor) (Ne.symm hne)
  have hoff : floor * y ≠ floor * x := ((mul_lt_mul_iff_right₀ hfloor).mpr hlt).ne
  have hmid : min raw (cap * y) = floor * x := by
    rcases max_choice (min raw (cap * y)) (floor * y) with hm | hm
    · exact hm.symm.trans h
    · exact absurd (hm.symm.trans h) hoff
  have hcapy : floor * x ≤ cap * y := hmid ▸ min_le_right _ _
  have hcap : 0 < cap := (mul_pos_iff_of_pos_right hy).mp (lt_of_lt_of_le hpos hcapy)
  have hcapx : floor * x < cap * x := lt_of_le_of_lt hcapy ((mul_lt_mul_iff_right₀ hcap).mpr hlt)
  have hraw : raw = floor * x := by
    refine le_antisymm ?_ (hmid ▸ min_le_left _ _)
    rcases min_le_iff.mp hmin with hle | hle
    · exact hle
    · exact absurd hle (not_le.mpr hcapx)
  exact ⟨⟨hraw.ge, hraw.trans_le hcapx.le⟩, ⟨hle.trans hraw.ge, hraw.trans_le hcapy⟩⟩

/-- A positive distance is that of two prices only where the clamp is active at neither. -/
theorem clamped_eq_iff (hx : 0 < x) (hy : 0 < y) (hne : x ≠ y) (hpos : 0 < clamped raw cap floor x) :
    clamped raw cap floor x = clamped raw cap floor y ↔ Within raw cap floor x ∧ Within raw cap floor y := by
  refine ⟨fun h => ?_, fun h => h.1.clamped.trans h.2.clamped.symm⟩
  rcases max_cases (min raw (cap * x)) (floor * x) with ⟨hdx, hlex⟩ | ⟨hdx, hlex⟩
  · rcases max_cases (min raw (cap * y)) (floor * y) with ⟨hdy, hley⟩ | ⟨hdy, hley⟩
    · have hboth : min raw (cap * x) = min raw (cap * y) := hdx.symm.trans (h.trans hdy)
      rw [clamped, hdx] at hpos
      have hraw : raw ≤ cap * x ∧ raw ≤ cap * y := by
        by_contra hno
        have hcap : 0 < cap := (mul_pos_iff_of_pos_right hx).mp (lt_of_lt_of_le hpos (min_le_right _ _))
        rcases lt_or_gt_of_ne hne with hlt | hlt
        · have hmul : cap * x < cap * y := (mul_lt_mul_iff_right₀ hcap).mpr hlt
          grind
        · have hmul : cap * y < cap * x := (mul_lt_mul_iff_right₀ hcap).mpr hlt
          grind
      rw [min_eq_left hraw.1] at hlex
      rw [min_eq_left hraw.2] at hley
      exact ⟨⟨hlex, hraw.1⟩, ⟨hley, hraw.2⟩⟩
    · have hx' : clamped raw cap floor x = floor * y := h.trans hdy
      rw [hx'] at hpos
      exact (within_of_floor hy hx (Ne.symm hne) hpos hley.le hx').symm
  · have hy' : clamped raw cap floor y = floor * x := h.symm.trans hdx
    have hpos' : 0 < floor * x := hdx ▸ hpos
    exact within_of_floor hx hy hne hpos' hlex.le hy'

end Clamp

variable {cfg : PositionSimConfig} {env : Env} {s : PositionSimulator} {w : World} {signal : EntrySignal}
  {symbol : String} {monoMs : ℤ} {atr : ℚ}

/-! ## Both sizings -/

/-- The price at which the entry fills. -/
def fillPrice (cfg : PositionSimConfig) (signal : EntrySignal) : ℚ :=
  applyEntrySlippage signal.price signal.direction cfg.entrySlippageBps

/-- The distance of the stop, taken at a price. -/
def distanceAt (cfg : PositionSimConfig) (atr x : ℚ) : ℚ :=
  clamped (cfg.slAtrMultiplier * atr) cfg.maxSlDistancePct cfg.minSlDistancePct x

/-- The position of an entry with the stop at a distance, for a risk. -/
def filled (cfg : PositionSimConfig) (symbol : String) (signal : EntrySignal) (distance risk : ℚ) : Position where
  symbol
  direction := signal.direction
  entryTsMs := signal.tsMs
  entryBucketSec := bucketSec (signal.tsMs / 1000)
  entryPrice := fillPrice cfg signal
  qty := risk / distance
  slPrice := computeSlPrice (fillPrice cfg signal) distance signal.direction
  tpPrice := computeTpPrice (fillPrice cfg signal) distance cfg.tpRMultiple signal.direction
  entryFee := computeEntryFee (fillPrice cfg signal) (risk / distance) cfg.feeTaker

/-- What both check before sizing: the symbol is free, the limits leave room, and the ATR is there. -/
structure Ready (cfg : PositionSimConfig) (s : PositionSimulator) (symbol : String) (atr : ℚ) : Prop where
  free : symbol ∉ s.positions.keys
  room : (s.positions.keys.length : ℤ) < cfg.maxPositionsGlobal
  enabled : 1 ≤ cfg.maxPositionsPerSymbol
  known : PositionSim.atr cfg s symbol = some atr
  moving : 0 < atr

/-! ## The simulator -/

theorem entryDecision_refused (h : ∀ atr, ¬ Ready cfg s symbol atr) (signal : EntrySignal) :
    ∃ reason, entryDecision cfg s signal symbol = .error reason := by
  unfold entryDecision
  split
  · exact ⟨_, rfl⟩
  rename_i hfree
  split
  · exact ⟨_, rfl⟩
  rename_i hroom
  split
  · exact ⟨_, rfl⟩
  rename_i henabled
  split
  · exact ⟨_, rfl⟩
  rename_i atr hatr
  rw [if_pos]
  · exact ⟨_, rfl⟩
  · by_contra hmoving
    exact h atr ⟨hfree, not_le.mp hroom, not_lt.mp henabled, hatr, not_le.mp hmoving⟩

/-- The distance is taken at the price of the signal. -/
theorem entryDecision_sized (h : Ready cfg s symbol atr) (hpx : 0 < signal.price) :
    entryDecision cfg s signal symbol =
      if distanceAt cfg atr signal.price ≤ 0 then .error none
      else if equity s * cfg.riskPct / distanceAt cfg atr signal.price ≤ 0 then .error none
      else .ok (filled cfg symbol signal (distanceAt cfg atr signal.price) (equity s * cfg.riskPct)) := by
  have hfill : fillPrice cfg signal = if signal.direction = .LONG then signal.price * (1 + slippagePct cfg)
      else signal.price * (1 - slippagePct cfg) := if_neg (not_le.mpr hpx)
  unfold entryDecision
  rw [if_neg h.free, if_neg (not_le.mpr h.room), if_neg (not_lt.mpr h.enabled), h.known]
  dsimp only
  rw [if_neg (not_le.mpr h.moving), if_neg (not_le.mpr hpx), ← hfill]
  rfl

/-! ## The paper trader -/

/-- The same candles of the symbol, open symbols and equity. -/
structure SameMarket (s : PositionSimulator) (m : Manager) (symbol : String) : Prop where
  candles : s.candles symbol = (m.candles symbol).map simCandle
  positions : ∀ k, k ∈ s.positions.keys ↔ k ∈ m.positions.keys
  equity : PositionSim.equity s = Paper.equity m

/-- The price of the symbol is fresh. -/
def Fresh (env : Env) (m : Manager) (symbol : String) (monoMs : ℤ) : Prop :=
  ∃ lastMono, m.lastPriceMonoMs symbol = some lastMono ∧ monoMs - lastMono ≤ env.cfg.stalePriceMs

/-- The open writes of the paper trader do not raise. -/
structure OpensWrite (env : Env) : Prop where
  insertPosition : ∀ n, env.faults n .insertPosition = false
  commitOpen : ∀ n, env.faults n .commitOpen = false

theorem SameMarket.keys_length (h : SameMarket s w.mem symbol) :
    s.positions.keys.length = w.mem.positions.keys.length :=
  ((List.perm_ext_iff_of_nodup (Dict.nodup_keys _) (Dict.nodup_keys _)).mpr h.positions).length_eq

theorem SameMarket.computeAtr (h : SameMarket s w.mem symbol) (hc : SameParams cfg env.cfg) :
    PaperMath.computeAtr ((w.mem.candles symbol).map Paper.Candle5s.bar) env.cfg.atrPeriod =
      PositionSim.atr cfg s symbol := by
  unfold PositionSim.atr
  rw [h.candles, hc.atrPeriod, List.map_map]
  rfl

theorem paper_refused (hc : SameParams cfg env.cfg) (hm : SameMarket s w.mem symbol)
    (h : ∀ atr, ¬ Ready cfg s symbol atr) (direction : Direction) (signalTsMs : ℤ) (lastPrice : Option ℚ) (monoMs : ℤ) :
    ∃ refusal, Paper.entryDecision env w.mem symbol direction signalTsMs lastPrice monoMs = .error refusal := by
  unfold Paper.entryDecision
  cases hgate : Paper.entryGate env w.mem symbol lastPrice monoMs with
  | error refusal => exact ⟨refusal, rfl⟩
  | ok px =>
    obtain ⟨hfree, hroom, henabled⟩ : symbol ∉ w.mem.positions.keys ∧
        (w.mem.positions.keys.length : ℤ) < env.cfg.maxPositionsGlobal ∧ 1 ≤ env.cfg.maxPositionsPerSymbol := by
      unfold Paper.entryGate at hgate
      grind
    dsimp only
    unfold Paper.entrySizing
    dsimp only
    rw [hm.computeAtr hc]
    split
    · exact ⟨_, rfl⟩
    · rename_i atr hatr
      rw [if_pos]
      · exact ⟨_, rfl⟩
      · by_contra hmoving
        refine h atr ⟨fun hk => hfree ((hm.positions symbol).mp hk), ?_, ?_, hatr, not_le.mp hmoving⟩
        · rw [hm.keys_length, hc.maxPositionsGlobal]
          exact hroom
        · rw [hc.maxPositionsPerSymbol]
          exact henabled

/-- The checks of the paper trader before sizing, at a fresh price. -/
theorem entryGate_ok (hc : SameParams cfg env.cfg) (hm : SameMarket s w.mem symbol)
    (hfresh : Fresh env w.mem symbol monoMs) (h : Ready cfg s symbol atr) (hpx : 0 < signal.price) :
    Paper.entryGate env w.mem symbol (some signal.price) monoMs = .ok signal.price := by
  obtain ⟨lastMono, hmono, hstale⟩ := hfresh
  unfold Paper.entryGate
  rw [hmono]
  dsimp only
  rw [if_neg (not_lt.mpr hstale), if_neg (not_le.mpr hpx), if_neg fun hk => h.free ((hm.positions symbol).mpr hk),
    if_neg, if_neg]
  · rw [← hc.maxPositionsPerSymbol]
    exact not_lt.mpr h.enabled
  · rw [← hc.maxPositionsGlobal, ← hm.keys_length]
    exact not_le.mpr h.room

/-- At a positive distance, a quantity is positive when there is something to risk. -/
theorem computeQty_pos_iff {equity riskPct dist : ℚ} (hd : 0 < dist) :
    0 < computeQty equity riskPct dist ↔ 0 < equity ∧ 0 < riskPct := by
  unfold computeQty
  by_cases heq : equity ≤ 0
  · rw [if_pos (Or.inr heq)]
    exact ⟨fun h => absurd h (lt_irrefl 0), fun h => absurd heq (not_le.mpr h.1)⟩
  · rw [if_neg (not_or.mpr ⟨not_le.mpr hd, heq⟩), lt_div_iff₀ hd, zero_mul, mul_pos_iff_of_pos_left (not_le.mp heq)]
    exact ⟨fun h => ⟨not_le.mp heq, h⟩, And.right⟩

/-- The distance is taken at the slipped price. -/
theorem paper_sized (hc : SameParams cfg env.cfg) (hm : SameMarket s w.mem symbol)
    (hfresh : Fresh env w.mem symbol monoMs) (h : Ready cfg s symbol atr) (hpx : 0 < signal.price) :
    (∃ refusal, Paper.entryDecision env w.mem symbol signal.direction signal.tsMs (some signal.price) monoMs =
          .error refusal ∧ ¬ (0 < fillPrice cfg signal ∧ 0 < distanceAt cfg atr (fillPrice cfg signal) ∧
            0 < equity s ∧ 0 < cfg.riskPct)) ∨
      ∃ pos, Paper.entryDecision env w.mem symbol signal.direction signal.tsMs (some signal.price) monoMs = .ok pos ∧
        (0 < fillPrice cfg signal ∧ 0 < distanceAt cfg atr (fillPrice cfg signal) ∧ 0 < equity s ∧ 0 < cfg.riskPct) ∧
          simPosition pos =
            filled cfg symbol signal (distanceAt cfg atr (fillPrice cfg signal)) (equity s * cfg.riskPct) := by
  unfold Paper.entryDecision
  rw [entryGate_ok hc hm hfresh h hpx]
  dsimp only
  unfold Paper.entrySizing
  dsimp only
  rw [hm.computeAtr hc, h.known, ← hm.equity, ← hc.entrySlippageBps, ← hc.slAtrMultiplier, ← hc.maxSlDistancePct,
    ← hc.minSlDistancePct, ← hc.riskPct, ← hc.tpRMultiple, ← hc.feeTaker]
  dsimp only
  rw [if_neg (not_le.mpr h.moving)]
  have hslip : applyEntrySlippage signal.price signal.direction cfg.entrySlippageBps = fillPrice cfg signal := rfl
  rw [hslip]
  by_cases hfill : fillPrice cfg signal ≤ 0
  · rw [if_pos hfill]
    exact Or.inl ⟨_, rfl, fun hall => not_le.mpr hall.1 hfill⟩
  have hdist : computeSlDistance atr (fillPrice cfg signal) cfg.slAtrMultiplier cfg.maxSlDistancePct
      cfg.minSlDistancePct = distanceAt cfg atr (fillPrice cfg signal) :=
    if_neg (not_or.mpr ⟨not_le.mpr h.moving, hfill⟩)
  rw [if_neg hfill, hdist]
  by_cases hd : distanceAt cfg atr (fillPrice cfg signal) ≤ 0
  · rw [if_pos hd]
    exact Or.inl ⟨_, rfl, fun hall => not_le.mpr hall.2.1 hd⟩
  rw [if_neg hd]
  have hpos : 0 < computeQty (equity s) cfg.riskPct (distanceAt cfg atr (fillPrice cfg signal)) ↔
      0 < equity s ∧ 0 < cfg.riskPct :=
    computeQty_pos_iff (not_le.mp hd)
  by_cases hqty : computeQty (equity s) cfg.riskPct (distanceAt cfg atr (fillPrice cfg signal)) ≤ 0
  · rw [if_pos hqty]
    exact Or.inl ⟨_, rfl, fun hall => not_le.mpr (hpos.mpr hall.2.2) hqty⟩
  · rw [if_neg hqty]
    have hrisk := hpos.mp (not_le.mp hqty)
    have hamount : computeQty (equity s) cfg.riskPct (distanceAt cfg atr (fillPrice cfg signal)) =
        equity s * cfg.riskPct / distanceAt cfg atr (fillPrice cfg signal) :=
      if_neg (not_or.mpr ⟨hd, not_le.mpr hrisk.1⟩)
    rw [hamount]
    exact Or.inr ⟨_, rfl, ⟨not_le.mp hfill, not_le.mp hd, hrisk⟩, rfl⟩

/-! ## What the calls return -/

theorem onEntry_refused {reason : Option PositionSim.Rejection}
    (h : entryDecision cfg s signal symbol = .error reason) : (onEntry cfg signal symbol s).1 = false := by
  unfold onEntry
  rw [h]

theorem onEntry_opened {pos : Position} (h : entryDecision cfg s signal symbol = .ok pos) :
    (onEntry cfg signal symbol s).1 = true ∧ (onEntry cfg signal symbol s).2.positions.get? symbol = some pos := by
  unfold onEntry
  rw [h]
  exact ⟨rfl, (Dict.get?_set ..).trans (if_pos rfl)⟩

/-- `on_entry` of the paper trader, for a signal of the strategy. -/
def paperEntry (env : Env) (signal : EntrySignal) (symbol : String) (monoMs : ℤ) (w : World) : Bool × World :=
  Paper.onEntry env symbol signal.direction signal.tsMs (some signal.price) monoMs w

theorem paperEntry_refused {refusal : Paper.Refusal}
    (h : Paper.entryDecision env w.mem symbol signal.direction signal.tsMs (some signal.price) monoMs =
      .error refusal) : (paperEntry env signal symbol monoMs w).1 = false := by
  rcases Paper.onEntry_cases env symbol signal.direction signal.tsMs (some signal.price) monoMs w Prod.mk.eta.symm with
    ⟨-, -, hrefused, -⟩ | ⟨pos, rows, t, hdec, -⟩
  · exact hrefused
  · rw [h] at hdec
    cases hdec

theorem paperEntry_opened (hw : OpensWrite env) {pos : PaperPosition}
    (h : Paper.entryDecision env w.mem symbol signal.direction signal.tsMs (some signal.price) monoMs = .ok pos) :
    (paperEntry env signal symbol monoMs w).1 = true ∧
      (paperEntry env signal symbol monoMs w).2.mem.positions.get? symbol = some pos := by
  rcases Paper.onEntry_cases env symbol signal.direction signal.tsMs (some signal.price) monoMs w Prod.mk.eta.symm with
    ⟨refusal, hdec, -⟩ | ⟨p, rows, t, hdec, hret, hspec, hquiet⟩
  · rw [h] at hdec
    cases hdec
  · rw [h] at hdec
    cases hdec
    have hrows : rows.isSome = true := Sqlite.write_isSome hw.insertPosition hw.commitOpen hspec.write
    refine ⟨hret.trans hrows, ?_⟩
    have hpos := hquiet.positions
    rw [hspec.positions, if_pos hrows, (Paper.entryDecision_ok h).1] at hpos
    exact (congrArg (fun d => d.get? symbol) hpos).trans ((Dict.get?_set ..).trans (if_pos rfl))

/-! ## The same entry -/

/-- The fields that the sizing decides. -/
structure SameFill (pos : Position) (ppos : PaperPosition) : Prop where
  entryPrice : pos.entryPrice = ppos.entryPrice
  slPrice : pos.slPrice = ppos.slPrice
  tpPrice : pos.tpPrice = ppos.tpPrice
  qty : pos.qty = ppos.qty
  entryFee : pos.entryFee = ppos.entryFee
  entryBucketSec : pos.entryBucketSec = ppos.entryBucketSec

/-- Both refuse the signal, or both open the position, sized alike. -/
inductive EnteredAlike (cfg : PositionSimConfig) (env : Env) (s : PositionSimulator) (w : World) (signal : EntrySignal)
    (symbol : String) (monoMs : ℤ) : Prop
  | refused (hsim : (onEntry cfg signal symbol s).1 = false)
      (hpaper : (paperEntry env signal symbol monoMs w).1 = false)
  | entered (pos : Position) (ppos : PaperPosition) (hsim : (onEntry cfg signal symbol s).1 = true)
      (hpaper : (paperEntry env signal symbol monoMs w).1 = true)
      (hpos : (onEntry cfg signal symbol s).2.positions.get? symbol = some pos)
      (hppos : (paperEntry env signal symbol monoMs w).2.mem.positions.get? symbol = some ppos)
      (hfill : SameFill pos ppos)

/-- A signal that passes the checks, with parameters that leave a positive distance and a positive risk, has a
positive equity and a positive slipped price, and the clamp is not active at either price, or there is no slippage. -/
def PricesAlike (cfg : PositionSimConfig) (s : PositionSimulator) (signal : EntrySignal) (symbol : String) : Prop :=
  ∀ atr, Ready cfg s symbol atr →
    (0 < cfg.slAtrMultiplier ∧ 0 < cfg.maxSlDistancePct) ∨ 0 < cfg.minSlDistancePct →
      0 < equity s * cfg.riskPct →
        0 < equity s ∧ 0 < fillPrice cfg signal ∧
          (cfg.entrySlippageBps = 0 ∨
            Within (cfg.slAtrMultiplier * atr) cfg.maxSlDistancePct cfg.minSlDistancePct signal.price ∧
              Within (cfg.slAtrMultiplier * atr) cfg.maxSlDistancePct cfg.minSlDistancePct (fillPrice cfg signal))

theorem distanceAt_pos_iff (hatr : 0 < atr) {x : ℚ} (hx : 0 < x) : 0 < distanceAt cfg atr x ↔
    (0 < cfg.slAtrMultiplier ∧ 0 < cfg.maxSlDistancePct) ∨ 0 < cfg.minSlDistancePct := by
  unfold distanceAt
  rw [clamped_pos_iff hx, mul_pos_iff_of_pos_right hatr]

theorem fillPrice_eq_iff (hpx : 0 < signal.price) : signal.price = fillPrice cfg signal ↔ cfg.entrySlippageBps = 0 := by
  unfold fillPrice applyEntrySlippage
  rw [if_neg (not_le.mpr hpx)]
  dsimp only
  split
  · rw [left_eq_mul₀ hpx.ne']
    simp
  · rw [left_eq_mul₀ hpx.ne']
    simp

/-- A distance of the stop, from the stop. -/
theorem computeSlPrice_injective (fill : ℚ) (direction : Direction) :
    Function.Injective fun distance => computeSlPrice fill distance direction := by
  intro d d' h
  unfold computeSlPrice at h
  dsimp only at h
  split at h
  · exact sub_right_injective h
  · exact add_right_injective fill h

/-- Where the simulator opens a position, it is the one that the paper trader opens exactly if the distances agree. -/
theorem sameFill_iff {d d' risk : ℚ} {ppos : PaperPosition} (h : simPosition ppos = filled cfg symbol signal d' risk) :
    SameFill (filled cfg symbol signal d risk) ppos ↔ d = d' := by
  have hsl : ppos.slPrice = (filled cfg symbol signal d' risk).slPrice := congrArg Position.slPrice h
  constructor
  · intro hfill
    exact computeSlPrice_injective _ _ (hfill.slPrice.trans hsl)
  · rintro rfl
    rw [← h]
    exact ⟨rfl, rfl, rfl, rfl, rfl, rfl⟩

/-- The prices are alike where the distances are. -/
theorem pricesAlike_iff (h : Ready cfg s symbol atr) (hpx : 0 < signal.price) (hd : 0 < distanceAt cfg atr signal.price)
    (hrisk : 0 < equity s * cfg.riskPct) : PricesAlike cfg s signal symbol ↔
      0 < equity s ∧ 0 < fillPrice cfg signal ∧
        distanceAt cfg atr signal.price = distanceAt cfg atr (fillPrice cfg signal) := by
  have hparams := (distanceAt_pos_iff h.moving hpx).mp hd
  have hsame : 0 < fillPrice cfg signal →
      (distanceAt cfg atr signal.price = distanceAt cfg atr (fillPrice cfg signal) ↔
        cfg.entrySlippageBps = 0 ∨
          Within (cfg.slAtrMultiplier * atr) cfg.maxSlDistancePct cfg.minSlDistancePct signal.price ∧
            Within (cfg.slAtrMultiplier * atr) cfg.maxSlDistancePct cfg.minSlDistancePct (fillPrice cfg signal)) := by
    intro hfill
    by_cases hslip : cfg.entrySlippageBps = 0
    · rw [← (fillPrice_eq_iff hpx).mpr hslip]
      exact iff_of_true rfl (Or.inl hslip)
    · have hne : signal.price ≠ fillPrice cfg signal := fun heq => hslip ((fillPrice_eq_iff hpx).mp heq)
      rw [or_iff_right hslip]
      exact clamped_eq_iff hpx hfill hne hd
  constructor
  · intro halike
    obtain ⟨heq, hfill, hwithin⟩ := halike atr h hparams hrisk
    exact ⟨heq, hfill, (hsame hfill).mpr hwithin⟩
  · rintro ⟨heq, hfill, hdist⟩ atr' h' - -
    have hatr : atr' = atr := Option.some.inj (h'.known.symm.trans h.known)
    rw [hatr]
    exact ⟨heq, hfill, (hsame hfill).mp hdist⟩

/-- A position that the simulator opens. -/
theorem enteredAlike_opened (hc : SameParams cfg env.cfg) (hw : OpensWrite env) (hm : SameMarket s w.mem symbol)
    (hfresh : Fresh env w.mem symbol monoMs) (h : Ready cfg s symbol atr) (hpx : 0 < signal.price)
    (hd : 0 < distanceAt cfg atr signal.price) (hrisk : 0 < equity s * cfg.riskPct) :
    EnteredAlike cfg env s w signal symbol monoMs ↔ 0 < equity s ∧ 0 < fillPrice cfg signal ∧
      distanceAt cfg atr signal.price = distanceAt cfg atr (fillPrice cfg signal) := by
  have hsim := entryDecision_sized h hpx
  rw [if_neg (not_le.mpr hd), if_neg (not_le.mpr (div_pos hrisk hd))] at hsim
  obtain ⟨htrue, hget⟩ := onEntry_opened hsim
  rcases paper_sized hc hm hfresh h hpx with ⟨refusal, hpaper, hno⟩ | ⟨ppos, hpaper, ⟨hfill, -, heq, -⟩, hppos⟩
  · have hfalse := paperEntry_refused hpaper
    refine iff_of_false ?_ ?_
    · intro halike
      cases halike with
      | refused hfalse' => exact Bool.false_ne_true (hfalse'.symm.trans htrue)
      | entered pos ppos _ htrue' => exact Bool.false_ne_true (hfalse.symm.trans htrue')
    · rintro ⟨heq, hfill, hsame⟩
      exact hno ⟨hfill, hsame ▸ hd, heq, (mul_pos_iff_of_pos_left heq).mp hrisk⟩
  · obtain ⟨htrue', hget'⟩ := paperEntry_opened hw hpaper
    rw [and_iff_right heq, and_iff_right hfill, ← sameFill_iff hppos]
    constructor
    · intro halike
      cases halike with
      | refused hfalse => exact absurd (hfalse.symm.trans htrue) Bool.false_ne_true
      | entered pos p _ _ hpos hp hsame =>
        rw [hget] at hpos
        rw [hget'] at hp
        cases hpos
        cases hp
        exact hsame
    · exact .entered _ ppos htrue htrue' hget hget'

/-- A position that the simulator does not open, for want of a distance or of a risk, the paper trader does not open. -/
theorem enteredAlike_refused (hc : SameParams cfg env.cfg) (hm : SameMarket s w.mem symbol)
    (hfresh : Fresh env w.mem symbol monoMs) (h : Ready cfg s symbol atr) (hpx : 0 < signal.price)
    (hno : ¬ (0 < distanceAt cfg atr signal.price ∧ 0 < equity s * cfg.riskPct)) :
    EnteredAlike cfg env s w signal symbol monoMs := by
  have hsim : ∃ reason, entryDecision cfg s signal symbol = .error reason := by
    rw [entryDecision_sized h hpx]
    by_cases hd : 0 < distanceAt cfg atr signal.price
    · have hrisk := not_lt.mp fun hrisk => hno ⟨hd, hrisk⟩
      rw [if_neg (not_le.mpr hd), if_pos (div_nonpos_of_nonpos_of_nonneg hrisk hd.le)]
      exact ⟨_, rfl⟩
    · rw [if_pos (not_lt.mp hd)]
      exact ⟨_, rfl⟩
  obtain ⟨reason, hsim⟩ := hsim
  rcases paper_sized hc hm hfresh h hpx with ⟨refusal, hpaper, -⟩ | ⟨ppos, -, ⟨hfill, hd', heq, hrisk⟩, -⟩
  · exact .refused (onEntry_refused hsim) (paperEntry_refused hpaper)
  · have hd : 0 < distanceAt cfg atr signal.price :=
      (distanceAt_pos_iff h.moving hpx).mpr ((distanceAt_pos_iff h.moving hfill).mp hd')
    exact absurd ⟨hd, mul_pos heq hrisk⟩ hno

/-- **Entry parity** holds for exactly the signals for which the two prices come to the same. -/
theorem enteredAlike_iff (hc : SameParams cfg env.cfg) (hw : OpensWrite env) (hm : SameMarket s w.mem symbol)
    (hfresh : Fresh env w.mem symbol monoMs) (hpx : 0 < signal.price) :
    EnteredAlike cfg env s w signal symbol monoMs ↔ PricesAlike cfg s signal symbol := by
  by_cases hready : ∀ atr, ¬ Ready cfg s symbol atr
  · obtain ⟨reason, hsim⟩ := entryDecision_refused hready signal
    obtain ⟨refusal, hpaper⟩ := paper_refused hc hm hready signal.direction signal.tsMs (some signal.price) monoMs
    exact iff_of_true (.refused (onEntry_refused hsim) (paperEntry_refused hpaper)) fun atr h => absurd h (hready atr)
  obtain ⟨atr, h⟩ := not_forall_not.mp hready
  by_cases hopens : 0 < distanceAt cfg atr signal.price ∧ 0 < equity s * cfg.riskPct
  · obtain ⟨hd, hrisk⟩ := hopens
    rw [enteredAlike_opened hc hw hm hfresh h hpx hd hrisk, pricesAlike_iff h hpx hd hrisk]
  · refine iff_of_true (enteredAlike_refused hc hm hfresh h hpx hopens) ?_
    intro atr' h' hpos hrisk
    cases Option.some.inj (h'.known.symm.trans h.known)
    exact absurd ⟨(distanceAt_pos_iff h.moving hpx).mpr hpos, hrisk⟩ hopens

/-- Three bars of one width around 100, in both. -/
def widthBars (width : ℚ) : List OHLCVEvent :=
  [0, 5, 10].map fun sec => ⟨sec, sec * 1000, 100, 100 + width, 100 - width, 100, 0, 0, 0, "BTC_USDT", sec⟩

def parityConfig : PositionSimConfig := { atrPeriod := 1 }

def parityEnv : Env := Paper.reliable { atrPeriod := 1, riskPct := 8 / 1000, maxPositionsGlobal := 3 } fun _ => 0

def afterBars (width : ℚ) : PositionSimulator :=
  Runs.run (step parityConfig) (init parityConfig 0 0) ((widthBars width).map .onOhlcv)

def paperAfterBars (width : ℚ) : World :=
  Runs.run (Paper.step parityEnv) (Paper.fresh parityEnv) ((widthBars width).map fun ev => .onOhlcv (sampleOf ev) 0)

def longAt100 : EntrySignal := ⟨.LONG, 10000, 100, "", []⟩

theorem parity_params : SameParams parityConfig parityEnv.cfg := by
  constructor <;> rfl

theorem parity_writes : OpensWrite parityEnv := ⟨fun _ => rfl, fun _ => rfl⟩

/-- Bars from 98 to 102 give a distance between the floor and the cap. -/
theorem enteredAlike_iff_calm :
    EnteredAlike parityConfig parityEnv (afterBars 2) (paperAfterBars 2) longAt100 "BTC_USDT" 0 ↔
      PricesAlike parityConfig (afterBars 2) longAt100 "BTC_USDT" := by
  refine enteredAlike_iff parity_params parity_writes ⟨by decide +kernel, fun k => ?_, by decide +kernel⟩
    ⟨0, by decide +kernel, by decide⟩ (by decide)
  exact iff_of_eq rfl

/-- Bars from 90 to 110: the distance is the cap, of 100 in the one and of 100.02 in the other. -/
theorem not_enteredAlike_capped : ¬ ∀ (cfg : PositionSimConfig) (env : Env) (s : PositionSimulator) (w : World)
    (signal : EntrySignal) (symbol : String) (monoMs : ℤ), SameParams cfg env.cfg → OpensWrite env →
      SameMarket s w.mem symbol → Fresh env w.mem symbol monoMs → 0 < signal.price →
        EnteredAlike cfg env s w signal symbol monoMs := by
  intro hall
  have halike := hall parityConfig parityEnv (afterBars 10) (paperAfterBars 10) longAt100 "BTC_USDT" 0 parity_params
    parity_writes ⟨by decide +kernel, fun _ => iff_of_eq rfl, by decide +kernel⟩ ⟨0, by decide +kernel, by decide⟩
    (by decide)
  have hstop : ((onEntry parityConfig longAt100 "BTC_USDT" (afterBars 10)).2.positions.get? "BTC_USDT").map
      Position.slPrice = some (2438 / 25) := by decide +kernel
  have hpaper : ((paperEntry parityEnv longAt100 "BTC_USDT" 0 (paperAfterBars 10)).2.mem.positions.get?
      "BTC_USDT").map PaperPosition.slPrice = some (195039 / 2000) := by decide +kernel
  have htrue : (onEntry parityConfig longAt100 "BTC_USDT" (afterBars 10)).1 = true := by decide +kernel
  cases halike with
  | refused hsim => exact Bool.false_ne_true (hsim.symm.trans htrue)
  | entered pos ppos _ _ hpos hppos hfill =>
    rw [hpos, Option.map_some, Option.some.injEq] at hstop
    rw [hppos, Option.map_some, Option.some.injEq] at hpaper
    have hsame := hfill.slPrice
    rw [hstop, hpaper] at hsame
    exact absurd hsame (by decide +kernel)

end MikoV2.Parity
