import MikoV2.Lib.Greedy
import Mathlib.Algebra.Order.Ring.Rat

/-!
# The fill model

A taker's order is filled from the front of the book, at a price that is worsened by the slippage.

* `fillLevels` : the loop over the levels; `fillLevels_eq` : it draws from them greedily;
* `computeFill`, `checkRr` : the source's functions; `computeFill_rejected`, `computeFill_filled` : what the first
  returns;
* `RespectsBook` : quantity, status and price of a fill against the book; `Worsens` : what the slippage does;
* `computeFill_respects` : every fill respects the book.

Decimals are exact; `quantize` is the only place where digits are dropped.
-/

namespace MikoV2.Backtest

inductive FillStatus
  | FILLED
  | PARTIAL_CLOSED
  | REJECTED
  | EXPIRED
deriving DecidableEq, Repr

structure FillModelConfig where
  feeTaker : ℚ := 2 / 10000
  leverage : ℤ := 5
  latencyMeanMs : ℚ := 100
  rrMin : ℚ := 14999 / 10000
  depthLevels : ℤ := 10

structure FillResult where
  status : FillStatus
  filledQty : ℚ
  filledPrice : ℚ
  fee : ℚ
  latencyMs : ℤ
  reason : String
deriving DecidableEq

namespace FillModel

/-- `slippage_pct`; `none` for `ZeroDivisionError`. -/
def slippagePct (cfg : FillModelConfig) : Option ℚ :=
  if cfg.leverage = 0 then none else some (min (3 / 100) (1 / 10 / cfg.leverage))

def buySide (side : String) : Bool := side.toLower ∈ ["buy", "long", "bid"]

def applySlippage (cfg : FillModelConfig) (price : ℚ) (side : String) : Option ℚ :=
  (slippagePct cfg).map fun slippage => if buySide side then price * (1 + slippage) else price * (1 - slippage)

/-- `int(value)`: towards zero. -/
def truncate (value : ℚ) : ℤ := value.num.tdiv value.den

/-- `_quantize(value, precision)`: towards zero. -/
def quantize (value : ℚ) (precision : ℕ) : ℚ := truncate (value * 10 ^ precision) / 10 ^ precision

/-- `sample_latency`, with what `normalvariate` returns, if it does. -/
def sampleLatency (cfg : FillModelConfig) (normalvariate : Option ℚ) : ℤ :=
  max 0 (truncate (normalvariate.getD cfg.latencyMeanMs))

/-- `depth[:n]` -/
def firstLevels (n : ℤ) (depth : List (ℚ × ℚ)) : List (ℚ × ℚ) :=
  depth.take (if 0 ≤ n then n else depth.length + n).toNat

/-- The variables of the loop. -/
structure Filling where
  remaining : ℚ
  totalCost : ℚ
  totalFilled : ℚ

def fillLevels : List (ℚ × ℚ) → Filling → Filling
  | [], s => s
  | (levelPrice, levelQty) :: levels, s =>
    if s.remaining ≤ 0 then s
    else if levelQty ≤ 0 then fillLevels levels s
    else
      let take := min s.remaining levelQty
      fillLevels levels ⟨s.remaining - take, s.totalCost + take * levelPrice, s.totalFilled + take⟩

def rejected (reason : String) : FillResult := ⟨.REJECTED, 0, 0, 0, 0, reason⟩

/-- `compute_fill`, with what `normalvariate` returns; the argument `price` is not read. -/
def computeFill (cfg : FillModelConfig) (side : String) (qty : ℚ) (depth : List (ℚ × ℚ)) (normalvariate : Option ℚ) :
    Option FillResult :=
  if qty ≤ 0 then some (rejected "ZERO_QTY")
  else if depth = [] then some (rejected "EMPTY_DEPTH")
  else
    let s := fillLevels (firstLevels cfg.depthLevels depth) ⟨qty, 0, 0⟩
    if s.totalFilled = 0 then some (rejected "NO_LIQUIDITY")
    else (applySlippage cfg (s.totalCost / s.totalFilled) side).map fun slipped =>
      let avgPrice := quantize slipped 8
      { status := if 0 < s.remaining then .PARTIAL_CLOSED else .FILLED
        filledQty := s.totalFilled
        filledPrice := avgPrice
        fee := quantize (avgPrice * s.totalFilled * cfg.feeTaker) 8
        latencyMs := sampleLatency cfg normalvariate
        reason := if 0 < s.remaining then "INSUFFICIENT_DEPTH" else "" }

/-- `check_rr` -/
def checkRr (cfg : FillModelConfig) (entry tp sl feeTaker feeMaker : ℚ) : Bool × ℚ :=
  let totalFee := entry * feeTaker + tp * feeMaker
  let grossProfit := |tp - entry|
  let grossLoss := |entry - sl|
  if grossLoss ≤ 0 then (false, 0)
  else
    let netProfit := grossProfit - totalFee
    let netLoss := grossLoss + totalFee
    if netLoss ≤ 0 then (false, 0)
    else (cfg.rrMin ≤ netProfit / netLoss, netProfit / netLoss)

/-! ## The loop -/

/-- The loop draws from the levels greedily. -/
theorem fillLevels_eq : ∀ (levels : List (ℚ × ℚ)) (s : Filling), 0 ≤ s.remaining →
    fillLevels levels s =
      { remaining := s.remaining - (Greedy.take s.remaining levels).sum
        totalCost := s.totalCost + Greedy.cost levels (Greedy.take s.remaining levels)
        totalFilled := s.totalFilled + (Greedy.take s.remaining levels).sum }
  | [], s, _ => by simp [fillLevels, Greedy.take]
  | (levelPrice, levelQty) :: levels, s, hs => by
    rw [fillLevels]
    by_cases hdone : s.remaining ≤ 0
    · have hzero : s.remaining = 0 := le_antisymm hdone hs
      rw [if_pos hdone, hzero, Greedy.cost_take_zero, Greedy.sum_take _ le_rfl,
        min_eq_left (Greedy.capacity_nonneg _), sub_zero, add_zero, add_zero, ← hzero]
    · rw [if_neg hdone]
      by_cases hempty : levelQty ≤ 0
      · have havail : Greedy.avail (levelPrice, levelQty) = 0 := max_eq_right hempty
        rw [if_pos hempty, fillLevels_eq levels s hs, Greedy.take, havail, min_eq_right hs, List.sum_cons,
          Greedy.cost_cons, sub_zero, zero_add, zero_mul, zero_add]
      · have havail : Greedy.avail (levelPrice, levelQty) = levelQty := max_eq_left (not_le.mp hempty).le
        rw [if_neg hempty, fillLevels_eq levels _ (sub_nonneg.mpr (min_le_left _ _)), Greedy.take, havail,
          List.sum_cons, Greedy.cost_cons]
        congr 1
        · exact (sub_add_eq_sub_sub _ _ _).symm
        · exact add_assoc _ _ _
        · exact add_assoc _ _ _

variable {cfg : FillModelConfig} {side : String} {qty : ℚ} {depth : List (ℚ × ℚ)} {normalvariate : Option ℚ}

/-! ## Against the book -/

/-- The first `depth_levels` levels. -/
def bookLevels (cfg : FillModelConfig) (depth : List (ℚ × ℚ)) : List (ℚ × ℚ) := depth.take cfg.depthLevels.toNat

/-- What these have for sale: the sum of the positive quantities. -/
def positiveQty (levels : List (ℚ × ℚ)) : ℚ := ((levels.map Prod.snd).filter (0 < ·)).sum

/-- The quantity that can be filled. -/
def fillable (cfg : FillModelConfig) (qty : ℚ) (depth : List (ℚ × ℚ)) : ℚ := min qty (positiveQty (bookLevels cfg depth))

/-- The average price of a greedy fill of the levels, weighted by volume. -/
def averagePrice (qty : ℚ) (levels : List (ℚ × ℚ)) : ℚ :=
  Greedy.cost levels (Greedy.take qty levels) / (Greedy.take qty levels).sum

/-- No way to fill the quantity from the book is better for the taker. -/
def Best (side : String) (depth : List (ℚ × ℚ)) (quantity price : ℚ) : Prop :=
  ∀ xs, Greedy.Fits depth xs → xs.sum = quantity →
    if buySide side then price * quantity ≤ Greedy.cost depth xs else Greedy.cost depth xs ≤ price * quantity

/-- The best prices first. -/
def BestFirst (side : String) (depth : List (ℚ × ℚ)) : Prop :=
  depth.Pairwise fun a b => if buySide side then a.1 ≤ b.1 else b.1 ≤ a.1

/-- A price that is no better for the taker. -/
def Worsens (side : String) (price worse : ℚ) : Prop := if buySide side then price ≤ worse else worse ≤ price

structure RespectsBook (cfg : FillModelConfig) (side : String) (qty : ℚ) (depth : List (ℚ × ℚ)) (res : FillResult) :
    Prop where
  quantity : res.filledQty = fillable cfg qty depth
  filled : res.status = .FILLED ↔ fillable cfg qty depth = qty
  partially : res.status = .PARTIAL_CLOSED ↔ 0 < fillable cfg qty depth ∧ fillable cfg qty depth < qty
  rejected : res.status = .REJECTED ↔ fillable cfg qty depth = 0
  /-- the average, worsened by the slippage -/
  price : res.status ≠ .REJECTED → ∃ slipped,
    applySlippage cfg (averagePrice qty (bookLevels cfg depth)) side = some slipped ∧ res.filledPrice = quantize slipped 8
  /-- between the prices of two of the levels that were drawn from -/
  above : res.status ≠ .REJECTED → ∃ l ∈ Greedy.used (bookLevels cfg depth) (Greedy.take qty (bookLevels cfg depth)),
    l.1 ≤ averagePrice qty (bookLevels cfg depth)
  below : res.status ≠ .REJECTED → ∃ l ∈ Greedy.used (bookLevels cfg depth) (Greedy.take qty (bookLevels cfg depth)),
    averagePrice qty (bookLevels cfg depth) ≤ l.1
  best : res.status ≠ .REJECTED → BestFirst side depth →
    Best side depth res.filledQty (averagePrice qty (bookLevels cfg depth))

theorem positiveQty_eq (levels : List (ℚ × ℚ)) : positiveQty levels = Greedy.capacity levels := by
  induction levels with
  | nil => rfl
  | cons l levels ih =>
    have hrest : Greedy.capacity (l :: levels) = Greedy.avail l + Greedy.capacity levels := rfl
    unfold positiveQty at ih ⊢
    rw [List.map_cons, List.filter_cons, hrest, ← ih]
    by_cases hpos : 0 < l.2
    · rw [if_pos (decide_eq_true hpos), List.sum_cons, Greedy.avail, max_eq_left hpos.le]
    · rw [if_neg (by simpa using hpos), Greedy.avail, max_eq_right (not_lt.mp hpos), zero_add]

theorem sum_take_book (hq : 0 < qty) : (Greedy.take qty (bookLevels cfg depth)).sum = fillable cfg qty depth := by
  rw [Greedy.sum_take _ hq.le, fillable, positiveQty_eq]

theorem fillable_nonneg (hq : 0 < qty) : 0 ≤ fillable cfg qty depth := by
  rw [fillable, positiveQty_eq]
  exact le_min hq.le (Greedy.capacity_nonneg _)

theorem fillable_le : fillable cfg qty depth ≤ qty := min_le_left _ _

theorem firstLevels_eq (hlevels : 0 ≤ cfg.depthLevels) : firstLevels cfg.depthLevels depth = bookLevels cfg depth := by
  rw [firstLevels, if_pos hlevels]
  rfl

/-- Nothing to draw from. -/
theorem computeFill_rejected (hq : 0 < qty) (hlevels : 0 ≤ cfg.depthLevels) (hnone : fillable cfg qty depth = 0) :
    ∃ reason, computeFill cfg side qty depth normalvariate = some (rejected reason) := by
  unfold computeFill
  rw [if_neg (not_le.mpr hq)]
  by_cases hdepth : depth = []
  · rw [if_pos hdepth]
    exact ⟨_, rfl⟩
  · rw [if_neg hdepth, firstLevels_eq hlevels, fillLevels_eq _ _ hq.le]
    dsimp only
    rw [sum_take_book hq, hnone, zero_add, if_pos rfl]
    exact ⟨_, rfl⟩

/-- What is filled, and at which price. -/
theorem computeFill_filled (hq : 0 < qty) (hlevels : 0 ≤ cfg.depthLevels) (hsome : fillable cfg qty depth ≠ 0) :
    computeFill cfg side qty depth normalvariate =
      (applySlippage cfg (averagePrice qty (bookLevels cfg depth)) side).map fun slipped =>
        { status := if fillable cfg qty depth < qty then .PARTIAL_CLOSED else .FILLED
          filledQty := fillable cfg qty depth
          filledPrice := quantize slipped 8
          fee := quantize (quantize slipped 8 * fillable cfg qty depth * cfg.feeTaker) 8
          latencyMs := sampleLatency cfg normalvariate
          reason := if fillable cfg qty depth < qty then "INSUFFICIENT_DEPTH" else "" } := by
  have hdepth : depth ≠ [] := by
    rintro rfl
    refine hsome ?_
    rw [fillable, bookLevels, List.take_nil]
    exact min_eq_right hq.le
  unfold computeFill
  rw [if_neg (not_le.mpr hq), if_neg hdepth, firstLevels_eq hlevels, fillLevels_eq _ _ hq.le]
  dsimp only
  simp only [sum_take_book hq, zero_add, if_neg hsome, sub_pos, averagePrice]

theorem best_average (hq : 0 < qty) (hsome : 0 < fillable cfg qty depth) (hsorted : BestFirst side depth) :
    Best side depth (fillable cfg qty depth) (averagePrice qty (bookLevels cfg depth)) := by
  intro xs hfits hsum
  have hnonneg := (fillable_nonneg hq : 0 ≤ fillable cfg qty depth)
  -- as much is drawn greedily from the whole book, at the same cost
  have hcap : fillable cfg qty depth ≤ Greedy.capacity (bookLevels cfg depth) := by
    rw [fillable, positiveQty_eq]
    exact min_le_right _ _
  have htake : Greedy.take (fillable cfg qty depth) (bookLevels cfg depth) = Greedy.take qty (bookLevels cfg depth) := by
    rw [fillable, positiveQty_eq, Greedy.take_min_capacity _ hq.le]
  have hcost : Greedy.cost depth (Greedy.take (fillable cfg qty depth) depth) =
      averagePrice qty (bookLevels cfg depth) * fillable cfg qty depth := by
    have hall := Greedy.cost_take_append (bookLevels cfg depth) (depth.drop cfg.depthLevels.toNat) hnonneg hcap
    rw [bookLevels, List.take_append_drop, ← bookLevels, htake] at hall
    rw [hall, averagePrice, sum_take_book hq, div_mul_cancel₀ _ hsome.ne']
  have hsame : xs.sum = (Greedy.take (fillable cfg qty depth) depth).sum := by
    have hwhole := Greedy.capacity_le_append (bookLevels cfg depth) (depth.drop cfg.depthLevels.toNat)
    rw [bookLevels, List.take_append_drop, ← bookLevels] at hwhole
    rw [hsum, Greedy.sum_take _ hnonneg, min_eq_left (hcap.trans hwhole)]
  rw [← hcost]
  unfold BestFirst at hsorted
  split
  · rename_i hbuy
    simp only [hbuy, if_true] at hsorted
    exact Greedy.cost_take_le hsorted hnonneg hfits hsame
  · rename_i hsell
    simp only [hsell] at hsorted
    exact Greedy.le_cost_take hsorted hnonneg hfits hsame

/-- A positive slippage worsens a price that is not negative. -/
theorem worsens_slippage {price : ℚ} (hlev : 0 < cfg.leverage) (hprice : 0 ≤ price) :
    ∃ slipped, applySlippage cfg price side = some slipped ∧ Worsens side price slipped := by
  have hslip : 0 ≤ min (3 / 100 : ℚ) (1 / 10 / cfg.leverage) := by
    have hlev' : (0 : ℚ) < cfg.leverage := by exact_mod_cast hlev
    exact le_min (by norm_num) (by positivity)
  have hmore := mul_nonneg hprice hslip
  unfold applySlippage slippagePct Worsens
  rw [if_neg hlev.ne']
  refine ⟨_, rfl, ?_⟩
  split
  · linarith
  · linarith

/-- **A fill respects the book.** With a leverage there is a result: it fills what there is of the quantity, and says
so; its price is the average of a greedy fill before the slippage, between prices of the levels used, and the best there
is when the book is sorted. With a positive leverage the slippage worsens an average that is not negative. -/
theorem computeFill_respects (hq : 0 < qty) (hlevels : 0 ≤ cfg.depthLevels) (hlev : cfg.leverage ≠ 0) :
    (∃ res, computeFill cfg side qty depth normalvariate = some res ∧ RespectsBook cfg side qty depth res) ∧
      (0 < cfg.leverage → 0 ≤ averagePrice qty (bookLevels cfg depth) → ∃ slipped,
        applySlippage cfg (averagePrice qty (bookLevels cfg depth)) side = some slipped ∧
          Worsens side (averagePrice qty (bookLevels cfg depth)) slipped) := by
  refine ⟨?_, worsens_slippage⟩
  have hnonneg : 0 ≤ fillable cfg qty depth := fillable_nonneg hq
  rcases hnonneg.eq_or_lt with hnone | hsome
  · obtain ⟨reason, hres⟩ : ∃ reason, computeFill cfg side qty depth normalvariate = some (rejected reason) :=
      computeFill_rejected hq hlevels hnone.symm
    refine ⟨_, hres, ?_, ?_, ?_, ?_, ?_, ?_, ?_, ?_⟩
    · exact hnone
    · exact iff_of_false nofun (hnone ▸ hq.ne)
    · exact iff_of_false nofun fun h => absurd hnone h.1.ne
    · exact iff_of_true rfl hnone.symm
    all_goals exact fun hne => absurd rfl hne
  · obtain ⟨slipped, hslipped⟩ : ∃ slipped,
        applySlippage cfg (averagePrice qty (bookLevels cfg depth)) side = some slipped := by
      unfold applySlippage slippagePct
      rw [if_neg hlev]
      exact ⟨_, rfl⟩
    have hsum : 0 < (Greedy.take qty (bookLevels cfg depth)).sum := (sum_take_book hq).symm ▸ hsome
    have hfits := Greedy.fits_take (bookLevels cfg depth) hq.le
    refine ⟨_, (computeFill_filled hq hlevels hsome.ne').trans (by rw [hslipped]; rfl), ?_, ?_, ?_, ?_, ?_, ?_, ?_, ?_⟩
    · rfl
    · dsimp only
      split
      · rename_i hless
        exact iff_of_false nofun hless.ne
      · rename_i hall
        exact iff_of_true rfl (le_antisymm fillable_le (not_lt.mp hall))
    · dsimp only
      split
      · rename_i hless
        exact iff_of_true rfl ⟨hsome, hless⟩
      · rename_i hall
        exact iff_of_false nofun fun h => hall h.2
    · dsimp only
      split
      · exact iff_of_false nofun hsome.ne'
      · exact iff_of_false nofun hsome.ne'
    · exact fun _ => ⟨slipped, hslipped, rfl⟩
    · exact fun _ => Greedy.exists_price_le hfits hsum
    · exact fun _ => Greedy.exists_le_price hfits hsum
    · exact fun _ hsorted => best_average hq hsome hsorted

theorem computeFill_respects_two :
    (0 < (2 : ℚ) ∧ 0 ≤ ({} : FillModelConfig).depthLevels ∧ ({} : FillModelConfig).leverage ≠ 0) ∧
      (∃ res, computeFill {} "buy" 2 [(100, 1), (101, 3)] (some 80) = some res ∧
        RespectsBook {} "buy" 2 [(100, 1), (101, 3)] res) ∧
      (0 < ({} : FillModelConfig).leverage → 0 ≤ averagePrice 2 (bookLevels {} [(100, 1), (101, 3)]) → ∃ slipped,
        applySlippage {} (averagePrice 2 (bookLevels {} [(100, 1), (101, 3)])) "buy" = some slipped ∧
          Worsens "buy" (averagePrice 2 (bookLevels {} [(100, 1), (101, 3)])) slipped) :=
  ⟨⟨by decide, by decide, by decide⟩, computeFill_respects (by decide) (by decide) (by decide)⟩

/-- Slippage that is better for the taker: with a negative leverage, and with a negative price. Without a leverage
there is no result. -/
theorem not_worsens_negative :
    (¬ ∃ slipped, applySlippage { leverage := -10 } (averagePrice 1 [(100, 1)]) "buy" = some slipped ∧
        Worsens "buy" (averagePrice 1 [(100, 1)]) slipped) ∧
      (¬ ∃ slipped, applySlippage {} (averagePrice 1 [(-100, 1)]) "buy" = some slipped ∧
        Worsens "buy" (averagePrice 1 [(-100, 1)]) slipped) ∧
      computeFill { leverage := 0 } "buy" 1 [(100, 1)] none = none := by
  have hless : applySlippage { leverage := -10 } (averagePrice 1 [(100, 1)]) "buy" = some 99 := by decide +kernel
  have hneg : applySlippage {} (averagePrice 1 [(-100, 1)]) "buy" = some (-102) := by decide +kernel
  refine ⟨?_, ?_, by decide +kernel⟩
  · rintro ⟨slipped, hslipped, hworse⟩
    obtain rfl := Option.some.inj (hless.symm.trans hslipped)
    exact absurd hworse (by unfold Worsens; decide +kernel)
  · rintro ⟨slipped, hslipped, hworse⟩
    obtain rfl := Option.some.inj (hneg.symm.trans hslipped)
    exact absurd hworse (by unfold Worsens; decide +kernel)

end FillModel

end MikoV2.Backtest
