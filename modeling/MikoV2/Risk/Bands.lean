import Mathlib.Analysis.Complex.Exponential
import MikoV2.Lib.Runs
import MikoV2.Risk.WhaleRadar

/-!
# Band counts

`record_trade` counts the band of a trade that it keeps; `cleanup_old` drops the trades that have decayed away, and
does not count them off.

* `cleanupOld`, `getTrustScore` : the source's functions;
* `BandsMatch` : the counts are those of the stored trades; `getTrustScore_of_bandsMatch` : then so is the score;
* `cleanupOld_matches_iff` : a cleanup keeps that exactly when it drops nothing;
* `bandsMatch_iff` : the runs along which the counts match.
-/

namespace MikoV2.Risk
open Writer Transactions

namespace WhaleRadar

/-- `age_hours`; a trade of the future has no age. -/
def ageHours (nowMs : ℤ) (e : TradeEntry) : ℚ := max (((nowMs - e.exchangeTs : ℤ) : ℚ) / 3600000) 0

/-- `math.exp(-age_hours)` -/
noncomputable def weight (nowMs : ℤ) (e : TradeEntry) : ℝ := Real.exp (-(ageHours nowMs e : ℝ))

/-- `cleanup_old`, at the time that it reads. -/
noncomputable def cleanupOld (nowMs : ℤ) (r : WhaleRadar) : WhaleRadar :=
  { r with trades := fun symbol => (r.trades symbol).filter fun e => ¬ weight nowMs e < 1 / 100 }

/-- `self._bands.get(symbol, {}).get(band, 0)` -/
def bandCount (r : WhaleRadar) (symbol : String) (band : ℤ) : ℕ :=
  (((r.bands symbol).getD fun _ => none) band).getD 0

/-- The score of trades with so many of them in the band. -/
def scoreOf (trades : List TradeEntry) (inBand : ℕ) : ℚ :=
  if trades = [] then 1 / 2
  else
    let real := trades.countP TradeEntry.isReal
    let spoof := trades.countP TradeEntry.isSpoof
    let base : ℚ := 1 / 2 + real / trades.length * (1 / 2) - spoof / trades.length * (3 / 10)
    let base := if inBand > 0 then base + min (1 / 5) (inBand * (2 / 100)) else base
    let base := if base < 0 then 0 else base
    if base > 1 then 1 else base

/-- `get_trust_score` -/
def getTrustScore (symbol : String) (price tickSize : ℚ) (r : WhaleRadar) : ℚ :=
  scoreOf (r.trades symbol) (r.bandCount symbol (bandKey price tickSize))

inductive RadarCall where
  | recordTrade (s : CallScript) (t : Trade)
  | cleanupOld (nowMs : ℤ)

noncomputable def step (cfg : WhaleRadarConfig) (w : WhaleRadar × Conn Db) : RadarCall → WhaleRadar × Conn Db
  | .recordTrade s t => recordTrade cfg s t w
  | .cleanupOld nowMs => (w.1.cleanupOld nowMs, w.2)

/-- The stored trades of a band. -/
def stored (r : WhaleRadar) (symbol : String) (band : ℤ) : ℕ := (r.trades symbol).countP fun e => e.band = band

/-- Every band counts the stored trades in it. -/
def BandsMatch (r : WhaleRadar) : Prop := ∀ symbol band, r.bandCount symbol band = r.stored symbol band

/-- A cleanup finds a trade that has decayed away. -/
def Drops (r : WhaleRadar) : RadarCall → Prop
  | .recordTrade _ _ => False
  | .cleanupOld nowMs => ∃ symbol, ∃ e ∈ r.trades symbol, weight nowMs e < 1 / 100

theorem bandsMatch_fresh : BandsMatch fresh := fun _ _ => rfl

/-- When the counts match, the score is one of the stored trades. -/
theorem getTrustScore_of_bandsMatch {r : WhaleRadar} (h : r.BandsMatch) (symbol : String) (price tickSize : ℚ) :
    r.getTrustScore symbol price tickSize =
      scoreOf (r.trades symbol) ((r.trades symbol).countP fun e => e.band = bandKey price tickSize) := by
  rw [getTrustScore, h]
  rfl

/-- One more trade is one more in its band. -/
theorem BandsMatch.recordTrade {w : WhaleRadar × Conn Db} (h : w.1.BandsMatch) (cfg : WhaleRadarConfig)
    (s : CallScript) (t : Trade) : (recordTrade cfg s t w).1.BandsMatch := by
  unfold WhaleRadar.recordTrade
  split
  · exact h
  · intro symbol band
    have hbefore := h symbol band
    unfold bandCount stored at hbefore ⊢
    by_cases hsymbol : symbol = t.symbol
    · subst hsymbol
      dsimp only
      rw [Function.update_self, Function.update_self, Option.getD_some, List.countP_append]
      by_cases hband : band = (entry cfg t).band
      · subst hband
        rw [Function.update_self, Option.getD_some, hbefore]
        simp
      · rw [Function.update_of_ne hband, hbefore]
        simp [Ne.symm hband]
    · dsimp only
      rw [Function.update_of_ne hsymbol, Function.update_of_ne hsymbol]
      exact hbefore

/-- A cleanup keeps the match exactly when it drops nothing. -/
theorem cleanupOld_matches_iff {r : WhaleRadar} (h : r.BandsMatch) (nowMs : ℤ) :
    (r.cleanupOld nowMs).BandsMatch ↔ ¬ r.Drops (.cleanupOld nowMs) := by
  constructor
  · rintro hafter ⟨symbol, e, he, hdecayed⟩
    have hcount : r.stored symbol e.band = (r.cleanupOld nowMs).stored symbol e.band :=
      (h symbol e.band).symm.trans (hafter symbol e.band)
    rw [stored, stored, List.countP_eq_countP_filter_add _ _ fun e' => ¬ weight nowMs e' < 1 / 100] at hcount
    -- the dropped trades of the band
    have hdropped : 0 < ((r.trades symbol).filter fun e' => !decide ¬ weight nowMs e' < 1 / 100).countP
        fun e' => e'.band = e.band := by
      refine List.countP_pos_iff.mpr ⟨e, List.mem_filter.mpr ⟨he, ?_⟩, decide_eq_true rfl⟩
      simpa using hdecayed
    have hkept : (r.cleanupOld nowMs).trades symbol =
        (r.trades symbol).filter fun e' => ¬ weight nowMs e' < 1 / 100 := rfl
    rw [hkept] at hcount
    omega
  · intro hkeeps symbol band
    have hall : (r.cleanupOld nowMs).trades symbol = r.trades symbol := by
      refine List.filter_eq_self.mpr fun e he => ?_
      exact decide_eq_true fun hdecayed => hkeeps ⟨symbol, e, he, hdecayed⟩
    rw [stored, hall]
    exact h symbol band

/-- **The band counts.** They match the stored trades all along a run exactly when no cleanup of the run drops a
trade. -/
theorem bandsMatch_iff (cfg : WhaleRadarConfig) (c : Conn Db) (calls : List RadarCall) :
    Runs.Always (fun w => BandsMatch w.1) (step cfg) (fresh, c) calls ↔
      Runs.Guarded (fun w call => ¬ Drops w.1 call) (step cfg) (fresh, c) calls := by
  have hsteps : Runs.Always (fun w => BandsMatch w.1) (step cfg) (fresh, c) calls ↔
      Runs.Guarded (fun w call => BandsMatch (step cfg w call).1) (step cfg) (fresh, c) calls :=
    Runs.always_iff_guarded bandsMatch_fresh
  rw [hsteps]
  refine Runs.guarded_iff_guarded (I := fun w => BandsMatch w.1) bandsMatch_fresh (fun w call _ h hok => ?_)
    fun w call _ h hok hmatch => ?_
  · cases call with
    | recordTrade s t => exact ⟨h.recordTrade cfg s t, h.recordTrade cfg s t⟩
    | cleanupOld nowMs =>
      have hmatch := (cleanupOld_matches_iff h nowMs).mpr hok
      exact ⟨hmatch, hmatch⟩
  · cases call with
    | recordTrade s t => exact hok id
    | cleanupOld nowMs => exact hok ((cleanupOld_matches_iff h nowMs).mp hmatch)

def whaleTrade : Trade := ⟨"BTCUSDT", 50000, 1 / 10, 4000, 1 / 2, 100000, 0⟩

/-- Twenty-five hours leave less than a hundredth of a trade. -/
theorem decayed_dayLater : weight 90000000 (entry {} whaleTrade) < 1 / 100 := by
  have hage : ageHours 90000000 (entry {} whaleTrade) = 25 := by decide +kernel
  have hexp : (1 : ℝ) + 25 + 25 ^ 2 / 2 ≤ Real.exp 25 := Real.quadratic_le_exp_of_nonneg (by norm_num)
  rw [weight, hage, Rat.cast_ofNat, Real.exp_neg, one_div]
  exact inv_strictAnti₀ (by norm_num) (by linarith)

/-- A trade and a cleanup twenty-five hours later: the trade is gone, and still counted. -/
theorem not_bandsMatch_dayLater : ¬ Runs.Always (fun w => BandsMatch w.1) (step {}) (fresh, Conn.openDb {})
    [.recordTrade {} whaleTrade, .cleanupOld 90000000] := by
  intro h
  have hmatch := bandsMatch_fresh.recordTrade (w := (fresh, Conn.openDb {})) {} {} whaleTrade
  refine (cleanupOld_matches_iff hmatch 90000000).mp h.last ⟨"BTCUSDT", entry {} whaleTrade, ?_, decayed_dayLater⟩
  exact List.mem_singleton_self (entry {} whaleTrade)

end WhaleRadar

end MikoV2.Risk
