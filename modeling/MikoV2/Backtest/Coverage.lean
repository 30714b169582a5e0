import Mathlib.Data.Finset.Sort
import Mathlib.Data.Rat.Floor
import Mathlib.Tactic.Linarith
import MikoV2.Backtest.DataQuality
import MikoV2.Lib.Dict

/-!
# The coverage report

The completeness of a symbol is the number of its samples over the number of slots of the expected interval, from
its first second to its last.

* `coverageReport` : the report over the symbols, on their distinct seconds in order;
* `minCompleteness_le` : the reported minimum is one of the symbols' completeness or less;
* `length_add_missing` : with an interval of a second, the samples and the missing seconds are all seconds;
* `honest_iff` : the completeness is the share of the slots with a sample exactly when no slot holds two.
-/

namespace MikoV2.Backtest

open Py

/-- `_GAPS_SAMPLE_MAX`. -/
def gapsSampleMax : ℕ := 10

/-- `round(x, 6)`, to the even neighbour when two are as near. -/
def round6 (x : ℚ) : ℚ :=
  let scaled := x * 1000000
  let down := ⌊scaled⌋
  let up := scaled - down > 1 / 2 ∨ (scaled - down = 1 / 2 ∧ ¬ 2 ∣ down)
  ((if up then down + 1 else down : ℤ) : ℚ) / 1000000

structure SymbolCoverage where
  completeness : ℚ
  sampleCount : ℕ
  expectedCount : ℤ
  spanSec : ℤ
  maxGapSec : ℤ
  gapCount : ℕ
  gapsSample : List (ℤ × ℤ)
  gapsTruncated : Bool

namespace SymbolCoverage

def absent : SymbolCoverage := ⟨0, 0, 0, 0, 0, 0, [], false⟩

def ofReport (rep : DataQualityReport) : SymbolCoverage where
  completeness := round6 rep.completeness
  sampleCount := rep.sampleCount
  expectedCount := rep.expectedCount
  spanSec := rep.spanSec
  maxGapSec := rep.maxGapSec
  gapCount := rep.gapCount
  gapsSample := rep.gaps.take gapsSampleMax
  gapsTruncated := rep.gapCount > gapsSampleMax

end SymbolCoverage

/-- What the loop of `_coverage_report` keeps. -/
structure CoverageLoop where
  bySymbol : Dict String SymbolCoverage := .empty
  minCompleteness : ℚ := 1
  maxGapMs : ℤ := 0
  anomaly : Bool := false

structure CoverageReport where
  bySymbol : Dict String SymbolCoverage
  minCompleteness : ℚ
  maxGapMs : ℤ
  symbolCount : ℕ
  collectorRateAnomaly : Bool

/-- `sorted(set(secs))`. -/
def distinctSecs (secs : List ℤ) : List ℤ := secs.toFinset.sort

/-- A round of the loop. -/
def coverSymbol (expectedIntervalSec : ℤ) (c : CoverageLoop) (e : String × List ℤ) : CoverageLoop :=
  if e.2 = [] then { c with bySymbol := c.bySymbol.set e.1 .absent, minCompleteness := 0 }
  else
    let rep := analyzeOhlcvSecs e.1 (distinctSecs e.2) expectedIntervalSec
    { bySymbol := c.bySymbol.set e.1 (.ofReport rep)
      minCompleteness := if rep.completeness < c.minCompleteness then rep.completeness else c.minCompleteness
      maxGapMs := if rep.maxGapSec * 1000 > c.maxGapMs then rep.maxGapSec * 1000 else c.maxGapMs
      anomaly := c.anomaly || (distinctSecs e.2).length ≠ e.2.length }

def coverageLoop (secsBySymbol : Dict String (List ℤ)) (expectedIntervalSec : ℤ) : CoverageLoop :=
  secsBySymbol.items.foldl (coverSymbol expectedIntervalSec) {}

/-- `_coverage_report(secs_by_symbol, expected_interval_sec)`. -/
def coverageReport (secsBySymbol : Dict String (List ℤ)) (expectedIntervalSec : ℤ) : CoverageReport :=
  let c := coverageLoop secsBySymbol expectedIntervalSec
  ⟨c.bySymbol, round6 c.minCompleteness, c.maxGapMs, c.bySymbol.keys.length, c.anomaly⟩

theorem distinctSecs_sorted (secs : List ℤ) : (distinctSecs secs).Pairwise (· < ·) :=
  secs.toFinset.sortedLT_sort.pairwise

/-! ## Slots -/

/-- The slot of a second, when the slots start at `first`. -/
def slotOf (first k s : ℤ) : ℤ := (s - first) / k

/-- The slots from `first` to `last`. -/
def slots (first last k : ℤ) : Finset ℤ :=
  (Finset.range (((last - first) / k).toNat + 1)).image fun i : ℕ => (i : ℤ)

/-- The slots with a sample. -/
def covered (first last k : ℤ) (secs : List ℤ) : Finset ℤ :=
  (slots first last k).filter fun i => ∃ s ∈ secs, first + i * k ≤ s ∧ s < first + (i + 1) * k

/-- The share of the slots from the first second to the last with a sample. -/
def coveredShare (secs : List ℤ) (k : ℤ) : ℚ :=
  match secs.head?, secs.getLast? with
  | some first, some last => (covered first last k secs).card / (slots first last k).card
  | _, _ => 0

/-- No slot holds two samples. -/
def OnePerSlot (secs : List ℤ) (k : ℤ) : Prop := ∀ first ∈ secs.head?, (secs.map (slotOf first k)).Nodup

/-- The seconds between the samples around each gap. -/
def missingSecs (gaps : List (ℤ × ℤ)) : ℤ := (gaps.map fun g => g.2 - g.1 - 1).sum

/-- The report says no more than the samples cover. -/
structure HonestCoverage (secs : List ℤ) (k : ℤ) (rep : DataQualityReport) : Prop where
  le_one : rep.completeness ≤ 1
  le_covered : rep.completeness ≤ coveredShare secs k
  accounted : k = 1 → rep.sampleCount + missingSecs rep.gaps = rep.expectedCount

/-! ## What the samples cover -/

section Samples
variable {first last k : ℤ} {secs rest : List ℤ}

theorem exists_last (first : ℤ) (rest : List ℤ) : ∃ last, (first :: rest).getLast? = some last :=
  ⟨_, List.getLast?_eq_some_getLast (List.cons_ne_nil first rest)⟩

theorem le_last (hsecs : secs.Pairwise (· < ·)) (hlast : secs.getLast? = some last) {s : ℤ} (hs : s ∈ secs) :
    s ≤ last := by
  obtain ⟨earlier, rfl⟩ := List.getLast?_eq_some_iff.mp hlast
  rw [List.pairwise_append] at hsecs
  rcases List.mem_append.mp hs with h | h
  · exact le_of_lt (hsecs.2.2 s h last (List.mem_singleton_self last))
  · exact le_of_eq (List.mem_singleton.mp h)

theorem first_le (hsecs : (first :: rest).Pairwise (· < ·)) {s : ℤ} (hs : s ∈ first :: rest) : first ≤ s := by
  rcases List.mem_cons.mp hs with rfl | h
  · exact le_refl s
  · exact le_of_lt (List.rel_of_pairwise_cons hsecs h)

/-- The bounds of a slot are those of the quotient. -/
theorem slotOf_eq_iff (hk : 1 ≤ k) (s i : ℤ) : slotOf first k s = i ↔ first + i * k ≤ s ∧ s < first + (i + 1) * k := by
  have hpos : 0 < k := by omega
  have hlow := Int.le_ediv_iff_mul_le (c := k) (a := i) (b := s - first) hpos
  have hup := Int.ediv_lt_iff_lt_mul (c := k) (a := s - first) (b := i + 1) hpos
  rw [slotOf]
  constructor
  · intro h
    have hle := hlow.mp (le_of_eq h.symm)
    have hlt := hup.mp (by omega)
    constructor <;> omega
  · intro h
    have hle := hlow.mpr (by omega)
    have hlt := hup.mpr (by omega)
    omega

theorem mem_slots (h : first ≤ last) (hk : 1 ≤ k) (i : ℤ) :
    i ∈ slots first last k ↔ 0 ≤ i ∧ i ≤ (last - first) / k := by
  have hnonneg : 0 ≤ (last - first) / k := Int.ediv_nonneg (by omega) (by omega)
  rw [slots, Finset.mem_image]
  constructor
  · rintro ⟨n, hn, rfl⟩
    have hlt := Finset.mem_range.mp hn
    omega
  · rintro ⟨hlow, hup⟩
    exact ⟨i.toNat, Finset.mem_range.mpr (by omega), by omega⟩

/-- The slots with a sample are the slots of the samples. -/
theorem covered_eq (hk : 1 ≤ k) (hsecs : (first :: rest).Pairwise (· < ·))
    (hlast : (first :: rest).getLast? = some last) :
    covered first last k (first :: rest) = ((first :: rest).map (slotOf first k)).toFinset := by
  have hpos : 0 < k := by omega
  have hle : first ≤ last := le_last hsecs hlast List.mem_cons_self
  ext i
  rw [covered, Finset.mem_filter, mem_slots hle hk, List.mem_toFinset, List.mem_map]
  constructor
  · rintro ⟨-, s, hs, hslot⟩
    exact ⟨s, hs, (slotOf_eq_iff hk s i).mpr hslot⟩
  · rintro ⟨s, hs, rfl⟩
    have hfirst := first_le hsecs hs
    have hle := le_last hsecs hlast hs
    refine ⟨⟨Int.ediv_nonneg (by omega) (by omega), ?_⟩, s, hs, (slotOf_eq_iff hk s _).mp rfl⟩
    exact Int.ediv_le_ediv hpos (by omega)

theorem card_slots (h : first ≤ last) (hk : 1 ≤ k) : ((slots first last k).card : ℤ) = (last - first) / k + 1 := by
  have hnonneg : 0 ≤ (last - first) / k := Int.ediv_nonneg (by omega) (by omega)
  rw [slots, Finset.card_image_of_injective _ fun i j hij => Int.ofNat_inj.mp hij, Finset.card_range]
  omega

theorem expectedCount_eq (symbol : String) (hk : 1 ≤ k) (hsecs : (first :: rest).Pairwise (· < ·))
    (hlast : (first :: rest).getLast? = some last) :
    (analyzeOhlcvSecs symbol (first :: rest) k).expectedCount = (slots first last k).card := by
  have hle : first ≤ last := le_last hsecs hlast List.mem_cons_self
  have hspan : last - first ≥ 0 := by omega
  rw [card_slots hle hk, analyzeOhlcvSecs, hlast, List.head?_cons]
  simp only [if_pos hspan, Int.fdiv_eq_ediv_of_nonneg _ (by omega : 0 ≤ k)]

theorem completeness_cons (symbol : String) (first : ℤ) (rest : List ℤ) (k : ℤ) :
    (analyzeOhlcvSecs symbol (first :: rest) k).completeness =
      if (analyzeOhlcvSecs symbol (first :: rest) k).expectedCount > 0 then
        ((first :: rest).length : ℚ) / (analyzeOhlcvSecs symbol (first :: rest) k).expectedCount else 0 := by
  obtain ⟨last, hlast⟩ := exists_last first rest
  rw [analyzeOhlcvSecs, hlast, List.head?_cons]

theorem completeness_eq (symbol : String) (hk : 1 ≤ k) (hsecs : (first :: rest).Pairwise (· < ·))
    (hlast : (first :: rest).getLast? = some last) :
    (analyzeOhlcvSecs symbol (first :: rest) k).completeness =
      ((first :: rest).length : ℚ) / (slots first last k).card := by
  have hcount := expectedCount_eq symbol hk hsecs hlast
  have hle : first ≤ last := le_last hsecs hlast List.mem_cons_self
  have hcard := card_slots hle hk
  have hspan : 0 ≤ (last - first) / k := Int.ediv_nonneg (by omega) (by omega)
  have hpos : (analyzeOhlcvSecs symbol (first :: rest) k).expectedCount > 0 := by omega
  rw [completeness_cons, if_pos hpos, hcount, Int.cast_natCast]

theorem coveredShare_eq (hk : 1 ≤ k) (hsecs : (first :: rest).Pairwise (· < ·))
    (hlast : (first :: rest).getLast? = some last) :
    coveredShare (first :: rest) k =
      (((first :: rest).map (slotOf first k)).toFinset.card : ℚ) / (slots first last k).card := by
  rw [coveredShare, hlast, List.head?_cons, ← covered_eq hk hsecs hlast]

/-- With an interval of a second, the samples and the missing seconds are all seconds. -/
theorem length_add_missing : ∀ {first : ℤ} {rest : List ℤ}, (first :: rest).Pairwise (· < ·) →
    (first :: rest).getLast? = some last →
    ((first :: rest).length : ℤ) + missingSecs (gapsOf 1 (first :: rest)) = last - first + 1
  | first, [], _, hlast => by
    have heq : first = last := by simpa using hlast
    simp [gapsOf, missingSecs, heq]
  | first, b :: rest, hsecs, hlast => by
    obtain ⟨hfirst, hrest⟩ := List.pairwise_cons.mp hsecs
    have hlt := hfirst b List.mem_cons_self
    have ih := length_add_missing hrest (by rwa [List.getLast?_cons_cons] at hlast)
    rw [gapsOf]
    by_cases hgap : b - first > 1
    · rw [if_pos hgap, missingSecs, List.map_cons, List.sum_cons, List.length_cons]
      rw [missingSecs] at ih
      omega
    · rw [if_neg hgap, List.length_cons]
      omega

end Samples

/-- As many slots as samples when no slot holds two. -/
theorem card_le_iff_nodup (l : List ℤ) : l.length ≤ l.toFinset.card ↔ l.Nodup := by
  have hle := List.toFinset_card_le l
  rw [← Multiset.coe_nodup, ← Multiset.toFinset_card_eq_card_iff_nodup, Multiset.coe_card]
  exact ⟨fun h => le_antisymm hle h, fun h => le_of_eq h.symm⟩

/-- With an interval of a second, the report accounts for every second. -/
theorem accounted_all (symbol : String) {secs : List ℤ} (hsecs : secs.Pairwise (· < ·)) :
    (analyzeOhlcvSecs symbol secs 1).sampleCount + missingSecs (analyzeOhlcvSecs symbol secs 1).gaps =
      (analyzeOhlcvSecs symbol secs 1).expectedCount := by
  cases secs with
  | nil => rfl
  | cons first rest =>
    obtain ⟨last, hlast⟩ := exists_last first rest
    have hsum := length_add_missing hsecs hlast
    have hle := le_last hsecs hlast List.mem_cons_self
    rw [expectedCount_eq symbol le_rfl hsecs hlast, card_slots hle le_rfl, Int.ediv_one, ← hsum]
    rw [analyzeOhlcvSecs, hlast, List.head?_cons]

theorem slots_pos {first last k : ℤ} (h : first ≤ last) (hk : 1 ≤ k) : (0 : ℚ) < (slots first last k).card := by
  have hspan : 0 ≤ (last - first) / k := Int.ediv_nonneg (by omega) (by omega)
  have hcard := card_slots h hk
  have hpos : 0 < (slots first last k).card := by omega
  exact_mod_cast hpos

theorem coveredShare_le_one {secs : List ℤ} (hsecs : secs.Pairwise (· < ·)) {k : ℤ} (hk : 1 ≤ k) :
    coveredShare secs k ≤ 1 := by
  cases secs with
  | nil => exact zero_le_one
  | cons first rest =>
    obtain ⟨last, hlast⟩ := exists_last first rest
    have hpos := slots_pos (le_last hsecs hlast List.mem_cons_self) hk
    rw [coveredShare_eq hk hsecs hlast, div_le_one hpos, ← covered_eq hk hsecs hlast]
    exact Nat.cast_le.mpr (Finset.card_filter_le _ _)

/-- The completeness is at most the share of the slots with a sample exactly when no slot holds two. -/
theorem completeness_le_iff (symbol : String) {secs : List ℤ} (hsecs : secs.Pairwise (· < ·)) {k : ℤ} (hk : 1 ≤ k) :
    (analyzeOhlcvSecs symbol secs k).completeness ≤ coveredShare secs k ↔ OnePerSlot secs k := by
  cases secs with
  | nil =>
    refine iff_of_true (le_refl _) fun first h => ?_
    cases h
  | cons first rest =>
    obtain ⟨last, hlast⟩ := exists_last first rest
    have hpos := slots_pos (le_last hsecs hlast List.mem_cons_self) hk
    rw [completeness_eq symbol hk hsecs hlast, coveredShare_eq hk hsecs hlast, div_le_div_iff_of_pos_right hpos,
      Nat.cast_le, ← List.length_map (f := slotOf first k), card_le_iff_nodup]
    constructor
    · intro h first' hfirst'
      cases hfirst'
      exact h
    · intro h
      exact h first rfl

/-- The completeness is honest exactly when no slot holds two samples. -/
theorem honest_iff (symbol : String) (secs : List ℤ) (hsecs : secs.Pairwise (· < ·)) (k : ℤ) (hk : 1 ≤ k) :
    HonestCoverage secs k (analyzeOhlcvSecs symbol secs k) ↔ OnePerSlot secs k := by
  have hshare := completeness_le_iff symbol hsecs hk
  constructor
  · intro h
    exact hshare.mp h.le_covered
  · intro h
    have hcovered := hshare.mpr h
    refine ⟨le_trans hcovered (coveredShare_le_one hsecs hk), hcovered, ?_⟩
    rintro rfl
    exact accounted_all symbol hsecs

theorem honest_iff_sparse :
    HonestCoverage [0, 61, 150] 60 (analyzeOhlcvSecs "BTCUSDT" [0, 61, 150] 60) ↔ OnePerSlot [0, 61, 150] 60 :=
  honest_iff "BTCUSDT" [0, 61, 150] (by decide) 60 (by decide)

/-- Three samples in the first two seconds of a minute are a completeness of three. -/
theorem not_honest_burst : ¬ HonestCoverage [0, 1, 2] 60 (analyzeOhlcvSecs "BTCUSDT" [0, 1, 2] 60) := by
  intro h
  have hone := h.le_one
  revert hone
  decide +kernel

/-- Distinct seconds are in distinct slots of a second. -/
theorem onePerSlot_one {secs : List ℤ} (hsecs : secs.Pairwise (· < ·)) : OnePerSlot secs 1 := by
  intro first _
  refine List.Nodup.map (fun a b h => ?_) (hsecs.imp ne_of_lt)
  simp only [slotOf, Int.ediv_one] at h
  omega

/-! ## The minimum over the symbols -/

theorem completeness_nonneg (symbol : String) (secs : List ℤ) (k : ℤ) :
    0 ≤ (analyzeOhlcvSecs symbol secs k).completeness := by
  cases secs with
  | nil => exact le_refl _
  | cons first rest =>
    rw [completeness_cons]
    by_cases hpos : (analyzeOhlcvSecs symbol (first :: rest) k).expectedCount > 0
    · rw [if_pos hpos]
      have hexpected : (0 : ℚ) ≤ ((analyzeOhlcvSecs symbol (first :: rest) k).expectedCount : ℚ) :=
        Int.cast_nonneg (le_of_lt hpos)
      exact div_nonneg (Nat.cast_nonneg _) hexpected
    · rw [if_neg hpos]

/-- A round leaves the minimum at most what it was, and at most the completeness of its symbol. -/
theorem coverSymbol_min (k : ℤ) {c : CoverageLoop} (hc : 0 ≤ c.minCompleteness) (e : String × List ℤ) :
    0 ≤ (coverSymbol k c e).minCompleteness ∧ (coverSymbol k c e).minCompleteness ≤ c.minCompleteness ∧
      (coverSymbol k c e).minCompleteness ≤ (analyzeOhlcvSecs e.1 (distinctSecs e.2) k).completeness := by
  have hnonneg := completeness_nonneg e.1 (distinctSecs e.2) k
  unfold coverSymbol
  by_cases hempty : e.2 = []
  · rw [if_pos hempty]
    exact ⟨le_refl _, hc, hnonneg⟩
  · rw [if_neg hempty]
    dsimp only
    split
    case isTrue h => exact ⟨hnonneg, le_of_lt h, le_refl _⟩
    case isFalse h => exact ⟨hc, le_refl _, not_lt.mp h⟩

theorem foldl_coverSymbol_min (k : ℤ) : ∀ (l : List (String × List ℤ)) {c : CoverageLoop}, 0 ≤ c.minCompleteness →
    (l.foldl (coverSymbol k) c).minCompleteness ≤ c.minCompleteness ∧
      ∀ e ∈ l, (l.foldl (coverSymbol k) c).minCompleteness ≤ (analyzeOhlcvSecs e.1 (distinctSecs e.2) k).completeness
  | [], _, _ => ⟨le_refl _, fun _ h => absurd h List.not_mem_nil⟩
  | e :: l, c, hc => by
    obtain ⟨hnonneg, hle, hown⟩ := coverSymbol_min k hc e
    obtain ⟨hrest, hall⟩ := foldl_coverSymbol_min k l hnonneg
    refine ⟨le_trans hrest hle, fun e' he' => ?_⟩
    rcases List.mem_cons.mp he' with rfl | h
    · exact le_trans hrest hown
    · exact hall e' h

theorem minCompleteness_le (secsBySymbol : Dict String (List ℤ)) (k : ℤ) {e : String × List ℤ}
    (he : e ∈ secsBySymbol.items) : (coverageLoop secsBySymbol k).minCompleteness ≤
      (analyzeOhlcvSecs e.1 (distinctSecs e.2) k).completeness :=
  (foldl_coverSymbol_min k secsBySymbol.items zero_le_one).2 e he

/-- Where no slot of a symbol holds two of its seconds, the minimum is at most what the symbol covers. -/
theorem minCompleteness_le_covered (secsBySymbol : Dict String (List ℤ)) {k : ℤ} (hk : 1 ≤ k) {e : String × List ℤ}
    (he : e ∈ secsBySymbol.items) (hslots : OnePerSlot (distinctSecs e.2) k) :
    (coverageLoop secsBySymbol k).minCompleteness ≤ coveredShare (distinctSecs e.2) k :=
  le_trans (minCompleteness_le secsBySymbol k he) ((completeness_le_iff e.1 (distinctSecs_sorted e.2) hk).mpr hslots)

end MikoV2.Backtest
