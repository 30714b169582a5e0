import MikoV2.Alerting.Coherent
import MikoV2.Lib.Loop

/-!
# Rate limiting and the breaker

A round that a channel answers with 429 and a `Retry-After` is repeated after that time. When no round is left the
delivery has failed like any other.

* `roundEnd` : how a round ends; `attemptFrom_ended` : a delivery ends with the first round that does not fail;
* `OnlyRateLimited` : every round that fails is rate limited;
* `unmoved_iff` : when a delivery that fails by rate limits only leaves the breaker as it was.
-/

namespace MikoV2.Alerting
open Circuit AlertAgent

namespace RoundEnd

def Failed : RoundEnd → Prop
  | .sent => False
  | .failed _ _ _ => True
  | .raised => False

/-- 429, with a `Retry-After` that is a number. -/
def RateLimited : RoundEnd → Prop
  | .sent => False
  | .failed status _ retryAfter => status = 429 ∧ retryAfter.isSome
  | .raised => False

theorem RateLimited.failed {e : RoundEnd} (h : e.RateLimited) : e.Failed := by
  cases e with
  | sent => exact h
  | failed status error retryAfter => trivial
  | raised => exact h

end RoundEnd

open RoundEnd

/-- How a round ends; its `parse_mode` does not matter. -/
def roundEnd (cfg : AlertConfig) (a : RoundAnswers) : RoundEnd := (postAll cfg true a).2

/-- Every round of a delivery that fails is rate limited. -/
def OnlyRateLimited (cfg : AlertConfig) (answers : ℕ → RoundAnswers) : Prop :=
  ∀ k < cfg.retryMax, (∀ i < k, (roundEnd cfg (answers i)).Failed) →
    (roundEnd cfg (answers k)).Failed → (roundEnd cfg (answers k)).RateLimited

/-- The state and the failures in a row are as they were. -/
def Unmoved (b b' : Breaker ℚ) : Prop := b'.mode = b.mode ∧ b'.consecutiveFails = b.consecutiveFails

/-- A round before the last is not rate limited, after rounds that are; when it is sent, the breaker is closed and has
counted no failure. -/
def Excused (cfg : AlertConfig) (b : Breaker ℚ) (answers : ℕ → RoundAnswers) : Prop :=
  ∃ k < cfg.retryMax, (¬ (roundEnd cfg (answers k)).RateLimited ∧
    (roundEnd cfg (answers k) = .sent → b.mode = .closed ∧ b.consecutiveFails = 0)) ∧
    ∀ i < k, (roundEnd cfg (answers i)).RateLimited

/-- A delivery ends as a round that does not fail. -/
def EndsAs : RoundEnd → AttemptEnd → Prop
  | .sent, result => result = .sent
  | .failed _ _ _, _ => False
  | .raised, result => result = .raised

section Attempts
variable {cfg : AlertConfig} {answers : ℕ → RoundAnswers}

theorem postOne_end (channel : Channel) (html html' : Bool) (answer : PostEnd) {next next' : List Post × RoundEnd}
    (h : next.2 = next'.2) : (postOne channel html answer next).2 = (postOne channel html' answer next').2 := by
  unfold postOne
  split
  · rfl
  · exact h
  · rfl

theorem postAll_end (cfg : AlertConfig) (html : Bool) (a : RoundAnswers) : (postAll cfg html a).2 = roundEnd cfg a := by
  unfold roundEnd postAll
  dsimp only
  split
  · exact postOne_end _ _ _ _ rfl
  · rfl

/-- A delivery ends with the first round that does not fail, or fails. -/
theorem attemptFrom_ended (cfg : AlertConfig) (answers : ℕ → RoundAnswers) :
    ∀ (left : ℕ) (html : Bool) (lastError : Option String) (k : ℕ),
      (∃ j < left, EndsAs (roundEnd cfg (answers (k + j))) (attemptFrom cfg answers html lastError k left).2 ∧
        ∀ i < j, (roundEnd cfg (answers (k + i))).Failed) ∨
      ((∀ j < left, (roundEnd cfg (answers (k + j))).Failed) ∧
        ∃ error, (attemptFrom cfg answers html lastError k left).2 = .failed error)
  | 0, _, lastError, _ => .inr ⟨fun j hj => absurd hj (Nat.not_lt_zero j), lastError, rfl⟩
  | left + 1, html, lastError, k => by
    have hround := postAll_end cfg html (answers k)
    rw [attemptFrom]
    rcases hpost : postAll cfg html (answers k) with ⟨posts, hend⟩
    rw [hpost] at hround
    dsimp only at hround
    have hfirst : ∀ result, EndsAs hend result → ∃ j < left + 1, EndsAs (roundEnd cfg (answers (k + j))) result ∧
        ∀ i < j, (roundEnd cfg (answers (k + i))).Failed := by
      intro result hresult
      refine ⟨0, Nat.succ_pos left, ?_, fun i hi => absurd hi (Nat.not_lt_zero i)⟩
      rwa [Nat.add_zero, ← hround]
    cases hend with
    | sent => exact .inl (hfirst _ rfl)
    | raised => exact .inl (hfirst _ rfl)
    | failed status error retryAfter =>
      have hfailed : (roundEnd cfg (answers k)).Failed := by
        rw [← hround]
        trivial
      obtain hrest | ⟨hall, hrest⟩ :=
        attemptFrom_ended cfg answers left (nextHtml html status retryAfter) (some error) (k + 1)
      · exact .inl (Loop.exists_first_succ (k := k) (n := left) (P := fun j => EndsAs (roundEnd cfg (answers j)) _)
          (Q := fun i => (roundEnd cfg (answers i)).Failed) |>.mpr (.inr ⟨hfailed, hrest⟩))
      · refine .inr ⟨fun j hj => ?_, hrest⟩
        cases j with
        | zero => exact hfailed
        | succ j =>
          have hj' := hall j (by omega)
          rwa [Nat.add_right_comm] at hj'

/-- The first round that is not rate limited decides what the delivery does. -/
theorem attempt_of_first {k : ℕ} (hk : k < cfg.retryMax) (hend : ¬ (roundEnd cfg (answers k)).Failed)
    (hbefore : ∀ i < k, (roundEnd cfg (answers i)).Failed) :
    EndsAs (roundEnd cfg (answers k)) (attempt cfg answers).2 := by
  have hended := attemptFrom_ended cfg answers cfg.retryMax true none 0
  simp only [Nat.zero_add] at hended
  obtain ⟨j, hj, hends, hfirst⟩ | ⟨hall, -⟩ := hended
  · rcases Nat.lt_trichotomy j k with hlt | rfl | hgt
    · have hfailed := hbefore j hlt
      cases hround : roundEnd cfg (answers j) with
      | sent => rw [hround] at hfailed; exact absurd hfailed id
      | failed status error retryAfter => rw [hround] at hends; exact absurd hends id
      | raised => rw [hround] at hfailed; exact absurd hfailed id
    · exact hends
    · exact absurd (hfirst k hgt) hend
  · exact absurd (hall k hk) hend

theorem attempt_failed (h : ∀ k < cfg.retryMax, (roundEnd cfg (answers k)).Failed) :
    ∃ error, (attempt cfg answers).2 = .failed error := by
  have hended := attemptFrom_ended cfg answers cfg.retryMax true none 0
  simp only [Nat.zero_add] at hended
  obtain ⟨j, hj, hends, -⟩ | ⟨-, hfailed⟩ := hended
  · have hround := h j hj
    cases hend : roundEnd cfg (answers j) with
    | sent => rw [hend] at hround; exact absurd hround id
    | failed status error retryAfter => rw [hend] at hends; exact absurd hends id
    | raised => rw [hend] at hround; exact absurd hround id
  · exact hfailed

end Attempts

section Settles
variable {cfg : AlertConfig} {answers : ℕ → RoundAnswers} {a : AlertAgent} {now : ℚ} {ids : List ℕ}

theorem unmoved_succeed (b : Breaker ℚ) : Unmoved b b.succeed ↔ b.mode = .closed ∧ b.consecutiveFails = 0 :=
  and_congr eq_comm eq_comm

theorem not_unmoved_fail (b : Breaker ℚ) (threshold : ℕ) (openUntil : ℚ) :
    ¬ Unmoved b (b.fail threshold openUntil) := by
  rintro ⟨-, hfails⟩
  rw [Breaker.fail_consecutiveFails] at hfails
  omega

/-- A delivery that does not fail moves the breaker only by a success. -/
theorem unmoved_of_endsAs {e : RoundEnd} {result : AttemptEnd} (h : EndsAs e result) :
    Unmoved a.breaker (a.settle cfg now ids result).breaker ↔
      (e = .sent → a.breaker.mode = .closed ∧ a.breaker.consecutiveFails = 0) := by
  cases e with
  | sent =>
    rw [show result = .sent from h, settle_breaker]
    exact (unmoved_succeed a.breaker).trans ⟨fun hclosed _ => hclosed, fun hclosed => hclosed rfl⟩
  | failed status error retryAfter => exact absurd h id
  | raised =>
    rw [show result = .raised from h]
    exact iff_of_true ⟨rfl, rfl⟩ (fun hsent => absurd hsent (by decide))

end Settles

/-- A delivery whose failed rounds are rate limited leaves the breaker as it was exactly when it is excused. -/
theorem unmoved_iff (cfg : AlertConfig) (now : ℚ) (ids : List ℕ) (a : AlertAgent) (answers : ℕ → RoundAnswers) :
    (OnlyRateLimited cfg answers → Unmoved a.breaker (a.settle cfg now ids (attempt cfg answers).2).breaker) ↔
      Excused cfg a.breaker answers := by
  constructor
  · intro h
    by_cases hall : ∀ k < cfg.retryMax, (roundEnd cfg (answers k)).RateLimited
    · obtain ⟨error, hfailed⟩ := attempt_failed fun k hk => (hall k hk).failed
      have hunmoved := h fun k hk _ _ => hall k hk
      rw [hfailed, settle_breaker] at hunmoved
      exact absurd hunmoved (not_unmoved_fail _ _ _)
    · push Not at hall
      obtain ⟨k, hk, hother, hbefore⟩ := Loop.exists_first hall
      have hlimited : ∀ i < k, (roundEnd cfg (answers i)).RateLimited := fun i hi => not_not.mp (hbefore i hi)
      refine ⟨k, hk, ⟨hother, fun hsent => ?_⟩, hlimited⟩
      have hend : ¬ (roundEnd cfg (answers k)).Failed := by
        rw [hsent]
        exact id
      have hends := attempt_of_first hk hend fun i hi => (hlimited i hi).failed
      have honly : OnlyRateLimited cfg answers := by
        intro j hj hfailed hround
        rcases Nat.lt_trichotomy j k with hlt | rfl | hgt
        · exact hlimited j hlt
        · exact absurd hround hend
        · exact absurd (hfailed k hgt) hend
      exact (unmoved_of_endsAs hends).mp (h honly) hsent
  · rintro ⟨k, hk, ⟨hother, hsent⟩, hlimited⟩ honly
    have hbefore : ∀ i < k, (roundEnd cfg (answers i)).Failed := fun i hi => (hlimited i hi).failed
    have hend : ¬ (roundEnd cfg (answers k)).Failed := fun hfailed => hother (honly k hk hbefore hfailed)
    exact (unmoved_of_endsAs (attempt_of_first hk hend hbefore)).mpr hsent

/-- The agent that delivers its first alert. -/
def delivering : AlertAgent := (((AlertAgent.start {} 0 .empty).emit {} "CRITICAL_ALERT" {} {}).drainOnce {} {}).1

/-- Three answers of 429 with a `Retry-After` are a failure for the breaker. -/
theorem not_unmoved_threeLimits : ¬ (OnlyRateLimited {} (fun _ => ⟨.answered 429 (some 5), .networkError⟩) →
    Unmoved delivering.breaker
      (delivering.settle {} 0 [1] (attempt {} fun _ => ⟨.answered 429 (some 5), .networkError⟩).2).breaker) := by
  intro h
  have honly : OnlyRateLimited {} fun _ => ⟨.answered 429 (some 5), .networkError⟩ :=
    fun _ _ _ _ => ⟨rfl, rfl⟩
  have hfails := (h honly).2
  revert hfails
  decide

end MikoV2.Alerting
