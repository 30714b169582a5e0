import MikoV2.Alerting.Abandoned

/-!
# Messages that are posted again

A round that fails at Discord is repeated from Telegram on, which has accepted the message.

* `PostedOnce` : a channel that accepts gets no other post;
* `HalfAccepted` : Telegram accepts, Discord refuses, and a round is left;
* `postedOnce_iff` : a delivery repeats nothing unless a round is half accepted.
-/

namespace MikoV2.Alerting

instance : DecidablePred Accepted := fun answer => match answer with
  | .answered status _ => inferInstanceAs (Decidable (200 ≤ status ∧ status < 300))
  | .networkError => .isFalse id
  | .raises => .isFalse id

/-- After a channel has accepted, no post goes to it. -/
def NoneRepeated (posts : List Post) : Prop :=
  posts.Pairwise fun earlier later => Accepted earlier.answer → later.channel ≠ earlier.channel

/-- How often a channel accepts. -/
def acceptances (channel : Channel) (posts : List Post) : ℕ :=
  posts.countP fun p => p.channel = channel ∧ Accepted p.answer

/-- A delivery posts nothing again to a channel that accepts. -/
structure PostedOnce (posts : List Post) : Prop where
  none_repeated : NoneRepeated posts
  accepted_once : ∀ channel, acceptances channel posts ≤ 1

/-- Telegram accepts and Discord refuses, in a round that is not the last, the first that Telegram does not refuse. -/
def HalfAccepted (cfg : AlertConfig) (answers : ℕ → RoundAnswers) : Prop :=
  ∃ j < cfg.retryMax - 1, (Accepted (answers j).telegram ∧ Refused (answers j).discord) ∧
    ∀ i < j, Refused (answers i).telegram

theorem NoneRepeated.accepted_once {posts : List Post} (h : NoneRepeated posts) (channel : Channel) :
    acceptances channel posts ≤ 1 := by
  induction posts with
  | nil => exact Nat.zero_le 1
  | cons p posts ih =>
    obtain ⟨hlater, hrest⟩ := List.pairwise_cons.mp h
    rw [acceptances, List.countP_cons]
    by_cases hp : p.channel = channel ∧ Accepted p.answer
    · have hnone : acceptances channel posts = 0 := by
        refine List.countP_eq_zero.mpr fun q hq hacc => ?_
        have hsame := (of_decide_eq_true hacc).1
        exact hlater q hq hp.2 (hsame.trans hp.1.symm)
      rw [acceptances] at hnone
      rw [hnone, Nat.zero_add]
      split <;> omega
    · rw [if_neg (by simpa using hp), Nat.add_zero]
      exact ih hrest

section Rounds
variable {cfg : AlertConfig} {answers : ℕ → RoundAnswers} {a : RoundAnswers}

theorem postOne_posts (channel : Channel) (html : Bool) (answer : PostEnd) (next : List Post × RoundEnd) :
    (postOne channel html answer next).1 = ⟨channel, html, answer⟩ :: if Accepted answer then next.1 else [] := by
  cases answer with
  | answered status retryAfter =>
    by_cases hok : 200 ≤ status ∧ status < 300
    · simp [postOne, postResult, Accepted, hok]
    · simp [postOne, postResult, Accepted, hok]
  | networkError => rfl
  | raises => rfl

/-- The posts of a round over both channels. -/
theorem postAll_posts (htelegram : cfg.telegramEnabled) (hdiscord : cfg.discordEnabled) (html : Bool) :
    (postAll cfg html a).1 = ⟨.telegram, html, a.telegram⟩ ::
      if Accepted a.telegram then [⟨.discord, false, a.discord⟩] else [] := by
  simp only [postAll, htelegram, hdiscord, if_true, postOne_posts, ite_self]

theorem noneRepeated_round (htelegram : cfg.telegramEnabled) (hdiscord : cfg.discordEnabled) (html : Bool) :
    NoneRepeated (postAll cfg html a).1 := by
  rw [postAll_posts htelegram hdiscord]
  split
  · simp [NoneRepeated]
  · simp [NoneRepeated]

/-- A further round posts to Telegram. -/
theorem attemptFrom_telegram (answers : ℕ → RoundAnswers) (htelegram : cfg.telegramEnabled)
    (hdiscord : cfg.discordEnabled) (html : Bool) (lastError : Option String) (k left : ℕ) :
    ∃ p ∈ (attemptFrom cfg answers html lastError k (left + 1)).1, p.channel = .telegram := by
  have hposts := postAll_posts (a := answers k) htelegram hdiscord html
  refine ⟨⟨.telegram, html, (answers k).telegram⟩, ?_, rfl⟩
  rw [attemptFrom]
  rcases hround : postAll cfg html (answers k) with ⟨posts, hend⟩
  have hmem : (⟨.telegram, html, (answers k).telegram⟩ : Post) ∈ posts := by
    rw [hround] at hposts
    dsimp only at hposts
    rw [hposts]
    exact List.mem_cons_self
  cases hend with
  | sent => exact hmem
  | raised => exact hmem
  | failed status error retryAfter => exact List.mem_append_left _ hmem

theorem noneRepeated_append {posts rest : List Post} (hposts : ∀ p ∈ posts, ¬ Accepted p.answer) :
    NoneRepeated (posts ++ rest) ↔ NoneRepeated rest := by
  unfold NoneRepeated
  rw [List.pairwise_append]
  constructor
  · exact fun h => h.2.1
  · intro h
    have hown : posts.Pairwise fun earlier later => Accepted earlier.answer → later.channel ≠ earlier.channel :=
      List.pairwise_of_forall_mem_list fun p hp _ _ hacc => absurd hacc (hposts p hp)
    exact ⟨hown, h, fun p hp _ _ hacc => absurd hacc (hposts p hp)⟩

theorem attemptFrom_noneRepeated (answers : ℕ → RoundAnswers) (htelegram : cfg.telegramEnabled)
    (hdiscord : cfg.discordEnabled) :
    ∀ (left : ℕ) (html : Bool) (lastError : Option String) (k : ℕ),
      NoneRepeated (attemptFrom cfg answers html lastError k left).1 ↔
        ¬ ∃ j < left - 1, (Accepted (answers (k + j)).telegram ∧ Refused (answers (k + j)).discord) ∧
          ∀ i < j, Refused (answers (k + i)).telegram
  | 0, _, _, _ => by simp [attemptFrom, NoneRepeated]
  | left + 1, html, lastError, k => by
    have hposts := postAll_posts (a := answers k) htelegram hdiscord html
    have hown : NoneRepeated (postAll cfg html (answers k)).1 := noneRepeated_round htelegram hdiscord html
    have hfailed : (∃ status error retryAfter, (postAll cfg html (answers k)).2 = .failed status error retryAfter) ↔
        RoundMeets cfg Refused (answers k) := postAll_failed html
    simp only [RoundMeets, htelegram, hdiscord, true_and, forall_const] at hfailed
    rw [attemptFrom, Nat.add_sub_cancel]
    rcases hround : postAll cfg html (answers k) with ⟨posts, hend⟩
    rw [hround] at hposts hown hfailed
    dsimp only at hposts hown
    -- a round that has not failed is the last
    have hlast : (¬ ∃ status error retryAfter, hend = .failed status error retryAfter) →
        ¬ ∃ j < left, (Accepted (answers (k + j)).telegram ∧ Refused (answers (k + j)).discord) ∧
          ∀ i < j, Refused (answers (k + i)).telegram := by
      rintro hnot ⟨j, -, hhalf, hbefore⟩
      cases j with
      | zero => exact hnot (hfailed.mpr (.inr hhalf))
      | succ j => exact hnot (hfailed.mpr (.inl (hbefore 0 (by omega))))
    cases hend with
    | sent => exact iff_of_true hown (hlast (by simp))
    | raised => exact iff_of_true hown (hlast (by simp))
    | failed status error retryAfter =>
      obtain htg | ⟨htg, hdc⟩ := hfailed.mp ⟨status, error, retryAfter, rfl⟩
      · have hnot : ¬ Accepted (answers k).telegram := fun hok => not_refused_of_accepted hok htg
        have hnone : ∀ p ∈ posts, ¬ Accepted p.answer := by
          intro p hp
          rw [hposts, if_neg hnot, List.mem_singleton] at hp
          rwa [hp]
        rw [noneRepeated_append hnone]
        rw [attemptFrom_noneRepeated answers htelegram hdiscord left]
        cases left with
        | zero => simp
        | succ m =>
          rw [Loop.exists_first_succ (k := k) (n := m)
            (P := fun j => Accepted (answers j).telegram ∧ Refused (answers j).discord)
            (Q := fun i => Refused (answers i).telegram), Nat.add_sub_cancel]
          simp [hnot, htg]
      · cases left with
        | zero => exact iff_of_true (by simpa [attemptFrom] using hown) (by simp)
        | succ m =>
          have hhalf : ∃ j < m + 1, (Accepted (answers (k + j)).telegram ∧ Refused (answers (k + j)).discord) ∧
              ∀ i < j, Refused (answers (k + i)).telegram :=
            ⟨0, Nat.succ_pos m, ⟨htg, hdc⟩, fun i hi => absurd hi (Nat.not_lt_zero i)⟩
          refine iff_of_false (fun h => ?_) fun h => h hhalf
          obtain ⟨p, hp, htelegramAgain⟩ := attemptFrom_telegram answers htelegram hdiscord
            (nextHtml html status retryAfter) (some error) (k + 1) m
          have hmem : (⟨.telegram, html, (answers k).telegram⟩ : Post) ∈ posts := by
            rw [hposts]
            exact List.mem_cons_self
          exact (List.pairwise_append.mp h).2.2 _ hmem p hp htg htelegramAgain

end Rounds

/-- A delivery over both channels repeats nothing exactly when no round with one after it is half accepted. -/
theorem postedOnce_iff (cfg : AlertConfig) (htelegram : cfg.telegramEnabled) (hdiscord : cfg.discordEnabled)
    (answers : ℕ → RoundAnswers) : PostedOnce (attempt cfg answers).1 ↔ ¬ HalfAccepted cfg answers := by
  have hnone := attemptFrom_noneRepeated answers htelegram hdiscord cfg.retryMax true none 0
  simp only [Nat.zero_add] at hnone
  constructor
  · intro h
    exact hnone.mp h.none_repeated
  · intro h
    have hposts := hnone.mpr h
    exact ⟨hposts, hposts.accepted_once⟩

/-- Both channels accept. -/
theorem postedOnce_iff_accepted :
    PostedOnce (attempt { discordEnabled := true } fun _ => ⟨.answered 200 none, .answered 204 none⟩).1 ↔
      ¬ HalfAccepted { discordEnabled := true } fun _ => ⟨.answered 200 none, .answered 204 none⟩ :=
  postedOnce_iff { discordEnabled := true } rfl rfl fun _ => ⟨.answered 200 none, .answered 204 none⟩

/-- Discord answers 500 once: Telegram gets the message twice. -/
theorem not_postedOnce_discordDown : ¬ PostedOnce (attempt { discordEnabled := true } fun k =>
    ⟨.answered 200 none, if k = 0 then .answered 500 none else .answered 204 none⟩).1 := by
  intro h
  have htwice := h.accepted_once .telegram
  revert htwice
  decide

end MikoV2.Alerting
