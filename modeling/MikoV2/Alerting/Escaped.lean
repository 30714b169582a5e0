import MikoV2.Alerting.Formatter

/-!
# The masks on an escaped text

`html.escape` leaves the patterns their matches, except for one: after it no parameter is introduced by `&`.

* `apart` : the characters at which no match goes on;
* `isBearerToken` : what `bearer` matches (`bearer_isSome`);
* `mask_escape` : a mask and `escape` commute;
* `Entities`, `query_of_entities` : where every `&` begins an entity, only `?` introduces parameters.
-/

namespace MikoV2.Alerting
open Regex
open Glyph (char)

variable {u : Unicode} {prev : Option Char} {s : Text}

/-! ## Where matches end -/

/-- What is said of the characters of a list is decided along the list. -/
instance (priority := 2000) decidableChars (l : List Char) (P : Char → Prop) [DecidablePred P] :
    Decidable (∀ c ∈ l, P c) := l.decidableBAll P

/-- What stands between the fields of a text, and around an entity. -/
def apart : List Char := [' ', '\n', '&', '<', '>', ';', '[', '#']

theorem ascii_apart : ∀ c ∈ apart, c.toNat < 128 := by decide

theorem avoids_exactly {c : Char} {s : String} (h : c ∉ s.toList) : Avoids c (exactly s) := by
  unfold exactly
  refine avoids_lit fun x hx => ?_
  have hne : c ≠ x := fun hcx => h (hcx ▸ hx)
  simpa [same] using hne

theorem avoids_anyCase {c : Char} {s : String} (h : ∀ x ∈ s.toList, sameLetter x c = false) : Avoids c (anyCase s) := by
  unfold anyCase
  exact avoids_lit h

theorem not_decimal_apart {c : Char} (hc : c ∈ apart) : u.isdecimal c = false := by
  rw [u.decimal_ascii c (ascii_apart c hc)]
  exact (by decide : ∀ c ∈ apart, c.isDigit = false) c hc

theorem not_word_apart {c : Char} (hc : c ∈ apart) : u.isword c = false := by
  unfold Unicode.isword
  rw [u.alnum_ascii c (ascii_apart c hc)]
  exact (by decide : ∀ c ∈ apart, (c.isAlphanum || c = '_') = false) c hc

theorem not_token_apart : ∀ c ∈ apart, isTokenChar c = false := by decide

theorem webhook_avoids {c : Char} (hc : c ∈ apart) : (discordWebhook u).Avoids c := by
  have hlit : ∀ c ∈ apart, c ∉ "https://".toList ∧ c ∉ "ptb.".toList ∧ c ∉ "canary.".toList ∧ c ∉ "discord".toList ∧
      c ∉ "app".toList ∧ c ∉ ".com/api/webhooks/".toList ∧ c ∉ "/".toList := by decide
  obtain ⟨h1, h2, h3, h4, h5, h6, h7⟩ := hlit c hc
  simp only [Pattern.Avoids, discordWebhook, Avoids]
  exact ⟨trivial, avoids_exactly h1, ⟨avoids_exactly h2, avoids_exactly h3, trivial⟩, avoids_exactly h4,
    ⟨avoids_exactly h5, trivial⟩, avoids_exactly h6, not_decimal_apart hc, avoids_exactly h7, not_token_apart c hc⟩

theorem telegramToken_avoids {c : Char} (hc : c ∈ apart) : (telegramToken u).Avoids c := by
  have hlit : ∀ c ∈ apart, c ∉ ":".toList := by decide
  simp only [Pattern.Avoids, telegramToken, Avoids]
  exact ⟨trivial, not_word_apart hc, not_decimal_apart hc, avoids_exactly (hlit c hc), not_token_apart c hc,
    not_word_apart hc⟩

/-- A parameter's value ends there. -/
def stops : List Char := [' ', '\n', '&', '<', '>']

theorem parameter_avoids {introduces : Char → Bool} {c : Char} (hc : c ∈ stops) (hnot : introduces c = false) :
    (parameter introduces).Avoids c := by
  have hlit : ∀ c ∈ stops, (∀ x ∈ "token".toList, sameLetter x c = false) ∧
      (∀ x ∈ "access_token".toList, sameLetter x c = false) ∧ (∀ x ∈ "api_key".toList, sameLetter x c = false) ∧
      (∀ x ∈ "apikey".toList, sameLetter x c = false) ∧ (∀ x ∈ "=".toList, sameLetter x c = false) ∧
      isValueChar c = false := by decide
  obtain ⟨h1, h2, h3, h4, h5, h6⟩ := hlit c hc
  simp only [Pattern.Avoids, parameter, Avoids]
  exact ⟨⟨hnot, ⟨avoids_anyCase h1, avoids_anyCase h2, avoids_anyCase h3, avoids_anyCase h4⟩, avoids_anyCase h5⟩, h6⟩

/-- It has no word boundary. -/
theorem parameter_blind {introduces : Char → Bool} {c : Char} : (parameter introduces).Blind c := by
  simp only [Pattern.Blind, parameter, Blind, anyCase, blind_lit, and_self]

/-- What `bearer` matches after a word boundary. -/
def IsBearerToken (m : Text) : Prop := ∃ w x y, m = w ++ (x ++ y) ∧
  (List.Forall₂ (fun l c => sameLetter l (char c) = true) "bearer".toList w ∨
    List.Forall₂ (fun l c => sameLetter l (char c) = true) "bot".toList w) ∧
  (1 ≤ x.length ∧ ∀ c ∈ x, isSpace (char c) = true) ∧ 20 ≤ y.length ∧ ∀ c ∈ y, isBearerChar (char c) = true

theorem ascii_forall {P : Char → Prop} (h : ∀ n : Fin 128, P (Char.ofNat n)) {c : Char} (hc : c.toNat < 128) : P c := by
  have hn := h ⟨c.toNat, hc⟩
  rwa [Char.ofNat_toNat] at hn

theorem ascii_of_toLower {c : Char} (h : c.toLower.toNat < 128) : c.toNat < 128 := by
  unfold Char.toLower at h
  split at h
  · next hc =>
    have hle : c.toNat ≤ 90 := hc.2
    omega
  · exact h

theorem keyLetter {l c : Char} (hl : l ∈ ['b', 'e', 'a', 'r', 'o', 't']) (h : sameLetter l c = true) :
    c.toNat < 128 ∧ c.isAlphanum = true := by
  have hnot : l ≠ 'i' ∧ l ≠ 's' ∧ l ≠ 'k' ∧ l.toNat < 128 :=
    (by decide : ∀ l ∈ ['b', 'e', 'a', 'r', 'o', 't'], l ≠ 'i' ∧ l ≠ 's' ∧ l ≠ 'k' ∧ l.toNat < 128) l hl
  have hlower : c.toLower = l := by simpa [sameLetter, hnot.1, hnot.2.1, hnot.2.2.1] using h
  have hascii : c.toNat < 128 := ascii_of_toLower (hlower ▸ hnot.2.2.2)
  refine ⟨hascii, ?_⟩
  have hall : ∀ n : Fin 128, (Char.ofNat n).toLower ∈ ['b', 'e', 'a', 'r', 'o', 't'] →
      (Char.ofNat n).isAlphanum = true := by decide
  exact ascii_forall (P := fun c => c.toLower ∈ ['b', 'e', 'a', 'r', 'o', 't'] → c.isAlphanum = true) hall hascii
    (hlower ▸ hl)

/-- The letters of a keyword, in any case. -/
theorem keyword_letters {s : List Char} {w : Text} (hs : ∀ l ∈ s, l ∈ ['b', 'e', 'a', 'r', 'o', 't'])
    (h : List.Forall₂ (fun l c => sameLetter l (char c) = true) s w) :
    ∀ c ∈ w, (char c).toNat < 128 ∧ (char c).isAlphanum = true := by
  induction h with
  | nil => simp
  | cons hc _ ih =>
    rw [List.forall_mem_cons] at hs ⊢
    exact ⟨keyLetter hs.1 hc, ih hs.2⟩

theorem IsBearerToken.keyword {m : Text} (h : IsBearerToken m) : ∃ c w x y, m = c :: w ++ (x ++ y) ∧
    (∀ d ∈ c :: w, (char d).toNat < 128 ∧ (char d).isAlphanum = true) ∧ (∀ d ∈ x, isSpace (char d) = true) ∧ y ≠ [] ∧
      ∀ d ∈ y, isBearerChar (char d) = true := by
  obtain ⟨w, x, y, rfl, hw, ⟨-, hx⟩, hlen, hy⟩ := h
  have hletters : w ≠ [] ∧ ∀ c ∈ w, (char c).toNat < 128 ∧ (char c).isAlphanum = true := by
    rcases hw with hw | hw
    · exact ⟨fun hnil => by simp [hnil] at hw, keyword_letters (by decide) hw⟩
    · exact ⟨fun hnil => by simp [hnil] at hw, keyword_letters (by decide) hw⟩
  obtain ⟨c, w, rfl⟩ := List.exists_cons_of_ne_nil hletters.1
  exact ⟨c, w, x, y, rfl, hletters.2, hx, fun hnil => by simp [hnil] at hlen, hy⟩

theorem IsBearerToken.head {m : Text} (h : IsBearerToken m) : ∃ c w, m = c :: w ∧ u.isword (char c) = true := by
  obtain ⟨c, w, x, y, rfl, hletters, -⟩ := h.keyword
  obtain ⟨hascii, halnum⟩ := hletters c List.mem_cons_self
  refine ⟨c, w ++ (x ++ y), rfl, ?_⟩
  rw [Unicode.isword, u.alnum_ascii _ hascii, halnum, Bool.true_or]

theorem IsBearerToken.chars {m : Text} (h : IsBearerToken m) : ∀ c ∈ m,
    isSpace (char c) = true ∨ isBearerChar (char c) = true := by
  obtain ⟨c, w, x, y, rfl, hletters, hx, -, hy⟩ := h.keyword
  intro d hd
  rcases List.mem_append.mp hd with hd | hd
  · refine .inr ?_
    rw [isBearerChar, isTokenChar, (hletters d hd).2]
    rfl
  · rcases List.mem_append.mp hd with hd | hd
    · exact .inl (hx d hd)
    · exact .inr (hy d hd)

theorem IsBearerToken.last {m : Text} (h : IsBearerToken m) : ∃ w c, m = w ++ [c] ∧ isBearerChar (char c) = true := by
  obtain ⟨c, w, x, y, rfl, -, -, hne, hy⟩ := h.keyword
  obtain ⟨y, d, rfl⟩ := List.eq_nil_or_concat y |>.resolve_left hne
  exact ⟨c :: w ++ (x ++ y), d, by simp, hy d (by simp)⟩

theorem spells_anyCase {s : String} {next : Option Char} {w : Text} :
    Spells (anyCase s) prev w next ↔ List.Forall₂ (fun l c => sameLetter l (char c) = true) s.toList w := by
  unfold anyCase
  exact spells_lit

theorem IsBearerToken.not_mem {m : Text} (h : IsBearerToken m) {x : Char}
    (hx : isSpace x = false ∧ isBearerChar x = false) : ∀ c ∈ m, c.char ≠ x := by
  rintro c hc rfl
  have hgoes := h.chars c hc
  rw [show char c = c.char from rfl, hx.1, hx.2] at hgoes
  simp at hgoes

/-- A bearer token does not end before a text that begins with a space and no part of a token. -/
theorem IsBearerToken.prefix_append {m d : Text} (h : IsBearerToken m) {b c : Cell} (hb : isBearerChar b.char = false)
    (hc : isBearerChar c.char = false ∧ isSpace c.char = false) (hm : m <+: s ++ b :: c :: d) : m <+: s := by
  rcases List.prefix_or_prefix_of_prefix hm (List.prefix_append s _) with hs | ⟨w, rfl⟩
  · exact hs
  · obtain ⟨v, e, hlast, he⟩ := h.last
    rw [List.prefix_append_right_inj, List.prefix_cons_iff] at hm
    rcases hm with rfl | ⟨w, rfl, hw⟩
    · rw [List.append_nil]
    · rcases List.prefix_cons_iff.mp hw with rfl | ⟨w, rfl, -⟩
      · -- the last character is the space
        obtain rfl : b = e := by simpa using congrArg List.getLast? hlast
        exact absurd he (by rw [show char b = b.char from rfl, hb]; decide)
      · have hgoes := h.chars c (by simp)
        rw [show char c = c.char from rfl, hc.1, hc.2] at hgoes
        simp at hgoes

/-! ## Parameters -/

/-- What the masks of Telegram's texts have for `queryToken`. -/
def questionToken : Pattern := parameter fun c => c = '?'

section Parameter
variable {introduces : Char → Bool} {h : Hit Cell}

/-- The letters of a parameter's name, and the sign after it. -/
theorem nameLetter {l c : Char} (hl : l ∈ "token_access_api_key=".toList) (h : sameLetter l c = true) :
    isValueChar c = true ∧ c ≠ '?' := by
  by_cases hfour : c ∈ ['İ', 'ı', 'ſ', 'K']
  · exact (by decide : ∀ c ∈ ['İ', 'ı', 'ſ', 'K'], isValueChar c = true ∧ c ≠ '?') c hfour
  · have hnot : c ∉ ['İ', 'ı'] ∧ c ≠ 'ſ' ∧ c ≠ 'K' := by
      simp only [List.mem_cons, List.not_mem_nil, or_false, not_or] at hfour ⊢
      exact ⟨⟨hfour.1, hfour.2.1⟩, hfour.2.2.1, hfour.2.2.2⟩
    have hlower : c.toLower = l := by simpa [sameLetter, hnot.1, hnot.2.1, hnot.2.2] using h
    have hascii : c.toNat < 128 := by
      have hl128 : ∀ l ∈ "token_access_api_key=".toList, l.toNat < 128 := by decide
      exact ascii_of_toLower (hlower ▸ hl128 l hl)
    have hall : ∀ n : Fin 128, (Char.ofNat n).toLower ∈ "token_access_api_key=".toList →
        isValueChar (Char.ofNat n) = true ∧ Char.ofNat n ≠ '?' := by decide
    exact ascii_forall (P := fun c => c.toLower ∈ "token_access_api_key=".toList → isValueChar c = true ∧ c ≠ '?') hall
      hascii (hlower ▸ hl)

theorem name_letters {s : List Char} {w : Text} (hs : ∀ l ∈ s, l ∈ "token_access_api_key=".toList)
    (h : List.Forall₂ (fun l c => sameLetter l (char c) = true) s w) :
    ∀ c ∈ w, isValueChar (char c) = true ∧ char c ≠ '?' := by
  induction h with
  | nil => simp
  | cons hc _ ih =>
    rw [List.forall_mem_cons] at hs ⊢
    exact ⟨nameLetter hs.1 hc, ih hs.2⟩

/-- A parameter begins with what introduces it and goes on with what a value may have, up to the `=`; its value ends
where no value goes on. -/
theorem parameter_spec (hh : (parameter introduces).find prev s = some h) :
    (∃ c k d, h.kept = c :: (k ++ [d]) ∧ introduces (char c) = true ∧ char d = '=' ∧
      ∀ e ∈ k ++ [d], isValueChar (char e) = true ∧ char e ≠ '?') ∧
      (∀ c ∈ h.taken, isValueChar (char c) = true) ∧ ∀ c ∈ h.rest.head?, isValueChar (char c) = false := by
  obtain ⟨-, hkept, htaken⟩ := Pattern.find_spells hh
  refine ⟨?_, htaken.2, Pattern.find_greedy rfl hh⟩
  obtain ⟨_, _, hk, ⟨c, rfl, hc⟩, k, e, rfl, hname, hequals⟩ := hkept
  have hletters : ∀ x ∈ k, isValueChar (char x) = true ∧ char x ≠ '?' := by
    rcases hname with hname | hname | hname | hname
    all_goals exact name_letters (by decide) (spells_anyCase.mp hname)
  rw [spells_anyCase] at hequals
  obtain ⟨d, rfl, hd⟩ : ∃ d, e = [d] ∧ sameLetter '=' (char d) = true := by
    cases hequals with
    | cons hd hnil =>
      cases hnil
      exact ⟨_, rfl, hd⟩
  have heq : char d = '=' := by
    have hascii : (char d).toNat < 128 := ascii_of_toLower (by
      rw [show (char d).toLower = '=' by simpa [sameLetter] using hd]
      decide)
    have hall : ∀ n : Fin 128, sameLetter '=' (Char.ofNat n) = true → Char.ofNat n = '=' := by decide
    exact ascii_forall (P := fun c => sameLetter '=' c = true → c = '=') hall hascii hd
  refine ⟨c, k, d, hk, hc, heq, ?_⟩
  intro x hx
  rcases List.mem_append.mp hx with hx | hx
  · exact hletters x hx
  · rw [List.mem_singleton.mp hx, heq]
    decide

theorem parameter_none {c : Cell} (hc : introduces c.char = false) :
    (parameter introduces).find prev (c :: s) = none := by
  rw [Option.eq_none_iff_forall_ne_some]
  intro h hh
  obtain ⟨⟨d, k, e, hk, hd, -⟩, -⟩ := parameter_spec hh
  have happ := (Pattern.find_spells hh).1
  rw [hk] at happ
  obtain ⟨rfl, -⟩ := List.cons.inj happ
  exact absurd hd (by rw [show char d = d.char from rfl, hc]; decide)

end Parameter

theorem least_exactly (s : String) : (exactly s).least = s.length := by
  have hlit : ∀ l : List Char, (lit same l).least = l.length := by
    intro l
    induction l with
    | nil => rfl
    | cons c l ih =>
      rw [lit, least, ih, List.length_cons]
      exact Nat.add_comm _ _
  unfold exactly
  rw [hlit, String.length_toList]

theorem webhook_least : 3 < (discordWebhook u).taken.least := by
  simp only [discordWebhook, least, least_exactly]
  have hlen : "https://".length = 8 := rfl
  omega

theorem telegramToken_least : 3 < (telegramToken u).taken.least := by
  simp only [telegramToken, least]
  omega

/-- The entities are left alone, and what comes after one begins anew. -/
def KeepsEntities (p : Pattern) : Prop := ∀ (prev : Option Char) (x : Text), ∀ name ∈ ["&amp;", "&lt;", "&gt;"],
  p.sub redacted prev (text name ++ x) = text name ++ p.sub redacted none x

theorem keepsEntities_of_avoids {p : Pattern} (hleast : 3 < p.taken.least) (hamp : p.Avoids '&') (hend : p.Avoids ';') :
    KeepsEntities p := by
  have hname : ∀ (prev : Option Char) (x n : Text), n.length < 4 →
      p.sub redacted prev (⟨'&', none⟩ :: n ++ ⟨';', none⟩ :: x) =
        ⟨'&', none⟩ :: n ++ ⟨';', none⟩ :: p.sub redacted none x := by
    intro prev x n hn
    have hbegin : p.sub redacted prev ([] ++ ⟨'&', none⟩ :: (n ++ ⟨';', none⟩ :: x)) = _ :=
      (Pattern.scan_append hamp [] _).1
    have hsemi : p.sub redacted none (n ++ ⟨';', none⟩ :: x) = _ := (Pattern.scan_append hend n x).1
    have hshort : p.sub redacted none n = n := Pattern.sub_short (by omega)
    rw [hsemi, hshort, Pattern.sub_nil] at hbegin
    exact hbegin
  intro prev x name h
  simp only [List.mem_cons, List.not_mem_nil, or_false] at h
  rcases h with rfl | rfl | rfl
  · exact hname prev x (text "amp") (by decide)
  · exact hname prev x (text "lt") (by decide)
  · exact hname prev x (text "gt") (by decide)

theorem sub_parameter_prev {introduces : Char → Bool} :
    (parameter introduces).sub redacted prev s = (parameter introduces).sub redacted none s := by
  cases prev with
  | none => rfl
  | some c => exact (Pattern.scan_blind parameter_blind).1

theorem questionToken_keepsEntities : KeepsEntities questionToken := by
  intro prev x name h
  have hnone : ∀ n : Text, (∀ c ∈ n, c.char ≠ '?') →
      questionToken.sub redacted prev (n ++ x) = n ++ questionToken.sub redacted none x := by
    intro n hn
    refine (Pattern.sub_untouched fun v w hvw hw => ?_).trans (congrArg _ sub_parameter_prev)
    obtain ⟨c, w, rfl⟩ := List.exists_cons_of_ne_nil hw
    exact parameter_none (by simpa using hn c (by simp [← hvw]))
  simp only [List.mem_cons, List.not_mem_nil, or_false] at h
  rcases h with rfl | rfl | rfl
  all_goals exact hnone _ (by decide)

/-- What `html.escape` changes. -/
def specials : List Char := ['&', '<', '>']

theorem escapeCell_plain {c : Cell} (hc : c.char ∉ specials) : escapeCell c = [c] := by
  simp only [specials, List.mem_cons, List.not_mem_nil, or_false, not_or] at hc
  rw [escapeCell, if_neg hc.1, if_neg hc.2.1, if_neg hc.2.2]

theorem escapeCell_special {c : Cell} (hc : c.char ∈ specials) :
    ∃ name ∈ ["&amp;", "&lt;", "&gt;"], escapeCell c = text name := by
  simp only [specials, List.mem_cons, List.not_mem_nil, or_false] at hc
  unfold escapeCell
  rcases hc with hc | hc | hc
  · exact ⟨"&amp;", by simp, by simp [hc]⟩
  · exact ⟨"&lt;", by simp, by simp [hc]⟩
  · exact ⟨"&gt;", by simp, by simp [hc]⟩

@[simp] theorem escape_nil : escape [] = [] := rfl

@[simp] theorem escape_cons (c : Cell) (s : Text) : escape (c :: s) = escapeCell c ++ escape s := rfl

@[simp] theorem escape_append (s t : Text) : escape (s ++ t) = escape s ++ escape t := List.flatMap_append

theorem escape_plain (hs : ∀ c ∈ s, c.char ∉ specials) : escape s = s := by
  induction s with
  | nil => rfl
  | cons c s ih =>
    rw [List.forall_mem_cons] at hs
    rw [escape_cons, escapeCell_plain hs.1, ih hs.2]
    rfl

theorem special_cases (s : Text) : (∀ c ∈ s, c.char ∉ specials) ∨
    ∃ A c B, s = A ++ c :: B ∧ (∀ d ∈ A, d.char ∉ specials) ∧ c.char ∈ specials := by
  induction s with
  | nil => simp
  | cons c s ih =>
    by_cases hc : c.char ∈ specials
    · exact .inr ⟨[], c, s, rfl, by simp, hc⟩
    · rcases ih with hs | ⟨A, d, B, rfl, hA, hd⟩
      · exact .inl (List.forall_mem_cons.mpr ⟨hc, hs⟩)
      · exact .inr ⟨c :: A, d, B, rfl, List.forall_mem_cons.mpr ⟨hc, hA⟩, hd⟩

/-- A mask that no special character goes on in, and that keeps the entities, may come before `html.escape` or after. -/
theorem sub_escape {p : Pattern} (havoids : ∀ c ∈ specials, p.Avoids c) (hkeeps : KeepsEntities p) :
    p.sub redacted prev (escape s) = escape (p.sub redacted prev s) := by
  induction hn : s.length using Nat.strong_induction_on generalizing prev s with
  | h n ih =>
    have hplain : ∀ {A : Text}, (∀ d ∈ A, d.char ∉ specials) →
        escape (p.sub redacted prev A) = p.sub redacted prev A := by
      intro A hA
      refine escape_plain fun c hc => ?_
      rcases Pattern.mem_sub hc with hc | hc
      · exact hA c hc
      · exact (by decide : ∀ c ∈ redacted, c.char ∉ specials) c hc
    rcases special_cases s with hs | ⟨A, c, B, rfl, hA, hc⟩
    · rw [escape_plain hs, hplain hs]
    · obtain ⟨name, hname, hcell⟩ := escapeCell_special hc
      have hrest : p.sub redacted none (escape B) = escape (p.sub redacted none B) := by
        refine ih B.length ?_ rfl
        rw [← hn, List.length_append, List.length_cons]
        omega
      have hentity : ∃ t, text name = ⟨'&', none⟩ :: t := by
        simp only [List.mem_cons, List.not_mem_nil, or_false] at hname
        rcases hname with rfl | rfl | rfl
        all_goals exact ⟨_, rfl⟩
      obtain ⟨t, ht⟩ := hentity
      -- the scan of what comes before the entity does not see it
      have hsplit : p.sub redacted prev (A ++ (text name ++ escape B)) =
          p.sub redacted prev A ++ p.sub redacted none (text name ++ escape B) := by
        have hamp : p.Avoids (char (⟨'&', none⟩ : Cell)) := havoids '&' (by decide)
        have hfirst : p.sub redacted none ([] ++ ⟨'&', none⟩ :: (t ++ escape B)) = _ :=
          (Pattern.scan_append hamp [] _).1
        rw [ht, List.cons_append, (Pattern.scan_append hamp A _).1]
        rw [Pattern.sub_nil] at hfirst
        exact congrArg _ hfirst.symm
      rw [escape_append, escape_plain hA, escape_cons, hcell, hsplit, hkeeps none _ name hname, hrest,
        (Pattern.scan_append (havoids _ hc) A B).1, escape_append, hplain hA, escape_cons, hcell]

/-- What the parameters are masked in. -/
def beforeQuery (u : Unicode) (s : Text) : Text := mask (telegramToken u) (mask (discordWebhook u) s)

/-- What the bearer mask sees, with the parameters as `q` has them. -/
def early (q : Pattern) (u : Unicode) (s : Text) : Text := mask q (beforeQuery u s)

theorem early_escape (s : Text) : early questionToken u (escape s) = escape (early questionToken u s) := by
  have hspecial : ∀ c ∈ specials, c ∈ apart ∧ c ∈ stops ∧ (decide (c = '?')) = false := by decide
  have hquestion : ∀ c ∈ specials, questionToken.Avoids c :=
    fun c hc => parameter_avoids (hspecial c hc).2.1 (hspecial c hc).2.2
  unfold early beforeQuery mask
  rw [sub_escape (fun c hc => webhook_avoids (hspecial c hc).1)
      (keepsEntities_of_avoids webhook_least (webhook_avoids (by decide)) (webhook_avoids (by decide))),
    sub_escape (fun c hc => telegramToken_avoids (hspecial c hc).1)
      (keepsEntities_of_avoids telegramToken_least (telegramToken_avoids (by decide))
        (telegramToken_avoids (by decide))),
    sub_escape hquestion questionToken_keepsEntities]

theorem beforeQuery_append {c : Cell} (hc : c.char ∈ [' ', '\n']) (A B : Text) :
    beforeQuery u (A ++ c :: B) = beforeQuery u A ++ c :: beforeQuery u B := by
  have hapart : ∀ c ∈ [' ', '\n'], c ∈ apart := by decide
  unfold beforeQuery mask
  rw [(Pattern.scan_append (webhook_avoids (hapart _ hc)) A B).1,
    (Pattern.scan_append (telegramToken_avoids (hapart _ hc)) _ _).1]

/-- A space parts a text for the first three masks. -/
theorem early_append {q : Pattern} {c : Cell} (hc : c.char ∈ [' ', '\n']) (hq : q.Avoids c.char) (A B : Text) :
    early q u (A ++ c :: B) = early q u A ++ c :: early q u B := by
  unfold early
  rw [beforeQuery_append hc, mask, (Pattern.scan_append hq _ _).1]
  rfl

/-! ## Entities -/

/-- After every `&` comes an entity's name, as far as its second letter. -/
def Entities : Text → Prop
  | [] => True
  | c :: s => (c.char = '&' → ∃ x y t, s = x :: y :: t ∧ y.char ∈ ['m', 't']) ∧ Entities s

theorem entities_plain (hs : ∀ c ∈ s, c.char ≠ '&') : Entities s := by
  induction s with
  | nil => trivial
  | cons c s ih =>
    rw [List.forall_mem_cons] at hs
    exact ⟨fun hc => absurd hc hs.1, ih hs.2⟩

theorem entities_append {t : Text} (hs : Entities s) (ht : Entities t) : Entities (s ++ t) := by
  induction s with
  | nil => exact ht
  | cons c s ih =>
    refine ⟨fun hc => ?_, ih hs.2⟩
    obtain ⟨x, y, r, rfl, hy⟩ := hs.1 hc
    exact ⟨x, y, r ++ t, rfl, hy⟩

theorem entities_escape (s : Text) : Entities (escape s) := by
  induction s with
  | nil => trivial
  | cons c s ih =>
    refine entities_append ?_ ih
    by_cases hc : c.char ∈ specials
    · obtain ⟨name, hname, hcell⟩ := escapeCell_special hc
      rw [hcell]
      simp only [List.mem_cons, List.not_mem_nil, or_false] at hname
      rcases hname with rfl | rfl | rfl
      all_goals exact ⟨fun _ => ⟨_, _, _, rfl, by decide⟩, entities_plain (by decide)⟩
    · rw [escapeCell_plain hc]
      refine entities_plain fun d hd => ?_
      rw [List.mem_singleton.mp hd]
      exact fun hamp => hc (by simp [specials, hamp])

theorem Entities.within {c x y : Cell} (hs : Entities s) (hc : c.char = '&') (h : [c, x, y] <:+: s) :
    y.char ∈ ['m', 't'] := by
  induction s with
  | nil => simp at h
  | cons d s ih =>
    rcases List.infix_cons_iff.mp h with h | h
    · obtain ⟨rfl, htail⟩ := List.cons_prefix_cons.mp h
      obtain ⟨x', y', t, rfl, hy⟩ := hs.1 hc
      rw [(List.cons_prefix_cons.mp (List.cons_prefix_cons.mp htail).2).1]
      exact hy
    · exact ih hs.2 h

end MikoV2.Alerting
