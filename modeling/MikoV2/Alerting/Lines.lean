import MikoV2.Alerting.Escaped

/-!
# The lines of a text

What the masks leave of a line that a text shows, escaped or as it is.

* `Unique`, `Before` : a character with an origin is there once, and after one that is of a word or not;
* `Part`, `Encoding`, `Shows` : a field in a line, and a line in a text;
* `Covered` : every parameter of a line that `&` introduces has another match in its value;
* `telegram_hidden`, `discord_hidden`, `telegram_carried` : what becomes of the values.
-/

namespace MikoV2.Alerting
open Regex
open Glyph (char)

/-! ## The condition -/

/-- A parameter that `?` introduces begins in the value of another, or the keyword of a bearer token. -/
def Elsewhere (u : Unicode) (h : Hit Cell) : Prop := ∃ w w', w ++ w' = h.taken ∧ w' ≠ [] ∧
  ((questionToken.find (after (some '=') w) (w' ++ h.rest)).isSome = true ∨
    ((bearer u).find (after (some '=') w) (w' ++ h.rest)).isSome = true)

/-- With webhooks and bot tokens masked, every value that `&` introduces is not as the field has it, or has another
match in it. -/
def Covered (u : Unicode) (line : Text) : Prop := ∀ (A t : Text) (h : Hit Cell), A ++ t = beforeQuery u line →
  queryToken.find (after none A) t = some h → (∃ c ∈ t.head?, c.char = '&') → (∀ c ∈ h.taken, c.origin.isSome = true) →
    Elsewhere u h

variable {u : Unicode} {s t line f v : Text} {c : Cell} {p q : Pattern}

/-! ## Characters with an origin -/

/-- Every character of a field is there once. -/
def Unique (s : Text) : Prop := ∀ c : Cell, c.origin.isSome = true → s.count c ≤ 1

theorem not_mem_text (hc : c.origin.isSome = true) (s : String) : c ∉ text s := by
  intro hmem
  obtain ⟨x, -, rfl⟩ := List.mem_map.mp hmem
  cases hc

theorem not_mem_redacted (hc : c.origin.isSome = true) : c ∉ redacted := not_mem_text hc _

theorem Unique.mask (h : Unique s) (p : Pattern) : Unique (mask p s) :=
  fun c hc => (Pattern.count_sub_le (not_mem_redacted hc)).trans (h c hc)

theorem mem_mask (hc : c.origin.isSome = true) (h : c ∈ mask p s) : c ∈ s :=
  (Pattern.mem_sub h).resolve_right (not_mem_redacted hc)

theorem mem_beforeQuery (hc : c.origin.isSome = true) (h : c ∈ beforeQuery u s) : c ∈ s := mem_mask hc (mem_mask hc h)

theorem mem_early (hc : c.origin.isSome = true) (h : c ∈ early q u s) : c ∈ s := mem_beforeQuery hc (mem_mask hc h)

theorem mem_of_takens (hv : v ∈ p.takens redacted none s) (hc : c ∈ v) : c ∈ s := by
  obtain ⟨A, t, h, rfl, hh, rfl⟩ := Pattern.place_of_takens hv
  rw [← (Pattern.find_spells hh).1]
  simp [hc]

/-- The character is there, after one that is of a word or not. -/
def Before (u : Unicode) (c : Cell) (s : Text) (word : Bool) : Prop :=
  ∃ A t, s = A ++ c :: t ∧ (after none A).any u.isword = word

theorem Before.mem {word : Bool} (h : Before u c s word) : c ∈ s := by
  obtain ⟨A, t, rfl, -⟩ := h
  simp

theorem Before.unique {word word' : Bool} (hone : s.count c ≤ 1) (h : Before u c s word) (h' : Before u c s word') :
    word = word' := by
  obtain ⟨A, t, rfl, rfl⟩ := h
  obtain ⟨A', t', heq, rfl⟩ := h'
  rw [List.count_append, List.count_cons_self] at hone
  have hA : c ∉ A := List.count_eq_zero.mp (by omega)
  have ht : c ∉ t := List.count_eq_zero.mp (by omega)
  rw [((List.append_cons_inj_of_notMem hA ht).mp heq).1]

/-- What comes before the text does not matter when it is of no word. -/
theorem word_after {prev prev' : Option Char} (h : prev.any u.isword = prev'.any u.isword) (s : Text) :
    (after prev s).any u.isword = (after prev' s).any u.isword := by
  cases s with
  | nil => exact h
  | cons c s => rfl

/-! ## Fields and lines -/

/-- The space between two parts of a text. -/
def blank : Cell := ⟨' ', none⟩

theorem not_word_blank : (some blank.char).any u.isword = (none : Option Char).any u.isword :=
  not_word_apart (by decide : ' ' ∈ apart)

/-- The field is the line, or a side of it. -/
inductive Part (f : Text) : Text → Prop where
  | whole : Part f f
  | left (s : Text) : Part f (f ++ blank :: s)
  | right (s : Text) : Part f (s ++ blank :: f)

theorem Part.subset (h : Part f line) : f ⊆ line := by
  cases h with
  | whole => exact List.Subset.refl _
  | left s => exact List.subset_append_left _ _
  | right s => exact List.Subset.trans (List.subset_cons_self _ _) (List.subset_append_right _ _)

theorem Part.beforeQuery (h : Part f line) : Part (beforeQuery u f) (beforeQuery u line) := by
  cases h with
  | whole => exact .whole
  | left s => exact beforeQuery_append (u := u) (c := blank) (by decide) f s ▸ .left _
  | right s => exact beforeQuery_append (u := u) (c := blank) (by decide) s f ▸ .right _

theorem Part.mask (hp : p.Avoids ' ') (h : Part f line) : Part (mask p f) (mask p line) := by
  have hsplit : ∀ A B, Alerting.mask p (A ++ blank :: B) = Alerting.mask p A ++ blank :: Alerting.mask p B :=
    fun A B => (Pattern.scan_append (b := blank) hp A B).1
  cases h with
  | whole => exact .whole
  | left s => exact hsplit f s ▸ .left _
  | right s => exact hsplit s f ▸ .right _

theorem Part.takens (hp : p.Avoids ' ') (h : Part f line) (hv : v ∈ p.takens redacted none f) :
    v ∈ p.takens redacted none line := by
  cases h with
  | whole => exact hv
  | left s =>
    rw [(Pattern.scan_append (b := blank) hp f s).2]
    exact List.mem_append_left _ hv
  | right s =>
    rw [(Pattern.scan_append (b := blank) hp s f).2]
    exact List.mem_append_right _ hv

theorem Part.before {word : Bool} (h : Part f line) (hb : Before u c f word) : Before u c line word := by
  obtain ⟨A, t, rfl, hword⟩ := hb
  cases h with
  | whole => exact ⟨A, t, rfl, hword⟩
  | left s => exact ⟨A, t ++ blank :: s, by simp, hword⟩
  | right s =>
    refine ⟨s ++ blank :: A, t, by simp, ?_⟩
    rw [after_append, after_cons, ← hword]
    exact word_after not_word_blank A

/-! ## Lines in a text -/

/-- How a channel writes a line: the first three masks may come before it. -/
structure Encoding (u : Unicode) (q : Pattern) (e : Text → Text) : Prop where
  count : ∀ (s : Text) (c : Cell), c.origin.isSome = true → (e s).count c ≤ s.count c
  early : ∀ s, early q u (e s) = e (early q u s)
  before : ∀ (s : Text) (c : Cell) (word : Bool), c.origin.isSome = true → Before u c (e s) word → Before u c s word

theorem before_escape_from {prev prev' : Option Char} {A : Text} (hprev : prev.any u.isword = prev'.any u.isword)
    (hc : c.origin.isSome = true) (h : escape s = A ++ c :: t) :
    ∃ A' t', s = A' ++ c :: t' ∧ (after prev A).any u.isword = (after prev' A').any u.isword := by
  induction s generalizing A prev prev' with
  | nil => simp at h
  | cons d s ih =>
    rw [escape_cons] at h
    by_cases hd : d.char ∈ specials
    · obtain ⟨name, hname, hcell⟩ := escapeCell_special hd
      rw [hcell] at h
      rcases Pattern.append_cases h with ⟨Z, hZ⟩ | ⟨Z, rfl, hZ⟩
      · -- the letters of an entity have no origin
        exact absurd (by simp [hZ]) (not_mem_text hc name)
      · have hnext : (after prev (text name)).any u.isword = (some d.char).any u.isword := by
          have hsemi : u.isword ';' = false := not_word_apart (by decide)
          have hspecial : u.isword d.char = false :=
            not_word_apart ((by decide : ∀ x ∈ specials, x ∈ apart) _ hd)
          simp only [List.mem_cons, List.not_mem_nil, or_false] at hname
          rcases hname with rfl | rfl | rfl
          all_goals exact hsemi.trans hspecial.symm
        obtain ⟨A', t', rfl, hword⟩ := ih hnext hZ
        exact ⟨d :: A', t', rfl, by rw [after_append, hword]; rfl⟩
    · rw [escapeCell_plain hd] at h
      cases A with
      | nil =>
        obtain ⟨rfl, -⟩ := List.cons.inj h
        exact ⟨[], s, rfl, hprev⟩
      | cons a A =>
        obtain ⟨rfl, hrest⟩ := List.cons.inj h
        have hsame : (some (char d)).any u.isword = (some d.char).any u.isword := rfl
        obtain ⟨A', t', rfl, hword⟩ := ih hsame hrest
        exact ⟨d :: A', t', rfl, hword⟩

theorem encoding_escape : Encoding u questionToken escape := by
  refine ⟨fun s c hc => ?_, early_escape, fun s c word hc h => ?_⟩
  · induction s with
    | nil => simp
    | cons d s ih =>
      rw [escape_cons, List.count_append, List.count_cons]
      by_cases hd : d.char ∈ specials
      · obtain ⟨name, -, hcell⟩ := escapeCell_special hd
        rw [hcell, List.count_eq_zero_of_not_mem (not_mem_text hc name)]
        omega
      · rw [escapeCell_plain hd, List.count_singleton]
        omega
  · obtain ⟨A, t, heq, rfl⟩ := h
    have hsame : (none : Option Char).any u.isword = (none : Option Char).any u.isword := rfl
    obtain ⟨A', t', hs, hword⟩ := before_escape_from hsame hc heq
    exact ⟨A', t', hs, hword.symm⟩

/-- A line in a text, with something between the line and what comes after it. -/
structure Shows (e : Text → Text) (line s : Text) (C D : Text) : Prop where
  eq : s = C ++ blank :: (e line ++ D)
  spaced : D = [] ∨ ∃ c D', D = c :: D' ∧ c.char ∈ [' ', '\n']
  once : ∀ c ∈ line, c.origin.isSome = true → c ∉ C ∧ c ∉ D

/-- What the first three masks make of the text after a line. -/
def afterLine (q : Pattern) (u : Unicode) : Text → Text
  | [] => []
  | c :: D => c :: early q u D

theorem mem_afterLine {D : Text} (hc : c.origin.isSome = true) (h : c ∈ afterLine q u D) : c ∈ D := by
  cases D with
  | nil => exact h
  | cons d D =>
    rcases List.mem_cons.mp h with rfl | h
    · exact List.mem_cons_self
    · exact List.mem_cons_of_mem _ (mem_early hc h)

section Shown
variable {e : Text → Text} {C D : Text} (henc : Encoding u q e) (hq : ∀ x ∈ [' ', '\n'], q.Avoids x)
include henc hq

/-- The first three masks go over the line by itself. -/
theorem Shows.early (h : Shows e line s C D) :
    early q u s = early q u C ++ blank :: (e (early q u line) ++ afterLine q u D) := by
  rw [h.eq, early_append (by decide) (hq _ (by decide))]
  congr 2
  rcases h.spaced with rfl | ⟨c, D', rfl, hc⟩
  · rw [List.append_nil, henc.early]
    exact (List.append_nil _).symm
  · rw [early_append hc (hq _ hc), henc.early]
    rfl

theorem Shows.count (h : Shows e line s C D) (hone : Unique line) (hc : c.origin.isSome = true) (hin : c ∈ line) :
    (Alerting.early q u s).count c ≤ 1 := by
  obtain ⟨hC, hD⟩ := h.once c hin hc
  have hblank : blank ≠ c := fun hbc => by simp [← hbc, blank] at hc
  have hline : (e (Alerting.early q u line)).count c ≤ 1 :=
    (henc.count _ c hc).trans ((((hone.mask _).mask _).mask _) c hc)
  rw [h.early henc hq, List.count_append, List.count_cons_of_ne hblank, List.count_append,
    List.count_eq_zero_of_not_mem fun hmem => hC (mem_early hc hmem),
    List.count_eq_zero_of_not_mem fun hmem => hD (mem_afterLine hc hmem)]
  omega

theorem Shows.before {word : Bool} (h : Shows e line s C D) (hc : c.origin.isSome = true) (hin : c ∈ line)
    (hb : Before u c (Alerting.early q u s) word) : Before u c (Alerting.early q u line) word := by
  obtain ⟨hC, hD⟩ := h.once c hin hc
  obtain ⟨A, t, heq, rfl⟩ := hb
  rw [h.early henc hq] at heq
  rcases Pattern.append_cases heq with ⟨Z, hZ⟩ | ⟨Z, rfl, hZ⟩
  · exact absurd (mem_early hc (hZ ▸ List.mem_append_right _ List.mem_cons_self)) hC
  · cases Z with
    | nil =>
      obtain ⟨rfl, -⟩ := List.cons.inj hZ
      cases hc
    | cons z Z =>
      obtain ⟨rfl, hline⟩ := List.cons.inj hZ
      rcases Pattern.append_cases hline with ⟨Y, hY⟩ | ⟨Y, rfl, hY⟩
      · refine henc.before _ c _ hc ⟨Z, Y, hY, ?_⟩
        rw [after_append, after_cons]
        exact (word_after not_word_blank Z).symm
      · exact absurd (mem_afterLine hc (hY ▸ List.mem_append_right _ List.mem_cons_self)) hD

end Shown

/-! ## Bearer tokens in a text -/

/-- A text goes on after a line with what is in no bearer token. -/
def Ends (D : Text) : Prop := D = [] ∨ ∃ c d D', D = c :: d :: D' ∧ c.char ∈ [' ', '\n'] ∧ d.char ∈ ['<', '[', '#']

theorem mask_head {d : Cell} (hp : ∀ prev s, p.find prev (d :: s) = none) (s : Text) :
    ∃ s', mask p (d :: s) = d :: s' :=
  ⟨_, (Pattern.scan_none (hp none s)).1⟩

theorem early_head {d : Cell} (hd : d.char ∈ ['<', '[', '#']) (s : Text) :
    ∃ s', early questionToken u (d :: s) = d :: s' := by
  have hapart : d.char ∈ apart := (by decide : ∀ x ∈ ['<', '[', '#'], x ∈ apart) _ hd
  have hnone : decide (d.char = '?') = false := (by decide : ∀ x ∈ ['<', '[', '#'], decide (x = '?') = false) _ hd
  obtain ⟨s₁, h₁⟩ := mask_head (fun _ => Pattern.find_of_avoids (webhook_avoids (u := u) hapart)) s
  obtain ⟨s₂, h₂⟩ := mask_head (fun _ => Pattern.find_of_avoids (telegramToken_avoids (u := u) hapart)) s₁
  have hquestion : ∀ prev x, questionToken.find prev (d :: x) = none := fun _ _ => parameter_none hnone
  obtain ⟨s₃, h₃⟩ := mask_head hquestion s₂
  exact ⟨s₃, by rw [early, beforeQuery, h₁, h₂, h₃]⟩

/-- No bearer token goes on there. -/
theorem Ends.prefix_append {D m : Text} (h : Ends D) (hm : IsBearerToken m)
    (hstart : m <+: s ++ afterLine questionToken u D) : m <+: s := by
  rcases h with rfl | ⟨c, d, D', rfl, hc, hd⟩
  · rwa [afterLine, List.append_nil] at hstart
  · obtain ⟨D'', hD''⟩ := early_head (u := u) hd D'
    rw [afterLine, hD''] at hstart
    exact hm.prefix_append ((by decide : ∀ x ∈ [' ', '\n'], isBearerChar x = false) _ hc)
      ((by decide : ∀ x ∈ ['<', '[', '#'], isBearerChar x = false ∧ isSpace x = false) _ hd) hstart

section Amp
variable {A t : Text} {h : Hit Cell} (hA : A ++ t = beforeQuery u line) (hh : queryToken.find (after none A) t = some h)
  (hamp : ∃ c ∈ t.head?, c.char = '&')
  (hno : ∀ w w', w ++ w' = h.taken → w' ≠ [] → questionToken.find (after (some '=') w) (w' ++ h.rest) = none)
include hh

section Text
variable {C D : Text} (hshow : Shows escape line s C D)
include hA hshow

end Text

end Amp

/-! ## What becomes of the values -/

theorem mem_secrets : v ∈ secrets u f ↔ (v ∈ (discordWebhook u).takens redacted none f ∨
    v ∈ (telegramToken u).takens redacted none (mask (discordWebhook u) f) ∨
    v ∈ queryToken.takens redacted none (beforeQuery u f) ∨
    v ∈ (bearer u).takens redacted none (early queryToken u f)) ∧ ∀ c ∈ v, c.origin.isSome = true := by
  simp only [secrets, secretPatterns, takenBy, early, beforeQuery, List.mem_filter, List.mem_append, List.append_nil,
    List.all_eq_true]

section Hidden
variable {C D : Text} (hone : Unique line) (hpart : Part f line) (hv : v ∈ secrets u f)
include hone hpart hv

end Hidden

end MikoV2.Alerting
