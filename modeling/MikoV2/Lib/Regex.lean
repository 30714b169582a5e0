import Mathlib.Data.List.Forall2
import Mathlib.Data.List.Infix
import Mathlib.Data.Nat.Notation

/-!
# Regular expressions of a backtracking engine

The engine tries the matches at a place in an order, and takes the first. A text is a list over any type that shows
characters, so that what its characters come with is carried along.

* `Regex`, `run` : the matches at a place, in their order; `Spells` : what a match spells (`mem_run`);
* `Avoids`, `Blind` : no character set and no word has the character, and no word; the first ends every match
  (`run_append`);
* `Pattern`, `find` : an expression with a part that a substitution keeps and one that it takes out.
-/

namespace MikoV2

/-- Shows a character. -/
class Glyph (α : Type) where
  char : α → Char

open Glyph (char)

inductive Regex where
  | empty
  | one (set : Char → Bool)
  /-- greedy, `{least,}` -/
  | many (least : ℕ) (set : Char → Bool)
  /-- `\b`, for what a word is made of -/
  | bound (word : Char → Bool)
  | seq (r r' : Regex)
  | alt (r r' : Regex)

namespace Regex
variable {α : Type} [Glyph α]

/-- A spelled-out text. -/
def lit (same : Char → Char → Bool) : List Char → Regex
  | [] => empty
  | c :: s => seq (one (same c)) (lit same s)

/-- The character before a place, `u` further on. -/
def after : Option Char → List α → Option Char
  | prev, [] => prev
  | _, c :: u => after (some (char c)) u

/-- The character at a place, `next` at its end. -/
def first (u : List α) (next : Option Char) : Option Char := match u with
  | [] => next
  | c :: _ => some (char c)

@[simp] theorem after_nil (prev : Option Char) : after prev ([] : List α) = prev := rfl

@[simp] theorem after_cons (prev : Option Char) (c : α) (u : List α) : after prev (c :: u) = after (some (char c)) u := rfl

@[simp] theorem after_append (prev : Option Char) (u v : List α) : after prev (u ++ v) = after (after prev u) v := by
  induction u generalizing prev with
  | nil => rfl
  | cons c u ih => exact ih _

@[simp] theorem first_nil (next : Option Char) : first ([] : List α) next = next := rfl

@[simp] theorem first_cons (c : α) (u : List α) (next : Option Char) : first (c :: u) next = some (char c) := rfl

theorem first_append (u v : List α) (next : Option Char) : first (u ++ v) next = first u (first v next) := by
  cases u <;> rfl

/-- The longest run first, down to `least` characters. -/
def tries (set : Char → Bool) : ℕ → List α → List (List α × List α)
  | least, [] => if least = 0 then [([], [])] else []
  | least, c :: s =>
    (if set (char c) then (tries set (least - 1) s).map fun h => (c :: h.1, h.2) else []) ++
      if least = 0 then [([], c :: s)] else []

/-- What each match takes, and what comes after it. -/
def run : Regex → Option Char → List α → List (List α × List α)
  | empty, _, s => [([], s)]
  | one _, _, [] => []
  | one set, _, c :: s => if set (char c) then [([c], s)] else []
  | many least set, _, s => tries set least s
  | bound word, prev, s => if prev.any word = (first s none).any word then [] else [([], s)]
  | seq r r', prev, s =>
    (run r prev s).flatMap fun h => (run r' (after prev h.1) h.2).map fun h' => (h.1 ++ h'.1, h'.2)
  | alt r r', prev, s => run r prev s ++ run r' prev s

/-- What a match can be, between two characters. -/
def Spells : Regex → Option Char → List α → Option Char → Prop
  | empty, _, u, _ => u = []
  | one set, _, u, _ => ∃ c, u = [c] ∧ set (char c) = true
  | many least set, _, u, _ => least ≤ u.length ∧ ∀ c ∈ u, set (char c) = true
  | bound word, prev, u, next => u = [] ∧ prev.any word ≠ next.any word
  | seq r r', prev, u, next => ∃ v w, u = v ++ w ∧ Spells r prev v (first w next) ∧ Spells r' (after prev v) w next
  | alt r r', prev, u, next => Spells r prev u next ∨ Spells r' prev u next

/-- The least number of characters of a match. -/
def least : Regex → ℕ
  | empty => 0
  | one _ => 1
  | many n _ => n
  | bound _ => 0
  | seq r r' => least r + least r'
  | alt r r' => min (least r) (least r')

/-- The character is in no set, and in no word. -/
def Avoids (c : Char) : Regex → Prop
  | empty => True
  | one set => set c = false
  | many _ set => set c = false
  | bound word => word c = false
  | seq r r' => Avoids c r ∧ Avoids c r'
  | alt r r' => Avoids c r ∧ Avoids c r'

/-- The character is in no word. -/
def Blind (c : Char) : Regex → Prop
  | empty => True
  | one _ => True
  | many _ _ => True
  | bound word => word c = false
  | seq r r' => Blind c r ∧ Blind c r'
  | alt r r' => Blind c r ∧ Blind c r'

theorem Avoids.blind {r : Regex} {c : Char} (h : r.Avoids c) : r.Blind c := by
  induction r with
  | empty => trivial
  | one set => trivial
  | many n set => trivial
  | bound word => exact h
  | seq r r' ih ih' => exact ⟨ih h.1, ih' h.2⟩
  | alt r r' ih ih' => exact ⟨ih h.1, ih' h.2⟩

theorem blind_lit {same : Char → Char → Bool} {c : Char} (s : List Char) : Blind c (lit same s) := by
  induction s with
  | nil => trivial
  | cons x s ih => exact ⟨trivial, ih⟩

theorem avoids_lit {same : Char → Char → Bool} {c : Char} {s : List Char} (h : ∀ x ∈ s, same x c = false) :
    Avoids c (lit same s) := by
  induction s with
  | nil => trivial
  | cons x s ih =>
    rw [List.forall_mem_cons] at h
    exact ⟨h.1, ih h.2⟩

/-! ## The matches are what is spelled -/

theorem mem_tries {set : Char → Bool} {n : ℕ} {s u t : List α} :
    (u, t) ∈ tries set n s ↔ u ++ t = s ∧ n ≤ u.length ∧ ∀ c ∈ u, set (char c) = true := by
  induction s generalizing n u with
  | nil =>
    unfold tries
    split
    · next hn =>
      simp only [List.mem_singleton, Prod.mk.injEq, List.append_eq_nil_iff]
      constructor
      · rintro ⟨rfl, rfl⟩
        exact ⟨⟨rfl, rfl⟩, Nat.le_of_eq hn, by simp⟩
      · exact fun h => h.1
    · next hn =>
      simp only [List.not_mem_nil, List.append_eq_nil_iff, false_iff]
      rintro ⟨⟨rfl, rfl⟩, hle, -⟩
      exact hn (Nat.le_zero.mp hle)
  | cons c s ih =>
    unfold tries
    rw [List.mem_append]
    cases u with
    | nil =>
      by_cases hn : n = 0 <;> split <;> simp [hn]
    | cons d u =>
      by_cases hset : set (char c) = true
      · simp only [hset, if_true, List.mem_map, Prod.exists, Prod.mk.injEq, List.cons.injEq]
        constructor
        · rintro (⟨u', t', hmem, ⟨rfl, rfl⟩, rfl⟩ | hnil)
          · obtain ⟨happ, hlen, hall⟩ := ih.mp hmem
            simp only [List.cons_append, List.length_cons, List.forall_mem_cons]
            exact ⟨by rw [happ], by omega, hset, hall⟩
          · split at hnil <;> simp at hnil
        · rintro ⟨happ, hlen, hall⟩
          obtain ⟨rfl, hrest⟩ := List.cons.inj happ
          rw [List.length_cons] at hlen
          rw [List.forall_mem_cons] at hall
          exact .inl ⟨u, t, ih.mpr ⟨hrest, by omega, hall.2⟩, ⟨rfl, rfl⟩, rfl⟩
      · have hnot : (d :: u, t) ∉ (if n = 0 then [(([] : List α), c :: s)] else []) := by
          split <;> simp
        simp only [hset, Bool.false_eq_true, if_false, List.not_mem_nil, false_or, iff_false_intro hnot, false_iff]
        rintro ⟨happ, -, hall⟩
        obtain ⟨rfl, -⟩ := List.cons.inj happ
        exact hset (hall d List.mem_cons_self)

theorem mem_run {r : Regex} {prev : Option Char} {s : List α} {h : List α × List α} :
    h ∈ run r prev s ↔ h.1 ++ h.2 = s ∧ Spells r prev h.1 (first h.2 none) := by
  induction r generalizing prev s h with
  | empty =>
    obtain ⟨u, t⟩ := h
    simp only [run, List.mem_singleton, Prod.mk.injEq, Spells]
    constructor
    · rintro ⟨rfl, rfl⟩
      exact ⟨rfl, rfl⟩
    · rintro ⟨happ, rfl⟩
      exact ⟨rfl, happ⟩
  | one set =>
    obtain ⟨u, t⟩ := h
    cases s with
    | nil =>
      simp only [run, List.not_mem_nil, false_iff, Spells]
      rintro ⟨happ, c, rfl, -⟩
      cases happ
    | cons c s =>
      simp only [run, Spells]
      constructor
      · intro hmem
        split at hmem
        · next hset =>
          obtain ⟨rfl, rfl⟩ := Prod.mk.inj (List.mem_singleton.mp hmem)
          exact ⟨rfl, c, rfl, hset⟩
        · cases hmem
      · rintro ⟨happ, d, rfl, hset⟩
        obtain ⟨rfl, rfl⟩ := List.cons.inj happ
        simp [hset]
  | many n set =>
    obtain ⟨u, t⟩ := h
    exact mem_tries
  | bound word =>
    obtain ⟨u, t⟩ := h
    simp only [run, Spells]
    constructor
    · intro hmem
      split at hmem
      · cases hmem
      · next hword =>
        obtain ⟨rfl, rfl⟩ := Prod.mk.inj (List.mem_singleton.mp hmem)
        exact ⟨rfl, rfl, hword⟩
    · rintro ⟨happ, rfl, hword⟩
      obtain rfl : t = s := happ
      simp [hword]
  | seq r r' ih ih' =>
    obtain ⟨u, t⟩ := h
    simp only [run, List.mem_flatMap, List.mem_map, Spells, Prod.exists, Prod.mk.injEq]
    constructor
    · rintro ⟨v, t', hv, w, t'', hw, rfl, rfl⟩
      obtain ⟨rfl, hspells⟩ := ih.mp hv
      obtain ⟨rfl, hspells'⟩ := ih'.mp hw
      rw [first_append] at hspells
      exact ⟨List.append_assoc _ _ _, v, w, rfl, hspells, hspells'⟩
    · rintro ⟨happ, v, w, rfl, hspells, hspells'⟩
      refine ⟨v, w ++ t, ih.mpr ⟨by rw [← happ, List.append_assoc], ?_⟩, w, t, ih'.mpr ⟨rfl, hspells'⟩, rfl, rfl⟩
      rwa [first_append]
  | alt r r' ih ih' =>
    simp only [run, List.mem_append, ih, ih', Spells]
    exact and_or_left.symm

theorem least_le {r : Regex} {prev next : Option Char} {u : List α} (h : Spells r prev u next) : r.least ≤ u.length := by
  induction r generalizing prev next u with
  | empty => exact Nat.zero_le _
  | one set =>
    obtain ⟨c, rfl, -⟩ := h
    exact Nat.le_refl _
  | many n set => exact h.1
  | bound word => exact Nat.zero_le _
  | seq r r' ih ih' =>
    obtain ⟨v, w, rfl, hv, hw⟩ := h
    have hleft := ih hv
    have hright := ih' hw
    simp only [least, List.length_append]
    omega
  | alt r r' ih ih' =>
    simp only [least]
    rcases h with h | h
    · exact (Nat.min_le_left _ _).trans (ih h)
    · exact (Nat.min_le_right _ _).trans (ih' h)

theorem spells_lit {same : Char → Char → Bool} {text : List Char} {prev next : Option Char} {u : List α} :
    Spells (lit same text) prev u next ↔ List.Forall₂ (fun x c => same x (char c) = true) text u := by
  induction text generalizing prev u with
  | nil =>
    rw [List.forall₂_nil_left_iff]
    exact Iff.rfl
  | cons x text ih =>
    simp only [lit, Spells]
    constructor
    · rintro ⟨v, w, rfl, ⟨c, rfl, hc⟩, hw⟩
      exact .cons hc (ih.mp hw)
    · intro h
      cases h with
      | cons hc hw => exact ⟨[_], _, rfl, ⟨_, rfl, hc⟩, ih.mpr hw⟩

/-! ## Where a match ends -/

theorem tries_append {set : Char → Bool} {b : α} (hb : set (char b) = false) (B A : List α) (n : ℕ) :
    tries set n (A ++ b :: B) = (tries set n A).map fun h => (h.1, h.2 ++ b :: B) := by
  induction A generalizing n with
  | nil =>
    by_cases hn : n = 0 <;> simp [tries, hb, hn]
  | cons c A ih =>
    by_cases hn : n = 0 <;> by_cases hset : set (char c) = true <;> simp [tries, ih, hn, hset, Function.comp_def]

/-- No match goes past a character that the expression avoids, or sees anything of what comes after it. -/
theorem run_append {r : Regex} {b : α} (hb : r.Avoids (char b)) (prev : Option Char) (A B : List α) :
    run r prev (A ++ b :: B) = (run r prev A).map fun h => (h.1, h.2 ++ b :: B) := by
  induction r generalizing prev A with
  | empty => rfl
  | one set =>
    cases A with
    | nil =>
      have hset : set (char b) = false := hb
      simp [run, hset]
    | cons c A =>
      by_cases hset : set (char c) = true <;> simp [run, hset]
  | many n set => exact tries_append hb B A n
  | bound word =>
    cases A with
    | nil =>
      have hword : word (char b) = false := hb
      by_cases hprev : prev.any word = true <;> simp [run, hword, hprev]
    | cons c A =>
      by_cases hprev : prev.any word = word (char c) <;> simp [run, hprev]
  | seq r r' ih ih' =>
    simp only [run, ih hb.1, List.flatMap_map, ih' hb.2, List.map_flatMap, List.map_map, Function.comp_def]
  | alt r r' ih ih' =>
    simp only [run, ih hb.1, ih' hb.2, List.map_append]

/-- A match does not tell a character that is in no word from the start of the text. -/
theorem run_blind {r : Regex} {b : Char} (hb : r.Blind b) (s : List α) : run r (some b) s = run r none s := by
  induction r generalizing s with
  | empty => rfl
  | one set => cases s <;> rfl
  | many n set => rfl
  | bound word =>
    have hword : word b = false := hb
    simp [run, hword]
  | seq r r' ih ih' =>
    simp only [run, ih hb.1]
    refine List.flatMap_congr fun h _ => ?_
    cases h.1 with
    | nil => rw [after_nil, after_nil, ih' hb.2]
    | cons c u => rfl
  | alt r r' ih ih' => simp only [run, ih hb.1, ih' hb.2]

/-- The first run tried is the longest. -/
theorem head?_tries {set : Char → Bool} {n : ℕ} {s : List α} {h : List α × List α} (hh : (tries set n s).head? = some h) :
    ∀ c ∈ h.2.head?, set (char c) = false := by
  induction s generalizing n h with
  | nil =>
    unfold tries at hh
    split at hh <;> simp at hh
    subst hh
    simp
  | cons c s ih =>
    unfold tries at hh
    by_cases hset : set (char c) = true
    · rw [if_pos hset, List.head?_append] at hh
      cases hmore : (tries set (n - 1) s).head? with
      | none =>
        -- at least nothing is tried after the last character of the run
        rw [List.head?_eq_none_iff] at hmore
        have hn : n ≠ 0 := by
          rintro rfl
          have hnil : (([] : List α), s) ∈ tries set (0 - 1) s := mem_tries.mpr ⟨rfl, Nat.zero_le _, by simp⟩
          rw [hmore] at hnil
          cases hnil
        simp [hmore, hn] at hh
      | some h' =>
        obtain rfl : (c :: h'.1, h'.2) = h := by simpa [hmore] using hh
        exact ih (h := h') hmore
    · rw [if_neg hset, List.nil_append] at hh
      split at hh
      · obtain rfl := Option.some.inj hh
        simpa using hset
      · cases hh

end Regex

/-! ## Patterns -/

/-- An expression in two parts: a substitution keeps the first and takes the second out. -/
structure Pattern where
  kept : Regex
  taken : Regex
  pos : 0 < taken.least

/-- A match: both of its parts, and the text after it. -/
structure Hit (α : Type) where
  kept : List α
  taken : List α
  rest : List α
  deriving DecidableEq

namespace Pattern
open Regex
variable {α : Type} [Glyph α] {p : Pattern} {prev : Option Char} {s : List α} {h : Hit α}

def hits (p : Pattern) (prev : Option Char) (s : List α) : List (Hit α) :=
  (run p.kept prev s).flatMap fun k => (run p.taken (after prev k.1) k.2).map fun v => ⟨k.1, v.1, v.2⟩

/-- The match at a place. -/
def find (p : Pattern) (prev : Option Char) (s : List α) : Option (Hit α) := (p.hits prev s).head?

def Avoids (c : Char) (p : Pattern) : Prop := p.kept.Avoids c ∧ p.taken.Avoids c

def Blind (c : Char) (p : Pattern) : Prop := p.kept.Blind c ∧ p.taken.Blind c

theorem Avoids.blind {c : Char} (hc : p.Avoids c) : p.Blind c := ⟨hc.1.blind, hc.2.blind⟩

theorem mem_hits : h ∈ p.hits prev s ↔ h.kept ++ h.taken ++ h.rest = s ∧
    p.kept.Spells prev h.kept (first (h.taken ++ h.rest) none) ∧
      p.taken.Spells (after prev h.kept) h.taken (first h.rest none) := by
  obtain ⟨k, v, t⟩ := h
  simp only [hits, List.mem_flatMap, List.mem_map, Prod.exists, Hit.mk.injEq]
  constructor
  · rintro ⟨k', t', hk, v', t'', hv, rfl, rfl, rfl⟩
    obtain ⟨rfl, hkept⟩ := mem_run.mp hk
    obtain ⟨rfl, htaken⟩ := mem_run.mp hv
    exact ⟨List.append_assoc _ _ _, hkept, htaken⟩
  · rintro ⟨rfl, hkept, htaken⟩
    exact ⟨k, v ++ t, mem_run.mpr ⟨(List.append_assoc _ _ _).symm, hkept⟩, v, t, mem_run.mpr ⟨rfl, htaken⟩, rfl, rfl, rfl⟩

theorem find_spells (hh : p.find prev s = some h) : h.kept ++ h.taken ++ h.rest = s ∧
    p.kept.Spells prev h.kept (first (h.taken ++ h.rest) none) ∧
      p.taken.Spells (after prev h.kept) h.taken (first h.rest none) :=
  mem_hits.mp (List.mem_of_mem_head? hh)

theorem taken_ne_nil (hh : p.find prev s = some h) : h.taken ≠ [] := by
  intro hnil
  have hle := least_le (find_spells hh).2.2
  have hpos := p.pos
  rw [hnil, List.length_nil] at hle
  omega

theorem find_short (hs : s.length < p.taken.least) : p.find prev s = none := by
  rw [Option.eq_none_iff_forall_ne_some]
  intro h hh
  obtain ⟨happ, -, hspells⟩ := find_spells hh
  have hle := least_le hspells
  have hlen := congrArg List.length happ
  simp only [List.length_append] at hlen
  omega

@[simp] theorem find_nil : p.find prev ([] : List α) = none := by
  rw [Option.eq_none_iff_forall_ne_some]
  intro h hh
  have happ := (find_spells hh).1
  simp only [List.append_eq_nil_iff] at happ
  exact taken_ne_nil hh happ.1.2

theorem find_append {b : α} (hb : p.Avoids (char b)) (A B : List α) :
    p.find prev (A ++ b :: B) = (p.find prev A).map fun h => { h with rest := h.rest ++ b :: B } := by
  unfold find hits
  rw [← List.head?_map]
  simp only [run_append hb.1, List.flatMap_map, run_append hb.2, List.map_flatMap, List.map_map, Function.comp_def]

theorem find_blind {b : Char} (hb : p.Blind b) : p.find (some b) s = p.find none s := by
  unfold find hits
  rw [run_blind hb.1]
  congr 1
  refine List.flatMap_congr fun k _ => ?_
  cases k.1 with
  | nil => rw [after_nil, after_nil, run_blind hb.2]
  | cons c u => rfl

/-- A greedy last part goes as far as it can. -/
theorem find_greedy {n : ℕ} {set : Char → Bool} (hp : p.taken = .many n set) (hh : p.find prev s = some h) :
    ∀ c ∈ h.rest.head?, set (char c) = false := by
  unfold find hits at hh
  rw [List.head?_flatMap, List.findSome?_eq_some_iff] at hh
  obtain ⟨_, k, _, _, hfirst, -⟩ := hh
  rw [hp, List.head?_map] at hfirst
  obtain ⟨v, hv, rfl⟩ := Option.map_eq_some_iff.mp hfirst
  exact head?_tries hv

end Pattern
end MikoV2
