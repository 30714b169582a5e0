import Mathlib.Data.List.DropRight
import Mathlib.Tactic.Common

/-!
# Text files

The text of a file as it is read line by line: the ends of lines are translated, and a line keeps its `'\n'`.

* `translate` : universal newlines; `lines` : the lines of what it gives;
* `lines_flatMap` : lines that are written one after the other are read back;
* `strip` : a line without the space around it; `utf8Size` : the bytes of a text.
-/

namespace TextFile

variable {α : Type}

/-- `'\r\n'` and `'\r'` are read as `'\n'`. -/
def translate : List Char → List Char
  | [] => []
  | '\r' :: '\n' :: t => '\n' :: translate t
  | '\r' :: t => '\n' :: translate t
  | c :: t => c :: translate t

theorem translate_of_not_mem : ∀ {t : List Char}, '\r' ∉ t → translate t = t
  | [], _ => rfl
  | c :: t, h => by
    rw [List.mem_cons, not_or] at h
    have hc : c ≠ '\r' := Ne.symm h.1
    rw [translate.eq_4 c t (fun _ hcr _ => hc hcr) hc, translate_of_not_mem h.2]

/-- `for line in f`. -/
def lines : List Char → List (List Char)
  | [] => []
  | c :: t =>
    if c = '\n' then [c] :: lines t
    else
      match lines t with
      | [] => [[c]]
      | l :: ls => (c :: l) :: ls

theorem lines_append {l : List Char} (h : '\n' ∉ l) (t : List Char) :
    lines (l ++ '\n' :: t) = (l ++ ['\n']) :: lines t := by
  induction l with
  | nil => simp [lines]
  | cons c l ih =>
    rw [List.mem_cons, not_or] at h
    rw [List.cons_append, lines, if_neg (Ne.symm h.1), ih h.2]
    rfl

/-- Texts without `'\n'`, each written with one, are read back as the lines. -/
theorem lines_flatMap {f : α → List Char} {as : List α} (h : ∀ a ∈ as, '\n' ∉ f a) :
    lines (as.flatMap fun a => f a ++ ['\n']) = as.map fun a => f a ++ ['\n'] := by
  induction as with
  | nil => rfl
  | cons a as ih =>
    have hrest := ih fun b hb => h b (List.mem_cons_of_mem a hb)
    rw [List.flatMap_cons, List.append_assoc, List.singleton_append, lines_append (h a List.mem_cons_self), hrest,
      List.map_cons]

/-- `line.strip()`, where `space` are the characters it strips. -/
def strip (space : Char → Bool) (line : List Char) : List Char := (line.dropWhile space).rdropWhile space

theorem strip_append {space : Char → Bool} {line : List Char} {first last c : Char} (hfirst : line.head? = some first)
    (hlast : line.getLast? = some last) (hf : space first = false) (hl : space last = false) (hc : space c = true) :
    strip space (line ++ [c]) = line := by
  obtain ⟨rest, rfl⟩ := List.head?_eq_some_iff.mp hfirst
  obtain ⟨init, hinit⟩ := List.getLast?_eq_some_iff.mp hlast
  have hdrop : (first :: rest ++ [c]).dropWhile space = first :: rest ++ [c] := by
    rw [List.cons_append, List.dropWhile_cons, if_neg (by simp [hf])]
  rw [strip, hdrop, List.rdropWhile_concat_pos _ _ _ hc, hinit, List.rdropWhile_concat_neg _ _ _ (by simp [hl])]

/-- The bytes of a text. -/
def utf8Size : List Char → ℕ
  | [] => 0
  | c :: t => c.utf8Size + utf8Size t

@[simp] theorem utf8Size_nil : utf8Size [] = 0 := rfl

@[simp] theorem utf8Size_append (t u : List Char) : utf8Size (t ++ u) = utf8Size t + utf8Size u := by
  induction t with
  | nil => simp
  | cons c t ih =>
    rw [List.cons_append, utf8Size, utf8Size, ih]
    omega

theorem utf8Size_eq_zero {t : List Char} : utf8Size t = 0 ↔ t = [] := by
  cases t with
  | nil => simp
  | cons c t =>
    have hpos := c.utf8Size_pos
    rw [utf8Size]
    simp only [reduceCtorEq, iff_false]
    omega

end TextFile
