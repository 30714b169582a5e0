import MikoV2.Alerting.Formatter
import MikoV2.Lib.Directory
import MikoV2.Lib.Runs
import MikoV2.Lib.TextFile

/-!
# `EmergencyJournal`

The journal's directory, and the calls of `append` and `read_all`, which the lock puts one after the other. The file is
read as text and taken apart again; `json` is a parameter.

* `rotate`, `append`, `readAll` : the calls, where every operation on a file succeeds;
* `Kept` : the file holds the last acknowledged entries; `kept_run` : and all of them while nothing was rotated away;
* `readAll_of_kept` : what is read back;
* `readsBack_iff` : the sequences of appends that are read back whole.
-/

namespace MikoV2.Emergency
open Directory Py TextFile

structure EmergencyJournalConfig where
  maxFileSizeBytes : ℤ := 10000000

/-- What `append` writes on a line. -/
structure Entry (S : Type) where
  symbol : String
  state : S
  deriving DecidableEq

/-- `json` at the entries. `dumps` is `none` where it raises, `loads` where it raises or gives no entry. -/
structure Json (S : Type) where
  dumps : Entry S → Option (List Char)
  loads : List Char → Option (Entry S)

/-- An entry is written as an object on one line, and reads back. -/
structure Json.Lawful {S : Type} (json : Json S) : Prop where
  loads_dumps : ∀ e t, json.dumps e = some t → json.loads t = some e
  braces : ∀ e t, json.dumps e = some t → t.head? = some '\x7b' ∧ t.getLast? = some '\x7d'
  oneLine : ∀ e t, json.dumps e = some t → '\n' ∉ t ∧ '\r' ∉ t

def journalPath : String := "emergency.jsonl"

/-- `journal_path.with_suffix(".1.jsonl")` -/
def backup : String := "emergency.1.jsonl"

variable {S : Type} (cfg : EmergencyJournalConfig) (json : Json S)

/-- A journal that is too large becomes the backup; the one before it is deleted. -/
def rotate (dir : Dict String (List Char)) : Dict String (List Char) :=
  match dir.get? journalPath with
  | none => dir
  | some text =>
    if cfg.maxFileSizeBytes < utf8Size text then (rename (dir.erase backup) journalPath backup).getD dir else dir

/-- The file is opened for appending before the entry is encoded. -/
def appendSync (dir : Dict String (List Char)) (entry : Entry S) : Bool × Dict String (List Char) :=
  let dir := rotate cfg dir
  let text := (dir.get? journalPath).getD []
  match json.dumps entry with
  | some line => (true, dir.set journalPath (text ++ (line ++ ['\n'])))
  | none => (false, dir.set journalPath text)

def readLine (symbol : String) (line : List Char) : Option (Entry S) :=
  let line := strip Alerting.isSpace line
  if line.isEmpty then none
  else (json.loads line).bind fun obj => if obj.symbol = symbol then some obj else none

def readAll (dir : Dict String (List Char)) (symbol : String) : List (Entry S) :=
  match dir.get? journalPath with
  | none => []
  | some text => (lines (translate text)).filterMap (readLine json symbol)

structure Journal (S : Type) where
  dir : Dict String (List Char) := .empty
  /-- the entries for which `append` returned `True` -/
  acknowledged : List (Entry S) := []

def append (journal : Journal S) (entry : Entry S) : Journal S :=
  let (ok, dir) := appendSync cfg json journal.dir entry
  { dir, acknowledged := if ok then journal.acknowledged ++ [entry] else journal.acknowledged }

/-- The journal after the appends `as` to a directory without one. -/
def journalOf (as : List (Entry S)) : Journal S := Runs.run (append cfg json) {} as

/-- `read_all` gives the states that were acknowledged for a symbol, in their order. -/
def ReadsBack (as : List (Entry S)) : Prop :=
  ∀ symbol, (readAll json (journalOf cfg json as).dir symbol).map Entry.state =
    ((journalOf cfg json as).acknowledged.filter fun e => e.symbol = symbol).map Entry.state

/-- What `append` adds to the file. -/
def written (entry : Entry S) : List Char :=
  match json.dumps entry with
  | some line => line ++ ['\n']
  | none => []

/-- A file with `size` bytes is empty, or it is not rotated. -/
def Fits (size : ℕ) : Prop := size = 0 ∨ (size : ℤ) ≤ cfg.maxFileSizeBytes

instance (size : ℕ) : Decidable (Fits cfg size) :=
  inferInstanceAs (Decidable (size = 0 ∨ (size : ℤ) ≤ cfg.maxFileSizeBytes))

/-! ## Reading -/

section Read
variable {json} {as : List (Entry S)}

/-- What an entry's line is read as. -/
theorem readLine_written (hjson : json.Lawful) (symbol : String) {e : Entry S} {t : List Char}
    (h : json.dumps e = some t) :
    readLine json symbol (t ++ ['\n']) = if e.symbol = symbol then some e else none := by
  obtain ⟨hfirst, hlast⟩ := hjson.braces e t h
  have hstrip : strip Alerting.isSpace (t ++ ['\n']) = t :=
    strip_append hfirst hlast (by decide) (by decide) (by decide)
  have hne : t.isEmpty = false := by
    cases t with
    | nil => cases hfirst
    | cons c t => rfl
  simp only [readLine, hstrip, hne, hjson.loads_dumps e t h, Option.bind_some, Bool.false_eq_true, if_false]

theorem oneLine_getD (hjson : json.Lawful) (e : Entry S) :
    '\n' ∉ (json.dumps e).getD [] ∧ '\r' ∉ (json.dumps e).getD [] := by
  cases h : json.dumps e with
  | none => simp
  | some t => exact hjson.oneLine e t h

/-- A file of lines that were written is read entry by entry. -/
theorem readAll_of_written (hjson : json.Lawful) (hsome : ∀ e ∈ as, (json.dumps e).isSome)
    {dir : Dict String (List Char)} (hdir : (dir.get? journalPath).getD [] = as.flatMap (written json))
    (symbol : String) :
    readAll json dir symbol = as.filter fun e => e.symbol = symbol := by
  have htext : as.flatMap (written json) = as.flatMap fun e => (json.dumps e).getD [] ++ ['\n'] := by
    apply List.flatMap_congr
    intro e he
    obtain ⟨t, ht⟩ := Option.isSome_iff_exists.mp (hsome e he)
    simp [written, ht]
  have hread : readAll json dir symbol =
      (lines (translate (as.flatMap (written json)))).filterMap (readLine json symbol) := by
    unfold readAll
    cases hget : dir.get? journalPath with
    | none =>
      rw [hget] at hdir
      rw [← hdir]
      rfl
    | some text =>
      rw [hget] at hdir
      rw [← hdir]
      rfl
  have hreturn : '\r' ∉ as.flatMap fun e => (json.dumps e).getD [] ++ ['\n'] := by
    simp only [List.mem_flatMap, List.mem_append, not_exists, not_and, not_or]
    exact fun e _ => ⟨(oneLine_getD hjson e).2, by decide⟩
  rw [hread, htext, translate_of_not_mem hreturn, lines_flatMap fun e _ => (oneLine_getD hjson e).1, List.filterMap_map]
  rw [← List.filterMap_eq_filter]
  apply List.filterMap_congr
  intro e he
  obtain ⟨t, ht⟩ := Option.isSome_iff_exists.mp (hsome e he)
  simp [readLine_written hjson symbol ht, ht, Option.guard]

end Read

/-! ## What the appends leave -/

def acknowledgedOf (as : List (Entry S)) : List (Entry S) := as.filter fun e => (json.dumps e).isSome

/-- What the appends `as` write. -/
def textOf (as : List (Entry S)) : List Char := as.flatMap (written json)

theorem textOf_append (as bs : List (Entry S)) : textOf json (as ++ bs) = textOf json as ++ textOf json bs :=
  List.flatMap_append

theorem textOf_acknowledgedOf (as : List (Entry S)) : textOf json (acknowledgedOf json as) = textOf json as := by
  induction as with
  | nil => rfl
  | cons e as ih =>
    unfold textOf acknowledgedOf at ih ⊢
    cases h : json.dumps e with
    | none => rw [List.filter_cons_of_neg (by simp [h]), ih, List.flatMap_cons, written, h, List.nil_append]
    | some t => rw [List.filter_cons_of_pos (by simp [h]), List.flatMap_cons, ih, List.flatMap_cons]

theorem acknowledged_run (as : List (Entry S)) : (journalOf cfg json as).acknowledged = acknowledgedOf json as := by
  refine Runs.history_invariant (J := fun as (j : Journal S) => j.acknowledged = acknowledgedOf json as) rfl ?_ as
  intro pre e ih
  generalize Runs.run (append cfg json) {} pre = journal at ih
  unfold acknowledgedOf at ih ⊢
  rw [List.filter_append, ← ih, append, appendSync]
  cases h : json.dumps e with
  | none => simp [h]
  | some t => simp [h]

/-- The bytes of the journal's file; none where there is no file. -/
def journalText (dir : Dict String (List Char)) : List Char := (dir.get? journalPath).getD []

theorem journalText_rotate (dir : Dict String (List Char)) :
    journalText (rotate cfg dir) =
      if Fits cfg (utf8Size (journalText dir)) then journalText dir else [] := by
  have hne : journalPath ≠ backup := by decide
  unfold journalText rotate
  cases hget : dir.get? journalPath with
  | none =>
    simp only [hget]
    split
    · rfl
    · rfl
  | some text =>
    have hrename : rename (dir.erase backup) journalPath backup =
        some (((dir.erase backup).erase journalPath).set backup text) :=
      rename_eq_some.mpr ⟨text, by rw [Dict.get?_erase, if_neg hne, hget], rfl⟩
    have hfits : Fits cfg (utf8Size text) ↔ text = [] ∨ ¬ cfg.maxFileSizeBytes < utf8Size text := by
      rw [Fits, utf8Size_eq_zero, Int.not_lt]
    by_cases hsize : cfg.maxFileSizeBytes < utf8Size text
    · simp only [hsize, if_true, hrename, Option.getD_some, get?_rename, hne, if_false, Option.getD_none, hfits,
        not_true, or_false]
      by_cases hempty : text = []
      · rw [if_pos hempty, hempty]
      · rw [if_neg hempty]
    · simp only [hsize, if_false, hget, Option.getD_some, hfits, not_false_eq_true, or_true, if_true]

theorem journalText_append (journal : Journal S) (e : Entry S) :
    journalText (append cfg json journal e).dir =
      (if Fits cfg (utf8Size (journalText journal.dir)) then journalText journal.dir else []) ++ written json e := by
  rw [← journalText_rotate]
  unfold append appendSync written
  cases h : json.dumps e with
  | none => simp [journalText, Dict.get?_set]
  | some t => simp [journalText, Dict.get?_set]

/-- The file holds the last of the acknowledged entries, and all of them exactly when the file that the last append
found was not rotated away. -/
def Kept (as : List (Entry S)) (journal : Journal S) : Prop :=
  ∃ kept, kept <:+ acknowledgedOf json as ∧ journalText journal.dir = textOf json kept ∧
    (kept = acknowledgedOf json as ↔ Fits cfg (utf8Size (textOf json as.dropLast)))

theorem utf8Size_textOf_le {kept as : List (Entry S)} (h : kept <:+ acknowledgedOf json as) :
    utf8Size (textOf json kept) ≤ utf8Size (textOf json as) := by
  obtain ⟨before, hbefore⟩ := h
  rw [← textOf_acknowledgedOf json as, ← hbefore, textOf_append, utf8Size_append]
  omega

theorem Fits.mono {m n : ℕ} (h : Fits cfg n) (hle : m ≤ n) : Fits cfg m := by
  unfold Fits at *
  omega

theorem textOf_dropLast (as : List (Entry S)) :
    utf8Size (textOf json as.dropLast) ≤ utf8Size (textOf json as) := by
  obtain ⟨after, hafter⟩ := List.dropLast_prefix as
  conv_rhs => rw [← hafter, textOf_append, utf8Size_append]
  omega

theorem kept_run (as : List (Entry S)) : Kept cfg json as (journalOf cfg json as) := by
  refine Runs.history_invariant (J := Kept cfg json) ?_ ?_ as
  · exact ⟨[], List.suffix_refl _, rfl, by simp [acknowledgedOf, textOf, Fits]⟩
  · rintro pre e ⟨kept, hsuffix, htext, hall⟩
    generalize Runs.run (append cfg json) {} pre = journal at htext
    have hwritten : written json e = textOf json (acknowledgedOf json [e]) := by
      rw [textOf_acknowledgedOf]
      simp [textOf]
    have hlast : acknowledgedOf json (pre ++ [e]) = acknowledgedOf json pre ++ acknowledgedOf json [e] :=
      List.filter_append _ _
    unfold Kept
    rw [journalText_append, htext, hwritten, hlast, List.dropLast_concat]
    by_cases hfits : Fits cfg (utf8Size (textOf json kept))
    · refine ⟨kept ++ acknowledgedOf json [e], ?_, ?_, ?_⟩
      · exact List.suffix_append_self_iff.mpr hsuffix
      · rw [if_pos hfits, textOf_append]
      · rw [List.append_left_inj]
        constructor
        · rintro rfl
          rwa [textOf_acknowledgedOf] at hfits
        · intro hpre
          exact hall.mpr (hpre.mono cfg (textOf_dropLast json pre))
    · rw [if_neg hfits]
      refine ⟨acknowledgedOf json [e], List.suffix_append _ _, rfl, ?_⟩
      rw [List.self_eq_append_left]
      constructor
      · intro hnil
        rw [← textOf_acknowledgedOf, hnil]
        exact Or.inl rfl
      · intro hpre
        exact absurd (hpre.mono cfg (utf8Size_textOf_le json hsuffix)) hfits

/-- The entries that are read for every symbol are all of them only if none is missing. -/
theorem eq_of_suffix {kept as : List (Entry S)} (hsuffix : kept <:+ as)
    (h : ∀ symbol, (kept.filter fun e => e.symbol = symbol).map Entry.state =
      (as.filter fun e => e.symbol = symbol).map Entry.state) : kept = as := by
  obtain ⟨missing, rfl⟩ := hsuffix
  cases missing with
  | nil => rfl
  | cons e missing =>
    have hlength := congrArg List.length (h e.symbol)
    simp at hlength
    omega

/-- **What was acknowledged is read back exactly when no file with entries was rotated away.** -/
theorem readsBack_iff (hjson : json.Lawful) (as : List (Entry S)) :
    ReadsBack cfg json as ↔ Fits cfg (utf8Size (textOf json as.dropLast)) := by
  obtain ⟨kept, hsuffix, htext, hall⟩ := kept_run cfg json as
  have hsome : ∀ e ∈ kept, (json.dumps e).isSome := fun e he => (List.mem_filter.mp (hsuffix.subset he)).2
  have hread := readAll_of_written hjson hsome htext
  unfold ReadsBack
  rw [← hall, acknowledged_run]
  simp only [hread]
  constructor
  · exact eq_of_suffix hsuffix
  · rintro rfl symbol
    rfl

/-- `json` at two entries. -/
def sampleTable : List (Entry ℕ × List Char) :=
  [(⟨"BTCUSDT", 0⟩, "\x7b\"symbol\": \"BTCUSDT\", \"state\": \x7b\"i\": 0\x7d\x7d".toList),
    (⟨"BTCUSDT", 1⟩, "\x7b\"symbol\": \"BTCUSDT\", \"state\": \x7b\"i\": 1\x7d\x7d".toList)]

def sampleJson : Json ℕ where
  dumps e := (sampleTable.find? fun row => row.1 = e).map Prod.snd
  loads t := (sampleTable.find? fun row => row.2 = t).map Prod.fst

theorem sampleJson_lawful : sampleJson.Lawful := by
  have hrow : ∀ e t, sampleJson.dumps e = some t → (e, t) ∈ sampleTable := by
    intro e t h
    obtain ⟨row, hfind, rfl⟩ := Option.map_eq_some_iff.mp h
    have he : row.1 = e := by simpa using List.find?_some hfind
    exact he ▸ List.mem_of_find?_eq_some hfind
  have hall : ∀ row ∈ sampleTable, sampleJson.loads row.2 = some row.1 ∧
      (row.2.head? = some '\x7b' ∧ row.2.getLast? = some '\x7d') ∧ '\n' ∉ row.2 ∧ '\r' ∉ row.2 := by
    decide +kernel
  exact ⟨fun e t h => (hall _ (hrow e t h)).1, fun e t h => (hall _ (hrow e t h)).2.1,
    fun e t h => (hall _ (hrow e t h)).2.2⟩

/-- Two entries under the default limit. -/
theorem readsBack_iff_twoEntries : ReadsBack {} sampleJson [⟨"BTCUSDT", 0⟩, ⟨"BTCUSDT", 1⟩] :=
  (readsBack_iff {} sampleJson sampleJson_lawful _).mpr (by decide +kernel)

/-- The second append rotates the first entry away. -/
theorem not_readsBack_rotated :
    sampleJson.Lawful ∧
      ¬ ReadsBack { maxFileSizeBytes := 10 } sampleJson [⟨"BTCUSDT", 0⟩, ⟨"BTCUSDT", 1⟩] := by
  refine ⟨sampleJson_lawful, fun h => ?_⟩
  have hread := h "BTCUSDT"
  revert hread
  decide +kernel

end MikoV2.Emergency
