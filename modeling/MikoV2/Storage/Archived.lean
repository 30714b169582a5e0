import MikoV2.Storage.Archiver

/-!
# No record is lost in the archive

However the calls interleave, fail or end with the process, a stored file keeps a copy in one of the two directories;
and where nothing failed that was there, it has one copy once the calls have returned.

* `Archivable` : the files that `archive_file` may be given;
* `Going`, `Careful` : what a call in progress relies on, and what the others leave it;
* `Archived`, `archived_step` : what every step keeps; `Alone` : where a file may be in both directories;
* `archiving_keeps` : the runs in which every file that is given is archivable; `not_noneLost_archivedAgain` : another.
-/

namespace MikoV2.Storage
open Copies Py

variable {R : Type} {files files' : Dict Path (Frame R)} {c : ArchiveCall R} {src : Path} {name : String} {df : Frame R}
  {fails : Bool}

/-! ## Names -/

/-- `*.parquet.tmp` -/
def IsTmp (name : String) : Prop := ".parquet.tmp".toList <:+ name.toList

instance : DecidablePred IsTmp := fun name => inferInstanceAs (Decidable (".parquet.tmp".toList <:+ name.toList))

theorem isTmp_of_globbed (h : Globbed name) : IsTmp (name ++ ".tmp") := by
  obtain ⟨l, hl⟩ := h
  refine ⟨l, ?_⟩
  rw [String.toList_append, ← hl, List.append_assoc]
  congr 1

theorem IsTmp.not_globbed (h : IsTmp name) : ¬ Globbed name := by
  obtain ⟨l, hl⟩ := h
  rintro ⟨l', hl'⟩
  have hlast := congrArg List.getLast? (hl.trans hl'.symm)
  have htmp : ".parquet.tmp".toList.getLast? = some 'p' := by decide
  have hparquet : ".parquet".toList.getLast? = some 't' := by decide
  rw [List.getLast?_append, List.getLast?_append, htmp, hparquet] at hlast
  simp at hlast

theorem append_tmp_inj {name name' : String} (h : name ++ ".tmp" = name' ++ ".tmp") : name = name' := by
  have hlist := congrArg String.toList h
  rw [String.toList_append, String.toList_append] at hlist
  exact String.toList_inj.mp (List.append_cancel_right hlist)

/-- No stored file of the archive, and no temporary file. -/
def Archivable (p : Path) : Prop := (Globbed p.name → p.dir = .live) ∧ ¬ IsTmp p.name

/-- The name under which a path is stored. -/
def storedName (p : Path) : Option String := if Globbed p.name then some p.name else none

theorem storedName_of_globbed {p : Path} (h : Globbed p.name) : storedName p = some p.name := if_pos h

theorem storedName_of_not {p : Path} (h : ¬ Globbed p.name) : storedName p = none := if_neg h

theorem storedName_tmpDest (p : Path) : storedName p.tmpDest = none := storedName_of_not (not_globbed_append_tmp p.name)

theorem storedName_eq_some {p : Path} : storedName p = some name ↔ Globbed name ∧ p.name = name := by
  unfold storedName
  constructor
  · intro h
    split at h
    · rename_i hglob
      cases h
      exact ⟨hglob, rfl⟩
    · cases h
  · rintro ⟨hglob, rfl⟩
    exact if_pos hglob

namespace Archivable

/-- A stored file that is archived is a live one. -/
theorem eq_live (h : Archivable src) (hglob : Globbed src.name) : src = ⟨.live, src.name⟩ := by
  rw [← h.1 hglob]

theorem ne_archive (h : Archivable src) (hglob : Globbed name) : (⟨.archive, name⟩ : Path) ≠ src := by
  rintro rfl
  exact absurd (h.1 hglob) (show Dir.archive ≠ Dir.live by decide)

theorem ne_tmp (h : Archivable src) (hglob : Globbed name) : (⟨.archive, name ++ ".tmp"⟩ : Path) ≠ src := by
  rintro rfl
  exact h.2 (isTmp_of_globbed hglob)

theorem dest_ne_tmp (h : Archivable src) (hglob : Globbed name) :
    (⟨.archive, name ++ ".tmp"⟩ : Path) ≠ src.dest := by
  intro heq
  have hname : name ++ ".tmp" = src.name := congrArg Path.name heq
  exact h.2 (hname ▸ isTmp_of_globbed hglob)

end Archivable

theorem ne_tmpDest (hglob : Globbed name) (dir : Dir) : (⟨dir, name⟩ : Path) ≠ src.tmpDest := by
  intro heq
  have hname : name = src.name ++ ".tmp" := congrArg Path.name heq
  exact not_globbed_append_tmp src.name (hname ▸ hglob)

/-! ## What a call relies on -/

section Keep
variable (orig : String → Option (Frame R))

/-- The frame it read is the file's, a temporary file of this name holds it, and what it deletes is in the archive. -/
def Relies (files : Dict Path (Frame R)) (src : Path) : ArchivePhase R → Prop
  | .write df => orig src.name = some df
  | .replace => ∀ df, files.get? src.tmpDest = some df → orig src.name = some df
  | .unlink => files.get? src.dest ≠ none
  | _ => True

structure Going (files : Dict Path (Frame R)) (c : ArchiveCall R) : Prop where
  archivable : ∀ p ∈ c.todo, Archivable p
  relies : ∀ src rest, c.todo = src :: rest → Globbed src.name → Relies orig files src c.phase

/-- A stored file stays in the archive, and a temporary file is not replaced by another. -/
structure Careful (files files' : Dict Path (Frame R)) : Prop where
  dest : ∀ name, Globbed name → files.get? ⟨.archive, name⟩ ≠ none → files'.get? ⟨.archive, name⟩ ≠ none
  tmp : ∀ name df, Globbed name → files'.get? ⟨.archive, name ++ ".tmp"⟩ = some df →
    files.get? ⟨.archive, name ++ ".tmp"⟩ = some df ∨ orig name = some df

variable {orig}

theorem Careful.refl (files : Dict Path (Frame R)) : Careful orig files files :=
  ⟨fun _ _ h => h, fun _ _ _ h => Or.inl h⟩

theorem relies_of_plain {phase : ArchivePhase R} (h : phase.Plain) : Relies orig files src phase := by
  cases phase with
  | write df => exact h.elim
  | replace => exact h.elim
  | unlink => exact h.elim
  | _ => trivial

theorem Relies.of_careful {phase : ArchivePhase R} (h : Relies orig files src phase) (hc : Careful orig files files')
    (hglob : Globbed src.name) : Relies orig files' src phase := by
  cases phase with
  | replace =>
    intro df hget
    rcases hc.tmp src.name df hglob hget with hold | horig
    · exact h df hold
    · exact horig
  | unlink => exact hc.dest src.name hglob h
  | _ => exact h

theorem Going.of_careful (h : Going orig files c) (hc : Careful orig files files') : Going orig files' c :=
  ⟨h.archivable, fun src rest htodo hglob => (h.relies src rest htodo hglob).of_careful hc hglob⟩

/-! ## An operation -/

section Operation
variable {r : Dict Path (Frame R) × ArchiveCall R}

theorem FileEffect.kept (h : FileEffect files c src fails r) (hkept : Copies.Kept storedName orig files)
    (hsrc : Archivable src) (hrelies : Globbed src.name → Relies orig files src c.phase) :
    Copies.Kept storedName orig r.1 := by
  have hhome : storedName src.dest = storedName src := rfl
  cases h with
  | goes => exact hkept
  | passes => exact hkept
  | reads => exact hkept
  | writes df hphase => exact hkept.set_of_none (storedName_tmpDest src) df
  | replaces df hphase hget =>
    have herase := hkept.erase_of_none (storedName_tmpDest src)
    by_cases hglob : Globbed src.name
    · have horig := hrelies hglob
      rw [hphase] at horig
      exact herase.set (hhome.trans (storedName_of_globbed hglob)) (horig df hget)
    · exact herase.set_of_none (hhome.trans (storedName_of_not hglob)) df
  | unlinks hphase =>
    by_cases hglob : Globbed src.name
    · have hdest := hrelies hglob
      rw [hphase] at hdest
      obtain ⟨df, hget⟩ := Option.ne_none_iff_exists'.mp hdest
      have hstored := storedName_of_globbed hglob
      exact hkept.erase hstored (hhome.trans hstored) (hsrc.ne_archive hglob) hget
    · exact hkept.erase_of_none (storedName_of_not hglob)
  | moves df hphase hget =>
    by_cases hglob : Globbed src.name
    · have hstored := storedName_of_globbed hglob
      exact hkept.rename hstored (hhome.trans hstored) hget
    · have hnot := storedName_of_not hglob
      exact (hkept.erase_of_none hnot).set_of_none (hhome.trans hnot) df

theorem FileEffect.careful (h : FileEffect files c src fails r) (hsrc : Archivable src)
    (hrelies : Globbed src.name → Relies orig files src c.phase) : Careful orig files r.1 := by
  cases h with
  | goes => exact Careful.refl files
  | passes => exact Careful.refl files
  | reads => exact Careful.refl files
  | writes df hphase =>
    constructor
    · intro name hglob hget
      rw [Dict.get?_set, if_neg (ne_tmpDest hglob _)]
      exact hget
    · intro name df' hglob hget
      rw [Dict.get?_set] at hget
      split at hget
      · rename_i heq
        have hname : name = src.name := append_tmp_inj (congrArg Path.name heq)
        have horig := hrelies (hname ▸ hglob)
        rw [hphase] at horig
        rw [hname, ← Option.some.inj hget]
        exact Or.inr horig
      · exact Or.inl hget
  | replaces df hphase hfile =>
    constructor
    · intro name hglob hget
      rw [Dict.get?_set, Dict.get?_erase, if_neg (ne_tmpDest hglob _)]
      split
      · exact Option.some_ne_none df
      · exact hget
    · intro name df' hglob hget
      rw [Dict.get?_set, Dict.get?_erase, if_neg (hsrc.dest_ne_tmp hglob)] at hget
      split at hget
      · cases hget
      · exact Or.inl hget
  | unlinks hphase =>
    constructor
    · intro name hglob hget
      rw [Dict.get?_erase, if_neg (hsrc.ne_archive hglob)]
      exact hget
    · intro name df' hglob hget
      rw [Dict.get?_erase, if_neg (hsrc.ne_tmp hglob)] at hget
      exact Or.inl hget
  | moves df hphase hfile =>
    constructor
    · intro name hglob hget
      rw [Dict.get?_set, Dict.get?_erase, if_neg (hsrc.ne_archive hglob)]
      split
      · exact Option.some_ne_none df
      · exact hget
    · intro name df' hglob hget
      rw [Dict.get?_set, Dict.get?_erase, if_neg (hsrc.dest_ne_tmp hglob), if_neg (hsrc.ne_tmp hglob)] at hget
      exact Or.inl hget

theorem Going.to (h : Going orig files c) {phase : ArchivePhase R}
    (hrelies : ∀ src rest, c.todo = src :: rest → Globbed src.name → Relies orig files' src phase) :
    Going orig files' (c.to phase) := ⟨h.archivable, hrelies⟩

theorem Going.next (h : Going orig files c) : Going orig files' c.next :=
  ⟨fun p hp => h.archivable p (List.mem_of_mem_tail hp), fun _ _ _ _ => trivial⟩

theorem FileEffect.going {rest : List Path} (h : FileEffect files c src fails r)
    (hkept : Copies.Kept storedName orig files) (hgoing : Going orig files c) (htodo : c.todo = src :: rest) :
    Going orig r.1 r.2 := by
  have hat : ∀ {p : Path} {ps : List Path}, c.todo = p :: ps → p = src := fun hp =>
    (List.cons.inj (hp.symm.trans htodo)).1
  cases h with
  | goes phase hphase hleaves => exact hgoing.to fun _ _ _ _ => relies_of_plain hphase
  | passes => exact hgoing.next
  | reads df hphase hget =>
    refine hgoing.to fun p ps hp hglob => ?_
    rw [hat hp] at hglob ⊢
    exact hkept.faithful (storedName_of_globbed hglob) hget
  | writes df hphase =>
    refine hgoing.to fun p ps hp hglob df' hget => ?_
    rw [hat hp] at hglob hget ⊢
    have horig := hgoing.relies src rest htodo hglob
    rw [hphase] at horig
    rw [Dict.get?_set, if_pos rfl] at hget
    rw [← Option.some.inj hget]
    exact horig
  | replaces df hphase hget =>
    refine hgoing.to fun p ps hp hglob => ?_
    rw [hat hp]
    show Dict.get? _ src.dest ≠ none
    rw [Dict.get?_set, if_pos rfl]
    exact Option.some_ne_none df
  | unlinks => exact hgoing.next
  | moves => exact hgoing.next

end Operation

/-! ## A run -/

/-- The stored files have copies, and every call in progress has what it relies on. -/
structure Archived (orig : String → Option (Frame R)) (s : Archives R) : Prop where
  kept : Copies.Kept storedName orig s.files
  going : ∀ c ∈ s.calls, Going orig s.files c

/-- `archive_file` is given an archivable file. -/
def ArchiveAct.Given : ArchiveAct → Prop
  | .archiveFile filePath => Archivable filePath
  | _ => True

theorem archivable_of_mem_glob {p : Path} (hp : p ∈ glob files .live) : Archivable p := by
  obtain ⟨-, hlive⟩ := List.mem_filter.mp hp
  rw [decide_eq_true_eq] at hlive
  exact ⟨fun _ => hlive.1, fun htmp => htmp.not_globbed hlive.2⟩

theorem Archived.begin {s : Archives R} (hs : Archived orig s) {todo : List Path} (htodo : ∀ p ∈ todo, Archivable p)
    (phase : ArchivePhase R) (hphase : phase.Plain) (locked : Bool) :
    Archived orig { s with calls := s.calls ++ [{ todo := todo, phase := phase, locked := locked }] } := by
  refine ⟨hs.kept, fun c hc => ?_⟩
  rcases List.mem_append.mp hc with hc | hc
  · exact hs.going c hc
  · rw [List.mem_singleton.mp hc]
    exact ⟨htodo, fun _ _ _ _ => relies_of_plain hphase⟩

/-- The other calls, and the one that goes on. -/
theorem mem_calls_set {calls : List (ArchiveCall R)} {i : ℕ} {c' x : ArchiveCall R} (hc : calls[i]? = some c)
    (hx : x ∈ calls.set i c') : x = c' ∨ x ∈ calls := by
  rcases List.mem_cons.mp ((Slots.perm_set hc c').mem_iff.mp hx) with rfl | hother
  · exact Or.inl rfl
  · exact Or.inr (List.mem_of_mem_eraseIdx hother)

theorem archived_step (pandas : Bool) {s : Archives R} (hs : Archived orig s) {a : ArchiveAct} (ha : a.Given) :
    Archived orig (archiveStep pandas s a) := by
  cases a with
  | archiveTask => exact hs.begin (fun p hp => archivable_of_mem_glob hp) .stat trivial false
  | runDaily =>
    show Archived orig (runDaily s)
    unfold runDaily
    split
    · exact hs
    · exact hs.begin (fun p hp => archivable_of_mem_glob hp) .stat trivial true
  | archiveFile filePath =>
    show Archived orig (archiveFile s filePath)
    unfold archiveFile
    split
    · exact hs
    · refine hs.begin (fun p hp => ?_) .check trivial true
      rw [List.mem_singleton.mp hp]
      exact ha
  | step i fails old =>
    simp only [archiveStep]
    split
    · rename_i c hc
      have hgoing := hs.going c (List.mem_of_getElem? hc)
      unfold callStep
      split
      · rename_i src rest htodo
        have hsrc := hgoing.archivable src (htodo ▸ List.mem_cons_self)
        have heffect := fileStep_effect pandas s.files c src fails old
        have hcareful := heffect.careful hsrc (hgoing.relies src rest htodo)
        refine ⟨heffect.kept hs.kept hsrc (hgoing.relies src rest htodo), fun x hx => ?_⟩
        rcases mem_calls_set hc hx with rfl | hx
        · exact heffect.going hs.kept hgoing htodo
        · exact (hs.going x hx).of_careful hcareful
      · refine ⟨hs.kept, fun x hx => ?_⟩
        rcases mem_calls_set hc hx with rfl | hx
        · exact hgoing
        · exact hs.going x hx
    · exact hs
  | cancel i =>
    simp only [archiveStep]
    split
    · rename_i c hc
      have hgoing := hs.going c (List.mem_of_getElem? hc)
      refine ⟨hs.kept, fun x hx => ?_⟩
      rcases mem_calls_set hc hx with rfl | hx
      · exact ⟨hgoing.archivable, hgoing.relies⟩
      · exact hs.going x hx
    · exact hs
  | die => exact ⟨hs.kept, nofun⟩

end Keep

/-! ## One copy -/

/-- The call is to delete the live file of this name. -/
def AtUnlink (name : String) (c : ArchiveCall R) : Prop := c.todo.head? = some ⟨.live, name⟩ ∧ c.phase = .unlink

def InBoth (files : Dict Path (Frame R)) (name : String) : Prop :=
  files.get? ⟨.live, name⟩ ≠ none ∧ files.get? ⟨.archive, name⟩ ≠ none

/-- A file is in both directories only where a call is still to delete the live one. -/
def Alone (s : Archives R) : Prop := ∀ name, Globbed name → InBoth s.files name → ∃ c ∈ s.calls, AtUnlink name c

/-- No operation fails that finds its file, and the process goes on. -/
def ArchiveAct.Smooth : ArchiveAct → Prop
  | .step _ fails _ => fails = false
  | .die => False
  | _ => True

/-- Where a file comes to be in both directories, or stays there. -/
theorem FileEffect.inBoth {r : Dict Path (Frame R) × ArchiveCall R} {rest : List Path}
    (h : FileEffect files c src false r) (hsrc : Archivable src) (htodo : c.todo = src :: rest)
    (hglob : Globbed name) (hboth : InBoth r.1 name) : InBoth files name ∧ ¬ AtUnlink name c ∨ AtUnlink name r.2 := by
  have hphased : ∀ {phase : ArchivePhase R}, c.phase = phase → phase ≠ .unlink → ¬ AtUnlink name c := by
    rintro phase rfl hne ⟨-, hat⟩
    exact hne hat
  obtain ⟨hlive, harchive⟩ := hboth
  cases h with
  | goes phase hplain hleaves =>
    refine Or.inl ⟨⟨hlive, harchive⟩, ?_⟩
    rintro ⟨hhead, hat⟩
    rw [htodo, List.head?_cons] at hhead
    rcases hleaves hat with hfails | hgone
    · cases hfails
    · rw [Option.some.inj hhead] at hgone
      exact hlive hgone
  | passes hphase => exact Or.inl ⟨⟨hlive, harchive⟩, hphased rfl hphase⟩
  | reads df hphase => exact Or.inl ⟨⟨hlive, harchive⟩, hphased hphase (by simp)⟩
  | writes df hphase =>
    rw [Dict.get?_set, if_neg (ne_tmpDest hglob _)] at hlive harchive
    exact Or.inl ⟨⟨hlive, harchive⟩, hphased hphase (by simp)⟩
  | replaces df hphase =>
    by_cases hname : src.name = name
    · subst hname
      refine Or.inr ⟨?_, rfl⟩
      show c.todo.head? = _
      rw [htodo, List.head?_cons, ← hsrc.eq_live hglob]
    · have hdest : ∀ dir, (⟨dir, name⟩ : Path) ≠ src.dest := fun dir h => hname (congrArg Path.name h).symm
      rw [Dict.get?_set, Dict.get?_erase, if_neg (hdest _), if_neg (ne_tmpDest hglob _)] at hlive harchive
      exact Or.inl ⟨⟨hlive, harchive⟩, hphased hphase (by simp)⟩
  | unlinks hphase =>
    rw [Dict.get?_erase, if_neg (hsrc.ne_archive hglob)] at harchive
    rw [Dict.get?_erase] at hlive
    split at hlive
    · exact absurd rfl hlive
    · rename_i hne
      refine Or.inl ⟨⟨hlive, harchive⟩, ?_⟩
      rintro ⟨hhead, -⟩
      rw [htodo, List.head?_cons] at hhead
      exact hne (Option.some.inj hhead).symm
  | moves df hphase =>
    have hdest : (⟨.live, name⟩ : Path) ≠ src.dest := fun h =>
      absurd (congrArg Path.dir h) (show Dir.live ≠ Dir.archive by decide)
    rw [Dict.get?_set, Dict.get?_erase, if_neg hdest] at hlive
    rw [Dict.get?_set, Dict.get?_erase, if_neg (hsrc.ne_archive hglob)] at harchive
    split at hlive
    · exact absurd rfl hlive
    · rename_i hne
      have hname : (⟨.archive, name⟩ : Path) ≠ src.dest := by
        intro heq
        have hsame : name = src.name := congrArg Path.name heq
        exact hne (hsame ▸ (hsrc.eq_live (hsame ▸ hglob)).symm)
      rw [if_neg hname] at harchive
      exact Or.inl ⟨⟨hlive, harchive⟩, hphased hphase (by simp)⟩

theorem exists_mem_calls_set {calls : List (ArchiveCall R)} {i : ℕ} {c' : ArchiveCall R} (hc : calls[i]? = some c)
    (h : ∃ x ∈ calls, AtUnlink name x) (hleft : AtUnlink name c → AtUnlink name c') :
    ∃ x ∈ calls.set i c', AtUnlink name x := by
  have hset := Slots.perm_set hc c'
  obtain ⟨x, hx, hat⟩ := h
  rcases List.mem_cons.mp ((Slots.perm_erase hc).mem_iff.mp hx) with rfl | hother
  · exact ⟨c', hset.mem_iff.mpr List.mem_cons_self, hleft hat⟩
  · exact ⟨x, hset.mem_iff.mpr (List.mem_cons_of_mem _ hother), hat⟩

theorem Alone.begin {s : Archives R} (hs : Alone s) (c : ArchiveCall R) :
    Alone { s with calls := s.calls ++ [c] } := by
  intro name hglob hboth
  obtain ⟨x, hx, hat⟩ := hs name hglob hboth
  exact ⟨x, List.mem_append_left _ hx, hat⟩

theorem alone_step (pandas : Bool) {orig : String → Option (Frame R)} {s : Archives R} (hs : Archived orig s)
    (halone : Alone s) {a : ArchiveAct} (ha : a.Smooth) : Alone (archiveStep pandas s a) := by
  cases a with
  | archiveTask => exact halone.begin _
  | runDaily =>
    show Alone (runDaily s)
    unfold runDaily
    split
    · exact halone
    · exact halone.begin _
  | archiveFile filePath =>
    show Alone (archiveFile s filePath)
    unfold archiveFile
    split
    · exact halone
    · exact halone.begin _
  | step i fails old =>
    obtain rfl : fails = false := ha
    simp only [archiveStep]
    split
    · rename_i c hc
      have hgoing := hs.going c (List.mem_of_getElem? hc)
      intro name hglob hboth
      unfold callStep at hboth ⊢
      split at hboth
      · rename_i src rest htodo
        have hsrc := hgoing.archivable src (htodo ▸ List.mem_cons_self)
        have heffect := fileStep_effect pandas s.files c src false old
        rcases heffect.inBoth hsrc htodo hglob hboth with ⟨hbefore, hnot⟩ | hat
        · exact exists_mem_calls_set hc (halone name hglob hbefore) fun hat => absurd hat hnot
        · exact ⟨_, (Slots.perm_set hc _).mem_iff.mpr List.mem_cons_self, hat⟩
      · exact exists_mem_calls_set hc (halone name hglob hboth) id
    · exact halone
  | cancel i =>
    simp only [archiveStep]
    split
    · rename_i c hc
      intro name hglob hboth
      exact exists_mem_calls_set hc (halone name hglob hboth) id
    · exact halone
  | die => exact ha.elim

/-! ## From a start -/

/-- No name is in both directories. -/
def Distinct (files : Dict Path (Frame R)) : Prop := ∀ name, ¬ InBoth files name

/-- What a stored file has at the start. -/
def original (start : Dict Path (Frame R)) (name : String) : Option (Frame R) :=
  if Globbed name then (start.get? ⟨.live, name⟩).or (start.get? ⟨.archive, name⟩) else none

def Stored (files : Dict Path (Frame R)) (dir : Dir) (name : String) (df : Frame R) : Prop :=
  Globbed name ∧ files.get? ⟨dir, name⟩ = some df

/-- Every stored file of the start is stored. -/
def NoneLost (start : Dict Path (Frame R)) (s : Archives R) : Prop :=
  ∀ dir name df, Stored start dir name df → ∃ dir', Stored s.files dir' name df

/-- Every stored file of the start is stored in one of the directories, and in no other. -/
def EachOnce (start : Dict Path (Frame R)) (s : Archives R) : Prop :=
  ∀ dir name df, Stored start dir name df →
    ∃ dir', Stored s.files dir' name df ∧ ∀ other, other ≠ dir' → s.files.get? ⟨other, name⟩ = none

/-- Every call has returned. -/
def Idle (s : Archives R) : Prop := ∀ c ∈ s.calls, c.returned = true

instance (s : Archives R) : Decidable (Idle s) :=
  decidable_of_iff (s.calls.all ArchiveCall.returned = true) List.all_eq_true

section Start
variable {start : Dict Path (Frame R)} {dir : Dir}

theorem original_of_stored (hdistinct : Distinct start) (h : Stored start dir name df) :
    original start name = some df := by
  obtain ⟨hglob, hget⟩ := h
  unfold original
  rw [if_pos hglob]
  cases dir with
  | live => rw [hget, Option.some_or]
  | archive =>
    have hlive : start.get? ⟨.live, name⟩ = none := by
      by_contra hne
      apply hdistinct name
      exact ⟨hne, by rw [hget]; exact Option.some_ne_none df⟩
    rw [hlive, Option.none_or, hget]

theorem stored_of_original (h : original start name = some df) : ∃ dir, Stored start dir name df := by
  unfold original at h
  split at h
  · rename_i hglob
    rcases Option.or_eq_some_iff.mp h with hget | ⟨-, hget⟩
    · exact ⟨.live, hglob, hget⟩
    · exact ⟨.archive, hglob, hget⟩
  · cases h

/-- A place of a name. -/
theorem stored_iff {p : Path} : storedName p = some name ∧ files.get? p = some df ↔
    p.name = name ∧ Stored files p.dir name df := by
  rw [storedName_eq_some]
  constructor
  · rintro ⟨⟨hglob, rfl⟩, hget⟩
    exact ⟨rfl, hglob, hget⟩
  · rintro ⟨rfl, hglob, hget⟩
    exact ⟨⟨hglob, rfl⟩, hget⟩

theorem kept_start (hdistinct : Distinct start) : Copies.Kept storedName (original start) start := by
  constructor
  · intro p name df hname hget
    exact original_of_stored hdistinct (stored_iff.mp ⟨hname, hget⟩).2
  · intro name df horig
    obtain ⟨dir, hstored⟩ := stored_of_original horig
    exact ⟨⟨dir, name⟩, stored_iff.mpr ⟨rfl, hstored⟩⟩

theorem archived_start (hdistinct : Distinct start) : Archived (original start) { files := start } :=
  ⟨kept_start hdistinct, nofun⟩

theorem alone_start (hdistinct : Distinct start) : Alone { files := start } :=
  fun name _ hboth => absurd hboth (hdistinct name)

theorem Archived.noneLost {s : Archives R} (hs : Archived (original start) s) (hdistinct : Distinct start) :
    NoneLost start s := by
  intro dir name df hstored
  obtain ⟨p, hname, hget⟩ := hs.kept.held (original_of_stored hdistinct hstored)
  exact ⟨p.dir, (stored_iff.mp ⟨hname, hget⟩).2⟩

theorem not_inBoth_of_idle {s : Archives R} (halone : Alone s) (hidle : Idle s) (hglob : Globbed name) :
    ¬ InBoth s.files name := by
  intro hboth
  obtain ⟨c, hc, hhead, -⟩ := halone name hglob hboth
  have hreturned := hidle c hc
  rw [ArchiveCall.returned, List.isEmpty_iff] at hreturned
  rw [hreturned] at hhead
  cases hhead

theorem single_of_not_inBoth (h : ∀ name, Globbed name → ¬ InBoth files name) : Single storedName files := by
  rintro ⟨dir, name⟩ ⟨dir', name'⟩ n hn hn' hget hget'
  obtain ⟨hglob, rfl⟩ := storedName_eq_some.mp hn
  obtain ⟨-, rfl⟩ := storedName_eq_some.mp hn'
  have hnot := h _ hglob
  cases dir with
  | live =>
    cases dir' with
    | live => rfl
    | archive => exact absurd ⟨hget, hget'⟩ hnot
  | archive =>
    cases dir' with
    | live => exact absurd ⟨hget', hget⟩ hnot
    | archive => rfl

theorem eachOnce_of_single {s : Archives R} (hlost : NoneLost start s) (hsingle : Single storedName s.files) :
    EachOnce start s := by
  intro dir name df hstored
  obtain ⟨dir', hglob, hget⟩ := hlost dir name df hstored
  refine ⟨dir', ⟨hglob, hget⟩, fun other hother => ?_⟩
  by_contra hne
  have hname : ∀ d, storedName ⟨d, name⟩ = some name := fun d => storedName_eq_some.mpr ⟨hglob, rfl⟩
  have hsame := hsingle _ _ name (hname other) (hname dir') hne (by rw [hget]; exact Option.some_ne_none df)
  exact hother (congrArg Path.dir hsame)

end Start

/-! ## Reading -/

section Snapshot
variable (symbolOf : R → Option String) (tsMsOf : R → Option ℤ) (symbol : String) (tsFrom tsTo : ℤ)

theorem glob_eq (files : Dict Path (Frame R)) (dir : Dir) : glob files dir =
    ((files.items.filter fun e => Globbed e.1.name).filter fun e => e.1.dir = dir).map Prod.fst := by
  unfold glob Dict.keys
  rw [List.filter_map, List.filter_filter]
  congr 1
  refine List.filter_congr fun e _ => ?_
  simp

theorem flatMap_glob (files : Dict Path (Frame R)) (dir : Dir) (f : Frame R → List R) :
    ((glob files dir).flatMap fun p => ((files.get? p).map f).getD []) =
      ((files.items.filter fun e => Globbed e.1.name).filter fun e => e.1.dir = dir).flatMap fun e => f e.2 := by
  rw [glob_eq, List.flatMap_map]
  refine List.flatMap_congr fun e he => ?_
  have hmem : e ∈ files.items := List.mem_of_mem_filter (List.mem_of_mem_filter he)
  rw [Dict.mem_items.mp hmem]
  rfl

theorem copies_eq (files : Dict Path (Frame R)) : copies storedName files =
    (files.items.filter fun e => Globbed e.1.name).map fun e => (e.1.name, e.2) := by
  unfold copies
  rw [← List.filterMap_eq_map, List.filterMap_filter]
  refine List.filterMap_congr fun e _ => ?_
  unfold storedName
  by_cases hglob : Globbed e.1.name
  · simp [hglob]
  · simp [hglob]

/-- `read_snapshot` reads every copy. -/
theorem readSnapshot_perm (files : Dict Path (Frame R)) :
    (readSnapshot true symbolOf tsMsOf symbol tsFrom tsTo files).Perm
      ((copies storedName files).flatMap fun x => selected symbolOf tsMsOf symbol tsFrom tsTo x.2) := by
  have hsplit := List.filter_append_perm (fun e : Path × Frame R => decide (e.1.dir = .live))
    (files.items.filter fun e => Globbed e.1.name)
  have harchive : ((files.items.filter fun e => Globbed e.1.name).filter fun e => !decide (e.1.dir = .live)) =
      (files.items.filter fun e => Globbed e.1.name).filter fun e => decide (e.1.dir = .archive) := by
    refine List.filter_congr fun e _ => ?_
    cases e.1.dir with
    | live => rfl
    | archive => rfl
  have hread := hsplit.flatMap_right fun e => selected symbolOf tsMsOf symbol tsFrom tsTo e.2
  rw [harchive, List.flatMap_append] at hread
  unfold readSnapshot
  simp only [Bool.not_true, Bool.false_eq_true, if_false, List.flatMap_cons, List.flatMap_nil, List.append_nil]
  rw [flatMap_glob, flatMap_glob, copies_eq, List.flatMap_map]
  exact hread

theorem readSnapshot_congr (pandas : Bool) {orig : String → Option (Frame R)}
    (h : Copies.Kept storedName orig files) (h' : Copies.Kept storedName orig files') (hs : Single storedName files)
    (hs' : Single storedName files') :
    (readSnapshot pandas symbolOf tsMsOf symbol tsFrom tsTo files).Perm
      (readSnapshot pandas symbolOf tsMsOf symbol tsFrom tsTo files') := by
  cases pandas with
  | false => exact List.Perm.refl _
  | true =>
    have hcopies := (copies_perm h h' hs hs').flatMap_right fun x => selected symbolOf tsMsOf symbol tsFrom tsTo x.2
    exact (readSnapshot_perm symbolOf tsMsOf symbol tsFrom tsTo files).trans
      (hcopies.trans (readSnapshot_perm symbolOf tsMsOf symbol tsFrom tsTo files').symm)

end Snapshot

/-! ## Every run -/

/-- **No record is lost where the files that are given are archivable.** At every point of every run each stored file
of the start is stored with what it had. In a run in which nothing failed that was there, it is stored once when every
call has returned, and reading gives what it gave at the start. -/
theorem archiving_keeps (pandas : Bool) (start : Dict Path (Frame R)) (hdistinct : Distinct start)
    (as : List ArchiveAct) (hgiven : ∀ a ∈ as, a.Given) :
    Runs.Always (NoneLost start) (archiveStep pandas) { files := start } as ∧
    ((∀ a ∈ as, a.Smooth) → Idle (Runs.run (archiveStep pandas) { files := start } as) →
      EachOnce start (Runs.run (archiveStep pandas) { files := start } as) ∧
      ∀ (symbolOf : R → Option String) (tsMsOf : R → Option ℤ) (symbol : String) (tsFrom tsTo : ℤ),
        (readSnapshot pandas symbolOf tsMsOf symbol tsFrom tsTo
            (Runs.run (archiveStep pandas) { files := start } as).files).Perm
          (readSnapshot pandas symbolOf tsMsOf symbol tsFrom tsTo start)) := by
  have hlost : Runs.Always (NoneLost start) (archiveStep pandas) { files := start } as := by
    have hguarded : Runs.Guarded (fun _ a => a.Given) (archiveStep pandas) { files := start } as :=
      Runs.guarded_of_forall fun a ha _ => hgiven a ha
    have halways := Runs.always_of_guarded (archived_start hdistinct) (fun s a hs ha => archived_step pandas hs ha)
      hguarded
    exact halways.mono fun s hs => hs.noneLost hdistinct
  refine ⟨hlost, fun hsmooth hidle => ?_⟩
  have hguarded : Runs.Guarded (fun _ a => a.Given ∧ a.Smooth) (archiveStep pandas) { files := start } as :=
    Runs.guarded_of_forall fun a ha _ => ⟨hgiven a ha, hsmooth a ha⟩
  have hboth := Runs.always_of_guarded (I := fun s => Archived (original start) s ∧ Alone s)
    ⟨archived_start hdistinct, alone_start hdistinct⟩
    (fun s a hs ha => ⟨archived_step pandas hs.1 ha.1, alone_step pandas hs.1 hs.2 ha.2⟩) hguarded
  obtain ⟨harchived, halone⟩ := hboth.last
  have hsingle := single_of_not_inBoth fun name hglob => not_inBoth_of_idle halone hidle hglob
  refine ⟨eachOnce_of_single hlost.last hsingle, fun symbolOf tsMsOf symbol tsFrom tsTo => ?_⟩
  exact readSnapshot_congr symbolOf tsMsOf symbol tsFrom tsTo pandas harchived.kept (kept_start hdistinct) hsingle
    (single_of_not_inBoth fun name _ => hdistinct name)

/-- A file in one of the directories. -/
def oneFile (dir : Dir) : Dict Path (Frame ℕ) :=
  Dict.empty.set ⟨dir, "a.parquet"⟩ { columns := ["price"], rows := [100] }

theorem distinct_oneFile (dir : Dir) : Distinct (oneFile dir) := by
  rintro name ⟨hlive, harchive⟩
  have hat : ∀ p, (oneFile dir).get? p ≠ none → p.dir = dir := by
    intro p hp
    unfold oneFile at hp
    rw [Dict.get?_set] at hp
    split at hp
    · rename_i heq
      rw [heq]
    · exact absurd rfl hp
  exact absurd ((hat _ hlive).trans (hat _ harchive).symm) (show Dir.live ≠ Dir.archive by decide)

/-- `archive_task` and `archive_file` at the same file: both write it, and one finds the other's renames done. -/
def race : List ArchiveAct :=
  [.archiveTask, .archiveFile ⟨.live, "a.parquet"⟩, .step 1 false true, .step 0 false true, .step 0 false true,
    .step 1 false true, .step 0 false true, .step 1 false true, .step 0 false true, .step 1 false true,
    .step 0 false true, .step 1 false true]

theorem archiving_keeps_race :
    Runs.Always (NoneLost (oneFile .live)) (archiveStep true) { files := oneFile .live } race ∧
    EachOnce (oneFile .live) (Runs.run (archiveStep true) { files := oneFile .live } race) := by
  have hgiven : ∀ a ∈ race, a.Given := by
    have hfile : Archivable ⟨.live, "a.parquet"⟩ := ⟨fun _ => rfl, by decide⟩
    simpa [race, ArchiveAct.Given] using hfile
  have hsmooth : ∀ a ∈ race, a.Smooth := by simp [race, ArchiveAct.Smooth]
  have hidle : Idle (Runs.run (archiveStep true) { files := oneFile .live } race) := by decide
  have h := archiving_keeps true (oneFile .live) (distinct_oneFile .live) race hgiven
  exact ⟨h.1, (h.2 hsmooth hidle).1⟩

/-- A file of the archive is given: it is written, put in its own place, and deleted. -/
theorem not_noneLost_archivedAgain :
    Distinct (oneFile .archive) ∧
    ¬ Runs.Always (NoneLost (oneFile .archive)) (archiveStep true) { files := oneFile .archive }
      [.archiveFile ⟨.archive, "a.parquet"⟩, .step 0 false true, .step 0 false true, .step 0 false true,
        .step 0 false true, .step 0 false true] := by
  refine ⟨distinct_oneFile .archive, fun h => ?_⟩
  obtain ⟨dir, -, hget⟩ := h.last .archive "a.parquet" { columns := ["price"], rows := [100] }
    ⟨by decide, by decide⟩
  cases dir with
  | live => exact absurd hget (by decide)
  | archive => exact absurd hget (by decide)

end MikoV2.Storage
