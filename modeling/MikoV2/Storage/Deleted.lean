import Mathlib.Tactic.NormNum
import MikoV2.Storage.Housekeeping

/-!
# Files are deleted by policy only

However archiving and deleting interleave, fail, are cancelled or end with the process, a stored file of the start
keeps a copy, or one of its copies was deleted: from the archive after its last write was older than the cutoff, or,
the oldest first, while the disk was full. A copy never looks older than the file did at the start.

* `Deletion.Proper` : what the calls delete, and why;
* `Holds`, `Relying`, `Considerate` : the files with their times, what an archiving call relies on, and what the
  other calls leave it;
* `SweepCall.Ready`, `EnforceCall.Ready` : what the deleting calls know of their files;
* `Housed`, `housed_step` : what every step keeps; `housekeeping_keeps` : every run.
-/

namespace MikoV2.Storage
open Py

variable {R : Type} {files files' : Dict Path (Frame R)} {mtime mtime' : Path → ℚ} {c : ArchiveCall R} {src : Path}
  {name : String} {deleted : List Deletion} {nowS : ℚ}

/-- A copy of this name was deleted. -/
def Gone (deleted : List Deletion) (name : String) : Prop := ∃ d ∈ deleted, d.path.name = name

theorem Gone.append (h : Gone deleted name) (ds : List Deletion) : Gone (deleted ++ ds) name := by
  obtain ⟨d, hd, hname⟩ := h
  exact ⟨d, List.mem_append_left _ hd, hname⟩

/-- The orphans that a limit is for. -/
def OrphanLimit (suffix : String) (limitMs : ℤ) : Prop :=
  suffix = ".parquet._closed" ∧ limitMs = orphanClosedMs ∨ suffix = ".parquet.deleted" ∧ limitMs = orphanDeletedMs

/-- A stored file of the archive whose last write, here and at the start, was before the cutoff; an orphan that is too
old; or a stored file while the disk was full, and none of those that come after it looked older. -/
def Deletion.Proper (time : String → ℚ) (d : Deletion) : Prop :=
  match d.why with
  | .expired (.before cutoffS) seen =>
    Globbed d.path.name ∧ d.path.dir = .archive ∧ time d.path.name ≤ seen ∧ seen < cutoffS
  | .expired (.older nowMs limitMs) seen =>
    (∃ suffix, HasSuffix suffix d.path.name ∧ OrphanLimit suffix limitMs) ∧ limitMs < nowMs - toInt (seen * 1000)
  | .full pct seen later =>
    Globbed d.path.name ∧ diskFullPct ≤ pct ∧ time d.path.name ≤ seen ∧ ∀ x ∈ later, seen ≤ x

section Keep
variable (orig : String → Option (Frame R)) (time : String → ℚ)

/-! ## The files -/

/-- Stored files have what they had, no copy looks older, and a file without a copy was deleted. -/
structure Holds (files : Dict Path (Frame R)) (mtime : Path → ℚ) (deleted : List Deletion) : Prop where
  faithful : ∀ {dir name df}, Stored files dir name df → orig name = some df
  timed : ∀ {dir name df}, Stored files dir name df → time name ≤ mtime ⟨dir, name⟩
  held : ∀ {name df}, orig name = some df → (∃ dir, Stored files dir name df) ∨ Gone deleted name

/-- The frame it read is the file's, a temporary file of this name holds it and is no older, and what it deletes is in
the archive, or was deleted there. -/
def Needs (files : Dict Path (Frame R)) (mtime : Path → ℚ) (deleted : List Deletion) (src : Path) :
    ArchivePhase R → Prop
  | .write df => orig src.name = some df
  | .replace => ∀ df, files.get? src.tmpDest = some df →
    orig src.name = some df ∧ time src.name ≤ mtime src.tmpDest
  | .unlink => files.get? src.dest ≠ none ∨ Gone deleted src.name
  | _ => True

structure Relying (files : Dict Path (Frame R)) (mtime : Path → ℚ) (deleted : List Deletion) (c : ArchiveCall R) :
    Prop where
  archivable : ∀ p ∈ c.todo, Archivable p
  relies : ∀ src rest, c.todo = src :: rest → Globbed src.name → Needs orig time files mtime deleted src c.phase

/-- A stored file stays in the archive unless it is deleted, and a temporary file is not replaced by another. -/
structure Considerate (files files' : Dict Path (Frame R)) (mtime mtime' : Path → ℚ) (deleted deleted' : List Deletion) :
    Prop where
  dest : ∀ name, Globbed name → files.get? ⟨.archive, name⟩ ≠ none ∨ Gone deleted name →
    files'.get? ⟨.archive, name⟩ ≠ none ∨ Gone deleted' name
  tmp : ∀ name df, Globbed name → files'.get? ⟨.archive, name ++ ".tmp"⟩ = some df →
    files.get? ⟨.archive, name ++ ".tmp"⟩ = some df ∧
        mtime' ⟨.archive, name ++ ".tmp"⟩ = mtime ⟨.archive, name ++ ".tmp"⟩ ∨
      orig name = some df ∧ time name ≤ mtime' ⟨.archive, name ++ ".tmp"⟩

variable {orig time}

theorem Considerate.refl (files : Dict Path (Frame R)) (mtime : Path → ℚ) (deleted : List Deletion) :
    Considerate orig time files files mtime mtime deleted deleted :=
  ⟨fun _ _ h => h, fun _ _ _ h => Or.inl ⟨h, rfl⟩⟩

theorem needs_of_plain {phase : ArchivePhase R} (h : phase.Plain) :
    Needs orig time files mtime deleted src phase := by
  cases phase with
  | write df => exact h.elim
  | replace => exact h.elim
  | unlink => exact h.elim
  | _ => trivial

theorem Relying.of_considerate {deleted' : List Deletion} (h : Relying orig time files mtime deleted c)
    (hc : Considerate orig time files files' mtime mtime' deleted deleted') :
    Relying orig time files' mtime' deleted' c := by
  refine ⟨h.archivable, fun src rest htodo hglob => ?_⟩
  have hrelies := h.relies src rest htodo hglob
  cases hphase : c.phase with
  | write df =>
    rw [hphase] at hrelies
    exact hrelies
  | replace =>
    rw [hphase] at hrelies
    intro df hget
    rcases hc.tmp src.name df hglob hget with ⟨hold, htime⟩ | hnew
    · have hboth := hrelies df hold
      exact ⟨hboth.1, hboth.2.trans_eq htime.symm⟩
    · exact hnew
  | unlink =>
    rw [hphase] at hrelies
    exact hc.dest src.name hglob hrelies
  | _ => trivial

/-! ## An archiving operation -/

section Operation
variable {r : Dict Path (Frame R) × ArchiveCall R}

theorem TimedEffect.holds (h : TimedEffect files mtime c src nowS r mtime') (hholds : Holds orig time files mtime deleted)
    (hsrc : Archivable src) (hrelies : Globbed src.name → Needs orig time files mtime deleted src c.phase) :
    Holds orig time r.1 mtime' deleted := by
  cases h with
  | goes => exact hholds
  | passes => exact hholds
  | reads => exact hholds
  | writes df hphase =>
    have hsame : ∀ {dir name df'}, Stored (files.set src.tmpDest df) dir name df' ↔ Stored files dir name df' := by
      intro dir name df'
      refine and_congr_right fun hglob => ?_
      rw [Dict.get?_set, if_neg (ne_tmpDest hglob dir)]
    refine ⟨fun hs => hholds.faithful (hsame.mp hs), fun {dir name df'} hs => ?_, fun ho => ?_⟩
    · rw [Function.update_of_ne (ne_tmpDest hs.1 dir)]
      exact hholds.timed (hsame.mp hs)
    · exact (hholds.held ho).imp_left fun ⟨dir, hs⟩ => ⟨dir, hsame.mpr hs⟩
  | replaces df hphase hget =>
    rw [hphase] at hrelies
    have hstored : ∀ {dir name df'}, Stored ((files.erase src.tmpDest).set src.dest df) dir name df' ↔
        Globbed name ∧ if (⟨dir, name⟩ : Path) = src.dest then df = df' else files.get? ⟨dir, name⟩ = some df' := by
      intro dir name df'
      refine and_congr_right fun hglob => ?_
      rw [Dict.get?_set, Dict.get?_erase, if_neg (ne_tmpDest hglob dir)]
      split
      · exact Option.some_inj
      · rfl
    refine ⟨fun {dir name df'} hs => ?_, fun {dir name df'} hs => ?_, fun {name df'} ho => ?_⟩
    · obtain ⟨hglob, hat⟩ := hstored.mp hs
      split at hat
      · rename_i hdest
        obtain rfl : name = src.name := congrArg Path.name hdest
        rw [← hat]
        exact (hrelies hglob df hget).1
      · exact hholds.faithful ⟨hglob, hat⟩
    · obtain ⟨hglob, hat⟩ := hstored.mp hs
      split at hat
      · rename_i hdest
        obtain rfl : name = src.name := congrArg Path.name hdest
        rw [hdest, Function.update_self]
        exact (hrelies hglob df hget).2
      · rename_i hdest
        rw [Function.update_of_ne hdest]
        exact hholds.timed ⟨hglob, hat⟩
    · rcases hholds.held ho with ⟨dir, hs⟩ | hgone
      · refine Or.inl ⟨dir, hstored.mpr ⟨hs.1, ?_⟩⟩
        split
        · rename_i hdest
          obtain rfl : name = src.name := congrArg Path.name hdest
          exact Option.some.inj ((hrelies hs.1 df hget).1.symm.trans ho)
        · exact hs.2
      · exact Or.inr hgone
  | unlinks hphase =>
    rw [hphase] at hrelies
    have hbefore : ∀ {dir name df'}, Stored (files.erase src) dir name df' → Stored files dir name df' := by
      rintro dir name df' ⟨hglob, hs⟩
      rw [Dict.get?_erase] at hs
      split at hs
      · cases hs
      · exact ⟨hglob, hs⟩
    refine ⟨fun hs => hholds.faithful (hbefore hs), fun hs => hholds.timed (hbefore hs), fun {name df'} ho => ?_⟩
    rcases hholds.held ho with ⟨dir, hs⟩ | hgone
    · by_cases hat : (⟨dir, name⟩ : Path) = src
      · obtain rfl : name = src.name := congrArg Path.name hat
        rcases hrelies hs.1 with hdest | hgone
        · obtain ⟨df, hget⟩ := Option.ne_none_iff_exists'.mp hdest
          have hdf : df = df' := Option.some.inj ((hholds.faithful ⟨hs.1, hget⟩).symm.trans ho)
          refine Or.inl ⟨.archive, hs.1, ?_⟩
          rw [Dict.get?_erase, if_neg (hsrc.ne_archive hs.1)]
          exact hdf ▸ hget
        · exact Or.inr hgone
      · refine Or.inl ⟨dir, hs.1, ?_⟩
        rw [Dict.get?_erase, if_neg hat]
        exact hs.2
    · exact Or.inr hgone
  | moves df hget =>
    have hstored : ∀ {dir name df'}, Stored ((files.erase src).set src.dest df) dir name df' ↔
        Globbed name ∧ if (⟨dir, name⟩ : Path) = src.dest then df = df'
          else if (⟨dir, name⟩ : Path) = src then False else files.get? ⟨dir, name⟩ = some df' := by
      intro dir name df'
      refine and_congr_right fun hglob => ?_
      rw [Dict.get?_set, Dict.get?_erase]
      split
      · exact Option.some_inj
      · split
        · exact iff_of_false (Option.some_ne_none df').symm id
        · rfl
    -- what stands at `src` is what stood there
    have hfrom : Globbed src.name → Stored files src.dir src.name df := fun hglob => ⟨hglob, hget⟩
    refine ⟨fun {dir name df'} hs => ?_, fun {dir name df'} hs => ?_, fun {name df'} ho => ?_⟩
    · obtain ⟨hglob, hat⟩ := hstored.mp hs
      split at hat
      · rename_i hdest
        obtain rfl : name = src.name := congrArg Path.name hdest
        rw [← hat]
        exact hholds.faithful (hfrom hglob)
      · split at hat
        · exact hat.elim
        · exact hholds.faithful ⟨hglob, hat⟩
    · obtain ⟨hglob, hat⟩ := hstored.mp hs
      split at hat
      · rename_i hdest
        obtain rfl : name = src.name := congrArg Path.name hdest
        rw [hdest, Function.update_self]
        exact hholds.timed (hfrom hglob)
      · rename_i hdest
        split at hat
        · exact hat.elim
        · rw [Function.update_of_ne hdest]
          exact hholds.timed ⟨hglob, hat⟩
    · rcases hholds.held ho with ⟨dir, hs⟩ | hgone
      · by_cases hname : name = src.name
        · subst hname
          have hdf : df = df' := Option.some.inj ((hholds.faithful (hfrom hs.1)).symm.trans ho)
          refine Or.inl ⟨.archive, hstored.mpr ⟨hs.1, ?_⟩⟩
          rw [if_pos (show (⟨.archive, src.name⟩ : Path) = src.dest from rfl)]
          exact hdf
        · have hdest : (⟨dir, name⟩ : Path) ≠ src.dest := fun heq => hname (congrArg Path.name heq)
          have hat : (⟨dir, name⟩ : Path) ≠ src := fun heq => hname (congrArg Path.name heq)
          refine Or.inl ⟨dir, hstored.mpr ⟨hs.1, ?_⟩⟩
          rw [if_neg hdest, if_neg hat]
          exact hs.2
      · exact Or.inr hgone

theorem TimedEffect.considerate (h : TimedEffect files mtime c src nowS r mtime') (hsrc : Archivable src)
    (hclock : ∀ name df, orig name = some df → time name ≤ nowS)
    (hrelies : Globbed src.name → Needs orig time files mtime deleted src c.phase) :
    Considerate orig time files r.1 mtime mtime' deleted deleted := by
  cases h with
  | goes => exact Considerate.refl files mtime deleted
  | passes => exact Considerate.refl files mtime deleted
  | reads => exact Considerate.refl files mtime deleted
  | writes df hphase =>
    constructor
    · intro name hglob hget
      rw [Dict.get?_set, if_neg (ne_tmpDest hglob _)]
      exact hget
    · intro name df' hglob hget
      rw [Dict.get?_set] at hget
      split at hget
      · rename_i heq
        obtain rfl : name = src.name := append_tmp_inj (congrArg Path.name heq)
        have horig := hrelies hglob
        rw [hphase] at horig
        rw [heq, Function.update_self, ← Option.some.inj hget]
        exact Or.inr ⟨horig, hclock _ _ horig⟩
      · rename_i hne
        exact Or.inl ⟨hget, Function.update_of_ne hne ..⟩
  | replaces df hphase hfile =>
    constructor
    · intro name hglob hget
      refine hget.imp_left fun hget => ?_
      rw [Dict.get?_set, Dict.get?_erase, if_neg (ne_tmpDest hglob _)]
      split
      · exact Option.some_ne_none df
      · exact hget
    · intro name df' hglob hget
      rw [Dict.get?_set, Dict.get?_erase, if_neg (hsrc.dest_ne_tmp hglob)] at hget
      split at hget
      · cases hget
      · exact Or.inl ⟨hget, Function.update_of_ne (hsrc.dest_ne_tmp hglob) ..⟩
  | unlinks hphase =>
    constructor
    · intro name hglob hget
      refine hget.imp_left fun hget => ?_
      rw [Dict.get?_erase, if_neg (hsrc.ne_archive hglob)]
      exact hget
    · intro name df' hglob hget
      rw [Dict.get?_erase, if_neg (hsrc.ne_tmp hglob)] at hget
      exact Or.inl ⟨hget, rfl⟩
  | moves df hfile =>
    constructor
    · intro name hglob hget
      refine hget.imp_left fun hget => ?_
      rw [Dict.get?_set, Dict.get?_erase, if_neg (hsrc.ne_archive hglob)]
      split
      · exact Option.some_ne_none df
      · exact hget
    · intro name df' hglob hget
      rw [Dict.get?_set, Dict.get?_erase, if_neg (hsrc.dest_ne_tmp hglob), if_neg (hsrc.ne_tmp hglob)] at hget
      exact Or.inl ⟨hget, Function.update_of_ne (hsrc.dest_ne_tmp hglob) ..⟩

theorem Relying.next (h : Relying orig time files mtime deleted c) : Relying orig time files' mtime' deleted c.next :=
  ⟨fun p hp => h.archivable p (List.mem_of_mem_tail hp), fun _ _ _ _ => trivial⟩

theorem TimedEffect.relying {rest : List Path} (h : TimedEffect files mtime c src nowS r mtime')
    (hholds : Holds orig time files mtime deleted) (hclock : ∀ name df, orig name = some df → time name ≤ nowS)
    (hrelying : Relying orig time files mtime deleted c) (htodo : c.todo = src :: rest) :
    Relying orig time r.1 mtime' deleted r.2 := by
  have hat : ∀ {p : Path} {ps : List Path}, c.todo = p :: ps → p = src := fun hp =>
    (List.cons.inj (hp.symm.trans htodo)).1
  cases h with
  | goes phase hphase => exact ⟨hrelying.archivable, fun _ _ _ _ => needs_of_plain hphase⟩
  | passes => exact hrelying.next
  | reads df hget =>
    refine ⟨hrelying.archivable, fun p ps hp hglob => ?_⟩
    rw [hat hp] at hglob ⊢
    exact hholds.faithful ⟨hglob, hget⟩
  | writes df hphase =>
    refine ⟨hrelying.archivable, fun p ps hp hglob df' hget => ?_⟩
    rw [hat hp] at hglob hget ⊢
    have horig := hrelying.relies src rest htodo hglob
    rw [hphase] at horig
    rw [Dict.get?_set, if_pos rfl] at hget
    rw [Function.update_self, ← Option.some.inj hget]
    exact ⟨horig, hclock _ _ horig⟩
  | replaces df hphase hget =>
    refine ⟨hrelying.archivable, fun p ps hp hglob => Or.inl ?_⟩
    rw [hat hp]
    show Dict.get? _ src.dest ≠ none
    rw [Dict.get?_set, if_pos rfl]
    exact Option.some_ne_none df
  | unlinks => exact hrelying.next
  | moves => exact hrelying.next

end Operation

/-! ## A deletion -/

theorem Holds.delete (h : Holds orig time files mtime deleted) (d : Deletion) :
    Holds orig time (files.erase d.path) mtime (deleted ++ [d]) := by
  have hbefore : ∀ {dir name df}, Stored (files.erase d.path) dir name df → Stored files dir name df := by
    rintro dir name df ⟨hglob, hs⟩
    rw [Dict.get?_erase] at hs
    split at hs
    · cases hs
    · exact ⟨hglob, hs⟩
  refine ⟨fun hs => h.faithful (hbefore hs), fun hs => h.timed (hbefore hs), fun {name df} ho => ?_⟩
  rcases h.held ho with ⟨dir, hs⟩ | hgone
  · by_cases hat : (⟨dir, name⟩ : Path) = d.path
    · exact Or.inr ⟨d, List.mem_append_right _ (List.mem_singleton_self d), congrArg Path.name hat.symm⟩
    · refine Or.inl ⟨dir, hs.1, ?_⟩
      rw [Dict.get?_erase, if_neg hat]
      exact hs.2
  · exact Or.inr (hgone.append [d])

theorem considerate_delete (files : Dict Path (Frame R)) (mtime : Path → ℚ) (deleted : List Deletion) (d : Deletion) :
    Considerate orig time files (files.erase d.path) mtime mtime deleted (deleted ++ [d]) := by
  constructor
  · rintro name - (hget | hgone)
    · by_cases hat : (⟨.archive, name⟩ : Path) = d.path
      · exact Or.inr ⟨d, List.mem_append_right _ (List.mem_singleton_self d), congrArg Path.name hat.symm⟩
      · rw [Dict.get?_erase, if_neg hat]
        exact Or.inl hget
    · exact Or.inr (hgone.append [d])
  · intro name df _ hget
    rw [Dict.get?_erase] at hget
    split at hget
    · cases hget
    · exact Or.inl ⟨hget, rfl⟩

end Keep

/-! ## The deleting calls -/

section Calls
variable {orig : String → Option (Frame R)} {time : String → ℚ}

/-- The files that a limit is for. -/
def Limit.For (p : Path) : Limit → Prop
  | .before _ => Globbed p.name ∧ p.dir = .archive
  | .older _ limitMs => ∃ suffix, HasSuffix suffix p.name ∧ OrphanLimit suffix limitMs

/-- The loop visits the files that its limit is for. -/
def Sweep.Visits (sweep : Sweep) : Prop := ∀ p : Path, p.dir = sweep.dir → HasSuffix sweep.suffix p.name → sweep.limit.For p

theorem visits_trimOld (archiveDays : ℤ) (nowS : ℚ) : ∀ sweep ∈ trimOld archiveDays nowS, sweep.Visits := by
  intro sweep hsweep p hdir hsuffix
  rw [List.mem_singleton.mp hsweep] at hdir hsuffix ⊢
  exact ⟨hsuffix, hdir⟩

theorem visits_orphans (nowS : ℚ) (dir : Dir) : ∀ sweep ∈ orphans nowS dir, sweep.Visits := by
  intro sweep hsweep p hdir hsuffix
  rcases List.mem_cons.mp hsweep with rfl | hsweep
  · exact ⟨_, hsuffix, Or.inl ⟨rfl, rfl⟩⟩
  · rw [List.mem_singleton.mp hsweep] at hsuffix ⊢
    exact ⟨_, hsuffix, Or.inr ⟨rfl, rfl⟩⟩

/-- It visits the files that its loops are for, and the one that it is to delete was too old when it was looked at. -/
structure SweepCall.Ready (time : String → ℚ) (c : SweepCall) : Prop where
  visits : ∀ p ∈ c.todo, c.limit.For p
  seen : ∀ p rest seen, c.todo = p :: rest → c.seen = some seen →
    c.limit.expired seen = true ∧ (Globbed p.name → time p.name ≤ seen)
  loops : ∀ sweep ∈ c.sweeps, sweep.Visits

theorem SweepCall.Ready.next {c : SweepCall} (h : c.Ready time) : c.next.Ready time :=
  ⟨fun p hp => h.visits p (List.mem_of_mem_tail hp), nofun, h.loops⟩

theorem Deletion.proper_expired {p : Path} {limit : Limit} {seen : ℚ} (hfor : limit.For p)
    (hexpired : limit.expired seen = true) (htime : Globbed p.name → time p.name ≤ seen) :
    (⟨p, .expired limit seen⟩ : Deletion).Proper time := by
  cases limit with
  | before cutoffS => exact ⟨hfor.1, hfor.2, htime hfor.1, of_decide_eq_true hexpired⟩
  | older nowMs limitMs => exact ⟨hfor, of_decide_eq_true hexpired⟩

theorem proper_of_none : ∀ d, (none : Option Deletion) = some d → d.Proper time :=
  fun d hd => absurd hd.symm (Option.some_ne_none d)

theorem sweepStep_ready (hholds : Holds orig time files mtime deleted) {c : SweepCall} (h : c.Ready time) (fails : Bool) :
    (sweepStep files mtime c fails).2.Ready time ∧
      ∀ d, (sweepStep files mtime c fails).1 = some d → d.Proper time := by
  unfold sweepStep
  cases htodo : c.todo with
  | cons p rest =>
    have hfor := h.visits p (htodo ▸ List.mem_cons_self)
    cases hseen : c.seen with
    | none =>
      dsimp only
      cases hget : available files fails p with
      | none => exact ⟨h.next, proper_of_none⟩
      | some df =>
        refine ⟨?_, proper_of_none⟩
        show (if c.limit.expired (mtime p) then c.looked (mtime p) else c.next).Ready time
        split
        · rename_i hexpired
          refine ⟨h.visits, fun q ps seen hq hs => ?_, h.loops⟩
          obtain rfl : q = p := (List.cons.inj (hq.symm.trans htodo)).1
          obtain rfl := Option.some.inj hs
          exact ⟨hexpired, fun hglob => hholds.timed ⟨hglob, available_eq_some hget⟩⟩
        · exact h.next
    | some seen =>
      obtain ⟨hexpired, htime⟩ := h.seen p rest seen htodo hseen
      dsimp only
      cases hget : available files fails p with
      | none => exact ⟨h.next, proper_of_none⟩
      | some df =>
        refine ⟨h.next, fun d hd => ?_⟩
        obtain rfl := Option.some.inj hd
        exact Deletion.proper_expired hfor hexpired htime
  | nil =>
    cases hsweeps : c.sweeps with
    | nil => exact ⟨h, proper_of_none⟩
    | cons sweep sweeps =>
      refine ⟨⟨fun p hp => ?_, nofun, fun sw hsw => ?_⟩, proper_of_none⟩
      · obtain ⟨-, hmatch⟩ := List.mem_filter.mp hp
        have hboth := of_decide_eq_true hmatch
        exact h.loops sweep (hsweeps ▸ List.mem_cons_self) p hboth.1 hboth.2
      · exact h.loops sw (hsweeps ▸ List.mem_cons_of_mem _ hsw)

/-- It has read that the disk is full; its files are sorted, and none looks older than it was. -/
structure EnforceCall.Ready (time : String → ℚ) (c : EnforceCall) : Prop where
  full : c.phase ≠ .measure → diskFullPct ≤ c.pct
  paths : ∀ p ∈ c.paths, Globbed p.name
  todo : ∀ x ∈ c.todo, Globbed x.1.name ∧ time x.1.name ≤ x.2
  sorted : c.todo.Pairwise fun x y => x.2 ≤ y.2

theorem EnforceCall.Ready.next {c : EnforceCall} (h : c.Ready time) (hfull : diskFullPct ≤ c.pct) : c.next.Ready time :=
  ⟨fun _ => hfull, h.paths, fun x hx => h.todo x (List.mem_of_mem_tail hx), h.sorted.tail⟩

theorem EnforceCall.Ready.finish {c : EnforceCall} (h : c.Ready time) : c.finish.Ready time :=
  ⟨h.full, h.paths, nofun, List.Pairwise.nil⟩

/-- The files are sorted by their times, each of which was read where the file was. -/
theorem EnforceCall.Ready.sort (hholds : Holds orig time files mtime deleted) {c : EnforceCall} (h : c.Ready time)
    (hfull : diskFullPct ≤ c.pct) (hthere : ∀ p ∈ c.paths, files.get? p ≠ none) :
    ({ c with
      todo := (c.paths.map fun p => (p, mtime p)).mergeSort fun x y => x.2 ≤ y.2
      phase := .unlink } : EnforceCall).Ready time := by
  refine ⟨fun _ => hfull, h.paths, fun x hx => ?_, ?_⟩
  · obtain ⟨p, hp, rfl⟩ := List.mem_map.mp (List.mem_mergeSort.mp hx)
    obtain ⟨df, hget⟩ := Option.ne_none_iff_exists'.mp (hthere p hp)
    exact ⟨h.paths p hp, hholds.timed ⟨h.paths p hp, hget⟩⟩
  · refine (List.pairwise_mergeSort ?_ ?_ _).imp of_decide_eq_true
    · exact fun x y z hxy hyz => decide_eq_true ((of_decide_eq_true hxy).trans (of_decide_eq_true hyz))
    · intro x y
      rw [Bool.or_eq_true, decide_eq_true_eq, decide_eq_true_eq]
      exact le_total _ _

theorem enforceStep_ready (hholds : Holds orig time files mtime deleted) {c : EnforceCall} (h : c.Ready time)
    (fails : Bool) (usage : Option (ℕ × ℕ)) :
    (enforceStep files mtime c fails usage).2.Ready time ∧
      ∀ d, (enforceStep files mtime c fails usage).1 = some d → d.Proper time := by
  unfold enforceStep
  split
  · exact ⟨h, proper_of_none⟩
  cases hphase : c.phase with
  | measure =>
    dsimp only
    split
    · split
      · exact ⟨h.finish, proper_of_none⟩
      · rename_i used total hfull
        exact ⟨⟨fun _ => Nat.le_of_not_lt hfull, h.paths, h.todo, h.sorted⟩, proper_of_none⟩
    · exact ⟨h.finish, proper_of_none⟩
  | collect dir =>
    have hfull := h.full (by rw [hphase]; simp)
    refine ⟨⟨fun _ => hfull, fun p hp => ?_, h.todo, h.sorted⟩, proper_of_none⟩
    rcases List.mem_append.mp hp with hold | hnew
    · exact h.paths p hold
    · cases fails with
      | true => exact absurd hnew List.not_mem_nil
      | false => exact (of_decide_eq_true (List.mem_filter.mp hnew).2).2
  | sort =>
    have hfull := h.full (by rw [hphase]; simp)
    dsimp only
    split
    · exact ⟨h.finish, proper_of_none⟩
    · rename_i hnone
      rw [Bool.or_eq_true, not_or] at hnone
      refine ⟨h.sort hholds hfull fun p hp hget => hnone.2 ?_, proper_of_none⟩
      exact List.any_eq_true.mpr ⟨p, hp, by rw [hget]; rfl⟩
  | unlink =>
    have hfull := h.full (by rw [hphase]; simp)
    dsimp only
    cases htodo : c.todo with
    | nil => exact ⟨h, proper_of_none⟩
    | cons x later =>
      obtain ⟨p, seen⟩ := x
      have hx := h.todo (p, seen) (htodo ▸ List.mem_cons_self)
      dsimp only
      cases hget : available files fails p with
      | none => exact ⟨h.next hfull, proper_of_none⟩
      | some df =>
        refine ⟨⟨fun _ => hfull, h.paths, htodo ▸ h.todo, htodo ▸ h.sorted⟩, fun d hd => ?_⟩
        obtain rfl := Option.some.inj hd
        refine ⟨hx.1, hfull, hx.2, fun t ht => ?_⟩
        obtain ⟨y, hy, rfl⟩ := List.mem_map.mp ht
        exact (List.pairwise_cons.mp (htodo ▸ h.sorted)).1 y hy
  | usage =>
    have hfull := h.full (by rw [hphase]; simp)
    dsimp only
    split
    · split
      · exact ⟨h.finish, proper_of_none⟩
      · rename_i used total hpct
        have hnext := h.next hfull
        exact ⟨⟨fun _ => Nat.le_of_not_lt hpct, hnext.paths, hnext.todo, hnext.sorted⟩, proper_of_none⟩
    · exact ⟨h.next hfull, proper_of_none⟩

end Calls

/-! ## A step -/

section Step
variable {orig : String → Option (Frame R)} {time : String → ℚ} {s : House R}

structure Housed (orig : String → Option (Frame R)) (time : String → ℚ) (s : House R) : Prop where
  holds : Holds orig time s.archives.files s.mtime s.deleted
  relying : ∀ c ∈ s.archives.calls, Relying orig time s.archives.files s.mtime s.deleted c
  sweeps : ∀ c ∈ s.sweeps, c.Ready time
  enforces : ∀ c ∈ s.enforces, c.Ready time
  proper : ∀ d ∈ s.deleted, d.Proper time

/-- `archive_file` is given an archivable file. -/
def HouseAct.Given : HouseAct → Prop
  | .archive a _ => a.Given
  | _ => True

/-- The clock is not before the times that the files had. -/
def HouseAct.Timely (orig : String → Option (Frame R)) (time : String → ℚ) : HouseAct → Prop
  | .archive _ nowS => ∀ name df, orig name = some df → time name ≤ nowS
  | _ => True

theorem Housed.begin (h : Housed orig time s) {todo : List Path} (htodo : ∀ p ∈ todo, Archivable p)
    (phase : ArchivePhase R) (hphase : phase.Plain) (locked : Bool) :
    Housed orig time { s with archives := { s.archives with
      calls := s.archives.calls ++ [{ todo := todo, phase := phase, locked := locked }] } } := by
  refine ⟨h.holds, fun c hc => ?_, h.sweeps, h.enforces, h.proper⟩
  rcases List.mem_append.mp hc with hc | hc
  · exact h.relying c hc
  · rw [List.mem_singleton.mp hc]
    exact ⟨htodo, fun _ _ _ _ => needs_of_plain hphase⟩

theorem Housed.archive (pandas : Bool) (h : Housed orig time s) {a : ArchiveAct} (ha : a.Given)
    (hclock : ∀ name df, orig name = some df → time name ≤ nowS) :
    Housed orig time { s with archives := archiveStep pandas s.archives a, mtime := archiveTimes s nowS a } := by
  cases a with
  | archiveTask => exact h.begin (fun p hp => archivable_of_mem_glob hp) .stat trivial false
  | runDaily =>
    show Housed orig time { s with archives := runDaily s.archives }
    unfold runDaily
    split
    · exact h
    · exact h.begin (fun p hp => archivable_of_mem_glob hp) .stat trivial true
  | archiveFile filePath =>
    show Housed orig time { s with archives := archiveFile s.archives filePath }
    unfold archiveFile
    split
    · exact h
    · refine h.begin (fun p hp => ?_) .check trivial true
      rw [List.mem_singleton.mp hp]
      exact ha
  | step i fails old =>
    simp only [archiveStep, archiveTimes]
    cases hc : s.archives.calls[i]? with
    | none => exact h
    | some c =>
      have hrelying := h.relying c (List.mem_of_getElem? hc)
      dsimp only
      unfold callStep
      cases htodo : c.todo with
      | nil =>
        refine ⟨h.holds, fun x hx => ?_, h.sweeps, h.enforces, h.proper⟩
        rcases List.mem_or_eq_of_mem_set hx with hx | rfl
        · exact h.relying x hx
        · exact hrelying
      | cons src rest =>
        have hsrc := hrelying.archivable src (htodo ▸ List.mem_cons_self)
        have heffect := fileStep_timed pandas s.archives.files s.mtime c src fails old nowS
        have hrelies := hrelying.relies src rest htodo
        refine ⟨heffect.holds h.holds hsrc hrelies, fun x hx => ?_, h.sweeps, h.enforces, h.proper⟩
        rcases List.mem_or_eq_of_mem_set hx with hx | rfl
        · exact (h.relying x hx).of_considerate (heffect.considerate hsrc hclock hrelies)
        · exact heffect.relying h.holds hclock hrelying htodo
  | cancel i =>
    simp only [archiveStep, archiveTimes]
    cases hc : s.archives.calls[i]? with
    | none => exact h
    | some c =>
      have hrelying := h.relying c (List.mem_of_getElem? hc)
      refine ⟨h.holds, fun x hx => ?_, h.sweeps, h.enforces, h.proper⟩
      rcases List.mem_or_eq_of_mem_set hx with hx | rfl
      · exact h.relying x hx
      · exact ⟨hrelying.archivable, hrelying.relies⟩
  | die => exact ⟨h.holds, fun _ hc => absurd hc List.not_mem_nil, h.sweeps, h.enforces, h.proper⟩

theorem Housed.sweep (h : Housed orig time s) {sweeps : List Sweep} (hvisits : ∀ sweep ∈ sweeps, sweep.Visits)
    (locks : Bool) : Housed orig time (s.sweep sweeps locks) := by
  unfold House.sweep
  split
  · exact h
  · refine ⟨h.holds, h.relying, fun c hc => ?_, h.enforces, h.proper⟩
    rcases List.mem_append.mp hc with hc | hc
    · exact h.sweeps c hc
    · rw [List.mem_singleton.mp hc]
      exact ⟨nofun, nofun, hvisits⟩

theorem Housed.delete (h : Housed orig time s) {deletion : Option Deletion}
    (hproper : ∀ d, deletion = some d → d.Proper time) : Housed orig time (s.delete deletion) := by
  cases deletion with
  | none => exact h
  | some d =>
    refine ⟨h.holds.delete d, fun c hc => ?_, h.sweeps, h.enforces, fun d' hd' => ?_⟩
    · exact (h.relying c hc).of_considerate (considerate_delete s.archives.files s.mtime s.deleted d)
    · rcases List.mem_append.mp hd' with hd' | hd'
      · exact h.proper d' hd'
      · rw [List.mem_singleton.mp hd']
        exact hproper d rfl

theorem Housed.setSweep (h : Housed orig time s) {c : SweepCall} (hc : c.Ready time) (i : ℕ) :
    Housed orig time { s with sweeps := s.sweeps.set i c } := by
  refine ⟨h.holds, h.relying, fun x hx => ?_, h.enforces, h.proper⟩
  rcases List.mem_or_eq_of_mem_set hx with hx | rfl
  · exact h.sweeps x hx
  · exact hc

theorem Housed.setEnforce (h : Housed orig time s) {c : EnforceCall} (hc : c.Ready time) (i : ℕ) :
    Housed orig time { s with enforces := s.enforces.set i c } := by
  refine ⟨h.holds, h.relying, h.sweeps, fun x hx => ?_, h.proper⟩
  rcases List.mem_or_eq_of_mem_set hx with hx | rfl
  · exact h.enforces x hx
  · exact hc

theorem housed_step (pandas : Bool) (h : Housed orig time s) {a : HouseAct} (ha : a.Given)
    (htimely : a.Timely orig time) : Housed orig time (houseStep pandas s a) := by
  cases a with
  | archive a nowS =>
    have hdone := h.archive pandas ha htimely
    cases a with
    | die => exact ⟨h.holds, nofun, nofun, nofun, h.proper⟩
    | archiveTask => exact hdone
    | runDaily =>
      simp only [houseStep]
      split
      · exact h
      · exact hdone
    | archiveFile filePath =>
      simp only [houseStep]
      split
      · exact h
      · exact hdone
    | step i fails old => exact hdone
    | cancel i => exact hdone
  | trimOld archiveDays nowS => exact h.sweep (visits_trimOld archiveDays nowS) true
  | recoverOrphans nowS =>
    refine h.sweep (fun sweep hsweep => ?_) true
    rcases List.mem_append.mp hsweep with hlive | harchive
    · exact visits_orphans nowS _ sweep hlive
    · exact visits_orphans nowS _ sweep harchive
  | rotate nowS => exact h.sweep (visits_orphans nowS _) false
  | enforceDiskLimit locks =>
    simp only [houseStep]
    split
    · exact h
    · refine ⟨h.holds, h.relying, h.sweeps, fun c hc => ?_, h.proper⟩
      rcases List.mem_append.mp hc with hc | hc
      · exact h.enforces c hc
      · rw [List.mem_singleton.mp hc]
        exact ⟨fun hne => absurd rfl hne, nofun, nofun, List.Pairwise.nil⟩
  | sweepStep i fails =>
    simp only [houseStep]
    cases hc : s.sweeps[i]? with
    | none => exact h
    | some c =>
      obtain ⟨hready, hproper⟩ := sweepStep_ready h.holds (h.sweeps c (List.mem_of_getElem? hc)) fails
      exact (h.setSweep hready i).delete hproper
  | enforceStep i fails usage =>
    simp only [houseStep]
    cases hc : s.enforces[i]? with
    | none => exact h
    | some c =>
      obtain ⟨hready, hproper⟩ := enforceStep_ready h.holds (h.enforces c (List.mem_of_getElem? hc)) fails usage
      exact (h.setEnforce hready i).delete hproper
  | cancelSweep i =>
    simp only [houseStep]
    cases hc : s.sweeps[i]? with
    | none => exact h
    | some c =>
      have hready := h.sweeps c (List.mem_of_getElem? hc)
      have hfree : ({ c with locked := false } : SweepCall).Ready time := ⟨hready.visits, hready.seen, hready.loops⟩
      exact h.setSweep hfree i
  | cancelEnforce i =>
    simp only [houseStep]
    cases hc : s.enforces[i]? with
    | none => exact h
    | some c =>
      have hready := h.enforces c (List.mem_of_getElem? hc)
      have hfree : ({ c with locked := false } : EnforceCall).Ready time :=
        ⟨hready.full, hready.paths, hready.todo, hready.sorted⟩
      exact h.setEnforce hfree i

end Step

/-! ## Every run -/

section Start
variable {start : Dict Path (Frame R)} {mtime : Path → ℚ}

/-- The time that a stored file has at the start. -/
def startTime (start : Dict Path (Frame R)) (mtime : Path → ℚ) (name : String) : ℚ :=
  if (start.get? ⟨.live, name⟩).isSome then mtime ⟨.live, name⟩ else mtime ⟨.archive, name⟩

theorem startTime_of_stored (hdistinct : Distinct start) {dir : Dir} {df : Frame R} (h : Stored start dir name df) :
    startTime start mtime name = mtime ⟨dir, name⟩ := by
  unfold startTime
  cases dir with
  | live => rw [h.2, Option.isSome_some, if_pos rfl]
  | archive =>
    have hlive : start.get? ⟨.live, name⟩ = none := by
      by_contra hne
      exact hdistinct name ⟨hne, by rw [h.2]; exact Option.some_ne_none df⟩
    rw [hlive, Option.isSome_none, if_neg Bool.false_ne_true]

theorem housed_start (hdistinct : Distinct start) :
    Housed (original start) (startTime start mtime) { archives := { files := start }, mtime := mtime } where
  holds :=
    ⟨fun hs => original_of_stored hdistinct hs, fun hs => (startTime_of_stored hdistinct hs).le,
      fun ho => Or.inl (stored_of_original ho)⟩
  relying := nofun
  sweeps := nofun
  enforces := nofun
  proper := nofun

/-- Files have a copy or one was deleted, what is stored was stored, and what was deleted was deleted by policy. -/
structure ByPolicy (start : Dict Path (Frame R)) (mtime : Path → ℚ) (s : House R) : Prop where
  kept : ∀ dir name df, Stored start dir name df →
    (∃ dir', Stored s.archives.files dir' name df) ∨ Gone s.deleted name
  same : ∀ dir name df, Stored s.archives.files dir name df → ∃ dir', Stored start dir' name df
  proper : ∀ d ∈ s.deleted, d.Proper (startTime start mtime)

/-- **Nothing is deleted but by policy.** At every point of every run in which the clock is not before the times of the
files, and `archive_file` is given archivable files. -/
theorem housekeeping_keeps (pandas : Bool) (start : Dict Path (Frame R)) (mtime : Path → ℚ) (hdistinct : Distinct start)
    (as : List HouseAct) (hgiven : ∀ a ∈ as, a.Given)
    (hclock : ∀ a nowS, .archive a nowS ∈ as → ∀ dir name df, Stored start dir name df → mtime ⟨dir, name⟩ ≤ nowS) :
    Runs.Always (ByPolicy start mtime) (houseStep pandas) { archives := { files := start }, mtime := mtime } as := by
  have htimely : ∀ a ∈ as, a.Timely (original start) (startTime start mtime) := by
    intro a ha
    cases a with
    | archive a nowS =>
      intro name df ho
      obtain ⟨dir, hs⟩ := stored_of_original ho
      exact (startTime_of_stored hdistinct hs).trans_le (hclock a nowS ha dir name df hs)
    | _ => trivial
  have hguarded : Runs.Guarded (fun _ a => a.Given ∧ a.Timely (original start) (startTime start mtime))
      (houseStep pandas) { archives := { files := start }, mtime := mtime } as :=
    Runs.guarded_of_forall fun a ha _ => ⟨hgiven a ha, htimely a ha⟩
  have halways := Runs.always_of_guarded (housed_start hdistinct)
    (fun s a hs ha => housed_step pandas hs ha.1 ha.2) hguarded
  refine halways.mono fun s hs => ⟨fun dir name df hstored => ?_, fun dir name df hstored => ?_, hs.proper⟩
  · exact hs.holds.held (original_of_stored hdistinct hstored)
  · exact stored_of_original (hs.holds.faithful hstored)

/-- A file that is archived after ten days and trimmed after two years: its copy has the time at which it was written. -/
theorem housekeeping_keeps_twoYears :
    Runs.Always (ByPolicy (oneFile .live) fun _ => 0) (houseStep true)
      { archives := { files := oneFile .live }, mtime := fun _ => 0 }
      [.archive .runDaily 864000, .archive (.step 0 false true) 864000, .archive (.step 0 false true) 864000,
        .archive (.step 0 false true) 864000, .archive (.step 0 false true) 864000,
        .archive (.step 0 false true) 864000, .trimOld 365 63072000, .sweepStep 0 false, .sweepStep 0 false,
        .sweepStep 0 false] := by
  refine housekeeping_keeps true (oneFile .live) (fun _ => 0) (distinct_oneFile .live) _ ?_ ?_
  · simp [HouseAct.Given, ArchiveAct.Given]
  · intro a nowS ha dir name df hstored
    simp only [List.mem_cons, HouseAct.archive.injEq, reduceCtorEq, List.not_mem_nil, or_false] at ha
    rcases ha with ⟨-, rfl⟩ | ⟨-, rfl⟩ | ⟨-, rfl⟩ | ⟨-, rfl⟩ | ⟨-, rfl⟩ | ⟨-, rfl⟩ <;> norm_num

end Start

end MikoV2.Storage
