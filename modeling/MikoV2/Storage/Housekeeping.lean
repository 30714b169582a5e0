import Mathlib.Algebra.Order.Ring.Rat
import Mathlib.Logic.Function.Basic
import MikoV2.Storage.Archived

/-!
# Housekeeping of the archive

`trim_old`, `recover_orphans` and `enforce_disk_limit` of `Archiver`, `rotate` and `enforce_disk_limit` of
`OrderBookStore`: the calls that delete files, beside those that archive them. A file has the time of its last write
here; a rename keeps it.

* `Sweep`, `sweepStep` : a loop over the files with a suffix that deletes what is too old;
* `enforceStep` : deleting the oldest files until the disk is no longer full;
* `House`, `houseStep` : all calls on the two directories, and the deletions so far;
* `TimedEffect`, `fileStep_timed` : what an archiving operation does to the files and to their times.
-/

namespace MikoV2.Storage
open Py

variable {R : Type}

/-- `"*" + suffix` matches. -/
def HasSuffix (suffix name : String) : Prop := suffix.toList <:+ name.toList

instance (suffix : String) : DecidablePred (HasSuffix suffix) := fun name =>
  inferInstanceAs (Decidable (suffix.toList <:+ name.toList))

/-- `d.glob("*" + suffix)` -/
def globSuffix (files : Dict Path (Frame R)) (suffix : String) (dir : Dir) : List Path :=
  files.keys.filter fun p => p.dir = dir ∧ HasSuffix suffix p.name

/-! ## Deleting what is too old -/

def orphanClosedMs : ℤ := 300000

def orphanDeletedMs : ℤ := 3600000

/-- `int(x)` -/
def toInt (x : ℚ) : ℤ := x.num.tdiv x.den

/-- When a file is too old. -/
inductive Limit
  /-- `st_mtime < cutoff_s` -/
  | before (cutoffS : ℚ)
  /-- `now_ms - int(st_mtime * 1000) > limit_ms` -/
  | older (nowMs limitMs : ℤ)
deriving DecidableEq

def Limit.expired : Limit → ℚ → Bool
  | .before cutoffS, mtime => mtime < cutoffS
  | .older nowMs limitMs, mtime => limitMs < nowMs - toInt (mtime * 1000)

/-- `for p in dir.glob("*" + suffix)`: what is too old is deleted. -/
structure Sweep where
  dir : Dir
  suffix : String
  limit : Limit
deriving DecidableEq

/-- The loop of `trim_old`. -/
def trimOld (archiveDays : ℤ) (nowS : ℚ) : List Sweep :=
  [{ dir := .archive, suffix := ".parquet", limit := .before (nowS - archiveDays * 86400) }]

/-- The two loops over a directory. -/
def orphans (nowS : ℚ) (dir : Dir) : List Sweep :=
  [{ dir := dir, suffix := ".parquet._closed", limit := .older (toInt (nowS * 1000)) orphanClosedMs },
    { dir := dir, suffix := ".parquet.deleted", limit := .older (toInt (nowS * 1000)) orphanDeletedMs }]

/-- The loops of `recover_orphans`. -/
def recoverOrphans (nowS : ℚ) : List Sweep := orphans nowS .live ++ orphans nowS .archive

/-- The loops of `rotate`. -/
def rotate (nowS : ℚ) : List Sweep := orphans nowS .live

/-- A call in progress: the files that its loop has still to visit, and the loops that follow. -/
structure SweepCall where
  limit : Limit
  todo : List Path := []
  /-- `p.unlink()` comes next, after `p.stat()` gave this time. -/
  seen : Option ℚ := none
  sweeps : List Sweep
  locked : Bool
deriving DecidableEq

def SweepCall.next (c : SweepCall) : SweepCall := { c with todo := c.todo.tail, seen := none }

def SweepCall.looked (c : SweepCall) (seen : ℚ) : SweepCall := { c with seen := some seen }

/-- It begins a loop. -/
def SweepCall.enter (c : SweepCall) (sweep : Sweep) (todo : List Path) (sweeps : List Sweep) : SweepCall :=
  { c with limit := sweep.limit, todo := todo, seen := none, sweeps := sweeps }

def SweepCall.returned (c : SweepCall) : Bool := c.todo.isEmpty && c.sweeps.isEmpty

/-- Why a file was deleted. -/
inductive Why
  /-- It had this time when it was looked at. -/
  | expired (limit : Limit) (seen : ℚ)
  /-- The last reading of the disk; its time, and those of the files that come after it. -/
  | full (pct : ℕ) (seen : ℚ) (later : List ℚ)

structure Deletion where
  path : Path
  why : Why

/-- The next operation of a call; with the deletion, where it deletes. -/
def sweepStep (files : Dict Path (Frame R)) (mtime : Path → ℚ) (c : SweepCall) (fails : Bool) :
    Option Deletion × SweepCall :=
  match c.todo with
  | p :: _ =>
    match c.seen with
    | none =>
      match available files fails p with
      | some _ => (none, if c.limit.expired (mtime p) then c.looked (mtime p) else c.next)
      | none => (none, c.next)
    | some seen =>
      match available files fails p with
      | some _ => (some ⟨p, .expired c.limit seen⟩, c.next)
      | none => (none, c.next)
  | [] =>
    match c.sweeps with
    | sweep :: sweeps => (none, c.enter sweep (globSuffix files sweep.suffix sweep.dir) sweeps)
    | [] => (none, c)

/-! ## Deleting until the disk is no longer full -/

def diskFullPct : ℕ := 90

/-- `int(usage.used * 100 / usage.total) if usage.total else 0` -/
def usagePct (used total : ℕ) : ℕ := used * 100 / total

inductive EnforcePhase
  /-- `shutil.disk_usage` of the archive directory, or else of the live one -/
  | measure
  | collect (dir : Dir)
  | sort
  | unlink
  /-- `shutil.disk_usage(str(p.parent))` -/
  | usage
deriving DecidableEq

structure EnforceCall where
  phase : EnforcePhase := .measure
  /-- `all_files` -/
  paths : List Path := []
  /-- The sorted files that are still to be deleted. -/
  todo : List (Path × ℚ) := []
  pct : ℕ := 0
  done : Bool := false
  locked : Bool
deriving DecidableEq

def EnforceCall.next (c : EnforceCall) : EnforceCall := { c with phase := .unlink, todo := c.todo.tail }

def EnforceCall.finish (c : EnforceCall) : EnforceCall := { c with done := true, todo := [] }

def EnforceCall.returned (c : EnforceCall) : Bool := c.done || (c.phase = .unlink && c.todo.isEmpty)

/-- The next operation of a call; `usage` is what `disk_usage` gives, where it does not raise. -/
def enforceStep (files : Dict Path (Frame R)) (mtime : Path → ℚ) (c : EnforceCall) (fails : Bool)
    (usage : Option (ℕ × ℕ)) : Option Deletion × EnforceCall :=
  if c.done then (none, c)
  else match c.phase with
  | .measure =>
    match usage with
    | some (used, total) =>
      if usagePct used total < diskFullPct then (none, c.finish)
      else (none, { c with pct := usagePct used total, phase := .collect .archive })
    | none => (none, c.finish)
  | .collect dir =>
    -- an exception of `glob` is passed over
    let found := if fails then [] else glob files dir
    (none, { c with paths := c.paths ++ found, phase := if dir = .archive then .collect .live else .sort })
  | .sort =>
    -- an exception of `stat` leaves the call
    if fails || c.paths.any fun p => (files.get? p).isNone then (none, c.finish)
    else (none, { c with
      todo := (c.paths.map fun p => (p, mtime p)).mergeSort fun x y => x.2 ≤ y.2
      phase := .unlink })
  | .unlink =>
    match c.todo with
    | (p, seen) :: later =>
      match available files fails p with
      | some _ => (some ⟨p, .full c.pct seen (later.map Prod.snd)⟩, { c with phase := .usage })
      | none => (none, c.next)
    | [] => (none, c)
  | .usage =>
    match usage with
    | some (used, total) =>
      if usagePct used total < diskFullPct then (none, c.finish)
      else (none, { c.next with pct := usagePct used total })
    | none => (none, c.next)

/-! ## All calls -/

structure House (R : Type) where
  archives : Archives R
  /-- `st_mtime` -/
  mtime : Path → ℚ
  sweeps : List SweepCall := []
  enforces : List EnforceCall := []
  deleted : List Deletion := []

inductive HouseAct
  /-- What the archiving calls do; a file that they write has this time. -/
  | archive (a : ArchiveAct) (nowS : ℚ)
  | trimOld (archiveDays : ℤ) (nowS : ℚ)
  | recoverOrphans (nowS : ℚ)
  | rotate (nowS : ℚ)
  /-- Of the archiver, which takes the lock, or of the store. -/
  | enforceDiskLimit (locks : Bool)
  | sweepStep (i : ℕ) (fails : Bool)
  | enforceStep (i : ℕ) (fails : Bool) (usage : Option (ℕ × ℕ))
  | cancelSweep (i : ℕ)
  | cancelEnforce (i : ℕ)

/-- The times after the next operation of a call that is at `src`. -/
def fileTimes (mtime : Path → ℚ) (files : Dict Path (Frame R)) (c : ArchiveCall R) (src : Path) (fails : Bool)
    (nowS : ℚ) : Path → ℚ :=
  match c.phase with
  | .write _ => if fails then mtime else Function.update mtime src.tmpDest nowS
  | .replace =>
    match available files fails src.tmpDest with
    | some _ => Function.update mtime src.dest (mtime src.tmpDest)
    | none => mtime
  | .move =>
    match available files fails src with
    | some _ => Function.update mtime src.dest (mtime src)
    | none => mtime
  | _ => mtime

def archiveTimes (s : House R) (nowS : ℚ) : ArchiveAct → Path → ℚ
  | .step i fails _ =>
    match s.archives.calls[i]? with
    | some c =>
      match c.todo with
      | src :: _ => fileTimes s.mtime s.archives.files c src fails nowS
      | [] => s.mtime
    | none => s.mtime
  | _ => s.mtime

/-- `_rotation_lock.locked()` -/
def House.locked (s : House R) : Bool :=
  s.archives.locked || s.sweeps.any (fun c => c.locked && !c.returned) || s.enforces.any fun c => c.locked && !c.returned

/-- Where the lock is taken, the call begins later. -/
def House.sweep (s : House R) (sweeps : List Sweep) (locks : Bool) : House R :=
  if locks && s.locked then s
  else { s with sweeps := s.sweeps ++ [{ limit := .before 0, sweeps := sweeps, locked := locks }] }

def House.delete (s : House R) : Option Deletion → House R
  | some d => { s with
    archives := { s.archives with files := s.archives.files.erase d.path }
    deleted := s.deleted ++ [d] }
  | none => s

def ArchiveAct.locks : ArchiveAct → Bool
  | .runDaily => true
  | .archiveFile _ => true
  | _ => false

def houseStep (pandas : Bool) (s : House R) : HouseAct → House R
  | .archive .die _ => { s with archives := archiveStep pandas s.archives .die, sweeps := [], enforces := [] }
  | .archive a nowS =>
    if a.locks && s.locked then s
    else { s with archives := archiveStep pandas s.archives a, mtime := archiveTimes s nowS a }
  | .trimOld archiveDays nowS => s.sweep (trimOld archiveDays nowS) true
  | .recoverOrphans nowS => s.sweep (recoverOrphans nowS) true
  | .rotate nowS => s.sweep (rotate nowS) false
  | .enforceDiskLimit locks =>
    if locks && s.locked then s else { s with enforces := s.enforces ++ [{ locked := locks }] }
  | .sweepStep i fails =>
    match s.sweeps[i]? with
    | some c =>
      let (deletion, c') := sweepStep s.archives.files s.mtime c fails
      { s with sweeps := s.sweeps.set i c' }.delete deletion
    | none => s
  | .enforceStep i fails usage =>
    match s.enforces[i]? with
    | some c =>
      let (deletion, c') := enforceStep s.archives.files s.mtime c fails usage
      { s with enforces := s.enforces.set i c' }.delete deletion
    | none => s
  | .cancelSweep i =>
    match s.sweeps[i]? with
    | some c => { s with sweeps := s.sweeps.set i { c with locked := false } }
    | none => s
  | .cancelEnforce i =>
    match s.enforces[i]? with
    | some c => { s with enforces := s.enforces.set i { c with locked := false } }
    | none => s

/-! ## What an archiving operation does to the times -/

/-- What an operation of a call that is at `src` does to the files and their times, and where it leaves the call. -/
inductive TimedEffect (files : Dict Path (Frame R)) (mtime : Path → ℚ) (c : ArchiveCall R) (src : Path) (nowS : ℚ) :
    Dict Path (Frame R) × ArchiveCall R → (Path → ℚ) → Prop
  | goes (phase : ArchivePhase R) (hphase : phase.Plain) :
    TimedEffect files mtime c src nowS (files, c.to phase) mtime
  | passes : TimedEffect files mtime c src nowS (files, c.next) mtime
  | reads (df : Frame R) (hget : files.get? src = some df) :
    TimedEffect files mtime c src nowS (files, c.to (.write df)) mtime
  | writes (df : Frame R) (hphase : c.phase = .write df) :
    TimedEffect files mtime c src nowS (files.set src.tmpDest df, c.to .replace)
      (Function.update mtime src.tmpDest nowS)
  | replaces (df : Frame R) (hphase : c.phase = .replace) (hget : files.get? src.tmpDest = some df) :
    TimedEffect files mtime c src nowS ((files.erase src.tmpDest).set src.dest df, c.to .unlink)
      (Function.update mtime src.dest (mtime src.tmpDest))
  | unlinks (hphase : c.phase = .unlink) : TimedEffect files mtime c src nowS (files.erase src, c.next) mtime
  | moves (df : Frame R) (hget : files.get? src = some df) :
    TimedEffect files mtime c src nowS ((files.erase src).set src.dest df, c.next)
      (Function.update mtime src.dest (mtime src))

theorem fileStep_timed (pandas : Bool) (files : Dict Path (Frame R)) (mtime : Path → ℚ) (c : ArchiveCall R) (src : Path)
    (fails old : Bool) (nowS : ℚ) : TimedEffect files mtime c src nowS (fileStep pandas files c src fails old)
      (fileTimes mtime files c src fails nowS) := by
  unfold fileStep fileTimes
  cases hphase : c.phase with
  | stat =>
    dsimp only
    split
    · split
      · exact .goes _ (by cases pandas <;> trivial)
      · exact .passes
    · exact .passes
  | check =>
    dsimp only
    split
    · exact .goes _ trivial
    · split
      · exact .passes
      · exact .goes _ (by split <;> trivial)
  | recheck =>
    dsimp only
    split
    · exact .goes _ trivial
    · exact .passes
  | read =>
    dsimp only
    split
    · rename_i df hget
      exact .reads df (available_eq_some hget)
    · exact .goes _ trivial
  | write df =>
    cases fails with
    | true => exact .goes _ trivial
    | false => exact .writes df hphase
  | replace =>
    dsimp only
    cases hget : available files fails src.tmpDest with
    | some df => exact .replaces df hphase (available_eq_some hget)
    | none => exact .goes _ trivial
  | unlink =>
    dsimp only
    split
    · exact .unlinks hphase
    · exact .goes _ trivial
  | move =>
    dsimp only
    cases hget : available files fails src with
    | some df => exact .moves df (available_eq_some hget)
    | none => exact .passes

end MikoV2.Storage
