import MikoV2.Lib.Copies
import MikoV2.Storage.OrderBookStore

/-!
# The archive

`OrderBookStore.archive_task`, `Archiver.run_daily` and `Archiver.archive_file` on the live and the archive directory.
Each call runs on a worker thread, and between two of its file operations the others go on. An operation fails where
its file is gone, and may fail at any other time; it has no effect then.

* `Path.dest`, `Path.tmpDest` : the names that all calls share; `glob`, `readSnapshot` : reading the directories;
* `callStep` : the next operation of a call, `archiveStep` : the calls, and what happens to them;
* `FileEffect`, `fileStep_effect` : all that an operation does to the files, and where it leaves its call.
-/

namespace MikoV2.Storage
open Py

inductive Dir
  | live
  | archive
deriving DecidableEq, Repr

structure Path where
  dir : Dir
  name : String
deriving DecidableEq, Repr

/-- `archive_dir / p.name`. -/
def Path.dest (p : Path) : Path := ⟨.archive, p.name⟩

/-- `archive_dir / (p.name + ".tmp")`. -/
def Path.tmpDest (p : Path) : Path := ⟨.archive, p.name ++ ".tmp"⟩

/-- A `DataFrame`. -/
structure Frame (R : Type) where
  columns : List String
  rows : List R
deriving DecidableEq

variable {R : Type}

/-- `dir.glob("*.parquet")`. -/
def glob (files : Dict Path (Frame R)) (dir : Dir) : List Path :=
  files.keys.filter fun p => p.dir = dir ∧ Globbed p.name

section Read
variable (pandas : Bool) (symbolOf : R → Option String) (tsMsOf : R → Option ℤ) (symbol : String) (tsFrom tsTo : ℤ)

/-- The rows of one file that `read_snapshot` takes; a column is read only where there is one. -/
def selected (df : Frame R) : List R :=
  let rows := if "symbol" ∈ df.columns then df.rows.filter fun r => symbolOf r = some symbol else df.rows
  if "ts_ms" ∈ df.columns then rows.filter fun r => (tsMsOf r).any fun ts => tsFrom ≤ ts ∧ ts ≤ tsTo else rows

def readSnapshot (files : Dict Path (Frame R)) : List R :=
  if !pandas then []
  else [Dir.live, Dir.archive].flatMap fun d =>
    (glob files d).flatMap fun p => ((files.get? p).map (selected symbolOf tsMsOf symbol tsFrom tsTo)).getD []

end Read

/-- Where a call is with its file. -/
inductive ArchivePhase (R : Type)
  /-- `p.stat().st_mtime < cutoff_s`, in the loops. -/
  | stat
  /-- `src.exists()`, the first and the second time, in `archive_file`. -/
  | check
  | recheck
  | read
  /-- `df.to_parquet(str(tmp_dest))` -/
  | write (df : Frame R)
  /-- `tmp_dest.rename(dest)` -/
  | replace
  | unlink
  /-- `p.rename(dest)`: the fallback, and the only operation without `pandas`. -/
  | move

/-- A call in progress: the files it has still to archive, the first of which it is at. -/
structure ArchiveCall (R : Type) where
  todo : List Path
  phase : ArchivePhase R
  /-- It holds the rotation lock. -/
  locked : Bool

def ArchiveCall.to (c : ArchiveCall R) (phase : ArchivePhase R) : ArchiveCall R := { c with phase := phase }

/-- It is through with its file. -/
def ArchiveCall.next (c : ArchiveCall R) : ArchiveCall R := { c with todo := c.todo.tail, phase := .stat }

def ArchiveCall.returned (c : ArchiveCall R) : Bool := c.todo.isEmpty

structure Archives (R : Type) where
  files : Dict Path (Frame R)
  calls : List (ArchiveCall R) := []

/-- What an operation on the file `p` finds. -/
def available (files : Dict Path (Frame R)) (fails : Bool) (p : Path) : Option (Frame R) :=
  if fails then none else files.get? p

/-- The next operation of a call that is at `src`; `old` when the file is older than the cutoff. -/
def fileStep (pandas : Bool) (files : Dict Path (Frame R)) (c : ArchiveCall R) (src : Path) (fails old : Bool) :
    Dict Path (Frame R) × ArchiveCall R :=
  match c.phase with
  | .stat =>
    match available files fails src with
    | some _ => if old then (files, c.to (if pandas then .read else .move)) else (files, c.next)
    | none => (files, c.next)
  | .check =>
    if !pandas then (files, c.to .recheck)
    else if fails then (files, c.next)
    else (files, c.to (if (files.get? src).isSome then .read else .recheck))
  | .recheck =>
    match available files fails src with
    | some _ => (files, c.to .move)
    | none => (files, c.next)
  | .read =>
    match available files fails src with
    | some df => (files, c.to (.write df))
    | none => (files, c.to .move)
  | .write df =>
    if fails then (files, c.to .move) else (files.set src.tmpDest df, c.to .replace)
  | .replace =>
    match available files fails src.tmpDest with
    | some df => ((files.erase src.tmpDest).set src.dest df, c.to .unlink)
    | none => (files, c.to .move)
  | .unlink =>
    match available files fails src with
    | some _ => (files.erase src, c.next)
    | none => (files, c.to .move)
  | .move =>
    match available files fails src with
    | some df => ((files.erase src).set src.dest df, c.next)
    | none => (files, c.next)

def callStep (pandas : Bool) (files : Dict Path (Frame R)) (c : ArchiveCall R) (fails old : Bool) :
    Dict Path (Frame R) × ArchiveCall R :=
  match c.todo with
  | src :: _ => fileStep pandas files c src fails old
  | [] => (files, c)

inductive ArchiveAct
  | archiveTask
  | runDaily
  | archiveFile (filePath : Path)
  /-- Call `i` goes on with its next operation. -/
  | step (i : ℕ) (fails old : Bool)
  /-- The caller of call `i` is cancelled: the lock is free, and the thread goes on. -/
  | cancel (i : ℕ)
  /-- The process ends, and is started again. -/
  | die

/-- `_rotation_lock.locked()`. A call whose thread returned has released it. -/
def Archives.locked (s : Archives R) : Bool := s.calls.any fun c => c.locked && !c.returned

def archiveTask (s : Archives R) : Archives R :=
  { s with calls := s.calls ++ [{ todo := glob s.files .live, phase := .stat, locked := false }] }

/-- Where the lock is taken, the call begins later. -/
def runDaily (s : Archives R) : Archives R :=
  if s.locked then s
  else { s with calls := s.calls ++ [{ todo := glob s.files .live, phase := .stat, locked := true }] }

def archiveFile (s : Archives R) (filePath : Path) : Archives R :=
  if s.locked then s
  else { s with calls := s.calls ++ [{ todo := [filePath], phase := .check, locked := true }] }

def archiveStep (pandas : Bool) (s : Archives R) : ArchiveAct → Archives R
  | .archiveTask => archiveTask s
  | .runDaily => runDaily s
  | .archiveFile filePath => archiveFile s filePath
  | .step i fails old =>
    match s.calls[i]? with
    | some c =>
      let (files, c') := callStep pandas s.files c fails old
      { files := files, calls := s.calls.set i c' }
    | none => s
  | .cancel i =>
    match s.calls[i]? with
    | some c => { s with calls := s.calls.set i { c with locked := false } }
    | none => s
  | .die => { s with calls := [] }

/-! ## What an operation does -/

/-- In these phases a call has touched no file yet, or none that it relies on. -/
def ArchivePhase.Plain : ArchivePhase R → Prop
  | .write _ => False
  | .replace => False
  | .unlink => False
  | _ => True

/-- What an operation of a call that is at `src` does to the files, and where it leaves the call. -/
inductive FileEffect (files : Dict Path (Frame R)) (c : ArchiveCall R) (src : Path) (fails : Bool) :
    Dict Path (Frame R) × ArchiveCall R → Prop
  /-- No file is touched. The call leaves the file that it was to delete only where it could not be. -/
  | goes (phase : ArchivePhase R) (hphase : phase.Plain)
      (hleaves : c.phase = .unlink → fails = true ∨ files.get? src = none) :
    FileEffect files c src fails (files, c.to phase)
  | passes (hphase : c.phase ≠ .unlink) : FileEffect files c src fails (files, c.next)
  | reads (df : Frame R) (hphase : c.phase = .read) (hget : files.get? src = some df) :
    FileEffect files c src fails (files, c.to (.write df))
  | writes (df : Frame R) (hphase : c.phase = .write df) :
    FileEffect files c src fails (files.set src.tmpDest df, c.to .replace)
  | replaces (df : Frame R) (hphase : c.phase = .replace) (hget : files.get? src.tmpDest = some df) :
    FileEffect files c src fails ((files.erase src.tmpDest).set src.dest df, c.to .unlink)
  | unlinks (hphase : c.phase = .unlink) : FileEffect files c src fails (files.erase src, c.next)
  | moves (df : Frame R) (hphase : c.phase = .move) (hget : files.get? src = some df) :
    FileEffect files c src fails ((files.erase src).set src.dest df, c.next)

theorem available_eq_some {files : Dict Path (Frame R)} {fails : Bool} {p : Path} {df : Frame R}
    (h : available files fails p = some df) : files.get? p = some df := by
  unfold available at h
  split at h
  · cases h
  · exact h

theorem available_eq_none {files : Dict Path (Frame R)} {fails : Bool} {p : Path}
    (h : available files fails p = none) : fails = true ∨ files.get? p = none := by
  unfold available at h
  split at h
  · rename_i hfails
    exact Or.inl hfails
  · exact Or.inr h

theorem fileStep_effect (pandas : Bool) (files : Dict Path (Frame R)) (c : ArchiveCall R) (src : Path)
    (fails old : Bool) : FileEffect files c src fails (fileStep pandas files c src fails old) := by
  unfold fileStep
  cases hphase : c.phase with
  | stat =>
    have hpass : c.phase ≠ .unlink := by simp [hphase]
    dsimp only
    split
    · split
      · refine .goes _ ?_ fun h => absurd h hpass
        cases pandas
        · trivial
        · trivial
      · exact .passes hpass
    · exact .passes hpass
  | check =>
    have hpass : c.phase ≠ .unlink := by simp [hphase]
    dsimp only
    split
    · exact .goes _ trivial fun h => absurd h hpass
    · split
      · exact .passes hpass
      · refine .goes _ ?_ fun h => absurd h hpass
        split
        · trivial
        · trivial
  | recheck =>
    have hpass : c.phase ≠ .unlink := by simp [hphase]
    dsimp only
    split
    · exact .goes _ trivial fun h => absurd h hpass
    · exact .passes hpass
  | read =>
    have hpass : c.phase ≠ .unlink := by simp [hphase]
    dsimp only
    split
    · rename_i df hget
      exact .reads df hphase (available_eq_some hget)
    · exact .goes _ trivial fun h => absurd h hpass
  | write df =>
    have hpass : c.phase ≠ .unlink := by simp [hphase]
    dsimp only
    split
    · exact .goes _ trivial fun h => absurd h hpass
    · exact .writes df hphase
  | replace =>
    have hpass : c.phase ≠ .unlink := by simp [hphase]
    dsimp only
    split
    · rename_i df hget
      exact .replaces df hphase (available_eq_some hget)
    · exact .goes _ trivial fun h => absurd h hpass
  | unlink =>
    dsimp only
    split
    · exact .unlinks hphase
    · rename_i hget
      exact .goes _ trivial fun _ => available_eq_none hget
  | move =>
    dsimp only
    split
    · rename_i df hget
      exact .moves df hphase (available_eq_some hget)
    · exact .passes (by simp [hphase])

end MikoV2.Storage
