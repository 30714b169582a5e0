import MikoV2.Lib.Directory
import MikoV2.Lib.Runs
import MikoV2.Lib.Slots

/-!
# `OrderBookStore`

`append` and `flush` on the event loop, with the writes that `flush` hands to worker threads: each goes through its
steps on the live directory at any time, and any of them may raise. Nothing is awaited while `_write_lock` is held, so a
call that has the lock is one step up to the hand-over.

* `append`, `flush`, `storeStep` : the calls, and what a write does next;
* `ExactlyOnce` : the records that are held are the ones that were appended;
* `Sound` : the same, with what the temporary files are; `Kept` : the steps that keep it;
* `held_rename` : what a rename puts in the place of a write and of the file it replaces;
* `exactlyOnce_iff` : the runs in which no record is lost or doubled.
-/

namespace MikoV2.Storage
open Directory Py

structure OrderBookStoreConfig where
  batchSize : ℤ := 500

/-- Where `_write_sync` is. -/
inductive WritePhase
  /-- It is handed to a worker thread. -/
  | submitted
  /-- It read the clock. -/
  | named (tsMs : ℤ)
  /-- `to_parquet` returned. -/
  | written (tsMs : ℤ)
  /-- An exception was raised. -/
  | raised (tsMs : ℤ)

def WritePhase.tsMs? : WritePhase → Option ℤ
  | .submitted => none
  | .named tsMs => some tsMs
  | .written tsMs => some tsMs
  | .raised tsMs => some tsMs

/-- A write in progress. A record comes with the number of its `append`. -/
structure Write (R : Type) where
  records : List (ℕ × R)
  phase : WritePhase := .submitted

structure StoreState (R : Type) where
  buffer : List (ℕ × R) := []
  writes : List (Write R) := []
  liveDir : Dict String (List (ℕ × R)) := .empty
  /-- `FlushController._counter` -/
  flushSuspended : ℤ := 0
  /-- what `append` took so far -/
  appended : List (ℕ × R) := []
  /-- what the calls of `flush` returned so far -/
  returned : List ℕ := []

variable {R : Type}

def start : StoreState R := {}

def fname (tsMs : ℤ) : String := "orderbook_" ++ toString tsMs ++ ".parquet"

def tmpName (tsMs : ℤ) : String := fname tsMs ++ ".tmp"

def isSuspended (s : StoreState R) : Bool := 0 < s.flushSuspended

variable (cfg : OrderBookStoreConfig) (pandas : Bool)

/-- `flush` up to the worker thread; `pandas` when it could be imported. -/
def flush (s : StoreState R) : StoreState R :=
  if s.buffer.isEmpty then { s with returned := s.returned ++ [0] }
  else if !pandas then { s with buffer := [], returned := s.returned ++ [0] }
  else { s with buffer := [], writes := s.writes ++ [{ records := s.buffer }] }

/-- `_buffer.append`, under the lock. -/
def enqueue (s : StoreState R) (record : R) : StoreState R :=
  { s with
    buffer := s.buffer ++ [(s.appended.length, record)]
    appended := s.appended ++ [(s.appended.length, record)] }

/-- Where the flush of a full batch has to wait for `_write_lock`, it is a call of its own later. -/
def append (s : StoreState R) (record : R) (waits : Bool) : StoreState R :=
  if isSuspended s then s
  else if cfg.batchSize ≤ (enqueue s record).buffer.length ∧ !waits then flush pandas (enqueue s record)
  else enqueue s record

/-- Write `i` goes on to `phase`, with the directory `dir`. -/
def StoreState.move (s : StoreState R) (i : ℕ) (w : Write R) (phase : WritePhase)
    (dir : Dict String (List (ℕ × R))) : StoreState R :=
  { s with writes := s.writes.set i { w with phase := phase }, liveDir := dir }

/-- Write `i` returns `count`. -/
def StoreState.finish (s : StoreState R) (i count : ℕ) (dir : Dict String (List (ℕ × R))) : StoreState R :=
  { s with writes := s.writes.eraseIdx i, liveDir := dir, returned := s.returned ++ [count] }

/-- What a write does next. -/
inductive WriteAct
  | clock (tsMs : ℤ)
  | toParquet
  /-- `DataFrame` or `to_parquet` raises; a file with the first `left` records may stay behind. -/
  | toParquetRaises (left : Option ℕ)
  /-- It raises by itself where the temporary file is gone. -/
  | rename
  | renameRaises
  /-- The handler; it may fail to delete the temporary file. -/
  | recover (unlinks : Bool)

/-- An action that is not the write's next one is none. -/
def writeStep (s : StoreState R) (i : ℕ) (w : Write R) (a : WriteAct) : StoreState R :=
  match a, w.phase with
  | .clock tsMs, .submitted => s.move i w (.named tsMs) s.liveDir
  | .toParquet, .named tsMs => s.move i w (.written tsMs) (s.liveDir.set (tmpName tsMs) w.records)
  | .toParquetRaises none, .named tsMs => s.move i w (.raised tsMs) s.liveDir
  | .toParquetRaises (some left), .named tsMs =>
    s.move i w (.raised tsMs) (s.liveDir.set (tmpName tsMs) (w.records.take left))
  | .rename, .written tsMs =>
    match Directory.rename s.liveDir (tmpName tsMs) (fname tsMs) with
    | some dir => s.finish i w.records.length dir
    | none => s.move i w (.raised tsMs) s.liveDir
  | .renameRaises, .written tsMs => s.move i w (.raised tsMs) s.liveDir
  | .recover unlinks, .raised tsMs =>
    s.finish i 0 (if unlinks then s.liveDir.erase (tmpName tsMs) else s.liveDir)
  | _, _ => s

inductive StoreAct (R : Type)
  | append (record : R) (waits : Bool)
  | flush
  /-- The suspension counter changes. -/
  | suspend (counter : ℤ)
  /-- Write `i` goes on. -/
  | write (i : ℕ) (a : WriteAct)

def storeStep (s : StoreState R) : StoreAct R → StoreState R
  | .append record waits => append cfg pandas s record waits
  | .flush => flush pandas s
  | .suspend counter => { s with flushSuspended := counter }
  | .write i a =>
    match s.writes[i]? with
    | some w => writeStep s i w a
    | none => s

/-! ## The records that are held -/

/-- `glob("*.parquet")`, which finds the stored files. -/
def Globbed (name : String) : Prop := ".parquet".toList <:+ name.toList

instance : DecidablePred Globbed := fun name => inferInstanceAs (Decidable (".parquet".toList <:+ name.toList))

theorem globbed_fname (tsMs : ℤ) : Globbed (fname tsMs) := by
  unfold Globbed fname
  rw [String.toList_append]
  exact List.suffix_append _ _

theorem not_globbed_append_tmp (name : String) : ¬ Globbed (name ++ ".tmp") := by
  rintro ⟨l, hl⟩
  have hlast := congrArg List.getLast? hl
  have htmp : ".tmp".toList.getLast? = some 'p' := by decide
  have hparquet : ".parquet".toList.getLast? = some 't' := by decide
  rw [String.toList_append, List.getLast?_append, List.getLast?_append, htmp, hparquet] at hlast
  simp at hlast

theorem not_globbed_tmpName (tsMs : ℤ) : ¬ Globbed (tmpName tsMs) := not_globbed_append_tmp (fname tsMs)

def stored (dir : Dict String (List (ℕ × R))) : List (ℕ × R) := contents Globbed dir

/-- What the buffer, the writes in progress and the stored files hold. -/
def StoreState.held (s : StoreState R) : List (ℕ × R) :=
  s.buffer ++ s.writes.flatMap Write.records ++ stored s.liveDir

/-- Every record that was appended is held exactly once, and no other is held. -/
def ExactlyOnce (s : StoreState R) : Prop := s.held.Perm s.appended

instance [DecidableEq R] (s : StoreState R) : Decidable (ExactlyOnce s) :=
  inferInstanceAs (Decidable (s.held.Perm s.appended))

/-- The write loses no record and doubles none: no handler returns, and a file that is renamed is the write's own, to a
name that is free. -/
def WriteKept (s : StoreState R) (w : Write R) : WriteAct → Prop
  | .rename => ∀ tsMs file, w.phase = .written tsMs → s.liveDir.get? (tmpName tsMs) = some file →
      file = w.records ∧ s.liveDir.get? (fname tsMs) = none
  | .recover _ => ∀ tsMs, w.phase ≠ .raised tsMs
  | _ => True

/-- The same of a step; a buffer with records is only flushed with `pandas`. -/
def Kept (s : StoreState R) : StoreAct R → Prop
  | .append _ waits =>
    0 < s.flushSuspended ∨ (s.buffer.length + 1 : ℕ) < cfg.batchSize ∨ waits = true ∨ pandas = true
  | .flush => s.buffer = [] ∨ pandas = true
  | .suspend _ => True
  | .write i a => ∀ w, s.writes[i]? = some w → WriteKept s w a

/-! ## What is kept -/

/-- What a step keeps: the numbers are those of the appends, no write and no stored file is empty, and a temporary file
is the beginning of a write in progress. -/
structure Sound (s : StoreState R) : Prop where
  exactlyOnce : ExactlyOnce s
  numbered : s.appended.map Prod.fst = List.range s.appended.length
  writes_ne : ∀ w ∈ s.writes, w.records ≠ []
  stored_ne : ∀ name file, s.liveDir.get? name = some file → Globbed name → file ≠ []
  tmp : ∀ name file, s.liveDir.get? name = some file → ¬ Globbed name →
    ∃ w ∈ s.writes, ∃ tsMs, w.phase.tsMs? = some tsMs ∧ name = tmpName tsMs ∧ file <+: w.records

theorem sound_start : Sound (start : StoreState R) where
  exactlyOnce := List.Perm.refl _
  numbered := rfl
  writes_ne := by simp [start]
  stored_ne := by simp [start]
  tmp := by simp [start]

/-- What a step of write `i` does: it stays; it moves on, with at most its own temporary file written; it is renamed; or
its handler returns. -/
inductive Effect (s : StoreState R) (i : ℕ) (w : Write R) : WriteAct → StoreState R → Prop
  | stays (a : WriteAct) : Effect s i w a s
  | moves (a : WriteAct) (phase : WritePhase)
      (hphase : ∀ tsMs, w.phase.tsMs? = some tsMs → phase.tsMs? = some tsMs) :
    Effect s i w a (s.move i w phase s.liveDir)
  | writes (a : WriteAct) (phase : WritePhase) (tsMs : ℤ) (n : ℕ) (hbefore : w.phase.tsMs? = some tsMs)
      (hphase : phase.tsMs? = some tsMs) :
    Effect s i w a (s.move i w phase (s.liveDir.set (tmpName tsMs) (w.records.take n)))
  | renames (tsMs : ℤ) (file : List (ℕ × R)) (hphase : w.phase = .written tsMs)
      (hfile : s.liveDir.get? (tmpName tsMs) = some file) :
    Effect s i w .rename
      (s.finish i w.records.length ((s.liveDir.erase (tmpName tsMs)).set (fname tsMs) file))
  | returns (tsMs : ℤ) (unlinks : Bool) (hphase : w.phase = .raised tsMs) :
    Effect s i w (.recover unlinks)
      (s.finish i 0 (if unlinks then s.liveDir.erase (tmpName tsMs) else s.liveDir))

theorem writeStep_effect (s : StoreState R) (i : ℕ) (w : Write R) (a : WriteAct) :
    Effect s i w a (writeStep s i w a) := by
  have hkeep : ∀ {before after : WritePhase}, w.phase = before → before.tsMs? = after.tsMs? →
      ∀ tsMs, w.phase.tsMs? = some tsMs → after.tsMs? = some tsMs := by
    rintro before after rfl h tsMs htsMs
    rw [← h, htsMs]
  unfold writeStep
  split
  · rename_i hphase
    refine .moves _ _ fun tsMs htsMs => ?_
    rw [hphase] at htsMs
    cases htsMs
  · rename_i tsMs hphase
    have hwrites : Effect s i w .toParquet
        (s.move i w (.written tsMs) (s.liveDir.set (tmpName tsMs) (w.records.take w.records.length))) :=
      .writes _ _ tsMs _ (by rw [hphase]; rfl) rfl
    rwa [List.take_length] at hwrites
  · rename_i tsMs hphase
    exact .moves _ _ (hkeep hphase rfl)
  · rename_i left tsMs hphase
    exact .writes _ _ tsMs left (by rw [hphase]; rfl) rfl
  · rename_i tsMs hphase
    split
    · rename_i dir hdir
      obtain ⟨file, hfile, rfl⟩ := rename_eq_some.mp hdir
      exact .renames tsMs file hphase hfile
    · exact .moves _ _ (hkeep hphase rfl)
  · rename_i tsMs hphase
    exact .moves _ _ (hkeep hphase rfl)
  · rename_i unlinks tsMs hphase
    exact .returns tsMs unlinks hphase
  · exact .stays _

section Held
variable {s : StoreState R} {i : ℕ} {w : Write R}

/-- What the buffer and the other writes hold. -/
def StoreState.others (s : StoreState R) (i : ℕ) : List (ℕ × R) :=
  s.buffer ++ (s.writes.eraseIdx i).flatMap Write.records

theorem held_of_writes {writes : List (Write R)} (h : writes.Perm (w :: s.writes.eraseIdx i))
    (dir : Dict String (List (ℕ × R))) :
    (s.buffer ++ writes.flatMap Write.records ++ stored dir).Perm (w.records ++ (s.others i ++ stored dir)) := by
  have hflat := h.flatMap_right Write.records
  rw [List.flatMap_cons] at hflat
  have hcomm := (hflat.append_left s.buffer).trans (List.perm_append_comm_assoc _ _ _)
  simpa only [StoreState.others, List.append_assoc] using hcomm.append_right (stored dir)

/-- The records of a write in progress, and the others. -/
theorem held_of_write (hw : s.writes[i]? = some w) : s.held.Perm (w.records ++ (s.others i ++ stored s.liveDir)) :=
  held_of_writes (Slots.perm_erase hw) s.liveDir

theorem held_move (hw : s.writes[i]? = some w) (phase : WritePhase) (dir : Dict String (List (ℕ × R))) :
    (s.move i w phase dir).held.Perm (w.records ++ (s.others i ++ stored dir)) :=
  held_of_writes (Slots.perm_set hw { w with phase := phase }) dir

theorem held_finish (count : ℕ) (dir : Dict String (List (ℕ × R))) :
    (s.finish i count dir).held = s.others i ++ stored dir := rfl

/-- A rename puts the renamed file in the place of the write and of the file that it replaces. -/
theorem held_rename (hw : s.writes[i]? = some w) (hs : ExactlyOnce s) (tsMs : ℤ) (file : List (ℕ × R))
    (count : ℕ) :
    ExactlyOnce (s.finish i count ((s.liveDir.erase (tmpName tsMs)).set (fname tsMs) file)) ↔
      file.Perm (w.records ++ (s.liveDir.get? (fname tsMs)).getD []) := by
  have hafter := contents_rename (d := s.liveDir) (v := file) (not_globbed_tmpName tsMs) (globbed_fname tsMs)
  have hbefore := contents_erase (d := s.liveDir) (globbed_fname tsMs)
  have hnew := (hafter.append_left (s.others i)).trans (List.perm_append_comm_assoc _ _ _)
  have hold := (held_of_write hw).trans ((hbefore.append_left (s.others i)).trans
    (List.perm_append_comm_assoc _ _ _) |>.append_left w.records)
  rw [← List.append_assoc w.records] at hold
  exact (hnew.congr_left _).trans (((hold.symm.trans hs).congr_right _).symm.trans (List.perm_append_right_iff _))

/-- A write that returns without its records leaves them nowhere. -/
theorem not_exactlyOnce_of_lost (hw : s.writes[i]? = some w) (hs : ExactlyOnce s) (hne : w.records ≠ [])
    {dir : Dict String (List (ℕ × R))} (hdir : stored dir = stored s.liveDir) (count : ℕ) :
    ¬ ExactlyOnce (s.finish i count dir) := by
  intro hafter
  have hlength := (hafter.trans (hs.symm.trans (held_of_write hw))).length_eq
  have hpos := List.length_pos_iff.mpr hne
  rw [held_finish, hdir, ← List.append_assoc] at hlength
  simp only [List.length_append] at hlength
  omega

/-- `flush` without `pandas`. -/
theorem not_exactlyOnce_of_dropped (hs : ExactlyOnce s) (hne : s.buffer ≠ []) : ¬ ExactlyOnce (flush false s) := by
  intro hafter
  have hflush : flush false s = { s with buffer := [], returned := s.returned ++ [0] } := by simp [flush, hne]
  rw [hflush] at hafter
  have hlength := (List.Perm.trans hafter hs.symm).length_eq
  have hpos := List.length_pos_iff.mpr hne
  simp only [StoreState.held, List.length_append, List.length_nil] at hlength
  omega

end Held

namespace Sound
variable {s : StoreState R} {i : ℕ} {w : Write R}

theorem nodup_held (hs : Sound s) : s.held.Nodup := by
  have hnumbers : (s.appended.map Prod.fst).Nodup := hs.numbered ▸ List.nodup_range
  exact hs.exactlyOnce.nodup_iff.mpr (List.Nodup.of_map _ hnumbers)

/-- Two writes in progress have no record in common. -/
theorem disjoint (hs : Sound s) (hw : s.writes[i]? = some w) {x : ℕ × R} (hx : x ∈ w.records) :
    x ∉ s.others i := by
  have hnodup := (held_of_write hw).nodup_iff.mp hs.nodup_held
  intro hother
  exact (List.nodup_append.mp hnodup).2.2 x hx x (List.mem_append_left _ hother) rfl

/-- A temporary file that holds what a write and the file that it would replace hold is the write's own, and there is no
file to replace. -/
theorem own_of_perm (hs : Sound s) (hw : s.writes[i]? = some w) {tsMs tsMs' : ℤ} {file : List (ℕ × R)}
    (hfile : s.liveDir.get? (tmpName tsMs) = some file)
    (hperm : file.Perm (w.records ++ (s.liveDir.get? (fname tsMs')).getD [])) :
    file = w.records ∧ s.liveDir.get? (fname tsMs') = none := by
  have hmem : w ∈ s.writes := List.mem_of_getElem? hw
  obtain ⟨w', hw', _, -, -, hbegins⟩ := hs.tmp _ _ hfile (not_globbed_tmpName tsMs)
  -- the file begins a write that has a record of `w`, which is `w` then
  have hown : w'.records = w.records := by
    obtain ⟨x, hx⟩ := List.exists_mem_of_ne_nil _ (hs.writes_ne w hmem)
    have hx' : x ∈ w'.records := hbegins.subset (hperm.mem_iff.mpr (List.mem_append_left _ hx))
    rcases List.mem_cons.mp ((Slots.perm_erase hw).mem_iff.mp hw') with rfl | hother
    · rfl
    · exact absurd (List.mem_append_right _ (List.mem_flatMap.mpr ⟨w', hother, hx'⟩)) (hs.disjoint hw hx)
  rw [hown] at hbegins
  have hlength := hperm.length_eq
  have hle := hbegins.length_le
  rw [List.length_append] at hlength
  refine ⟨hbegins.eq_of_length (by omega), ?_⟩
  cases hold : s.liveDir.get? (fname tsMs') with
  | none => rfl
  | some old =>
    have hpos := List.length_pos_iff.mpr (hs.stored_ne _ _ hold (globbed_fname tsMs'))
    rw [hold, Option.getD_some] at hlength
    omega

/-! ## The steps -/

theorem move (hs : Sound s) (hw : s.writes[i]? = some w) {phase : WritePhase} {dir : Dict String (List (ℕ × R))}
    (hphase : ∀ tsMs, w.phase.tsMs? = some tsMs → phase.tsMs? = some tsMs)
    (hstored : (stored dir).Perm (stored s.liveDir))
    (hdir : ∀ name file, dir.get? name = some file → s.liveDir.get? name = some file ∨
      ∃ tsMs n, phase.tsMs? = some tsMs ∧ name = tmpName tsMs ∧ file = w.records.take n) :
    Sound (s.move i w phase dir) := by
  have hset := Slots.perm_set hw { w with phase := phase }
  have hkeep := held_of_write hw
  constructor
  · have hheld := (held_move hw phase dir).trans ((hstored.append_left _).append_left _)
    exact hheld.trans (hkeep.symm.trans hs.exactlyOnce)
  · exact hs.numbered
  · intro w' hw'
    rcases List.mem_cons.mp (hset.mem_iff.mp hw') with rfl | hother
    · exact hs.writes_ne w (List.mem_of_getElem? hw)
    · exact hs.writes_ne w' (List.mem_of_mem_eraseIdx hother)
  · intro name file hget hglob
    rcases hdir name file hget with hget | ⟨tsMs, n, -, rfl, -⟩
    · exact hs.stored_ne name file hget hglob
    · exact absurd hglob (not_globbed_tmpName tsMs)
  · intro name file hget hglob
    have hmoved : { w with phase := phase } ∈ s.writes.set i { w with phase := phase } :=
      hset.mem_iff.mpr List.mem_cons_self
    rcases hdir name file hget with hget | ⟨tsMs, n, hts, rfl, rfl⟩
    · obtain ⟨w', hw', tsMs, hts, hname, hbegins⟩ := hs.tmp name file hget hglob
      rcases List.mem_cons.mp ((Slots.perm_erase hw).mem_iff.mp hw') with rfl | hother
      · exact ⟨_, hmoved, tsMs, hphase tsMs hts, hname, hbegins⟩
      · exact ⟨w', hset.mem_iff.mpr (List.mem_cons_of_mem _ hother), tsMs, hts, hname, hbegins⟩
    · exact ⟨_, hmoved, tsMs, hts, rfl, List.take_prefix n _⟩

theorem rename (hs : Sound s) (hw : s.writes[i]? = some w) {tsMs : ℤ} (hphase : w.phase = .written tsMs)
    (hfree : s.liveDir.get? (fname tsMs) = none) (count : ℕ) :
    Sound (s.finish i count ((s.liveDir.erase (tmpName tsMs)).set (fname tsMs) w.records)) := by
  have hmem : w ∈ s.writes := List.mem_of_getElem? hw
  have hget := get?_rename s.liveDir (tmpName tsMs) (fname tsMs) w.records
  constructor
  · refine (held_rename hw hs.exactlyOnce tsMs w.records count).mpr ?_
    rw [hfree, Option.getD_none, List.append_nil]
  · exact hs.numbered
  · intro w' hw'
    exact hs.writes_ne w' (List.mem_of_mem_eraseIdx hw')
  · intro name file hfile hglob
    rw [StoreState.finish, hget] at hfile
    split at hfile
    · rw [← Option.some.inj hfile]
      exact hs.writes_ne w hmem
    · split at hfile
      · cases hfile
      · exact hs.stored_ne name file hfile hglob
  · intro name file hfile hglob
    rw [StoreState.finish, hget] at hfile
    split at hfile
    · rename_i hname
      exact absurd (hname ▸ globbed_fname tsMs) hglob
    · split at hfile
      · cases hfile
      · rename_i hname
        obtain ⟨w', hw', tsMs', hts, rfl, hbegins⟩ := hs.tmp name file hfile hglob
        rcases List.mem_cons.mp ((Slots.perm_erase hw).mem_iff.mp hw') with rfl | hother
        · rw [hphase] at hts
          exact absurd (congrArg tmpName (Option.some.inj hts).symm) hname
        · exact ⟨w', hother, tsMs', hts, rfl, hbegins⟩

/-- Whatever a write does that keeps its records. -/
theorem effect (hs : Sound s) (hw : s.writes[i]? = some w) {a : WriteAct} {s' : StoreState R} (h : Effect s i w a s')
    (hkept : WriteKept s w a) : Sound s' := by
  cases h with
  | stays => exact hs
  | moves _ phase hphase => exact hs.move hw hphase (List.Perm.refl _) fun name file hget => Or.inl hget
  | writes _ phase tsMs n hbefore hphase =>
    refine hs.move hw ?_ (contents_set_of_not (not_globbed_tmpName tsMs)) fun name file hget => ?_
    · intro tsMs' hts
      rw [hphase, ← hbefore, hts]
    · rw [Dict.get?_set] at hget
      split at hget
      · rename_i hname
        exact Or.inr ⟨tsMs, n, hphase, hname, (Option.some.inj hget).symm⟩
      · exact Or.inl hget
  | renames tsMs file hphase hfile =>
    obtain ⟨rfl, hfree⟩ := hkept tsMs file hphase hfile
    exact hs.rename hw hphase hfree _
  | returns tsMs unlinks hphase => exact absurd hphase (hkept tsMs)

/-- The others lose them, or put a foreign file in their place. -/
theorem not_kept (hs : Sound s) (hw : s.writes[i]? = some w) {a : WriteAct} (ha : ¬ WriteKept s w a) :
    ¬ ExactlyOnce (writeStep s i w a) := by
  cases a with
  | rename =>
    simp only [WriteKept, not_forall] at ha
    obtain ⟨tsMs, file, hphase, hfile, hown⟩ := ha
    have hrename : writeStep s i w .rename =
        s.finish i w.records.length ((s.liveDir.erase (tmpName tsMs)).set (fname tsMs) file) := by
      simp only [writeStep, hphase, Directory.rename, hfile, Option.map_some]
    rw [hrename, held_rename hw hs.exactlyOnce]
    exact fun hperm => hown (hs.own_of_perm hw hfile hperm)
  | recover unlinks =>
    simp only [WriteKept, not_forall, not_not] at ha
    obtain ⟨tsMs, hphase⟩ := ha
    have hreturn : writeStep s i w (.recover unlinks) =
        s.finish i 0 (if unlinks then s.liveDir.erase (tmpName tsMs) else s.liveDir) := by
      simp only [writeStep, hphase]
    rw [hreturn]
    refine not_exactlyOnce_of_lost hw hs.exactlyOnce (hs.writes_ne w (List.mem_of_getElem? hw)) ?_ 0
    split
    · exact contents_erase_of_not (not_globbed_tmpName tsMs)
    · rfl
  | _ => exact absurd trivial ha

theorem enqueue (hs : Sound s) (record : R) : Sound (enqueue s record) := by
  obtain ⟨hexact, hnumbered, hwrites, hstored, htmp⟩ := hs
  refine ⟨?_, ?_, hwrites, hstored, htmp⟩
  · have hlast := List.perm_append_comm_assoc s.buffer [(s.appended.length, record)]
      (s.writes.flatMap Write.records ++ stored s.liveDir)
    have hheld : (Storage.enqueue s record).held.Perm ((s.appended.length, record) :: s.held) := by
      simpa only [StoreState.held, Storage.enqueue, List.append_assoc, List.cons_append, List.nil_append] using hlast
    exact hheld.trans ((hexact.cons _).trans (List.perm_append_singleton _ _).symm)
  · rw [Storage.enqueue, List.map_append, hnumbered, List.length_append, List.length_singleton, List.range_succ]
    rfl

theorem flush (hs : Sound s) {pandas : Bool} (hpandas : s.buffer = [] ∨ pandas = true) : Sound (flush pandas s) := by
  unfold Storage.flush
  split
  · exact ⟨hs.exactlyOnce, hs.numbered, hs.writes_ne, hs.stored_ne, hs.tmp⟩
  · rename_i hne
    rw [List.isEmpty_iff] at hne
    rw [hpandas.resolve_left hne, Bool.not_true, if_neg Bool.false_ne_true]
    refine ⟨?_, hs.numbered, ?_, hs.stored_ne, ?_⟩
    · refine List.Perm.trans ?_ hs.exactlyOnce
      simpa [StoreState.held] using List.perm_append_comm_assoc _ _ _
    · intro w hw
      rcases List.mem_append.mp hw with hw | hw
      · exact hs.writes_ne w hw
      · rw [List.mem_singleton.mp hw]
        exact hne
    · intro name file hget hglob
      obtain ⟨w, hw, howner⟩ := hs.tmp name file hget hglob
      exact ⟨w, List.mem_append_left _ hw, howner⟩

end Sound

theorem kept_step {s : StoreState R} {a : StoreAct R} (hs : Sound s) (ha : Kept cfg pandas s a) :
    Sound (storeStep cfg pandas s a) := by
  cases a with
  | append record waits =>
    show Sound (append cfg pandas s record waits)
    unfold append
    split
    · exact hs
    · rename_i hsuspended
      split
      · rename_i hbatch
        refine (hs.enqueue record).flush (Or.inr ?_)
        have hlength : (enqueue s record).buffer.length = s.buffer.length + 1 := by simp [enqueue]
        rw [hlength] at hbatch
        rcases ha with hcounter | hshort | rfl | hpandas
        · simp [isSuspended, hcounter] at hsuspended
        · omega
        · exact absurd hbatch.2 Bool.false_ne_true
        · exact hpandas
      · exact hs.enqueue record
  | flush => exact hs.flush ha
  | suspend counter => exact ⟨hs.exactlyOnce, hs.numbered, hs.writes_ne, hs.stored_ne, hs.tmp⟩
  | write i a =>
    show Sound (match s.writes[i]? with | some w => writeStep s i w a | none => s)
    split
    · rename_i w hw
      exact hs.effect hw (writeStep_effect s i w a) (ha w hw)
    · exact hs

theorem not_kept_step {s : StoreState R} {a : StoreAct R} (hs : Sound s) (ha : ¬ Kept cfg pandas s a) :
    ¬ ExactlyOnce (storeStep cfg pandas s a) := by
  cases a with
  | append record waits =>
    simp only [Kept, not_or, Bool.not_eq_true] at ha
    obtain ⟨hcounter, hbatch, rfl, rfl⟩ := ha
    have hlength : (enqueue s record).buffer.length = s.buffer.length + 1 := by simp [enqueue]
    have hfull : cfg.batchSize ≤ (enqueue s record).buffer.length := by
      rw [hlength]
      omega
    have hflush : storeStep cfg false s (.append record false) = flush false (enqueue s record) := by
      show append cfg false s record false = _
      rw [append, if_neg (by simpa [isSuspended] using hcounter), if_pos ⟨hfull, rfl⟩]
    rw [hflush]
    exact not_exactlyOnce_of_dropped (hs.enqueue record).exactlyOnce (by simp [enqueue])
  | flush =>
    simp only [Kept, not_or, Bool.not_eq_true] at ha
    obtain ⟨hne, rfl⟩ := ha
    exact not_exactlyOnce_of_dropped hs.exactlyOnce hne
  | suspend counter => exact absurd trivial ha
  | write i a =>
    simp only [Kept, not_forall] at ha
    obtain ⟨w, hw, ha⟩ := ha
    have hstep : storeStep cfg pandas s (.write i a) = writeStep s i w a := by
      show (match s.writes[i]? with | some w => writeStep s i w a | none => s) = _
      rw [hw]
    rw [hstep]
    exact hs.not_kept hw ha

/-- **No record is lost or doubled in exactly the runs whose steps all keep the records.** -/
theorem exactlyOnce_iff (as : List (StoreAct R)) :
    Runs.Always ExactlyOnce (storeStep cfg pandas) start as ↔
      Runs.Guarded (Kept cfg pandas) (storeStep cfg pandas) start as := by
  rw [Runs.always_iff_guarded sound_start.exactlyOnce]
  refine Runs.guarded_iff_guarded sound_start (fun s a _ hs ha => ?_) fun s a _ hs ha => not_kept_step cfg pandas hs ha
  have hsound := kept_step cfg pandas hs ha
  exact ⟨hsound, hsound.exactlyOnce⟩

/-- A write that fails, and returns. -/
theorem not_exactlyOnce_failedWrite :
    ¬ Runs.Always ExactlyOnce (storeStep { batchSize := 1 } true) (start : StoreState String)
      [.append "btc" false, .write 0 (.clock 1700000000000), .write 0 (.toParquetRaises none),
        .write 0 (.recover true)] := by
  intro h
  exact absurd h.last (by decide)

/-- Two flushes in one millisecond: the second file replaces the first. -/
example :
    (Runs.run (storeStep { batchSize := 1 } true) start [.append "btc" false, .append "eth" false,
      .write 0 (.clock 1700000000000), .write 1 (.clock 1700000000000), .write 0 .toParquet, .write 0 .rename,
      .write 0 .toParquet, .write 0 .rename]).held = [(1, "eth")] := by
  decide

end MikoV2.Storage
