import Mathlib.Data.List.Basic
import Mathlib.Tactic.Common

/-!
# A connection with a pending transaction, and tables

A `Conn` holds what is on disk and what the connection itself sees: a statement changes only the view, a
commit copies the view to the disk. Every call may raise; a raising statement leaves the view alone, a
raising commit leaves the transaction pending, so that the next commit that succeeds publishes it.

* `execute_cases`, `commit_cases`, `write_cases` : everything a call can do;
* `Settled f` : nothing pending in the part `f` of the database;
* `Settled.write_frame`, `Settled.commit` : writes that leave `f` alone, and commits, keep it;
* `Frame f` : what calls that leave `f` alone do to it;
* `insertOrIgnore`, `update` : the two data statements on a table, with their row counts;
* `filter_update` : an update that takes rows out of a selection;
* `insertOrReplace` : the third data statement; `filter_insertOrReplace` : a selection after it;
* `Keyed` : no two rows clash; `find_update`, `find_insertOrReplace`, `find_insertOrIgnore` : the row of a key after them.
-/

namespace Sqlite

variable {DB T Row R Tag : Type}

/-- Whether call number `n`, made at the program point `tag`, raises. -/
abbrev Faults (Tag : Type) := Nat → Tag → Bool

/-- A connection: the committed database, the database the connection sees, the number of calls made. -/
structure Conn (DB : Type) where
  disk : DB
  view : DB
  issued : Nat

namespace Conn

/-- A connection to `db` with nothing pending. -/
def openDb (db : DB) : Conn DB := ⟨db, db, 0⟩

/-- `conn.execute(stmt)`; `none` when it raises. -/
def execute (faults : Faults Tag) (tag : Tag) (stmt : DB → R × DB) (c : Conn DB) : Option R × Conn DB :=
  if faults c.issued tag then (none, { c with issued := c.issued + 1 })
  else (some (stmt c.view).1, { c with view := (stmt c.view).2, issued := c.issued + 1 })

/-- `conn.commit()`; `false` when it raises. -/
def commit (faults : Faults Tag) (tag : Tag) (c : Conn DB) : Bool × Conn DB :=
  if faults c.issued tag then (false, { c with issued := c.issued + 1 })
  else (true, ⟨c.view, c.view, c.issued + 1⟩)

/-- `try: conn.execute(stmt); conn.commit()`; `none` when either raises. There is no rollback. -/
def write (faults : Faults Tag) (st co : Tag) (stmt : DB → R × DB) (c : Conn DB) : Option R × Conn DB :=
  match c.execute faults st stmt with
  | (none, c') => (none, c')
  | (some r, c') => match c'.commit faults co with
    | (true, c'') => (some r, c'')
    | (false, c'') => (none, c'')

/-- The process dies and another one opens the file: what was pending is gone. -/
def reopen (c : Conn DB) : Conn DB := { c with view := c.disk }

/-- Nothing is pending in the part `f` of the database. -/
def Settled (f : DB → T) (c : Conn DB) : Prop := f c.view = f c.disk

end Conn

/-! ## What a call can do -/

section Calls
variable {faults : Faults Tag} {tag st co : Tag} {stmt : DB → R × DB} {c c' : Conn DB} {r : Option R} {f : DB → T}

theorem execute_cases (h : c.execute faults tag stmt = (r, c')) :
    (r = none ∧ faults c.issued tag = true ∧ c'.disk = c.disk ∧ c'.view = c.view) ∨
      (r = some (stmt c.view).1 ∧ faults c.issued tag = false ∧ c'.disk = c.disk ∧
        c'.view = (stmt c.view).2) := by
  unfold Conn.execute at h
  split at h
  · rename_i hf; cases h; exact Or.inl ⟨rfl, hf, rfl, rfl⟩
  · rename_i hf; cases h; exact Or.inr ⟨rfl, Bool.eq_false_iff.mpr hf, rfl, rfl⟩

theorem commit_cases {b : Bool} (h : c.commit faults tag = (b, c')) :
    (b = false ∧ faults c.issued tag = true ∧ c'.disk = c.disk ∧ c'.view = c.view) ∨
      (b = true ∧ faults c.issued tag = false ∧ c'.disk = c.view ∧ c'.view = c.view) := by
  unfold Conn.commit at h
  split at h
  · rename_i hf; cases h; exact Or.inl ⟨rfl, hf, rfl, rfl⟩
  · rename_i hf; cases h; exact Or.inr ⟨rfl, Bool.eq_false_iff.mpr hf, rfl, rfl⟩

/-- A write fails at its statement and changes nothing, or fails at its commit and leaves the statement
pending, or reaches the disk. -/
theorem write_cases (h : c.write faults st co stmt = (r, c')) :
    (r = none ∧ c'.disk = c.disk ∧ c'.view = c.view) ∨
      (r = none ∧ (∃ n, faults n co = true) ∧ c'.disk = c.disk ∧ c'.view = (stmt c.view).2) ∨
        (r = some (stmt c.view).1 ∧ c'.disk = (stmt c.view).2 ∧ c'.view = (stmt c.view).2) := by
  unfold Conn.write at h
  rcases hx : c.execute faults st stmt with ⟨r₁, c₁⟩
  rw [hx] at h
  rcases execute_cases hx with ⟨rfl, -, hd, hv⟩ | ⟨rfl, -, hd, hv⟩
  · cases h
    exact Or.inl ⟨rfl, hd, hv⟩
  · rcases hy : c₁.commit faults co with ⟨b, c₂⟩
    rcases commit_cases hy with ⟨rfl, hf, hd', hv'⟩ | ⟨rfl, -, hd', hv'⟩
    · simp only [hy] at h
      cases h
      exact Or.inr (Or.inl ⟨rfl, ⟨_, hf⟩, hd'.trans hd, hv'.trans hv⟩)
    · simp only [hy] at h
      cases h
      exact Or.inr (Or.inr ⟨rfl, hd'.trans hv, hv'.trans hv⟩)

/-- With a commit that never raises, a write is all or nothing. -/
theorem write_atomic (hco : ∀ n, faults n co = false) (h : c.write faults st co stmt = (r, c')) :
    (r = none ∧ c'.disk = c.disk ∧ c'.view = c.view) ∨
      (r = some (stmt c.view).1 ∧ c'.disk = (stmt c.view).2 ∧ c'.view = (stmt c.view).2) := by
  rcases write_cases h with h | ⟨-, ⟨n, hn⟩, -⟩ | h
  · exact Or.inl h
  · rw [hco n] at hn; cases hn
  · exact Or.inr h

/-- What the statement keeps holds of the view and of the disk after the write, whatever raises. -/
theorem write_keeps {P : DB → Prop} (hst : ∀ d, P d → P (stmt d).2) (hv : P c.view) (hd : P c.disk)
    (h : c.write faults st co stmt = (r, c')) : P c'.view ∧ P c'.disk := by
  rcases write_cases h with ⟨-, hd', hv'⟩ | ⟨-, -, hd', hv'⟩ | ⟨-, hd', hv'⟩
  · rw [hd', hv']
    exact ⟨hv, hd⟩
  · rw [hd', hv']
    exact ⟨hst _ hv, hd⟩
  · rw [hd', hv']
    exact ⟨hst _ hv, hst _ hv⟩

/-- Without faults a write reaches the disk. -/
theorem write_of_no_faults (hf : ∀ n t, faults n t = false) (c : Conn DB) (st co : Tag)
    (stmt : DB → R × DB) :
    c.write faults st co stmt = (some (stmt c.view).1, ⟨(stmt c.view).2, (stmt c.view).2, c.issued + 2⟩) := by
  simp only [Conn.write, Conn.execute, Conn.commit, hf, Bool.false_eq_true, if_false]

/-- A write returns exactly when its two calls do not raise. -/
theorem write_isSome_iff (h : c.write faults st co stmt = (r, c')) :
    r.isSome = true ↔ faults c.issued st = false ∧ faults (c.issued + 1) co = false := by
  unfold Conn.write Conn.execute Conn.commit at h
  by_cases hst : faults c.issued st = true
  · rw [if_pos hst] at h
    cases h
    refine iff_of_false Bool.false_ne_true fun hf => ?_
    exact Bool.false_ne_true (hf.1.symm.trans hst)
  · rw [if_neg hst] at h
    dsimp only at h
    by_cases hco : faults (c.issued + 1) co = true
    · rw [if_pos hco] at h
      cases h
      refine iff_of_false Bool.false_ne_true fun hf => ?_
      exact Bool.false_ne_true (hf.2.symm.trans hco)
    · rw [if_neg hco] at h
      cases h
      exact iff_of_true rfl ⟨Bool.eq_false_iff.mpr hst, Bool.eq_false_iff.mpr hco⟩

/-- A write whose two calls do not raise returns. -/
theorem write_isSome (hst : ∀ n, faults n st = false) (hco : ∀ n, faults n co = false)
    (h : c.write faults st co stmt = (r, c')) : r.isSome = true :=
  (write_isSome_iff h).mpr ⟨hst _, hco _⟩

/-- A write whose statement leaves `f` alone leaves `f` alone on the view. -/
theorem write_frame_view (hs : ∀ d, f (stmt d).2 = f d) (h : c.write faults st co stmt = (r, c')) :
    f c'.view = f c.view := by
  rcases write_cases h with ⟨-, -, hv⟩ | ⟨-, -, -, hv⟩ | ⟨-, -, hv⟩
  · rw [hv]
  · rw [hv, hs]
  · rw [hv, hs]

/-- A write whose statement leaves `f` alone at most publishes what was pending in `f`. -/
theorem write_frame_disk (hs : ∀ d, f (stmt d).2 = f d) (h : c.write faults st co stmt = (r, c')) :
    f c'.disk = f c.disk ∨ f c'.disk = f c.view := by
  rcases write_cases h with ⟨-, hd, -⟩ | ⟨-, -, hd, -⟩ | ⟨-, hd, -⟩
  · exact Or.inl (by rw [hd])
  · exact Or.inl (by rw [hd])
  · exact Or.inr (by rw [hd, hs])

/-- A settled part that the statement leaves alone stays settled, on the disk as well. -/
theorem Settled.write_frame (hc : c.Settled f) (hs : ∀ d, f (stmt d).2 = f d)
    (h : c.write faults st co stmt = (r, c')) : c'.Settled f ∧ f c'.disk = f c.disk := by
  have hv := write_frame_view hs h
  have hd : f c'.disk = f c.disk := (write_frame_disk hs h).elim id fun e => e.trans hc
  exact ⟨(hv.trans hc).trans hd.symm, hd⟩

theorem Settled.commit {b : Bool} (hc : c.Settled f) (h : c.commit faults tag = (b, c')) :
    c'.Settled f ∧ f c'.disk = f c.disk ∧ f c'.view = f c.view := by
  rcases commit_cases h with ⟨-, -, hd, hv⟩ | ⟨-, -, hd, hv⟩
  · exact ⟨by rw [Conn.Settled, hd, hv]; exact hc, by rw [hd], by rw [hv]⟩
  · exact ⟨by rw [Conn.Settled, hd, hv], by rw [hd]; exact hc, by rw [hv]⟩

theorem Settled.reopen (hc : c.Settled f) : f c.reopen.view = f c.view := hc.symm

end Calls

/-! ## Frames -/

/-- `f` is unchanged for the connection; the disk may have received what was pending in it. -/
structure Frame (f : DB → T) (c c' : Conn DB) : Prop where
  view : f c'.view = f c.view
  disk : f c'.disk = f c.disk ∨ f c'.disk = f c.view

section Frames
variable {faults : Faults Tag} {tag st co : Tag} {stmt : DB → R × DB} {c c' c'' : Conn DB} {r : Option R} {f : DB → T}

theorem Frame.refl (f : DB → T) (c : Conn DB) : Frame f c c := ⟨rfl, Or.inl rfl⟩

theorem Frame.trans (h : Frame f c c') (h' : Frame f c' c'') : Frame f c c'' := by
  refine ⟨h'.view.trans h.view, ?_⟩
  rcases h'.disk with hd | hd
  · rw [hd]
    exact h.disk
  · rw [hd, h.view]
    exact Or.inr rfl

/-- What is computed from an unchanged part is unchanged. -/
theorem Frame.comp {U : Type} (h : Frame f c c') (g : T → U) : Frame (g ∘ f) c c' :=
  ⟨congrArg g h.view, h.disk.imp (congrArg g) (congrArg g)⟩

theorem Frame.of_execute (hs : ∀ d, f (stmt d).2 = f d) (h : c.execute faults tag stmt = (r, c')) : Frame f c c' := by
  rcases execute_cases h with ⟨-, -, hd, hv⟩ | ⟨-, -, hd, hv⟩
  · exact ⟨by rw [hv], Or.inl (by rw [hd])⟩
  · exact ⟨by rw [hv, hs], Or.inl (by rw [hd])⟩

theorem Frame.of_commit {b : Bool} (h : c.commit faults tag = (b, c')) : Frame f c c' := by
  rcases commit_cases h with ⟨-, -, hd, hv⟩ | ⟨-, -, hd, hv⟩
  · exact ⟨by rw [hv], Or.inl (by rw [hd])⟩
  · exact ⟨by rw [hv], Or.inr (by rw [hd])⟩

theorem Frame.of_write (hs : ∀ d, f (stmt d).2 = f d) (h : c.write faults st co stmt = (r, c')) : Frame f c c' :=
  ⟨write_frame_view hs h, write_frame_disk hs h⟩

/-- A settled part stays settled. -/
theorem Frame.settled (h : Frame f c c') (hc : c.Settled f) : c'.Settled f ∧ f c'.disk = f c.disk := by
  have hd : f c'.disk = f c.disk := h.disk.elim id fun e => e.trans hc
  exact ⟨(h.view.trans hc).trans hd.symm, hd⟩

end Frames

/-! ## Tables -/

/-- `INSERT OR IGNORE`: the number of rows inserted and the table after it; `clash` is what a `PRIMARY KEY`
or `UNIQUE` constraint compares. -/
def insertOrIgnore (clash : Row → Row → Bool) (row : Row) (table : List Row) : Nat × List Row :=
  if table.any (clash row) then (0, table) else (1, table ++ [row])

/-- `UPDATE … SET f WHERE p`: the number of rows changed and the table after it. -/
def update (p : Row → Bool) (f : Row → Row) (table : List Row) : Nat × List Row :=
  (table.countP p, table.map fun row => if p row then f row else row)

/-- `INSERT OR REPLACE`: the rows that clash with the new one are deleted first. -/
def insertOrReplace (clash : Row → Row → Bool) (row : Row) (table : List Row) : List Row :=
  (table.filter fun r => !clash row r) ++ [row]

section Tables
variable {clash : Row → Row → Bool} {row : Row} {table : List Row} {p : Row → Bool} {f : Row → Row}

theorem insertOrIgnore_of_clash (h : table.any (clash row) = true) :
    insertOrIgnore clash row table = (0, table) := if_pos h

theorem insertOrIgnore_of_fresh (h : table.any (clash row) = false) :
    insertOrIgnore clash row table = (1, table ++ [row]) := by
  rw [insertOrIgnore, h]; rfl

theorem mem_update {x : Row} : x ∈ (update p f table).2 ↔
    (x ∈ table ∧ p x = false) ∨ ∃ y ∈ table, p y = true ∧ f y = x := by
  simp only [update, List.mem_map]
  constructor
  · rintro ⟨y, hy, rfl⟩
    cases hp : p y with
    | true => exact Or.inr ⟨y, hy, hp, rfl⟩
    | false => exact Or.inl ⟨hy, hp⟩
  · rintro (⟨hx, hp⟩ | ⟨y, hy, hp, rfl⟩)
    · exact ⟨x, hx, by simp [hp]⟩
    · exact ⟨y, hy, by simp [hp]⟩

/-- An update that leaves the column `g` alone leaves the whole column alone. -/
theorem map_update {β : Type} (g : Row → β) (hg : ∀ r, g (f r) = g r) :
    (update p f table).2.map g = table.map g := by
  simp only [update, List.map_map]
  refine List.map_congr_left fun r _ => ?_
  simp only [Function.comp]
  split
  · exact hg r
  · rfl

/-- An update whose new rows all fail `q` takes the rows it selects out of the selection `q`. -/
theorem filter_update {q : Row → Bool} (hf : ∀ r, q (f r) = false) :
    (update p f table).2.filter q = (table.filter q).filter fun r => !p r := by
  simp only [update]
  induction table with
  | nil => rfl
  | cons r t ih =>
    rw [List.map_cons]
    by_cases hp : p r = true
    · rw [if_pos hp, List.filter_cons_of_neg (by rw [hf r]; simp), ih]
      by_cases hq : q r = true
      · rw [List.filter_cons_of_pos hq, List.filter_cons_of_neg (by simp [hp])]
      · rw [List.filter_cons_of_neg hq]
    · rw [if_neg hp]
      by_cases hq : q r = true
      · rw [List.filter_cons_of_pos hq, List.filter_cons_of_pos hq, List.filter_cons_of_pos (by simp [hp]), ih]
      · rw [List.filter_cons_of_neg hq, List.filter_cons_of_neg hq, ih]

/-- A selection by what clashing rows share: the new row takes the place of those it clashes with, or is not selected
and takes no selected one away. -/
theorem filter_insertOrReplace {q : Row → Bool} (hq : ∀ r, clash row r = true → q r = q row) :
    (insertOrReplace clash row table).filter q =
      if q row then insertOrReplace clash row (table.filter q) else table.filter q := by
  unfold insertOrReplace
  rw [List.filter_append]
  by_cases hrow : q row = true
  · rw [if_pos hrow, List.filter_singleton, hrow, cond_true, List.filter_filter, List.filter_filter]
    simp only [Bool.and_comm]
  · rw [if_neg hrow, List.filter_singleton, Bool.eq_false_iff.mpr hrow, cond_false, List.append_nil, List.filter_filter]
    refine List.filter_congr fun r _ => ?_
    by_cases hc : clash row r = true
    · rw [hq r hc, Bool.eq_false_iff.mpr hrow, Bool.false_and]
    · rw [Bool.eq_false_iff.mpr hc, Bool.not_false, Bool.and_true]

/-! ## Keys -/

/-- `q` selects the rows of one key. -/
structure Selects (clash : Row → Row → Bool) (q : Row → Bool) : Prop where
  same : ∀ r s, clash r s = true → q s = q r
  meet : ∀ r s, q r = true → q s = true → clash r s = true

/-- No two rows clash. -/
def Keyed (clash : Row → Row → Bool) (table : List Row) : Prop := table.Pairwise fun r s => clash r s = false

theorem Keyed.append (hsymm : ∀ r s, clash r s = clash s r) (h : Keyed clash table)
    (hrow : ∀ r ∈ table, clash row r = false) : Keyed clash (table ++ [row]) := by
  refine List.pairwise_append.mpr ⟨h, List.pairwise_singleton _ _, fun r hr s hs => ?_⟩
  rw [List.mem_singleton.mp hs, hsymm]
  exact hrow r hr

theorem Keyed.insertOrIgnore (hsymm : ∀ r s, clash r s = clash s r) (h : Keyed clash table) (row : Row) :
    Keyed clash (insertOrIgnore clash row table).2 := by
  cases hany : table.any (clash row) with
  | true =>
    rw [insertOrIgnore_of_clash hany]
    exact h
  | false =>
    rw [insertOrIgnore_of_fresh hany]
    exact h.append hsymm fun r hr => by simpa using List.any_eq_false.mp hany r hr

theorem Keyed.insertOrReplace (hsymm : ∀ r s, clash r s = clash s r) (h : Keyed clash table) (row : Row) :
    Keyed clash (insertOrReplace clash row table) :=
  Keyed.append hsymm (List.Pairwise.filter _ h) fun r hr => by simpa using (List.mem_filter.mp hr).2

/-- An update that leaves the key alone. -/
theorem Keyed.update (h : Keyed clash table) (hf : ∀ r s, clash (f r) s = clash r s ∧ clash r (f s) = clash r s) :
    Keyed clash (update p f table).2 := by
  refine List.pairwise_map.mpr (List.Pairwise.imp (fun {r s} hrs => ?_) h)
  split <;> split
  · rw [(hf r _).1, (hf r s).2, hrs]
  · rw [(hf r s).1, hrs]
  · rw [(hf r s).2, hrs]
  · exact hrs

/-- A row of the table is the one that its key finds. -/
theorem Keyed.find (h : Keyed clash table) {q : Row → Bool} (hq : Selects clash q)
    (hrow : row ∈ table) (hown : q row = true) : table.find? q = some row := by
  induction table with
  | nil => cases hrow
  | cons r t ih =>
    obtain ⟨hhead, htail⟩ := List.pairwise_cons.mp h
    rcases List.mem_cons.mp hrow with rfl | hmem
    · rw [List.find?_cons_of_pos hown]
    · have hother : ¬ q r = true := by
        intro hr
        have hclash := hq.meet r row hr hown
        rw [hhead row hmem] at hclash
        cases hclash
      rw [List.find?_cons_of_neg hother]
      exact ih htail hmem

/-- It is the only one. -/
theorem Keyed.filter_eq (h : Keyed clash table) {q : Row → Bool} (hq : Selects clash q) (hrow : row ∈ table)
    (hown : q row = true) : table.filter q = [row] := by
  induction table with
  | nil => cases hrow
  | cons r t ih =>
    obtain ⟨hhead, htail⟩ := List.pairwise_cons.mp h
    have hapart : ∀ s ∈ t, q r = true → q s = false := by
      intro s hs hr
      rw [← Bool.not_eq_true]
      intro hsel
      have hclash := hq.meet r s hr hsel
      rw [hhead s hs] at hclash
      cases hclash
    rcases List.mem_cons.mp hrow with rfl | hmem
    · rw [List.filter_cons_of_pos hown, List.filter_eq_nil_iff.mpr fun s hs => by simp [hapart s hs hown]]
    · have hother : ¬ q r = true := fun hr => absurd ((hapart row hmem hr).symm.trans hown) Bool.false_ne_true
      rw [List.filter_cons_of_neg hother]
      exact ih htail hmem

theorem mem_insertOrReplace {x : Row} :
    x ∈ insertOrReplace clash row table ↔ (x ∈ table ∧ clash row x = false) ∨ x = row := by
  simp [insertOrReplace]

variable (clash row table) in
/-- The rows that are replaced are no longer counted, the new one is. -/
theorem countP_insertOrReplace (p : Row → Bool) :
    (insertOrReplace clash row table).countP p + (table.filter (clash row)).countP p =
      table.countP p + if p row then 1 else 0 := by
  have hsplit := List.countP_eq_countP_filter_add table p (clash row)
  unfold insertOrReplace
  rw [List.countP_append, List.countP_singleton, hsplit]
  omega

/-! ## Finding a row by its key -/

variable {q : Row → Bool}

theorem find_update (hq : ∀ r, q (f r) = q r) (p : Row → Bool) (table : List Row) :
    (update p f table).2.find? q = (table.find? q).map fun r => if p r then f r else r := by
  simp only [update, List.find?_map]
  congr 2
  ext r
  simp only [Function.comp]
  split
  · exact hq r
  · rfl

theorem find_insertOrReplace (hq : Selects clash q) (row : Row) (table : List Row) :
    (insertOrReplace clash row table).find? q = if q row then some row else table.find? q := by
  unfold insertOrReplace
  rw [List.find?_append, List.find?_filter]
  cases hrow : q row with
  | true =>
    have hnone : table.find? (fun r => !clash row r && q r) = none := by
      rw [List.find?_eq_none]
      intro r _ hr
      rw [Bool.and_eq_true, Bool.not_eq_true'] at hr
      rw [hq.meet row r hrow hr.2] at hr
      exact absurd hr.1 (by simp)
    simp [hnone, hrow]
  | false =>
    have hsame : (fun r => !clash row r && q r) = q := by
      ext r
      cases hc : clash row r with
      | true => rw [hq.same row r hc, hrow, Bool.and_false]
      | false => rfl
    simp [hsame, hrow]

theorem find_insertOrIgnore (hq : Selects clash q) (row : Row) (table : List Row) :
    (insertOrIgnore clash row table).2.find? q = (table.find? q).or (if q row then some row else none) := by
  cases hany : table.any (clash row) with
  | true =>
    rw [insertOrIgnore_of_clash hany]
    obtain ⟨r, hr, hc⟩ := List.any_eq_true.mp hany
    cases hrow : q row with
    | true =>
      have hsome : (table.find? q).isSome = true :=
        List.find?_isSome.mpr ⟨r, hr, (hq.same row r hc).trans hrow⟩
      obtain ⟨s, hs⟩ := Option.isSome_iff_exists.mp hsome
      simp [hs]
    | false => simp
  | false =>
    rw [insertOrIgnore_of_fresh hany, List.find?_append]
    cases hrow : q row <;> simp [hrow]

end Tables

end Sqlite
