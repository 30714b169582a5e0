import Mathlib.Tactic.Common

/-!
# Programs that may stop at any statement

A program over a database each of whose statements is kept at once, as in autocommit. It is run with room for a number of
statements; the one for which there is no room raises, and what was done before it stays.

* `Prog`, `stmt`, `query`, `raise` : the programs; `forEach` : a loop over a list;
* `Spec P p Q E k` : from `P` the program ends in `Q`, or stops in `E`; it takes at most `k` statements, and stops for
  lack of room only;
* `Keeps I p` : every statement keeps `I`;
* `Spec.bind`, `Spec.query`, `Spec.forEach`, `Spec.each`, `Spec.weaken` : the rules.
-/

namespace Crash

/-- With room for `n` more statements: the value and the room that is left, or `none` when it raises, and the database. -/
def Prog (DB α : Type) := ℕ → DB → Option (α × ℕ) × DB

variable {DB α β : Type}

/-- The program that does nothing more. -/
def done (a : α) : Prog DB α := fun n db => (some (a, n), db)

def andThen (p : Prog DB α) (f : α → Prog DB β) : Prog DB β := fun n db =>
  match p n db with
  | (none, db) => (none, db)
  | (some (a, n), db) => f a n db

instance : Monad (Prog DB) where
  pure := done
  bind := andThen

/-- `raise` of the program itself. -/
def raise : Prog DB α := fun _ db => (none, db)

/-- A statement; `f` is `none` where it fails. -/
def stmt (f : DB → Option DB) : Prog DB Unit
  | 0, db => (none, db)
  | n + 1, db =>
    match f db with
    | none => (none, db)
    | some db => (some ((), n), db)

/-- A statement that only reads. -/
def query (f : DB → α) : Prog DB α
  | 0, db => (none, db)
  | n + 1, db => (some (f db, n), db)

/-- `for a in as: f(a)`. -/
def forEach (as : List α) (f : α → Prog DB Unit) : Prog DB Unit :=
  match as with
  | [] => done ()
  | a :: as => do
    f a
    forEach as f

/-! ## Specifications -/

/-- From `P` the program ends in `Q` and has taken at most `k` statements, or it stops in `E`, and has not had room for
`k`. -/
def Spec (P : DB → Prop) (p : Prog DB α) (Q : α → DB → Prop) (E : DB → Prop) (k : ℕ) : Prop :=
  ∀ n db, P db → (∀ db', p n db = (none, db') → E db' ∧ n < k) ∧
    ∀ a m db', p n db = (some (a, m), db') → Q a db' ∧ n ≤ m + k

variable {P P' E E' : DB → Prop} {p : Prog DB α} {Q Q' : α → DB → Prop} {k l : ℕ}

theorem Spec.weaken (h : Spec P p Q E k) (hP : ∀ db, P' db → P db) (hQ : ∀ a db, Q a db → Q' a db)
    (hE : ∀ db, E db → E' db) (hk : k ≤ l) : Spec P' p Q' E' l := by
  intro n db hdb
  obtain ⟨hstop, hend⟩ := h n db (hP db hdb)
  refine ⟨fun db' hrun => ?_, fun a m db' hrun => ?_⟩
  · obtain ⟨hE', hn⟩ := hstop db' hrun
    exact ⟨hE db' hE', by omega⟩
  · obtain ⟨hQ', hn⟩ := hend a m db' hrun
    exact ⟨hQ a db' hQ', by omega⟩

/-- A specification for each database the program may start from. -/
theorem Spec.each (h : ∀ db, P db → Spec (· = db) p Q E k) : Spec P p Q E k :=
  fun n db hdb => h db hdb n db rfl

theorem Spec.done {a : α} (h : ∀ db, P db → Q a db) : Spec P (pure a : Prog DB α) Q E 0 := by
  intro n db hdb
  refine ⟨fun db' hrun => ?_, fun b m db' hrun => ?_⟩ <;> cases hrun
  exact ⟨h db hdb, Nat.le_refl n⟩

theorem Spec.bind {f : α → Prog DB β} {R : β → DB → Prop} (h : Spec P p Q E k) (hf : ∀ a, Spec (Q a) (f a) R E l) :
    Spec P (p >>= f) R E (k + l) := by
  intro n db hdb
  obtain ⟨hstop, hend⟩ := h n db hdb
  show (∀ db', andThen p f n db = _ → _) ∧ ∀ b m db', andThen p f n db = _ → _
  unfold andThen
  rcases hx : p n db with ⟨_ | ⟨a, m⟩, db'⟩
  · obtain ⟨hE, hn⟩ := hstop db' hx
    refine ⟨fun db'' hrun => ?_, fun b m' db'' hrun => ?_⟩ <;> cases hrun
    exact ⟨hE, by omega⟩
  · obtain ⟨hQ, hn⟩ := hend a m db' hx
    obtain ⟨hstop', hend'⟩ := hf a m db' hQ
    refine ⟨fun db'' hrun => ?_, fun b m' db'' hrun => ?_⟩
    · obtain ⟨hE, hm⟩ := hstop' db'' hrun
      exact ⟨hE, by omega⟩
    · obtain ⟨hR, hm⟩ := hend' b m' db'' hrun
      exact ⟨hR, by omega⟩

/-- A statement that does not fail by itself. -/
theorem Spec.stmt {f : DB → Option DB} {Q : Unit → DB → Prop} (hE : ∀ db, P db → E db)
    (h : ∀ db, P db → ∃ db', f db = some db' ∧ Q () db') :
    Spec P (stmt f) Q E 1 := by
  intro n db hdb
  cases n with
  | zero =>
    refine ⟨fun db' hrun => ?_, fun b m db' hrun => ?_⟩ <;> cases hrun
    exact ⟨hE db hdb, Nat.zero_lt_one⟩
  | succ n =>
    obtain ⟨db', hf, hQ⟩ := h db hdb
    have hstmt : Crash.stmt f (n + 1) db = (some ((), n), db') := by simp only [Crash.stmt, hf]
    rw [hstmt]
    refine ⟨fun db' hrun => ?_, fun b m db' hrun => ?_⟩ <;> cases hrun
    exact ⟨hQ, Nat.le_refl _⟩

theorem Spec.query {f : DB → α} (hE : ∀ db, P db → E db) (h : ∀ db, P db → Q (f db) db) : Spec P (query f) Q E 1 := by
  intro n db hdb
  cases n with
  | zero =>
    refine ⟨fun db' hrun => ?_, fun b m db' hrun => ?_⟩ <;> cases hrun
    exact ⟨hE db hdb, Nat.zero_lt_one⟩
  | succ n =>
    refine ⟨fun db' hrun => ?_, fun b m db' hrun => ?_⟩ <;> cases hrun
    exact ⟨h db hdb, Nat.le_refl _⟩

/-- A statement that changes nothing. -/
theorem Spec.stmt_keep {f : DB → Option DB} {db : DB} (h : f db = some db) :
    Spec (· = db) (Crash.stmt f) (fun _ => (· = db)) (· = db) 1 := by
  refine .stmt (fun _ h => h) fun db' hdb => ?_
  subst hdb
  exact ⟨db', h, rfl⟩

/-- A loop, with what holds after the entries that are done. -/
theorem Spec.forEach {as : List α} {f : α → Prog DB Unit} {I : List α → DB → Prop}
    (h : ∀ pre a, pre ++ [a] <+: as → Spec (I pre) (f a) (fun _ => I (pre ++ [a])) E k) :
    Spec (I []) (forEach as f) (fun _ => I as) E (as.length * k) := by
  have hgo : ∀ rest pre, as = pre ++ rest → Spec (I pre) (Crash.forEach rest f) (fun _ => I as) E (rest.length * k) := by
    intro rest
    induction rest with
    | nil =>
      intro pre has
      rw [has, List.append_nil, List.length_nil, Nat.zero_mul]
      exact .done fun db hdb => hdb
    | cons a rest ih =>
      intro pre has
      have happ : as = pre ++ [a] ++ rest := by rw [has, List.append_assoc]; rfl
      have hfirst := h pre a (happ ▸ List.prefix_append _ _)
      have hrest := ih (pre ++ [a]) happ
      have hlen : (a :: rest).length * k = k + rest.length * k := by
        rw [List.length_cons, Nat.add_mul, Nat.one_mul, Nat.add_comm]
      rw [hlen]
      exact hfirst.bind fun _ => hrest
  exact hgo as [] rfl

/-- A program that has enough room ends. -/
theorem Spec.ends (h : Spec P p Q E k) {n : ℕ} {db : DB} (hP : P db) (hn : k ≤ n) :
    ∃ a m db', p n db = (some (a, m), db') ∧ Q a db' := by
  obtain ⟨hstop, hend⟩ := h n db hP
  rcases hx : p n db with ⟨_ | ⟨a, m⟩, db'⟩
  · exact absurd (hstop db' hx).2 (Nat.not_lt.mpr hn)
  · exact ⟨a, m, db', rfl, (hend a m db' hx).1⟩

/-- However it ends. -/
theorem Spec.always (h : Spec P p Q E k) {I : DB → Prop} (hQ : ∀ a db, Q a db → I db) (hE : ∀ db, E db → I db) {n : ℕ}
    {db : DB} (hP : P db) : I (p n db).2 := by
  obtain ⟨hstop, hend⟩ := h n db hP
  rcases hx : p n db with ⟨_ | ⟨a, m⟩, db'⟩
  · exact hE db' (hstop db' hx).1
  · exact hQ a db' (hend a m db' hx).1

/-! ## Invariants of the statements -/

/-- Wherever the program stops, it has kept `I`. -/
def Keeps (I : DB → Prop) (p : Prog DB α) : Prop := ∀ n db, I db → I (p n db).2

variable {I : DB → Prop}

theorem Keeps.done (a : α) : Keeps I (pure a : Prog DB α) := fun _ _ h => h

theorem Keeps.raise : Keeps I (Crash.raise : Prog DB α) := fun _ _ h => h

theorem Keeps.bind {f : α → Prog DB β} (h : Keeps I p) (hf : ∀ a, Keeps I (f a)) : Keeps I (p >>= f) := by
  intro n db hdb
  have hp := h n db hdb
  show I (andThen p f n db).2
  unfold andThen
  rcases hx : p n db with ⟨_ | ⟨a, m⟩, db'⟩
  · rwa [hx] at hp
  · rw [hx] at hp
    exact hf a m db' hp

theorem Keeps.stmt {f : DB → Option DB} (h : ∀ db db', I db → f db = some db' → I db') : Keeps I (Crash.stmt f) := by
  intro n db hdb
  cases n with
  | zero => exact hdb
  | succ n =>
    cases hf : f db with
    | none => simpa only [Crash.stmt, hf] using hdb
    | some db' => simpa only [Crash.stmt, hf] using h db db' hdb hf

theorem Keeps.query (f : DB → α) : Keeps I (Crash.query f) := by
  intro n db hdb
  cases n <;> exact hdb

end Crash
