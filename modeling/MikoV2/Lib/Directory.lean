import MikoV2.Lib.Dict

/-!
# Directories

A directory is a dictionary from file names to contents. Renaming replaces the file that has the new name.

* `rename` : `none` where there is no such file; `get?_rename` : the directory after it;
* `contents` : what the files with a name that a test accepts hold together, up to order;
* `contents_set`, `contents_erase`, `contents_rename` : what an operation adds to it and takes from it.
-/

namespace Directory
open Py

variable {V E : Type}

/-- `src.rename(dst)`. -/
def rename (d : Dict String V) (src dst : String) : Option (Dict String V) :=
  (d.get? src).map fun v => (d.erase src).set dst v

theorem rename_eq_some {d d' : Dict String V} {src dst : String} :
    rename d src dst = some d' ↔ ∃ v, d.get? src = some v ∧ d' = (d.erase src).set dst v := by
  unfold rename
  rw [Option.map_eq_some_iff]
  exact exists_congr fun v => and_congr_right fun _ => eq_comm

/-- The old name is free, the new one has the file, and no other name is touched. -/
theorem get?_rename (d : Dict String V) (src dst : String) (v : V) (name : String) :
    ((d.erase src).set dst v).get? name =
      if name = dst then some v else if name = src then none else d.get? name := by
  rw [Dict.get?_set, Dict.get?_erase]

section Contents
variable (p : String → Prop) [DecidablePred p]

/-- What the files that `p` accepts hold, one after the other. -/
def contents (d : Dict String (List E)) : List E := (d.items.filter fun f => p f.1).flatMap Prod.snd

variable {p} {d e : Dict String (List E)} {name : String} {v : List E}

theorem contents_perm (h : ∀ k, d.get? k = e.get? k) : (contents p d).Perm (contents p e) :=
  ((Dict.items_perm h).filter _).flatMap_right _

/-- A file with a name that `p` accepts, and the files without it. -/
theorem contents_of_get? (hp : p name) (h : d.get? name = some v) :
    (contents p d).Perm (v ++ contents p (d.erase name)) := by
  have hitems := (Dict.items_perm_erase h).filter fun f => decide (p f.1)
  have hkeep : ((name, v) :: (d.erase name).items).filter (fun f => decide (p f.1)) =
      (name, v) :: (d.erase name).items.filter fun f => decide (p f.1) :=
    List.filter_cons_of_pos (decide_eq_true hp)
  rw [hkeep] at hitems
  simpa only [contents, List.flatMap_cons] using hitems.flatMap_right Prod.snd

theorem contents_erase_of_not (hp : ¬ p name) : contents p (d.erase name) = contents p d := by
  unfold contents
  rw [Dict.items_erase, List.filter_filter]
  congr 1
  refine List.filter_congr fun f _ => ?_
  by_cases hf : f.1 = name
  · simp [hf, hp]
  · simp [hf]

/-- Deleting a file takes away what it held. -/
theorem contents_erase (hp : p name) :
    (contents p d).Perm ((d.get? name).getD [] ++ contents p (d.erase name)) := by
  cases hget : d.get? name with
  | none => rw [Dict.erase_of_not_mem (Dict.get?_eq_none.mp hget)]; simp
  | some v => exact contents_of_get? hp hget

theorem get?_erase_set (name' : String) : ((d.set name v).erase name).get? name' = (d.erase name).get? name' := by
  rw [Dict.get?_erase, Dict.get?_erase, Dict.get?_set]
  split
  · rfl
  · rfl

/-- Writing a file replaces what it held. -/
theorem contents_set (hp : p name) : (contents p (d.set name v)).Perm (v ++ contents p (d.erase name)) := by
  have hget : (d.set name v).get? name = some v := by rw [Dict.get?_set, if_pos rfl]
  exact (contents_of_get? hp hget).trans ((contents_perm get?_erase_set).append_left v)

theorem contents_set_of_not (hp : ¬ p name) : (contents p (d.set name v)).Perm (contents p d) := by
  rw [← contents_erase_of_not (d := d.set name v) hp, ← contents_erase_of_not (d := d) hp]
  exact contents_perm get?_erase_set

/-- A file renamed into the accepted names replaces what the new name held. -/
theorem contents_rename {src dst : String} (hsrc : ¬ p src) (hdst : p dst) :
    (contents p ((d.erase src).set dst v)).Perm (v ++ contents p (d.erase dst)) := by
  have hcomm : contents p ((d.erase src).erase dst) = contents p (d.erase dst) := by
    have hswap : (d.erase src).erase dst = (d.erase dst).erase src := by
      apply Dict.ext
      rw [Dict.items_erase, Dict.items_erase, Dict.items_erase, Dict.items_erase, List.filter_filter,
        List.filter_filter]
      exact List.filter_congr fun f _ => Bool.and_comm _ _
    rw [hswap, contents_erase_of_not hsrc]
  exact hcomm ▸ contents_set hdst

end Contents

end Directory
