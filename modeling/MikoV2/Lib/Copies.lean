import MikoV2.Lib.Dict

/-!
# Copies

A dictionary in which several keys are places of one name: `home k` is the name whose copy belongs at `k`, and a key
that is no place of a name has `none`.

* `copies` : the copies that there are, with their names;
* `Kept orig` : every name has a copy of what it had, and what is at its places is such a copy;
* `Kept.set`, `Kept.erase`, `Kept.rename` : what keeps that: a further copy, deleting one of two, moving one;
* `Single`, `copies_perm` : where no name has two, the copies are what the names had.
-/

namespace Copies
open Py

variable {K N V : Type} [DecidableEq K] {home : K → Option N} {orig : N → Option V} {d e : Dict K V} {k k' src dst : K}
  {n : N} {v : V}

def copies (home : K → Option N) (d : Dict K V) : List (N × V) :=
  d.items.filterMap fun e => (home e.1).map fun n => (n, e.2)

theorem mem_copies : (n, v) ∈ copies home d ↔ ∃ k, home k = some n ∧ d.get? k = some v := by
  unfold copies
  rw [List.mem_filterMap]
  constructor
  · rintro ⟨⟨k, w⟩, hmem, hhome⟩
    obtain ⟨m, hm, heq⟩ := Option.map_eq_some_iff.mp hhome
    cases heq
    exact ⟨k, hm, Dict.mem_items.mp hmem⟩
  · rintro ⟨k, hhome, hget⟩
    refine ⟨(k, v), Dict.mem_items.mpr hget, ?_⟩
    rw [hhome, Option.map_some]

/-- Every name has a copy of what it had, and there is nothing else at its places. -/
structure Kept (home : K → Option N) (orig : N → Option V) (d : Dict K V) : Prop where
  faithful : ∀ {k n v}, home k = some n → d.get? k = some v → orig n = some v
  held : ∀ {n v}, orig n = some v → ∃ k, home k = some n ∧ d.get? k = some v

theorem mem_copies_iff (h : Kept home orig d) : (n, v) ∈ copies home d ↔ orig n = some v := by
  rw [mem_copies]
  constructor
  · rintro ⟨k, hhome, hget⟩
    exact h.faithful hhome hget
  · exact h.held

namespace Kept

theorem congr (h : Kept home orig d) (heq : ∀ k, home k ≠ none → e.get? k = d.get? k) : Kept home orig e := by
  have hsome : ∀ {k n}, home k = some n → e.get? k = d.get? k := fun hk =>
    heq _ (by rw [hk]; exact Option.some_ne_none _)
  constructor
  · intro k n v hk hget
    apply h.faithful hk
    rw [← hsome hk, hget]
  · intro n v hn
    obtain ⟨k, hk, hget⟩ := h.held hn
    exact ⟨k, hk, by rw [hsome hk, hget]⟩

theorem set_of_none (h : Kept home orig d) (hk : home k = none) (v : V) : Kept home orig (d.set k v) := by
  apply h.congr
  intro k' hk'
  rw [Dict.get?_set, if_neg]
  rintro rfl
  exact hk' hk

theorem erase_of_none (h : Kept home orig d) (hk : home k = none) : Kept home orig (d.erase k) := by
  apply h.congr
  intro k' hk'
  rw [Dict.get?_erase, if_neg]
  rintro rfl
  exact hk' hk

/-- A further copy. -/
theorem set (h : Kept home orig d) (hk : home k = some n) (hv : orig n = some v) : Kept home orig (d.set k v) := by
  constructor
  · intro k' m w hk' hget
    rw [Dict.get?_set] at hget
    split at hget
    · rename_i heq
      rw [heq, hk] at hk'
      rw [← Option.some.inj hk', ← Option.some.inj hget]
      exact hv
    · exact h.faithful hk' hget
  · intro m w hm
    obtain ⟨k', hk', hget⟩ := h.held hm
    refine ⟨k', hk', ?_⟩
    rw [Dict.get?_set]
    split
    · rename_i heq
      rw [heq, hk] at hk'
      rw [← Option.some.inj hk', hv] at hm
      exact hm
    · exact hget

/-- One of two copies is deleted. -/
theorem erase (h : Kept home orig d) (hk : home k = some n) (hk' : home k' = some n) (hne : k' ≠ k)
    (hget : d.get? k' = some v) : Kept home orig (d.erase k) := by
  constructor
  · intro j m w hj hgetj
    rw [Dict.get?_erase] at hgetj
    split at hgetj
    · cases hgetj
    · exact h.faithful hj hgetj
  · intro m w hm
    obtain ⟨j, hj, hgetj⟩ := h.held hm
    by_cases hjk : j = k
    · have hmn : m = n := by
        rw [hjk, hk] at hj
        exact (Option.some.inj hj).symm
      have hvw : v = w := by
        rw [hmn, h.faithful hk' hget] at hm
        exact Option.some.inj hm
      refine ⟨k', hmn ▸ hk', ?_⟩
      rw [Dict.get?_erase, if_neg hne, hget, hvw]
    · refine ⟨j, hj, ?_⟩
      rw [Dict.get?_erase, if_neg hjk, hgetj]

/-- A copy is moved to another place of its name. -/
theorem rename (h : Kept home orig d) (hsrc : home src = some n) (hdst : home dst = some n)
    (hget : d.get? src = some v) : Kept home orig ((d.erase src).set dst v) := by
  by_cases heq : dst = src
  · apply h.congr
    intro k _
    rw [Dict.get?_set, Dict.get?_erase, heq]
    split
    · rename_i hk
      rw [hk, hget]
    · rfl
  · have hset : (d.set dst v).get? dst = some v := by rw [Dict.get?_set, if_pos rfl]
    refine ((h.set hdst (h.faithful hsrc hget)).erase hsrc hdst heq hset).congr fun k _ => ?_
    rw [Dict.get?_set, Dict.get?_erase, Dict.get?_erase, Dict.get?_set]
    by_cases hk : k = dst
    · rw [if_pos hk, if_pos hk, if_neg (hk ▸ heq)]
    · rw [if_neg hk, if_neg hk]

end Kept

/-- No name has two copies. -/
def Single (home : K → Option N) (d : Dict K V) : Prop :=
  ∀ k k' n, home k = some n → home k' = some n → d.get? k ≠ none → d.get? k' ≠ none → k = k'

theorem nodup_copies (h : Single home d) : (copies home d).Nodup := by
  have hkeys : d.items.Pairwise fun a b => a.1 ≠ b.1 := List.pairwise_map.mp d.nodup
  unfold copies
  apply List.pairwise_filterMap.mpr
  refine hkeys.imp_of_mem fun {a b} ha hb hne x hx y hy => ?_
  obtain ⟨m, hm, rfl⟩ := Option.map_eq_some_iff.mp hx
  obtain ⟨m', hm', rfl⟩ := Option.map_eq_some_iff.mp hy
  intro heq
  have hnames : m = m' := congrArg Prod.fst heq
  have hpresent : ∀ {c : K × V}, c ∈ d.items → d.get? c.1 ≠ none := by
    intro c hc
    rw [Dict.mem_items.mp hc]
    exact Option.some_ne_none _
  exact hne (h _ _ m hm (hnames ▸ hm') (hpresent ha) (hpresent hb))

theorem copies_perm (hd : Kept home orig d) (he : Kept home orig e) (hsd : Single home d) (hse : Single home e) :
    (copies home d).Perm (copies home e) := by
  apply (List.perm_ext_iff_of_nodup (nodup_copies hsd) (nodup_copies hse)).mpr
  rintro ⟨n, v⟩
  rw [mem_copies_iff hd, mem_copies_iff he]

end Copies
