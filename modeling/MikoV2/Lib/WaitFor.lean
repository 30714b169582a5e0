import Mathlib.Logic.Relation
import Mathlib.Order.WellFounded
import Mathlib.Tactic.Common

/-!
# Wait-for graphs

Threads that wait for locks which other threads own, and locks that are taken in the order of their levels.

* `WaitsFor` : a thread wants a lock that the other one owns;
* `Ordered` : a thread wants a lock above all those that it owns;
* `Ordered.acyclic` : no thread waits for itself, however many are between;
* `Ordered.exists_runnable` : where levels cannot rise for ever, every thread waits for one that does not wait.
-/

namespace WaitFor
open Relation

variable {T L Λ : Type} [Preorder Λ] {owner : L → Option T} {wants : T → Option L} {level : L → Λ} {t u : T}

/-- `t` wants a lock that `u` owns. -/
def WaitsFor (owner : L → Option T) (wants : T → Option L) (t u : T) : Prop := ∃ l, wants t = some l ∧ owner l = some u

/-- A thread wants a lock above all those that it owns. -/
def Ordered (owner : L → Option T) (wants : T → Option L) (level : L → Λ) : Prop :=
  ∀ t l m, wants t = some l → owner m = some t → level m < level l

/-- Along the waits the wanted levels rise. -/
theorem Ordered.level_lt (h : Ordered owner wants level) (hwaits : TransGen (WaitsFor owner wants) t u) :
    ∀ l m, wants t = some l → wants u = some m → level l < level m := by
  induction hwaits with
  | single hstep =>
    intro l m hl hm
    obtain ⟨k, hk, howner⟩ := hstep
    obtain rfl : k = l := Option.some.inj (hk.symm.trans hl)
    exact h _ _ _ hm howner
  | tail _ hstep ih =>
    intro l m hl hm
    obtain ⟨k, hk, howner⟩ := hstep
    exact lt_trans (ih l k hl hk) (h _ _ _ hm howner)

/-- **No cycles.** -/
theorem Ordered.acyclic (h : Ordered owner wants level) (t : T) : ¬ TransGen (WaitsFor owner wants) t t := by
  intro hwaits
  obtain ⟨u, ⟨l, hl, -⟩, -⟩ := TransGen.head'_iff.mp hwaits
  exact lt_irrefl _ (h.level_lt hwaits l l hl hl)

/-- **Progress.** At the end of the waits of a thread there is one that waits for nobody. -/
theorem Ordered.exists_runnable [WellFoundedGT Λ] (h : Ordered owner wants level) (t : T) :
    ∃ u, ReflTransGen (WaitsFor owner wants) t u ∧ ∀ v, ¬ WaitsFor owner wants u v := by
  have hlevel : ∀ k t l, wants t = some l → level l = k →
      ∃ u, ReflTransGen (WaitsFor owner wants) t u ∧ ∀ v, ¬ WaitsFor owner wants u v := by
    intro k
    induction k using WellFoundedGT.induction with
    | ind k ih =>
      rintro t l hl rfl
      by_cases hwaits : ∃ v, WaitsFor owner wants t v
      · obtain ⟨v, hv⟩ := hwaits
        by_cases hnext : ∃ n, wants v = some n
        · obtain ⟨n, hn⟩ := hnext
          obtain ⟨u, hreach, hfree⟩ := ih (level n) (h.level_lt (TransGen.single hv) l n hl hn) v n hn rfl
          exact ⟨u, ReflTransGen.head hv hreach, hfree⟩
        · exact ⟨v, ReflTransGen.single hv, fun w ⟨n, hn, _⟩ => hnext ⟨n, hn⟩⟩
      · exact ⟨t, ReflTransGen.refl, fun v hv => hwaits ⟨v, hv⟩⟩
  cases hwants : wants t with
  | none => exact ⟨t, ReflTransGen.refl, fun v ⟨l, hl, _⟩ => by rw [hwants] at hl; cases hl⟩
  | some l => exact hlevel _ t l hwants rfl

end WaitFor
