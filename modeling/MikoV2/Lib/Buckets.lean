import Mathlib.Order.Lattice
import Mathlib.Data.List.Induction
import Mathlib.Tactic.Common

/-!
# Streaming into buckets

Events with a key arrive one by one. The open bucket takes the events of its key; an event of a larger key closes
it and opens the next one; an event of a smaller key is late and dropped.

* `Buckets`, `feed`, `ofEvents` : the machine;
* `onTime` : the events that are not late: no event before them has a larger key; `onTime_of_sorted`;
* `Spec` : the buckets are the events on time, cut where the key changes; `spec_ofEvents`;
* `Spec.eq_filter` : a bucket is all the events on time of its key;
* `Spec.mem_closed_iff` : an event on time is in a closed bucket when a larger key has arrived.
-/

namespace Stream

variable {ε κ : Type} [LinearOrder κ] (key : ε → κ)

/-- The closed buckets, oldest first, and the open one, empty before the first event. -/
structure Buckets (ε : Type) where
  closed : List (List ε) := []
  active : List ε := []

def feed (b : Buckets ε) (e : ε) : Buckets ε :=
  match b.active with
  | [] => { b with active := [e] }
  | a :: as =>
    if key a < key e then ⟨b.closed ++ [a :: as], [e]⟩
    else if key e = key a then { b with active := a :: as ++ [e] }
    else b

def ofEvents (evs : List ε) : Buckets ε := evs.foldl (feed key) {}

/-- The events of the list that are not late, after the events `seen`. -/
def onTimeAfter (seen : List ε) : List ε → List ε
  | [] => []
  | e :: evs => (if ∀ x ∈ seen, key x ≤ key e then [e] else []) ++ onTimeAfter (seen ++ [e]) evs

/-- The events that are not late: no event before them has a larger key. -/
def onTime (evs : List ε) : List ε := onTimeAfter key [] evs

variable {key} {evs : List ε} {b : Buckets ε} {e : ε}

theorem onTimeAfter_append (evs : List ε) : ∀ (seen : List ε) (e : ε),
    onTimeAfter key seen (evs ++ [e]) =
      onTimeAfter key seen evs ++ if ∀ x ∈ seen ++ evs, key x ≤ key e then [e] else [] := by
  induction evs with
  | nil =>
    intro seen e
    simp [onTimeAfter]
  | cons a evs ih =>
    intro seen e
    rw [List.cons_append, onTimeAfter, ih, onTimeAfter, List.append_assoc, List.append_assoc, List.singleton_append]

theorem onTime_append (evs : List ε) (e : ε) :
    onTime key (evs ++ [e]) = onTime key evs ++ if ∀ x ∈ evs, key x ≤ key e then [e] else [] :=
  onTimeAfter_append evs [] e

theorem mem_of_mem_onTimeAfter (evs : List ε) : ∀ (seen : List ε), e ∈ onTimeAfter key seen evs → e ∈ evs := by
  induction evs with
  | nil => exact fun seen h => h
  | cons a evs ih =>
    intro seen h
    rw [onTimeAfter, List.mem_append] at h
    rcases h with h | h
    · split at h
      · exact List.mem_cons.mpr (Or.inl (List.mem_singleton.mp h))
      · cases h
    · exact List.mem_cons_of_mem a (ih _ h)

theorem mem_of_mem_onTime (h : e ∈ onTime key evs) : e ∈ evs := mem_of_mem_onTimeAfter evs [] h

/-- No event of a sorted list is late. -/
theorem onTime_of_sorted (h : evs.Pairwise fun e e' => key e ≤ key e') : onTime key evs = evs := by
  induction evs using List.reverseRecOn with
  | nil => rfl
  | append_singleton evs e ih =>
    obtain ⟨hevs, -, hlast⟩ := List.pairwise_append.mp h
    rw [onTime_append, ih hevs, if_pos fun x hx => hlast x hx e (List.mem_singleton_self e)]

/-- The buckets are the events on time, cut where the key changes, and the open one has the newest key. -/
structure Spec (key : ε → κ) (evs : List ε) (b : Buckets ε) : Prop where
  flatten : b.closed.flatten ++ b.active = onTime key evs
  nonempty : ∀ g ∈ b.closed, g ≠ []
  constant : ∀ g ∈ b.closed ++ [b.active], ∀ e ∈ g, ∀ e' ∈ g, key e = key e'
  sorted : (b.closed ++ [b.active]).Pairwise fun g g' => ∀ e ∈ g, ∀ e' ∈ g', key e < key e'
  newest : ∀ e ∈ evs, ∃ a ∈ b.active, key e ≤ key a

theorem Spec.nil : Spec key [] ({} : Buckets ε) :=
  ⟨rfl, by simp, by simp, by simp, by simp⟩

theorem feed_of_later {a : ε} {as : List ε} (hb : b.active = a :: as) (h : key a < key e) :
    feed key b e = ⟨b.closed ++ [b.active], [e]⟩ := by
  unfold feed
  rw [hb]
  exact if_pos h

theorem feed_of_same {a : ε} {as : List ε} (hb : b.active = a :: as) (h : key e = key a) :
    feed key b e = { b with active := b.active ++ [e] } := by
  unfold feed
  rw [hb]
  dsimp only
  rw [if_neg (not_lt_of_ge h.le), if_pos h]

theorem feed_of_late {a : ε} {as : List ε} (hb : b.active = a :: as) (h : key e < key a) : feed key b e = b := by
  unfold feed
  rw [hb]
  dsimp only
  rw [if_neg (not_lt_of_ge h.le), if_neg h.ne]

/-- Nothing has arrived while no bucket is open. -/
theorem Spec.eq_nil (h : Spec key evs b) (hb : b.active = []) : evs = [] ∧ b.closed = [] := by
  have hevs : evs = [] := by
    refine List.eq_nil_iff_forall_not_mem.mpr fun x hx => ?_
    obtain ⟨a, ha, -⟩ := h.newest x hx
    rw [hb] at ha
    cases ha
  have hflat := h.flatten
  rw [hb, hevs] at hflat
  refine ⟨hevs, List.eq_nil_iff_forall_not_mem.mpr fun g hg => h.nonempty g hg ?_⟩
  exact List.flatten_eq_nil_iff.mp (List.append_eq_nil_iff.mp hflat).1 g hg

/-- Every event of the open bucket has its key, which no event exceeds. -/
theorem Spec.active_key (h : Spec key evs b) {a : ε} (ha : a ∈ b.active) :
    (∀ x ∈ b.active, key x = key a) ∧ (∀ x ∈ evs, key x ≤ key a) ∧ ∀ g ∈ b.closed, ∀ x ∈ g, key x < key a := by
  have hactive : ∀ x ∈ b.active, key x = key a := fun x hx =>
    h.constant b.active (List.mem_append_right _ (List.mem_singleton_self _)) x hx a ha
  refine ⟨hactive, fun x hx => ?_, fun g hg x hx => ?_⟩
  · obtain ⟨y, hy, hxy⟩ := h.newest x hx
    rw [hactive y hy] at hxy
    exact hxy
  · exact (List.pairwise_append.mp h.sorted).2.2 g hg b.active (List.mem_singleton_self _) x hx a ha

/-- The first event. -/
theorem Spec.feed_first (h : Spec key evs b) (hb : b.active = []) (e : ε) :
    Spec key (evs ++ [e]) { b with active := [e] } := by
  obtain ⟨hevs, hclosed⟩ := h.eq_nil hb
  rw [hevs, hclosed]
  exact ⟨by simp [onTime, onTimeAfter], by simp, by simp, by simp, by simp⟩

/-- A late event. -/
theorem Spec.feed_late (h : Spec key evs b) {a : ε} (ha : a ∈ b.active) (hlt : key e < key a) :
    Spec key (evs ++ [e]) b := by
  have hlate : ¬ ∀ x ∈ evs, key x ≤ key e := by
    intro hall
    have hmem : a ∈ onTime key evs := by
      rw [← h.flatten]
      exact List.mem_append_right _ ha
    exact absurd (hall a (mem_of_mem_onTime hmem)) (not_le_of_gt hlt)
  refine ⟨?_, h.nonempty, h.constant, h.sorted, fun x hx => ?_⟩
  · rw [onTime_append, if_neg hlate, List.append_nil, h.flatten]
  · rcases List.mem_append.mp hx with hx | hx
    · exact h.newest x hx
    · rw [List.mem_singleton.mp hx]
      exact ⟨a, ha, hlt.le⟩

/-- An event of the open bucket's key. -/
theorem Spec.feed_same (h : Spec key evs b) {a : ε} (ha : a ∈ b.active) (heq : key e = key a) :
    Spec key (evs ++ [e]) { b with active := b.active ++ [e] } := by
  obtain ⟨hactive, hle, hclosed⟩ := h.active_key ha
  have hall : ∀ x ∈ evs, key x ≤ key e := fun x hx => heq ▸ hle x hx
  have hkeys : ∀ x ∈ b.active ++ [e], key x = key a := by
    intro x hx
    rcases List.mem_append.mp hx with hx | hx
    · exact hactive x hx
    · rw [List.mem_singleton.mp hx, heq]
  refine ⟨?_, h.nonempty, fun g hg x hx y hy => ?_, ?_, fun x hx => ?_⟩
  · rw [onTime_append, if_pos hall, ← h.flatten, List.append_assoc]
  · rcases List.mem_append.mp hg with hg | hg
    · exact h.constant g (List.mem_append_left _ hg) x hx y hy
    · rw [List.mem_singleton.mp hg] at hx hy
      rw [hkeys x hx, hkeys y hy]
  · have hsort := List.pairwise_append.mp h.sorted
    refine List.pairwise_append.mpr ⟨hsort.1, List.pairwise_singleton _ _, fun g hg g' hg' x hx y hy => ?_⟩
    rw [List.mem_singleton.mp hg'] at hy
    rw [hkeys y hy]
    exact hclosed g hg x hx
  · refine ⟨a, List.mem_append_left _ ha, ?_⟩
    rcases List.mem_append.mp hx with hx | hx
    · exact hle x hx
    · rw [List.mem_singleton.mp hx, heq]

/-- An event of a larger key. -/
theorem Spec.feed_later (h : Spec key evs b) {a : ε} (ha : a ∈ b.active) (hgt : key a < key e) :
    Spec key (evs ++ [e]) ⟨b.closed ++ [b.active], [e]⟩ := by
  obtain ⟨hactive, hle, hclosed⟩ := h.active_key ha
  have hall : ∀ x ∈ evs, key x ≤ key e := fun x hx => (hle x hx).trans hgt.le
  refine ⟨?_, fun g hg => ?_, fun g hg x hx y hy => ?_, ?_, fun x hx => ⟨e, List.mem_singleton_self e, ?_⟩⟩
  · rw [onTime_append, if_pos hall, ← h.flatten, List.flatten_append, List.flatten_singleton]
  · rcases List.mem_append.mp hg with hg | hg
    · exact h.nonempty g hg
    · rw [List.mem_singleton.mp hg]
      exact List.ne_nil_of_mem ha
  · rcases List.mem_append.mp hg with hg | hg
    · exact h.constant g hg x hx y hy
    · rw [List.mem_singleton.mp hg] at hx hy
      rw [List.mem_singleton.mp hx, List.mem_singleton.mp hy]
  · refine List.pairwise_append.mpr ⟨h.sorted, List.pairwise_singleton _ _, fun g hg g' hg' x hx y hy => ?_⟩
    rw [List.mem_singleton.mp hg'] at hy
    rw [List.mem_singleton.mp hy]
    rcases List.mem_append.mp hg with hg | hg
    · exact (hclosed g hg x hx).trans hgt
    · rw [List.mem_singleton.mp hg] at hx
      rw [hactive x hx]
      exact hgt
  · rcases List.mem_append.mp hx with hx | hx
    · exact hall x hx
    · rw [List.mem_singleton.mp hx]

theorem Spec.feed (h : Spec key evs b) (e : ε) : Spec key (evs ++ [e]) (feed key b e) := by
  cases hb : b.active with
  | nil =>
    have hfeed : Stream.feed key b e = { b with active := [e] } := by
      unfold Stream.feed
      rw [hb]
    rw [hfeed]
    exact h.feed_first hb e
  | cons a as =>
    have ha : a ∈ b.active := by rw [hb]; exact List.mem_cons_self
    rcases lt_trichotomy (key e) (key a) with hlt | heq | hgt
    · rw [feed_of_late hb hlt]
      exact h.feed_late ha hlt
    · rw [feed_of_same hb heq]
      exact h.feed_same ha heq
    · rw [feed_of_later hb hgt]
      exact h.feed_later ha hgt

/-- **The machine cuts the events on time into buckets.** -/
theorem spec_ofEvents (key : ε → κ) (evs : List ε) : Spec key evs (ofEvents key evs) := by
  induction evs using List.reverseRecOn with
  | nil => exact .nil
  | append_singleton evs e ih =>
    rw [ofEvents, List.foldl_append]
    exact ih.feed e

theorem ofEvents_append (key : ε → κ) (evs : List ε) (e : ε) :
    ofEvents key (evs ++ [e]) = feed key (ofEvents key evs) e := List.foldl_append

/-- A bucket is all the events on time of its key. -/
theorem Spec.eq_filter (h : Spec key evs b) {g : List ε} (hg : g ∈ b.closed ++ [b.active]) (he : e ∈ g) :
    g = (onTime key evs).filter fun x => key x = key e := by
  have hflat : onTime key evs = (b.closed ++ [b.active]).flatten := by
    rw [List.flatten_append, List.flatten_singleton, h.flatten]
  obtain ⟨l, r, hlr⟩ := List.append_of_mem hg
  have hconst := h.constant
  have hsort := h.sorted
  rw [hlr] at hconst hsort
  rw [List.pairwise_append, List.pairwise_cons] at hsort
  obtain ⟨-, ⟨hright, -⟩, hleft⟩ := hsort
  have hl : l.flatten.filter (fun x => key x = key e) = [] := by
    rw [List.filter_eq_nil_iff]
    intro x hx
    obtain ⟨g', hg', hxg⟩ := List.mem_flatten.mp hx
    have hlt := hleft g' hg' g List.mem_cons_self x hxg e he
    simp [hlt.ne]
  have hr : r.flatten.filter (fun x => key x = key e) = [] := by
    rw [List.filter_eq_nil_iff]
    intro x hx
    obtain ⟨g', hg', hxg⟩ := List.mem_flatten.mp hx
    have hlt := hright g' hg' e he x hxg
    simp [hlt.ne']
  have hmid : g.filter (fun x => key x = key e) = g := by
    rw [List.filter_eq_self]
    intro x hx
    simp [hconst g (List.mem_append_right _ List.mem_cons_self) x hx e he]
  rw [hflat, hlr, List.flatten_append, List.flatten_cons, List.filter_append, List.filter_append, hl, hr, hmid,
    List.nil_append, List.append_nil]

/-- An event on time is in a closed bucket, unless its key is the newest of all. -/
theorem Spec.mem_closed_iff (h : Spec key evs b) (he : e ∈ onTime key evs) :
    (∃ g ∈ b.closed, e ∈ g) ↔ ∃ x ∈ evs, key e < key x := by
  constructor
  · rintro ⟨g, hg, heg⟩
    have hevs : e ∈ evs := mem_of_mem_onTime he
    obtain ⟨a, ha, -⟩ := h.newest e hevs
    have hlt := (List.pairwise_append.mp h.sorted).2.2 g hg b.active (List.mem_singleton_self _) e heg a ha
    have hmem : a ∈ onTime key evs := by
      rw [← h.flatten]
      exact List.mem_append_right _ ha
    exact ⟨a, mem_of_mem_onTime hmem, hlt⟩
  · rintro ⟨x, hx, hlt⟩
    rw [← h.flatten, List.mem_append, List.mem_flatten] at he
    rcases he with he | he
    · exact he
    · obtain ⟨a, ha, hle⟩ := h.newest x hx
      have hsame := h.constant b.active (List.mem_append_right _ (List.mem_singleton_self _)) e he a ha
      exact absurd (hlt.trans_le hle) (hsame ▸ lt_irrefl _)

end Stream
