import MikoV2.Alerting.Lines

/-!
# Where a text has its lines

Both renderings of an event are its event type and symbol, its time and its reason, written one way or the other.

* `Origins` : of which fields the characters of a text come;
* `body` : an event as a channel writes it; `renderOne_eq` : the renderings of the source are this;
* `Shown` : every line of every event is in a text; `shown_one`, `shown_batch` : so it is in both kinds of text.
-/

namespace MikoV2.Alerting

variable {u : Unicode} {P Q : Origin → Prop} {s t : Text} {c : Cell} {html : Bool} {gmtime : Gmtime}
  {item : ℕ} {ev : AlertEvent} {dupCount windowS : Option ℤ}

/-! ## Origins -/

/-- The characters of a text that come from fields are of these. -/
def Origins (P : Origin → Prop) (s : Text) : Prop := ∀ c ∈ s, ∀ o ∈ c.origin, P o

@[simp] theorem origins_nil : Origins P [] := nofun

@[simp] theorem origins_append : Origins P (s ++ t) ↔ Origins P s ∧ Origins P t := List.forall_mem_append

@[simp] theorem origins_blank : Origins P (blank :: s) ↔ Origins P s := by
  simp [Origins, blank]

@[simp] theorem origins_text (s : String) : Origins P (text s) := by
  intro c hc o ho
  obtain ⟨x, -, rfl⟩ := List.mem_map.mp hc
  cases ho

theorem Origins.mono (h : Origins P s) (hPQ : ∀ o, P o → Q o) : Origins Q s := fun c hc o ho => hPQ o (h c hc o ho)

theorem origins_fieldText (item : ℕ) (field : Field) (s : String) :
    Origins (fun o => o.item = item ∧ o.field = field) (fieldText item field s) := by
  intro c hc o ho
  obtain ⟨place, hlt, rfl⟩ := List.mem_mapIdx.mp hc
  rw [Option.mem_def, Option.some.injEq] at ho
  subst o
  exact ⟨rfl, rfl⟩

theorem origins_escape (h : Origins P s) : Origins P (escape s) := by
  intro c hc o ho
  have hpos := List.count_pos_iff.mpr hc
  have hle := (encoding_escape (u := Unicode.ascii)).count s c (by rw [Option.mem_def.mp ho]; rfl)
  exact h c (List.count_pos_iff.mp (by omega)) o ho

theorem Origins.not_mem (h : Origins P s) (ht : Origins Q t) (hPQ : ∀ o, P o → ¬ Q o) (hc : c.origin.isSome = true)
    (hmem : c ∈ s) : c ∉ t := by
  obtain ⟨o, ho⟩ := Option.isSome_iff_exists.mp hc
  exact fun hin => hPQ o (h c hmem o ho) (ht c hin o ho)

/-! ## The lines of an event -/

def firstLine (item : ℕ) (ev : AlertEvent) : Text := eventTypeText item ev ++ blank :: symbolText item ev

/-- A text shows the event type and the symbol side by side, and the reason by itself. -/
def lines (item : ℕ) (ev : AlertEvent) : List Text := [firstLine item ev, reasonText item ev]

theorem symbolText_cases (item : ℕ) (ev : AlertEvent) :
    symbolText item ev = text "-" ∨ ∃ s, symbolText item ev = fieldText item .symbol s := by
  unfold symbolText
  split
  · exact .inl rfl
  · split
    · exact .inl rfl
    · exact .inr ⟨_, rfl⟩

theorem origins_firstLine (item : ℕ) (ev : AlertEvent) :
    Origins (fun o => o.item = item ∧ o.field ≠ .reason) (firstLine item ev) := by
  have hfield : ∀ field s, field ≠ .reason →
      Origins (fun o => o.item = item ∧ o.field ≠ .reason) (fieldText item field s) :=
    fun field s hne => (origins_fieldText item field s).mono fun o ho => ⟨ho.1, ho.2 ▸ hne⟩
  refine origins_append.mpr ⟨hfield _ _ (by decide), origins_blank.mpr ?_⟩
  rcases symbolText_cases item ev with h | ⟨s, h⟩
  · rw [h]
    exact origins_text "-"
  · rw [h]
    exact hfield _ _ (by decide)

theorem origins_reasonText (item : ℕ) (ev : AlertEvent) :
    Origins (fun o => o.item = item ∧ o.field = .reason) (reasonText item ev) := origins_fieldText _ _ _

/-- How a channel writes a text. -/
def write (html : Bool) (s : Text) : Text := if html then escape s else s

def renderOne (html : Bool) (gmtime : Gmtime) (item : ℕ) (ev : AlertEvent) (dupCount windowS : Option ℤ) :
    Option Text :=
  if html then renderOneTelegram gmtime item ev dupCount windowS else renderOneDiscord gmtime item ev dupCount windowS

def opening (html : Bool) (ev : AlertEvent) : Text :=
  if html then text "<b>[" ++ escape (text ev.severity.text) ++ text "]</b>"
  else text "[" ++ text ev.severity.text ++ text "]"

def clock (html : Bool) (tm : String) : Text :=
  if html then text "<code>" ++ escape (text tm) ++ text "</code>" else text tm

def reasonPart (html : Bool) (item : ℕ) (ev : AlertEvent) : Text :=
  if reasonText item ev = [] then [] else text " —" ++ blank :: write html (reasonText item ev)

def body (html : Bool) (tm : String) (item : ℕ) (ev : AlertEvent) (dupCount windowS : Option ℤ) : Text :=
  opening html ev ++ blank :: (write html (firstLine item ev) ++
    blank :: (clock html tm ++ (reasonPart html item ev ++ dupSuffix dupCount windowS)))

theorem renderOne_eq (html : Bool) (gmtime : Gmtime) (item : ℕ) (ev : AlertEvent) (dupCount windowS : Option ℤ) :
    ∃ tm : Fin 24 × Fin 60 × Fin 60 → String, renderOne html gmtime item ev dupCount windowS =
      (gmtime ev.tsMs).map fun t => body html (tm t) item ev dupCount windowS := by
  have hblank : text " " = [blank] := rfl
  have hdash : text " — " = text " —" ++ [blank] := by decide
  have hsquare : text "] " = text "]" ++ [blank] := by decide
  have hbold : text "]</b> " = text "]</b>" ++ [blank] := by decide
  refine ⟨fun t => twoDigits t.1 ++ ":" ++ twoDigits t.2.1 ++ ":" ++ twoDigits t.2.2, ?_⟩
  have hline : escape (firstLine item ev) =
      escape (eventTypeText item ev) ++ blank :: escape (symbolText item ev) := by
    rw [firstLine, escape_append, escape_cons, escapeCell_plain (by decide)]
    rfl
  cases html with
  | true =>
    simp only [renderOne, renderOneTelegram, fmtTime, Option.map_map, if_true]
    congr 1
    funext t
    by_cases h : reasonText item ev = []
    · simp [body, opening, clock, reasonPart, write, hline, h, hblank, hbold]
    · simp [body, opening, clock, reasonPart, write, hline, h, hblank, hbold, hdash]
  | false =>
    simp only [renderOne, renderOneDiscord, fmtTime, Option.map_map, if_false, Bool.false_eq_true]
    congr 1
    funext t
    by_cases h : reasonText item ev = []
    · simp [body, opening, clock, reasonPart, write, firstLine, h, hblank, hsquare]
    · simp [body, opening, clock, reasonPart, write, firstLine, h, hblank, hsquare, hdash]

/-! ## Where the lines stand -/

theorem origins_write (h : Origins P s) : Origins P (write html s) := by
  cases html with
  | true => exact origins_escape h
  | false => exact h

theorem origins_opening : Origins P (opening html ev) := by
  cases html with
  | true => simp [opening, origins_escape]
  | false => simp [opening]

theorem origins_clock (tm : String) : Origins P (clock html tm) := by
  cases html with
  | true => simp [clock, origins_escape]
  | false => simp [clock]

theorem origins_dupSuffix : Origins P (dupSuffix dupCount windowS) := by
  unfold dupSuffix
  split
  · split <;> simp
  · exact origins_nil

theorem origins_reasonPart (html : Bool) (item : ℕ) (ev : AlertEvent) :
    Origins (fun o => o.item = item ∧ o.field = .reason) (reasonPart html item ev) := by
  unfold reasonPart
  split
  · exact origins_nil
  · simp [origins_write (origins_reasonText item ev)]

theorem origins_body (html : Bool) (tm : String) (item : ℕ) (ev : AlertEvent) (dupCount windowS : Option ℤ) :
    Origins (fun o => o.item = item) (body html tm item ev dupCount windowS) := by
  have hfirst := (origins_firstLine item ev).mono fun o h => h.1
  have hreason := (origins_reasonPart html item ev).mono fun o h => h.1
  simp [body, origins_opening, origins_clock, origins_dupSuffix, origins_write hfirst, hreason]

theorem dupSuffix_cases (dupCount windowS : Option ℤ) : dupSuffix dupCount windowS = [] ∨
    ∃ D, dupSuffix dupCount windowS = blank :: ⟨'[', none⟩ :: D := by
  unfold dupSuffix
  split
  · split
    · exact .inl rfl
    · exact .inr ⟨_, rfl⟩
  · exact .inl rfl

theorem Ends.spaced {D : Text} (h : Ends D) : D = [] ∨ ∃ c D', D = c :: D' ∧ c.char ∈ [' ', '\n'] := by
  rcases h with rfl | ⟨c, d, D', rfl, hc, -⟩
  · exact .inl rfl
  · exact .inr ⟨c, _, rfl, hc⟩

theorem once_of_origins {line C D : Text} (hline : Origins P line) (hC : Origins (fun o => ¬ P o) C)
    (hD : Origins (fun o => ¬ P o) D) : ∀ c ∈ line, c.origin.isSome = true → c ∉ C ∧ c ∉ D :=
  fun _ hin hc => ⟨hline.not_mem hC (fun _ h hnot => hnot h) hc hin, hline.not_mem hD (fun _ h hnot => hnot h) hc hin⟩

section Shown
variable {pre post : Text} (html : Bool) (tm : String) (dupCount windowS : Option ℤ)
  (hpre : Origins (fun o => o.item ≠ item) pre) (hpost : Origins (fun o => o.item ≠ item) post)
include hpre hpost

theorem firstLine_shows : ∃ C D, Shows (write html) (firstLine item ev)
    (pre ++ (body html tm item ev dupCount windowS ++ post)) C D ∧ (html = true → Ends D) := by
  refine ⟨pre ++ opening html ev,
    blank :: (clock html tm ++ (reasonPart html item ev ++ (dupSuffix dupCount windowS ++ post))), ⟨?_, ?_, ?_⟩, ?_⟩
  · simp [body]
  · exact .inr ⟨blank, _, rfl, by decide⟩
  · have hreason : Origins (fun o => ¬ (o.item = item ∧ o.field ≠ .reason)) (reasonPart html item ev) :=
      (origins_reasonPart html item ev).mono fun o h hnot => hnot.2 h.2
    have hother : ∀ {s : Text}, Origins (fun o => o.item ≠ item) s →
        Origins (fun o => ¬ (o.item = item ∧ o.field ≠ .reason)) s := fun h => h.mono fun o h hnot => h hnot.1
    refine once_of_origins (origins_firstLine item ev) ?_ ?_
    · exact origins_append.mpr ⟨hother hpre, origins_opening⟩
    · exact origins_blank.mpr (origins_append.mpr ⟨origins_clock tm, origins_append.mpr ⟨hreason, origins_append.mpr
        ⟨origins_dupSuffix, hother hpost⟩⟩⟩)
  · rintro rfl
    exact .inr ⟨blank, ⟨'<', none⟩, _, rfl, by decide, by decide⟩

theorem reasonText_shows (hend : Ends post) (hne : reasonText item ev ≠ []) : ∃ C D, Shows (write html)
    (reasonText item ev) (pre ++ (body html tm item ev dupCount windowS ++ post)) C D ∧ (html = true → Ends D) := by
  have hends : Ends (dupSuffix dupCount windowS ++ post) := by
    rcases dupSuffix_cases dupCount windowS with h | ⟨D, h⟩
    · rw [h]
      exact hend
    · rw [h]
      exact .inr ⟨blank, ⟨'[', none⟩, _, rfl, by decide, by decide⟩
  refine ⟨pre ++ (opening html ev ++ blank :: (write html (firstLine item ev) ++
    blank :: (clock html tm ++ text " —"))), dupSuffix dupCount windowS ++ post, ⟨?_, hends.spaced, ?_⟩, fun _ => hends⟩
  · simp [body, reasonPart, hne]
  · have hfirst : Origins (fun o => ¬ (o.item = item ∧ o.field = .reason)) (write html (firstLine item ev)) :=
      origins_write ((origins_firstLine item ev).mono fun o h hnot => h.2 hnot.2)
    have hother : ∀ {s : Text}, Origins (fun o => o.item ≠ item) s →
        Origins (fun o => ¬ (o.item = item ∧ o.field = .reason)) s := fun h => h.mono fun o h hnot => h hnot.1
    refine once_of_origins (origins_reasonText item ev) ?_ ?_
    · exact origins_append.mpr ⟨hother hpre, origins_append.mpr ⟨origins_opening, origins_blank.mpr (origins_append.mpr
        ⟨hfirst, origins_blank.mpr (origins_append.mpr ⟨origins_clock tm, origins_text _⟩)⟩)⟩⟩
    · exact origins_append.mpr ⟨origins_dupSuffix, hother hpost⟩

/-- A text that has the text of an event in it has its lines. -/
theorem body_shows (hend : Ends post) : ∀ line ∈ lines item ev, line ≠ [] → ∃ C D,
    Shows (write html) line (pre ++ (body html tm item ev dupCount windowS ++ post)) C D ∧ (html = true → Ends D) := by
  intro line hline hne
  simp only [lines, List.mem_cons, List.not_mem_nil, or_false] at hline
  rcases hline with rfl | rfl
  · exact firstLine_shows html tm dupCount windowS hpre hpost
  · exact reasonText_shows html tm dupCount windowS hpre hpost hend hne

end Shown

/-! ## Entities -/

theorem entities_cons (hc : c.char ≠ '&') (hs : Entities s) : Entities (c :: s) := ⟨fun h => absurd h hc, hs⟩

theorem digits_plain (n : ℕ) : ∀ c ∈ (toString n).toList, c ≠ '&' := by
  intro c hc
  rw [show toString n = n.repr from rfl, Nat.toList_repr] at hc
  have hdigit := Nat.isDigit_of_mem_toDigits (by decide) (by decide) hc
  rintro rfl
  cases hdigit

theorem number_plain (n : ℤ) : ∀ c ∈ (toString n).toList, c ≠ '&' := by
  intro c hc
  rw [show toString n = n.repr from rfl] at hc
  cases n with
  | ofNat m => exact digits_plain m c hc
  | negSucc m =>
    rw [Int.repr, String.toList_append, List.mem_append] at hc
    rcases hc with hc | hc
    · exact (by decide : ∀ c ∈ "-".toList, c ≠ '&') c hc
    · exact digits_plain (m + 1) c hc

theorem entities_text {s : String} (hs : ∀ c ∈ s.toList, c ≠ '&') : Entities (text s) := by
  refine entities_plain fun c hc => ?_
  obtain ⟨x, hx, rfl⟩ := List.mem_map.mp hc
  exact hs x hx

theorem entities_dupSuffix : Entities (dupSuffix dupCount windowS) := by
  unfold dupSuffix
  split
  · split
    · trivial
    · exact entities_append (entities_append (entities_append (entities_append (entities_text (by decide))
        (entities_text (number_plain _))) (entities_text (by decide))) (entities_text (number_plain _)))
        (entities_text (by decide))
  · trivial

theorem entities_body (tm : String) : Entities (body true tm item ev dupCount windowS) := by
  have hblank : blank.char ≠ '&' := by decide
  have hopening : Entities (opening true ev) :=
    entities_append (entities_append (entities_text (by decide)) (entities_escape _)) (entities_text (by decide))
  have hclock : Entities (clock true tm) :=
    entities_append (entities_append (entities_text (by decide)) (entities_escape _)) (entities_text (by decide))
  have hreason : Entities (reasonPart true item ev) := by
    unfold reasonPart
    split
    · trivial
    · exact entities_append (entities_text (by decide)) (entities_cons hblank (entities_escape _))
  exact entities_append hopening (entities_cons hblank (entities_append (entities_escape _)
    (entities_cons hblank (entities_append hclock (entities_append hreason entities_dupSuffix)))))

/-! ## Every line of every event -/

/-- A text has the lines of all the events. -/
structure Shown (html : Bool) (items : Items) (s : Text) : Prop where
  entities : html = true → Entities s
  shows : ∀ item ∈ items.zipIdx 1, ∀ line ∈ lines item.2 item.1.1, line ≠ [] → ∃ C D,
    Shows (write html) line s C D ∧ (html = true → Ends D)

theorem renderOne_some (h : renderOne html gmtime item ev dupCount windowS = some s) :
    ∃ tm, s = body html tm item ev dupCount windowS := by
  obtain ⟨tm, hbody⟩ := renderOne_eq html gmtime item ev dupCount windowS
  rw [hbody, Option.map_eq_some_iff] at h
  obtain ⟨t, -, rfl⟩ := h
  exact ⟨tm t, rfl⟩

theorem renderOne_none : renderOne html gmtime item ev dupCount windowS = none ↔ gmtime ev.tsMs = none := by
  obtain ⟨tm, hbody⟩ := renderOne_eq html gmtime item ev dupCount windowS
  rw [hbody, Option.map_eq_none_iff]

theorem shown_one (h : renderOne html gmtime 1 ev dupCount windowS = some s) : Shown html [(ev, dupCount)] s := by
  obtain ⟨tm, rfl⟩ := renderOne_some h
  refine ⟨?_, ?_⟩
  · rintro rfl
    exact entities_body tm
  · intro item hitem line hline hne
    obtain rfl : item = ((ev, dupCount), 1) := by simpa using hitem
    obtain ⟨C, D, hshow, hends⟩ := body_shows html tm dupCount windowS origins_nil origins_nil (.inl rfl) line hline
      hne
    rw [List.nil_append, List.append_nil] at hshow
    exact ⟨C, D, hshow, hends⟩

/-! ## Batches -/

section MapM
variable {α β : Type} {f : α → Option β} {x : α} {xs A B : List α} {y : β} {ys : List β}

theorem mapM_split (h : (A ++ x :: B).mapM f = some ys) : ∃ ys₁ y ys₂, ys = ys₁ ++ y :: ys₂ ∧ A.mapM f = some ys₁ ∧
    f x = some y ∧ B.mapM f = some ys₂ := by
  rw [List.mapM_append, List.mapM_cons] at h
  obtain ⟨ys₁, h₁, h⟩ := Option.bind_eq_some_iff.mp h
  obtain ⟨zs, hzs, h⟩ := Option.bind_eq_some_iff.mp h
  obtain ⟨y, hy, hzs⟩ := Option.bind_eq_some_iff.mp hzs
  obtain ⟨ys₂, h₂, hzs⟩ := Option.bind_eq_some_iff.mp hzs
  cases Option.some.inj hzs
  exact ⟨ys₁, y, ys₂, (Option.some.inj h).symm, h₁, hy, h₂⟩

theorem mem_mapM (h : xs.mapM f = some ys) (hy : y ∈ ys) : ∃ x ∈ xs, f x = some y := by
  induction xs generalizing ys with
  | nil =>
    cases Option.some.inj h
    cases hy
  | cons x xs ih =>
    obtain ⟨_ | ⟨z, zs⟩, y', ys₂, rfl, h₁, hx, h₂⟩ := mapM_split (A := []) h
    · rcases List.mem_cons.mp hy with rfl | hy
      · exact ⟨x, List.mem_cons_self, hx⟩
      · obtain ⟨x', hx', hfx⟩ := ih h₂ hy
        exact ⟨x', List.mem_cons_of_mem _ hx', hfx⟩
    · cases h₁

theorem mapM_none : xs.mapM f = none ↔ ∃ x ∈ xs, f x = none := by
  induction xs with
  | nil => simp
  | cons x xs ih =>
    rw [List.mapM_cons, List.exists_mem_cons_iff, ← ih]
    cases hx : f x with
    | none => simp
    | some y => cases hxs : xs.mapM f <;> simp

end MapM

theorem intercalate_cons {α : Type} (sep a : List α) (rest : List (List α)) :
    sep.intercalate (a :: rest) = a ++ rest.flatMap (sep ++ ·) := by
  induction rest generalizing a with
  | nil => simp
  | cons b rest ih => rw [List.intercalate_cons_cons, ih, List.flatMap_cons, List.append_assoc, List.append_assoc]

/-- What a batch says before the events. -/
def batchHead (html : Bool) (items : Items) : List Text :=
  (if html then text "<b>" ++ escape (batchHeader items).1 ++ text "</b>" else (batchHeader items).1) ::
    if (batchHeader items).2 = [] then [] else [write html (batchHeader items).2]

theorem origins_flatMap {sep : Text} {l : List Text} (hsep : Origins P sep) (hl : ∀ s ∈ l, Origins P s) :
    Origins P (l.flatMap (sep ++ ·)) := by
  induction l with
  | nil => exact origins_nil
  | cons s l ih =>
    rw [List.forall_mem_cons] at hl
    simp [hsep, hl.1, ih hl.2]

theorem entities_flatMap {sep : Text} {l : List Text} (hsep : Entities sep) (hl : ∀ s ∈ l, Entities s) :
    Entities (l.flatMap (sep ++ ·)) := by
  induction l with
  | nil => trivial
  | cons s l ih =>
    rw [List.forall_mem_cons] at hl
    exact entities_append (entities_append hsep hl.1) (ih hl.2)

theorem origins_batchHeader (items : Items) : Origins P (batchHeader items).1 ∧ Origins P (batchHeader items).2 := by
  refine ⟨by simp [batchHeader], ?_⟩
  have hall : ∀ s ∈ (severityCounts items).map fun k => text k.1.text ++ text ": " ++ text (toString k.2),
      Origins P s := by
    intro s hs
    obtain ⟨k, -, rfl⟩ := List.mem_map.mp hs
    simp
  unfold batchHeader
  cases h : (severityCounts items).map fun k => text k.1.text ++ text ": " ++ text (toString k.2) with
  | nil => exact origins_nil
  | cons a rest =>
    rw [h, List.forall_mem_cons] at hall
    simp only [intercalate_cons, origins_append]
    exact ⟨hall.1, origins_flatMap (origins_text _) hall.2⟩

theorem origins_batchHead (html : Bool) (items : Items) : ∀ s ∈ batchHead html items, Origins P s := by
  obtain ⟨hheader, hsummary⟩ := origins_batchHeader (P := P) items
  rw [batchHead, List.forall_mem_cons]
  refine ⟨?_, fun s hs => ?_⟩
  · split
    · simp [origins_escape hheader]
    · exact hheader
  · split at hs
    · cases hs
    · rw [List.mem_singleton.mp hs]
      exact origins_write hsummary

theorem entities_batchHead (items : Items) : ∀ s ∈ batchHead true items, Entities s := by
  rw [batchHead, List.forall_mem_cons]
  refine ⟨?_, fun s hs => ?_⟩
  · exact entities_append (entities_append (entities_text (by decide)) (entities_escape _)) (entities_text (by decide))
  · split at hs
    · cases hs
    · rw [List.mem_singleton.mp hs]
      exact entities_escape _

section Batch
variable {items : Items} {bodies : List Text}

/-- The line of an event in a batch. -/
theorem numbered_some {x : (AlertEvent × Option ℤ) × ℕ}
    (h : ((renderOne html gmtime x.2 x.1.1 x.1.2 windowS).map fun body =>
      text "#" ++ text (toString x.2) ++ text " " ++ body) = some s) :
    ∃ tm, s = ⟨'#', none⟩ :: (text (toString x.2) ++ blank :: body html tm x.2 x.1.1 x.1.2 windowS) := by
  obtain ⟨b, hb, rfl⟩ := Option.map_eq_some_iff.mp h
  obtain ⟨tm, rfl⟩ := renderOne_some hb
  exact ⟨tm, by simp [text, blank]⟩

/-- What the lines of other events have comes from other events. -/
theorem origins_numbered {n : ℕ} {l : List ((AlertEvent × Option ℤ) × ℕ)} (hl : ∀ y ∈ l, y.2 ≠ n)
    (h : (l.mapM fun x => (renderOne html gmtime x.2 x.1.1 x.1.2 windowS).map fun body =>
      text "#" ++ text (toString x.2) ++ text " " ++ body) = some bodies) :
    ∀ s ∈ bodies, Origins (fun o => o.item ≠ n) s := by
  intro s hs
  obtain ⟨y, hy, hys⟩ := mem_mapM h hs
  obtain ⟨tm, rfl⟩ := numbered_some hys
  have hbody := (origins_body html tm y.2 y.1.1 y.1.2 windowS).mono (Q := fun o => o.item ≠ n) fun o ho => ho ▸ hl y hy
  have hhash : Origins (fun o => o.item ≠ n) (text "#" ++ (text (toString y.2) ++
      blank :: body html tm y.2 y.1.1 y.1.2 windowS)) := by
    simp [hbody]
  exact hhash

/-- After an event's line comes the number of the next. -/
theorem ends_numbered {l : List ((AlertEvent × Option ℤ) × ℕ)}
    (h : (l.mapM fun x => (renderOne html gmtime x.2 x.1.1 x.1.2 windowS).map fun body =>
      text "#" ++ text (toString x.2) ++ text " " ++ body) = some bodies) : Ends (bodies.flatMap (text "\n" ++ ·)) := by
  cases bodies with
  | nil => exact .inl rfl
  | cons s bodies =>
    obtain ⟨y, -, hy⟩ := mem_mapM h List.mem_cons_self
    obtain ⟨tm, rfl⟩ := numbered_some hy
    exact .inr ⟨⟨'\n', none⟩, ⟨'#', none⟩, _, rfl, by decide, by decide⟩

theorem entities_batch
    (h : batchLines (fun item ev count => renderOne true gmtime item ev count windowS) items = some bodies) :
    ∀ s ∈ batchHead true items ++ bodies, Entities s := by
  intro s hs
  rcases List.mem_append.mp hs with hs | hs
  · exact entities_batchHead items s hs
  · obtain ⟨x, -, hx⟩ := mem_mapM h hs
    obtain ⟨tm, rfl⟩ := numbered_some hx
    exact entities_cons (by decide) (entities_append (entities_text (digits_plain _))
      (entities_cons (by decide) (entities_body tm)))

theorem shown_batch
    (h : batchLines (fun item ev count => renderOne html gmtime item ev count windowS) items = some bodies) :
    Shown html items ((text "\n").intercalate (batchHead html items ++ bodies)) := by
  obtain ⟨header, summary, hhead⟩ : ∃ header summary, batchHead html items = header :: summary := ⟨_, _, rfl⟩
  have hline : text "\n" = [⟨'\n', none⟩] := rfl
  rw [hhead, List.cons_append, intercalate_cons]
  refine ⟨?_, ?_⟩
  · rintro rfl
    have hall := entities_batch h
    rw [hhead, List.cons_append, List.forall_mem_cons] at hall
    exact entities_append hall.1 (entities_flatMap (entities_text (by decide)) hall.2)
  · intro x hx line hmem hne
    obtain ⟨A, B, hAB⟩ := List.append_of_mem hx
    rw [batchLines, hAB] at h
    obtain ⟨before, s, after, rfl, hbefore, hs, hafter⟩ := mapM_split h
    obtain ⟨tm, rfl⟩ := numbered_some hs
    have hnodup : ((items.zipIdx 1).map Prod.snd).Nodup := by
      rw [List.zipIdx_map_snd]
      exact List.nodup_range'
    rw [hAB, List.map_append, List.map_cons, List.nodup_append, List.nodup_cons] at hnodup
    -- the events before this one and after it have other numbers
    have hbegin := origins_batchHead (P := fun o => o.item ≠ x.2) html items
    rw [hhead, List.forall_mem_cons] at hbegin
    have hpre : Origins (fun o => o.item ≠ x.2) (header ++ ((summary ++ before).flatMap (text "\n" ++ ·) ++
        (text "\n" ++ (text "#" ++ (text (toString x.2) ++ [blank]))))) := by
      have hall : ∀ s ∈ summary ++ before, Origins (fun o => o.item ≠ x.2) s := List.forall_mem_append.mpr
        ⟨hbegin.2,
        origins_numbered (fun y hy heq => hnodup.2.2 _ (List.mem_map_of_mem hy) _ List.mem_cons_self heq) hbefore⟩
      exact origins_append.mpr ⟨hbegin.1, origins_append.mpr ⟨origins_flatMap (origins_text _) hall, by simp⟩⟩
    have hpost : Origins (fun o => o.item ≠ x.2) (after.flatMap (text "\n" ++ ·)) := origins_flatMap (origins_text _)
      (origins_numbered (fun y hy heq => hnodup.2.1.1 (heq ▸ List.mem_map_of_mem hy)) hafter)
    obtain ⟨C, D, hshow, hends⟩ := body_shows html tm x.1.2 windowS hpre hpost (ends_numbered hafter) line hmem hne
    refine ⟨C, D, ?_, hends⟩
    convert hshow using 1
    simp [text]

end Batch

end MikoV2.Alerting
