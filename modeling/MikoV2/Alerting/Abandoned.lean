import MikoV2.Alerting.Progress
import MikoV2.Lib.Loop

/-!
# Rows that are left behind

`_post_telegram` and `_post_discord` answer for a time-out and for an error of the client. Any other exception leaves
the delivery, and so does the cancellation of the loop by `stop`; the rows that it had claimed stay `sending`.

* `AttemptRaises` : when a delivery raises, by how its posts end; `attempt_raised_iff`;
* `Attended` : only a delivery in flight has rows in `sending`; `CutShort` : a delivery that raises;
* `attended_iff_uncut` : the runs in which no row is left behind.
-/

namespace MikoV2.Alerting
open Circuit AlertAgent AlertDb

/-! ## When a delivery raises -/

/-- A post with a status that a channel takes as success. -/
def Accepted : PostEnd → Prop
  | .answered status _ => 200 ≤ status ∧ status < 300
  | .networkError => False
  | .raises => False

/-- A post that fails, with an answer or with an error that is expected. -/
def Refused : PostEnd → Prop
  | .answered status _ => ¬ (200 ≤ status ∧ status < 300)
  | .networkError => True
  | .raises => False

/-- A post that the round makes ends so: that of Discord is made when that of Telegram is accepted. -/
def RoundMeets (cfg : AlertConfig) (ends : PostEnd → Prop) (a : RoundAnswers) : Prop :=
  (cfg.telegramEnabled ∧ ends a.telegram) ∨
    ((cfg.telegramEnabled → Accepted a.telegram) ∧ cfg.discordEnabled ∧ ends a.discord)

/-- A post of a round raises, and the rounds before it have failed. -/
def AttemptRaises (cfg : AlertConfig) (answers : ℕ → RoundAnswers) : Prop :=
  ∃ k < cfg.retryMax, RoundMeets cfg (· = .raises) (answers k) ∧ ∀ j < k, RoundMeets cfg Refused (answers j)

section Attempts
variable {cfg : AlertConfig} {answers : ℕ → RoundAnswers} {a : RoundAnswers} {channel : Channel} {html : Bool}
  {answer : PostEnd} {next : List Post × RoundEnd}

/-- The three ways of a post. -/
theorem postOne_cases (channel : Channel) (html : Bool) (answer : PostEnd) (next : List Post × RoundEnd) :
    (Accepted answer ∧ (postOne channel html answer next).2 = next.2) ∨
      (Refused answer ∧ ∃ status error retryAfter,
        (postOne channel html answer next).2 = .failed status error retryAfter) ∨
      (answer = .raises ∧ (postOne channel html answer next).2 = .raised) := by
  cases answer with
  | answered status retryAfter =>
    by_cases hok : 200 ≤ status ∧ status < 300
    · exact .inl ⟨hok, by simp [postOne, postResult, hok]⟩
    · refine .inr (.inl ⟨hok, ?_⟩)
      simp [postOne, postResult, hok]
  | networkError => exact .inr (.inl ⟨trivial, by simp [postOne, postResult]⟩)
  | raises => exact .inr (.inr ⟨rfl, rfl⟩)

theorem not_refused_of_accepted (h : Accepted answer) : ¬ Refused answer := by
  cases answer with
  | answered status retryAfter => exact fun hrefused => hrefused h
  | networkError => exact fun _ => h
  | raises => exact fun hrefused => hrefused

theorem accepted_ne_raises (h : Accepted answer) : answer ≠ .raises := by
  rintro rfl
  exact h

theorem refused_ne_raises (h : Refused answer) : answer ≠ .raises := by
  rintro rfl
  exact h

theorem postOne_raised : (postOne channel html answer next).2 = .raised ↔
    answer = .raises ∨ (Accepted answer ∧ next.2 = .raised) := by
  obtain ⟨hok, heq⟩ | ⟨hno, status, error, retryAfter, heq⟩ | ⟨rfl, heq⟩ := postOne_cases channel html answer next
  · simp [heq, hok, accepted_ne_raises hok]
  · have hnot : ¬ Accepted answer := fun hok => not_refused_of_accepted hok hno
    simp [heq, hnot, refused_ne_raises hno]
  · simp [heq]

theorem postOne_failed : (∃ status error retryAfter, (postOne channel html answer next).2 =
      .failed status error retryAfter) ↔
    Refused answer ∨ (Accepted answer ∧ ∃ status error retryAfter, next.2 = .failed status error retryAfter) := by
  obtain ⟨hok, heq⟩ | ⟨hno, status, error, retryAfter, heq⟩ | ⟨rfl, heq⟩ := postOne_cases channel html answer next
  · simp [heq, hok, not_refused_of_accepted hok]
  · simp [heq, hno]
  · simp [heq, Refused, Accepted]

theorem postAll_raised (html : Bool) : (postAll cfg html a).2 = .raised ↔ RoundMeets cfg (· = .raises) a := by
  unfold postAll RoundMeets
  cases cfg.telegramEnabled <;> cases cfg.discordEnabled <;> simp [postOne_raised]

theorem postAll_failed (html : Bool) :
    (∃ status error retryAfter, (postAll cfg html a).2 = .failed status error retryAfter) ↔ RoundMeets cfg Refused a := by
  unfold postAll RoundMeets
  cases cfg.telegramEnabled <;> cases cfg.discordEnabled <;> simp [postOne_failed]

theorem attemptFrom_raised {html : Bool} {lastError : Option String} {k left : ℕ} :
    (attemptFrom cfg answers html lastError k left).2 = .raised ↔
      ∃ j < left, RoundMeets cfg (· = .raises) (answers (k + j)) ∧
        ∀ i < j, RoundMeets cfg Refused (answers (k + i)) := by
  induction left generalizing html lastError k with
  | zero => simp [attemptFrom]
  | succ left ih =>
    have hraised : (postAll cfg html (answers k)).2 = .raised ↔ RoundMeets cfg (· = .raises) (answers k) :=
      postAll_raised html
    have hfailed : (∃ status error retryAfter, (postAll cfg html (answers k)).2 = .failed status error retryAfter) ↔
        RoundMeets cfg Refused (answers k) := postAll_failed html
    -- the round `k`, then those after it
    have hrounds := Loop.exists_first_succ (k := k) (n := left)
      (P := fun j => RoundMeets cfg (· = .raises) (answers j)) (Q := fun i => RoundMeets cfg Refused (answers i))
    rw [hrounds]
    simp only [attemptFrom]
    rcases hpost : postAll cfg html (answers k) with ⟨posts, hend⟩
    rw [hpost] at hraised hfailed
    cases hend with
    | sent => simp [← hraised, ← hfailed]
    | raised => simp [← hraised]
    | failed status error retryAfter => simp [← hraised, ← hfailed, ih]

theorem attempt_raised_iff : (attempt cfg answers).2 = .raised ↔ AttemptRaises cfg answers := by
  unfold attempt AttemptRaises
  simp [attemptFrom_raised]

end Attempts

namespace AlertAgent

section Drains
variable {cfg : AlertConfig} {clk : DrainClock} {a : AlertAgent} {job : Job}

/-- What a drain goes on to deliver it has claimed. -/
theorem goOn_ids {kind : JobKind} {result : AttemptEnd} (h : (a.goOn cfg clk kind result).2 = some job) :
    job.ids ≠ [] := by
  cases kind with
  | critical =>
    simp only [goOn] at h
    split at h
    · cases h
    · exact drainClosed_ids h
  | batch => cases h
  | probe => cases h

/-- A drain that has raised starts nothing. -/
theorem goOn_raised (kind : JobKind) : (a.goOn cfg clk kind .raised).2 = none ∧
    (a.goOn cfg clk kind .raised).1.db = a.db := by
  cases kind <;> simp [goOn]

theorem emit_sending {eventType : String} {p : AlertPayload} {emitClk : EmitClock} {id : ℕ} {severity : Severity}
    (h : (a.emit cfg eventType p emitClk).db.Has id severity .sending) : a.db.Has id severity .sending := by
  have hold : ∀ e, (a.db.insertEvent e).Has id severity .sending → a.db.Has id severity .sending := by
    intro e hrow
    simpa using has_insertEvent.mp hrow
  obtain ⟨e, -, ⟨-, hemit⟩ | ⟨-, hemit⟩ | ⟨-, hmerge⟩ | ⟨-, hemit⟩⟩ := emit_cases cfg eventType p emitClk a
  · rw [hemit] at h
    rcases has_updateStatus.mp h with ⟨-, hrow⟩ | ⟨-, hstatus, -⟩
    · exact hold e hrow
    · cases hstatus
  · rw [hemit] at h
    exact hold e h
  · rwa [(tryDedupMerge_some hmerge).1] at h
  · rw [hemit] at h
    exact hold e h

/-- A delivery that does not raise leaves none of its rows in `sending`. -/
theorem settle_sending {now : ℚ} {ids : List ℕ} {result : AttemptEnd} {id : ℕ} {severity : Severity}
    (hne : result ≠ .raised) (h : (a.settle cfg now ids result).db.Has id severity .sending) :
    id ∉ ids ∧ a.db.Has id severity .sending := by
  have hall : ∀ {status attemptsDelta lastError}, status ≠ DeliveryStatus.sending →
      (updateAll status attemptsDelta lastError ids a.db).Has id severity .sending →
        id ∉ ids ∧ a.db.Has id severity .sending := by
    intro status attemptsDelta lastError hstatus hrow
    rcases has_updateAll.mp hrow with hold | ⟨-, hsame, -⟩
    · exact hold
    · exact absurd hsame.symm hstatus
  cases result with
  | sent => exact hall (by decide) h
  | failed error => exact hall (by decide) h
  | raised => exact absurd rfl hne

end Drains

end AlertAgent

namespace AlertWorld

/-! ## The rows in `sending` -/

/-- Only a delivery in flight has rows in `sending`. -/
def Attended (w : AlertWorld) : Prop :=
  ∀ id severity, w.agent.db.Has id severity .sending → ∃ n d, w.deliveries n = some d ∧ id ∈ d.job.ids

/-- A delivery that raises: one of its posts does, or it is the loop's and `stop` has cancelled the loop. -/
def CutShort (cfg : AlertConfig) (w : AlertWorld) : AlertCall → Prop
  | .finish i answers _ _ =>
    ∃ d, w.deliveries i = some d ∧ ((d.owner = .loop ∧ w.agent.stopped) ∨ AttemptRaises cfg answers)
  | _ => False

/-- Every delivery in flight has claimed something. -/
def Laden (w : AlertWorld) : Prop := ∀ n d, w.deliveries n = some d → d.job.ids ≠ []

section Steps
variable {cfg : AlertConfig} {w : AlertWorld} {owner : Owner} {time : ℚ} {i : ℕ} {d : Delivery}

theorem outcome_raised_iff {answers : ℕ → RoundAnswers} : w.outcome cfg d answers = .raised ↔
    (d.owner = .loop ∧ w.agent.stopped) ∨ AttemptRaises cfg answers := by
  unfold outcome
  split
  · simp [*]
  · simp [*, attempt_raised_iff]

theorem Laden.suspend (h : w.Laden) {r : AlertAgent × Option Job} (hids : ∀ job, r.2 = some job → job.ids ≠ []) :
    (w.suspend owner time r).Laden := by
  intro n d hd
  obtain ⟨a, job⟩ := r
  cases job with
  | none => exact h n d hd
  | some job =>
    by_cases hn : n = w.nextDelivery
    · simp only [AlertWorld.suspend, hn, Function.update_self, Option.some.injEq] at hd
      subst hd
      exact hids job rfl
    · simp only [AlertWorld.suspend, Function.update_of_ne hn] at hd
      exact h n d hd

theorem deliveries_ended {result : AttemptEnd} {fail : ℚ} {n : ℕ} {d' : Delivery} :
    (w.ended cfg i d result fail).deliveries n = some d' ↔ n ≠ i ∧ w.deliveries n = some d' := by
  unfold AlertWorld.ended
  by_cases hn : n = i
  · simp [hn]
  · simp [hn]

theorem Laden.step (h : w.Laden) (e : AlertCall) : (step cfg w e).Laden := by
  cases e with
  | emit eventType p clk => exact h
  | stop => exact h
  | drainLoop clk =>
    simp only [AlertWorld.step]
    split
    · exact h
    · exact h.suspend fun job hjob => drainOnce_ids hjob
  | sendDirect eventType p emitClk clk => exact h.suspend fun job hjob => drainOnce_ids hjob
  | finish i answers fail clk =>
    cases hd : w.deliveries i with
    | none =>
      simp only [AlertWorld.step, finish, hd]
      exact h
    | some d =>
      simp only [AlertWorld.step]
      rw [finish_eq hd]
      have hended : (w.ended cfg i d (w.outcome cfg d answers) fail).Laden :=
        fun n d' hd' => h n d' (deliveries_ended.mp hd').2
      exact hended.suspend fun job hjob => goOn_ids hjob

theorem Attended.suspend (h : w.Attended) (hc : w.Coherent cfg) {r : AlertAgent × Option Job}
    (hr : Drained w.agent r) : (w.suspend owner time r).Attended := by
  intro id severity hrow
  have hold : id ∉ jobIds r.2 → r.1.db.Has id severity .sending →
      ∃ n d, w.deliveries n = some d ∧ id ∈ d.job.ids :=
    fun hid hrow => h id severity ((hr.claimed.other id hid _ _).mp hrow)
  obtain ⟨a, job⟩ := r
  cases job with
  | none => exact hold (List.not_mem_nil) hrow
  | some job =>
    by_cases hid : id ∈ job.ids
    · exact ⟨w.nextDelivery, _, Function.update_self _ _ _, hid⟩
    · obtain ⟨n, d, hd, hmem⟩ := hold hid hrow
      exact ⟨n, d, (Function.update_of_ne (hc.fresh n d hd).ne _ _).trans hd, hmem⟩

theorem Attended.ended (h : w.Attended) (hd : w.deliveries i = some d) {result : AttemptEnd} (hne : result ≠ .raised)
    (fail : ℚ) : (w.ended cfg i d result fail).Attended := by
  intro id severity hrow
  obtain ⟨hnot, hold⟩ := settle_sending hne hrow
  obtain ⟨n, d', hd', hmem⟩ := h id severity hold
  have hni : n ≠ i := by
    rintro rfl
    rw [hd] at hd'
    cases hd'
    exact hnot hmem
  exact ⟨n, d', deliveries_ended.mpr ⟨hni, hd'⟩, hmem⟩

/-- A step in which no delivery raises leaves no row behind. -/
theorem Attended.step (h : w.Attended) (hc : w.Coherent cfg) {e : AlertCall} (he : ¬ CutShort cfg w e) :
    (step cfg w e).Attended := by
  have hemit : ∀ eventType p emitClk, Attended { w with agent := w.agent.emit cfg eventType p emitClk } :=
    fun eventType p emitClk id severity hrow => h id severity (emit_sending hrow)
  cases e with
  | emit eventType p clk => exact hemit eventType p clk
  | stop => exact h
  | drainLoop clk =>
    simp only [AlertWorld.step]
    split
    · exact h
    · exact h.suspend hc hc.stocked.drainOnce_drained
  | sendDirect eventType p emitClk clk =>
    have hc' := hc.emit eventType p emitClk
    simp only [AlertWorld.step]
    rw [← suspend_agent (w.agent.emit cfg eventType p emitClk)]
    exact (hemit eventType p emitClk).suspend hc' hc'.stocked.drainOnce_drained
  | finish i answers fail clk =>
    cases hd : w.deliveries i with
    | none =>
      simp only [AlertWorld.step, finish, hd]
      exact h
    | some d =>
      have hne : w.outcome cfg d answers ≠ .raised := by
        rw [Ne, outcome_raised_iff]
        exact fun hraise => he ⟨d, hd, hraise⟩
      simp only [AlertWorld.step]
      rw [finish_eq hd]
      have hc' := hc.ended hd (w.outcome cfg d answers) fail
      exact (h.ended hd hne fail).suspend hc' (hc'.stocked.goOn_drained _ _)

/-- A delivery that raises leaves its rows behind. -/
theorem not_attended_of_cutShort (hc : w.Coherent cfg) (hl : w.Laden) {e : AlertCall} (he : CutShort cfg w e) :
    ¬ (step cfg w e).Attended := by
  cases e with
  | finish i answers fail clk =>
    obtain ⟨d, hd, hraise⟩ := he
    obtain ⟨id, hid⟩ := List.exists_mem_of_ne_nil _ (hl i d hd)
    obtain ⟨severity, hrow⟩ := hc.sending i d hd id hid
    have hout : w.outcome cfg d answers = .raised := outcome_raised_iff.mpr hraise
    simp only [AlertWorld.step]
    rw [finish_eq hd, hout]
    obtain ⟨hnone, hdb⟩ : ((w.ended cfg i d .raised fail).agent.goOn cfg clk d.job.kind .raised).2 = none ∧
        ((w.ended cfg i d .raised fail).agent.goOn cfg clk d.job.kind .raised).1.db = w.agent.db :=
      goOn_raised d.job.kind
    rcases hgo : (w.ended cfg i d .raised fail).agent.goOn cfg clk d.job.kind .raised with ⟨a, job⟩
    rw [hgo] at hnone hdb
    obtain rfl : job = none := hnone
    intro hatt
    have hsame : a.db = w.agent.db := hdb
    rw [← hsame] at hrow
    obtain ⟨n, d', hd', hmem⟩ := hatt id severity hrow
    have hd'' : (w.ended cfg i d .raised fail).deliveries n = some d' := hd'
    obtain ⟨hni, hold⟩ := deliveries_ended.mp hd''
    exact hc.apart n i d' d hold hd hni id hmem hid
  | _ => exact he.elim

end Steps

/-- **The rows that are left behind.** In every state of a run only deliveries in flight have rows in `sending`, exactly
when the table has no such row at the start and no delivery of the run raises: none of its posts does, and the loop has
none in flight that `stop` cancels. -/
theorem attended_iff_uncut (cfg : AlertConfig) (nowMs : ℤ) (db : AlertDb) (es : List AlertCall) :
    Runs.Always Attended (step cfg) (start cfg nowMs db) es ↔
      (∀ r ∈ db.rows, r.status ≠ .sending) ∧
        Runs.Guarded (fun w e => ¬ CutShort cfg w e) (step cfg) (start cfg nowMs db) es := by
  have hstart : (start cfg nowMs db).Attended ↔ ∀ r ∈ db.rows, r.status ≠ .sending := by
    constructor
    · intro h r hr hstatus
      have hmem : r ∈ (db.expiredSweep (nowMs - cfg.pendingTtlS * 1000)).rows :=
        List.mem_map.mpr ⟨r, hr, if_neg (by simp [hstatus])⟩
      obtain ⟨n, d, hd, -⟩ := h r.id r.severity ⟨r, hmem, rfl, rfl, hstatus⟩
      cases hd
    · rintro h id severity ⟨r', hr', -, -, hstatus⟩
      obtain ⟨r, hr, rfl⟩ := List.mem_map.mp hr'
      refine absurd hstatus ?_
      split
      · simp
      · exact h r hr
  have hruns : (start cfg nowMs db).Attended → (Runs.Always Attended (step cfg) (start cfg nowMs db) es ↔
      Runs.Guarded (fun w e => ¬ CutShort cfg w e) (step cfg) (start cfg nowMs db) es) := by
    intro h0
    rw [Runs.always_iff_guarded h0]
    refine Runs.guarded_iff_guarded (I := fun w => w.Coherent cfg ∧ w.Laden ∧ w.Attended)
      ⟨coherent_start cfg nowMs db, fun n d hd => (by cases hd), h0⟩ ?_ ?_
    · rintro w e - ⟨hc, hl, ha⟩ hok
      have hnext := ha.step hc hok
      exact ⟨⟨hc.step e, hl.step e, hnext⟩, hnext⟩
    · rintro w e - ⟨hc, hl, -⟩ hcut hnext
      exact hcut fun hcut => not_attended_of_cutShort hc hl hcut hnext
  constructor
  · intro h
    have h0 : (start cfg nowMs db).Attended := h [] List.nil_prefix
    exact ⟨hstart.mp h0, (hruns h0).mp h⟩
  · rintro ⟨hnone, hguard⟩
    exact (hruns (hstart.mpr hnone)).mpr hguard

/-- The session has been closed when the first alert is sent. -/
def sessionClosed : List AlertCall :=
  [.emit "CRITICAL_ALERT" {} {}, .drainLoop {}, .finish 0 (fun _ => ⟨.raises, .networkError⟩) 0 {}]

/-- The alert stays in `sending`, and no delivery has it. -/
theorem not_attended_sessionClosed :
    ¬ ∀ (cfg : AlertConfig) (nowMs : ℤ) (db : AlertDb) (es : List AlertCall), (∀ r ∈ db.rows, r.status ≠ .sending) →
      (Runs.run (step cfg) (start cfg nowMs db) es).Attended := by
  intro h
  have hrow : ∃ r ∈ (Runs.run (step {}) (start {} 0 AlertDb.empty) sessionClosed).agent.db.rows,
      r.id = 1 ∧ r.severity = .critical ∧ r.status = .sending := by decide
  have hone : (Runs.run (step {}) (start {} 0 AlertDb.empty) sessionClosed).nextDelivery = 1 := by decide
  have hzero : ((Runs.run (step {}) (start {} 0 AlertDb.empty) sessionClosed).deliveries 0).isNone = true := by
    decide
  obtain ⟨n, d, hd, -⟩ := h {} 0 AlertDb.empty sessionClosed (fun r hr => by cases hr) 1 .critical hrow
  have hlt := (coherent_run _ _ _ _).fresh n d hd
  rw [hone] at hlt
  rw [Nat.lt_one_iff.mp hlt] at hd
  simp [hd] at hzero

end AlertWorld

end MikoV2.Alerting
