import Mathlib.Algebra.Order.Ring.Rat
import MikoV2.Lib.Meter

/-!
# `TokenBucket`

Calls of `acquire` and `get_tokens` on one bucket, in exact arithmetic. The lock is free whenever a call comes to it,
since no call suspends while it holds it; so a pass through the loop of `acquire` is one step.

* `pass` : a pass through the loop, `getTokens` : the reading without the lock;
* `BucketEvent`, `bucketStep` : a new call, one that wakes up, is cancelled, or reads;
* `Metered` : the bucket is a meter, and the grants are its draws; `metered_run` : it stays so;
* `rate_bounded` : what is granted, at any time and in any window.
-/

namespace MikoV2.DataLayer

def RATE : ℚ := 8
def BURST : ℚ := 15

structure TokenBucket where
  tokens : ℚ := BURST
  lastMono : ℚ

def refill (now : ℚ) (b : TokenBucket) : TokenBucket :=
  let elapsed := now - b.lastMono
  { tokens := min BURST (b.tokens + elapsed * RATE), lastMono := now }

/-- What a pass through the loop of `acquire` ends in. -/
inductive Pass
  | granted
  | sleep (waitTime : ℚ)

def pass (now tokens : ℚ) (b : TokenBucket) : TokenBucket × Pass :=
  let b := refill now b
  if b.tokens ≥ tokens then ({ b with tokens := b.tokens - tokens }, .granted)
  else
    let needed := tokens - b.tokens
    (b, .sleep (needed / RATE))

def getTokens (now : ℚ) (b : TokenBucket) : TokenBucket × ℚ :=
  let b := refill now b
  (b, b.tokens)

/-! ## Calls -/

/-- A call that sleeps. -/
structure Waiter where
  tokens : ℚ
  waitTime : ℚ

/-- A call that has returned `True`. -/
structure Grant where
  call : ℕ
  tokens : ℚ
  now : ℚ

/-- The bucket, its calls by their number, and what has been granted. -/
structure BucketState where
  bucket : TokenBucket
  calls : ℕ := 0
  waiting : ℕ → Option Waiter := fun _ => none
  grants : List Grant := []

/-- A sleeping call may wake up at any time, and is cancelled by its caller's timeout. -/
inductive BucketEvent
  | acquire (tokens now : ℚ)
  | wake (call : ℕ) (now : ℚ)
  | cancel (call : ℕ)
  | getTokens (now : ℚ)

def BucketEvent.time : BucketEvent → Option ℚ
  | .acquire _ now => some now
  | .wake _ now => some now
  | .cancel _ => none
  | .getTokens now => some now

/-- A call goes through the loop. -/
def attempt (call : ℕ) (tokens now : ℚ) (s : BucketState) : BucketState :=
  match pass now tokens s.bucket with
  | (bucket, .granted) =>
    { s with bucket, waiting := Function.update s.waiting call none, grants := s.grants ++ [⟨call, tokens, now⟩] }
  | (bucket, .sleep waitTime) => { s with bucket, waiting := Function.update s.waiting call (some ⟨tokens, waitTime⟩) }

def bucketStep (s : BucketState) : BucketEvent → BucketState
  | .acquire tokens now => attempt s.calls tokens now { s with calls := s.calls + 1 }
  | .wake call now =>
    match s.waiting call with
    | some waiter => attempt call waiter.tokens now s
    | none => s
  | .cancel call => { s with waiting := Function.update s.waiting call none }
  | .getTokens now => { s with bucket := (getTokens now s.bucket).1 }

/-- The state after the events, on a bucket created at `start`. -/
def afterEvents (start : ℚ) (events : List BucketEvent) : BucketState :=
  Runs.run bucketStep { bucket := { lastMono := start } } events

/-- The clock does not go back, from the creation of the bucket on. -/
def SteadyClock (start : ℚ) (events : List BucketEvent) : Prop :=
  (start :: events.filterMap BucketEvent.time).Pairwise (· ≤ ·)

/-- What has been granted after `u`, up to `t`. -/
def grantedIn (u t : ℚ) (grants : List Grant) : ℚ :=
  ((grants.filter fun g => decide (u < g.now) && decide (g.now ≤ t)).map Grant.tokens).sum

/-! ## The bucket as a meter -/

/-- The bucket as a meter. -/
def TokenBucket.meter (b : TokenBucket) : Meter.State ℚ := ⟨b.tokens, b.lastMono⟩

def Grant.draw (g : Grant) : Meter.Draw ℚ := ⟨g.now, g.tokens⟩

theorem total_draws (grants : List Grant) :
    Meter.total (grants.map Grant.draw) = (grants.map Grant.tokens).sum := by
  rw [Meter.total, List.map_map]
  rfl

/-- The draws `ds` have led a bucket created at `start` here, and the grants are those that took something. -/
structure Metered (start : ℚ) (s : BucketState) (ds : List (Meter.Draw ℚ)) : Prop where
  bucket : s.bucket.meter = Runs.run (Meter.draw RATE BURST) ⟨BURST, start⟩ ds
  allowed : Runs.Guarded (Meter.Allowed RATE BURST) (Meter.draw RATE BURST) ⟨BURST, start⟩ ds
  granted : ∀ p : ℚ → Bool,
    Meter.total (ds.filter fun d => p d.now) = Meter.total ((s.grants.map Grant.draw).filter fun d => p d.now)
  wanted : ∀ call waiter, s.waiting call = some waiter → 0 ≤ waiter.tokens
  known : ∀ call, s.calls ≤ call → s.waiting call = none
  once : (s.grants.map Grant.call).Nodup
  served : ∀ g ∈ s.grants, g.call < s.calls ∧ s.waiting g.call = none

variable {start now tokens : ℚ} {s : BucketState} {ds : List (Meter.Draw ℚ)}

theorem RATE_nonneg : 0 ≤ RATE := by decide

theorem metered_new (start : ℚ) : Metered start { bucket := { lastMono := start } } [] where
  bucket := rfl
  allowed := Runs.guarded_nil
  granted := fun _ => rfl
  wanted := nofun
  known := fun _ _ => rfl
  once := List.nodup_nil
  served := nofun

theorem Metered.level (h : Metered start s ds) : 0 ≤ s.bucket.tokens ∧ s.bucket.tokens ≤ BURST := by
  have hlevel := Meter.level_run (show (0 : ℚ) ≤ BURST ∧ BURST ≤ BURST by decide) h.allowed
  rw [← h.bucket] at hlevel
  exact hlevel

theorem Metered.refill_nonneg (h : Metered start s ds) (hnow : s.bucket.lastMono ≤ now) :
    0 ≤ (refill now s.bucket).tokens :=
  h.level.1.trans (Meter.fill_between RATE_nonneg (m := s.bucket.meter) h.level.2 hnow).1

theorem refill_sub_zero (now : ℚ) (b : TokenBucket) :
    refill now b = { refill now b with tokens := (refill now b).tokens - 0 } := by
  simp

/-- A draw that the bucket follows. -/
theorem Metered.follow (h : Metered start s ds) {bucket : TokenBucket} {amount : ℚ}
    (hnow : s.bucket.lastMono ≤ now) (hnonneg : 0 ≤ amount) (hle : amount ≤ (refill now s.bucket).tokens)
    (hbucket : bucket = { refill now s.bucket with tokens := (refill now s.bucket).tokens - amount }) :
    bucket.meter = Runs.run (Meter.draw RATE BURST) ⟨BURST, start⟩ (ds ++ [⟨now, amount⟩]) ∧
      Runs.Guarded (Meter.Allowed RATE BURST) (Meter.draw RATE BURST) ⟨BURST, start⟩ (ds ++ [⟨now, amount⟩]) := by
  subst hbucket
  constructor
  · rw [Meter.run_concat, ← h.bucket]
    rfl
  · refine Runs.guarded_append.mpr ⟨h.allowed, Runs.guarded_cons.mpr ⟨?_, Runs.guarded_nil⟩⟩
    rw [← h.bucket]
    exact ⟨hnow, hnonneg, hle⟩

/-- The window sums go along, when a draw of `amount` is a grant of it, or of nothing. -/
theorem granted_concat {grants : List Grant} {amount : ℚ} {new : List Grant}
    (h : ∀ p : ℚ → Bool,
      Meter.total (ds.filter fun d => p d.now) = Meter.total ((grants.map Grant.draw).filter fun d => p d.now))
    (hnew : Meter.total (new.map Grant.draw) = amount) (htime : ∀ g ∈ new, g.now = now) (p : ℚ → Bool) :
    Meter.total ((ds ++ [Meter.Draw.mk now amount]).filter fun d => p d.now) =
      Meter.total (((grants ++ new).map Grant.draw).filter fun d => p d.now) := by
  have hsum : ∀ l l' : List (Meter.Draw ℚ), Meter.total (l ++ l') = Meter.total l + Meter.total l' := by
    simp [Meter.total]
  rw [List.map_append, List.filter_append, List.filter_append, hsum, hsum, h]
  congr 1
  by_cases hp : p now
  · have hall : (new.map Grant.draw).filter (fun d => p d.now) = new.map Grant.draw := by
      refine List.filter_eq_self.mpr fun d hd => ?_
      obtain ⟨g, hg, rfl⟩ := List.mem_map.mp hd
      exact (congrArg p (htime g hg)).trans hp
    rw [hall, hnew]
    simp [hp, Meter.total]
  · have hnone : (new.map Grant.draw).filter (fun d => p d.now) = [] := by
      refine List.filter_eq_nil_iff.mpr fun d hd => ?_
      obtain ⟨g, hg, rfl⟩ := List.mem_map.mp hd
      show ¬ p g.now = true
      rwa [htime g hg]
    rw [hnone]
    simp [hp]

/-- A reading grants nothing. -/
theorem granted_reading {grants : List Grant}
    (h : ∀ p : ℚ → Bool,
      Meter.total (ds.filter fun d => p d.now) = Meter.total ((grants.map Grant.draw).filter fun d => p d.now))
    (now : ℚ) (p : ℚ → Bool) :
    Meter.total ((ds ++ [Meter.Draw.mk now 0]).filter fun d => p d.now) =
      Meter.total ((grants.map Grant.draw).filter fun d => p d.now) := by
  have hsame : Meter.total ((ds ++ [Meter.Draw.mk now 0]).filter fun d => p d.now) = _ :=
    granted_concat h rfl (List.forall_mem_nil _) p
  rwa [List.append_nil] at hsame

theorem attempt_granted {call : ℕ} (h : (refill now s.bucket).tokens ≥ tokens) : attempt call tokens now s =
    { s with
      bucket := { refill now s.bucket with tokens := (refill now s.bucket).tokens - tokens }
      waiting := Function.update s.waiting call none
      grants := s.grants ++ [⟨call, tokens, now⟩] } := by
  unfold attempt pass
  dsimp only
  rw [if_pos h]

theorem attempt_sleep {call : ℕ} (h : ¬ (refill now s.bucket).tokens ≥ tokens) : attempt call tokens now s =
    { s with
      bucket := refill now s.bucket
      waiting := Function.update s.waiting call (some ⟨tokens, (tokens - (refill now s.bucket).tokens) / RATE⟩) } := by
  unfold attempt pass
  dsimp only
  rw [if_neg h]

/-- **A pass** of a call that is not served yet. -/
theorem Metered.attempt (h : Metered start s ds) {call : ℕ} (hnow : s.bucket.lastMono ≤ now) (hnonneg : 0 ≤ tokens)
    (hcall : call < s.calls) (hfresh : ∀ g ∈ s.grants, g.call ≠ call) :
    ∃ d, Metered start (attempt call tokens now s) (ds ++ [d]) := by
  have hknown : ∀ {w : Option Waiter} c, s.calls ≤ c → Function.update s.waiting call w c = none := by
    intro w c hc
    rw [Function.update_of_ne (by omega)]
    exact h.known c hc
  have hserved : ∀ {w : Option Waiter}, ∀ g ∈ s.grants,
      g.call < s.calls ∧ Function.update s.waiting call w g.call = none := by
    intro w g hg
    rw [Function.update_of_ne (hfresh g hg)]
    exact h.served g hg
  have hwanted : ∀ {w : Option Waiter}, (∀ waiter, w = some waiter → 0 ≤ waiter.tokens) →
      ∀ c waiter, Function.update s.waiting call w c = some waiter → 0 ≤ waiter.tokens := by
    intro w hw c waiter hwaiter
    by_cases hc : c = call
    · rw [hc, Function.update_self] at hwaiter
      exact hw waiter hwaiter
    · rw [Function.update_of_ne hc] at hwaiter
      exact h.wanted c waiter hwaiter
  by_cases henough : (refill now s.bucket).tokens ≥ tokens
  · rw [attempt_granted henough]
    obtain ⟨hbucket, hallowed⟩ := h.follow hnow hnonneg henough rfl
    refine ⟨⟨now, tokens⟩, hbucket, hallowed, ?_, hwanted nofun, hknown, ?_, fun g hg => ?_⟩
    · exact granted_concat h.granted (by simp [Meter.total, Grant.draw]) (by simp)
    · rw [List.map_append, List.nodup_append]
      refine ⟨h.once, by simp, fun c hc c' hc' => ?_⟩
      obtain ⟨g, hg, rfl⟩ := List.mem_map.mp hc
      rw [List.mem_singleton.mp hc']
      exact hfresh g hg
    · rcases List.mem_append.mp hg with hg | hg
      · exact hserved g hg
      · rw [List.mem_singleton.mp hg]
        exact ⟨hcall, Function.update_self _ _ _⟩
  · rw [attempt_sleep henough]
    obtain ⟨hbucket, hallowed⟩ := h.follow hnow (le_refl 0) (h.refill_nonneg hnow) (refill_sub_zero now s.bucket)
    refine ⟨⟨now, 0⟩, hbucket, hallowed, fun p => ?_, hwanted ?_, hknown, h.once, hserved⟩
    · exact granted_reading h.granted now p
    · intro waiter hwaiter
      cases hwaiter
      exact hnonneg

/-! ## Runs -/

theorem bucketStep_wake {call : ℕ} {waiter : Waiter} (h : s.waiting call = some waiter) :
    bucketStep s (.wake call now) = attempt call waiter.tokens now s := by
  simp only [bucketStep, h]

theorem bucketStep_wake_none {call : ℕ} (h : s.waiting call = none) : bucketStep s (.wake call now) = s := by
  simp only [bucketStep, h]

/-- One event, at a time that is no earlier than the last reading. -/
theorem Metered.step (h : Metered start s ds) {event : BucketEvent}
    (hnow : ∀ now, event.time = some now → s.bucket.lastMono ≤ now)
    (hdomain : ∀ tokens now, event = .acquire tokens now → 0 ≤ tokens) :
    ∃ more, Metered start (bucketStep s event) (ds ++ more) := by
  cases event with
  | acquire tokens now =>
    have hstarted : Metered start { s with calls := s.calls + 1 } ds :=
      { h with
        known := fun c hc => h.known c (by have : s.calls + 1 ≤ c := hc; omega)
        served := fun g hg => ⟨Nat.lt_succ_of_lt (h.served g hg).1, (h.served g hg).2⟩ }
    obtain ⟨d, hd⟩ := hstarted.attempt (hnow now rfl) (hdomain tokens now rfl) (Nat.lt_succ_self s.calls)
      fun g hg => ne_of_lt (h.served g hg).1
    exact ⟨[d], hd⟩
  | wake call now =>
    cases hwaiting : s.waiting call with
    | none => exact ⟨[], by rwa [bucketStep_wake_none hwaiting, List.append_nil]⟩
    | some waiter =>
      have hcall : call < s.calls := by
        by_contra hnot
        rw [h.known call (by omega)] at hwaiting
        cases hwaiting
      have hfresh : ∀ g ∈ s.grants, g.call ≠ call := by
        rintro g hg rfl
        rw [(h.served g hg).2] at hwaiting
        cases hwaiting
      obtain ⟨d, hd⟩ := h.attempt (hnow now rfl) (h.wanted call waiter hwaiting) hcall hfresh
      exact ⟨[d], by rwa [bucketStep_wake hwaiting]⟩
  | cancel call =>
    have hnone : ∀ c w, Function.update s.waiting call none c = some w → s.waiting c = some w := by
      intro c w hw
      by_cases hc : c = call
      · rw [hc, Function.update_self] at hw
        cases hw
      · rwa [Function.update_of_ne hc] at hw
    have hkept : ∀ c, s.waiting c = none → Function.update s.waiting call none c = none := by
      intro c hc
      by_contra hsome
      obtain ⟨w, hw⟩ := Option.ne_none_iff_exists'.mp hsome
      rw [hnone c w hw] at hc
      cases hc
    refine ⟨[], ?_⟩
    rw [List.append_nil]
    exact { h with
      wanted := fun c w hw => h.wanted c w (hnone c w hw)
      known := fun c hc => hkept c (h.known c hc)
      served := fun g hg => ⟨(h.served g hg).1, hkept _ (h.served g hg).2⟩ }
  | getTokens now =>
    have hnow := hnow now rfl
    obtain ⟨hbucket, hallowed⟩ := h.follow hnow (le_refl 0) (h.refill_nonneg hnow) (refill_sub_zero now s.bucket)
    refine ⟨[⟨now, 0⟩], hbucket, hallowed, fun p => ?_, h.wanted, h.known, h.once, h.served⟩
    exact granted_reading h.granted now p

/-- The bucket has been read at the time of an event, or not at all since. -/
theorem lastMono_step (s : BucketState) (event : BucketEvent) :
    (bucketStep s event).bucket.lastMono = s.bucket.lastMono ∨
      event.time = some (bucketStep s event).bucket.lastMono := by
  have hattempt : ∀ call tokens now (s : BucketState), (attempt call tokens now s).bucket.lastMono = now := by
    intro call tokens now s
    by_cases henough : (refill now s.bucket).tokens ≥ tokens
    · rw [attempt_granted henough]
      rfl
    · rw [attempt_sleep henough]
      rfl
  cases event with
  | acquire tokens now => exact .inr (by rw [bucketStep, hattempt]; rfl)
  | wake call now =>
    cases hwaiting : s.waiting call with
    | none => exact .inl (by rw [bucketStep_wake_none hwaiting])
    | some waiter => exact .inr (by rw [bucketStep_wake hwaiting, hattempt]; rfl)
  | cancel call => exact .inl rfl
  | getTokens now => exact .inr rfl

/-- **Every run** of the bucket is one of a meter. -/
theorem metered_run : ∀ (events : List BucketEvent) {s : BucketState} {ds : List (Meter.Draw ℚ)}, Metered start s ds →
    SteadyClock s.bucket.lastMono events → (∀ tokens now, .acquire tokens now ∈ events → 0 ≤ tokens) →
      ∃ more, Metered start (Runs.run bucketStep s events) (ds ++ more) := by
  intro events
  induction events with
  | nil =>
    intro s ds h _ _
    exact ⟨[], by rwa [List.append_nil]⟩
  | cons event events ih =>
    intro s ds h hclock hdomain
    obtain ⟨hfirst, hrest⟩ := List.pairwise_cons.mp hclock
    have hnow : ∀ now, event.time = some now → s.bucket.lastMono ≤ now := fun now ht =>
      hfirst now (List.mem_filterMap.mpr ⟨event, List.mem_cons_self, ht⟩)
    obtain ⟨more, hstep⟩ := h.step hnow fun tokens now heq => hdomain tokens now (by rw [heq]; exact List.mem_cons_self)
    have hsteady : SteadyClock (bucketStep s event).bucket.lastMono events := by
      unfold SteadyClock
      rcases lastMono_step s event with hsame | hread
      · rw [hsame]
        refine List.pairwise_cons.mpr ⟨fun t ht => hfirst t ?_, ?_⟩
        · obtain ⟨e, he, het⟩ := List.mem_filterMap.mp ht
          exact List.mem_filterMap.mpr ⟨e, List.mem_cons_of_mem _ he, het⟩
        · exact hrest.sublist ((List.sublist_cons_self event events).filterMap _)
      · rwa [List.filterMap_cons_some hread] at hrest
    obtain ⟨more', hrun⟩ := ih hstep hsteady fun tokens now hin => hdomain tokens now (List.mem_cons_of_mem _ hin)
    exact ⟨more ++ more', by rwa [← List.append_assoc]⟩

/-- **The rate.** On a clock that does not go back, and for calls of 0 tokens or more: the bucket holds between 0 and
`BURST` tokens; after `u` and up to `t` at most `BURST + RATE * (t - u)` are granted; what has been granted and what is
left is `BURST` and what flowed in, which is no more than the rate allows; and a call is granted its tokens once. -/
theorem rate_bounded (start : ℚ) (events : List BucketEvent) (hclock : SteadyClock start events)
    (hdomain : ∀ tokens now, .acquire tokens now ∈ events → 0 ≤ tokens ∧ tokens ≤ BURST) :
    let s := afterEvents start events
    (0 ≤ s.bucket.tokens ∧ s.bucket.tokens ≤ BURST) ∧
      (∀ u t, u ≤ t → grantedIn u t s.grants ≤ BURST + RATE * (t - u)) ∧
      (∃ flowed, 0 ≤ flowed ∧ flowed ≤ RATE * (s.bucket.lastMono - start) ∧
        (s.grants.map Grant.tokens).sum + s.bucket.tokens = BURST + flowed) ∧
      (s.grants.map Grant.call).Nodup := by
  obtain ⟨ds, h⟩ := metered_run events (metered_new start) hclock fun tokens now hin => (hdomain tokens now hin).1
  rw [List.nil_append] at h
  have hfull : (0 : ℚ) ≤ BURST ∧ BURST ≤ BURST := by decide
  have hlast := congrArg Meter.State.last h.bucket
  have hlevel := congrArg Meter.State.level h.bucket
  refine ⟨h.level, fun u t hut => ?_, ?_, h.once⟩
  · have hwindow := Meter.window RATE_nonneg hut hfull h.allowed
    have hgranted := h.granted fun now => decide (u < now) && decide (now ≤ t)
    rw [List.filter_map, total_draws] at hgranted
    rw [Meter.between, hgranted] at hwindow
    exact hwindow
  · obtain ⟨hnonneg, hbound⟩ := Meter.inflow_run RATE_nonneg hfull.2 h.allowed
    have hamount := Meter.amount_run RATE BURST ds ⟨BURST, start⟩
    have hgranted := h.granted fun _ => true
    rw [List.filter_true, List.filter_true, total_draws] at hgranted
    rw [hgranted, ← hlevel] at hamount
    rw [← hlast, mul_comm] at hbound
    exact ⟨_, hnonneg, hbound, hamount⟩

/-- The bucket is emptied at once; a call of 5 tokens sleeps, and is granted them when it wakes up a second later. -/
theorem rate_bounded_burst :
    let events : List BucketEvent := [.acquire 15 0, .acquire 5 0, .getTokens (1 / 2), .wake 1 1]
    let s := afterEvents 0 events
    (0 ≤ s.bucket.tokens ∧ s.bucket.tokens ≤ BURST) ∧
      (∀ u t, u ≤ t → grantedIn u t s.grants ≤ BURST + RATE * (t - u)) ∧
      (∃ flowed, 0 ≤ flowed ∧ flowed ≤ RATE * (s.bucket.lastMono - 0) ∧
        (s.grants.map Grant.tokens).sum + s.bucket.tokens = BURST + flowed) ∧
      (s.grants.map Grant.call).Nodup := by
  refine rate_bounded 0 _ (by unfold SteadyClock; decide +kernel) fun tokens now hin => ?_
  simp only [List.mem_cons, BucketEvent.acquire.injEq, reduceCtorEq, List.not_mem_nil, or_false] at hin
  rcases hin with ⟨rfl, -⟩ | ⟨rfl, -⟩
  · decide +kernel
  · decide +kernel

end MikoV2.DataLayer
