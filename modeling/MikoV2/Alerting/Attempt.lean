import Mathlib.Data.Int.Notation
import Mathlib.Data.Nat.Notation
import Mathlib.Tactic.Common

/-!
# One delivery

What an alert event is worth, and what a delivery does until its last answer: up to `retry_max` rounds, each over the
enabled channels, Telegram first.

* `getSeverity` : the catalogue;
* `PostEnd` : how a post ends; `RoundAnswers` : the posts of a round;
* `postAll`, `attempt` : a round and a delivery, with the posts that they make.
-/

namespace MikoV2.Alerting

/-! ## The catalogue -/

inductive Severity where
  | critical
  | warning
  | info
  deriving DecidableEq, Repr

def Severity.text : Severity → String
  | .critical => "CRITICAL"
  | .warning => "WARNING"
  | .info => "INFO"

def eventSeverity : List (String × Severity) := [
  ("CRITICAL_ALERT", .critical), ("FVG_EXPIRED_HARD_DEADLINE", .critical), ("IP_BAN_DETECTED", .critical),
  ("MICRO_TRIGGER_QUARANTINE", .warning), ("FVG_INVALIDATED", .warning), ("TRIGGER", .warning), ("ENTRY", .warning),
  ("FLIP_DETECTED", .warning), ("TOP5_DARALMA_ALERT", .warning), ("TRADE_REJECTED_FEE_DRAG", .warning),
  ("DUST_POSITION_REMAINING", .warning), ("OBSERVATION_STOPPED", .warning), ("OBSERVATION_RESUMED", .warning),
  ("OBSERVATION_COMPLETED", .warning),
  ("SWEEP", .info), ("MSS", .info), ("FVG_OTE", .info), ("MICRO_CONFIRM", .info), ("ENTRY_SIGNAL", .info),
  ("REJECT", .info), ("SECOND_ENTRY_SKIPPED", .info), ("B3_1_SUBSCRIBE", .info), ("B3_1_UNSUBSCRIBE", .info)]

def reasonAwareSeverity : List (String × List (String × Severity)) := [
  ("EXIT", [("SL", .warning), ("TP", .warning), ("END_OF_BACKTEST", .info)])]

def exitDefault : Severity := .warning

def getSeverity (eventType : String) (reason : Option String) : Severity :=
  match reasonAwareSeverity.lookup eventType with
  | some table => match reason.bind fun r => table.lookup r with
    | some severity => severity
    | none => if eventType = "EXIT" then exitDefault else .warning
  -- what is not in the catalogue is a warning
  | none => (eventSeverity.lookup eventType).getD .warning

/-! ## The channels -/

/-- The checked integers are not negative; the strings of a channel matter here only by whether it is enabled. -/
structure AlertConfig where
  telegramEnabled : Bool := true
  discordEnabled : Bool := false
  batchSize : ℕ := 5
  batchWindowS : ℕ := 5
  dedupWindowS : ℕ := 60
  pendingTtlS : ℕ := 600
  retryMax : ℕ := 3
  breakerFailThreshold : ℕ := 5
  breakerOpenS : ℕ := 60

inductive Channel where
  | telegram
  | discord
  deriving DecidableEq, Repr

/-- How a post ends. -/
inductive PostEnd where
  /-- with a status, and the `Retry-After` header where it is a number -/
  | answered (status : ℤ) (retryAfter : Option ℤ)
  /-- `TimeoutError` or `ClientError` -/
  | networkError
  /-- another exception, or the task is cancelled -/
  | raises
  deriving DecidableEq

/-- How the posts of a round end, if they are made. -/
structure RoundAnswers where
  telegram : PostEnd
  discord : PostEnd

/-- A post that was made, with its `parse_mode`. -/
structure Post where
  channel : Channel
  html : Bool
  answer : PostEnd
  deriving DecidableEq

inductive RoundEnd where
  | sent
  | failed (status : ℤ) (error : String) (retryAfter : Option ℤ)
  | raised
  deriving DecidableEq

/-- What `_post_telegram` and `_post_discord` return; `none` when they raise. -/
def postResult : PostEnd → Option (Bool × ℤ × Option ℤ)
  | .answered status retryAfter =>
    some (200 ≤ status ∧ status < 300, status, if status = 429 then retryAfter else none)
  | .networkError => some (false, 0, none)
  | .raises => none

def channelError (channel : Channel) (status : ℤ) : String := match channel with
  | .telegram => s!"telegram status={status}"
  | .discord => s!"discord status={status}"

/-- A post to a channel; when it is accepted the round goes on with `next`. -/
def postOne (channel : Channel) (html : Bool) (answer : PostEnd) (next : List Post × RoundEnd) : List Post × RoundEnd :=
  match postResult answer with
  | none => ([⟨channel, html, answer⟩], .raised)
  | some (true, _, _) => (⟨channel, html, answer⟩ :: next.1, next.2)
  | some (false, status, retryAfter) =>
    ([⟨channel, html, answer⟩], .failed status (channelError channel status) retryAfter)

-- `parse_mode` is a field of the telegram body only
def postAll (cfg : AlertConfig) (html : Bool) (a : RoundAnswers) : List Post × RoundEnd :=
  let discord := if cfg.discordEnabled then postOne .discord false a.discord ([], .sent) else ([], .sent)
  if cfg.telegramEnabled then postOne .telegram html a.telegram discord else discord

/-- How a delivery ends; `failed` is final. -/
inductive AttemptEnd where
  | sent
  | failed (error : Option String)
  | raised
  deriving DecidableEq

/-- `parse_mode` after a failed round. -/
def nextHtml (html : Bool) (status : ℤ) (retryAfter : Option ℤ) : Bool :=
  if status = 429 ∧ retryAfter.isSome then html else if status = 400 then false else html

/-- `left` more rounds, the next of which is the round `k`. -/
def attemptFrom (cfg : AlertConfig) (answers : ℕ → RoundAnswers) (html : Bool) (lastError : Option String) (k : ℕ) :
    ℕ → List Post × AttemptEnd
  | 0 => ([], .failed lastError)
  | left + 1 => match postAll cfg html (answers k) with
    | (posts, .sent) => (posts, .sent)
    | (posts, .raised) => (posts, .raised)
    | (posts, .failed status error retryAfter) =>
      let rest := attemptFrom cfg answers (nextHtml html status retryAfter) (some error) (k + 1) left
      (posts ++ rest.1, rest.2)

/-- `_attempt`, with how the posts of its rounds end. -/
def attempt (cfg : AlertConfig) (answers : ℕ → RoundAnswers) : List Post × AttemptEnd :=
  attemptFrom cfg answers true none 0 cfg.retryMax

end MikoV2.Alerting
