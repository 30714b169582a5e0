import MikoV2.Alerting.Store
import MikoV2.Lib.Substitution

/-!
# What an alert says

The formatter, with the origin of every character of an event's fields: no function looks at it. A text of the program
is the characters of the text here.

* `Unicode` : the tables of `str` that `\d` and `\b` ask; `discordWebhook`, `telegramToken`, `queryToken`, `bearer` : the
  patterns;
* `maskSecrets`, `escape` : the masks, and `html.escape`;
* `renderTelegram`, `renderTelegramBatch`, `renderDiscord`, `renderDiscordBatch` : the texts of the channels;
* `secrets` : what `mask_secrets` takes out of a text.
-/

namespace MikoV2.Alerting
open Regex

/-! ## The patterns -/

/-- The tables of the interpreter, of which the ASCII part is known. -/
structure Unicode where
  isdecimal : Char → Bool
  isalnum : Char → Bool
  decimal_ascii : ∀ c, c.toNat < 128 → isdecimal c = c.isDigit
  alnum_ascii : ∀ c, c.toNat < 128 → isalnum c = c.isAlphanum

/-- Tables with nothing outside of ASCII. -/
def Unicode.ascii : Unicode where
  isdecimal c := c.isDigit
  isalnum c := c.isAlphanum
  decimal_ascii _ _ := rfl
  alnum_ascii _ _ := rfl

/-- `\w` -/
def Unicode.isword (u : Unicode) (c : Char) : Bool := u.isalnum c || c = '_'

/-- `\s` -/
def isSpace (c : Char) : Bool :=
  c.toNat ∈ [0x9, 0xa, 0xb, 0xc, 0xd, 0x1c, 0x1d, 0x1e, 0x1f, 0x20, 0x85, 0xa0, 0x1680, 0x2000, 0x2001, 0x2002,
    0x2003, 0x2004, 0x2005, 0x2006, 0x2007, 0x2008, 0x2009, 0x200a, 0x2028, 0x2029, 0x202f, 0x205f, 0x3000]

/-- `[A-Za-z0-9_\-]` -/
def isTokenChar (c : Char) : Bool := c.isAlphanum || c = '_' || c = '-'

/-- `[A-Za-z0-9_\-\.]`; without the case the letters have four more. -/
def isBearerChar (c : Char) : Bool := isTokenChar c || c = '.' || c ∈ ['İ', 'ı', 'ſ', 'K']

/-- `[^&\s"'<>]` -/
def isValueChar (c : Char) : Bool := !(c ∈ ['&', '"', '\'', '<', '>'] || isSpace c)

def same (c x : Char) : Bool := x = c

/-- `IGNORECASE`, for a letter of a pattern in lower case. -/
def sameLetter (c x : Char) : Bool :=
  x.toLower = c || (c = 'i' && x ∈ ['İ', 'ı']) || (c = 's' && x = 'ſ') || (c = 'k' && x = 'K')

@[irreducible] def exactly (s : String) : Regex := lit same s.toList

@[irreducible] def anyCase (s : String) : Regex := lit sameLetter s.toList

def discordWebhook (u : Unicode) : Pattern where
  kept := .empty
  taken := .seq (exactly "https://") (.seq (.alt (exactly "ptb.") (.alt (exactly "canary.") .empty))
    (.seq (exactly "discord") (.seq (.alt (exactly "app") .empty) (.seq (exactly ".com/api/webhooks/")
      (.seq (.many 1 u.isdecimal) (.seq (exactly "/") (.many 1 isTokenChar)))))))
  pos := by
    simp only [least]
    exact Nat.add_pos_right _ (Nat.add_pos_right _ (Nat.add_pos_right _ (Nat.add_pos_right _ (Nat.add_pos_right _
      (Nat.add_pos_left Nat.one_pos _)))))

def telegramToken (u : Unicode) : Pattern where
  kept := .empty
  taken := .seq (.bound u.isword) (.seq (.many 6 u.isdecimal) (.seq (exactly ":") (.seq (.many 30 isTokenChar)
    (.bound u.isword))))
  pos := by
    simp only [least]
    omega

/-- A query parameter, by the characters that may introduce it. -/
def parameter (introduces : Char → Bool) : Pattern where
  kept := .seq (.one introduces) (.seq (.alt (anyCase "token") (.alt (anyCase "access_token")
    (.alt (anyCase "api_key") (anyCase "apikey")))) (anyCase "="))
  taken := .many 1 isValueChar
  pos := by simp [least]

def queryToken : Pattern := parameter fun c => c = '?' || c = '&'

def bearer (u : Unicode) : Pattern where
  kept := .empty
  taken := .seq (.bound u.isword) (.seq (.alt (anyCase "bearer") (anyCase "bot")) (.seq (.many 1 isSpace)
    (.many 20 isBearerChar)))
  pos := by simp [least]

/-- `_SECRET_PATTERNS` -/
def secretPatterns (u : Unicode) : List Pattern := [discordWebhook u, telegramToken u, queryToken, bearer u]

/-! ## Texts -/

/-- The fields of an event that a text shows as they are. -/
inductive Field where
  | eventType
  | symbol
  | reason
  deriving DecidableEq, Repr

/-- Where a character of a field stands: which event it is of, counted from one, and the place in the field. -/
structure Origin where
  item : ℕ
  field : Field
  place : ℕ
  deriving DecidableEq, Repr

/-- A character of a text; what does not come from a field has no origin. -/
structure Cell where
  char : Char
  origin : Option Origin
  deriving DecidableEq, Repr

instance : Glyph Cell := ⟨Cell.char⟩

abbrev Text := List Cell

/-- What the program writes itself. -/
def text (s : String) : Text := s.toList.map fun c => ⟨c, none⟩

/-- A field of an event. -/
def fieldText (item : ℕ) (field : Field) (s : String) : Text := s.toList.mapIdx fun place c => ⟨c, some ⟨item, field, place⟩⟩

/-- `_REDACTED` -/
def redacted : Text := text "[REDACTED]"

/-- One pattern's `sub`. -/
def mask (p : Pattern) (s : Text) : Text := p.sub redacted none s

def maskSecrets (u : Unicode) (s : Text) : Text := (secretPatterns u).foldl (fun out p => mask p out) s

/-- What a list of patterns takes out, one after the other. -/
def takenBy : List Pattern → Text → List Text
  | [], _ => []
  | p :: ps, s => p.takens redacted none s ++ takenBy ps (mask p s)

/-- What `mask_secrets` takes out; a value with an earlier redaction in it is no text of the field any more. -/
def secrets (u : Unicode) (s : Text) : List Text :=
  (takenBy (secretPatterns u) s).filter fun v => v.all fun c => c.origin.isSome

/-- `html.escape(…, quote=False)` -/
def escapeCell (c : Cell) : Text :=
  if c.char = '&' then text "&amp;" else if c.char = '<' then text "&lt;" else if c.char = '>' then text "&gt;" else [c]

def escape (s : Text) : Text := s.flatMap escapeCell

/-! ## One event -/

/-- `time.gmtime` of a time in milliseconds; it raises where the platform has no date. -/
abbrev Gmtime := ℤ → Option (Fin 24 × Fin 60 × Fin 60)

def twoDigits (n : ℕ) : String := String.ofList [Nat.digitChar (n / 10), Nat.digitChar (n % 10)]

/-- `%H:%M:%S` -/
def fmtTime (gmtime : Gmtime) (tsMs : ℤ) : Option Text :=
  (gmtime tsMs).map fun t => text (twoDigits t.1 ++ ":" ++ twoDigits t.2.1 ++ ":" ++ twoDigits t.2.2)

def dupSuffix (dupCount windowS : Option ℤ) : Text := match dupCount, windowS with
  | some n, some w =>
    if n ≤ 1 then [] else text " [x" ++ text (toString n) ++ text " son " ++ text (toString (max 1 (w / 60))) ++ text "dk]"
  | _, _ => []

/-- `str(ev.get("symbol") or "-")` -/
def symbolText (item : ℕ) (ev : AlertEvent) : Text := match ev.symbol with
  | none => text "-"
  | some s => if s = "" then text "-" else fieldText item .symbol s

def eventTypeText (item : ℕ) (ev : AlertEvent) : Text := fieldText item .eventType ev.eventType

/-- Without a reason this is empty, and `if reason_s` does not ask which of the two it is. -/
def reasonText (item : ℕ) (ev : AlertEvent) : Text := fieldText item .reason (ev.reason.getD "")

def renderOneTelegram (gmtime : Gmtime) (item : ℕ) (ev : AlertEvent) (dupCount windowS : Option ℤ) : Option Text :=
  (fmtTime gmtime ev.tsMs).map fun tm =>
    let head := text "<b>[" ++ escape (text ev.severity.text) ++ text "]</b> " ++ escape (eventTypeText item ev) ++
      text " " ++ escape (symbolText item ev)
    let time := text "<code>" ++ escape tm ++ text "</code>"
    let body := if reasonText item ev = [] then head ++ text " " ++ time
      else head ++ text " " ++ time ++ text " — " ++ escape (reasonText item ev)
    body ++ dupSuffix dupCount windowS

def renderOneDiscord (gmtime : Gmtime) (item : ℕ) (ev : AlertEvent) (dupCount windowS : Option ℤ) : Option Text :=
  (fmtTime gmtime ev.tsMs).map fun tm =>
    let head := text "[" ++ text ev.severity.text ++ text "] " ++ eventTypeText item ev ++ text " " ++ symbolText item ev
    let body := if reasonText item ev = [] then head ++ text " " ++ tm
      else head ++ text " " ++ tm ++ text " — " ++ reasonText item ev
    body ++ dupSuffix dupCount windowS

structure RenderedMessage where
  text : Text
  /-- `parse_mode` is `HTML` -/
  html : Bool

def renderTelegram (u : Unicode) (gmtime : Gmtime) (ev : AlertEvent) (dupCount windowS : Option ℤ) : RenderedMessage :=
  match renderOneTelegram gmtime 1 ev dupCount windowS with
  | some body => ⟨maskSecrets u body, true⟩
  | none => ⟨maskSecrets u ((renderOneDiscord gmtime 1 ev dupCount windowS).getD (text "[format error]")), false⟩

def renderDiscord (u : Unicode) (gmtime : Gmtime) (ev : AlertEvent) (dupCount windowS : Option ℤ) : Text :=
  maskSecrets u ((renderOneDiscord gmtime 1 ev dupCount windowS).getD (text "[format error]"))

/-! ## A batch -/

/-- The events of a batch, each with how often it came. -/
abbrev Items := List (AlertEvent × Option ℤ)

/-- In the order of `_SEVERITY_ORDER`; there are no others. -/
def severityCounts (items : Items) : List (Severity × ℕ) :=
  [Severity.critical, .warning, .info].filterMap fun severity =>
    let count := items.countP fun item => item.1.severity = severity
    if count = 0 then none else some (severity, count)

def batchHeader (items : Items) : Text × Text :=
  (text "MikoV2 Uyarı Grubu (N=" ++ text (toString items.length) ++ text ")",
    (text " | ").intercalate ((severityCounts items).map fun k => text k.1.text ++ text ": " ++ text (toString k.2)))

/-- `#i` and the text of each event; a batch is rendered as a whole or not at all. -/
def batchLines (renderOne : ℕ → AlertEvent → Option ℤ → Option Text) (items : Items) : Option (List Text) :=
  (items.zipIdx 1).mapM fun item =>
    (renderOne item.2 item.1.1 item.1.2).map fun body => text "#" ++ text (toString item.2) ++ text " " ++ body

def emptyBatch : Text := text "MikoV2 Uyarı Grubu (N=0)"

def renderDiscordBatch (u : Unicode) (gmtime : Gmtime) (items : Items) (dupWindowS : Option ℤ) : Text :=
  if items = [] then maskSecrets u emptyBatch
  else match batchLines (fun item ev count => renderOneDiscord gmtime item ev count dupWindowS) items with
    | some bodies =>
      let (header, summary) := batchHeader items
      maskSecrets u ((text "\n").intercalate (header :: (if summary = [] then [] else [summary]) ++ bodies))
    | none => maskSecrets u (text "MikoV2 Uyarı Grubu (format error)")

def renderTelegramBatch (u : Unicode) (gmtime : Gmtime) (items : Items) (dupWindowS : Option ℤ) : RenderedMessage :=
  if items = [] then ⟨maskSecrets u emptyBatch, true⟩
  else match batchLines (fun item ev count => renderOneTelegram gmtime item ev count dupWindowS) items with
    | some bodies =>
      let (header, summary) := batchHeader items
      let lines := (text "<b>" ++ escape header ++ text "</b>") :: (if summary = [] then [] else [escape summary]) ++ bodies
      ⟨maskSecrets u ((text "\n").intercalate lines), true⟩
    | none => ⟨maskSecrets u (renderDiscordBatch u gmtime items dupWindowS), false⟩

end MikoV2.Alerting
