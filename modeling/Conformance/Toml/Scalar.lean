import Conformance.Decimal.Shortest
import Conformance.Toml.Scan
import Conformance.Toml.Value

/-! The values without parts: strings, numbers, truth values, dates and times. -/

namespace Conformance.Toml

open Scan

/-! ### Blanks and comments -/

/-- A character that may stand in a comment or a literal string. -/
def isPrintable (c : Char) : Bool := c == '\t' || (0x20 ≤ c.toNat && c.toNat != 0x7f)

def blanks : Scan Unit := discard (takeWhile fun c => c == ' ' || c == '\t')

def newline : Scan Unit := char '\n' <|> literal ['\r', '\n']

/-- A comment up to the end of its line. -/
def comment : Scan Unit := do
  char '#'
  discard (takeWhile isPrintable)
  if !((← ahead newline) || (← ahead finish)) then failure

def space : Scan Unit :=
  discard (many (discard (satisfy fun c => c == ' ' || c == '\t') <|> newline <|> comment))

/-! ### Strings -/

def hexValue? (c : Char) : Option Nat :=
  if c.isDigit then some (c.toNat - '0'.toNat)
  else if 'a' ≤ c && c ≤ 'f' then some (c.toNat - 'a'.toNat + 10)
  else if 'A' ≤ c && c ≤ 'F' then some (c.toNat - 'A'.toNat + 10)
  else none

/-- A code point of `count` digits in base 16. -/
def codePoint (count : Nat) : Scan Char := fun cs => do
  let digits ← (cs.take count).mapM hexValue?
  let code := digits.foldl (fun n digit => 16 * n + digit) 0
  if digits.length = count && (code < 0xd800 || (0xdfff < code && code ≤ 0x10ffff)) then
    some (Char.ofNat code, cs.drop count)
  else none

/-- The character that a backslash and what follows it stand for. -/
def escapedChar : Scan Char := do
  char '\\'
  match ← satisfy fun _ => true with
  | 'b' => pure '\x08'
  | 't' => pure '\t'
  | 'n' => pure '\n'
  | 'f' => pure '\x0c'
  | 'r' => pure '\r'
  | 'e' => pure '\x1b'
  | '"' => pure '"'
  | '\\' => pure '\\'
  | 'x' => codePoint 2
  | 'u' => codePoint 4
  | 'U' => codePoint 8
  | _ => failure

def basicString : Scan String := do
  char '"'
  let body ← many (satisfy (fun c => isPrintable c && c != '"' && c != '\\') <|> escapedChar)
  char '"'
  pure (String.ofList body)

def literalString : Scan String := do
  char '\''
  let body ← takeWhile fun c => isPrintable c && c != '\''
  char '\''
  pure (String.ofList body)

/-- A line break in a string of several lines, which keeps it as it is written. -/
def lineBreak : Scan (List Char) :=
  (do char '\n'; pure ['\n']) <|> (do literal ['\r', '\n']; pure ['\r', '\n'])

/-- A backslash at the end of a line takes the line break and the blanks after it away. -/
def joinedLines : Scan (List Char) := do
  char '\\'
  blanks
  newline
  discard (many (discard (satisfy fun c => c == ' ' || c == '\t') <|> newline))
  pure []

/-- One or two quotes inside a string of several lines. -/
def innerQuotes (quote : Char) : Scan (List Char) := do
  let quotes ← takeWhile (· == quote)
  if quotes.isEmpty || 2 < quotes.length then failure
  pure quotes

/-- The quotes that end a string of several lines: three, and up to two of the string before
them. -/
def closingQuotes (quote : Char) : Scan (List Char) := do
  let quotes ← takeWhile (· == quote)
  if quotes.length < 3 || 5 < quotes.length then failure
  pure (quotes.drop 3)

/-- A character of a string of several lines that stands for itself. -/
def plainChar (p : Char → Bool) : Scan (List Char) := do
  let c ← satisfy p
  pure [c]

/-- A string of several lines between double quotes. -/
def longBasicString : Scan String := do
  literal ['"', '"', '"']
  discard (optional newline)
  let body ← many
    (plainChar (fun c => isPrintable c && c != '"' && c != '\\') <|> lineBreak <|>
      joinedLines <|> (return [← escapedChar]) <|> innerQuotes '"')
  let last ← closingQuotes '"'
  pure (String.ofList (body.flatten ++ last))

def longLiteralString : Scan String := do
  literal ['\'', '\'', '\'']
  discard (optional newline)
  let body ← many
    (plainChar (fun c => isPrintable c && c != '\'') <|> lineBreak <|> innerQuotes '\'')
  let last ← closingQuotes '\''
  pure (String.ofList (body.flatten ++ last))

def string : Scan String :=
  longBasicString <|> longLiteralString <|> basicString <|> literalString

/-! ### Numbers -/

/-- Digits with single underscores between them. -/
def digitRun (p : Char → Bool) : Scan (List Char) := do
  let first ← satisfy p
  let more ← many do
    discard (optional (char '_'))
    satisfy p
  pure (first :: more)

def sign : Scan (Option Bool) :=
  optional ((do char '-'; pure true) <|> (do char '+'; pure false))

/-- Digits that do not start with a superfluous zero. -/
def wholePart : Scan (List Char) := do
  let digits ← digitRun Char.isDigit
  if digits.head? == some '0' && 1 < digits.length then failure
  pure digits

def basedInteger : Scan Value := do
  char '0'
  let base ←
    (do char 'x'; pure 16) <|> (do char 'o'; pure 8) <|> (do char 'b'; pure (2 : Nat))
  let digits ← digitRun fun c => (hexValue? c).any (· < base)
  pure (.integer (digits.foldl (fun n c => base * n + (hexValue? c).getD 0) 0 : Nat))

def decimalInteger : Scan Value := do
  let negative := (← sign).getD false
  let digits ← wholePart
  let value : Int := Text.digitsValue digits
  pure (.integer (if negative then -value else value))

def exponent : Scan Int := do
  discard (satisfy fun c => c == 'e' || c == 'E')
  let negative := (← sign).getD false
  let digits ← digitRun Char.isDigit
  let value : Int := Text.digitsValue digits
  pure (if negative then -value else value)

/-- A number with a point or an exponent. -/
def decimalFloat : Scan Value := do
  let negative := (← sign).getD false
  let whole ← wholePart
  let part ← optional do
    char '.'
    digitRun Char.isDigit
  let power ← optional exponent
  if part.isNone && power.isNone then failure
  let part := part.getD []
  let digits := Text.digitsValue (whole ++ part)
  match Decimal.text? digits (power.getD 0 - part.length) with
  | some text => pure (.float (if negative then "-" ++ text else text))
  | none => pure .tooLarge

def specialFloat : Scan Value := do
  let negative := (← sign).getD false
  (do
    literal ['i', 'n', 'f']
    pure (.float (if negative then "-inf" else "inf"))) <|>
  (do
    literal ['n', 'a', 'n']
    pure (.float "NaN"))

def boolean : Scan Value :=
  (do literal "true".toList; pure (.boolean true)) <|>
  (do literal "false".toList; pure (.boolean false))

/-! ### Dates and times -/

/-- A number of `count` digits, from `low` up to `high`. -/
def field (count low high : Nat) : Scan (List Char) := fun cs =>
  let digits := cs.take count
  if digits.length = count && digits.all Char.isDigit && low ≤ Text.digitsValue digits &&
      Text.digitsValue digits ≤ high then
    some (digits, cs.drop count)
  else none

def daysOf (year month : Nat) : Nat :=
  if month = 2 then
    if (year % 4 = 0 && year % 100 ≠ 0) || year % 400 = 0 then 29 else 28
  else if month = 4 || month = 6 || month = 9 || month = 11 then 30
  else 31

def date : Scan (List Char) := do
  let year ← field 4 0 9999
  char '-'
  let month ← field 2 1 12
  char '-'
  let day ← field 2 1 (daysOf (Text.digitsValue year) (Text.digitsValue month))
  pure (year ++ ['-'] ++ month ++ ['-'] ++ day)

/-- The digits of a fraction of a second that count. -/
def fraction : Scan (List Char) := do
  char '.'
  let first ← satisfy Char.isDigit
  let more ← takeWhile Char.isDigit
  let kept := (((first :: more).take 9).reverse.dropWhile (· == '0')).reverse
  pure (if kept.isEmpty then [] else '.' :: kept)

/-- A time of the day. The seconds are zero if they are left out. -/
def time : Scan (List Char) := do
  let hour ← field 2 0 23
  char ':'
  let minute ← field 2 0 59
  let second ← optional do
    char ':'
    let second ← field 2 0 60
    let part ← optional fraction
    pure (':' :: second ++ part.getD [])
  pure (hour ++ [':'] ++ minute ++ second.getD [':', '0', '0'])

/-- The distance of a time from the time at longitude zero. No distance has a plus sign. -/
def offset : Scan (List Char) :=
  (do discard (satisfy fun c => c == 'Z' || c == 'z'); pure ['Z']) <|>
  (do
    let sign ← satisfy fun c => c == '+' || c == '-'
    let hour ← field 2 0 23
    char ':'
    let minute ← field 2 0 59
    let sign := if Text.digitsValue (hour ++ minute) = 0 then '+' else sign
    pure (sign :: hour ++ [':'] ++ minute))

/-- A date, a time, or both. -/
def datetime : Scan Value := do
  let text ←
    (do
      let day ← date
      let clock ← optional do
        discard (satisfy fun c => c == 'T' || c == 't' || c == ' ')
        let clock ← time
        let shift ← optional offset
        pure ('T' :: clock ++ shift.getD [])
      pure (day ++ clock.getD [])) <|>
    time
  pure (.datetime (String.ofList text))

/-- Whether a text is a date or a time and nothing else. -/
def isDatetime (text : String) : Bool :=
  (datetime text.toList).any fun read => read.2.isEmpty

/-- The end of a number or a word: no character that could belong to it follows. -/
def scalarEnd : Scan Unit := do
  if (← peek?).any fun c => c.isAlphanum || c == '_' || c == '-' || c == '+' || c == '.' || c == ':'
  then failure

/-- A value of one kind, and the end of it. -/
def whole (scan : Scan Value) : Scan Value := do
  let value ← scan
  scalarEnd
  pure value

def scalar : Scan Value :=
  (return .string (← string)) <|> whole boolean <|> whole datetime <|> whole basedInteger <|>
    whole decimalFloat <|> whole decimalInteger <|> whole specialFloat

end Conformance.Toml
