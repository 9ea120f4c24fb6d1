import Conformance.Text.Unseen

/-! Texts as messages show them. A quoted text stands between double quotes, with short escapes for
the usual controls and the code point of every other character that cannot be seen. Enclosed texts
stand on lines of their own. -/

namespace Conformance.Text

/-- The hexadecimal digits of a code point, in lower case and without leading zeros. -/
def hexDigits (n : Nat) : List Char := Nat.toDigits 16 n

/-- The characters that stand for one character of a quoted text. -/
def escape (c : Char) : List Char :=
  if c = '\x00' then ['\\', '0']
  else if c = '\t' then ['\\', 't']
  else if c = '\r' then ['\\', 'r']
  else if c = '\n' then ['\\', 'n']
  else if c = '"' then ['\\', '"']
  else if c = '\\' then ['\\', '\\']
  else if isUnseen c then ['\\', 'u', '\x7b'] ++ hexDigits c.toNat ++ ['\x7d']
  else [c]

/-- The characters of a text in double quotes. -/
def quoteChars (cs : List Char) : List Char := '"' :: (cs.flatMap escape ++ ['"'])

def quote (s : String) : String := String.ofList (quoteChars s.toList)

/-- Four blanks stand before what each line holds. `starts` says whether a line starts here. -/
def indent (starts : Bool) : List Char → List Char
  | [] => []
  | c :: rest =>
    let line := c :: indent (c == '\n') rest
    if starts then ' ' :: ' ' :: ' ' :: ' ' :: line else line

/-- Texts between an opening and a closing one, indented and with a comma after each. -/
def enclose (opening closing : String) (texts : List String) : String :=
  let inside := (texts.map fun text => text ++ ",\n").flatMap String.toList
  if texts.isEmpty then opening ++ closing
  else opening ++ "\n" ++ String.ofList (indent true inside) ++ closing

end Conformance.Text
