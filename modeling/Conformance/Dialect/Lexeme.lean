import Conformance.Dialect.Token
import Conformance.Text.Lines

/-! Lexemes: the pieces into which the lexical rules cut a source. Every rule says how many
characters it takes at the start of a text; the rule that takes the most wins, and of two that take
as many the earlier. -/

namespace Conformance.Dialect

open Text

inductive LexemeKind where
  | blanks
  | comment
  /-- A string literal without its closing quote. -/
  | openString
  | token (kind : TokenKind)
  deriving DecidableEq

/-- A character of a name, but for the first. -/
def isNameChar (c : Char) : Bool := c.isAlphanum || c == '_'

def isNameStart (c : Char) : Bool := c.isLower || c == '_'

/-- A blank between tokens of one line. -/
def isLineBlank (c : Char) : Bool := c == ' ' || c == '\t' || c == '\r'

/-- The length of the run at the start of a text of characters that satisfy `p`. -/
def runLength (p : Char → Bool) (cs : List Char) : Nat := (cs.takeWhile p).length

/-- One if a character that satisfies `p` starts the text, and zero otherwise. -/
def oneLength (p : Char → Bool) : List Char → Nat
  | [] => 0
  | c :: _ => if p c then 1 else 0

namespace LexicalRule

def fixed (text : List Char) (cs : List Char) : Nat :=
  if text.isPrefixOf cs then text.length else 0

def blanks (cs : List Char) : Nat := runLength isLineBlank cs

def comment : List Char → Nat
  | '#' :: rest => 1 + runLength (· != '\n') rest
  | _ => 0

def integer (cs : List Char) : Nat := runLength Char.isDigit cs

/-- The number of characters up to a quote that no backslash escapes, and whether there is one.
A lone backslash at the end escapes nothing and is left out. -/
def stringBody : List Char → Nat × Bool
  | [] => (0, false)
  | '"' :: _ => (0, true)
  | ['\\'] => (0, false)
  | '\\' :: _ :: rest =>
    let (length, closed) := stringBody rest
    (length + 2, closed)
  | _ :: rest =>
    let (length, closed) := stringBody rest
    (length + 1, closed)

def string : List Char → Nat
  | '"' :: rest =>
    match stringBody rest with
    | (length, true) => length + 2
    | (_, false) => 0
  | _ => 0

/-- A double quote and what follows it up to the next one. -/
def openString : List Char → Nat
  | '"' :: rest => 1 + (stringBody rest).1
  | _ => 0

/-- The operators that have a symbol of their own. -/
def symbolOperators : List String :=
  ["+", "-", "*", "/", "%", "==", "!=", "<=", ">=", "<", ">", "!"]

/-- A colon and a name, which may end in `?`, `!` or `=`. -/
def nameSymbol : List Char → Nat
  | ':' :: c :: rest =>
    if c.isAlpha || c == '_' then
      let length := runLength isNameChar rest
      2 + length + oneLength (fun d => d == '?' || d == '!' || d == '=') (rest.drop length)
    else 0
  | _ => 0

/-- A colon and an operator, the longest that fits. -/
def operatorSymbol : List Char → Nat
  | ':' :: rest =>
    match (symbolOperators.map fun text => fixed text.toList rest).foldl max 0 with
    | 0 => 0
    | length => 1 + length
  | _ => 0

/-- A name that starts with a small letter or an underscore, and a colon. -/
def label : List Char → Nat
  | c :: rest =>
    if isNameStart c then
      let length := runLength isNameChar rest
      if oneLength (· == ':') (rest.drop length) = 1 then 2 + length else 0
    else 0
  | [] => 0

/-- A name that starts with a small letter or an underscore, and may end in `?` or `!`. -/
def identifier : List Char → Nat
  | c :: rest =>
    if isNameStart c then
      let length := runLength isNameChar rest
      1 + length + oneLength (fun d => d == '?' || d == '!') (rest.drop length)
    else 0
  | [] => 0

/-- A name that starts with a capital letter. -/
def constant : List Char → Nat
  | c :: rest => if c.isUpper then 1 + runLength isNameChar rest else 0
  | [] => 0

end LexicalRule

/-- The lexical rules. The fixed texts come first, so that a keyword is not an identifier. -/
def lexicalRules : List (LexemeKind × (List Char → Nat)) :=
  TokenKind.fixedTexts.map (fun fixed => (.token fixed.1, LexicalRule.fixed fixed.2.toList)) ++
  [(.blanks, LexicalRule.blanks),
    (.comment, LexicalRule.comment),
    (.token .integer, LexicalRule.integer),
    (.token .string, LexicalRule.string),
    (.openString, LexicalRule.openString),
    (.token .symbol, LexicalRule.nameSymbol),
    (.token .symbol, LexicalRule.operatorSymbol),
    (.token .label, LexicalRule.label),
    (.token .identifier, LexicalRule.identifier),
    (.token .constant, LexicalRule.constant)]

/-- The better of two matches: the longer one, or the first of two of one length. -/
def longerMatch (best : Option (LexemeKind × Nat)) (kind : LexemeKind) (length : Nat) :
    Option (LexemeKind × Nat) :=
  match best with
  | none => if length = 0 then none else some (kind, length)
  | some (_, most) => if most < length then some (kind, length) else best

/-- The rule that takes the most characters at the start of a text, and how many it takes. -/
def longestMatch (cs : List Char) : Option (LexemeKind × Nat) :=
  lexicalRules.foldl (fun best rule => longerMatch best rule.1 (rule.2 cs)) none

structure Lexeme where
  kind : LexemeKind
  text : List Char
  deriving DecidableEq

theorem longerMatch_pos {best : Option (LexemeKind × Nat)} {kind : LexemeKind} {length : Nat}
    (h : ∀ m ∈ best, 0 < m.2) : ∀ m ∈ longerMatch best kind length, 0 < m.2 := by
  intro m hm
  unfold longerMatch at hm
  split at hm
  · split at hm
    · simp at hm
    · simp only [Option.mem_def, Option.some.injEq] at hm
      subst hm
      simp only
      omega
  · split at hm
    · simp only [Option.mem_def, Option.some.injEq] at hm
      subst hm
      simp only
      omega
    · exact h m hm

theorem foldl_longerMatch_pos (cs : List Char) (rules : List (LexemeKind × (List Char → Nat))) :
    ∀ best : Option (LexemeKind × Nat), (∀ m ∈ best, 0 < m.2) →
      ∀ m ∈ rules.foldl (fun best rule => longerMatch best rule.1 (rule.2 cs)) best, 0 < m.2 := by
  induction rules with
  | nil => exact fun _ h => h
  | cons rule rules ih => exact fun best h => ih _ (longerMatch_pos h)

/-- A match takes at least one character. -/
theorem longestMatch_pos {cs : List Char} {kind : LexemeKind} {length : Nat}
    (h : longestMatch cs = some (kind, length)) : 0 < length :=
  foldl_longerMatch_pos cs lexicalRules none (by simp) (kind, length) h

/-- The lexemes of a source up to the first character that starts none, and what is left from that
character on. -/
def lexemes (cs : List Char) : List Lexeme × List Char :=
  match cs with
  | [] => ([], [])
  | c :: rest =>
    match found : longestMatch (c :: rest) with
    | none => ([], c :: rest)
    | some (kind, length) =>
      have : 0 < length := longestMatch_pos found
      let (more, unread) := lexemes ((c :: rest).drop length)
      (⟨kind, (c :: rest).take length⟩ :: more, unread)
termination_by cs.length
decreasing_by
  simp only [List.length_drop, List.length_cons]
  omega

end Conformance.Dialect
