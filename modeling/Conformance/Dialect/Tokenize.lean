import Conformance.Dialect.Lexeme
import Conformance.Dialect.Position

/-! The tokens of a source: its lexemes without blanks and comments, each with its span. -/

namespace Conformance.Dialect

/-- Why a source has no tokens. -/
inductive LexError where
  | unexpectedChar (character : Char) (span : Span)
  /-- A string literal that is not closed; the span is that of its quote. -/
  | unterminatedString (span : Span)
  | misplaced (start stop : Nat)
  deriving DecidableEq

/-- Gives the lexemes from the byte `byte` on their places. A token is `spaced` if it is the first,
or if a blank, a comment or a line break precedes it. -/
def placeTokens (positions : Positions) (byte : Nat) (spaced : Bool) (unread : List Char) :
    List Lexeme → Except LexError (List Token)
  | [] =>
    match unread with
    | [] => .ok []
    | c :: _ =>
      match positions.span? byte (byte + c.utf8Size) with
      | none => .error (.misplaced byte (byte + c.utf8Size))
      | some (span, positions) =>
        .error (.unexpectedChar (positions.character span.start unread) (.ofLength span.start 1))
  | lexeme :: more =>
    let stop := byte + Text.bytes lexeme.text
    match positions.span? byte stop with
    | none => .error (.misplaced byte stop)
    | some (span, positions) =>
      match lexeme.kind with
      | .blanks | .comment => placeTokens positions stop true unread more
      | .openString => .error (.unterminatedString (.ofLength span.start 1))
      | .token kind => do
        let rest ← placeTokens positions stop (kind == .newline) unread more
        pure (⟨kind, span, String.ofList lexeme.text, spaced⟩ :: rest)

def tokenize (encoding : Encoding) (source : String) : Except LexError (List Token) :=
  let (found, unread) := lexemes source.toList
  placeTokens (.ofSource source.toList encoding) 0 true unread found

end Conformance.Dialect
