import Conformance.Dialect.Bookkeeping
import Conformance.Dialect.Node
import Conformance.Dialect.Reason
import Conformance.Dialect.Revision
import Conformance.Dialect.Token

/-! Parsing steps: they read tokens, keep the books and report diagnostics. A step that fails leaves
the books and the diagnostics as they stood at the failure. -/

namespace Conformance.Dialect

inductive ParseFault where
  /-- The source is not in the language; the message is that of the last diagnostic. -/
  | rejected (message : String)
  | badInteger (text : String)
  /-- The derivation is deeper than was allowed for. -/
  | depthExceeded
  | misplaced (start stop : Nat)
  deriving DecidableEq

/-- What does not change during a parse. -/
structure Setting where
  features : Features
  /-- The empty span at the end of the source. -/
  finish : Span

structure ParseState where
  /-- The tokens that have not been read. -/
  rest : List Token
  book : Bookkeeping := {}
  /-- The diagnostics so far, the first one first. -/
  emitted : List Diagnostic := []

abbrev Parse := ReaderT Setting (EStateM ParseFault ParseState)

namespace Parse

def keep (change : Bookkeeping → Bookkeeping) : Parse Unit :=
  modify fun state => { state with book := change state.book }

def nest (change : Nesting → Nesting) : Parse Unit :=
  keep fun book => { book with nesting := change book.nesting }

def books : Parse Bookkeeping := return (← get).book

def emit (diagnostic : Diagnostic) : Parse Unit :=
  modify fun state => { state with emitted := state.emitted ++ [diagnostic] }

/-- Reports a diagnostic and ends the parse with its message. -/
def reject {α : Type} (reason : Reason) (arguments : Arguments) (location : Span) : Parse α := do
  let diagnostic := reason.diagnostic arguments location
  emit diagnostic
  throw (.rejected diagnostic.message)

def peek : Parse (Option Token) := return (← get).rest.head?

def peekKind : Parse (Option TokenKind) := return (← peek).map Token.kind

def peekSecond : Parse (Option Token) := return (← get).rest.tail.head?

def at? (kind : TokenKind) : Parse Bool := return (← peekKind) == some kind

/-- Whether the next token has the given kind and directly follows the one before it. -/
def adjacent? (kind : TokenKind) : Parse Bool :=
  return (← peek).any fun token => token.kind == kind && !token.spaced

def atTerminator? : Parse Bool :=
  return (← peekKind) == some .newline || (← peekKind) == some .semicolon

def unexpected {α : Type} : Parse α := do
  match ← peek with
  | some token =>
    reject .unexpectedToken (.ofList [("token", token.kind.describe)]) token.span
  | none => reject .unexpectedToken (.ofList [("token", "$end")]) (← read).finish

def advance : Parse Unit := modify fun state => { state with rest := state.rest.tail }

def next : Parse Token := do
  match ← peek with
  | some token =>
    advance
    pure token
  | none => unexpected

def eat (kind : TokenKind) : Parse (Option Token) := do
  match ← peek with
  | some token =>
    if token.kind = kind then
      advance
      pure (some token)
    else pure none
  | none => pure none

/-- Reads the next token, which has to have the given kind. -/
def expect (kind : TokenKind) : Parse Token := do
  match ← eat kind with
  | some token => pure token
  | none => unexpected

/-- Passes over the tokens whose kinds satisfy `p`. -/
def skipWhile (p : TokenKind → Bool) : Parse Unit :=
  modify fun state => { state with rest := state.rest.dropWhile fun token => p token.kind }

def skipNewlines : Parse Unit := skipWhile (· == .newline)

def skipTerminators : Parse Unit := skipWhile fun kind => kind == .newline || kind == .semicolon

/-- Takes a step with flags changed. Afterwards the flags are as before, also if the step
failed. -/
def within {α : Type} (changes : List (Flag × Bool)) (step : Parse α) : Parse α :=
  fun setting state =>
    let saved := state.book.context
    let restore (state : ParseState) : ParseState :=
      { state with book := { state.book with context := saved } }
    let changed := { state with book := { state.book with context := saved.setAll changes } }
    match step setting changed with
    | .ok value state => .ok value (restore state)
    | .error fault state => .error fault (restore state)

def features : Parse Features := return (← read).features

end Parse

end Conformance.Dialect
