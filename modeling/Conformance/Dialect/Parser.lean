import Conformance.Dialect.Grammar
import Conformance.Dialect.Tokenize
import Conformance.Failure

/-! Parsers of the language. -/

namespace Conformance.Dialect

/-- A parser of one version. Between two parses it keeps what the last one left open. -/
structure Parser where
  version : Version
  features : Features
  encoding : Encoding := .utf8
  book : Bookkeeping := {}

/-- What a parse gives: a tree, no tree for an empty source, or a fault; what it left open; and the
diagnostics that it reported. -/
structure Outcome where
  result : Except ParseFault (Option Node)
  book : Bookkeeping
  emitted : List Diagnostic

/-- Takes a step at the start of a source's tokens. -/
def Outcome.ofStep (features : Features) (finish : Nat) (tokens : List Token)
    (step : Parse (Option Node)) (book : Bookkeeping := {}) : Outcome :=
  match step ⟨features, .ofLength finish 0⟩ { rest := tokens, book } with
  | .ok tree state => ⟨.ok tree, state.book, state.emitted⟩
  | .error fault state => ⟨.error fault, state.book, state.emitted⟩

/-- The step that reports why a source has no tokens. -/
def rejectLexError : LexError → Parse (Option Node)
  | .unexpectedChar character span =>
    Parse.reject .unexpectedChar (.ofList [("character", String.singleton character)]) span
  | .unterminatedString span => Parse.reject .unterminatedString .empty span
  | .misplaced start stop => throw (.misplaced start stop)

/-- Parses a source, where `book` says what is open. -/
def parseSource (features : Features) (encoding : Encoding) (source : String)
    (book : Bookkeeping := {}) : Outcome :=
  match tokenize encoding source with
  | .ok tokens =>
    Outcome.ofStep features source.toList.length tokens (Grammar.program tokens.length) book
  | .error e => Outcome.ofStep features source.toList.length [] (rejectLexError e) book

def ParseFault.toFailure : ParseFault → ParseFailure
  | rejected message => .rejected message
  | badInteger text => .internal s!"invalid integer literal `{text}`"
  | depthExceeded => .internal "the source is nested too deeply"
  | misplaced start stop => .internal s!"span end {stop} precedes start {start}"

namespace Parser

def create? (version : Version) : Option Parser :=
  (features? version).map fun features => { version, features }

def setEncoding (parser : Parser) (encoding : Encoding) : Parser := { parser with encoding }

def snapshot (parser : Parser) : Snapshot := parser.book.snapshot

/-- Parses a source. What an earlier parse left open is forgotten. -/
def parse (parser : Parser) (source : String) :
    Except ParseFailure (Option Node) × Parser × List Diagnostic :=
  let outcome := parseSource parser.features parser.encoding source parser.book.reset
  (outcome.result.mapError ParseFault.toFailure, { parser with book := outcome.book },
    outcome.emitted)

end Parser

end Conformance.Dialect
