import Conformance.Dialect.Parser

/-! Parsers in use: the requests that a parser serves one after another, and the diagnostics that it
has reported meanwhile. -/

namespace Conformance.Dialect

inductive Request where
  | parse (source : String)
  | encode (encoding : Encoding)
  /-- Forget the diagnostics so far. -/
  | forget
  deriving DecidableEq

/-- A parser in use, with the diagnostics since they were last forgotten. -/
structure Session where
  parser : Parser
  reported : List Diagnostic := []

namespace Session

/-- Parses a source; its diagnostics come after the earlier ones. -/
def parse (session : Session) (source : String) :
    Except ParseFailure (Option Node) × Session :=
  let (result, parser, emitted) := session.parser.parse source
  (result, ⟨parser, session.reported ++ emitted⟩)

def encode (session : Session) (encoding : Encoding) : Session :=
  { session with parser := session.parser.setEncoding encoding }

def forget (session : Session) : Session := { session with reported := [] }

def serve (session : Session) : Request → Session
  | .parse source => (session.parse source).2
  | .encode encoding => session.encode encoding
  | .forget => session.forget

/-- Serves requests from left to right. -/
def serveAll (session : Session) (requests : List Request) : Session :=
  requests.foldl serve session

end Session

end Conformance.Dialect
