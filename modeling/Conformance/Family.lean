import Conformance.Encoding
import Conformance.Failure

/-! Families of parsers: what a check has to know of the parsers of a language. -/

namespace Conformance

/-- The parsers of a language in all its versions. -/
structure Family (Parser Node : Type) where
  /-- The supported versions, in the order in which they are checked. -/
  versions : List Version
  /-- A parser of a version, which finds characters as `Encoding.utf8` says. -/
  create : Version → Option Parser
  setEncoding : Encoding → Parser → Parser
  /-- Parses a source: the result, the parser afterwards and the diagnostics it reported. -/
  parse : Parser → String → Except ParseFailure (Option Node) × Parser × List Diagnostic
  snapshot : Parser → Snapshot
  /-- The message for a reason and its arguments. -/
  compile : String → Arguments → Option String

end Conformance
