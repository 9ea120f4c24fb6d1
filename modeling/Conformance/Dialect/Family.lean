import Conformance.Dialect.Node.Printer
import Conformance.Dialect.Node.Reader
import Conformance.Dialect.Parser
import Conformance.Family

/-! The family of the language's parsers. -/

namespace Conformance.Dialect

def family : Family Parser Node where
  versions := versions
  create := Parser.create?
  setEncoding encoding parser := parser.setEncoding encoding
  parse := Parser.parse
  snapshot := Parser.snapshot
  compile := compileMessage?

/-- Reads a written tree, or says why it cannot. -/
def readTree (text : String) : Except String Node :=
  (Node.read text).mapError ReadError.message

/-- Fails with the name of a version that is no numbered revision. -/
def orUnrecognized {α : Type} (version : Version) : Option α → Except Failure α
  | some value => .ok value
  | none => .error (.unrecognizedVersion version.name)

def revisionsSince (version : Version) : Except Failure (List Version) :=
  orUnrecognized version (since? version)

def revisionsUntil (version : Version) : Except Failure (List Version) :=
  orUnrecognized version (until? version)

end Conformance.Dialect
