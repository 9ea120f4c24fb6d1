import Conformance.Family

/-! Runs of checks. A run keeps the diagnostics of the parser that was checked last, and a journal
of what the family was asked. -/

namespace Conformance

inductive Inquiry where
  | create (version : Version)
  | parse (version : Version) (encoding : Encoding) (source : String)
  deriving DecidableEq

structure RunState where
  /-- The diagnostics since the last parser was made, the first one first. -/
  diagnostics : List Diagnostic := []
  /-- The inquiries so far, the first one first. -/
  journal : List Inquiry := []

/-- A part of a run. A part that fails keeps what it has done. -/
abbrev Run := EStateM Failure RunState

structure Subject (Parser : Type) where
  version : Version
  encoding : Encoding
  parser : Parser

namespace Run

/-- Goes on with a value, or fails. -/
def ofExcept {α : Type} : Except Failure α → Run α
  | .ok value => pure value
  | .error failure => throw failure

def diagnostics : Run (List Diagnostic) := return (← get).diagnostics

def clearDiagnostics : Run Unit := modify fun state => { state with diagnostics := [] }

def enter (inquiry : Inquiry) : Run Unit :=
  modify fun state => { state with journal := state.journal ++ [inquiry] }

/-- Fails with a difference that a version shows. -/
def mismatch {α : Type} (version : Version) (difference : Mismatch) : Run α :=
  throw (.mismatch version difference)

end Run

namespace Family

variable {Parser Node : Type} (family : Family Parser Node)

/-- The supported versions without the given ones. -/
def versionsExcept (excluded : List Version) : List Version :=
  family.versions.filter fun version => !excluded.contains version

def parserFor (version : Version) : Run (Subject Parser) := do
  if family.versions.contains version then
    Run.enter (.create version)
    match family.create version with
    | some parser => pure ⟨version, .utf8, parser⟩
    | none => throw (.unrecognizedVersion version.name)
  else throw (.unrecognizedVersion version.name)

/-- The supported versions among the requested ones, in the order in which they are checked. -/
def targets (requested : List Version) : List Version :=
  family.versions.filter requested.contains

/-- Makes a parser of a version and checks it. The diagnostics of the last parser are forgotten. -/
def visit {α : Type} (check : Subject Parser → Run α) (version : Version) : Run α := do
  Run.clearDiagnostics
  let subject ← family.parserFor version
  check subject

/-- Visits every supported version among the requested ones. The first failure ends the run. -/
def withVersions (requested : List Version) (check : Subject Parser → Run Unit) : Run Unit :=
  (family.targets requested).forM (family.visit check)

/-- Lets a subject parse a source, and keeps its diagnostics. -/
def parseWith (subject : Subject Parser) (source : String) :
    Run (Except ParseFailure (Option Node) × Subject Parser) := do
  Run.enter (.parse subject.version subject.encoding source)
  let (result, parser, emitted) := family.parse subject.parser source
  modify fun state => { state with diagnostics := state.diagnostics ++ emitted }
  pure (result, { subject with parser })

/-- Changes the way in which a subject finds characters. -/
def reencode (subject : Subject Parser) (encoding : Encoding) : Subject Parser :=
  { subject with encoding, parser := family.setEncoding encoding subject.parser }

/-- Fails if a subject has something open. -/
def audit (subject : Subject Parser) : Run Unit :=
  Run.ofExcept ((family.snapshot subject.parser).audit subject.version)

end Family

end Conformance
