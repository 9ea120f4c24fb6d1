import Conformance.Harness.Run

/-! The checks of a family: that a snippet has a given tree, reports given diagnostics or none, or
records given flags. -/

namespace Conformance

structure Case where
  code : String
  /-- The block of markings under the snippet. -/
  markings : String := ""
  /-- The versions to be checked; all of them if none are named. -/
  versions : Option (List Version) := none

namespace Case

def targets (case : Case) (supported : List Version) : List Version :=
  case.versions.getD supported

def readMarkings (case : Case) : Except Failure (List Marking) :=
  match Marking.readBlock case.markings with
  | (markings, none) => .ok markings
  | (_, some line) => .error (.malformedMarking line)

/-- Fails if a case has markings, for a form of check that has no use for them. -/
def refuseMarkings (case : Case) (form : String) : Except Failure Unit := do
  let markings ← case.readMarkings
  if markings.isEmpty then pure () else throw (.fixture (.markingsRefused form))

end Case

def compareRange (version : Version) (marking : Marking) (actual : Option Span) : Run Unit :=
  if marking.range = actual then pure ()
  else Run.mismatch version (.range marking actual)

/-- The highlight that a marking of highlights selects: the first one, or the one whose number is
the only step of the path. -/
def highlightIndex (marking : Marking) : Except Failure Nat :=
  match marking.path with
  | [] => .ok 0
  | [⟨kind, 0⟩] =>
    match Text.word64? kind.toList with
    | some index => .ok index
    | none => .error (.malformedMarking marking.line)
  | _ => .error (.malformedMarking marking.line)

/-- The range of a diagnostic that a marking names. -/
def diagnosticRange (version : Version) (diagnostic : Diagnostic) (marking : Marking) :
    Except Failure Span :=
  if marking.field = "location" then .ok diagnostic.location
  else if marking.field = "highlights" then do
    let index ← highlightIndex marking
    match diagnostic.highlights[index]? with
    | some span => pure span
    | none =>
      throw (.mismatch version (.noHighlight index diagnostic.highlights.length))
  else .error (.unknownDiagnosticField marking.field)

def sameTree {Node : Type} [Tree Node] : Option Node → Option Node → Bool
  | some a, some b => Tree.same a b
  | none, none => true
  | _, _ => false

namespace Family

variable {Parser Node : Type} [Tree Node] (family : Family Parser Node)

/-- Parses a snippet that need not be in the language. A parser that accepts it may have nothing
open afterwards. -/
def parseTolerantly (subject : Subject Parser) (code : String) : Run Unit := do
  let (result, subject) ← family.parseWith subject code
  match result with
  | .ok _ => family.audit subject
  | .error (.rejected _) => pure ()
  | .error failure => throw (.parse subject.version failure)

def parseStrictly (subject : Subject Parser) (code : String) :
    Run (Option Node × Subject Parser) := do
  let (result, subject) ← family.parseWith subject code
  match result with
  | .ok tree => pure (tree, subject)
  | .error failure => throw (.parse subject.version failure)

/-- Fails if a marking does not agree with the tree of a snippet. -/
def checkMarking (version : Version) (tree : Option Node) (marking : Marking) : Run Unit := do
  match tree.bind fun root => Tree.resolve root marking.path with
  | none => throw (.pathNotFound marking.path (tree.map Tree.text))
  | some node =>
    match Tree.location? node with
    | none => Run.mismatch version (.noLocation marking.path)
    | some location =>
      if location.frozen then
        match location.field? marking.field with
        | none => Run.mismatch version (.noField marking.path marking.field)
        | some actual => compareRange version marking actual
      else Run.mismatch version (.notFrozen marking.path)

/-- Checks that a subject gives a snippet its tree, that the markings agree with the tree, and that
nothing is left open. -/
def checkParse (expected : Option Node) (code : String) (markings : List Marking)
    (subject : Subject Parser) : Run Unit := do
  let (tree, subject) ← family.parseStrictly subject code
  if sameTree tree expected then
    markings.forM (checkMarking subject.version tree)
    family.audit subject
  else
    Run.mismatch subject.version
      (.tree code (expected.map Tree.layout) (tree.map Tree.layout))

/-- Checks that a snippet has the expected tree: once in either encoding in the versions of the
case. The other versions only may not fail, apart from rejecting the snippet. -/
def assertParses (expected : Option Node) (case : Case) : Run Unit := do
  let markings ← Run.ofExcept case.readMarkings
  let targeted := case.targets family.versions
  family.withVersions targeted (family.checkParse expected case.code markings)
  family.withVersions targeted fun subject =>
    family.checkParse expected case.code markings (family.reencode subject .utf32)
  family.withVersions (family.versionsExcept targeted) fun subject =>
    family.parseTolerantly subject case.code

/-- Fails if diagnostic number `index` is not the expected one. -/
def compareDiagnostic (version : Version) (index : Nat) (actual : Diagnostic)
    (expected : ExpectedDiagnostic) : Run Unit := do
  if actual.level ≠ expected.level then
    Run.mismatch version (.level index expected.level actual.level)
  if actual.reason ≠ expected.reason then
    Run.mismatch version (.reason index expected.reason actual.reason)
  if !actual.arguments.same expected.arguments then
    Run.mismatch version (.arguments index expected.arguments actual.arguments)
  match family.compile expected.reason expected.arguments with
  | none => throw (.unknownReason expected.reason)
  | some message =>
    if actual.message ≠ message then
      Run.mismatch version (.message index message actual.message)

/-- Compares diagnostics pairwise, from number `index` on. -/
def compareDiagnostics (version : Version) (index : Nat) :
    List Diagnostic → List ExpectedDiagnostic → Run Unit
  | actual :: actuals, expected :: others => do
    family.compareDiagnostic version index actual expected
    compareDiagnostics version (index + 1) actuals others
  | _, _ => pure ()

/-- Fails if the diagnostics of a subject are not the expected ones, and gives them otherwise. -/
def expectDiagnostics (version : Version) (expected : List ExpectedDiagnostic) (code : String) :
    Run (List Diagnostic) := do
  let emitted ← Run.diagnostics
  if emitted.length ≠ expected.length then
    Run.mismatch version (.count code expected.length emitted)
  family.compareDiagnostics version 0 emitted expected
  pure emitted

/-- Checks that a snippet reports the expected diagnostics and no others. -/
def checkDiagnostics (expected : List ExpectedDiagnostic) (code : String)
    (subject : Subject Parser) : Run (List Diagnostic) := do
  family.parseTolerantly subject code
  family.expectDiagnostics subject.version expected code

/-- Checks that a snippet reports one diagnostic, whose ranges are the marked ones. -/
def assertDiagnoses (expected : ExpectedDiagnostic) (case : Case) : Run Unit := do
  let markings ← Run.ofExcept case.readMarkings
  family.withVersions (case.targets family.versions) fun subject => do
    let emitted ← family.checkDiagnostics [expected] case.code subject
    emitted.head?.toList.forM fun diagnostic =>
      markings.forM fun marking => do
        let actual ← Run.ofExcept (diagnosticRange subject.version diagnostic marking)
        compareRange subject.version marking (some actual)

def assertDiagnosesMany (expected : List ExpectedDiagnostic) (case : Case) : Run Unit := do
  Run.ofExcept (case.refuseMarkings "assert_diagnoses_many")
  family.withVersions (case.targets family.versions) fun subject =>
    discard (family.checkDiagnostics expected case.code subject)

/-- Checks that a snippet reports nothing. -/
def refuteDiagnoses (case : Case) : Run Unit := do
  Run.ofExcept (case.refuseMarkings "refute_diagnoses")
  family.withVersions (case.targets family.versions) fun subject =>
    discard (family.checkDiagnostics [] case.code subject)

/-- The flags that the nodes of a tree recorded. -/
def recordedFlags (tree : Option Node) : List Flags :=
  match tree with
  | none => []
  | some root =>
    (Tree.dive (fun node => (Tree.context? node).isSome) root).filterMap Tree.context?

/-- Checks that exactly one node of a snippet recorded flags, and that they are the expected
ones. -/
def assertContext (expected : List Flag) (case : Case) : Run Unit := do
  Run.ofExcept (case.refuseMarkings "assert_context")
  family.withVersions (case.targets family.versions) fun subject => do
    let (tree, subject) ← family.parseStrictly subject case.code
    match recordedFlags tree with
    | [actual] =>
      if actual ≠ Flags.ofList expected then
        Run.mismatch subject.version (.context case.code (Flags.ofList expected) actual)
      family.audit subject
    | probes => throw (.fixture (.probeCount case.code probes.length))

end Family

/-- What a check expects of a snippet. -/
inductive Expectation where
  /-- The snippet has the tree with this text, or no tree. -/
  | parses (tree : Option String)
  | diagnoses (diagnostic : ExpectedDiagnostic)
  | diagnosesMany (diagnostics : List ExpectedDiagnostic)
  /-- The snippet reports nothing. -/
  | clean
  /-- The snippet records the flags at its only probe. -/
  | context (flags : List Flag)
  deriving DecidableEq

namespace Family

variable {Parser Node : Type} [Tree Node] (family : Family Parser Node)

/-- Reads the text of an expected tree. -/
def readExpected (read : String → Except String Node) (text : Option String) :
    Except Failure (Option Node) :=
  match text with
  | none => .ok none
  | some text =>
    match read text with
    | .ok node => .ok (some node)
    | .error reason => .error (.fixture (.unreadableTree text reason))

/-- Checks a case. `read` reads the text of a tree, or says why it cannot. -/
def check (read : String → Except String Node) (case : Case) : Expectation → Run Unit
  | .parses tree => do
    let expected ← Run.ofExcept (readExpected read tree)
    family.assertParses expected case
  | .diagnoses diagnostic => family.assertDiagnoses diagnostic case
  | .diagnosesMany diagnostics => family.assertDiagnosesMany diagnostics case
  | .clean => family.refuteDiagnoses case
  | .context flags => family.assertContext flags case

end Family

end Conformance
