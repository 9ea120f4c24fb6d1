import Conformance.Diagnostic
import Conformance.Marking
import Conformance.Snapshot
import Conformance.Version

/-! The ways in which a check fails, and their messages. -/

namespace Conformance

inductive ParseFailure where
  /-- The source is not in the language. -/
  | rejected (message : String)
  /-- The parser could not do its work. -/
  | internal (message : String)
  deriving DecidableEq

def ParseFailure.message : ParseFailure → String
  | rejected message => "syntax error: " ++ message
  | internal message => message

/-- Why a manifest or a check cannot be used as it is written. -/
inductive FixtureFault where
  | markingsRefused (form : String)
  | probeCount (code : String) (count : Nat)
  | unreadableTree (text reason : String)
  | duplicateCase (name : String)
  | unreadableFile (path reason : String)
  | shape (message : String)
  | inFile (path : String) (fault : FixtureFault)
  | other (message : String)
  deriving DecidableEq

def FixtureFault.message : FixtureFault → String
  | markingsRefused form => s!"`{form}` does not accept source map annotations"
  | probeCount code count =>
    s!"expected exactly one context probe in `{code}`, found {count}"
  | unreadableTree text reason => s!"cannot read expected AST `{text}`: {reason}"
  | duplicateCase name => s!"duplicate case name `{name}`"
  | unreadableFile path reason => s!"cannot read `{path}`: {reason}"
  | shape message => message
  | inFile path fault => path ++ ": " ++ fault.message
  | other message => message

def rangeText : Option Span → String
  | some span => span.text
  | none => "no range"

/-- How what a parser did differs from what a check states. -/
inductive Mismatch where
  /-- The expected tree and the actual one, as they are compared, where there are trees. -/
  | tree (code : String) (expected actual : Option String)
  | context (code : String) (expected actual : Flags)
  | noLocation (path : Path)
  | notFrozen (path : Path)
  | noField (path : Path) (field : String)
  | range (marking : Marking) (actual : Option Span)
  /-- So many diagnostics were expected, and others were reported. -/
  | count (code : String) (expected : Nat) (reported : List Diagnostic)
  | level (index : Nat) (expected actual : Level)
  | reason (index : Nat) (expected actual : String)
  | arguments (index : Nat) (expected actual : Arguments)
  | message (index : Nat) (expected actual : String)
  | noHighlight (index held : Nat)
  deriving DecidableEq

/-- The text that says how one part of a diagnostic differs. -/
def differenceText (what : String) (index : Nat) (expected actual : String) : String :=
  s!"{what} of diagnostic #{index} does not match: expected {expected}, found {actual}"

/-- What a message says of a difference in words. -/
def Mismatch.text : Mismatch → String
  | tree code _ _ => s!"AST does not match for `{code}`:"
  | context code _ _ => s!"context flags do not match for `{code}`:"
  | noLocation path => "node at `" ++ path.text ++ "` has no location"
  | notFrozen path => "location of node at `" ++ path.text ++ "` is not frozen"
  | noField path field =>
    "location of node at `" ++ path.text ++ "` has no `" ++ field ++ "` field"
  | range marking actual =>
    "range of `" ++ marking.field ++ "` does not match `" ++ marking.line ++ "`: expected " ++
      rangeText marking.range ++ ", found " ++ rangeText actual
  | count code expected reported =>
    s!"expected {expected} diagnostic(s) for `{code}`, found {reported.length}"
  | level index expected actual => differenceText "level" index expected.title actual.title
  | reason index expected actual =>
    differenceText "reason" index (Text.quote expected) (Text.quote actual)
  | arguments index expected actual =>
    differenceText "arguments" index expected.text actual.text
  | message index expected actual =>
    differenceText "message" index (Text.quote expected) (Text.quote actual)
  | noHighlight index held => s!"diagnostic has no highlight #{index} (it has {held})"

/-- How other programs draw what messages show and do not say. -/
structure Drawing where
  /-- Two texts, with the lines in which they differ. -/
  comparison (expected actual : String) : String
  /-- A report under the lines of a source, unless it does not fit them. -/
  excerpt? (source : String) (report : Report) : Option String

/-- Diagnostics under their source, or on a line each if one of them does not fit it. -/
def Drawing.reports (drawing : Drawing) (diagnostics : List Diagnostic) (source : String) :
    String :=
  match diagnostics.mapM fun d => drawing.excerpt? source (d.report source) with
  | some drawn => String.join drawn
  | none => "\n".intercalate (diagnostics.map Diagnostic.text)

/-- A tree that there need not be, as it is compared. -/
def treeText : Option String → String
  | none => "None"
  | some tree => Text.enclose "Some(" ")" [tree]

def flagsText (flags : Flags) : String :=
  Text.enclose "\x7b" "\x7d" (flags.active.map Flag.title)

/-- What is drawn under the words: the trees or the flags compared, or what was reported. -/
def Mismatch.drawn? (drawing : Drawing) : Mismatch → Option String
  | tree _ expected actual =>
    some (drawing.comparison (treeText expected) (treeText actual))
  | context _ expected actual =>
    some (drawing.comparison (flagsText expected) (flagsText actual))
  | count code _ reported => some (drawing.reports reported code)
  | _ => none

inductive Failure where
  | malformedMarking (line : String)
  /-- No node stands at the path; `tree` is the text of the tree, if there is one. -/
  | pathNotFound (path : Path) (tree : Option String)
  | unrecognizedVersion (name : String)
  | unknownDiagnosticField (field : String)
  | unknownReason (reason : String)
  | fixture (fault : FixtureFault)
  | parse (version : Version) (failure : ParseFailure)
  | mismatch (version : Version) (difference : Mismatch)
  | dirtyState (version : Version) (residue : Residue)
  deriving DecidableEq

namespace Failure

/-- What a failure says in words. -/
def message : Failure → String
  | malformedMarking line => "cannot parse source map description line: " ++ Text.quote line
  | pathNotFound path tree =>
    "no entity with AST path `" ++ path.text ++ "` in:\n" ++ tree.getD "(no tree)"
  | unrecognizedVersion name => s!"unrecognized version `{name}`"
  | unknownDiagnosticField field => s!"unknown diagnostic range `{field}`"
  | unknownReason reason => s!"cannot render a message for reason `{reason}`"
  | fixture fault => "invalid fixture: " ++ fault.message
  | parse version failure => "(" ++ version.name ++ ") " ++ failure.message
  | mismatch version difference => "(" ++ version.name ++ ") " ++ difference.text
  | dirtyState version residue => "(" ++ version.name ++ ") " ++ residue.message

/-- A failure as it is displayed: what it says, and what is drawn under it. -/
def display (drawing : Drawing) (failure : Failure) : String :=
  match failure with
  | mismatch _ difference =>
    match difference.drawn? drawing with
    | some drawn => failure.message ++ "\n" ++ drawn
    | none => failure.message
  | _ => failure.message

/-- What is drawn stands under the words. -/
theorem display_eq_append (drawing : Drawing) (failure : Failure) :
    ∃ drawn, failure.display drawing = failure.message ++ drawn := by
  unfold display
  split
  · split
    · exact ⟨_, String.append_assoc⟩
    · exact ⟨"", String.append_empty.symm⟩
  · exact ⟨"", String.append_empty.symm⟩

/-- Whether the check itself is at fault, and not the parser. -/
def isFixtureFailure : Failure → Bool
  | malformedMarking _ | pathNotFound _ _ | unrecognizedVersion _ | unknownDiagnosticField _
  | unknownReason _ | fixture _ => true
  | parse _ _ | mismatch _ _ | dirtyState _ _ => false

end Failure

/-- Fails if a parser of the version has something open. -/
def Snapshot.audit (version : Version) (snapshot : Snapshot) : Except Failure Unit :=
  match snapshot.residue? with
  | none => .ok ()
  | some residue => .error (.dirtyState version residue)

end Conformance
