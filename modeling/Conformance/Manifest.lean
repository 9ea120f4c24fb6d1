import Conformance.Harness.Assertion
import Conformance.Toml.Document

/-! Manifests: documents that list cases, each with what is expected of it. -/

namespace Conformance

structure ManifestCase where
  name : String
  case : Case
  expectation : Expectation

inductive ManifestFault where
  | notToml
  | fixture (fault : FixtureFault)
  deriving DecidableEq

namespace Manifest

open Toml

/-! ### Shapes

A value of the wrong shape is described by what it is and what was expected in its place. -/

/-- What an integer is, in a message. One of more than 128 bits is none. -/
def describeInteger (n : Int) : Except String String :=
  if isWord64 n then .ok s!"integer `{n}`"
  else if isSigned128 n then .ok s!"integer `{n}` as i128"
  else if isWord128 n then .ok s!"integer `{n}` as u128"
  else .error "integer number overflowed"

/-- What a value is, in a message. A number out of range is none. -/
def describe : Value → Except String String
  | .string value => .ok ("string " ++ Text.quote value)
  | .integer value => describeInteger value
  | .float text => .ok s!"floating point `{text}`"
  | .tooLarge => .error "floating-point number overflowed"
  | .boolean value => .ok s!"boolean `{value}`"
  | .array _ => .ok "sequence"
  | .table _ => .ok "map"

def wrongType {α : Type} (value : Value) (expected : String) : Except String α := do
  throw ("invalid type: " ++ (← describe value) ++ ", expected " ++ expected)

/-- Passes over a value that nothing asks for. Its numbers have to be in range. -/
def passOver : Value → Except String Unit :=
  Value.forLeaves fun value => discard (describe value)

/-- Keeps a value until it is known what to expect of it. Its integers have to have 64 bits. -/
def keep : Value → Except String Unit :=
  Value.forLeaves fun
    | .integer n => if isWord64 n then pure () else wrongType (.integer n) "any value"
    | value => discard (describe value)

def asString : Value → Except String String
  | .string value => .ok value
  | value => wrongType value "a string"

def asList : Value → Except String (List Value)
  | .array elements => .ok elements
  | value => wrongType value "a sequence"

def required {α : Type} (name : String) : Option α → Except String α
  | some value => .ok value
  | none => .error s!"missing field `{name}`"

/-- Reads the value of a key, if the key has one. -/
def optionally {α : Type} (read : Value → Except String α) (key : String)
    (entries : List (String × Value)) : Except String (Option α) :=
  (Value.lookup? key entries).mapM read

def variant {α : Type} (variants : List (String × α)) (name : String) : Except String α :=
  match variants.find? fun variant => variant.1 == name with
  | some variant => .ok variant.2
  | none =>
    let names := variants.map fun variant => "`" ++ variant.1 ++ "`"
    .error (s!"unknown variant `{name}`, expected one of " ++ ", ".intercalate names)

/-- One of the named variants, as its name or as a table with its name and nothing else. -/
def asVariant {α : Type} (variants : List (String × α)) : Value → Except String α
  | .string name => variant variants name
  | .table [(name, content)] => do
    let chosen ← variant variants name
    match content with
    | .table [] => pure chosen
    | other => wrongType other "unit"
  | .table _ => .error "invalid value: map, expected map with a single key"
  | value => wrongType value "string or map"

def asLevel : Value → Except String Level :=
  asVariant (Level.all.map fun level => (level.name, level))

def asFlag : Value → Except String Flag :=
  asVariant (Flag.all.map fun flag => (flag.name, flag))

/-- Arguments, in the order of their names. -/
def asArguments : Value → Except String Arguments
  | .table entries => do
    let pairs ← entries.mapM fun entry => return (entry.1, ← asString entry.2)
    pure (.ofList pairs)
  | value => wrongType value "a map"

/-- The expected diagnostic that some entries describe. Entries are read in the order of their
keys. -/
def diagnosticOf (entries : List (String × Value)) : Except String ExpectedDiagnostic := do
  let arguments ← optionally asArguments "arguments" entries
  let level ← optionally asLevel "level" entries
  let reason ← optionally asString "reason" entries
  pure
    { level := ← required "level" level
      reason := ← required "reason" reason
      arguments := arguments.getD .empty }

/-- An expected diagnostic whose parts are listed without their names. -/
def diagnosticOfList : List Value → Except String ExpectedDiagnostic
  | [] => .error "invalid length 0, expected struct ExpectedDiagnostic with 3 elements"
  | level :: rest => do
    let level ← asLevel level
    match rest with
    | [] => .error "invalid length 1, expected struct ExpectedDiagnostic with 3 elements"
    | [reason] => return { level, reason := ← asString reason }
    | reason :: arguments :: more =>
      let reason ← asString reason
      let arguments ← asArguments arguments
      if more.isEmpty then pure { level, reason, arguments }
      else .error s!"invalid length {more.length + 3}, expected 3 elements in sequence"

def asDiagnostic : Value → Except String ExpectedDiagnostic
  | .table entries => diagnosticOf entries
  | .array elements => diagnosticOfList elements
  | value => wrongType value "struct ExpectedDiagnostic"

inductive Form where
  | parses
  | diagnoses
  | diagnosesMany
  | clean
  | context
  deriving DecidableEq

/-- The forms with their names. -/
def forms : List (String × Form) :=
  [("parses", .parses), ("diagnoses", .diagnoses), ("diagnoses_many", .diagnosesMany),
    ("clean", .clean), ("context", .context)]

def asForm : Value → Except String Form
  | .string name => variant forms name
  | value => wrongType value "variant identifier"

/-- The expectation of a form that some entries describe. -/
def expectationOf (entries : List (String × Value)) : Form → Except String Expectation
  | .parses => return .parses (← optionally asString "ast" entries)
  | .diagnoses => return .diagnoses (← diagnosticOf entries)
  | .diagnosesMany => do
    let diagnostics ← optionally asList "diagnostics" entries
    let diagnostics ← diagnostics.mapM (·.mapM asDiagnostic)
    return .diagnosesMany (← required "diagnostics" diagnostics)
  | .clean => .ok .clean
  | .context => do
    let flags ← optionally asList "flags" entries
    return .context (← (flags.getD []).mapM asFlag)

def asVersions (value : Value) : Except String (List Version) := do
  (← asList value).mapM fun name => return Version.mk (← asString name)

/-- Reads an entry that every case may have, and keeps any other for the expectation. -/
def checkEntry (entry : String × Value) : Except String Unit :=
  if ["code", "name", "source_maps"].contains entry.1 then discard (asString entry.2)
  else if entry.1 = "versions" then discard (asVersions entry.2)
  else keep entry.2

/-- The case that some entries describe. The entries are checked in the order of their keys before
anything is made of them. -/
def caseOf (entries : List (String × Value)) : Except String ManifestCase := do
  entries.forM checkEntry
  let code ← optionally asString "code" entries
  let name ← optionally asString "name" entries
  let markings ← optionally asString "source_maps" entries
  let versions ← optionally asVersions "versions" entries
  let name ← required "name" name
  let code ← required "code" code
  let form ← required "expect" (← optionally asForm "expect" entries)
  let expectation ← expectationOf entries form
  pure ⟨name, { code, markings := markings.getD "", versions }, expectation⟩

def asCase : Value → Except String ManifestCase
  | .table entries => caseOf entries
  | value => wrongType value "struct FixtureCase"

def asCases (value : Value) : Except String (List ManifestCase) := do
  (← asList value).mapM asCase

/-- The cases of a document. A document without any has an empty list. The entries are read in the
order of their keys. -/
def casesOf (entries : List (String × Value)) : Except String (List ManifestCase) :=
  entries.foldlM
    (fun cases entry =>
      if entry.1 = "case" then asCases entry.2 else (passOver entry.2).map fun _ => cases) []

/-- The first name that occurred before. -/
def firstRepeated (seen : List String) : List String → Option String
  | [] => none
  | name :: rest => if seen.contains name then some name else firstRepeated (name :: seen) rest

/-- The cases of a document, which have different names. -/
def namedCases (entries : List (String × Value)) : Except FixtureFault (List ManifestCase) :=
  match casesOf entries with
  | .error message => .error (.shape message)
  | .ok cases =>
    match firstRepeated [] (cases.map ManifestCase.name) with
    | some name => .error (.duplicateCase name)
    | none => .ok cases

/-- Reads a manifest. Only a document of plain values has a fault of its shape or its names; any
other that gives no cases is no document. -/
def read (text : String) : Except ManifestFault (List ManifestCase) :=
  match parse? text with
  | none => .error .notToml
  | some entries =>
    match namedCases entries with
    | .ok cases => .ok cases
    | .error fault =>
      .error (if havePlain entries then .fixture fault else .notToml)

/-- Reads the manifest in the file with the given path. What is given of the file is its text, or
the reason why it cannot be read. -/
def readNamed (path : String) (contents : Except String String) :
    Except ManifestFault (List ManifestCase) :=
  match contents with
  | .error reason => .error (.fixture (.unreadableFile path reason))
  | .ok text =>
    (read text).mapError fun
      | .notToml => .notToml
      | .fixture fault => .fixture (.inFile path fault)

/-- Checks the cases of a manifest one after another, each in a run of its own state, and gives the
failures. -/
def runCases {Parser Node : Type} [Tree Node] (family : Family Parser Node)
    (readTree : String → Except String Node) (cases : List ManifestCase) :
    List (ManifestCase × Option Failure) :=
  cases.map fun entry =>
    match (family.check readTree entry.case entry.expectation).run {} with
    | .ok () _ => (entry, none)
    | .error failure _ => (entry, some failure)

end Manifest

end Conformance
