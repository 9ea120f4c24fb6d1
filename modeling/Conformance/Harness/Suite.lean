import Conformance.Harness.Assertion

/-! Suites of checks. The checks of a suite share what a run keeps, and a check that fails does not
keep the later ones from being run. -/

namespace Conformance

/-- A form of check, with what it expects of a snippet. -/
inductive Assertion (Node : Type) where
  /-- The snippet has the tree, or no tree. -/
  | parses (tree : Option Node)
  | diagnoses (diagnostic : ExpectedDiagnostic)
  | diagnosesMany (diagnostics : List ExpectedDiagnostic)
  /-- The snippet reports nothing. -/
  | clean
  /-- The snippet records the flags at its only probe. -/
  | context (flags : List Flag)

/-- The same case for other versions. -/
def Case.targeting (case : Case) (versions : List Version) : Case :=
  { case with versions := some versions }

/-- How a run from a state ends. -/
def Run.result {α : Type} (run : Run α) (state : RunState) : Except Failure α :=
  match run state with
  | .ok value _ => .ok value
  | .error failure _ => .error failure

/-- What is kept after a run, whether it passes or fails. -/
def RunState.after {α : Type} (state : RunState) (run : Run α) : RunState :=
  match run state with
  | .ok _ after => after
  | .error _ after => after

namespace Family

variable {Parser Node : Type} [Tree Node] (family : Family Parser Node)

def assert (case : Case) : Assertion Node → Run Unit
  | .parses tree => family.assertParses tree case
  | .diagnoses diagnostic => family.assertDiagnoses diagnostic case
  | .diagnosesMany diagnostics => family.assertDiagnosesMany diagnostics case
  | .clean => family.refuteDiagnoses case
  | .context flags => family.assertContext flags case

/-- Runs the checks of a suite from left to right. -/
def runSuite (state : RunState) (suite : List (Case × Assertion Node)) : RunState :=
  suite.foldl (fun state (case, assertion) => state.after (family.assert case assertion)) state

end Family

end Conformance
