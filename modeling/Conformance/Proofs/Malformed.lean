import Conformance.Dialect.Family
import Conformance.Harness.Suite
import Conformance.Proofs.Blocks
import Conformance.Proofs.Passing

/-! Checks of cases with a malformed line. They fail with the first such line, before anything is
asked of the family. -/

namespace Conformance

/-- The lines of a case's markings that say something. -/
def Case.statedLines (case : Case) : List (List Char) :=
  Marking.stated (Text.lines case.markings.toList)

variable {case : Case} {line : String}

/-- A malformed line is what keeps the markings of a case from being read. -/
theorem Case.readMarkings_malformed (malformed : Marking.malformed? case.statedLines = some line) :
    case.readMarkings = .error (.malformedMarking line) := by
  have read : Marking.readBlock case.markings = (Marking.decoded case.statedLines, some line) := by
    rw [← malformed]
    exact Marking.readLines_eq _
  rw [readMarkings, read]

/-- That markings are of no use is not found out where they cannot be read. -/
theorem Case.refuseMarkings_malformed (malformed : Marking.malformed? case.statedLines = some line)
    (form : String) : case.refuseMarkings form = .error (.malformedMarking line) := by
  rw [refuseMarkings, readMarkings_malformed malformed]
  rfl

theorem Run.ofExcept_error_bind {α β : Type} {result : Except Failure α} {failure : Failure}
    (refused : result = .error failure) (next : α → Run β) (state : RunState) :
    (Run.ofExcept result >>= next) state = .error failure state := by
  rw [refused]
  rfl

/-- The lines of a block are read one after the other up to the first malformed one. This is given
back, and nothing ever after. Every form of check of a case with a malformed line fails with it, and
leaves the run as it was: no parser has been asked for, and the diagnostics are those of before. -/
theorem malformed_first (case : Case) :
    (∀ n, answer Marking.Reader.next (.ofBlock case.markings) n =
      ((Marking.decoded case.statedLines).map .ok ++
        (Marking.malformed? case.statedLines).toList.map .error)[n]?) ∧
      ∀ line, Marking.malformed? case.statedLines = some line →
        ∀ {Parser Node : Type} [Tree Node] (family : Family Parser Node)
          (assertion : Assertion Node) (state : RunState),
          family.assert case assertion state = .error (.malformedMarking line) state := by
  refine ⟨Marking.Reader.enumerates.answer_eq _, ?_⟩
  intro line malformed Parser Node _ family assertion state
  have unread := Case.readMarkings_malformed malformed
  have unrefused := Case.refuseMarkings_malformed malformed
  cases assertion with
  | parses tree => exact Run.ofExcept_error_bind unread _ state
  | diagnoses diagnostic => exact Run.ofExcept_error_bind unread _ state
  | diagnosesMany diagnostics => exact Run.ofExcept_error_bind (unrefused _) _ state
  | clean => exact Run.ofExcept_error_bind (unrefused _) _ state
  | context flags => exact Run.ofExcept_error_bind (unrefused _) _ state

/-- Neither the lines before a malformed one nor that the form has no use for markings makes a
difference. -/
theorem malformed_first_later :
    let case : Case := {
      code := "foo *bar"
      markings := "~ name\n\n   | ^^ expression (int/2)\n |xyz \t\n~ name"
      versions := some [⟨"1.8"⟩] }
    Marking.malformed? case.statedLines = some "xyz" ∧
      (∀ n, answer Marking.Reader.next (.ofBlock case.markings) n =
        [.ok ⟨some (.ofLength 0 1), "name", [], "~ name"⟩,
          .ok ⟨some (.ofLength 1 2), "expression", [⟨"int", 1⟩], " ^^ expression (int/2)"⟩,
          .error "xyz"][n]?) ∧
      ∀ state, Dialect.family.assert case (.diagnosesMany []) state =
        .error (.malformedMarking "xyz") state := by
  intro case
  have malformed : Marking.malformed? case.statedLines = some "xyz" := by decide +kernel
  have decoded : Marking.decoded case.statedLines =
      [⟨some (.ofLength 0 1), "name", [], "~ name"⟩,
        ⟨some (.ofLength 1 2), "expression", [⟨"int", 1⟩], " ^^ expression (int/2)"⟩] := by
    decide +kernel
  obtain ⟨answers, fails⟩ := malformed_first case
  rw [decoded, malformed] at answers
  exact ⟨malformed, answers, fails "xyz" malformed Dialect.family (.diagnosesMany [])⟩

end Conformance
