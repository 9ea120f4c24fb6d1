import Conformance.Proofs.Reread
import Conformance.Proofs.Verdict

/-! Parsed trees as texts: what the reader makes of the text of a tree that a parser gave. -/

namespace Conformance.Dialect

theorem Node.Sound.legible {n : Nat} {node : Node} (h : node.Sound n) :
    node.Every Node.Legible := h.mono fun _ lawful => lawful.writable

namespace Parser

/-- The text of a parsed tree is always read as a tree. It is the same tree exactly when its strings
have no characters, apart from tabs and line feeds, that a text shows by an escape. -/
theorem accepted_reread {parser : Parser} {source : String} {node : Node}
    (accepted : (parser.parse source).1 = .ok (some node)) :
    ∃ found, Node.read node.text = .ok found ∧
      (Node.same found node = true ↔ node.Every Node.Plain) := by
  have legible := (parse_sound accepted node rfl).legible
  exact ⟨node.reread, Node.read_write legible none, Node.same_reread node⟩

/-- A call with a tab in a string. -/
theorem accepted_reread_tab :
    ∃ node, (newest.parse "f -1, \"a\tb\"").1 = .ok (some node) ∧
      ∃ found, Node.read node.text = .ok found ∧
        (Node.same found node = true ↔ node.Every Node.Plain) := by
  have accepted : (newest.parse "f -1, \"a\tb\"").1.toOption.join.isSome = true := by
    decide +kernel
  cases ok : (newest.parse "f -1, \"a\tb\"").1 with
  | error fault =>
    rw [ok] at accepted
    cases accepted
  | ok tree =>
    cases tree with
    | none =>
      rw [ok] at accepted
      cases accepted
    | some node => exact ⟨node, rfl, accepted_reread ok⟩

/-- A carriage return in a string is read as the letter of its escape. -/
theorem carriageReturn_lost :
    ∃ node found, (newest.parse "\"\r\"").1 = .ok (some node) ∧
      Node.read node.text = .ok found ∧ Node.same found node = false := by
  have lost : ((newest.parse "\"\r\"").1.toOption.join.any fun node =>
      (Node.read node.text).toOption.any fun found => !Node.same found node) = true := by
    decide +kernel
  cases ok : (newest.parse "\"\r\"").1 with
  | error fault =>
    rw [ok] at lost
    cases lost
  | ok tree =>
    cases tree with
    | none =>
      rw [ok] at lost
      cases lost
    | some node =>
      cases found : Node.read node.text with
      | error fault =>
        simp [ok, found, Except.toOption] at lost
      | ok other =>
        simp only [ok, found, Except.toOption, Option.join_some, Option.any_some] at lost
        exact ⟨node, other, rfl, found, by simpa using lost⟩

end Parser

end Conformance.Dialect
