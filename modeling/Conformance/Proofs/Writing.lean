import Conformance.Proofs.Numerals

/-! Trees that are written by hand or by the printer. A tree is spelled if its symbols and its large
integers have texts that can stand in a list; strings may have any characters. The text of a spelled
tree means the same tree whether it is on one line or every child node has a line of its own. -/

namespace Conformance.Dialect

/-- A literal that can stand in a list: a symbol with a name, an integer of 64 bits as a number, and
any other integer as its digits. -/
def Child.Spelled : Child → Prop
  | .node _ | .str _ | .nil => True
  | .int value => InWord value
  | .bigInt text => ∃ value, Numeral text.toList value ∧ ¬ InWord value
  | .sym name => IsName name.toList

theorem Child.Spelled.writable {child : Child} (h : child.Spelled) : child.Writable := by
  cases child with
  | int value => exact fitsWord_iff.2 h
  | bigInt text =>
    obtain ⟨value, numeral, large⟩ := h
    refine integer?_eq_some_iff.2 ⟨value, numeral, ?_⟩
    rw [if_neg large, String.ofList_toList]
  | _ => exact h

namespace Node

/-- The literals of a node are spelled. -/
def Spelled (node : Node) : Prop := ∀ child ∈ node.allChildren, child.Spelled

/-- Both layouts of a tree are read, and as one tree. -/
theorem layouts_agree {node : Node} (spelled : node.Every Spelled) :
    ∃ found, read node.text = .ok found ∧ read node.indentedText = .ok found := by
  have legible : node.Every Legible :=
    spelled.mono fun _ spelled child mem => (spelled child mem).writable
  exact ⟨node.reread, read_write legible none, read_write legible (some 0)⟩

/-- A call with quotes, a line break and a parenthesis among its literals. -/
theorem layouts_agree_quoted :
    ∃ string number call : Node, string = .bare .str [.str "a \")\n\\"] ∧
      number = .bare .int [.bigInt "-9223372036854775809"] ∧
      call = .bare .send [.node string, .sym "\"", .node number] ∧ call.Every Spelled ∧
      ∃ found, read call.text = .ok found ∧ read call.indentedText = .ok found := by
  have leaf {kind : NodeKind} {child : Child} (literal : child.node? = none) (h : child.Spelled) :
      (bare kind [child]).Every Spelled :=
    every_iff.2 ⟨List.forall_mem_singleton.2 h, List.forall_mem_singleton.2 (by simp [literal])⟩
  have numeral : Numeral "-9223372036854775809".toList (-2 ^ 63 - 1) :=
    integerValue?_eq_some_iff.1 (by decide +kernel)
  let string := bare .str [.str "a \")\n\\"]
  let number := bare .int [.bigInt "-9223372036854775809"]
  have string_spelled : string.Every Spelled := leaf rfl trivial
  have number_spelled : number.Every Spelled := leaf rfl ⟨_, numeral, by decide⟩
  have symbol : (Child.sym "\"").Spelled := show IsName "\"".toList by decide
  have spelled : (bare .send [.node string, .sym "\"", .node number]).Every Spelled := by
    refine every_iff.2 ⟨?_, ?_⟩
    · exact List.forall_mem_cons.2 ⟨trivial, List.forall_mem_cons.2 ⟨symbol,
        List.forall_mem_singleton.2 trivial⟩⟩
    · simpa [allChildren, bare] using ⟨string_spelled, number_spelled⟩
  exact ⟨string, number, _, rfl, rfl, rfl, spelled, layouts_agree spelled⟩

end Node

end Conformance.Dialect
