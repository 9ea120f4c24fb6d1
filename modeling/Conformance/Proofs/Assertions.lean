import Conformance.Dialect.Family
import Conformance.Proofs.Passing
import Conformance.Proofs.RoundTrip

/-! Checks of the language's own parsers. -/

namespace Conformance.Dialect

theorem Node.resolve_sound {n : Nat} {root node : Node} {path : Path} (h : root.Sound n)
    (found : Tree.resolve root path = some node) : node.Sound n := by
  induction path generalizing root with
  | nil =>
    cases found
    exact h
  | cons step path ih =>
    obtain ⟨child, hc, rest⟩ := Option.bind_eq_some_iff.1 found
    refine ih (h.child ?_) rest
    exact (List.mem_filter.1 (List.mem_of_getElem? hc)).1

theorem Parser.parse_frozen {parser : Parser} {source : String} {tree : Option Node}
    (accepted : (parser.parse source).1 = .ok tree) : Family.Frozen tree := by
  intro path node location found located
  obtain ⟨root, hr, resolved⟩ := Option.bind_eq_some_iff.1 found
  have sound := Node.resolve_sound (Parser.parse_sound accepted root hr) resolved
  obtain ⟨other, same, frozen⟩ := sound.lawful.frozen
  have both : node.location? = some location := located
  rw [same] at both
  cases both
  exact frozen

theorem Parser.reliable (parser : Parser) : family.Reliable parser where
  frozen := Parser.parse_frozen
  rejects := Parser.parse_rejects
  clean := by
    intro code tree accepted version
    show (parser.parse code).2.1.snapshot.audit version = .ok ()
    rw [Parser.parse_snapshot accepted]
    exact audit_idle version

theorem create?_isSome : ∀ version ∈ versions, (Parser.create? version).isSome = true := by decide

theorem family_dependable : family.Dependable where
  create := fun version supported => Option.isSome_iff_exists.1 (create?_isSome version supported)
  reliable := fun _ parser _ => parser.reliable
  reencoded := fun _ _ _ => Parser.reliable _
  encoding := fun parser code => parser.parse_setEncoding .utf32 code

/-- From every state of a run, the check that a snippet has an expected tree passes exactly when its
whole block of markings can be read and, for every targeted version, a new parser accepts the snippet
with the expected tree, in which every marked path leads to a node whose field has the marked
range. -/
theorem assertParses_passes_iff (expected : Option Node) (case : Case) (state : RunState) :
    (∃ after, family.assertParses expected case state = .ok () after) ↔
      ∃ markings, Marking.readBlock case.markings = (markings, none) ∧
        ∀ version ∈ versions, version ∈ case.targets versions →
          ∃ parser tree, Parser.create? version = some parser ∧
            (parser.parse case.code).1 = .ok tree ∧ sameTree tree expected = true ∧
              ∀ marking ∈ markings, marking.Holds tree := by
  have passes := family_dependable.assertParses_passes expected case state
  constructor
  · rintro ⟨after, passed⟩
    obtain ⟨markings, read, all⟩ := passes.1 ⟨(), after, passed⟩
    refine ⟨markings, read, fun version supported targeted => ?_⟩
    obtain ⟨parser, tree, created, accepts⟩ := all version supported targeted
    exact ⟨parser, tree, created, accepts.result, accepts.same, accepts.markings⟩
  · rintro ⟨markings, read, all⟩
    refine exists_comm.1 (passes.2 ⟨markings, read, fun version supported targeted => ?_⟩) |>.imp ?_
    · obtain ⟨parser, tree, created, result, same, holds⟩ := all version supported targeted
      exact ⟨parser, tree, created, result, same, holds⟩
    · rintro after ⟨_, passed⟩
      exact passed

end Conformance.Dialect
