import Conformance.Proofs.Halting

/-! Parses go on from one position in the tokens to a later one, and an accepted one goes on to the
end. -/

namespace Conformance.Dialect

/-- A state in which the first `position` of some tokens have been read. -/
structure ParseState.At (s : ParseState) (tokens : List Token) (position : Nat) : Prop where
  le : position ≤ tokens.length
  rest_eq : s.rest = tokens.drop position

/-- Where at least `k` more tokens have been read. -/
theorem ParseState.At.later {s t : ParseState} {tokens : List Token} {position k : Nat}
    (here : s.At tokens position) (past : Past k s.rest t.rest) :
    ∃ later, t.At tokens later ∧ position + k ≤ later := by
  obtain ⟨shorter, suffix⟩ := past
  rw [here.rest_eq] at shorter suffix
  have left : t.rest <:+ tokens := suffix.trans (List.drop_suffix position tokens)
  refine ⟨tokens.length - t.rest.length, ⟨Nat.sub_le _ _, List.suffix_iff_eq_drop.1 left⟩, ?_⟩
  have le := here.le
  rw [List.length_drop] at shorter
  omega

namespace Parse

variable {α : Type}

/-- A step that ends, wherever it succeeds, at least `k` positions later and not past the last
token. -/
def Advances (k : Nat) (step : Parse α) : Prop :=
  ∀ {setting : Setting} {s t : ParseState} {tokens : List Token} {position : Nat} {value : α},
    s.At tokens position → Yields step setting s value t →
      ∃ later, t.At tokens later ∧ position + k ≤ later

theorem Halts.advances {room : List Token → Prop} {step deeper : Parse α} {k : Nat}
    (h : ∀ tokens, Halts (room tokens) step deeper k tokens) : Advances k step :=
  fun here yields => here.later (((h _).ends _ _ rfl).of_yields yields)

end Parse

namespace Grammar

open Parse

/-- How far the parts of the grammar read where they succeed. The statements of a body may be none,
and after the selector of a call nothing has to follow; everything else reads a token. -/
structure Advancing (sub : Derivation) : Prop where
  statements : ∀ stops, Advances 0 (sub (.statements stops))
  expression : Advances 1 (sub .expression)
  operators : ∀ power, Advances 1 (sub (.operators power))
  unary : Advances 1 (sub .unary)
  chain : Advances 1 (chain sub)
  primary : Advances 1 (primary sub)
  call : ∀ receiver dot selector, Advances 0 (call sub receiver dot selector)
  argument : ∀ firstOfCommand, Advances 1 (argument sub firstOfCommand)
  pattern : Advances 1 (sub .pattern)
  hashPattern : Advances 1 (hashPattern sub)
  clause : Advances 1 (clause sub)

/-- Constructs read on in every depth, enough or not: one that succeeds had enough. -/
theorem derive_advancing (depth : Nat) : Advancing (derive depth) :=
  have hsub := derive_halts (Nat.le_refl depth)
  { statements := fun _ => Halts.advances fun _ => hsub.statements id
    expression := Halts.advances fun _ => hsub.expression id
    operators := fun _ => Halts.advances fun _ => hsub.operators id
    unary := Halts.advances fun _ => hsub.unary id
    chain := Halts.advances fun _ => chain_halts hsub
    primary := Halts.advances fun _ => primary_halts hsub
    call := fun _ _ _ => Halts.advances fun _ => call_halts hsub _ _ _
    argument := fun _ => Halts.advances fun _ => argument_halts hsub _
    pattern := Halts.advances fun _ => hsub.pattern id
    hashPattern := Halts.advances fun _ => hashPattern_halts hsub
    clause := Halts.advances fun _ => clause_halts hsub }

/-- A source that is accepted is read to the end. -/
theorem program_rest_eq {n : Nat} {setting : Setting} {s t : ParseState} {tree : Option Node}
    (accepted : Yields (program n) setting s tree t) : t.rest = [] := by
  unfold program at accepted
  rw [yields_keep_bind] at accepted
  obtain ⟨body, after, statements, accepted⟩ := yields_bind.1 accepted
  rw [yields_keep_bind] at accepted
  obtain ⟨rfl, rfl⟩ := yields_pure.1 accepted
  exact ParseState.rest_eq_nil (Derives.stops (derives_of_yields _ statements) rfl)

/-- Every parse comes to an end: whatever the tokens are, the depth that is allowed for them is not
what a parse fails for, and in a greater depth it ends in the same way. In every depth the parts of
the grammar that succeed read on; and what is accepted has been read to the end. -/
theorem parse_progresses :
    (∀ setting (s : ParseState) more,
      program (s.rest.length + more) setting s = program s.rest.length setting s ∧
        ∀ after, program s.rest.length setting s ≠ .error .depthExceeded after) ∧
      (∀ depth, Advancing (derive depth)) ∧
      ∀ setting (s : ParseState) tree after,
        program s.rest.length setting s = .ok tree after → after.rest = [] := by
  refine ⟨fun setting s more => ?_, derive_advancing, fun _ _ _ _ => program_rest_eq⟩
  have halts := program_halts (Nat.le_refl s.rest.length) (Nat.le_add_right s.rest.length more)
  refine ⟨halts.same trivial setting s rfl, fun after failed => ?_⟩
  have ends := halts.ends setting s rfl
  unfold Ends at ends
  rw [failed] at ends
  exact ends trivial rfl

/-- An operand with two signs: a depth of four is enough for it, and it is read to the end. -/
theorem parse_progresses_signs :
    let tokens : List Token :=
      [⟨.minus, .ofLength 0 1, "-", true⟩, ⟨.bang, .ofLength 1 1, "!", false⟩,
        ⟨.kwNil, .ofLength 2 3, "nil", false⟩]
    let setting : Setting := ⟨⟨false, false, false⟩, .ofLength 5 0⟩
    let start : ParseState := { rest := tokens }
    (∃ node after later, Yields (derive 4 .unary) setting start node after ∧
      after.At tokens later ∧ 0 + 1 ≤ later) ∧
      program (tokens.length + 5) setting start = program tokens.length setting start ∧
      ∃ tree after, program tokens.length setting start = .ok tree after ∧ after.rest = [] := by
  intro tokens setting start
  obtain ⟨halts, advancing, finished⟩ := parse_progresses
  obtain ⟨node, after, yields⟩ : ∃ node after, Yields (derive 4 .unary) setting start node after :=
    ⟨_, _, rfl⟩
  obtain ⟨later, there, further⟩ := (advancing 4).unary ⟨Nat.zero_le _, rfl⟩ yields
  obtain ⟨tree, last, accepted⟩ :
      ∃ tree after, program tokens.length setting start = .ok tree after := ⟨_, _, rfl⟩
  exact ⟨⟨node, after, later, yields, there, further⟩, (halts setting start 5).1, tree, last,
    accepted, finished setting start tree last accepted⟩

end Grammar

end Conformance.Dialect
