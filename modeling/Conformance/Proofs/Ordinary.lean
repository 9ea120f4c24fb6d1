import Conformance.Proofs.Numbered
import Conformance.Proofs.StaticRules

/-! Numbered parameters that are rejected. A parse that reports one came to its place from the body
of a block or a lambda literal that declares parameters, and into no body in between. -/

namespace Conformance.Dialect

namespace Grammar

variable {features : Features} {p q : Spot}

/-! ### Bodies on the way to a place -/

/-- A body is to be read at a place: a block, or a lambda literal, a method or a class. All that is
entered from there is in that body. -/
def Spot.StartsBody (spot : Spot) : Prop :=
  (∃ call, spot.phrase = .blockAfter call) ∨
    spot.phrase = .primary ∧ ∃ kind ∈ spot.state.kind?, kind ∈ [TokenKind.arrow, .kwDef, .kwClass]

/-- The parameters of the block or the lambda literal that is to be read at a place. -/
inductive Spot.Declares : Spot → Node → Prop where
  | block {call : Node} {s s1 : ParseState} {around : Around} {first : Token} {r : List Token}
      {parameters : Node × Bool} : s.rest = first :: r →
      BlockParameters (((s.leaving r).nested .saveStacks).keeping (·.openScope true))
        parameters s1 →
      Declares ⟨.blockAfter call, s, around⟩ parameters.1
  | lambda {s s1 : ParseState} {around : Around} {arrow : Token} {r : List Token}
      {parameters : Node × Bool} : s.Next .arrow arrow r →
      ParenthesizedParameters (((s.leaving r).nested .pushLambda).keeping (·.openScope true))
        parameters s1 →
      Declares ⟨.primary, s, around⟩ parameters.1

/-- From one place the parse comes to another in the same body. -/
def Stays (features : Features) (p q : Spot) : Prop := Enters features p q ∧ ¬ p.StartsBody

theorem Derives.rigid_eq {phrase : Phrase} {value : phrase.Result} {s t : ParseState}
    (h : Derives features phrase s value t) :
    t.book.numbering.map Numbering.rigid = s.book.numbering.map Numbering.rigid :=
  congrArg Frame.numbering h.frame_eq

theorem Opens.rigid_eq {outer inner : Phrase} {s t : ParseState} {around : Around}
    (h : Opens features outer s inner t) (stays : ¬ Spot.StartsBody ⟨outer, s, around⟩) :
    t.book.numbering.map Numbering.rigid = s.book.numbering.map Numbering.rigid := by
  cases h with
  | statement | unassigned | firstOperand | operand | minus | bang | primary | adjacentCall
  | wordCall | parenthesized | condition | definedWord | definedParens | subject | dotCall | actuals
  | parens | command | argument | plainArgument | signedArgument | value | entry | clause => rfl
  | moreStatements _ derived | operatorsAfter derived | moreOperators _ _ _ derived
  | callsAfter _ _ derived | loopBody _ derived | clauses _ _ derived | moreCalls _ _ derived
  | blockAfter derived | moreArguments derived | moreClauses derived => exact derived.rigid_eq
  | otherwise _ _ subject _ clauses => exact clauses.rigid_eq.trans subject.rigid_eq
  | clauseBody _ pattern same =>
    subst same
    exact pattern.rigid_eq
  | assigned => exact congrArg Frame.numbering (Bookkeeping.frame_declare _ _)
  | lambdaBody _ next => exact absurd (.inr ⟨rfl, _, next.kind?_eq, by decide⟩) stays
  | classBody next => exact absurd (.inr ⟨rfl, _, next.kind?_eq, by decide⟩) stays
  | blockBody => exact absurd (.inl ⟨_, rfl⟩) stays

/-- Within a body the use of its numbered parameters may rise, and no other one starts or ends. -/
theorem Stays.rigid_eq (h : Stays features p q) :
    q.state.book.numbering.map Numbering.rigid = p.state.book.numbering.map Numbering.rigid := by
  obtain ⟨enters, stays⟩ := h
  cases enters with
  | opens opens => exact opens.rigid_eq stays
  | methodBody next => exact absurd (.inr ⟨rfl, _, next.kind?_eq, by decide⟩) stays
  | clausePattern | hashEntries | entryValue => rfl
  | moreEntries _ derived => exact derived.rigid_eq

theorem BlockParameters.nonempty {s t : ParseState} {parameters : Node × Bool}
    (h : BlockParameters s parameters t) (some : parameters.2 = true) :
    parameters.1.allChildren ≠ [] := by
  cases h with
  | bars | none => cases some
  | list => simpa [parametersNode, Node.located, Node.allChildren] using some

theorem ParenthesizedParameters.nonempty {s t : ParseState} {parameters : Node × Bool}
    (h : ParenthesizedParameters s parameters t) (some : parameters.2 = true) :
    parameters.1.allChildren ≠ [] := by
  cases h with
  | none => cases some
  | list => simpa [parametersNode, Node.located, Node.allChildren] using some

theorem ordinary_of_rigid {ordinary : Bool} {highest : Nat}
    (h : (Numbering.body 0 ordinary).rigid = .body highest true) : ordinary = true := by
  cases ordinary
  · cases h
  · rfl

/-- A body in which numbered parameters may not stand is that of a block or a lambda literal that
declares parameters. -/
theorem Enters.declares (h : Enters features p q) (starts : p.StartsBody) {highest : Nat}
    (inside : (q.state.book.numbering.map Numbering.rigid).head? = some (.body highest true)) :
    ∃ parameters, p.Declares parameters ∧ parameters.allChildren ≠ [] := by
  obtain ⟨phrase, s, around⟩ := p
  obtain ⟨call, rfl⟩ | ⟨rfl, kind, here, among⟩ := starts
  · cases h with
    | opens opens =>
      cases opens with
      | blockBody _ read parameters =>
        have ordinary := ordinary_of_rigid (Option.some.inj inside)
        exact ⟨_, .block read parameters, parameters.nonempty ordinary⟩
  · -- What else is entered from here starts with another token.
    have other {found : TokenKind} (first : s.kind? = some found) : found = kind :=
      Option.some.inj (first.symm.trans here)
    cases h with
    | opens opens =>
      cases opens with
      | lambdaBody _ read parameters =>
        have ordinary := ordinary_of_rigid (Option.some.inj inside)
        exact ⟨_, .lambda read parameters, parameters.nonempty ordinary⟩
      | classBody => cases inside
      | adjacentCall next | wordCall next | parenthesized next | condition next | loopBody next
      | definedWord next | definedParens next | subject next | clauses _ next | otherwise _ next =>
        obtain rfl := other next.kind?_eq
        exact absurd among (by decide)
    | methodBody _ _ parameters =>
      have closed := congrArg (fun n => (n.map Numbering.rigid).head?) parameters.numbering_eq
      cases closed.symm.trans inside

/-- At a place where numbered parameters may not stand, the innermost body is that of a block or a
lambda literal that declares parameters. -/
theorem innermost_declares {tokens : List Token} {place : Spot}
    (reached : Relation.ReflTransGen (Enters features) (.start tokens) place) {highest : Nat}
    (inside : (place.state.book.numbering.map Numbering.rigid).head? =
      some (.body highest true)) :
    ∃ outer inner parameters, Relation.ReflTransGen (Enters features) (.start tokens) outer ∧
      outer.Declares parameters ∧ parameters.allChildren ≠ [] ∧ Enters features outer inner ∧
      Relation.ReflTransGen (Stays features) inner place := by
  -- On the last step: it starts a body, or the innermost one is that of before.
  induction reached with
  | refl => cases inside
  | @tail before place reached enters ih =>
    by_cases starts : before.StartsBody
    · obtain ⟨parameters, declares, nonempty⟩ := enters.declares starts inside
      exact ⟨before, place, parameters, reached, declares, nonempty, enters, .refl⟩
    · have stays : Stays features before place := ⟨enters, starts⟩
      rw [stays.rigid_eq] at inside
      obtain ⟨outer, inner, parameters, first, declares, nonempty, enters, path⟩ := ih inside
      exact ⟨outer, inner, parameters, first, declares, nonempty, enters, path.tail stays⟩

/-- A numbered parameter that a source has in a body with parameters of its own: it is to be read at
`place`, in the body of the block or the lambda literal that is read at `outer`. -/
structure OrdinaryUse (features : Features) (tokens : List Token) (outer inner place : Spot)
    (parameters : Node) (name : Token) : Prop where
  reached : Relation.ReflTransGen (Enters features) (.start tokens) outer
  declares : outer.Declares parameters
  nonempty : parameters.allChildren ≠ []
  enters : Enters features outer inner
  inside : Relation.ReflTransGen (Stays features) inner place
  phrase : place.phrase = .primary
  next : ∃ rest, place.state.Next .identifier name rest ∧
    ¬ (place.state.leaving rest).Adjacent .lparen
  enabled : features.numberedParameters = true
  numbered : name.text ∈ numberedNames
  hidden : ¬ Visible name.text place.state.book.scopes

theorem Spot.Refuses.static {spot : Spot} {d : Diagnostic} (h : spot.Refuses features d) :
    StaticReport d := by
  cases h with
  | parameter | binding | label => exact ⟨.duplicateVariableName, by decide, rfl⟩
  | key => exact ⟨.duplicatePatternKey, by decide, rfl⟩
  | classDefinition => exact ⟨.classInDef, by decide, rfl⟩

/-- A source has a numbered parameter in a body with parameters of its own. -/
def OrdinaryIn (features : Features) (source : String) (name : Token) : Prop :=
  ∃ tokens outer inner place parameters, placed source.toList = .ok tokens ∧
    OrdinaryUse features tokens outer inner place parameters name

theorem RejectedIn.ordinary {source : String} {d : Diagnostic}
    (h : RejectedIn features source d) (ordinary : d.reason = Reason.ordinaryParamDefined.code) :
    ∃ name, d = ordinaryParameter name.span ∧ OrdinaryIn features source name := by
  obtain ⟨tokens, place, tokenized, reached, rejects⟩ := h
  cases rejects with
  | rule refuses =>
    obtain ⟨reason, among, same⟩ := refuses.static
    rw [← Reason.code_injective (ordinary.symm.trans same)] at among
    exact absurd among (by decide)
  | @numbered s around name rest number next apart use =>
    obtain ⟨enabled, hidden, named, highest, outside, numbering⟩ := numberedUse?_spec use
    have inside : (s.book.numbering.map Numbering.rigid).head? = some (.body highest true) := by
      rw [numbering]
      rfl
    obtain ⟨outer, inner, parameters, reached, declares, nonempty, enters, path⟩ :=
      innermost_declares reached inside
    have hidden : ¬ Visible name.text s.book.scopes := fun found => by
      rw [Bookkeeping.isLocal, visible_iff.2 found] at hidden
      cases hidden
    have numbered : name.text ∈ numberedNames := mem_numberedNames.2 (by rw [named]; rfl)
    exact ⟨name, rfl, tokens, outer, inner, ⟨.primary, s, around⟩, parameters, tokenized, reached,
      declares, nonempty, enters, path, rfl, ⟨rest, next, apart⟩, enabled, numbered, hidden⟩

end Grammar

open Grammar

theorem not_semanticReport_of_ambiguous {d : Diagnostic}
    (ambiguous : d.reason = Reason.ambiguousPrefix.code) : ¬ SemanticReport d := by
  rintro ⟨reason, among, same⟩
  rw [← Reason.code_injective (ambiguous.symm.trans same)] at among
  exact absurd among (by decide)

namespace Parser

theorem rejectedIn_of_mem {parser : Parser} {source : String} {d : Diagnostic}
    (mem : d ∈ (parser.parse source).2.2) (semantic : SemanticReport d) :
    RejectedIn parser.features source d := by
  have agrees := (parser.parse_agrees source).1
  -- Only the last diagnostic is no warning, and only if the source is rejected.
  generalize reported : (parser.parse source).2.2 = diagnostics at mem agrees
  generalize ended : (parser.parse source).1 = result at agrees
  cases agrees with
  | accepted warned => exact absurd semantic (not_semanticReport_of_ambiguous (warned d mem).2)
  | rejected warned _ =>
    obtain ⟨before, last, same, blamed⟩ := rejectedIn_of_rejected ended
    obtain ⟨-, alike⟩ := List.append_inj' (reported.symm.trans same) rfl
    cases alike
    rcases List.mem_append.1 mem with early | final
    · exact absurd semantic (not_semanticReport_of_ambiguous (warned d early).2)
    · obtain rfl := List.mem_singleton.1 final
      exact blamed semantic

/-- Numbered parameters are counted exactly. In an accepted source each of them belongs to a body;
the bodies that have any are those of numbered blocks, whose integers are the highest of them. One
that is reported stands in a body with parameters of its own. -/
theorem numbered_parameters (parser : Parser) (source : String) :
    (∀ tree, (parser.parse source).1 = .ok (some tree) →
      (∀ visit ∈ tree.visits [{ inherits := false }], Counted parser.features visit.1 visit.2) ∧
        (parametersOf (tree.visits [{ inherits := false }])).Perm
          (numbersOf (tree.visits [{ inherits := false }]))) ∧
      ∀ d ∈ (parser.parse source).2.2, d.reason = Reason.ordinaryParamDefined.code →
        ∃ name, d = ordinaryParameter name.span ∧ OrdinaryIn parser.features source name := by
  constructor
  · intro tree accepted
    obtain ⟨counted, none⟩ := numbers_counted accepted
    refine ⟨counted, ?_⟩
    have belongs := tree.parameters_perm [{ inherits := false }]
    rwa [none] at belongs
  · intro d mem ordinary
    have semantic : SemanticReport d := ⟨.ordinaryParamDefined, by decide, ordinary⟩
    exact (rejectedIn_of_mem mem semantic).ordinary ordinary

/-- A block and a lambda literal in it that count their own parameters, beside a variable of such a
name; and what is rejected after a block that may have its own. -/
theorem numbered_parameters_nested :
    let accepted := "foo \x7b bar _2; -> \x7b _3 \x7d; _1 = 4; _1 \x7d"
    let rejected := "foo \x7b |x| bar \x7b _2 \x7d; _1 \x7d"
    let report := ordinaryParameter ⟨22, 24, by decide⟩
    (∃ tree, (newest.parse accepted).1 = .ok (some tree) ∧
      parametersOf (tree.visits [{ inherits := false }]) = [2, 3] ∧
      ∀ visit ∈ tree.visits [{ inherits := false }],
        Counted newest.features visit.1 visit.2) ∧
      (newest.parse rejected).2.2 = [report] ∧
        ∃ name, report = ordinaryParameter name.span ∧
          OrdinaryIn newest.features rejected name := by
  intro accepted rejected report
  constructor
  · have found : (newest.parse accepted).1.toOption.join.any (fun tree =>
        parametersOf (tree.visits [{ inherits := false }]) == [2, 3]) = true := by
      decide +kernel
    obtain ⟨tree, parsed, used⟩ := accepted_of_any found
    exact ⟨tree, parsed, beq_iff_eq.1 used, ((numbered_parameters newest accepted).1 tree parsed).1⟩
  · have reported : (newest.parse rejected).2.2 = [report] := by decide +kernel
    refine ⟨reported, (numbered_parameters newest rejected).2 report ?_ rfl⟩
    rw [reported]
    exact .head _

end Parser

end Conformance.Dialect
