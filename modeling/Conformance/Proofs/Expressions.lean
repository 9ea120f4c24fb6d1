import Conformance.Proofs.Nodes

/-! What the nodes for expressions have in common: each has a range, none is an argument with a
sign, and if it is a list of statements then between parentheses. -/

namespace Conformance.Dialect

/-- The kinds of nodes that are expressions wherever they stand. -/
def NodeKind.isExpression : NodeKind → Bool
  | .splat | .blockPass | .begin => false
  | _ => true

/-- The kinds of nodes that no assignment, operator, call or block stands for. -/
def NodeKind.isPrimary : NodeKind → Bool
  | .lvasgn | .and | .or | .send | .block | .numblock => false
  | _ => true

namespace Node

/-- Whether a node is an argument with a sign before it. -/
def isSigned (node : Node) : Bool := node.kind == .splat || node.kind == .blockPass

/-- Whether a node is a list of statements that nothing delimits. -/
def isOpen (node : Node) : Bool := node.kind == .begin && (node.span? "begin").isNone

/-- The node has a range. -/
def Ranged (node : Node) : Prop := node.range? = some node.range

structure IsExpression (node : Node) : Prop where
  ranged : node.Ranged
  unsigned : node.isSigned = false
  closed : node.isOpen = false

variable {kind : NodeKind} {children : List Child} {whole : Span}
  {fields : List (String × Option Span)} {context : Option Flags}

theorem ranged_located : (located kind children (some whole) fields).Ranged := rfl

theorem isExpression_mk (expression : kind.isExpression = true) {location : Option Location}
    (ranged : (mk kind children location context).Ranged) :
    (mk kind children location context).IsExpression := by
  refine ⟨ranged, ?_, ?_⟩
  · show (kind == .splat || kind == .blockPass) = false
    cases kind <;> first | rfl | cases expression
  · show (kind == .begin && _) = false
    cases kind <;> first | rfl | cases expression

theorem isExpression_located (expression : kind.isExpression = true) :
    (located kind children (some whole) fields).IsExpression :=
  isExpression_mk expression ranged_located

end Node

namespace Grammar

open Node

theorem isExpression_of_keywordValue? {kind : TokenKind} {value : NodeKind}
    (h : keywordValue? kind = some value) : value.isExpression = true := by
  cases kind <;> cases h <;> rfl

theorem operatorNode_isExpression (left right : Node) (operator : Token) :
    (operatorNode left operator right).IsExpression := by
  unfold operatorNode
  split
  · exact isExpression_located rfl
  · exact isExpression_located rfl
  · exact isExpression_located rfl

theorem recordedCall_isExpression (context : Flags) (receiver : Option Node) (dot : Option Token)
    (selector : Token) (actuals : Actuals) :
    (recordedCall context receiver dot selector actuals).IsExpression := by
  rw [recordedCall_eq]
  exact isExpression_mk rfl rfl

theorem closureNode_isExpression (target parameters : Node) (numbering : Option Numbering)
    (body : List Node) (whole : Span) (first last : Token) :
    (closureNode target parameters numbering body whole first last).IsExpression := by
  unfold closureNode
  dsimp only
  split
  · exact isExpression_located rfl
  · exact isExpression_located rfl

/-- The nodes that a phrase stands for. -/
def Phrase.nodes : (phrase : Phrase) → phrase.Result → List Node
  | .of (.statements _), nodes | .of (.arguments _), nodes | .of .entries, nodes
  | .of .clauses, nodes => nodes
  | .of .expression, node | .of (.operators _), node | .of (.operatorsAfter _ _), node
  | .of .unary, node | .of (.callsAfter _), node | .of .pattern, node | .primary, node
  | .call _ _ _, node | .blockAfter _, node | .argument _, node | .entry _, node
  | .clause, node => [node]
  | .actuals, given => given.nodes

/-- A phrase goes on from an expression, if from any node. -/
def Phrase.FromExpression : Phrase → Prop
  | .of (.operatorsAfter _ node) | .of (.callsAfter node) | .blockAfter node => node.IsExpression
  | .call receiver _ _ => ∀ node ∈ receiver, node.IsExpression
  | _ => True

theorem fromExpression_call {receiver : Node} {dot : Option Token} {selector : Token}
    (h : receiver.IsExpression) : (Phrase.call (some receiver) dot selector).FromExpression := by
  rintro _ ⟨⟩
  exact h

theorem fromExpression_word {dot : Option Token} {selector : Token} :
    (Phrase.call none dot selector).FromExpression := nofun

/-- What a phrase stands for has ranges, and is an expression unless it is an argument, a pattern or
part of one. -/
def Phrase.Shaped : (phrase : Phrase) → phrase.Result → Prop
  | .of (.statements _), nodes => ∀ node ∈ nodes, node.IsExpression
  | .of (.arguments _), nodes | .of .entries, nodes | .of .clauses, nodes =>
    ∀ node ∈ nodes, node.Ranged
  | .actuals, given => ∀ node ∈ given.nodes, node.Ranged
  | .of .pattern, node | .argument _, node | .entry _, node | .clause, node => node.Ranged
  | .of .expression, node | .of (.operators _), node | .of (.operatorsAfter _ _), node
  | .of .unary, node | .of (.callsAfter _), node | .primary, node | .call _ _ _, node
  | .blockAfter _, node => node.IsExpression

theorem Derives.shaped {features : Features} {phrase : Phrase} {value : phrase.Result}
    {s t : ParseState} (h : Derives features phrase s value t) (given : phrase.FromExpression) :
    phrase.Shaped value := by
  induction h with
  | noStatements | emptyParens | noActuals | noEntries | noClauses => exact nofun
  | lastStatement _ _ _ _ ih => exact List.forall_mem_singleton.2 (ih trivial)
  | moreStatements _ _ _ _ ih1 ih2 => exact List.forall_mem_cons.2 ⟨ih1 trivial, ih2 trivial⟩
  | unassigned _ _ ih => exact ih trivial
  | operators _ _ ih1 ih2 => exact ih2 (ih1 trivial)
  | noOperator | noCall | noBlock => exact given
  | operator _ _ _ _ _ _ ih2 => exact ih2 (operatorNode_isExpression _ _ _)
  | chain _ _ _ _ ih1 ih2 => exact ih2 (ih1 trivial)
  | keyword value => exact isExpression_located (isExpression_of_keywordValue? value)
  | adjacentCall _ _ _ ih | wordCall _ _ _ _ _ ih => exact ih nofun
  | parenthesized => exact ⟨rfl, rfl, rfl⟩
  | lambda | block => exact closureNode_isExpression _ _ _ _ _ _ _
  | dotCall _ _ _ _ ih1 ih2 => exact ih2 (ih1 (fromExpression_call given))
  | call _ _ _ ih2 => exact ih2 (recordedCall_isExpression _ _ _ _ _)
  | parens _ _ _ _ _ ih | commandArguments _ _ _ ih => exact ih trivial
  | lastArgument _ _ ih | lastEntry _ _ _ ih => exact List.forall_mem_singleton.2 (ih trivial)
  | moreArguments _ _ _ ih1 ih2 | moreEntries _ _ _ _ ih1 ih2 | moreClauses _ _ ih1 ih2 =>
    exact List.forall_mem_cons.2 ⟨ih1 trivial, ih2 trivial⟩
  | plainArgument _ _ ih | valuePattern _ _ ih => exact (ih trivial).ranged
  | signedArgument | variablePattern | hashPattern | bareEntry | pairEntry | clause =>
    exact ranged_located
  | assignment | negative | minus | bang | integer | string | symbol | constant
  | numberedVariable | localVariable | method | classDefinition | whileLoop | definedWord
  | definedParens | caseMatch | caseElse => exact isExpression_located rfl

/-- The statements of a program are expressions. -/
theorem Derives.statements_shaped {features : Features} {stops : List TokenKind}
    {body : List Node} {s t : ParseState}
    (h : Derives features (.of (.statements stops)) s body t) :
    ∀ node ∈ body, node.IsExpression := h.shaped trivial

/-! ### Primary expressions -/

theorem operatorNode_isPrimary (left right : Node) (operator : Token) :
    (operatorNode left operator right).kind.isPrimary = false := by
  unfold operatorNode
  split <;> rfl

theorem recordedCall_isPrimary (context : Flags) (receiver : Option Node) (dot : Option Token)
    (selector : Token) (actuals : Actuals) :
    (recordedCall context receiver dot selector actuals).kind.isPrimary = false := by
  rw [recordedCall_eq]
  rfl

theorem closureNode_isPrimary (target parameters : Node) (numbering : Option Numbering)
    (body : List Node) (whole : Span) (first last : Token) :
    (closureNode target parameters numbering body whole first last).kind.isPrimary = false := by
  unfold closureNode
  dsimp only
  split <;> rfl

/-- An integer can be read that a minus stands directly before. -/
inductive Negative (s : ParseState) : Node → ParseState → Prop where
  | intro {sign digits : Token} {r : List Token} {value : Child} :
      s.rest = sign :: digits :: r → sign.kind = .minus → digits.kind = .integer →
      digits.spaced = false → Child.integer? ('-' :: digits.text.toList) = some value →
      Negative s (.located .int [value] (some (sign.span.join digits.span))
        [("operator", some sign.span)]) (s.leaving r)

/-- Where a phrase stands for a node that is no call and no operator, it is a primary expression and
nothing more, or an integer with a minus. -/
def Phrase.Alone (features : Features) (s t : ParseState) :
    (phrase : Phrase) → phrase.Result → Prop
  | .of .expression, node | .of (.operators _), node | .of .unary, node =>
    node.kind.isPrimary = true → Derives features .primary s node t ∨ Negative s node t
  | .of (.operatorsAfter _ given), node | .of (.callsAfter given), node =>
    node.kind.isPrimary = true → node = given ∧ t = s
  | .call _ _ _, node => node.kind.isPrimary = false
  | .blockAfter given, node => given.kind.isPrimary = false → node.kind.isPrimary = false
  | _, _ => True

theorem Derives.alone {features : Features} {phrase : Phrase} {value : phrase.Result}
    {s t : ParseState} (h : Derives features phrase s value t) :
    phrase.Alone features s t value := by
  induction h with
  | unassigned _ _ ih => exact ih
  | assignment | minus | bang => exact nofun
  | noOperator | noCall => exact fun _ => ⟨rfl, rfl⟩
  | operators _ _ ih1 ih2 =>
    intro primary
    obtain ⟨rfl, rfl⟩ := ih2 primary
    exact ih1 primary
  | operator _ _ _ _ _ _ ih =>
    intro primary
    obtain ⟨rfl, -⟩ := ih primary
    simp [operatorNode_isPrimary] at primary
  | negative sign digits unspaced value =>
    exact fun _ => .inr (.intro (digits.eq ▸ sign.eq) sign.kind_eq digits.kind_eq unspaced value)
  | chain _ _ first _ _ ih =>
    intro primary
    obtain ⟨rfl, rfl⟩ := ih primary
    exact .inl first
  | dotCall _ _ _ _ ih1 ih2 =>
    intro primary
    obtain ⟨rfl, -⟩ := ih2 primary
    exact absurd primary (by simp [show _ = false from ih1])
  | call _ _ _ ih => exact ih (recordedCall_isPrimary _ _ _ _ _)
  | noBlock => exact id
  | block => exact fun _ => closureNode_isPrimary _ _ _ _ _ _ _
  | _ => trivial

end Grammar

end Conformance.Dialect
