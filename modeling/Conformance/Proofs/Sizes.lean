import Conformance.Proofs.Acceptance
import Conformance.Proofs.Consumption
import Conformance.Proofs.Nodes
import Conformance.Proofs.Succession

/-! How many nodes a tree has: at most two for every token that was read, and one that holds the
statements together. -/

namespace Conformance

namespace Dialect

attribute [simp] sumOver_append

@[simp] theorem sumOver_nil {α : Type} (measure : α → Nat) : sumOver measure [] = 0 := rfl

@[simp] theorem sumOver_cons {α : Type} (measure : α → Nat) (item : α) (items : List α) :
    sumOver measure (item :: items) = measure item + sumOver measure items := rfl

@[simp] theorem Node.node?_int (value : Int) : (Child.int value).node? = none := rfl

/-- Children that are no nodes do not count. -/
@[simp] theorem Node.size_located (kind : NodeKind) (children : List Child) (whole : Option Span)
    (fields : List (String × Option Span)) :
    (located kind children whole fields).size = 1 + sumOver size (children.filterMap Child.node?) :=
  size_eq _

namespace ParseState

attribute [grind =] leaving_rest keeping_rest nested_rest flagged_rest restoring_rest reporting_rest

variable {s : ParseState}

@[grind →]
theorem Next.length_eq {kind : TokenKind} {token : Token} {rest : List Token}
    (next : s.Next kind token rest) : s.rest.length = rest.length + 1 := by
  rw [next.eq, List.length_cons]

/-- A token gives room for a node without children. -/
theorem Next.leaf_size_le {kind : TokenKind} {token : Token} {rest : List Token}
    (next : s.Next kind token rest) {node : Node} (leaf : node.size = 1) :
    node.size + 2 * rest.length ≤ 2 * s.rest.length := by
  rw [leaf, next.length_eq]
  omega

@[grind →]
theorem Eats.length_le {kind : TokenKind} {found : Option Token} {rest : List Token}
    (eats : s.Eats kind found rest) : rest.length ≤ s.rest.length := eats.past.1

theorem length_pastNewlines (s : ParseState) : s.pastNewlines.rest.length ≤ s.rest.length :=
  (past_newlines s.rest).1

theorem length_pastTerminators (s : ParseState) : s.pastTerminators.rest.length ≤ s.rest.length :=
  (past_terminators s.rest).1

end ParseState

namespace Grammar

/-! ### Nodes -/

/-- Statements are at most one node more than the nodes in them. -/
theorem size_sequence_le (body : List Node) :
    sumOver Node.size (sequence body).toList ≤ 1 + sumOver Node.size body := by
  rcases body with _ | ⟨first, _ | ⟨second, more⟩⟩
  · exact Nat.zero_le _
  · exact Nat.le_add_left _ _
  · simp [sequence]

theorem size_closureNode_le (target parameters : Node) (numbering : Option Numbering)
    (body : List Node) (whole : Span) (first last : Token) :
    (closureNode target parameters numbering body whole first last).size ≤
      2 + target.size + parameters.size + sumOver Node.size body := by
  have statements := size_sequence_le body
  have parts : (closureNode target parameters numbering body whole first last).size ≤
      1 + target.size + parameters.size + sumOver Node.size (sequence body).toList := by
    unfold closureNode
    split <;> simp <;> omega
  omega

theorem size_operatorNode (left : Node) (operator : Token) (right : Node) :
    (operatorNode left operator right).size = 1 + left.size + right.size := by
  unfold operatorNode
  split <;> simp [Nat.add_assoc]

theorem size_signNode (selector : String) (sign : Token) (operand : Node) :
    (signNode selector sign operand).size = 1 + operand.size := by
  simp [signNode]

theorem size_recordedCall (context : Flags) (receiver : Option Node) (dot : Option Token)
    (selector : Token) (actuals : Actuals) :
    (recordedCall context receiver dot selector actuals).size =
      1 + sumOver Node.size receiver.toList + sumOver Node.size actuals.nodes := by
  rw [recordedCall_eq, Node.size_eq]
  simp [Node.children, Node.allChildren, Nat.add_assoc]

theorem size_pairNode (label : Token) (value : Node) :
    (pairNode label value).size = 2 + value.size := by
  simp [pairNode]
  omega

theorem size_clauseNode_le (keyword : Token) (pattern : Node) (opener : Option Token)
    (body : List Node) :
    (clauseNode keyword pattern opener body).size ≤
      2 + pattern.size + sumOver Node.size body := by
  have statements := size_sequence_le body
  have parts : (clauseNode keyword pattern opener body).size =
      1 + pattern.size + sumOver Node.size (sequence body).toList := by
    simp [clauseNode, Nat.add_assoc]
  omega

theorem size_caseNode_le (keyword : Token) (subject : Node) (clauses : List Node)
    (alternative : Option Token) (otherwise : List Node) (last : Token) :
    (caseNode keyword subject clauses alternative otherwise last).size ≤
      2 + subject.size + sumOver Node.size clauses + sumOver Node.size otherwise := by
  have statements := size_sequence_le otherwise
  have parts : (caseNode keyword subject clauses alternative otherwise last).size =
      1 + subject.size + sumOver Node.size clauses +
        sumOver Node.size (sequence otherwise).toList := by
    simp [caseNode, Nat.add_assoc]
  omega

/-! ### Parameters -/

variable {features : Features} {s t : ParseState}

theorem Names.size_le {close : TokenKind} {seen : List String} {nodes : List Node}
    (h : Names close seen s nodes t) :
    sumOver Node.size nodes + 2 * t.rest.length ≤ 2 * s.rest.length := by
  induction h with
  | none _ => simp
  | last name _ _ =>
    have read := name.length_eq
    simp [parameterNode, named]
    omega
  | more name _ comma _ ih =>
    have read := name.length_eq
    have parted := comma.length_eq
    simp [parameterNode, named] at parted ih ⊢
    omega

theorem ParameterList.size_le {close : TokenKind} {nodes : List Node}
    (h : ParameterList close s nodes t) :
    sumOver Node.size nodes + 2 * t.rest.length ≤ 2 * s.rest.length := by
  cases h with
  | intro names => exact names.size_le

/-- A list of parameters is a node also where it is not written. -/
theorem BlockParameters.size_le {parameters : Node × Bool} (h : BlockParameters s parameters t) :
    parameters.1.size + 2 * t.rest.length ≤ 1 + 2 * s.rest.length := by
  cases h with
  | bars bars =>
    have read := bars.length_eq
    simp
    omega
  | none _ _ => simp [noParametersNode]
  | list first list last =>
    have opened := first.length_eq
    have named := list.size_le
    have closed := last.length_eq
    simp [parametersNode] at named closed ⊢
    omega

theorem ParenthesizedParameters.size_le {parameters : Node × Bool}
    (h : ParenthesizedParameters s parameters t) :
    parameters.1.size + 2 * t.rest.length ≤ 1 + 2 * s.rest.length := by
  cases h with
  | none _ => simp [noParametersNode]
  | list first list last =>
    have opened := first.length_eq
    have named := list.size_le
    have closed := last.length_eq
    simp [parametersNode] at named closed ⊢
    omega

/-! ### Phrases -/

/-- The number of nodes that a phrase goes on from, with two for every token of it that has been
read. -/
def Phrase.owed : Phrase → Nat
  | .of (.operatorsAfter _ node) | .of (.callsAfter node) | .blockAfter node => node.size
  | .call receiver _ _ => sumOver Node.size receiver.toList + 2
  | .entry _ => 2
  | _ => 0

/-- The number of nodes that a phrase stands for. -/
def Phrase.nodeCount : (phrase : Phrase) → phrase.Result → Nat
  | .of (.statements _), nodes | .of (.arguments _), nodes | .of .entries, nodes
  | .of .clauses, nodes => sumOver Node.size nodes
  | .of .expression, node | .of (.operators _), node | .of (.operatorsAfter _ _), node
  | .of .unary, node | .of (.callsAfter _), node | .of .pattern, node | .primary, node
  | .call _ _ _, node | .blockAfter _, node | .argument _, node | .entry _, node
  | .clause, node => node.size
  | .actuals, given => sumOver Node.size given.nodes

/-- A phrase stands for at most two nodes for every token that is read for it. -/
theorem Derives.size_le {phrase : Phrase} {value : phrase.Result}
    (h : Derives features phrase s value t) :
    phrase.nodeCount value + 2 * t.rest.length ≤ phrase.owed + 2 * s.rest.length := by
  -- Every case is a sum over the premises of the rule, with two for each of its own tokens.
  induction h with
    simp only [Phrase.nodeCount, Phrase.owed, sumOver_nil, sumOver_cons, Node.size_located,
      Node.filterMap_node?_cons, Node.filterMap_node?_map, Node.node?_node, Node.node?_sym,
      Node.node?_nil, Node.node?_ofOption, Option.toList_some, Option.toList_none,
      List.filterMap_nil, List.append_nil, List.cons_append, List.nil_append, Nat.zero_add,
      Nat.add_zero] at *
  -- Statements
  | noStatements | lastStatement | moreStatements => grind [ParseState.length_pastTerminators]
  -- Expressions
  | assignment => grind [ParseState.length_pastNewlines]
  | unassigned | operators | noOperator | chain => grind
  | operator => grind [ParseState.length_pastNewlines, size_operatorNode]
  | negative _ _ _ value | integer _ value =>
    have literal := Child.node?_integer? value
    grind [Option.toList_none, sumOver_nil]
  | minus | bang => grind [size_signNode]
  -- Primary expressions
  | string next | symbol next | constant next | keyword _ next | numberedVariable next
  | localVariable next => exact next.leaf_size_le rfl
  | adjacentCall | wordCall | parenthesized => grind
  | @lambda _ _ _ arrow _ _ _ _ _ _ _ _ _ _ _ written =>
    have list := written.size_le
    have literal : (leaf .lambda arrow).size = 1 := rfl
    grind [size_closureNode_le]
  | @method _ _ _ _ _ _ _ _ _ _ body _ _ written =>
    have list := written.size_le
    have statements := size_sequence_le body
    grind
  | @classDefinition _ _ _ name _ _ _ _ body =>
    have statements := size_sequence_le body
    have constant : (constantNode name).size = 1 := rfl
    grind
  | @whileLoop _ _ _ _ _ _ _ _ _ _ body =>
    have statements := size_sequence_le body
    grind
  | definedWord => grind
  | definedParens => grind [ParseState.length_pastNewlines]
  | caseMatch | caseElse => grind [ParseState.length_pastTerminators, size_caseNode_le, sumOver_nil]
  -- Calls
  | noCall | dotCall | commandArguments | noActuals | noBlock => grind
  | call => grind [size_recordedCall]
  | emptyParens | parens => grind [ParseState.length_pastNewlines]
  | lastArgument | plainArgument | signedArgument => grind
  | moreArguments => grind [ParseState.length_pastNewlines]
  | block _ read written =>
    have list := written.size_le
    have opened := congrArg List.length read
    grind [size_closureNode_le]
  -- Patterns
  | variablePattern next => exact next.leaf_size_le rfl
  | hashPattern | moreEntries => grind [ParseState.length_pastNewlines]
  | valuePattern | noEntries | lastEntry | noClauses | moreClauses => grind
  | bareEntry => simp [matchVariableNode]
  | pairEntry => grind [size_pairNode]
  | clause _ _ same => grind [size_clauseNode_le]

end Grammar

/-- Tokens stand apart and have characters, so that there are no more of them than characters. -/
theorem length_le_of_laid {n start : Nat} {tokens : List Token} (laid : Laid n [] tokens)
    (after : ∀ token ∈ tokens, start ≤ token.span.start) (within : start ≤ n) :
    start + tokens.length ≤ n := by
  induction tokens generalizing start with
  | nil => exact within
  | cons token rest ih =>
    obtain ⟨exact, -⟩ := Laid.cons_iff.1 laid
    have order : ∀ span ∈ rest.map Token.span, token.span.Before span :=
      (List.pairwise_cons.1 laid.in_order).1
    have here := after token (.head _)
    have longer := exact.start_lt_stop
    have inside : token.span.stop ≤ n := laid.stop_le token.span (.head _)
    have later : ∀ other ∈ rest, start + 1 ≤ other.span.start := by
      intro other mem
      have before : token.span.stop ≤ other.span.start := order _ (List.mem_map_of_mem mem)
      omega
    have more := ih (laid.past (.of_cons token rest)) later (by omega)
    rw [List.length_cons]
    omega

/-- The tree for an accepted source has at most two nodes for every character, and one more. -/
theorem Parser.size_le {parser : Parser} {source : String} {tree : Node}
    (accepted : (parser.parse source).1 = .ok (some tree)) :
    tree.size ≤ 2 * source.toList.length + 1 := by
  obtain ⟨tokens, body, after, tokenized, derived, root, -⟩ := Parser.program_of_accepted accepted
  have statements : sumOver Node.size body + 2 * after.rest.length ≤ 0 + 2 * tokens.length :=
    Grammar.Derives.size_le derived
  have apart := length_le_of_laid (placed_laid tokenized) (fun _ _ => Nat.zero_le _)
    (Nat.zero_le _)
  have whole := Grammar.size_sequence_le body
  rw [← root] at whole
  simp only [Option.toList_some, sumOver_cons, sumOver_nil] at whole
  omega

end Dialect

end Conformance
