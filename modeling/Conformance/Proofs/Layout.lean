import Conformance.Dialect.Parser
import Conformance.Proofs.Idle
import Conformance.Proofs.Twins

/-! The layout of a source does not matter beyond the tokens that it separates: no rule decides
anything from where a token or a node stands. One lemma for each rule takes this from the constructs
in it. -/

namespace Conformance.Dialect

open Node

namespace Grammar

open Parse

/-! ### The nodes of the grammar -/

section Nodes

variable {body body' nodes nodes' : List Node} {left left' right right' : Node}
  {token token' : Token} {target target' parameters parameters' : Node}

theorem children_alike (h : NodesAlike nodes nodes') :
    (nodes.map Child.node).map unplacedChild = (nodes'.map Child.node).map unplacedChild := by
  rw [List.map_map, List.map_map, unplacedChild_comp_node, ← List.map_map, ← List.map_map, h]

theorem unplaced_sequence (body : List Node) :
    (sequence body).map unplaced =
      match body.map unplaced with
      | [] => none
      | [node] => some node
      | more => some (.mk .begin (more.map .node) none none) := by
  match body with
  | [] | [_] => rfl
  | _ :: _ :: _ => simp [sequence, located]

theorem sequence_alike (h : NodesAlike body body') :
    Child.ofOption ((sequence body).map unplaced) =
      Child.ofOption ((sequence body').map unplaced) := by
  rw [unplaced_sequence, unplaced_sequence, h]

theorem leaf_alike (kind : NodeKind) (token token' : Token) :
    (leaf kind token).Alike (leaf kind token') := located_alike rfl

theorem parametersNode_alike (h : NodesAlike nodes nodes') (first first' last last' : Span) :
    (parametersNode nodes first last).Alike (parametersNode nodes' first' last') :=
  located_alike (children_alike h)

theorem operatorNode_alike (hl : left.Alike left') (operator : token.Alike token')
    (hr : right.Alike right') :
    (operatorNode left token right).Alike (operatorNode left' token' right') := by
  obtain ⟨kind, text, spaced, span, span'⟩ := operator
  unfold operatorNode
  dsimp only
  split
  · exact located_alike (by simpa using ⟨hl, hr⟩)
  · exact located_alike (by simpa using ⟨hl, hr⟩)
  · exact located_alike (by simpa using ⟨hl, hr⟩)

theorem signNode_alike (selector : String) (hr : right.Alike right') :
    (signNode selector token right).Alike (signNode selector token' right') :=
  located_alike (by simpa [Alike] using hr)

theorem recordedCall_alike (context : Flags) {receiver receiver' : Option Node}
    {dot dot' : Option Token} {actuals actuals' : Actuals}
    (hr : receiver.map unplaced = receiver'.map unplaced) (selector : token.Alike token')
    (ha : NodesAlike actuals.nodes actuals'.nodes) :
    (recordedCall context receiver dot token actuals).Alike
      (recordedCall context receiver' dot' token' actuals') := by
  obtain ⟨kind, text, spaced, span, span'⟩ := selector
  rw [recordedCall_eq, recordedCall_eq, Alike, unplaced_mk, unplaced_mk, List.map_cons,
    List.map_cons, List.map_cons, List.map_cons, children_alike ha, unplacedChild_ofOption,
    unplacedChild_ofOption, hr]

theorem closureNode_alike {whole whole' : Span} {first first' last last' : Token}
    (ht : target.Alike target') (hp : parameters.Alike parameters')
    (numbering : Option Numbering) (hb : NodesAlike body body') :
    (closureNode target parameters numbering body whole first last).Alike
      (closureNode target' parameters' numbering body' whole' first' last') := by
  have statements := sequence_alike hb
  unfold closureNode
  dsimp only
  split
  · exact located_alike (by simpa [unplacedChild] using ⟨ht, statements⟩)
  · exact located_alike (by simpa using ⟨ht, hp, statements⟩)

end Nodes

/-! ### Rules without constructs in them -/

section Leaves

variable {token token' sign sign' : Token}

theorem integerChild_twins (text : List Char) :
    Twins (integerChild text) (integerChild text) Eq := by
  unfold integerChild
  cases Child.integer? text with
  | none => exact .throw _
  | some child => exact .pure rfl

theorem integerNode_twins (alike : token.Alike token') :
    Twins (integerNode token) (integerNode token') Node.Alike := by
  obtain ⟨kind, text, spaced, span, span'⟩ := alike
  exact (integerChild_twins _).same fun value => .pure (located_alike rfl)

theorem negativeNode_twins (alike : token.Alike token') :
    Twins (negativeNode sign token) (negativeNode sign' token') Node.Alike := by
  obtain ⟨kind, text, spaced, span, span'⟩ := alike
  exact (integerChild_twins _).same fun value => .pure (located_alike rfl)

theorem parameterNames_twins (close : TokenKind) (seen : List String) (depth : Nat) :
    Twins (parameterNames close seen depth) (parameterNames close seen depth) NodesAlike := by
  induction depth generalizing seen with
  | zero => exact .throw _
  | succ depth ih =>
    refine (at?_twins close).same fun done => ?_
    refine .ite (fun _ => .pure rfl) fun _ => ?_
    refine (expect_twins _).bind ?_
    rintro _ _ ⟨kind, text, spaced, span, span'⟩
    have named : (parameterNode ⟨kind, span, text, spaced⟩).Alike
        (parameterNode ⟨kind, span', text, spaced⟩) := located_alike rfl
    refine .ite (fun _ => reject_bind_twins _ _ _ _) fun _ => ?_
    refine (keep_twins _).seq ((keep_twins _).seq ((eat_twins _).bind ?_))
    rintro _ _ (_ | _)
    · exact (ih _).bind fun more more' others => .pure (NodesAlike.cons named others)
    · exact .pure (NodesAlike.cons named rfl)

theorem parameterList_twins (close : TokenKind) :
    Twins (parameterList close) (parameterList close) NodesAlike := by
  refine (keep_twins _).seq (get_twins.bind fun s t alike => ?_)
  rw [alike.tokens.length_eq]
  refine (parameterNames_twins close [] _).bind fun names names' nodes => ?_
  exact (keep_twins _).seq (.pure nodes)

/-- Lists of parameters that differ only in places, both with parameters or both without. -/
def ParametersAlike (parameters parameters' : Node × Bool) : Prop :=
  parameters.1.Alike parameters'.1 ∧ parameters.2 = parameters'.2

theorem parametersAlike_nodes {nodes nodes' : List Node} (h : NodesAlike nodes nodes')
    (first first' last last' : Span) :
    ParametersAlike (parametersNode nodes first last, !nodes.isEmpty)
      (parametersNode nodes' first' last', !nodes'.isEmpty) := by
  refine ⟨parametersNode_alike h _ _ _ _, ?_⟩
  have length := congrArg List.length h
  rw [List.length_map, List.length_map] at length
  cases nodes <;> cases nodes' <;> first | rfl | cases length

theorem blockParameters_twins : Twins blockParameters blockParameters ParametersAlike := by
  refine (eat_twins _).bind ?_
  rintro _ _ (_ | _)
  · exact .pure ⟨located_alike rfl, rfl⟩
  · refine (eat_twins _).bind ?_
    rintro _ _ (_ | _)
    · refine ((parameterList_twins _).within _).bind fun names names' nodes => ?_
      exact (expect_twins _).bind fun _ _ _ => .pure (parametersAlike_nodes nodes _ _ _ _)
    · exact .pure ⟨rfl, rfl⟩

theorem parenthesizedParameters_twins :
    Twins parenthesizedParameters parenthesizedParameters ParametersAlike := by
  refine (eat_twins _).bind ?_
  rintro _ _ (_ | _)
  · refine (nest_twins _).seq ?_
    refine ((parameterList_twins _).within _).bind fun names names' nodes => ?_
    refine (expect_twins _).bind fun _ _ _ => ?_
    exact (nest_twins _).seq (.pure (parametersAlike_nodes nodes _ _ _ _))
  · exact .pure ⟨rfl, rfl⟩

theorem closeNumbering_twins : Twins closeNumbering closeNumbering Eq :=
  books_twins.same fun _ => (keep_twins _).seq (.pure rfl)

theorem openBody_twins : Twins openBody openBody fun _ _ => True :=
  (nest_twins _).seq ((keep_twins _).seq (keep_twins _))

theorem closeBody_twins : Twins closeBody closeBody fun _ _ => True :=
  (keep_twins _).seq ((keep_twins _).seq (nest_twins _))

theorem bindVariable_twins (name : String) (span span' : Span) :
    Twins (bindVariable name span) (bindVariable name span') Node.Alike := by
  have declared : Twins
      (do
        keep (·.declare name)
        pure (Node.located .matchVar [.sym name] (some span) [("name", some span)]))
      (do
        keep (·.declare name)
        pure (Node.located .matchVar [.sym name] (some span') [("name", some span')]))
      Node.Alike := (keep_twins _).seq (.pure (located_alike rfl))
  refine .ite (fun _ => books_twins.same fun book => ?_) fun _ => declared
  split
  · exact (keep_twins _).seq declared
  · exact reject_bind_twins _ _ _ _

theorem startsCommand?_twins : Twins startsCommand? startsCommand? Eq := by
  refine peek_twins.bind ?_
  rintro _ _ (⟨⟨kind, text, spaced, span, span'⟩⟩ | _)
  · refine .ite (fun _ => .pure rfl) fun _ => .ite (fun _ => .pure rfl) fun _ => ?_
    refine .ite (fun _ => features_twins.same fun _ => .pure rfl) fun _ => ?_
    refine .ite (fun _ => peekSecond_twins.bind ?_) fun _ => .pure rfl
    rintro _ _ (⟨⟨⟩⟩ | _)
    · exact .pure rfl
    · exact .pure rfl
  · exact .pure rfl

end Leaves

/-! ### Rules -/

/-- The constructs end alike on both sides. -/
structure TwinTo (sub : Derivation) : Prop where
  statements : ∀ stops, Twins (sub (.statements stops)) (sub (.statements stops)) NodesAlike
  expression : Twins (sub .expression) (sub .expression) Node.Alike
  operators : ∀ power, Twins (sub (.operators power)) (sub (.operators power)) Node.Alike
  operatorsAfter : ∀ power {left left'}, left.Alike left' →
    Twins (sub (.operatorsAfter power left)) (sub (.operatorsAfter power left')) Node.Alike
  unary : Twins (sub .unary) (sub .unary) Node.Alike
  callsAfter : ∀ {receiver receiver'}, receiver.Alike receiver' →
    Twins (sub (.callsAfter receiver)) (sub (.callsAfter receiver')) Node.Alike
  arguments : ∀ command,
    Twins (sub (.arguments command)) (sub (.arguments command)) NodesAlike
  pattern : Twins (sub .pattern) (sub .pattern) Node.Alike
  entries : Twins (sub .entries) (sub .entries) NodesAlike
  clauses : Twins (sub .clauses) (sub .clauses) NodesAlike

section Rules

variable {sub : Derivation} (hsub : TwinTo sub)
include hsub

theorem blockAfter_twins {target target' : Node} (alike : target.Alike target') :
    Twins (blockAfter sub target) (blockAfter sub target') Node.Alike := by
  refine books_twins.same fun book => peekKind_twins.same fun kind => ?_
  dsimp only
  split
  · exact .pure alike
  · rename_i close _
    refine next_twins.bind fun first first' _ => ?_
    refine (nest_twins _).seq ((keep_twins _).seq (blockParameters_twins.bind ?_))
    rintro ⟨parameters, ordinary⟩ ⟨parameters', _⟩ ⟨given, rfl⟩
    refine (keep_twins _).seq ?_
    refine ((hsub.statements _).within _).bind fun body body' statements => ?_
    refine (expect_twins _).bind fun last last' _ => ?_
    refine closeNumbering_twins.same fun numbering => ?_
    refine (keep_twins _).seq ((nest_twins _).seq (.pure ?_))
    exact closureNode_alike alike given numbering statements

theorem lambda_twins : Twins (lambda sub) (lambda sub) Node.Alike := by
  refine next_twins.bind fun arrow arrow' _ => ?_
  refine (nest_twins _).seq ((keep_twins _).seq (parenthesizedParameters_twins.bind ?_))
  rintro ⟨parameters, ordinary⟩ ⟨parameters', _⟩ ⟨given, rfl⟩
  refine (keep_twins _).seq (peekKind_twins.same fun kind => ?_)
  have body (close : TokenKind) : Twins
      (do
        let first ← next
        nest Nesting.popLambda
        nest Nesting.saveStacks
        let body ← within [(.inLambda, true), (.inBlock, false)] (sub (.statements [close]))
        let last ← expect close
        nest Nesting.restoreStacks
        let numbering ← closeNumbering
        keep Bookkeeping.closeScope
        pure (closureNode (leaf .lambda arrow) parameters numbering body
          (arrow.span.join last.span) first last))
      (do
        let first ← next
        nest Nesting.popLambda
        nest Nesting.saveStacks
        let body ← within [(.inLambda, true), (.inBlock, false)] (sub (.statements [close]))
        let last ← expect close
        nest Nesting.restoreStacks
        let numbering ← closeNumbering
        keep Bookkeeping.closeScope
        pure (closureNode (leaf .lambda arrow') parameters' numbering body
          (arrow'.span.join last.span) first last))
      Node.Alike := by
    refine next_twins.bind fun first first' _ => ?_
    refine (nest_twins _).seq ((nest_twins _).seq ?_)
    refine ((hsub.statements _).within _).bind fun body body' statements => ?_
    refine (expect_twins _).bind fun last last' _ => ?_
    refine (nest_twins _).seq (closeNumbering_twins.same fun numbering => ?_)
    refine (keep_twins _).seq (.pure ?_)
    exact closureNode_alike (leaf_alike _ _ _) given numbering statements
  split
  · exact body .rbrace
  · exact body .kwEnd
  · exact unexpected_bind_twins

theorem methodDefinition_twins :
    Twins (methodDefinition sub) (methodDefinition sub) Node.Alike := by
  refine next_twins.bind fun keyword keyword' _ => (expect_twins _).bind ?_
  rintro _ _ ⟨kind, text, spaced, span, span'⟩
  refine openBody_twins.seq (parenthesizedParameters_twins.bind ?_)
  rintro ⟨parameters, ordinary⟩ ⟨parameters', _⟩ ⟨given, rfl⟩
  refine ((hsub.statements _).within _).bind fun body body' statements => ?_
  refine (expect_twins _).bind fun last last' _ => closeBody_twins.seq (.pure ?_)
  exact located_alike (by simpa using ⟨given, sequence_alike statements⟩)

theorem classDefinition_twins :
    Twins (classDefinition sub) (classDefinition sub) Node.Alike := by
  refine next_twins.bind fun keyword keyword' _ => books_twins.same fun book => ?_
  refine .ite (fun _ => reject_bind_twins _ _ _ _) fun _ => (expect_twins _).bind ?_
  rintro _ _ ⟨kind, text, spaced, span, span'⟩
  refine openBody_twins.seq ?_
  refine ((hsub.statements _).within _).bind fun body body' statements => ?_
  refine (expect_twins _).bind fun last last' _ => closeBody_twins.seq (.pure ?_)
  have name : (constantNode ⟨kind, span, text, spaced⟩).Alike
      (constantNode ⟨kind, span', text, spaced⟩) := located_alike rfl
  exact located_alike (by simpa using ⟨name, sequence_alike statements⟩)

theorem argument_twins (first : Bool) :
    Twins (argument sub first) (argument sub first) Node.Alike := by
  refine peekKind_twins.same fun kind => ?_
  dsimp only
  split
  · exact hsub.expression
  · rename_i sign _
    refine next_twins.bind ?_
    rintro _ _ ⟨kind, text, spaced, span, span'⟩
    refine (hsub.operators _).bind fun operand operand' alike => ?_
    have signed : (Node.located sign [.node operand] (some (span.join operand.range))
        [("operator", some span)]).Alike
        (.located sign [.node operand'] (some (span'.join operand'.range))
          [("operator", some span')]) := located_alike (by simpa [Alike] using alike)
    refine .ite (fun _ => (emit_twins ?_).seq (.pure signed)) fun _ => .pure signed
    rfl

theorem arguments_twins (command : Bool) :
    Twins (arguments sub command) (arguments sub command) NodesAlike := by
  refine (argument_twins hsub _).bind fun first first' alike => (eat_twins _).bind ?_
  rintro _ _ (_ | _)
  · refine skipNewlines_twins.seq ((hsub.arguments _).bind fun more more' others => ?_)
    exact .pure (NodesAlike.cons alike others)
  · exact .pure (NodesAlike.cons alike rfl)

theorem actuals_twins :
    Twins (actuals sub) (actuals sub) fun given given' => NodesAlike given.nodes given'.nodes := by
  refine (adjacent?_twins _).same fun adjacent => .ite (fun _ => ?_) fun _ => ?_
  · refine next_twins.bind fun first first' _ => (nest_twins _).seq (skipNewlines_twins.seq ?_)
    refine (at?_twins _).same fun empty => ?_
    have close {nodes nodes' : List Node} (alike : NodesAlike nodes nodes') : Twins
        (do
          let last ← expect .rparen
          nest Nesting.closeParen
          pure { nodes, parens := some (first.span, last.span), last := some last.span : Actuals })
        (do
          let last ← expect .rparen
          nest Nesting.closeParen
          pure { nodes := nodes', parens := some (first'.span, last.span)
                 last := some last.span : Actuals })
        fun given given' => NodesAlike given.nodes given'.nodes :=
      (expect_twins _).bind fun _ _ _ => (nest_twins _).seq (.pure alike)
    refine .ite (fun _ => close rfl) fun _ => ?_
    refine (hsub.arguments _).bind fun nodes nodes' alike => skipNewlines_twins.seq ?_
    exact close alike
  · refine startsCommand?_twins.same fun starts => .ite (fun _ => ?_) fun _ => .pure rfl
    refine (nest_twins _).seq ((hsub.arguments _).bind fun nodes nodes' alike => ?_)
    exact (nest_twins _).seq (.pure alike)

theorem call_twins {receiver receiver' : Option Node} {dot dot' : Option Token}
    {selector selector' : Token} (hr : receiver.map unplaced = receiver'.map unplaced)
    (hs : selector.Alike selector') :
    Twins (call sub receiver dot selector) (call sub receiver' dot' selector') Node.Alike := by
  refine books_twins.same fun book => (actuals_twins hsub).bind fun given given' alike => ?_
  exact blockAfter_twins hsub (recordedCall_alike book.context hr hs alike)

theorem callsAfter_twins {receiver receiver' : Node} (alike : receiver.Alike receiver') :
    Twins (callsAfter sub receiver) (callsAfter sub receiver') Node.Alike := by
  refine (eat_twins _).bind ?_
  rintro _ _ (_ | _)
  · refine (expect_twins _).bind fun selector selector' named => ?_
    have receivers : (some receiver).map unplaced = (some receiver').map unplaced :=
      congrArg some alike
    refine (call_twins hsub receivers named).bind fun node node' called => ?_
    exact hsub.callsAfter called
  · exact .pure alike

theorem identifier_twins : Twins (identifier sub) (identifier sub) Node.Alike := by
  refine next_twins.bind ?_
  rintro _ _ ⟨kind, text, spaced, span, span'⟩
  have called (span span' : Span) : Twins (call sub none none ⟨kind, span, text, spaced⟩)
      (call sub none none ⟨kind, span', text, spaced⟩) Node.Alike :=
    call_twins hsub rfl (.intro kind text spaced span span')
  have read : (variableNode ⟨kind, span, text, spaced⟩).Alike
      (variableNode ⟨kind, span', text, spaced⟩) := located_alike rfl
  refine (adjacent?_twins _).same fun adjacent => .ite (fun _ => called _ _) fun _ => ?_
  refine books_twins.same fun book => features_twins.same fun features => ?_
  dsimp only
  split
  · refine .ite (fun _ => reject_bind_twins _ _ _ _) fun _ => ?_
    exact (keep_twins _).seq (.pure read)
  · exact .ite (fun _ => .pure read) fun _ => called _ _

theorem entry_twins {label label' : Token} (alike : label.Alike label') :
    Twins (entry sub label) (entry sub label') Node.Alike := by
  obtain ⟨kind, text, spaced, span, span'⟩ := alike
  refine books_twins.same fun book => ?_
  dsimp only [keyOf]
  split
  · refine (keep_twins _).seq (peekKind_twins.same fun kind => ?_)
    split
    case h_4 =>
      refine hsub.pattern.bind fun value value' alike => .pure (located_alike ?_)
      simpa [located, Alike] using alike
    all_goals exact bindVariable_twins _ _ _
  · exact reject_bind_twins _ _ _ _

theorem entries_twins : Twins (entries sub) (entries sub) NodesAlike := by
  refine (eat_twins _).bind ?_
  rintro _ _ (label | _)
  · refine (entry_twins hsub label).bind fun first first' alike => (eat_twins _).bind ?_
    rintro _ _ (_ | _)
    · refine skipNewlines_twins.seq (hsub.entries.bind fun more more' others => ?_)
      exact .pure (NodesAlike.cons alike others)
    · exact .pure (NodesAlike.cons alike rfl)
  · exact .pure rfl

theorem hashPattern_twins : Twins (hashPattern sub) (hashPattern sub) Node.Alike := by
  refine next_twins.bind fun first first' _ => (keep_twins _).seq (skipNewlines_twins.seq ?_)
  refine hsub.entries.bind fun entries entries' alike => skipNewlines_twins.seq ?_
  refine (expect_twins _).bind fun last last' _ => (keep_twins _).seq (.pure ?_)
  exact located_alike (children_alike alike)

theorem pattern_twins : Twins (pattern sub) (pattern sub) Node.Alike := by
  refine peekKind_twins.same fun kind => ?_
  split
  case h_1 =>
    refine next_twins.bind ?_
    rintro _ _ ⟨kind, text, spaced, span, span'⟩
    exact bindVariable_twins _ _ _
  case h_2 => exact hashPattern_twins hsub
  case h_11 => exact unexpected_twins
  all_goals exact hsub.unary

theorem clause_twins : Twins (clause sub) (clause sub) Node.Alike := by
  refine next_twins.bind fun keyword keyword' _ => (keep_twins _).seq ?_
  refine (hsub.pattern.within _).bind fun pattern pattern' alike => (keep_twins _).seq ?_
  refine (eat_twins _).bind fun opener opener' related => ?_
  refine atTerminator?_twins.same fun terminated => ?_
  have opened : opener.isNone = opener'.isNone := by cases related <;> rfl
  rw [opened]
  refine .ite (fun _ => unexpected_bind_twins) fun _ => ?_
  refine (hsub.statements _).bind fun body body' statements => .pure ?_
  exact located_alike (by simpa using ⟨alike, sequence_alike statements⟩)

theorem clauses_twins : Twins (clauses sub) (clauses sub) NodesAlike := by
  refine (at?_twins _).same fun more => .ite (fun _ => ?_) fun _ => .pure rfl
  refine (clause_twins hsub).bind fun first first' alike => ?_
  exact hsub.clauses.bind fun more more' others => .pure (NodesAlike.cons alike others)

theorem caseMatch_twins : Twins (caseMatch sub) (caseMatch sub) Node.Alike := by
  refine next_twins.bind fun keyword keyword' _ => ?_
  refine hsub.expression.bind fun subject subject' alike => skipTerminators_twins.seq ?_
  refine features_twins.same fun features => (at?_twins _).same fun more => ?_
  refine .ite (fun _ => unexpected_bind_twins) fun _ => ?_
  refine hsub.clauses.bind fun clauses clauses' others => (eat_twins _).bind ?_
  have whole {otherwise otherwise' : List Node} (statements : NodesAlike otherwise otherwise')
      (alternative alternative' : Option Token) (last last' : Token) :
      (caseNode keyword subject clauses alternative otherwise last).Alike
        (caseNode keyword' subject' clauses' alternative' otherwise' last') := by
    refine located_alike ?_
    rw [List.map_append, List.map_append, List.map_cons, List.map_cons, children_alike others]
    simpa using ⟨alike, sequence_alike statements⟩
  rintro _ _ (_ | _)
  · refine (hsub.statements _).bind fun otherwise otherwise' statements => ?_
    exact (expect_twins _).bind fun last last' _ => .pure (whole statements _ _ _ _)
  · have none : NodesAlike [] [] := rfl
    refine Twins.bind (.pure none) fun otherwise otherwise' statements => ?_
    exact (expect_twins _).bind fun last last' _ => .pure (whole statements _ _ _ _)

theorem parenthesized_twins : Twins (parenthesized sub) (parenthesized sub) Node.Alike := by
  refine next_twins.bind fun first first' _ => (nest_twins _).seq ?_
  refine (hsub.statements _).bind fun body body' statements => ?_
  refine (expect_twins _).bind fun last last' _ => (nest_twins _).seq (.pure ?_)
  exact located_alike (children_alike statements)

theorem whileLoop_twins : Twins (whileLoop sub) (whileLoop sub) Node.Alike := by
  refine next_twins.bind fun keyword keyword' _ => (nest_twins _).seq ?_
  refine hsub.expression.bind fun condition condition' alike => (nest_twins _).seq ?_
  refine (eat_twins _).bind fun opener opener' related => ?_
  refine atTerminator?_twins.same fun terminated => ?_
  have opened : opener.isNone = opener'.isNone := by cases related <;> rfl
  rw [opened]
  refine .ite (fun _ => unexpected_bind_twins) fun _ => ?_
  refine (hsub.statements _).bind fun body body' statements => ?_
  refine (expect_twins _).bind fun last last' _ => .pure (located_alike ?_)
  simpa using ⟨alike, sequence_alike statements⟩

theorem definedCheck_twins : Twins (definedCheck sub) (definedCheck sub) Node.Alike := by
  refine next_twins.bind fun keyword keyword' _ => (eat_twins _).bind ?_
  rintro _ _ (_ | _)
  · refine (nest_twins _).seq (skipNewlines_twins.seq ?_)
    refine (hsub.expression.within _).bind fun operand operand' alike => ?_
    refine skipNewlines_twins.seq ((expect_twins _).bind fun last last' _ => ?_)
    exact (nest_twins _).seq (.pure (located_alike (by simpa [Alike] using alike)))
  · refine (hsub.expression.within _).bind fun operand operand' alike => ?_
    exact .pure (located_alike (by simpa [Alike] using alike))

theorem primary_twins : Twins (primary sub) (primary sub) Node.Alike := by
  refine peek_twins.bind ?_
  rintro _ _ (⟨⟨kind, text, spaced, span, span'⟩⟩ | _)
  · have read {node node' : Node} (alike : node.Alike node') :
        Twins (do advance; pure node) (do advance; pure node') Node.Alike :=
      advance_twins.seq (.pure alike)
    cases kind with
    | integer => exact advance_twins.seq (integerNode_twins (.intro _ _ _ _ _))
    | string | symbol | constant => exact read (located_alike rfl)
    | kwNil | kwTrue | kwFalse | kwSelf => exact read (leaf_alike _ _ _)
    | identifier => exact identifier_twins hsub
    | lparen => exact parenthesized_twins hsub
    | arrow =>
      refine features_twins.same fun features => ?_
      exact .ite (fun _ => lambda_twins hsub) fun _ => unexpected_twins
    | kwDef => exact methodDefinition_twins hsub
    | kwClass => exact classDefinition_twins hsub
    | kwWhile => exact whileLoop_twins hsub
    | kwDefined => exact definedCheck_twins hsub
    | kwCase => exact caseMatch_twins hsub
    | _ => exact unexpected_twins
  · exact unexpected_twins

theorem chain_twins : Twins (chain sub) (chain sub) Node.Alike :=
  (primary_twins hsub).bind fun _ _ alike => hsub.callsAfter alike

theorem unary_twins : Twins (unary sub) (unary sub) Node.Alike := by
  refine peek_twins.bind ?_
  rintro _ _ (⟨⟨kind, text, spaced, span, span'⟩⟩ | _)
  · have signed (selector : String) (sign sign' : Token) :
        Twins (do return signNode selector sign (← sub .unary))
          (do return signNode selector sign' (← sub .unary)) Node.Alike :=
      hsub.unary.bind fun operand operand' alike => .pure (signNode_alike selector alike)
    cases kind with
    | minus =>
      refine advance_twins.seq (peek_twins.bind ?_)
      rintro _ _ (⟨⟨kind, text, spaced, span, span'⟩⟩ | _)
      · refine .ite (fun _ => ?_) fun _ => signed _ _ _
        exact advance_twins.seq (negativeNode_twins (.intro _ _ _ _ _))
      · exact signed _ _ _
    | bang => exact advance_twins.seq (signed _ _ _)
    | _ => exact chain_twins hsub
  · exact unexpected_twins

theorem operatorsAfter_twins (power : Nat) {left left' : Node} (alike : left.Alike left') :
    Twins (operatorsAfter sub power left) (operatorsAfter sub power left') Node.Alike := by
  refine peek_twins.bind ?_
  rintro _ _ (⟨⟨kind, text, spaced, span, span'⟩⟩ | _)
  · dsimp only
    split
    · exact .pure alike
    · refine .ite (fun _ => .pure alike) fun _ => ?_
      refine advance_twins.seq (skipNewlines_twins.seq ?_)
      refine (hsub.operators _).bind fun right right' other => ?_
      exact hsub.operatorsAfter power (operatorNode_alike alike (.intro _ _ _ _ _) other)
  · exact .pure alike

theorem operators_twins (power : Nat) :
    Twins (operators sub power) (operators sub power) Node.Alike :=
  hsub.unary.bind fun _ _ alike => hsub.operatorsAfter power alike

theorem assignment_twins : Twins (assignment sub) (assignment sub) Node.Alike := by
  refine next_twins.bind ?_
  rintro _ _ ⟨kind, text, spaced, span, span'⟩
  refine next_twins.bind fun operator operator' _ => skipNewlines_twins.seq ?_
  refine (keep_twins _).seq (hsub.expression.bind fun value value' alike => ?_)
  exact .pure (located_alike (by simpa [Alike] using alike))

theorem expression_twins : Twins (expression sub) (expression sub) Node.Alike := by
  refine (at?_twins _).same fun named => peekSecond_twins.bind ?_
  rintro _ _ (⟨⟨⟩⟩ | _)
  · exact .ite (fun _ => assignment_twins hsub) fun _ => hsub.operators 0
  · exact .ite (fun _ => assignment_twins hsub) fun _ => hsub.operators 0

theorem statements_twins (stops : List TokenKind) :
    Twins (statements sub stops) (statements sub stops) NodesAlike := by
  refine skipTerminators_twins.seq (peekKind_twins.same fun kind => ?_)
  cases kind with
  | none => exact .pure rfl
  | some kind =>
    refine .ite (fun _ => .pure rfl) fun _ => ?_
    refine hsub.expression.bind fun first first' alike => peekKind_twins.same fun kind => ?_
    have more : Twins (do return first :: (← sub (.statements stops)))
        (do return first' :: (← sub (.statements stops))) NodesAlike :=
      (hsub.statements stops).bind fun more more' others => .pure (NodesAlike.cons alike others)
    split
    case h_4 =>
      exact .ite (fun _ => .pure (NodesAlike.cons alike rfl)) fun _ => unexpected_twins
    all_goals exact more

end Rules

/-- In any depth the constructs end alike. -/
theorem derive_twins (depth : Nat) : TwinTo (derive depth) := by
  induction depth with
  | zero => constructor <;> intros <;> exact .throw _
  | succ depth ih =>
    exact {
      statements := statements_twins ih
      expression := expression_twins ih
      operators := operators_twins ih
      operatorsAfter := operatorsAfter_twins ih
      unary := unary_twins ih
      callsAfter := callsAfter_twins ih
      arguments := arguments_twins ih
      pattern := pattern_twins ih
      entries := entries_twins ih
      clauses := clauses_twins ih }

/-- Programs with the same number of tokens end alike. -/
theorem program_twins (tokens : Nat) :
    Twins (program tokens) (program tokens) fun tree tree' =>
      tree.map unplaced = tree'.map unplaced := by
  refine (keep_twins _).seq (((derive_twins _).statements []).bind fun body body' statements => ?_)
  refine (keep_twins _).seq (.pure ?_)
  rw [unplaced_sequence, unplaced_sequence, statements]

end Grammar

open Grammar Parse

/-- Outcomes that differ only in places. -/
structure Outcome.Alike (outcome outcome' : Outcome) : Prop where
  result : outcome.result.map (Option.map Node.unplaced) =
    outcome'.result.map (Option.map Node.unplaced)
  book : outcome.book = outcome'.book
  emitted : outcome.emitted.map Diagnostic.content = outcome'.emitted.map Diagnostic.content

theorem Outcome.ofStep_alike (features : Features) (finish finish' : Nat)
    {tokens tokens' : List Token} (alike : List.Forall₂ Token.Alike tokens tokens')
    {step : Parse (Option Node)}
    (twins : Twins step step fun tree tree' => tree.map unplaced = tree'.map unplaced)
    (book : Bookkeeping) :
    Outcome.Alike (Outcome.ofStep features finish tokens step book)
      (Outcome.ofStep features finish' tokens' step book) := by
  have ends := twins features (.ofLength finish 0) (.ofLength finish' 0) { rest := tokens, book }
    { rest := tokens', book } ⟨alike, rfl, rfl⟩
  unfold Outcome.ofStep
  generalize step ⟨features, .ofLength finish 0⟩ _ = found at ends ⊢
  generalize step ⟨features, .ofLength finish' 0⟩ _ = found' at ends ⊢
  cases ends with
  | ok related alike => exact ⟨congrArg Except.ok related, alike.book, alike.emitted⟩
  | error fault alike => exact ⟨rfl, alike.book, alike.emitted⟩

/-- Two sources with tokens of the same kinds and texts, with the same spaces before them, are
parsed alike: the trees and the diagnostics differ only in places, and the parser is left the
same. -/
theorem Parser.layout_irrelevant {parser : Parser} {source source' : String}
    {tokens tokens' : List Token} (h : tokenize parser.encoding source = .ok tokens)
    (h' : tokenize parser.encoding source' = .ok tokens')
    (same : tokens.map Token.content = tokens'.map Token.content) :
    (parser.parse source).1.map (Option.map Node.unplaced) =
        (parser.parse source').1.map (Option.map Node.unplaced) ∧
      (parser.parse source).2.1 = (parser.parse source').2.1 ∧
      (parser.parse source).2.2.map Diagnostic.content =
        (parser.parse source').2.2.map Diagnostic.content := by
  have tokens_alike := tokens_alike same
  have alike : Outcome.Alike
      (parseSource parser.features parser.encoding source parser.book.reset)
      (parseSource parser.features parser.encoding source' parser.book.reset) := by
    rw [parseSource, parseSource, h, h']
    dsimp only
    rw [tokens_alike.length_eq]
    exact Outcome.ofStep_alike _ _ _ tokens_alike (program_twins _) _
  refine ⟨?_, congrArg (fun book => { parser with book }) alike.book, alike.emitted⟩
  have commutes (result : Except ParseFault (Option Node)) :
      (result.mapError ParseFault.toFailure).map (Option.map unplaced) =
        (result.map (Option.map unplaced)).mapError ParseFault.toFailure := by
    cases result <;> rfl
  exact (commutes _).trans ((congrArg _ alike.result).trans (commutes _).symm)

/-- A command with a comment after it, and the same command with other blanks. -/
theorem Parser.layout_irrelevant_comment :
    let source := "foo *a # b"
    let source' := "  foo\t *a"
    ∃ tokens tokens', tokenize .utf8 source = .ok tokens ∧ tokenize .utf8 source' = .ok tokens' ∧
      tokens ≠ tokens' ∧ tokens.map Token.content = tokens'.map Token.content ∧
      (Parser.newest.parse source).1.map (Option.map Node.unplaced) =
        (Parser.newest.parse source').1.map (Option.map Node.unplaced) ∧
      (Parser.newest.parse source).2.1 = (Parser.newest.parse source').2.1 ∧
      (Parser.newest.parse source).2.2.map Diagnostic.content =
        (Parser.newest.parse source').2.2.map Diagnostic.content := by
  intro source source'
  have found : ((tokenize .utf8 source).toOption.any fun tokens =>
      (tokenize .utf8 source').toOption.any fun tokens' =>
        tokens != tokens' && tokens.map Token.content == tokens'.map Token.content) = true := by
    decide +kernel
  cases h : tokenize .utf8 source with
  | error fault => simp [h, Except.toOption] at found
  | ok tokens =>
    cases h' : tokenize .utf8 source' with
    | error fault => simp [h', Except.toOption] at found
    | ok tokens' =>
      simp only [h, h', Except.toOption, Option.any_some, Bool.and_eq_true, bne_iff_ne, ne_eq,
        beq_iff_eq] at found
      have alike :=
        @Parser.layout_irrelevant Parser.newest source source' tokens tokens' h h' found.2
      exact ⟨tokens, tokens', rfl, rfl, found.1, found.2, alike⟩

end Conformance.Dialect
