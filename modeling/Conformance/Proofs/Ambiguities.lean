import Conformance.Proofs.Acceptance
import Conformance.Proofs.Expressions
import Conformance.Proofs.Idle
import Mathlib.Data.List.Forall2

/-! The diagnostics of an accepted source are those that its tree calls for: one for each sign
before the first argument of a command, in the order in which these arguments end. -/

namespace Conformance.Dialect

/-! ### Signs that could be operators -/

/-- Whether an edge leads to the first argument of a command, a call without parentheses. A receiver
and a name come before the arguments. -/
def Edge.isFirstOfCommand (edge : Edge) : Bool :=
  edge.parent.kind == .send && (edge.parent.span? "begin").isNone && edge.index == 2

namespace Node

mutual

/-- The edges in a tree, each with the node that it leads to, which comes after all nodes below
it. -/
def descents : Node → List (Edge × Node)
  | .mk kind children location context =>
    childrenDescents (.mk kind children location context) 0 children

def childrenDescents (parent : Node) (index : Nat) : List Child → List (Edge × Node)
  | [] => []
  | child :: more => childDescents ⟨parent, index⟩ child ++ childrenDescents parent (index + 1) more

def childDescents (edge : Edge) : Child → List (Edge × Node)
  | .node node => descents node ++ [(edge, node)]
  | _ => []

end

/-- The arguments with a sign before them that are the first of a command. -/
def ambiguous (descents : List (Edge × Node)) : List Node :=
  (descents.filter fun (edge, target) => edge.isFirstOfCommand && target.isSigned).map Prod.snd

/-- The arguments in a tree that have a sign before them and are the first of a command, each after
those in it. -/
def ambiguities (node : Node) : List Node := ambiguous node.descents

/-- The diagnostic for an argument with a sign: it stands at the sign, names it and highlights the
operand. -/
def Reported (source : String) (node : Node) (d : Diagnostic) : Prop :=
  ∃ operator operand range, node.span? "operator" = some operator ∧ node.children = [operand] ∧
    operand.range? = some range ∧
    d = { Reason.diagnostic .ambiguousPrefix (.ofList [("prefix", operator.slice source)])
      operator with highlights := [range] }

/-- The ambiguities in an argument, to which it belongs if it has a sign and is the first one of a
command. -/
def argumentAmbiguities (first : Bool) (node : Node) : List Node :=
  node.ambiguities ++ if first && node.isSigned then [node] else []

def argumentsAmbiguities (command : Bool) : List Node → List Node
  | [] => []
  | first :: more => argumentAmbiguities command first ++ more.flatMap ambiguities

variable {kind : NodeKind} {children : List Child} {location : Option Location}
  {context : Option Flags} {parent : Node}

theorem argumentAmbiguities_of_unsigned {first : Bool} {node : Node}
    (unsigned : node.isSigned = false) : node.argumentAmbiguities first = node.ambiguities := by
  simp [argumentAmbiguities, unsigned]

theorem argumentsAmbiguities_false (nodes : List Node) :
    argumentsAmbiguities false nodes = nodes.flatMap ambiguities := by
  cases nodes <;> simp [argumentsAmbiguities, argumentAmbiguities]

theorem ambiguous_append (first more : List (Edge × Node)) :
    ambiguous (first ++ more) = ambiguous first ++ ambiguous more := by
  rw [ambiguous, List.filter_append, List.map_append, ambiguous, ambiguous]

theorem ambiguous_childDescents (edge : Edge) (child : Child) :
    ambiguous (childDescents edge child) =
      child.node?.toList.flatMap (argumentAmbiguities edge.isFirstOfCommand) := by
  cases child with
  | node node =>
    have own : ambiguous [(edge, node)] =
        if edge.isFirstOfCommand && node.isSigned then [node] else [] := by
      cases calls : edge.isFirstOfCommand && node.isSigned <;> simp [ambiguous, calls]
    rw [childDescents, ambiguous_append, own]
    exact (List.flatMap_singleton _ _).symm
  | _ => rfl

/-- Where no child is the first argument of a command, the ambiguities are those in the children. -/
theorem ambiguous_childrenDescents (parent : Node) (index : Nat)
    (none : ∀ k child, children[k]? = some (.node child) →
      (Edge.mk parent (index + k)).isFirstOfCommand = true → child.isSigned = false) :
    ambiguous (childrenDescents parent index children) =
      (children.filterMap Child.node?).flatMap ambiguities := by
  induction children generalizing index with
  | nil => rfl
  | cons child more ih =>
    have others := ih (index + 1) fun k node here => by
      have there := none (k + 1) node here
      rwa [show index + (k + 1) = index + 1 + k by omega] at there
    rw [childrenDescents, ambiguous_append, others, ambiguous_childDescents,
      filterMap_node?_cons, List.flatMap_append]
    refine congrArg (· ++ _) (List.flatMap_congr fun node mem => ?_)
    have is : child = .node node := by
      cases child <;> simp_all [Child.node?]
    cases first : (Edge.mk parent index).isFirstOfCommand with
    | false => simp [argumentAmbiguities]
    | true => exact argumentAmbiguities_of_unsigned (none 0 node (by simp [is]) first)

theorem ambiguities_mk
    (none : ∀ child, children[2]? = some (.node child) → kind = .send → child.isSigned = false) :
    (mk kind children location context).ambiguities =
      (children.filterMap Child.node?).flatMap ambiguities := by
  refine ambiguous_childrenDescents _ 0 fun k child here first => ?_
  simp only [Edge.isFirstOfCommand, Bool.and_eq_true, beq_iff_eq, Nat.zero_add] at first
  obtain ⟨⟨send, -⟩, rfl⟩ := first
  exact none child here send

/-- Only in calls an argument is the first of a command. -/
theorem ambiguities_located {whole : Option Span} {fields : List (String × Option Span)}
    (other : kind ≠ .send) :
    (located kind children whole fields).ambiguities =
      (children.filterMap Child.node?).flatMap ambiguities :=
  ambiguities_mk fun _ _ send => absurd send other

end Node

open Node

/-! ### The nodes of the grammar -/

namespace Grammar

theorem childless_ambiguities {kind : NodeKind} {children : List Child} {whole : Option Span}
    {fields : List (String × Option Span)} (childless : children.filterMap Child.node? = []) :
    (Node.located kind children whole fields).ambiguities = [] := by
  have none : ∀ child, children[2]? = some (.node child) → kind = .send →
      child.isSigned = false := fun child here => by
    have mem : child ∈ children.filterMap Child.node? :=
      List.mem_filterMap.2 ⟨_, List.mem_of_getElem? here, rfl⟩
    simp [childless] at mem
  rw [Node.located, ambiguities_mk none, childless, List.flatMap_nil]

theorem leaf_ambiguities (kind : NodeKind) (token : Token) : (leaf kind token).ambiguities = [] :=
  childless_ambiguities rfl

theorem sequence_ambiguities (body : List Node) :
    (sequence body).toList.flatMap ambiguities = body.flatMap ambiguities := by
  match body with
  | [] | [_] => rfl
  | first :: second :: more =>
    rw [sequence, Option.toList_some, List.flatMap_singleton, ambiguities_located (by decide),
      filterMap_node?_map]

theorem operatorNode_ambiguities {left right : Node} (operator : Token)
    (unsigned : right.isSigned = false) :
    (operatorNode left operator right).ambiguities = left.ambiguities ++ right.ambiguities := by
  unfold operatorNode
  split
  · simp [ambiguities_located]
  · simp [ambiguities_located]
  · have none (child : Node) (here : some (Child.node right) = some (.node child)) :
        child.isSigned = false := by
      cases here
      exact unsigned
    rw [Node.located, ambiguities_mk fun child here _ => none child here]
    simp

theorem signNode_ambiguities (selector : String) (sign : Token) (operand : Node) :
    (signNode selector sign operand).ambiguities = operand.ambiguities := by
  rw [signNode, Node.located, ambiguities_mk (by simp)]
  simp

theorem recordedCall_ambiguities (context : Flags) (receiver : Option Node) (dot : Option Token)
    (selector : Token) (actuals : Actuals) :
    (recordedCall context receiver dot selector actuals).ambiguities =
      receiver.toList.flatMap ambiguities ++
        argumentsAmbiguities actuals.parens.isNone actuals.nodes := by
  rw [recordedCall_eq]
  generalize node_eq : Node.mk .send _ _ _ = node
  have kind_eq : node.kind = .send := by rw [← node_eq]; rfl
  have begin_eq : node.span? "begin" = actuals.parens.map Prod.fst := by rw [← node_eq]; rfl
  have first_eq (index : Nat) :
      (Edge.mk node index).isFirstOfCommand = (actuals.parens.isNone && index == 2) := by
    simp [Edge.isFirstOfCommand, kind_eq, begin_eq]
  have descents_eq : node.descents =
      childDescents ⟨node, 0⟩ (.ofOption receiver) ++
        childrenDescents node 2 (actuals.nodes.map .node) := by
    rw [← node_eq]
    rfl
  rw [ambiguities, descents_eq, ambiguous_append, ambiguous_childDescents, node?_ofOption, first_eq]
  congr 1
  · refine List.flatMap_congr fun node _ => ?_
    simp [argumentAmbiguities]
  · cases actuals.nodes with
    | nil => rfl
    | cons first more =>
      have others : ambiguous (childrenDescents node 3 (more.map .node)) = _ :=
        ambiguous_childrenDescents node 3 fun k child _ at_first => by
          rw [first_eq, Bool.and_eq_true, beq_iff_eq] at at_first
          omega
      rw [List.map_cons, childrenDescents, ambiguous_append, ambiguous_childDescents, others,
        first_eq, filterMap_node?_map]
      simp [argumentsAmbiguities]

theorem closureNode_ambiguities {target parameters : Node} {numbering : Option Numbering}
    {body : List Node} {whole : Span} {first last : Token}
    (none : parameters.ambiguities = []) :
    (closureNode target parameters numbering body whole first last).ambiguities =
      target.ambiguities ++ body.flatMap ambiguities := by
  rw [← sequence_ambiguities body]
  unfold closureNode
  dsimp only
  split
  · rw [ambiguities_located (by decide)]
    cases sequence body <;> simp [Child.ofOption, Child.node?]
  · rw [ambiguities_located (by decide)]
    simp [none]

theorem pairNode_ambiguities (label : Token) (value : Node) :
    (pairNode label value).ambiguities = value.ambiguities := by
  rw [pairNode, ambiguities_located (by decide)]
  simp [childless_ambiguities]

theorem clauseNode_ambiguities (keyword : Token) (pattern : Node) (opener : Option Token)
    (body : List Node) :
    (clauseNode keyword pattern opener body).ambiguities =
      pattern.ambiguities ++ body.flatMap ambiguities := by
  rw [← sequence_ambiguities body, clauseNode, ambiguities_located (by decide)]
  simp

theorem caseNode_ambiguities (keyword : Token) (subject : Node) (clauses : List Node)
    (alternative : Option Token) (otherwise : List Node) (last : Token) :
    (caseNode keyword subject clauses alternative otherwise last).ambiguities =
      subject.ambiguities ++ clauses.flatMap ambiguities ++ otherwise.flatMap ambiguities := by
  rw [← sequence_ambiguities otherwise, caseNode, ambiguities_located (by decide)]
  simp

theorem parametersNode_ambiguities {nodes : List Node} (first last : Span)
    (none : nodes.flatMap ambiguities = []) :
    (parametersNode nodes first last).ambiguities = [] := by
  rw [parametersNode, ambiguities_located (by decide), filterMap_node?_map, none]

/-! ### Parameters -/

section Parameters

variable {s t : ParseState} {close : TokenKind} {nodes : List Node} {parameters : Node × Bool}

theorem Names.quiet {seen : List String} (h : Names close seen s nodes t) :
    nodes.flatMap ambiguities = [] ∧ t.emitted = s.emitted := by
  induction h with
  | none => exact ⟨rfl, rfl⟩
  | last => exact ⟨(List.flatMap_singleton _ _).trans (childless_ambiguities rfl), rfl⟩
  | more _ _ _ _ ih =>
    rw [List.flatMap_cons, parameterNode, named, childless_ambiguities rfl]
    exact ih

theorem ParameterList.quiet (h : ParameterList close s nodes t) :
    nodes.flatMap ambiguities = [] ∧ t.emitted = s.emitted := by
  cases h with
  | intro names => exact names.quiet

theorem BlockParameters.quiet (h : BlockParameters s parameters t) :
    parameters.1.ambiguities = [] ∧ t.emitted = s.emitted := by
  cases h with
  | bars | none => exact ⟨childless_ambiguities rfl, rfl⟩
  | list _ list => exact ⟨parametersNode_ambiguities _ _ list.quiet.1, list.quiet.2⟩

theorem ParenthesizedParameters.quiet (h : ParenthesizedParameters s parameters t) :
    parameters.1.ambiguities = [] ∧ t.emitted = s.emitted := by
  cases h with
  | none => exact ⟨childless_ambiguities rfl, rfl⟩
  | list _ list => exact ⟨parametersNode_ambiguities _ _ list.quiet.1, list.quiet.2⟩

end Parameters

end Grammar

open Grammar

/-! ### Reports so far -/

/-- Some arguments have been reported, and the tokens ahead are as the source has them. -/
structure Told (source : String) (nodes : List Node) (ahead : List Token)
    (emitted : List Diagnostic) : Prop where
  reported : List.Forall₂ (Reported source) nodes emitted
  written : ∀ token ∈ ahead, token.span.slice source = token.text

section Told

variable {source : String} {nodes more : List Node} {ahead rest : List Token}
  {emitted : List Diagnostic} {s : ParseState}

theorem Told.of_eq (h : Told source nodes ahead emitted) (same : nodes = more) :
    Told source more ahead emitted := same ▸ h

theorem Told.later (h : Told source nodes ahead emitted) (suffix : rest <:+ ahead) :
    Told source nodes rest emitted :=
  ⟨h.reported, fun token mem => h.written token (suffix.mem mem)⟩

theorem Told.newlines (h : Told source nodes s.rest emitted) :
    Told source nodes s.pastNewlines.rest emitted := h.later (List.dropWhile_suffix _)

theorem Told.terminators (h : Told source nodes s.rest emitted) :
    Told source nodes s.pastTerminators.rest emitted := h.later (List.dropWhile_suffix _)

theorem ParseState.Next.told {kind : TokenKind} {token : Token} (next : s.Next kind token rest)
    (h : Told source nodes s.rest emitted) : Told source nodes rest emitted :=
  h.later next.past.2

theorem ParseState.Eats.told {kind : TokenKind} {found : Option Token}
    (eats : s.Eats kind found rest) (h : Told source nodes s.rest emitted) :
    Told source nodes rest emitted := h.later eats.past.2

theorem Grammar.BlockParameters.told {parameters : Node × Bool} {t : ParseState}
    (list : BlockParameters s parameters t) (h : Told source nodes s.rest s.emitted) :
    Told source nodes t.rest t.emitted := by
  rw [list.quiet.2]
  exact h.later list.past.2

theorem Grammar.ParenthesizedParameters.told {parameters : Node × Bool} {t : ParseState}
    (list : ParenthesizedParameters s parameters t) (h : Told source nodes s.rest s.emitted) :
    Told source nodes t.rest t.emitted := by
  rw [list.quiet.2]
  exact h.later list.past.2

end Told

/-! ### Phrases -/

namespace Grammar

variable {features : Features} {s t : ParseState} {source : String} {earlier : List Node}

/-- The ambiguities in the nodes that a phrase goes on from have been reported as well. -/
def Phrase.Told (source : String) (earlier : List Node) (ahead : List Token)
    (emitted : List Diagnostic) : Phrase → Prop
  | .of (.operatorsAfter _ node) | .of (.callsAfter node) | .blockAfter node =>
    Dialect.Told source (earlier ++ node.ambiguities) ahead emitted
  | .call receiver _ _ =>
    Dialect.Told source (earlier ++ receiver.toList.flatMap ambiguities) ahead emitted
  | _ => Dialect.Told source earlier ahead emitted

/-- The ambiguities in what a phrase stands for. -/
def Phrase.ambiguities : (phrase : Phrase) → phrase.Result → List Node
  | .of (.statements _), nodes | .of .entries, nodes | .of .clauses, nodes =>
    nodes.flatMap Node.ambiguities
  | .of (.arguments command), nodes => argumentsAmbiguities command nodes
  | .actuals, given => argumentsAmbiguities given.parens.isNone given.nodes
  | .argument first, node => node.argumentAmbiguities first
  | .of .expression, node | .of (.operators _), node | .of (.operatorsAfter _ _), node
  | .of .unary, node | .of (.callsAfter _), node | .of .pattern, node | .primary, node
  | .call _ _ _, node | .blockAfter _, node | .entry _, node | .clause, node => node.ambiguities

theorem ambiguities_of_argumentSign? {kind : TokenKind} {sign : NodeKind} {operand : Node}
    {whole : Option Span} {fields : List (String × Option Span)}
    (h : argumentSign? (some kind) = some sign) :
    (Node.located sign [.node operand] whole fields).ambiguities = operand.ambiguities ∧
      (Node.located sign [.node operand] whole fields).isSigned = true := by
  cases kind <;> cases h <;> exact ⟨by simp [ambiguities_located], rfl⟩

/-- The report of a sign, after all in its operand. -/
theorem Told.sign {kind : TokenKind} {sign : NodeKind} {operator : Token} {operand node : Node}
    {first : Bool} (signs : argumentSign? (some kind) = some sign)
    (written : operator.span.slice source = operator.text) (ranged : operand.Ranged)
    (is : node = .located sign [.node operand] (some (operator.span.join operand.range))
      [("operator", some operator.span)])
    (h : Told source (earlier ++ operand.ambiguities) t.rest t.emitted) :
    Told source (earlier ++ node.argumentAmbiguities first)
      (if first then t.reporting (ambiguity operator operand) else t).rest
      (if first then t.reporting (ambiguity operator operand) else t).emitted := by
  have own : node.ambiguities = operand.ambiguities ∧ node.isSigned = true :=
    is ▸ ambiguities_of_argumentSign? signs
  rw [argumentAmbiguities, own.1, own.2]
  cases first with
  | false => exact h.of_eq (by simp)
  | true =>
    have reported : Reported source node (ambiguity operator operand) :=
      ⟨operator.span, operand, operand.range, by rw [is]; rfl, by rw [is]; rfl, ranged,
        by rw [written]; rfl⟩
    rw [← List.append_assoc]
    exact ⟨List.rel_append h.reported (.cons reported .nil), h.written⟩

/-- Reports come in the order of the arguments, each after those in it. -/
theorem Derives.told {phrase : Phrase} {value : phrase.Result}
    (h : Derives features phrase s value t)
    (given : phrase.Told source earlier s.rest s.emitted) :
    Told source (earlier ++ phrase.ambiguities value) t.rest t.emitted := by
  -- `earlier` grows from premise to premise, in the order in which a rule reads them.
  induction h generalizing earlier with
  | noStatements => exact (Told.terminators given).of_eq (List.append_nil _).symm
  | lastStatement _ _ _ _ ih =>
    exact (ih (Told.terminators given)).of_eq (by simp [Phrase.ambiguities])
  | moreStatements _ _ _ _ ih1 ih2 =>
    exact (ih2 (ih1 (Told.terminators given))).of_eq (by simp [Phrase.ambiguities])
  | assignment next operator _ ih =>
    exact (ih (Told.newlines (operator.told (next.told given)))).of_eq
      (by simp [Phrase.ambiguities, ambiguities_located])
  | unassigned _ _ ih => exact ih given
  | operators _ _ ih1 ih2 => exact ih2 (ih1 given)
  | noOperator | noCall | noBlock => exact given
  | operator _ _ operator right _ ih1 ih2 =>
    have unsigned := (right.shaped trivial).unsigned
    refine ih2 ((ih1 (Told.newlines (operator.told given))).of_eq ?_)
    simp [Phrase.ambiguities, operatorNode_ambiguities _ unsigned]
  | negative sign digits _ value =>
    refine (digits.told (sign.told given)).of_eq ?_
    simp [Phrase.ambiguities, childless_ambiguities, Child.node?_integer? value]
  | minus next _ _ ih | bang next _ ih =>
    exact (ih (next.told given)).of_eq (by simp [Phrase.ambiguities, signNode_ambiguities])
  | chain _ _ _ _ ih1 ih2 => exact ih2 (ih1 given)
  | integer next value =>
    refine (next.told given).of_eq ?_
    simp [Phrase.ambiguities, childless_ambiguities, Child.node?_integer? value]
  | string next | symbol next | keyword _ next | constant next | numberedVariable next
  | localVariable next | variablePattern next =>
    refine (next.told given).of_eq ?_
    exact (List.append_nil _).symm.trans (congrArg _ (childless_ambiguities rfl).symm)
  | adjacentCall next _ _ ih | wordCall next _ _ _ _ ih =>
    exact ih ((next.told given).of_eq (List.append_nil _).symm)
  | parenthesized first _ last ih =>
    exact (last.told (ih (first.told given))).of_eq
      (by simp [Phrase.ambiguities, ambiguities_located])
  | lambda _ next parameters _ opener _ closer ih =>
    have body := closer.told (ih (opener.told (parameters.told (next.told given))))
    refine body.of_eq (congrArg _ ?_)
    simp [Phrase.ambiguities, closureNode_ambiguities parameters.quiet.1, leaf_ambiguities]
  | method keyword name parameters _ last ih =>
    have body := last.told (ih (parameters.told (name.told (keyword.told given))))
    refine body.of_eq (congrArg _ ?_)
    simp [Phrase.ambiguities, ambiguities_located, parameters.quiet.1, sequence_ambiguities]
  | classDefinition keyword _ name _ last ih =>
    have body := last.told (ih (name.told (keyword.told given)))
    refine body.of_eq (congrArg _ ?_)
    simp [Phrase.ambiguities, ambiguities_located, sequence_ambiguities, constantNode, named]
  | whileLoop keyword _ opener _ _ last ih1 ih2 =>
    have body := last.told (ih2 (opener.told (ih1 (keyword.told given))))
    refine body.of_eq ?_
    simp [Phrase.ambiguities, ambiguities_located, sequence_ambiguities]
  | definedWord keyword _ _ ih =>
    exact (ih (keyword.told given)).of_eq (by simp [Phrase.ambiguities, ambiguities_located])
  | definedParens keyword first _ last ih =>
    have operand := ih (Told.newlines (first.told (keyword.told given)))
    exact (last.told (Told.newlines operand)).of_eq
      (by simp [Phrase.ambiguities, ambiguities_located])
  | caseMatch _ keyword _ _ _ last ih1 ih2 =>
    have clauses := ih2 (Told.terminators (ih1 (keyword.told given)))
    exact (last.told clauses).of_eq (by simp [Phrase.ambiguities, caseNode_ambiguities])
  | caseElse _ keyword _ _ _ alternative _ last ih1 ih2 ih3 =>
    have clauses := ih2 (Told.terminators (ih1 (keyword.told given)))
    exact (last.told (ih3 (alternative.told clauses))).of_eq
      (by simp [Phrase.ambiguities, caseNode_ambiguities])
  | dotCall dot selector _ _ ih1 ih2 =>
    exact ih2 (ih1 ((selector.told (dot.told given)).of_eq (by simp)))
  | call _ _ ih1 ih2 =>
    refine ih2 ((ih1 given).of_eq ?_)
    simp [Phrase.ambiguities, recordedCall_ambiguities]
  | emptyParens first _ last =>
    exact (last.told (Told.newlines (first.told given))).of_eq (List.append_nil _).symm
  | parens first _ _ _ last ih =>
    exact last.told (Told.newlines (ih (Told.newlines (first.told given))))
  | commandArguments _ _ _ ih => exact ih given
  | noActuals | noEntries | noClauses => exact Told.of_eq given (List.append_nil _).symm
  | lastArgument _ _ ih =>
    exact (ih given).of_eq (by simp [Phrase.ambiguities, argumentsAmbiguities])
  | moreArguments _ comma _ ih1 ih2 =>
    have more := ih2 (Told.newlines (comma.told (ih1 given)))
    refine more.of_eq ?_
    rw [Phrase.ambiguities, argumentsAmbiguities_false, List.append_assoc]
    rfl
  | plainArgument _ read ih =>
    have unsigned := (read.shaped trivial).unsigned
    exact (ih given).of_eq (congrArg _ (argumentAmbiguities_of_unsigned unsigned).symm)
  | signedArgument signs next read ih =>
    have written := given.written _ (by rw [next.eq]; exact .head _)
    exact Told.sign signs written (read.shaped trivial).ranged rfl (ih (next.told given))
  | block closes read parameters _ closer ih =>
    have opener : ParseState.Next _ _ _ _ := ⟨read, rfl⟩
    have body := closer.told (ih (parameters.told (opener.told given)))
    exact body.of_eq (by simp [Phrase.ambiguities, closureNode_ambiguities parameters.quiet.1])
  | hashPattern first _ last ih =>
    have entries := ih (Told.newlines (first.told given))
    exact (last.told (Told.newlines entries)).of_eq
      (by simp [Phrase.ambiguities, ambiguities_located])
  | valuePattern _ _ ih => exact ih given
  | lastEntry label _ _ ih => exact (ih (label.told given)).of_eq (by simp [Phrase.ambiguities])
  | moreEntries label _ comma _ ih1 ih2 =>
    have more := ih2 (Told.newlines (comma.told (ih1 (label.told given))))
    exact more.of_eq (by simp [Phrase.ambiguities])
  | bareEntry =>
    exact Told.of_eq given
      ((List.append_nil _).symm.trans (congrArg _ (childless_ambiguities rfl).symm))
  | pairEntry _ _ _ ih =>
    exact (ih given).of_eq (by simp [Phrase.ambiguities, pairNode_ambiguities])
  | moreClauses _ _ ih1 ih2 => exact (ih2 (ih1 given)).of_eq (by simp [Phrase.ambiguities])
  | clause keyword _ same opener _ _ ih1 ih2 =>
    subst same
    have body := ih2 (opener.told (ih1 (keyword.told given)))
    exact body.of_eq (by simp [Phrase.ambiguities, clauseNode_ambiguities])

end Grammar

/-- The diagnostics for an accepted source are the reports of the signs before first arguments of
commands in its tree. -/
theorem Parser.ambiguities_reported {parser : Parser} {source : String} {tree : Option Node}
    (accepted : (parser.parse source).1 = .ok tree) :
    List.Forall₂ (Node.Reported source) (tree.toList.flatMap Node.ambiguities)
      (parser.parse source).2.2 := by
  obtain ⟨tokens, body, after, tokenized, derived, rfl, emitted⟩ :=
    Parser.program_of_accepted accepted
  have start : Told source [] tokens [] := ⟨.nil, placed_slice tokenized⟩
  have told : Told source (body.flatMap Node.ambiguities) after.rest after.emitted :=
    Derives.told derived start
  rw [emitted, sequence_ambiguities]
  exact told.reported

/-- A command in the argument of a command, an argument after it, and a command in a block. -/
theorem Parser.ambiguities_reported_nested :
    let source := "foo *(bar &x), *y do baz &z end"
    ∃ tree, (Parser.newest.parse source).1 = .ok (some tree) ∧
      tree.ambiguities.map (fun node => (node.kind, node.range)) =
        [(.blockPass, ⟨10, 12, by decide⟩), (.splat, ⟨4, 13, by decide⟩),
          (.blockPass, ⟨25, 27, by decide⟩)] ∧
      List.Forall₂ (Node.Reported source) tree.ambiguities
        (Parser.newest.parse source).2.2 := by
  intro source
  have found : (Parser.newest.parse source).1.toOption.join.any fun tree =>
      tree.ambiguities.map (fun node => (node.kind, node.range)) ==
        [(.blockPass, ⟨10, 12, by decide⟩), (.splat, ⟨4, 13, by decide⟩),
          (.blockPass, ⟨25, 27, by decide⟩)] := by
    decide +kernel
  obtain ⟨tree, accepted, listed⟩ := Parser.accepted_of_any found
  have reported := Parser.ambiguities_reported accepted
  rw [Option.toList_some, List.flatMap_singleton] at reported
  exact ⟨tree, accepted, beq_iff_eq.1 listed, reported⟩

end Conformance.Dialect
