import Conformance.Proofs.Acceptance
import Conformance.Proofs.Idle
import Conformance.Proofs.Nodes
import Conformance.Proofs.Spelling

/-! What a call of the probe records: the flags that the edges of the tree set on the way down to
it. -/

namespace Conformance.Dialect

open Grammar

/-! ### Edges and flags -/

def Child.sym? : Child → Option String
  | .sym name => some name
  | _ => none

namespace Node

/-- The name of the method that a call calls. -/
def selector? (node : Node) : Option String := node.allChildren[1]?.bind Child.sym?

/-- Whether a node is a call of the probe. -/
def isProbe (node : Node) : Bool :=
  node.kind == .send && node.selector? == some probeName

end Node

namespace Edge

/-- The kind of the first child of the node that an edge starts from. -/
def target? (edge : Edge) : Option NodeKind :=
  (edge.parent.allChildren.head?.bind Child.node?).map Node.kind

/-- The changes of the flags on the way into a child. -/
def changes (edge : Edge) : List (Flag × Bool) :=
  match edge.parent.kind, edge.index with
  | .block, 2 | .numblock, 2 =>
    match edge.target? with
    | some .send => [(.inBlock, true), (.inLambda, false)]
    | some .lambda => [(.inLambda, true), (.inBlock, false)]
    | _ => []
  | .method, 2 => [(.inDef, true), (.inClass, false), (.inBlock, false), (.inLambda, false)]
  | .classDef, 2 => [(.inClass, true), (.inDef, false), (.inBlock, false), (.inLambda, false)]
  | .definedCheck, 0 => [(.inDefined, true)]
  | .inPattern, 0 => [(.inKwarg, true)]
  | _, _ => []

/-- The flags in a child, if `flags` are those of the node. -/
def enterWith (flags : Flags) (edge : Edge) : Flags := flags.setAll edge.changes

theorem enterWith_inArgdef (flags : Flags) (edge : Edge) :
    (edge.enterWith flags).inArgdef = flags.inArgdef := by
  unfold enterWith changes
  split <;> try split
  all_goals rfl

/-- No edge leads into the default of a parameter. -/
theorem foldl_enterWith_inArgdef (edges : List Edge) (flags : Flags) :
    (edges.foldl enterWith flags).inArgdef = flags.inArgdef := by
  induction edges generalizing flags with
  | nil => rfl
  | cons edge more ih => rw [List.foldl_cons, ih, enterWith_inArgdef]

end Edge

/-- Whether the edges from nodes of a kind change no flags, and no node of the kind is a call. -/
def NodeKind.isSteady : NodeKind → Bool
  | .send | .block | .numblock | .method | .classDef | .definedCheck | .inPattern => false
  | _ => true

namespace Node

/-- The flags that a node should have recorded where `flags` hold. -/
def probed? (node : Node) (flags : Flags) : Option Flags :=
  if node.isProbe then some flags else none

/-- Every node of a tree has recorded what it should have, if `flags` hold where the tree stands. -/
def Probed (flags : Flags) (node : Node) : Prop :=
  ∀ indices edges target, node.trail? indices = some (edges, target) →
    target.context? = target.probed? (edges.foldl Edge.enterWith flags)

variable {flags : Flags} {node : Node} {kind : NodeKind} {children : List Child}
  {whole : Option Span} {fields : List (String × Option Span)}

theorem probed_of_children (own : node.context? = node.probed? flags)
    (children : ∀ (index : Nat) (child : Node), node.allChildren[index]? = some (.node child) →
      child.Probed (Edge.enterWith flags ⟨node, index⟩)) : node.Probed flags :=
  node.of_trail own children

/-- What is no call records nothing. -/
theorem probed?_located (other : kind ≠ .send) :
    (located kind children whole fields).context? =
      (located kind children whole fields).probed? flags := by
  have not_probe : (located kind children whole fields).isProbe = false := by
    simp [isProbe, other]
  rw [probed?, not_probe]
  rfl

theorem probed_of_steady (steady : kind.isSteady = true)
    (below : ∀ child ∈ children.filterMap Child.node?, child.Probed flags) :
    (located kind children whole fields).Probed flags := by
  have other : kind ≠ .send := by
    rintro rfl
    cases steady
  refine probed_of_children (probed?_located other) fun index child here => ?_
  have same : Edge.enterWith flags ⟨located kind children whole fields, index⟩ = flags := by
    cases kind <;> first | rfl | cases steady
  rw [same]
  exact below child (List.mem_filterMap.2 ⟨.node child, List.mem_of_getElem? here, rfl⟩)

/-- A call, if it has recorded what it should have. -/
theorem probed_of_send {location : Option Location} {context : Option Flags}
    (own : context = (Node.mk .send children location context).probed? flags)
    (below : ∀ child ∈ children.filterMap Child.node?, child.Probed flags) :
    (Node.mk .send children location context).Probed flags :=
  probed_of_children own fun _ child here =>
    below child (List.mem_filterMap.2 ⟨.node child, List.mem_of_getElem? here, rfl⟩)

end Node

/-! ### The nodes of the grammar -/

section Nodes

variable {flags inner : Flags}

theorem integer_probed {kind : NodeKind} {text : List Char} {value : Child}
    {whole : Option Span} {fields : List (String × Option Span)} (steady : kind.isSteady = true)
    (read : Child.integer? text = some value) :
    (Node.located kind [value] whole fields).Probed flags := by
  refine Node.probed_of_steady steady fun child mem => ?_
  simp [Child.node?_integer? read] at mem

theorem sequence_probed {body : List Node} (probed : ∀ node ∈ body, node.Probed flags) :
    ∀ node ∈ sequence body, node.Probed flags := by
  match body with
  | [] => exact nofun
  | [node] => simpa [Grammar.sequence] using probed
  | first :: second :: more =>
    rintro _ ⟨⟩
    refine Node.probed_of_steady rfl ?_
    rwa [Node.filterMap_node?_map]

theorem sequence_probed_child {body : List Node} {child : Node}
    (probed : ∀ node ∈ body, node.Probed flags)
    (here : Child.ofOption (sequence body) = .node child) : child.Probed flags := by
  refine sequence_probed probed child ?_
  rw [← Node.node?_ofOption (sequence body), here]
  rfl

/-- The word of the probe is the text of no operator. -/
theorem operator_text_ne {operator : Token} {power : Nat}
    (binds : bindingPower? operator.kind = some power)
    (spells : operator.kind.Spells operator.text.toList) : operator.text ≠ probeName := by
  intro same
  have fixed := mem_fixedTexts_of_bindingPower binds spells
  have listed : operator.text ∈ TokenKind.fixedTexts.map Prod.snd := by
    simpa using List.mem_map_of_mem (f := Prod.snd) fixed
  rw [same] at listed
  exact absurd listed (by decide)

theorem operatorNode_probed {left right : Node} {operator : Token}
    (other : operator.text ≠ probeName) (left_probed : left.Probed flags)
    (right_probed : right.Probed flags) : (operatorNode left operator right).Probed flags := by
  have both : ∀ node ∈ [left, right], node.Probed flags := by
    simpa using ⟨left_probed, right_probed⟩
  unfold operatorNode
  split
  · exact Node.probed_of_steady rfl both
  · exact Node.probed_of_steady rfl both
  · refine Node.probed_of_send ?_ both
    simp [Node.probed?, Node.isProbe, Node.selector?, Node.allChildren, Child.sym?, other]

theorem signNode_probed {selector : String} {sign : Token} {operand : Node}
    (other : selector ≠ probeName) (probed : operand.Probed flags) :
    (signNode selector sign operand).Probed flags := by
  refine Node.probed_of_send ?_ (List.forall_mem_singleton.2 probed)
  simp [Node.probed?, Node.isProbe, Node.selector?, Node.allChildren, Child.sym?, other]

theorem recordedCall_probed {receiver : Option Node} {dot : Option Token} {selector : Token}
    {actuals : Actuals} (receiver_probed : ∀ node ∈ receiver, node.Probed flags)
    (probed : ∀ node ∈ actuals.nodes, node.Probed flags) :
    (recordedCall flags receiver dot selector actuals).Probed flags := by
  rw [recordedCall_eq]
  refine Node.probed_of_send ?_ ?_
  · simp [Node.probed?, Node.isProbe, Node.kind, Node.selector?, Node.allChildren, Child.sym?]
  · intro child mem
    have cases : child ∈ receiver ∨ child ∈ actuals.nodes := by simpa [eq_comm] using mem
    obtain at_receiver | argument := cases
    · exact receiver_probed child at_receiver
    · exact probed child argument

/-- A node with one operand, which the flags `inner` hold in. -/
theorem operand_probed {kind : NodeKind} {operand : Node} {whole : Option Span}
    {fields : List (String × Option Span)} (other : kind ≠ .send)
    (enters : Edge.enterWith flags ⟨.located kind [.node operand] whole fields, 0⟩ = inner)
    (probed : operand.Probed inner) :
    (Node.located kind [.node operand] whole fields).Probed flags := by
  refine Node.probed_of_children (Node.probed?_located other) fun index child here => ?_
  match index with
  | 0 =>
    cases here
    rwa [enters]
  | index + 1 => cases here

/-- What has a body as its third child, which the flags `inner` hold in. -/
theorem body_probed {kind : NodeKind} {first second : Child} {body : List Node}
    {whole : Option Span} {fields : List (String × Option Span)}
    (scope : kind ∈ [NodeKind.block, .numblock, .method, .classDef])
    (enters : Edge.enterWith flags
      ⟨.located kind [first, second, .ofOption (sequence body)] whole fields, 2⟩ = inner)
    (first_probed : ∀ node, first = .node node → node.Probed flags)
    (second_probed : ∀ node, second = .node node → node.Probed flags)
    (probed : ∀ node ∈ body, node.Probed inner) :
    (Node.located kind [first, second, .ofOption (sequence body)] whole fields).Probed flags := by
  have other : kind ≠ .send := by
    rintro rfl
    simp at scope
  have same (index : Nat) (before : index < 2) : Edge.enterWith flags
      ⟨.located kind [first, second, .ofOption (sequence body)] whole fields, index⟩ = flags := by
    simp only [List.mem_cons, List.not_mem_nil, or_false] at scope
    match index with
    | 0 | 1 => obtain rfl | rfl | rfl | rfl := scope <;> rfl
  refine Node.probed_of_children (Node.probed?_located other) fun index child here => ?_
  match index with
  | 0 =>
    rw [same 0 (by decide)]
    exact first_probed child (Option.some.inj here)
  | 1 =>
    rw [same 1 (by decide)]
    exact second_probed child (Option.some.inj here)
  | 2 =>
    rw [enters]
    exact sequence_probed_child probed (Option.some.inj here)
  | index + 3 => cases here

theorem closureNode_probed {target parameters : Node} {numbering : Option Numbering}
    {body : List Node} {whole : Span} {first last : Token} (changes : List (Flag × Bool))
    (kind_eq : target.kind = .send ∧ changes = [(.inBlock, true), (.inLambda, false)] ∨
      target.kind = .lambda ∧ changes = [(.inLambda, true), (.inBlock, false)])
    (target_probed : target.Probed flags) (parameters_probed : parameters.Probed flags)
    (probed : ∀ node ∈ body, node.Probed (flags.setAll changes)) :
    (closureNode target parameters numbering body whole first last).Probed flags := by
  have target_probed' : ∀ node, Child.node target = .node node → node.Probed flags := by
    rintro _ ⟨⟩
    exact target_probed
  have enters {kind : NodeKind} {second : Child} (block : kind = .block ∨ kind = .numblock) :
      Edge.enterWith flags ⟨.located kind [.node target, second, .ofOption (sequence body)]
        (some whole) [("begin", some first.span), ("end", some last.span)], 2⟩ =
        flags.setAll changes := by
    have target_kind : Edge.target? ⟨.located kind [.node target, second,
        .ofOption (sequence body)] (some whole) [("begin", some first.span),
          ("end", some last.span)], 2⟩ = some target.kind := rfl
    unfold Edge.enterWith Edge.changes
    rw [target_kind]
    obtain rfl | rfl := block <;> obtain ⟨is, rfl⟩ | ⟨is, rfl⟩ := kind_eq <;> simp [is]
  unfold closureNode
  dsimp only
  split
  · exact body_probed (by simp) (enters (.inr rfl)) target_probed' nofun probed
  · refine body_probed (by simp) (enters (.inl rfl)) target_probed' ?_ probed
    rintro _ ⟨⟩
    exact parameters_probed

/-- The flags of a pattern are not those of the body after it. -/
theorem clauseNode_probed {keyword : Token} {pattern : Node} {opener : Option Token}
    {body : List Node} (pattern_probed : pattern.Probed (flags.setAll [(.inKwarg, true)]))
    (probed : ∀ node ∈ body, node.Probed flags) :
    (clauseNode keyword pattern opener body).Probed flags := by
  refine Node.probed_of_children (Node.probed?_located nofun) fun index child here => ?_
  match index with
  | 0 =>
    cases here
    exact pattern_probed
  | 1 => cases here
  | 2 => exact sequence_probed_child probed (Option.some.inj here)
  | index + 3 => cases here

theorem pairNode_probed {label : Token} {value : Node} (probed : value.Probed flags) :
    (pairNode label value).Probed flags := by
  have key : (Node.located .sym [.sym (keyOf label)] (some (keySpan label))
      [("begin", none)]).Probed flags := Node.probed_of_steady rfl nofun
  exact Node.probed_of_steady rfl
    (List.forall_mem_cons.2 ⟨key, List.forall_mem_singleton.2 probed⟩)

theorem caseNode_probed {keyword last : Token} {subject : Node} {clauses otherwise : List Node}
    {alternative : Option Token} (subject_probed : subject.Probed flags)
    (clauses_probed : ∀ node ∈ clauses, node.Probed flags)
    (probed : ∀ node ∈ otherwise, node.Probed flags) :
    (caseNode keyword subject clauses alternative otherwise last).Probed flags := by
  refine Node.probed_of_steady rfl fun child mem => ?_
  have cases : child = subject ∨ child ∈ clauses ∨ child ∈ sequence otherwise := by
    simpa [caseNode, eq_comm] using mem
  obtain rfl | clause | below := cases
  · exact subject_probed
  · exact clauses_probed child clause
  · exact sequence_probed probed child below

theorem whileLoop_probed {condition : Node} {body : List Node} {whole : Option Span}
    {fields : List (String × Option Span)} (condition_probed : condition.Probed flags)
    (probed : ∀ node ∈ body, node.Probed flags) :
    (Node.located .whileLoop [.node condition, .ofOption (sequence body)] whole fields).Probed
      flags := by
  refine Node.probed_of_steady rfl fun child mem => ?_
  have cases : child = condition ∨ child ∈ sequence body := by
    simpa [eq_comm] using mem
  obtain rfl | below := cases
  · exact condition_probed
  · exact sequence_probed probed child below

theorem Grammar.Names.probed {close : TokenKind} {seen : List String} {nodes : List Node}
    {s t : ParseState} (h : Names close seen s nodes t) :
    ∀ node ∈ nodes, node.Probed flags := by
  have parameter (name : Token) : (parameterNode name).Probed flags :=
    Node.probed_of_steady rfl nofun
  induction h with
  | none => exact nofun
  | last => simpa using parameter _
  | more _ _ _ _ ih => exact List.forall_mem_cons.2 ⟨parameter _, ih⟩

theorem Grammar.ParameterList.probed {close : TokenKind} {nodes : List Node} {first last : Span}
    {s t : ParseState} (h : ParameterList close s nodes t) :
    (parametersNode nodes first last).Probed flags := by
  refine Node.probed_of_steady rfl ?_
  rw [Node.filterMap_node?_map]
  cases h with
  | intro names => exact names.probed

theorem Grammar.BlockParameters.probed {parameters : Node × Bool} {s t : ParseState}
    (h : BlockParameters s parameters t) : parameters.1.Probed flags := by
  cases h with
  | bars | none => exact Node.probed_of_steady rfl nofun
  | list _ names _ => exact names.probed

theorem Grammar.ParenthesizedParameters.probed {parameters : Node × Bool} {s t : ParseState}
    (h : ParenthesizedParameters s parameters t) : parameters.1.Probed flags := by
  cases h with
  | none => exact Node.probed_of_steady rfl nofun
  | list _ names _ => exact names.probed

end Nodes

/-! ### Phrases -/

namespace Grammar

/-- The texts of some tokens are those that their kinds have. -/
def Spelled (tokens : List Token) : Prop :=
  ∀ token ∈ tokens, token.kind.Spells token.text.toList

/-- The nodes that a phrase goes on from have recorded what they should have; a block belongs to a
call. -/
def Phrase.Ready (flags : Flags) : Phrase → Prop
  | .of (.operatorsAfter _ node) | .of (.callsAfter node) => node.Probed flags
  | .blockAfter node => node.kind = .send ∧ node.Probed flags
  | .call receiver _ _ => ∀ node ∈ receiver, node.Probed flags
  | _ => True

/-- The nodes that a phrase stands for have recorded what they should have. -/
def Phrase.Probed (flags : Flags) : (phrase : Phrase) → phrase.Result → Prop
  | .of (.statements _), nodes | .of (.arguments _), nodes | .of .entries, nodes
  | .of .clauses, nodes => ∀ node ∈ nodes, node.Probed flags
  | .of .expression, node | .of (.operators _), node | .of (.operatorsAfter _ _), node
  | .of .unary, node | .of (.callsAfter _), node | .of .pattern, node | .primary, node
  | .call _ _ _, node | .blockAfter _, node | .argument _, node | .entry _, node
  | .clause, node => node.Probed flags
  | .actuals, given => ∀ node ∈ given.nodes, node.Probed flags

variable {features : Features} {s t : ParseState}

theorem Spelled.on {k : Nat} {a b : List Token} (spelled : Spelled a) (past : Past k a b) :
    Spelled b := fun token mem => spelled token (past.2.mem mem)

theorem Spelled.of_next {kind : TokenKind} {token : Token} {rest : List Token}
    (spelled : Spelled s.rest) (next : s.Next kind token rest) :
    token.kind.Spells token.text.toList := by
  refine spelled token ?_
  rw [next.eq]
  exact .head _

theorem Derives.context_eq {phrase : Phrase} {value : phrase.Result}
    (h : Derives features phrase s value t) : t.book.context = s.book.context :=
  congrArg Outline.context h.outline_eq

theorem BlockParameters.context_eq {parameters : Node × Bool} (h : BlockParameters s parameters t) :
    t.book.context = s.book.context := by
  cases h with
  | bars | none => rfl
  | list _ names _ =>
    cases names with
    | intro => rfl

theorem ParenthesizedParameters.context_eq {parameters : Node × Bool}
    (h : ParenthesizedParameters s parameters t) : t.book.context = s.book.context := by
  cases h with
  | none => rfl
  | list _ names _ =>
    cases names with
    | intro => rfl

theorem Derives.probed {phrase : Phrase} {value : phrase.Result} {flags : Flags}
    (h : Derives features phrase s value t) (place : s.book.context = flags)
    (spelled : Spelled s.rest) (ready : phrase.Ready flags) : phrase.Probed flags value := by
  -- The flags are those in force where a phrase is read, so a body has its own.
  induction h generalizing flags with
  | noStatements | emptyParens | noActuals | noEntries | noClauses => exact nofun
  | lastStatement _ _ _ _ ih =>
    exact List.forall_mem_singleton.2 (ih place (spelled.on (past_terminators _)) trivial)
  | moreStatements _ h1 _ _ ih1 ih2 =>
    have past := (past_terminators _).on h1.past
    exact List.forall_mem_cons.2 ⟨ih1 place (spelled.on (past_terminators _)) trivial,
      ih2 (h1.context_eq.trans place) (spelled.on past) trivial⟩
  | @assignment s _ name _ _ _ _ next operator _ ih =>
    have past := (next.past.on operator.past).on (past_newlines _)
    have declared : (s.book.declare name.text).context = flags :=
      (congrArg (·.context) (s.book.outline_declare name.text)).trans place
    have value := ih declared (spelled.on past) trivial
    exact Node.probed_of_steady rfl (List.forall_mem_singleton.2 value)
  | unassigned _ _ ih | plainArgument _ _ ih | valuePattern _ _ ih | commandArguments _ _ _ ih =>
    exact ih place spelled trivial
  | operators h1 _ ih1 ih2 | chain _ _ h1 _ ih1 ih2 =>
    exact ih2 (h1.context_eq.trans place) (spelled.on h1.past) (ih1 place spelled trivial)
  | noOperator | noCall => exact ready
  | operator binds _ operator h1 _ ih1 ih2 =>
    have past := operator.past.on (past_newlines _)
    have right := ih1 place (spelled.on past) trivial
    -- An operator is the selector of a call too, which must not be taken for a probe.
    have other := operator_text_ne (operator.kind_eq ▸ binds) (spelled.of_next operator)
    exact ih2 (h1.context_eq.trans place) (spelled.on (past.on h1.past))
      (operatorNode_probed other ready right)
  | negative _ _ _ value | integer _ value => exact integer_probed rfl value
  | minus sign _ _ ih | bang sign _ ih =>
    exact signNode_probed (by decide) (ih place (spelled.on sign.past) trivial)
  | string | symbol | constant | numberedVariable | localVariable | variablePattern | bareEntry =>
    exact Node.probed_of_steady rfl nofun
  | @keyword _ kind _ _ _ value _ =>
    refine Node.probed_of_steady ?_ nofun
    cases kind <;> cases value <;> rfl
  | adjacentCall token _ _ ih | wordCall token _ _ _ _ ih =>
    exact ih place (spelled.on token.past) nofun
  | parenthesized first _ _ ih =>
    have body := ih place (spelled.on first.past) trivial
    refine Node.probed_of_steady rfl ?_
    rwa [Node.filterMap_node?_map]
  | lambda _ arrow parameters _ first _ _ ih =>
    have past := (arrow.past.on parameters.past).on first.past
    have inner := congrArg (Flags.setAll · [(.inLambda, true), (.inBlock, false)])
      (parameters.context_eq.trans place)
    have body := ih inner (spelled.on past) trivial
    exact closureNode_probed _ (.inr ⟨rfl, rfl⟩) (Node.probed_of_steady rfl nofun)
      parameters.probed body
  | method keyword name parameters _ _ ih =>
    have past := (keyword.past.on name.past).on parameters.past
    have inner := congrArg
      (Flags.setAll · [(.inDef, true), (.inClass, false), (.inBlock, false), (.inLambda, false)])
      (parameters.context_eq.trans place)
    have body := ih inner (spelled.on past) trivial
    refine body_probed (by simp) rfl nofun ?_ body
    rintro _ ⟨⟩
    exact parameters.probed
  | classDefinition keyword _ name _ _ ih =>
    have past := keyword.past.on name.past
    have inner := congrArg
      (Flags.setAll · [(.inClass, true), (.inDef, false), (.inBlock, false), (.inLambda, false)])
      place
    have body := ih inner (spelled.on past) trivial
    refine body_probed (by simp) rfl ?_ nofun body
    rintro _ ⟨⟩
    exact Node.probed_of_steady rfl nofun
  | whileLoop keyword h1 opener _ _ _ ih1 ih2 =>
    have past := (keyword.past.on h1.past).on opener.past
    have condition := ih1 place (spelled.on keyword.past) trivial
    have body := ih2 (h1.context_eq.trans place) (spelled.on past) trivial
    exact whileLoop_probed condition body
  | definedWord keyword _ _ ih =>
    have inner := congrArg (Flags.setAll · [(.inDefined, true)]) place
    have operand := ih inner (spelled.on keyword.past) trivial
    exact operand_probed nofun rfl operand
  | definedParens keyword first _ _ ih =>
    have past := (keyword.past.on first.past).on (past_newlines _)
    have inner := congrArg (Flags.setAll · [(.inDefined, true)]) place
    have operand := ih inner (spelled.on past) trivial
    exact operand_probed nofun rfl operand
  | caseMatch _ keyword h1 _ _ _ ih1 ih2 =>
    have past := (keyword.past.on h1.past).on (past_terminators _)
    have subject := ih1 place (spelled.on keyword.past) trivial
    have clauses := ih2 (h1.context_eq.trans place) (spelled.on past) trivial
    exact caseNode_probed subject clauses nofun
  | caseElse _ keyword h1 _ h2 alternative _ _ ih1 ih2 ih3 =>
    have past := (keyword.past.on h1.past).on (past_terminators _)
    have past' := (past.on h2.past).on alternative.past
    have subject := ih1 place (spelled.on keyword.past) trivial
    have clauses := ih2 (h1.context_eq.trans place) (spelled.on past) trivial
    have otherwise := ih3 ((h2.context_eq.trans h1.context_eq).trans place) (spelled.on past')
      trivial
    exact caseNode_probed subject clauses otherwise
  | dotCall dot selector h1 _ ih1 ih2 =>
    have past := dot.past.on selector.past
    have called := ih1 place (spelled.on past) (by
      rintro _ ⟨⟩
      exact ready)
    exact ih2 (h1.context_eq.trans place) (spelled.on (past.on h1.past)) called
  | call h1 _ ih1 ih2 =>
    subst place
    have actuals := ih1 rfl spelled trivial
    refine ih2 h1.context_eq (spelled.on h1.past) ⟨?_, recordedCall_probed ready actuals⟩
    rw [recordedCall_eq]
    rfl
  | parens first _ _ _ _ ih =>
    have past := first.past.on (past_newlines _)
    exact ih place (spelled.on past) trivial
  | lastArgument _ _ ih => exact List.forall_mem_singleton.2 (ih place spelled trivial)
  | moreArguments h1 comma _ ih1 ih2 =>
    have past := (h1.past.on comma.past).on (past_newlines _)
    exact List.forall_mem_cons.2 ⟨ih1 place spelled trivial,
      ih2 (h1.context_eq.trans place) (spelled.on past) trivial⟩
  | @signedArgument _ _ _ kind _ _ _ _ sign operator _ ih =>
    have operand := ih place (spelled.on operator.past) trivial
    refine Node.probed_of_steady ?_ (List.forall_mem_singleton.2 operand)
    cases kind <;> cases sign <;> rfl
  | noBlock => exact ready.2
  | @block _ _ _ _ _ first _ _ _ _ _ _ read parameters _ _ ih =>
    have opener : ParseState.Next _ first.kind first _ := ⟨read, rfl⟩
    have past := opener.past.on parameters.past
    have inner := congrArg (Flags.setAll · [(.inBlock, true), (.inLambda, false)])
      (parameters.context_eq.trans place)
    have body := ih inner (spelled.on past) trivial
    exact closureNode_probed _ (.inl ⟨ready.1, rfl⟩) ready.2 parameters.probed body
  | hashPattern first _ _ ih =>
    have past := first.past.on (past_newlines _)
    have entries := ih place (spelled.on past) trivial
    refine Node.probed_of_steady rfl ?_
    rwa [Node.filterMap_node?_map]
  | lastEntry label _ _ ih =>
    exact List.forall_mem_singleton.2 (ih place (spelled.on label.past) trivial)
  | moreEntries label h1 comma _ ih1 ih2 =>
    have past := ((label.past.on h1.past).on comma.past).on (past_newlines _)
    exact List.forall_mem_cons.2 ⟨ih1 place (spelled.on label.past) trivial,
      ih2 (h1.context_eq.trans place) (spelled.on past) trivial⟩
  | pairEntry _ _ _ ih => exact pairNode_probed (ih place spelled trivial)
  | moreClauses h1 _ ih1 ih2 =>
    exact List.forall_mem_cons.2 ⟨ih1 place spelled trivial,
      ih2 (h1.context_eq.trans place) (spelled.on h1.past) trivial⟩
  | clause keyword h1 same opener _ _ ih1 ih2 =>
    have past : Past 1 _ _ := keyword.past.on h1.past
    subst same
    have inner := congrArg (Flags.setAll · [(.inKwarg, true)]) place
    have pattern := ih1 inner (spelled.on keyword.past) trivial
    have body := ih2 place (spelled.on (past.on opener.past)) trivial
    exact clauseNode_probed pattern body

end Grammar

/-- In the tree for an accepted source exactly the calls of the probe have recorded flags, and these
are what the edges on the way down to them set, from no flag set at the root. None is in the default
of a parameter. -/
theorem Parser.probe_exact {parser : Parser} {source : String} {tree node : Node}
    {indices : List Nat} {edges : List Edge} (accepted : (parser.parse source).1 = .ok (some tree))
    (trail : tree.trail? indices = some (edges, node)) :
    node.context? = (if node.isProbe then some (edges.foldl Edge.enterWith .clear) else none) ∧
      ∀ flags ∈ node.context?, flags.inArgdef = false := by
  obtain ⟨tokens, body, after, tokenized, derived, root, -⟩ := Parser.program_of_accepted accepted
  have spelled : Spelled tokens := fun token mem => (placed_lawful tokenized token mem).spells
  have probed : ∀ node ∈ body, node.Probed .clear := Derives.probed derived rfl spelled trivial
  have own := sequence_probed probed tree root.symm indices edges node trail
  refine ⟨own, fun flags recorded => ?_⟩
  rw [own, Node.probed?] at recorded
  split at recorded
  · cases recorded
    exact Edge.foldl_enterWith_inArgdef edges .clear
  · cases recorded

/-- A probe in a check in a block in a method. -/
theorem Parser.probe_exact_nested :
    let source := "def f(p) p.a \x7b defined?(get_context) \x7d end"
    ∃ tree edges node, (Parser.newest.parse source).1 = .ok (some tree) ∧
      tree.trail? [2, 2, 0] = some (edges, node) ∧ node.isProbe = true ∧
      edges.foldl Edge.enterWith .clear = .ofList [.inDef, .inBlock, .inDefined] ∧
      node.context? = some (edges.foldl Edge.enterWith .clear) := by
  intro source
  have found : (Parser.newest.parse source).1.toOption.join.any fun tree =>
      (tree.trail? [2, 2, 0]).any fun reached => reached.2.isProbe &&
        reached.1.foldl Edge.enterWith .clear == .ofList [.inDef, .inBlock, .inDefined] := by
    decide +kernel
  obtain ⟨tree, accepted, reached⟩ := Parser.accepted_of_any found
  obtain ⟨⟨edges, node⟩, trail, holds⟩ := (Option.any_eq_true _ _).1 reached
  obtain ⟨probe, flags⟩ := Bool.and_eq_true_iff.1 holds
  have own := (Parser.probe_exact accepted trail).1
  rw [if_pos probe] at own
  exact ⟨tree, edges, node, accepted, trail, probe, beq_iff_eq.1 flags, own⟩

end Conformance.Dialect
