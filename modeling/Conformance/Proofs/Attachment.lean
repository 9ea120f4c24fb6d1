import Conformance.Proofs.Acceptance
import Conformance.Proofs.Idle
import Conformance.Proofs.Nodes
import Conformance.Proofs.Spelling

/-! To which call a `do` block belongs: no such block stands in the condition of a loop or in the
arguments of a command, unless parentheses or a body are between them. -/

namespace Conformance.Dialect

/-! ### Edges -/

namespace Node

/-- Whether a node is a call with a block that the word `do` opens. -/
def isDoBlock (source : String) (node : Node) : Bool :=
  (node.kind == .block || node.kind == .numblock) &&
    (node.allChildren.head?.bind Child.node?).any (fun target => target.kind == .send) &&
    (node.span? "begin").any fun span => span.slice source == "do"

end Node

namespace Edge

/-- Whether an edge leads into parentheses or into a body. -/
def delimits (edge : Edge) : Bool :=
  match edge.parent.kind with
  | .send =>
    2 ≤ edge.index && (edge.parent.span? "begin").isSome && (edge.parent.span? "end").isSome
  | .begin | .definedCheck => (edge.parent.span? "begin").isSome
  | .block | .numblock | .method | .classDef => edge.index == 2
  | _ => false

/-- Whether an edge leads into the condition of a loop or into an argument of a command, a call that
is no operator and has no parentheses. -/
def forbids (edge : Edge) : Bool :=
  match edge.parent.kind with
  | .whileLoop => edge.index == 0
  | .send =>
    2 ≤ edge.index && (edge.parent.span? "begin").isNone &&
      (edge.parent.location?.bind fun location => location.field? "operator").isNone
  | _ => false

/-- Whether a child is in a condition or in the arguments of a command, if the node is or is not. -/
def enter (inside : Bool) (edge : Edge) : Bool := !edge.delimits && (edge.forbids || inside)

end Edge

namespace Edge

/-- If the node at the end of some edges is in no condition and in no arguments, then there is no
edge into them after the last one that delimits. -/
theorem forbids_eq_false {edges : List Edge} (free : edges.foldl enter false = false) :
    ∀ edge ∈ edges.reverse.takeWhile fun edge => !edge.delimits, edge.forbids = false := by
  rw [List.foldl_eq_foldr_reverse] at free
  generalize edges.reverse = upwards at free ⊢
  induction upwards with
  | nil => simp
  | cons edge upwards ih =>
    rw [List.takeWhile_cons]
    cases delimits : edge.delimits with
    | true => simp
    | false =>
      simp only [List.foldr_cons, enter, delimits, Bool.not_false, Bool.true_and,
        Bool.or_eq_false_iff] at free
      simpa using ⟨free.1, ih free.2⟩

end Edge

/-- The kinds of nodes whose edges neither delimit nor are forbidden. -/
def NodeKind.isPlain : NodeKind → Bool
  | .send | .begin | .definedCheck | .block | .numblock | .method | .classDef | .whileLoop => false
  | _ => true

namespace Node

/-- Every `do` block in a node is where it may be, with `inside` for whether the node itself is in a
condition or in the arguments of a command. -/
def Free (source : String) (inside : Bool) (node : Node) : Prop :=
  ∀ indices edges target, node.trail? indices = some (edges, target) →
    target.isDoBlock source = true → edges.foldl Edge.enter inside = false

variable {source : String} {inside : Bool} {node : Node}

/-- A node is free if its children are, each for where it stands. -/
theorem free_of_children (own : node.isDoBlock source = true → inside = false)
    (children : ∀ (index : Nat) (child : Node), node.allChildren[index]? = some (.node child) →
      child.Free source (Edge.enter inside ⟨node, index⟩)) : node.Free source inside :=
  node.of_trail own children

/-- The same, where each child is in the same place. -/
theorem free_of_all {within : Bool} (own : node.isDoBlock source = false)
    (enters : ∀ (index : Nat) (child : Node), node.allChildren[index]? = some (.node child) →
      Edge.enter inside ⟨node, index⟩ = within)
    (children : ∀ child ∈ node.children, child.Free source within) : node.Free source inside := by
  refine free_of_children (fun block => by simp [own] at block) fun index child here => ?_
  rw [enters index child here]
  exact children child (List.mem_filterMap.2 ⟨.node child, List.mem_of_getElem? here, rfl⟩)

theorem isDoBlock_eq_false (h : node.kind ≠ .block) (h' : node.kind ≠ .numblock) :
    node.isDoBlock source = false := by
  simp [isDoBlock, h, h']

theorem free_of_plain (plain : node.kind.isPlain = true)
    (children : ∀ child ∈ node.children, child.Free source inside) : node.Free source inside := by
  refine free_of_all (isDoBlock_eq_false ?_ ?_) (fun index child _ => ?_) children
  · intro kind
    simp [kind, NodeKind.isPlain] at plain
  · intro kind
    simp [kind, NodeKind.isPlain] at plain
  · unfold Edge.enter Edge.delimits Edge.forbids
    dsimp only
    generalize node.kind = kind at plain ⊢
    cases kind <;> first | rfl | cases plain

end Node

open Grammar

/-! ### The nodes of the grammar -/

section Nodes

variable {source : String} {inside : Bool}

theorem integer_free {kind : NodeKind} {text : List Char} {value : Child} {whole : Option Span}
    {fields : List (String × Option Span)} (plain : kind.isPlain = true)
    (read : Child.integer? text = some value) :
    (Node.located kind [value] whole fields).Free source inside := by
  refine Node.free_of_plain plain fun child mem => ?_
  simp [Child.node?_integer? read] at mem

theorem sequence_free {body : List Node} (free : ∀ node ∈ body, node.Free source inside) :
    ∀ node ∈ sequence body, node.Free source inside := by
  match body with
  | [] => exact nofun
  | [node] => simpa [Grammar.sequence] using free
  | first :: second :: more =>
    rintro _ ⟨⟩
    refine Node.free_of_all rfl (fun _ _ _ => rfl) ?_
    rwa [Node.children_located, Node.filterMap_node?_map]

theorem sequence_free_child {body : List Node} {child : Node}
    (free : ∀ node ∈ body, node.Free source inside)
    (here : Child.ofOption (sequence body) = .node child) : child.Free source inside := by
  refine sequence_free free child ?_
  rw [← Node.node?_ofOption (sequence body), here]
  rfl

theorem begin_free {body : List Node} {whole : Option Span} {first last : Span}
    (free : ∀ node ∈ body, node.Free source false) :
    (Node.located .begin (body.map .node) whole
      [("begin", some first), ("end", some last)]).Free source inside :=
  Node.free_of_all rfl (fun _ _ _ => rfl) (by
    rwa [Node.children_located, Node.filterMap_node?_map])

/-- A check whether something is defined; parentheses delimit it. -/
theorem definedCheck_free (parens : Option (Span × Span)) {operand : Node}
    {whole : Option Span} {keyword : Span}
    (free : operand.Free source (parens.isNone && inside)) :
    (Node.located .definedCheck [.node operand] whole
      [("keyword", some keyword), ("begin", parens.map Prod.fst),
        ("end", parens.map Prod.snd)]).Free source inside := by
  have enters (index : Nat) (child : Node) (_ : [Child.node operand][index]? = some (.node child)) :
      Edge.enter inside ⟨.located .definedCheck [.node operand] whole
        [("keyword", some keyword), ("begin", parens.map Prod.fst), ("end", parens.map Prod.snd)],
        index⟩ = (parens.isNone && inside) := by
    cases parens <;> rfl
  exact Node.free_of_all rfl enters (List.forall_mem_singleton.2 free)

theorem operatorNode_free {left right : Node} {operator : Token}
    (left_free : left.Free source inside) (right_free : right.Free source inside) :
    (operatorNode left operator right).Free source inside := by
  have both : ∀ node ∈ [left, right], node.Free source inside := by
    simpa using ⟨left_free, right_free⟩
  unfold operatorNode
  split
  · exact Node.free_of_plain rfl both
  · exact Node.free_of_plain rfl both
  · refine Node.free_of_all rfl (fun index _ _ => ?_) both
    simp [Edge.enter, Edge.delimits, Edge.forbids, Node.span?, Node.field?_located,
      Node.wholeField]

theorem signNode_free {selector : String} {sign : Token} {operand : Node}
    (free : operand.Free source inside) : (signNode selector sign operand).Free source inside := by
  refine Node.free_of_children (fun block => by cases block) fun index child here => ?_
  match index with
  | 0 =>
    cases here
    exact free
  | 1 | index + 2 => cases here

/-- Parentheses delimit the arguments of a call; without them they are those of a command. -/
theorem Edge.enter_argument {receiver : Option Node} {dot : Option Token} {selector : Token}
    {actuals : Actuals} {children : List Child} {context : Option Flags} {index : Nat} :
    Edge.enter inside
      ⟨.mk .send children (callNode receiver dot selector actuals).location? context, index + 2⟩ =
        actuals.parens.isNone := by
  cases h : actuals.parens <;>
    simp [Edge.enter, Edge.delimits, Edge.forbids, Node.kind, Node.span?, Node.location?,
      callNode, Node.located, Location.field?, Node.wholeField, h]

/-- A call. Its receiver is where the call is; its arguments are in parentheses, or else in the
arguments of a command. -/
theorem recordedCall_free {context : Flags} {receiver : Option Node} {dot : Option Token}
    {selector : Token} {actuals : Actuals}
    (receiver_free : ∀ node ∈ receiver, node.Free source inside)
    (free : ∀ node ∈ actuals.nodes, node.Free source actuals.parens.isNone) :
    (recordedCall context receiver dot selector actuals).Free source inside := by
  rw [recordedCall_eq]
  refine Node.free_of_children (fun block => by cases block) fun index child here => ?_
  match index with
  | 0 =>
    cases receiver with
    | none => cases here
    | some receiver =>
      cases here
      exact receiver_free _ rfl
  | 1 => cases here
  | index + 2 =>
    have mem : child ∈ actuals.nodes := by
      have found : (actuals.nodes.map Child.node)[index]? = some (.node child) := here
      simpa using List.mem_of_getElem? found
    rw [Edge.enter_argument]
    exact free child mem

/-- A loop. Its condition is in a condition; its body is where the loop is. -/
theorem whileLoop_free {condition : Node} {body : List Node} {whole : Option Span}
    {fields : List (String × Option Span)} (condition_free : condition.Free source true)
    (free : ∀ node ∈ body, node.Free source inside) :
    (Node.located .whileLoop [.node condition, .ofOption (sequence body)] whole fields).Free
      source inside := by
  refine Node.free_of_children (fun block => by cases block) fun index child here => ?_
  match index with
  | 0 =>
    cases here
    exact condition_free
  | 1 => exact sequence_free_child free (Option.some.inj here)
  | index + 2 => cases here

/-- What has a body as its third child, which hides where the whole is. -/
theorem scope_free {kind : NodeKind} {first second : Child} {body : List Node}
    {whole : Option Span} {fields : List (String × Option Span)}
    (scope : kind ∈ [NodeKind.block, .numblock, .method, .classDef])
    (own : (Node.located kind [first, second, .ofOption (sequence body)] whole fields).isDoBlock
      source = true → inside = false)
    (first_free : ∀ node, first = .node node → node.Free source inside)
    (second_free : ∀ node, second = .node node → node.Free source inside)
    (free : ∀ node ∈ body, node.Free source false) :
    (Node.located kind [first, second, .ofOption (sequence body)] whole fields).Free
      source inside := by
  have enters (index : Nat) : Edge.enter inside
      ⟨.located kind [first, second, .ofOption (sequence body)] whole fields, index⟩ =
        (index != 2 && inside) := by
    simp only [List.mem_cons, List.not_mem_nil, or_false] at scope
    obtain rfl | rfl | rfl | rfl := scope <;> rfl
  refine Node.free_of_children own fun index child here => ?_
  rw [enters]
  match index with
  | 0 => exact first_free child (Option.some.inj here)
  | 1 => exact second_free child (Option.some.inj here)
  | 2 => exact sequence_free_child free (Option.some.inj here)
  | index + 3 => cases here

/-- A block is free if its call is, unless the word `do` opens it where it may not. -/
theorem closureNode_free {target parameters : Node} {numbering : Option Numbering}
    {body : List Node} {whole : Span} {first last : Token}
    (own : target.kind = .send → first.span.slice source = "do" → inside = false)
    (target_free : target.Free source inside) (parameters_free : parameters.Free source inside)
    (free : ∀ node ∈ body, node.Free source false) :
    (closureNode target parameters numbering body whole first last).Free source inside := by
  have target_free' : ∀ node, Child.node target = .node node → node.Free source inside := by
    rintro _ ⟨⟩
    exact target_free
  have own' {kind : NodeKind} {second : Child}
      (block : (Node.located kind [.node target, second, .ofOption (sequence body)] (some whole)
        [("begin", some first.span), ("end", some last.span)]).isDoBlock source = true) :
      inside = false := by
    simp only [Node.isDoBlock, Bool.and_eq_true] at block
    obtain ⟨⟨-, call⟩, word⟩ := block
    exact own (beq_iff_eq.1 call) (beq_iff_eq.1 word)
  unfold closureNode
  dsimp only
  split
  · exact scope_free (by simp) own' target_free' nofun free
  · refine scope_free (by simp) own' target_free' ?_ free
    rintro _ ⟨⟩
    exact parameters_free

theorem clauseNode_free {keyword : Token} {pattern : Node} {opener : Option Token}
    {body : List Node} (pattern_free : pattern.Free source inside)
    (free : ∀ node ∈ body, node.Free source inside) :
    (clauseNode keyword pattern opener body).Free source inside := by
  refine Node.free_of_plain rfl fun child mem => ?_
  have cases : child = pattern ∨ child ∈ sequence body := by
    simpa [clauseNode, eq_comm] using mem
  obtain rfl | below := cases
  · exact pattern_free
  · exact sequence_free free child below

theorem pairNode_free {label : Token} {value : Node} (free : value.Free source inside) :
    (pairNode label value).Free source inside := by
  have key : (Node.located .sym [.sym (keyOf label)] (some (keySpan label))
      [("begin", none)]).Free source inside := Node.free_of_plain rfl nofun
  exact Node.free_of_plain rfl
    (List.forall_mem_cons.2 ⟨key, List.forall_mem_singleton.2 free⟩)

theorem caseNode_free {keyword last : Token} {subject : Node} {clauses otherwise : List Node}
    {alternative : Option Token} (subject_free : subject.Free source inside)
    (clauses_free : ∀ node ∈ clauses, node.Free source inside)
    (free : ∀ node ∈ otherwise, node.Free source inside) :
    (caseNode keyword subject clauses alternative otherwise last).Free source inside := by
  refine Node.free_of_plain rfl fun child mem => ?_
  have cases : child = subject ∨ child ∈ clauses ∨ child ∈ sequence otherwise := by
    simpa [caseNode, eq_comm] using mem
  obtain rfl | clause | below := cases
  · exact subject_free
  · exact clauses_free child clause
  · exact sequence_free free child below

theorem parameterNode_free (name : Token) : (parameterNode name).Free source inside :=
  Node.free_of_plain rfl nofun

theorem Grammar.Names.free {close : TokenKind} {seen : List String} {nodes : List Node}
    {s t : ParseState} (h : Names close seen s nodes t) :
    ∀ node ∈ nodes, node.Free source inside := by
  induction h with
  | none => exact nofun
  | last => simpa using parameterNode_free _
  | more _ _ _ _ ih => exact List.forall_mem_cons.2 ⟨parameterNode_free _, ih⟩

theorem parametersNode_free {nodes : List Node} {first last : Span}
    (free : ∀ node ∈ nodes, node.Free source inside) :
    (parametersNode nodes first last).Free source inside := by
  refine Node.free_of_plain rfl ?_
  unfold parametersNode
  rwa [Node.children_located, Node.filterMap_node?_map]

theorem Grammar.BlockParameters.free {parameters : Node × Bool} {s t : ParseState}
    (h : BlockParameters s parameters t) : parameters.1.Free source inside := by
  cases h with
  | bars | none => exact Node.free_of_plain rfl nofun
  | list _ names _ =>
    cases names with
    | intro names => exact parametersNode_free names.free

theorem Grammar.ParenthesizedParameters.free {parameters : Node × Bool} {s t : ParseState}
    (h : ParenthesizedParameters s parameters t) : parameters.1.Free source inside := by
  cases h with
  | none => exact Node.free_of_plain rfl nofun
  | list _ names _ =>
    cases names with
    | intro names => exact parametersNode_free names.free

end Nodes

/-! ### Phrases -/

/-- Whether the condition of a loop or the arguments of a command are being read. -/
def Nesting.inside (n : Nesting) : Bool := n.isCond || n.isCmdarg

namespace Grammar

/-- The nodes that a phrase stands for are free; arguments are in the place that the parentheses
around them make. -/
def Phrase.Free (source : String) (inside : Bool) : (phrase : Phrase) → phrase.Result → Prop
  | .of (.statements _), nodes | .of (.arguments _), nodes | .of .entries, nodes
  | .of .clauses, nodes => ∀ node ∈ nodes, node.Free source inside
  | .of .expression, node | .of (.operators _), node | .of (.operatorsAfter _ _), node
  | .of .unary, node | .of (.callsAfter _), node | .of .pattern, node | .primary, node
  | .call _ _ _, node | .blockAfter _, node | .argument _, node | .entry _, node
  | .clause, node => node.Free source inside
  | .actuals, given => ∀ node ∈ given.nodes, node.Free source given.parens.isNone

/-- The nodes that a phrase goes on from. -/
def Phrase.given : Phrase → List Node
  | .of (.operatorsAfter _ left) => [left]
  | .of (.callsAfter receiver) => [receiver]
  | .call receiver _ _ => receiver.toList
  | .blockAfter target => [target]
  | _ => []

/-- No brace among some tokens is written as the word `do`. -/
def Braced (source : String) (tokens : List Token) : Prop :=
  ∀ token ∈ tokens, token.kind = .lbrace → token.span.slice source ≠ "do"

variable {source : String} {features : Features} {s t : ParseState}

theorem Braced.on {k : Nat} {a b : List Token} (braced : Braced source a) (past : Past k a b) :
    Braced source b := fun token mem => braced token (past.2.mem mem)

theorem Derives.inside_eq {phrase : Phrase} {value : phrase.Result}
    (h : Derives features phrase s value t) : t.book.nesting.inside = s.book.nesting.inside :=
  congrArg Nesting.inside h.nesting_eq

/-- The word `do` opens a block only where that may stand. -/
theorem inside_eq_false {close : TokenKind} {first : Token} {rest : List Token}
    (closes : blockClose? s = some close) (read : s.rest = first :: rest)
    (braced : Braced source s.rest) (word : first.span.slice source = "do") :
    s.book.nesting.inside = false := by
  have kind : s.kind? = some first.kind := by simp [ParseState.kind?, read]
  unfold blockClose? at closes
  rw [kind] at closes
  split at closes
  · rename_i brace
    refine absurd word (braced first ?_ (Option.some.inj brace))
    rw [read]
    exact .head _
  · split at closes
    · cases closes
    · rename_i outside
      exact Bool.not_eq_true _ ▸ outside
  · cases closes

/-- Every `do` block that a phrase builds is where it may be, with `inside` for whether the phrase
is in a condition or in the arguments of a command. -/
theorem Derives.free {phrase : Phrase} {value : phrase.Result} {inside : Bool}
    (h : Derives features phrase s value t) (place : s.book.nesting.inside = inside)
    (braced : Braced source s.rest) (given : ∀ node ∈ phrase.given, node.Free source inside) :
    phrase.Free source inside value := by
  induction h generalizing inside with
  | noStatements | emptyParens | noActuals | noEntries | noClauses => exact nofun
  | lastStatement _ _ _ _ ih =>
    exact List.forall_mem_singleton.2 (ih place (braced.on (past_terminators _)) nofun)
  | moreStatements _ h1 _ _ ih1 ih2 =>
    have past := (past_terminators _).on h1.past
    exact List.forall_mem_cons.2 ⟨ih1 place (braced.on (past_terminators _)) nofun,
      ih2 (h1.inside_eq.trans place) (braced.on past) nofun⟩
  | @assignment s _ name _ _ _ _ next operator _ ih =>
    have past := (next.past.on operator.past).on (past_newlines _)
    have declared : (s.book.declare name.text).nesting.inside = inside :=
      (congrArg (·.nesting.inside) (s.book.outline_declare name.text)).trans place
    have value := ih declared (braced.on past) nofun
    exact Node.free_of_plain rfl (List.forall_mem_singleton.2 value)
  | unassigned _ _ ih | plainArgument _ _ ih | valuePattern _ _ ih => exact ih place braced nofun
  | operators h1 _ ih1 ih2 | chain _ _ h1 _ ih1 ih2 =>
    exact ih2 (h1.inside_eq.trans place) (braced.on h1.past)
      (List.forall_mem_singleton.2 (ih1 place braced nofun))
  | noOperator | noCall | noBlock => exact given _ (.head _)
  | operator _ _ operator h1 _ ih1 ih2 =>
    have past := operator.past.on (past_newlines _)
    have right := ih1 place (braced.on past) nofun
    exact ih2 (h1.inside_eq.trans place) (braced.on (past.on h1.past))
      (List.forall_mem_singleton.2 (operatorNode_free (given _ (.head _)) right))
  | negative _ _ _ value | integer _ value => exact integer_free rfl value
  | minus sign _ _ ih | bang sign _ ih =>
    exact signNode_free (ih place (braced.on sign.past) nofun)
  | string | symbol | constant | numberedVariable | localVariable | variablePattern | bareEntry =>
    exact Node.free_of_plain rfl nofun
  | @keyword _ kind _ _ _ value _ =>
    refine Node.free_of_plain ?_ nofun
    cases kind <;> cases value <;> rfl
  | adjacentCall token _ _ ih | wordCall token _ _ _ _ ih =>
    exact ih place (braced.on token.past) nofun
  | parenthesized first _ _ ih => exact begin_free (ih rfl (braced.on first.past) nofun)
  | @lambda s s1 _ _ _ _ _ _ _ _ _ _ _ _ arrow parameters _ first _ _ ih =>
    have past := (arrow.past.on parameters.past).on first.past
    have body := ih rfl (braced.on past) nofun
    -- The arrow is no call, so the word `do` of a lambda literal is never that of a block.
    exact closureNode_free nofun (Node.free_of_plain rfl nofun) parameters.free body
  | method keyword name parameters _ _ ih =>
    have past := (keyword.past.on name.past).on parameters.past
    have hidden := congrArg Nesting.inside parameters.nesting_eq
    have body := ih hidden (braced.on past) nofun
    refine scope_free (by simp) nofun nofun ?_ body
    rintro _ ⟨⟩
    exact parameters.free
  | classDefinition keyword _ name _ _ ih =>
    have past := keyword.past.on name.past
    have body := ih rfl (braced.on past) nofun
    refine scope_free (by simp) nofun ?_ nofun body
    rintro _ ⟨⟩
    exact Node.free_of_plain rfl nofun
  | whileLoop keyword h1 opener _ _ _ ih1 ih2 =>
    have past := (keyword.past.on h1.past).on opener.past
    have condition := ih1 rfl (braced.on keyword.past) nofun
    -- What the condition has pushed is popped before the body.
    have around := congrArg (fun n : Nesting => n.popCond.inside) h1.nesting_eq
    have body := ih2 (around.trans place) (braced.on past) nofun
    exact whileLoop_free condition body
  | definedWord keyword _ _ ih =>
    have operand := ih place (braced.on keyword.past) nofun
    exact definedCheck_free none operand
  | definedParens keyword first _ _ ih =>
    have past := (keyword.past.on first.past).on (past_newlines _)
    have operand := ih rfl (braced.on past) nofun
    exact definedCheck_free (some (_, _)) operand
  | caseMatch _ keyword h1 _ _ _ ih1 ih2 =>
    have past := (keyword.past.on h1.past).on (past_terminators _)
    have subject := ih1 place (braced.on keyword.past) nofun
    have clauses := ih2 (h1.inside_eq.trans place) (braced.on past) nofun
    exact caseNode_free subject clauses nofun
  | caseElse _ keyword h1 _ h2 alternative _ _ ih1 ih2 ih3 =>
    have past := (keyword.past.on h1.past).on (past_terminators _)
    have past' := (past.on h2.past).on alternative.past
    have subject := ih1 place (braced.on keyword.past) nofun
    have clauses := ih2 (h1.inside_eq.trans place) (braced.on past) nofun
    have otherwise := ih3 ((h2.inside_eq.trans h1.inside_eq).trans place) (braced.on past') nofun
    exact caseNode_free subject clauses otherwise
  | dotCall dot selector h1 _ ih1 ih2 =>
    have past := dot.past.on selector.past
    have called := ih1 place (braced.on past) given
    exact ih2 (h1.inside_eq.trans place) (braced.on (past.on h1.past))
      (List.forall_mem_singleton.2 called)
  | call h1 _ ih1 ih2 =>
    have actuals := ih1 place braced nofun
    refine ih2 (h1.inside_eq.trans place) (braced.on h1.past) (List.forall_mem_singleton.2 ?_)
    exact recordedCall_free (fun node mem => given node (Option.mem_toList.2 mem)) actuals
  | parens first _ _ _ _ ih =>
    have past := first.past.on (past_newlines _)
    exact ih rfl (braced.on past) nofun
  | commandArguments _ _ _ ih => exact ih (Bool.or_true _) braced nofun
  | lastArgument _ _ ih => exact List.forall_mem_singleton.2 (ih place braced nofun)
  | moreArguments h1 comma _ ih1 ih2 =>
    have past := (h1.past.on comma.past).on (past_newlines _)
    exact List.forall_mem_cons.2 ⟨ih1 place braced nofun,
      ih2 (h1.inside_eq.trans place) (braced.on past) nofun⟩
  | @signedArgument _ _ _ kind _ _ _ _ sign operator _ ih =>
    have operand := ih place (braced.on operator.past) nofun
    refine Node.free_of_plain ?_ (List.forall_mem_singleton.2 operand)
    cases kind <;> cases sign <;> rfl
  | @block s _ _ _ _ first _ r1 _ _ _ closes read parameters _ _ ih =>
    have opener : s.Next first.kind first r1 := ⟨read, rfl⟩
    have past := opener.past.on parameters.past
    have hidden := congrArg Nesting.inside parameters.nesting_eq
    have body := ih hidden (braced.on past) nofun
    exact closureNode_free (fun _ word => place ▸ inside_eq_false closes read braced word)
      (given _ (.head _)) parameters.free body
  | hashPattern first _ _ ih =>
    have past := first.past.on (past_newlines _)
    have entries := ih place (braced.on past) nofun
    refine Node.free_of_plain rfl ?_
    rwa [Node.children_located, Node.filterMap_node?_map]
  | lastEntry label _ _ ih =>
    exact List.forall_mem_singleton.2 (ih place (braced.on label.past) nofun)
  | moreEntries label h1 comma _ ih1 ih2 =>
    have past := ((label.past.on h1.past).on comma.past).on (past_newlines _)
    exact List.forall_mem_cons.2 ⟨ih1 place (braced.on label.past) nofun,
      ih2 (h1.inside_eq.trans place) (braced.on past) nofun⟩
  | pairEntry _ _ _ ih =>
    exact pairNode_free (ih place braced nofun)
  | moreClauses h1 _ ih1 ih2 =>
    exact List.forall_mem_cons.2 ⟨ih1 place braced nofun,
      ih2 (h1.inside_eq.trans place) (braced.on h1.past) nofun⟩
  | clause keyword h1 same opener _ _ ih1 ih2 =>
    have past : Past 1 _ _ := keyword.past.on h1.past
    subst same
    have pattern := ih1 place (braced.on keyword.past) nofun
    have body := ih2 (h1.inside_eq.trans place) (braced.on (past.on opener.past)) nofun
    exact clauseNode_free pattern body

/-- The tokens of a source write no brace as the word `do`. -/
theorem braced_placed {tokens : List Token} (h : placed source.toList = .ok tokens) :
    Braced source tokens := by
  intro token mem kind word
  have spelled : (TokenKind.lbrace, String.ofList token.text.toList) ∈ TokenKind.fixedTexts :=
    (placed_lawful h token mem).spells_as kind
  rw [String.ofList_toList, ← placed_slice h token mem, word] at spelled
  exact absurd spelled (by decide)

end Grammar

/-- In an accepted source no `do` block stands in the condition of a loop or in the arguments of a
command, unless what delimits it is between them: on the way up from the block to the first edge
that leads into parentheses or a body, no edge leads into a condition or into such arguments. -/
theorem Parser.doBlock_attached {parser : Parser} {source : String} {tree node : Node}
    {indices : List Nat} {edges : List Edge} (accepted : (parser.parse source).1 = .ok (some tree))
    (trail : tree.trail? indices = some (edges, node)) (block : node.isDoBlock source = true) :
    ∀ edge ∈ edges.reverse.takeWhile fun edge => !edge.delimits, edge.forbids = false := by
  obtain ⟨tokens, body, after, tokenized, derived, root, -⟩ := Parser.program_of_accepted accepted
  have free : ∀ node ∈ body, node.Free source false :=
    Derives.free derived rfl (braced_placed tokenized) nofun
  have tree_free : tree.Free source false := sequence_free free tree root.symm
  exact Edge.forbids_eq_false (tree_free indices edges node trail block)

/-- Parentheses let a `do` block stand in a condition. -/
theorem Parser.doBlock_attached_parentheses :
    let source := "while (x = a do 1 end) do b end"
    ∃ tree edges node, (Parser.newest.parse source).1 = .ok (some tree) ∧
      tree.trail? [0, 0, 1] = some (edges, node) ∧ node.isDoBlock source = true ∧
      edges.any Edge.forbids = true ∧
      ∀ edge ∈ edges.reverse.takeWhile fun edge => !edge.delimits, edge.forbids = false := by
  intro source
  have found : (((Parser.newest.parse source).1.toOption.join).bind
      (·.trail? [0, 0, 1])).any fun reached =>
        reached.2.isDoBlock source && reached.1.any Edge.forbids := by
    decide +kernel
  cases ok : (Parser.newest.parse source).1 with
  | error fault =>
    rw [ok] at found
    cases found
  | ok root =>
    rw [ok] at found
    cases root with
    | none => cases found
    | some tree =>
      replace found : (tree.trail? [0, 0, 1]).any _ = true := found
      cases trail : tree.trail? [0, 0, 1] with
      | none =>
        rw [trail] at found
        cases found
      | some reached =>
        obtain ⟨edges, node⟩ := reached
        rw [trail] at found
        obtain ⟨block, forbids⟩ := Bool.and_eq_true_iff.1 found
        exact ⟨tree, edges, node, rfl, trail, block, forbids,
          Parser.doBlock_attached ok trail block⟩

end Conformance.Dialect
