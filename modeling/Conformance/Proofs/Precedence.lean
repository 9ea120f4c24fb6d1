import Conformance.Proofs.Probes
import Conformance.Proofs.Ruled

/-! How tight the operators of a tree bind. An operand of an operator that stands for an operator
itself, without parentheses, stands for one that binds tighter, or on the left as tight; and what a
sign or a dot applies to does not stand for one at all. -/

namespace Conformance.Dialect

/-! ### Operators -/

/-- How tight each operator binds. -/
def operatorPowers : List (String × Nat) :=
  [("||", 1), ("&&", 2), ("==", 3), ("!=", 3), ("<", 4), (">", 4), ("<=", 4), (">=", 4), ("+", 5),
    ("-", 5), ("*", 6), ("/", 6), ("%", 6)]

/-- The kinds of nodes that stand for operators or calls. -/
def NodeKind.isOperation : NodeKind → Bool
  | .send | .and | .or => true
  | _ => false

namespace Node

/-- Whether a node stands for an operator between two operands: that is so for the short-circuiting
ones, and for calls whose location has a field for an operator. -/
def isOperator (node : Node) : Bool :=
  match node.kind with
  | .or | .and => true
  | .send => (node.location?.bind fun location => location.field? "operator").isSome
  | _ => false

/-- The text of the operator. -/
def operatorText? (node : Node) : Option String :=
  match node.kind with
  | .or => some "||"
  | .and => some "&&"
  | _ => node.selector?

/-- How tight the operator of a node binds, if the node stands for one. -/
def power? (node : Node) : Option Nat :=
  if node.isOperator then node.operatorText?.bind (operatorPowers.lookup ·) else none

/-- An operator has two operands, and those that stand for operators themselves bind tight enough.
What another call has before its dot, or after its sign, does not stand for an operator. -/
structure Graded (node : Node) : Prop where
  operands : node.isOperator = true → ∃ power left right, node.power? = some power ∧
    node.children = [left, right] ∧ (∀ inner ∈ left.power?, power ≤ inner) ∧
    ∀ inner ∈ right.power?, power < inner
  receiver : node.kind = .send → node.isOperator = false →
    ∀ operand, node.allChildren.head? = some (.node operand) → operand.isOperator = false

variable {kind : NodeKind} {children : List Child} {whole : Option Span}
  {fields : List (String × Option Span)} {node : Node}

theorem power?_eq_none (h : node.isOperator = false) : node.power? = none := by
  simp [power?, h]

theorem isOperator_located (other : kind.isOperation = false) :
    (located kind children whole fields).isOperator = false := by
  cases kind <;> first | rfl | cases other

theorem graded_located (other : kind.isOperation = false)
    (below : ∀ child ∈ children.filterMap Child.node?, child.Every Graded) :
    (located kind children whole fields).Every Graded := by
  refine .intro ⟨fun operator => ?_, fun send => ?_⟩ below
  · rw [isOperator_located other] at operator
    cases operator
  · cases send
    cases other

/-- A node without nodes below it. -/
theorem graded_leaf (other : kind.isOperation = false)
    (leaf : children.filterMap Child.node? = []) :
    (located kind children whole fields).Every Graded :=
  graded_located other (by simp [leaf])

end Node

namespace Grammar

open Node
open List (forall_mem_nil forall_mem_cons forall_mem_singleton)

/-! ### Nodes that stand for operators or calls -/

section Nodes

variable {left right operand : Node} {operator : Token} {power : Nat}

/-- The text of an operator says how tight it binds. -/
theorem lookup_operatorPowers (binds : bindingPower? operator.kind = some power)
    (spells : operator.kind.Spells operator.text.toList) :
    operatorPowers.lookup operator.text = some power := by
  have fixed := mem_fixedTexts_of_bindingPower binds spells
  have agree : ∀ fixed ∈ TokenKind.fixedTexts, bindingPower? fixed.1 = none ∨
      operatorPowers.lookup fixed.2 = bindingPower? fixed.1 := by decide
  rw [String.ofList_toList] at fixed
  rcases agree _ fixed with none | same
  · rw [binds] at none
    cases none
  · exact same.trans binds

theorem operatorNode_isOperator (left right : Node) (operator : Token) :
    (operatorNode left operator right).isOperator = true := by
  unfold operatorNode
  split <;> rfl

theorem operatorNode_power? (left right : Node) (binds : bindingPower? operator.kind = some power)
    (spells : operator.kind.Spells operator.text.toList) :
    (operatorNode left operator right).power? = some power := by
  have found := lookup_operatorPowers binds spells
  unfold power?
  rw [if_pos (operatorNode_isOperator left right operator)]
  unfold operatorNode
  split
  · rename_i kind
    rw [kind] at binds
    exact binds
  · rename_i kind
    rw [kind] at binds
    exact binds
  · exact found

theorem operatorNode_children (left right : Node) (operator : Token) :
    (operatorNode left operator right).children = [left, right] := by
  unfold operatorNode
  split <;> rfl

theorem signNode_isOperator (selector : String) (sign : Token) (operand : Node) :
    (signNode selector sign operand).isOperator = false := rfl

theorem recordedCall_isOperator (context : Flags) (receiver : Option Node) (dot : Option Token)
    (selector : Token) (actuals : Actuals) :
    (recordedCall context receiver dot selector actuals).isOperator = false := by
  rw [recordedCall_eq]
  rfl

theorem closureNode_isOperator (target parameters : Node) (numbering : Option Numbering)
    (body : List Node) (whole : Span) (first last : Token) :
    (closureNode target parameters numbering body whole first last).isOperator = false := by
  unfold closureNode
  dsimp only
  split <;> rfl

theorem isOperation_of_keywordValue? {kind : TokenKind} {value : NodeKind}
    (h : keywordValue? kind = some value) : value.isOperation = false := by
  cases kind <;> cases h <;> rfl

theorem isOperation_of_argumentSign? {kind : Option TokenKind} {sign : NodeKind}
    (h : argumentSign? kind = some sign) : sign.isOperation = false := by
  unfold argumentSign? at h
  split at h <;> cases h <;> rfl

end Nodes

/-! ### Graded nodes -/

section Graded

variable {left right operand target parameters : Node} {body : List Node} {power : Nat}

theorem sequence_graded (graded : ∀ node ∈ body, node.Every Graded) :
    ∀ node ∈ sequence body, node.Every Graded := by
  match body with
  | [] => exact nofun
  | [node] =>
    rintro _ ⟨⟩
    exact graded node (.head _)
  | first :: second :: more =>
    rintro _ ⟨⟩
    exact graded_located rfl (by rwa [filterMap_node?_map])

/-- An operator between operands that bind tight enough. -/
theorem operatorNode_graded {operator : Token} (binds : bindingPower? operator.kind = some power)
    (spells : operator.kind.Spells operator.text.toList) (hl : left.Every Graded)
    (hr : right.Every Graded) (first : ∀ inner ∈ left.power?, power ≤ inner)
    (second : ∀ inner ∈ right.power?, power < inner) :
    (operatorNode left operator right).Every Graded := by
  have children := operatorNode_children left right operator
  have operator_node := operatorNode_isOperator left right operator
  refine .intro ⟨fun _ => ?_, fun _ none => ?_⟩ ?_
  · exact ⟨power, left, right, operatorNode_power? left right binds spells, children, first, second⟩
  · rw [operator_node] at none
    cases none
  · rw [children]
    exact forall_mem_cons.2 ⟨hl, forall_mem_singleton.2 hr⟩

theorem signNode_graded {selector : String} {sign : Token} (graded : operand.Every Graded)
    (plain : operand.isOperator = false) : (signNode selector sign operand).Every Graded := by
  refine .intro ⟨nofun, fun _ _ receiver first => ?_⟩ (forall_mem_singleton.2 graded)
  obtain rfl : operand = receiver := by cases first; rfl
  exact plain

theorem recordedCall_graded {context : Flags} {receiver : Option Node} {dot : Option Token}
    {selector : Token} {actuals : Actuals}
    (given : ∀ node ∈ receiver, node.Every Graded ∧ node.isOperator = false)
    (graded : ∀ node ∈ actuals.nodes, node.Every Graded) :
    (recordedCall context receiver dot selector actuals).Every Graded := by
  have plain := recordedCall_isOperator context receiver dot selector actuals
  rw [recordedCall_eq] at plain ⊢
  refine .intro ⟨fun operator => ?_, fun _ _ operand first => ?_⟩ ?_
  · rw [plain] at operator
    cases operator
  · cases receiver with
    | none => cases first
    | some node =>
      obtain rfl : node = operand := by cases first; rfl
      exact (given node rfl).2
  · refine forall_mem_children_cons.2 ⟨?_, forall_mem_children_cons.2 ⟨by simp, ?_⟩⟩
    · rw [node?_ofOption]
      exact fun node mem => (given node mem).1
    · rwa [filterMap_node?_map]

/-- A node with a body after another node, or after none. -/
theorem bodied_graded {kind : NodeKind} {first second : Child} {whole : Option Span}
    {fields : List (String × Option Span)} (other : kind.isOperation = false)
    (hf : ∀ node ∈ first.node?, node.Every Graded) (hs : ∀ node ∈ second.node?, node.Every Graded)
    (graded : ∀ node ∈ body, node.Every Graded) :
    (located kind [first, second, .ofOption (sequence body)] whole fields).Every Graded := by
  refine graded_located other ?_
  rw [forall_mem_children_cons, forall_mem_children_cons, forall_mem_children_cons, node?_ofOption]
  exact ⟨hf, hs, sequence_graded graded, by simp⟩

theorem closureNode_graded {numbering : Option Numbering} {whole : Span} {first last : Token}
    (ht : target.Every Graded) (hp : parameters.Every Graded)
    (graded : ∀ node ∈ body, node.Every Graded) :
    (closureNode target parameters numbering body whole first last).Every Graded := by
  unfold closureNode
  dsimp only
  split
  · exact bodied_graded rfl (by simpa using ht) nofun graded
  · exact bodied_graded rfl (by simpa using ht) (by simpa using hp) graded

theorem caseNode_graded {keyword last : Token} {subject : Node} {clauses : List Node}
    {alternative : Option Token} (hs : subject.Every Graded)
    (hc : ∀ node ∈ clauses, node.Every Graded) (graded : ∀ node ∈ body, node.Every Graded) :
    (caseNode keyword subject clauses alternative body last).Every Graded := by
  have statements := sequence_graded graded
  refine graded_located rfl fun child mem => ?_
  have cases : child = subject ∨ child ∈ clauses ∨ child ∈ sequence body := by
    simpa [eq_comm] using mem
  obtain rfl | clause | below := cases
  · exact hs
  · exact hc child clause
  · exact statements child below

theorem whileLoop_graded {condition : Node} {whole : Option Span}
    {fields : List (String × Option Span)} (hc : condition.Every Graded)
    (graded : ∀ node ∈ body, node.Every Graded) :
    (located .whileLoop [.node condition, .ofOption (sequence body)] whole fields).Every
      Graded := by
  have statements := sequence_graded graded
  exact graded_located rfl (by simpa using ⟨hc, statements⟩)

theorem pairNode_graded {label : Token} {value : Node} (graded : value.Every Graded) :
    (pairNode label value).Every Graded := by
  have key : (located .sym [.sym (keyOf label)] (some (keySpan label)) [("begin", none)]).Every
      Graded := graded_leaf rfl rfl
  exact graded_located rfl (by simpa using ⟨key, graded⟩)

variable {s t : ParseState} {close : TokenKind} {nodes : List Node} {list : Node × Bool}

theorem ParameterList.graded {first last : Span} (h : ParameterList close s nodes t) :
    (parametersNode nodes first last).Every Graded := by
  cases h with
  | intro names =>
    refine graded_located rfl ?_
    rw [filterMap_node?_map]
    intro node mem
    obtain ⟨name, rfl⟩ := names.all_parameters node mem
    exact graded_leaf rfl rfl

theorem BlockParameters.graded (h : BlockParameters s list t) : list.1.Every Graded := by
  cases h with
  | bars | none => exact graded_leaf rfl rfl
  | list _ names _ => exact names.graded

theorem ParenthesizedParameters.graded (h : ParenthesizedParameters s list t) :
    list.1.Every Graded := by
  cases h with
  | none => exact graded_leaf rfl rfl
  | list _ names _ => exact names.graded

end Graded

/-! ### What operators leave -/

/-- The token that comes next is no operator that binds tighter than `power`. -/
def Slack (power : Nat) (s : ParseState) : Prop :=
  ∀ kind ∈ s.kind?, ∀ tighter ∈ bindingPower? kind, tighter ≤ power

/-- Where a phrase of operators ends. -/
def Phrase.Slack (t : ParseState) : Phrase → Prop
  | .of (.operators power) | .of (.operatorsAfter power _) => Grammar.Slack power t
  | _ => True

section Phrases

variable {features : Features} {phrase : Phrase} {value : phrase.Result} {s t : ParseState}

/-- Operators are read up to one that does not bind tighter. -/
theorem Derives.slack (h : Derives features phrase s value t) : phrase.Slack t := by
  induction h with
  | operators _ _ _ ih => exact ih
  | noOperator none => exact none
  | operator _ _ _ _ _ _ ih => exact ih
  | _ => trivial

/-- What stands for an operand, whether with a sign or with calls after it. -/
def Phrase.Operand : (phrase : Phrase) → phrase.Result → Prop
  | .of .unary, node | .of (.callsAfter _), node | .primary, node | .call _ _ _, node
  | .blockAfter _, node => node.isOperator = false
  | _, _ => True

theorem Derives.operand (h : Derives features phrase s value t)
    (given : ∀ node ∈ phrase.given, node.isOperator = false) : phrase.Operand value := by
  induction h with
  | noCall | noBlock => exact given _ (.head _)
  | negative | integer | string | symbol | constant | numberedVariable | localVariable => rfl
  | minus | bang => exact signNode_isOperator _ _ _
  | keyword value => exact isOperator_located (isOperation_of_keywordValue? value)
  | parenthesized | method | classDefinition | whileLoop | definedWord | definedParens | caseMatch
  | caseElse => exact isOperator_located rfl
  | lambda | block => exact closureNode_isOperator _ _ _ _ _ _ _
  | chain _ _ _ _ ih1 ih2 => exact ih2 (forall_mem_singleton.2 (ih1 (forall_mem_nil _)))
  | adjacentCall _ _ _ ih | wordCall _ _ _ _ _ ih => exact ih (forall_mem_nil _)
  | dotCall _ _ _ _ ih1 ih2 =>
    refine ih2 (forall_mem_singleton.2 (ih1 ?_))
    simpa [Phrase.given] using given
  | call _ _ _ ih => exact ih (forall_mem_singleton.2 (recordedCall_isOperator _ _ _ _ _))
  | _ => trivial

/-- Operators that bind tighter than `power` stand for an operand, or for one that binds tighter. -/
def Phrase.Tight : (phrase : Phrase) → phrase.Result → Prop
  | .of (.operators power), node | .of (.operatorsAfter power _), node =>
    ∀ inner ∈ node.power?, power < inner
  | _, _ => True

/-- The operand on the left is one of them. -/
def Phrase.AfterTight : Phrase → Prop
  | .of (.operatorsAfter power left) => ∀ inner ∈ left.power?, power < inner
  | _ => True

theorem Derives.tight (h : Derives features phrase s value t) (spelled : Spelled s.rest)
    (given : phrase.AfterTight) : phrase.Tight value := by
  induction h with
  | operators left _ _ ih =>
    have plain := power?_eq_none (left.operand (forall_mem_nil _))
    refine ih (spelled.on left.past) fun inner mem => ?_
    rw [plain] at mem
    cases mem
  | noOperator => exact given
  | operator binds tighter operator right _ _ ih =>
    have past := (operator.past.on (past_newlines _)).on right.past
    refine ih (spelled.on past) fun inner mem => ?_
    rw [operatorNode_power? _ _ (operator.kind_eq ▸ binds) (spelled.of_next operator)] at mem
    cases mem
    exact tighter
  | _ => trivial

/-- What a phrase goes on from is graded, and an operator that comes next does not bind tighter than
the one on its left. -/
def Phrase.Led (s : ParseState) : Phrase → Prop
  | .of (.operatorsAfter _ left) => left.Every Graded ∧ ∀ inner ∈ left.power?, Grammar.Slack inner s
  | .of (.callsAfter node) => node.Every Graded ∧ node.isOperator = false
  | .call receiver _ _ => ∀ node ∈ receiver, node.Every Graded ∧ node.isOperator = false
  | .blockAfter node => node.Every Graded
  | _ => True

theorem Derives.graded (h : Derives features phrase s value t) (spelled : Spelled s.rest)
    (led : phrase.Led s) : ∀ node ∈ phrase.nodes value, node.Every Graded := by
  induction h with
  | noStatements | emptyParens | noActuals | noEntries | noClauses => exact forall_mem_nil _
  | noOperator | noCall => exact forall_mem_singleton.2 led.1
  | noBlock => exact forall_mem_singleton.2 led
  | lastStatement _ _ _ _ ih => exact ih (spelled.on (past_terminators _)) trivial
  | moreStatements _ h1 _ _ ih1 ih2 =>
    have past := (past_terminators _).on h1.past
    exact forall_mem_cons.2 ⟨ih1 (spelled.on (past_terminators _)) trivial _ (.head _),
      ih2 (spelled.on past) trivial⟩
  | assignment next operator _ ih =>
    have past := (next.past.on operator.past).on (past_newlines _)
    exact forall_mem_singleton.2 (graded_located rfl (ih (spelled.on past) trivial))
  | unassigned _ _ ih | lastArgument _ _ ih | plainArgument _ _ ih | valuePattern _ _ ih
  | commandArguments _ _ _ ih => exact ih spelled trivial
  | operators left _ ih1 ih2 =>
    have plain := power?_eq_none (left.operand (forall_mem_nil _))
    refine ih2 (spelled.on left.past) ⟨ih1 spelled trivial _ (.head _), fun inner mem => ?_⟩
    rw [plain] at mem
    cases mem
  | operator binds tighter operator right _ ih1 ih2 =>
    obtain ⟨left_graded, slack⟩ := led
    have past := operator.past.on (past_newlines _)
    have tight := operator.kind_eq ▸ binds
    have spells := spelled.of_next operator
    have right_graded := ih1 (spelled.on past) trivial _ (.head _)
    have right_tight := right.tight (spelled.on past) trivial
    refine ih2 (spelled.on (past.on right.past)) ⟨?_, fun inner mem => ?_⟩
    · exact operatorNode_graded tight spells left_graded right_graded
        (fun inner mem => slack inner mem _ operator.kind?_eq _ binds) right_tight
    · rw [operatorNode_power? _ _ tight spells] at mem
      cases mem
      exact right.slack
  | negative _ _ _ value | integer _ value =>
    exact forall_mem_singleton.2 (graded_leaf rfl (by simp [Child.node?_integer? value]))
  | minus sign _ operand ih | bang sign operand ih =>
    have graded := ih (spelled.on sign.past) trivial _ (.head _)
    exact forall_mem_singleton.2 (signNode_graded graded (operand.operand (forall_mem_nil _)))
  | chain _ _ receiver _ ih1 ih2 =>
    exact ih2 (spelled.on receiver.past)
      ⟨ih1 spelled trivial _ (.head _), receiver.operand (forall_mem_nil _)⟩
  | string | symbol | constant | numberedVariable | localVariable | variablePattern | bareEntry =>
    exact forall_mem_singleton.2 (graded_leaf rfl rfl)
  | keyword value =>
    exact forall_mem_singleton.2 (graded_leaf (isOperation_of_keywordValue? value) rfl)
  | adjacentCall token _ _ ih | wordCall token _ _ _ _ ih => exact ih (spelled.on token.past) nofun
  | parenthesized first _ _ ih =>
    refine forall_mem_singleton.2 (graded_located rfl ?_)
    rw [filterMap_node?_map]
    exact ih (spelled.on first.past) trivial
  | lambda _ arrow parameters _ first _ _ ih =>
    have past := (arrow.past.on parameters.past).on first.past
    exact forall_mem_singleton.2 (closureNode_graded (graded_leaf rfl rfl) parameters.graded
      (ih (spelled.on past) trivial))
  | method keyword name parameters _ _ ih =>
    have past := (keyword.past.on name.past).on parameters.past
    exact forall_mem_singleton.2 (bodied_graded rfl nofun
      (by simpa using parameters.graded) (ih (spelled.on past) trivial))
  | classDefinition keyword _ name _ _ ih =>
    have past := keyword.past.on name.past
    refine forall_mem_singleton.2 (bodied_graded rfl ?_ nofun (ih (spelled.on past) trivial))
    rintro _ ⟨⟩
    exact graded_leaf rfl rfl
  | whileLoop keyword condition opener _ _ _ ih1 ih2 =>
    have past := (keyword.past.on condition.past).on opener.past
    exact forall_mem_singleton.2 (whileLoop_graded
      (ih1 (spelled.on keyword.past) trivial _ (.head _)) (ih2 (spelled.on past) trivial))
  | definedWord keyword _ _ ih =>
    exact forall_mem_singleton.2 (graded_located rfl (ih (spelled.on keyword.past) trivial))
  | definedParens keyword first _ _ ih =>
    have past := (keyword.past.on first.past).on (past_newlines _)
    exact forall_mem_singleton.2 (graded_located rfl (ih (spelled.on past) trivial))
  | caseMatch _ keyword subject _ _ _ ih1 ih2 =>
    have past := (keyword.past.on subject.past).on (past_terminators _)
    exact forall_mem_singleton.2 (caseNode_graded
      (ih1 (spelled.on keyword.past) trivial _ (.head _)) (ih2 (spelled.on past) trivial)
      (forall_mem_nil _))
  | caseElse _ keyword subject _ clauses alternative _ _ ih1 ih2 ih3 =>
    have past := (keyword.past.on subject.past).on (past_terminators _)
    have past' := (past.on clauses.past).on alternative.past
    exact forall_mem_singleton.2 (caseNode_graded
      (ih1 (spelled.on keyword.past) trivial _ (.head _)) (ih2 (spelled.on past) trivial)
      (ih3 (spelled.on past') trivial))
  | dotCall dot selector called _ ih1 ih2 =>
    have past := dot.past.on selector.past
    have plain := called.operand (forall_mem_singleton.2 led.2)
    have graded := ih1 (spelled.on past) (by
      rintro _ ⟨⟩
      exact led)
    exact ih2 (spelled.on (past.on called.past)) ⟨graded _ (.head _), plain⟩
  | call actuals _ ih1 ih2 =>
    exact ih2 (spelled.on actuals.past) (recordedCall_graded led (ih1 spelled trivial))
  | parens first _ _ _ _ ih =>
    exact ih (spelled.on (first.past.on (past_newlines _))) trivial
  | moreArguments first comma _ ih1 ih2 =>
    have past := (first.past.on comma.past).on (past_newlines _)
    exact forall_mem_cons.2 ⟨ih1 spelled trivial _ (.head _), ih2 (spelled.on past) trivial⟩
  | signedArgument sign operator _ ih =>
    exact forall_mem_singleton.2 (graded_located (isOperation_of_argumentSign? sign)
      (ih (spelled.on operator.past) trivial))
  | @block _ _ _ _ _ first _ rest _ _ _ _ read parameters _ _ ih =>
    rw [read] at spelled
    have past := (Past.of_cons first rest).on parameters.past
    exact forall_mem_singleton.2 (closureNode_graded led parameters.graded
      (ih (spelled.on past) trivial))
  | hashPattern first _ _ ih =>
    refine forall_mem_singleton.2 (graded_located rfl ?_)
    rw [filterMap_node?_map]
    exact ih (spelled.on (first.past.on (past_newlines _))) trivial
  | lastEntry label _ _ ih => exact ih (spelled.on label.past) trivial
  | moreEntries label first comma _ ih1 ih2 =>
    have past := ((label.past.on first.past).on comma.past).on (past_newlines _)
    exact forall_mem_cons.2 ⟨ih1 (spelled.on label.past) trivial _ (.head _),
      ih2 (spelled.on past) trivial⟩
  | pairEntry _ _ _ ih =>
    exact forall_mem_singleton.2 (pairNode_graded (ih spelled trivial _ (.head _)))
  | moreClauses first _ ih1 ih2 =>
    exact forall_mem_cons.2 ⟨ih1 spelled trivial _ (.head _),
      ih2 (spelled.on first.past) trivial⟩
  | clause keyword pattern same opener _ _ ih1 ih2 =>
    subst same
    have past := (keyword.past.on pattern.past).on opener.past
    have graded := ih1 (spelled.on keyword.past) trivial _ (.head _)
    exact forall_mem_singleton.2 (bodied_graded rfl (by simpa using graded) nofun
      (ih2 (spelled.on past) trivial))

/-- The nodes of a program are graded. -/
theorem Program.graded {tokens : List Token} {body : List Node} {after : ParseState}
    (h : Program features tokens body after) (spelled : Spelled tokens) :
    ∀ node ∈ sequence body, node.Every Graded :=
  sequence_graded (Derives.graded h spelled trivial)

end Phrases

end Grammar

/-- In the tree of an accepted source, operators bind from the left as tight as they should, and
what stands for one is under a sign or before a dot only between parentheses. -/
theorem Parser.operators_graded {parser : Parser} {source : String} {tree : Option Node}
    (accepted : (parser.parse source).1 = .ok tree) : ∀ node ∈ tree, node.Every Node.Graded := by
  obtain ⟨tokens, body, after, tokenized, program, rfl, -⟩ := Parser.program_of_accepted accepted
  exact program.graded fun token mem => (placed_lawful tokenized token mem).spells

theorem Parser.operators_graded_chain :
    ∃ tree, (Parser.newest.parse "1 - 2 * -3 - !x.y < (4 || 5).z").1 = .ok (some tree) ∧
      tree.power? = some 4 ∧ tree.Every Node.Graded := by
  have found : ((Parser.newest.parse "1 - 2 * -3 - !x.y < (4 || 5).z").1.toOption.join.any
      fun tree => tree.power? == some 4) = true := by decide +kernel
  obtain ⟨tree, accepted, power⟩ := Parser.accepted_of_any found
  exact ⟨tree, accepted, by simpa using power, Parser.operators_graded accepted tree rfl⟩

end Conformance.Dialect
