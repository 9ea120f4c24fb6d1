import Conformance.Proofs.Idle
import Conformance.Proofs.Nodes
import Conformance.Proofs.Scoping

/-! Variables and calls: a walk through a finished tree, which knows nothing of the parser, finds
the scopes at every node. Each variable of an accepted source is visible where it stands, and no
name that is called could be a variable there. -/

namespace Conformance.Dialect

/-! ### Scopes along a tree -/

/-- Some scopes, the innermost one first, make a variable visible. -/
inductive Visible (name : String) : List Scope → Prop where
  | here {scope : Scope} {outer : List Scope} : name ∈ scope.declared →
      Visible name (scope :: outer)
  | outer {scope : Scope} {outer : List Scope} : scope.inherits = true → Visible name outer →
      Visible name (scope :: outer)

theorem visible_iff {name : String} {scopes : List Scope} :
    visible name scopes = true ↔ Visible name scopes := by
  induction scopes with
  | nil => exact iff_of_false nofun nofun
  | cons scope outer ih =>
    simp only [visible, Bool.or_eq_true, Bool.and_eq_true, List.contains_iff_mem, ih]
    constructor
    · rintro (declared | ⟨inherits, found⟩)
      · exact .here declared
      · exact .outer inherits found
    · rintro (declared | ⟨inherits, found⟩)
      · exact .inl declared
      · exact .inr ⟨inherits, found⟩

/-- A name is bound in the innermost scope. -/
def Scope.bind (name : String) (scopes : List Scope) : List Scope :=
  scopes.modifyHead fun scope => { scope with declared := name :: scope.declared }

/-- The scope that a node of a kind opens after its first child, and whether it inherits. -/
def NodeKind.scope? : NodeKind → Option Bool
  | .block | .numblock => some true
  | .method | .classDef => some false
  | _ => none

/-- The scopes after the name that a node binds, if it binds any: an assignment, a parameter and a
variable of a pattern do. -/
def NodeKind.bound : NodeKind → List Child → List Scope → List Scope
  | .lvasgn, .sym name :: _, scopes => Scope.bind name scopes
  | .arg, .sym name :: _, scopes => Scope.bind name scopes
  | .matchVar, .sym name :: _, scopes => Scope.bind name scopes
  | _, _, scopes => scopes

mutual

/-- The scopes after a node. A scope that the node opens ends with it. -/
def Node.scopesAfter : Node → List Scope → List Scope
  | .mk _ [] _ _, scopes => scopes
  | .mk kind (first :: rest) _ _, scopes =>
    let outer := Child.scopesAfter first (kind.bound (first :: rest) scopes)
    match kind.scope? with
    | some _ => outer
    | none => childrenAfter rest outer

def childrenAfter : List Child → List Scope → List Scope
  | [], scopes => scopes
  | child :: rest, scopes => childrenAfter rest (Child.scopesAfter child scopes)

def Child.scopesAfter : Child → List Scope → List Scope
  | .node node, scopes => Node.scopesAfter node scopes
  | _, scopes => scopes

end

mutual

/-- Every node of a tree with the scopes at it. -/
def Node.visits : Node → List Scope → List (Node × List Scope)
  | .mk kind [] location context, scopes => [(.mk kind [] location context, scopes)]
  | .mk kind (first :: rest) location context, scopes =>
    let bound := kind.bound (first :: rest) scopes
    let outer := Child.scopesAfter first bound
    let inner := match kind.scope? with
      | some inherits => { inherits } :: outer
      | none => outer
    (.mk kind (first :: rest) location context, scopes) ::
      (Child.visits first bound ++ childrenVisits rest inner)

def childrenVisits : List Child → List Scope → List (Node × List Scope)
  | [], _ => []
  | child :: rest, scopes =>
    Child.visits child scopes ++ childrenVisits rest (Child.scopesAfter child scopes)

def Child.visits : Child → List Scope → List (Node × List Scope)
  | .node node, scopes => Node.visits node scopes
  | _, _ => []

end

/-- The name of a node is what the scopes at it say: a variable is visible or a numbered parameter
of a block or a lambda literal, and a call without a receiver and parentheses is of a name that is
not visible. -/
structure Resolved (features : Features) (node : Node) (scopes : List Scope) : Prop where
  variable_visible : node.kind = .lvar → ∃ name, node.allChildren = [.sym name] ∧
    (Visible name scopes ∨ features.numberedParameters = true ∧ name ∈ numberedNames ∧
      ∃ scope outer, scopes = scope :: outer ∧ scope.inherits = true)
  call_hidden : node.kind = .send → node.allChildren.head? = some .nil →
    node.span? "begin" = none → ∃ selector, node.allChildren[1]? = some (.sym selector) ∧
      ¬ Visible selector scopes

/-- Every name in a node is what the scopes at it say, where `before` are the scopes at the node and
`after` those after it. -/
structure Walks (features : Features) (before : List Scope) (node : Node) (after : List Scope) :
    Prop where
  after_eq : node.scopesAfter before = after
  resolved : ∀ visit ∈ node.visits before, Resolved features visit.1 visit.2

/-- The same of children, one after the other. -/
structure WalksAll (features : Features) (before : List Scope) (children : List Child)
    (after : List Scope) : Prop where
  after_eq : childrenAfter children before = after
  resolved : ∀ visit ∈ childrenVisits children before, Resolved features visit.1 visit.2

section Walks

variable {features : Features} {before middle after : List Scope} {node : Node}
  {children more : List Child}

theorem WalksAll.nil : WalksAll features before [] before := ⟨rfl, nofun⟩

theorem WalksAll.skip {child : Child} (literal : child.node? = none)
    (rest : WalksAll features before more after) :
    WalksAll features before (child :: more) after := by
  cases child with
  | node => cases literal
  | _ => exact ⟨rest.after_eq, rest.resolved⟩

theorem WalksAll.cons (first : Walks features before node middle)
    (rest : WalksAll features middle more after) :
    WalksAll features before (.node node :: more) after := by
  obtain ⟨rfl, resolved⟩ := first
  refine ⟨rest.after_eq, fun visit mem => ?_⟩
  obtain here | later := List.mem_append.1 mem
  · exact resolved visit here
  · exact rest.resolved visit later

theorem WalksAll.single (only : Walks features before node after) :
    WalksAll features before [.node node] after := .cons only .nil

theorem WalksAll.append (first : WalksAll features before children middle)
    (rest : WalksAll features middle more after) :
    WalksAll features before (children ++ more) after := by
  induction children generalizing before with
  | nil =>
    obtain ⟨rfl, -⟩ := first
    exact rest
  | cons child children ih =>
    have later : WalksAll features (child.scopesAfter before) children middle :=
      ⟨first.after_eq, fun visit mem => first.resolved visit (List.mem_append_right _ mem)⟩
    refine ⟨(ih later).after_eq, fun visit mem => ?_⟩
    obtain here | later' := List.mem_append.1 mem
    · exact first.resolved visit (List.mem_append_left _ here)
    · exact (ih later).resolved visit later'

variable {kind : NodeKind} {location : Option Location} {context : Option Flags}

/-- A node that opens no scope: what it binds is bound before its children. -/
theorem Walks.intro (scopeless : kind.scope? = none)
    (own : Resolved features (.mk kind children location context) before)
    (all : WalksAll features (kind.bound children before) children after) :
    Walks features before (.mk kind children location context) after := by
  cases children with
  | nil =>
    have unbound : kind.bound [] before = before := by cases kind <;> rfl
    rw [unbound] at all
    exact ⟨all.after_eq, List.forall_mem_singleton.2 own⟩
  | cons first rest =>
    refine ⟨?_, fun visit mem => ?_⟩
    · rw [Node.scopesAfter, scopeless]
      exact all.after_eq
    · rw [Node.visits, scopeless] at mem
      obtain rfl | below := List.mem_cons.1 mem
      · exact own
      · exact all.resolved visit below

/-- A node that opens a scope after its first child. -/
theorem Walks.scope {inherits : Bool} {first : Child} (opens : kind.scope? = some inherits)
    (own : Resolved features (.mk kind (first :: more) location context) before)
    (outside : WalksAll features before [first] middle)
    (inside : WalksAll features ({ inherits } :: middle) more after) :
    Walks features before (.mk kind (first :: more) location context) middle := by
  have unbound : kind.bound (first :: more) before = before := by
    cases kind <;> first | rfl | cases opens
  obtain ⟨rfl, resolved⟩ := outside
  refine ⟨?_, fun visit mem => ?_⟩
  · rw [Node.scopesAfter, opens, unbound]
    rfl
  · rw [Node.visits, opens, unbound] at mem
    obtain rfl | below := List.mem_cons.1 mem
    · exact own
    · obtain here | later := List.mem_append.1 below
      · exact resolved visit (List.mem_append_left _ here)
      · exact inside.resolved visit later

end Walks

namespace Bookkeeping

theorem scopes_declare (book : Bookkeeping) (name : String) :
    (book.declare name).scopes = Scope.bind name book.scopes := by
  unfold declare
  split
  · rename_i none
    rw [none]
    rfl
  · rename_i some
    rw [some]
    rfl

theorem scopes_useNumber (book : Bookkeeping) (number : Nat) :
    (book.useNumber number).scopes = book.scopes := by
  unfold useNumber
  split <;> rfl

theorem Binds.scopes_eq {book after : Bookkeeping} {name : String} (binds : Binds name book after) :
    after.scopes = Scope.bind name book.scopes := by
  cases binds with
  | free => exact scopes_declare _ _
  | fresh => exact scopes_declare _ _

end Bookkeeping

open Grammar

/-! ### The nodes of the grammar -/

section Nodes

variable {features : Features} {before middle after : List Scope}

theorem Resolved.of_other {node : Node} (noVariable : node.kind ≠ .lvar)
    (noCall : node.kind ≠ .send) : Resolved features node before where
  variable_visible h := absurd h noVariable
  call_hidden h := absurd h noCall

/-- A node that neither binds nor uses a name and opens no scope. -/
theorem plain_walks {kind : NodeKind} {children : List Child} {whole : Option Span}
    {fields : List (String × Option Span)} (scopeless : kind.scope? = none)
    (unbound : kind.bound children before = before) (noVariable : kind ≠ .lvar)
    (noCall : kind ≠ .send) (all : WalksAll features before children after) :
    Walks features before (.located kind children whole fields) after :=
  .intro scopeless (.of_other noVariable noCall) (unbound.symm ▸ all)

theorem sequence_walks {body : List Node}
    (all : WalksAll features before (body.map .node) after) :
    WalksAll features before [.ofOption (sequence body)] after := by
  match body with
  | [] => exact all.skip rfl
  | [node] => exact all
  | first :: second :: more =>
    exact .single (plain_walks rfl rfl nofun nofun all)

theorem arrow_walks {arrow : Token} : Walks features before (leaf .lambda arrow) before :=
  plain_walks rfl rfl nofun nofun .nil

theorem keyword_walks {kind : TokenKind} {value : NodeKind} {token : Token}
    (stands : keywordValue? kind = some value) :
    Walks features before (leaf value token) before := by
  cases kind <;> cases stands <;> exact plain_walks rfl rfl nofun nofun .nil

theorem constantNode_walks {name : Token} : Walks features before (constantNode name) before :=
  plain_walks rfl rfl nofun nofun (.skip rfl (.skip rfl .nil))

theorem parameterNode_walks {name : Token} :
    Walks features before (parameterNode name) (Scope.bind name.text before) :=
  .intro rfl (.of_other nofun nofun) (.skip rfl .nil)

theorem matchVariableNode_walks {name : String} {span : Span} :
    Walks features before (matchVariableNode name span) (Scope.bind name before) :=
  .intro rfl (.of_other nofun nofun) (.skip rfl .nil)

theorem Bookkeeping.Binds.walks {name : String} {span : Span} {book bound : Bookkeeping}
    (binds : Binds name book bound) :
    Walks features book.scopes (matchVariableNode name span) bound.scopes := by
  rw [binds.scopes_eq]
  exact matchVariableNode_walks

theorem operatorNode_walks {left right : Node} {operator : Token}
    (first : Walks features before left middle) (second : Walks features middle right after) :
    Walks features before (operatorNode left operator right) after := by
  unfold operatorNode
  dsimp only
  split
  · exact plain_walks rfl rfl nofun nofun (.cons first (.single second))
  · exact plain_walks rfl rfl nofun nofun (.cons first (.single second))
  · exact .intro rfl ⟨nofun, nofun⟩ (.cons first (.skip rfl (.single second)))

theorem signNode_walks {selector : String} {sign : Token} {operand : Node}
    (walks : Walks features before operand after) :
    Walks features before (signNode selector sign operand) after :=
  .intro rfl ⟨nofun, nofun⟩ (.cons walks (.skip rfl .nil))

/-- What an assignment names is bound before its value. -/
theorem assignment_walks {name : String} {value : Node} {whole : Option Span}
    {fields : List (String × Option Span)}
    (value_walks : Walks features (Scope.bind name before) value after) :
    Walks features before (.located .lvasgn [.sym name, .node value] whole fields) after :=
  .intro rfl (.of_other nofun nofun) (.skip rfl (.single value_walks))

theorem signedNode_walks {kind : TokenKind} {sign : NodeKind} {operand : Node}
    {whole : Option Span} {fields : List (String × Option Span)}
    (signs : argumentSign? (some kind) = some sign)
    (walks : Walks features before operand after) :
    Walks features before (.located sign [.node operand] whole fields) after := by
  cases kind <;> cases signs <;> exact plain_walks rfl rfl nofun nofun (.single walks)

theorem whileNode_walks {condition : Node} {body : List Node} {whole : Option Span}
    {fields : List (String × Option Span)} (first : Walks features before condition middle)
    (second : WalksAll features middle (body.map .node) after) :
    Walks features before
      (.located .whileLoop [.node condition, .ofOption (sequence body)] whole fields) after :=
  plain_walks rfl rfl nofun nofun (.cons first (sequence_walks second))

theorem caseNode_walks {keyword last : Token} {subject : Node} {clauses otherwise : List Node}
    {alternative : Option Token} {matched : List Scope}
    (first : Walks features before subject middle)
    (second : WalksAll features middle (clauses.map .node) matched)
    (third : WalksAll features matched (otherwise.map .node) after) :
    Walks features before (caseNode keyword subject clauses alternative otherwise last) after :=
  plain_walks rfl rfl nofun nofun (.cons first (second.append (sequence_walks third)))

theorem clauseNode_walks {keyword : Token} {pattern : Node} {opener : Option Token}
    {body : List Node} (first : Walks features before pattern middle)
    (second : WalksAll features middle (body.map .node) after) :
    Walks features before (clauseNode keyword pattern opener body) after :=
  plain_walks rfl rfl nofun nofun (.cons first (.skip rfl (sequence_walks second)))

theorem pairNode_walks {label : Token} {value : Node}
    (walks : Walks features before value after) :
    Walks features before (pairNode label value) after := by
  refine plain_walks rfl rfl nofun nofun (.cons ?_ (.single walks))
  exact plain_walks rfl rfl nofun nofun (.skip rfl .nil)

theorem variableNode_walks {name : Token}
    (found : Visible name.text before ∨ features.numberedParameters = true ∧
      name.text ∈ numberedNames ∧
        ∃ scope outer, before = scope :: outer ∧ scope.inherits = true) :
    Walks features before (variableNode name) before :=
  .intro rfl ⟨fun _ => ⟨name.text, rfl, found⟩, nofun⟩ (.skip rfl .nil)

/-- A call. Its name could be no variable, unless a receiver or parentheses show that it is a
call. -/
theorem recordedCall_walks {context : Flags} {receiver : Option Node} {dot : Option Token}
    {selector : Token} {actuals : Actuals}
    (hidden : receiver = none → actuals.parens = none → ¬ Visible selector.text before)
    (first : WalksAll features before [.ofOption receiver] middle)
    (rest : WalksAll features middle (actuals.nodes.map .node) after) :
    Walks features before (recordedCall context receiver dot selector actuals) after := by
  rw [recordedCall_eq]
  refine .intro rfl ⟨nofun, fun _ noReceiver noParens => ⟨selector.text, rfl, ?_⟩⟩
    (first.append (.skip rfl rest))
  cases receiver with
  | some => cases noReceiver
  | none =>
    refine hidden rfl ?_
    cases h : actuals.parens with
    | none => rfl
    | some parens =>
      simp [Node.span?, Node.location?, callNode, Node.located, Location.field?, Node.wholeField,
        h] at noParens

/-- A body in a scope of its own. -/
theorem scope_walks {kind : NodeKind} {inherits : Bool} {first second : Child} {body : List Node}
    {whole : Option Span} {fields : List (String × Option Span)} {opened inner : List Scope}
    (opens : kind.scope? = some inherits) (outside : WalksAll features before [first] middle)
    (parameters : WalksAll features ({ inherits } :: middle) [second] opened)
    (inside : WalksAll features opened (body.map .node) inner) :
    Walks features before
      (.located kind [first, second, .ofOption (sequence body)] whole fields) middle := by
  have noVariable : kind ≠ .lvar := by
    rintro rfl
    cases opens
  have noCall : kind ≠ .send := by
    rintro rfl
    cases opens
  exact .scope opens (.of_other noVariable noCall) outside
    (parameters.append (sequence_walks inside))

end Nodes

section Parameters

variable {features : Features} {s t : ParseState}

theorem parametersNode_walks {nodes : List Node} {first last : Span} {before after : List Scope}
    (all : WalksAll features before (nodes.map .node) after) :
    Walks features before (parametersNode nodes first last) after :=
  plain_walks rfl rfl nofun nofun all

theorem noParametersNode_walks {before : List Scope} :
    Walks features before noParametersNode before :=
  plain_walks rfl rfl nofun nofun .nil

theorem parameter_walks {name : Token} {book : Bookkeeping} :
    Walks features book.scopes (parameterNode name) (book.nameParameter name.text).scopes := by
  unfold Bookkeeping.nameParameter
  rw [Bookkeeping.scopes_declare]
  exact parameterNode_walks

theorem Grammar.Names.walks {close : TokenKind} {seen : List String} {nodes : List Node}
    (h : Names close seen s nodes t) :
    WalksAll features s.book.scopes (nodes.map .node) t.book.scopes := by
  induction h with
  | none => exact .nil
  | last => exact .single parameter_walks
  | more _ _ _ _ ih => exact .cons parameter_walks ih

theorem Grammar.BlockParameters.walks {parameters : Node × Bool}
    (h : BlockParameters s parameters t) :
    Walks features s.book.scopes parameters.1 t.book.scopes := by
  cases h with
  | bars => exact plain_walks rfl rfl nofun nofun .nil
  | none => exact noParametersNode_walks
  | list _ names _ =>
    cases names with
    | intro names => exact parametersNode_walks names.walks

theorem Grammar.ParenthesizedParameters.walks {parameters : Node × Bool}
    (h : ParenthesizedParameters s parameters t) :
    Walks features s.book.scopes parameters.1 t.book.scopes := by
  cases h with
  | none => exact noParametersNode_walks
  | list _ names _ =>
    cases names with
    | intro names => exact parametersNode_walks names.walks

theorem Grammar.Names.scopes_eq {close : TokenKind} {seen : List String} {nodes : List Node}
    (h : Names close seen s nodes t) (none : nodes = []) : t.book.scopes = s.book.scopes := by
  cases h with
  | none => rfl
  | last | more => cases none

/-- Only parameters declare anything. -/
theorem Grammar.BlockParameters.scopes_eq {parameters : Node × Bool}
    (h : BlockParameters s parameters t) (none : parameters.2 = false) :
    t.book.scopes = s.book.scopes := by
  cases h with
  | bars | none => rfl
  | list _ names _ =>
    cases names with
    | intro names => exact names.scopes_eq (by simpa using none)

theorem Grammar.ParenthesizedParameters.scopes_eq {parameters : Node × Bool}
    (h : ParenthesizedParameters s parameters t) (none : parameters.2 = false) :
    t.book.scopes = s.book.scopes := by
  cases h with
  | none => rfl
  | list _ names _ =>
    cases names with
    | intro names => exact names.scopes_eq (by simpa using none)

end Parameters

section Closures

variable {features : Features} {before middle opened inner : List Scope}

/-- A block. If numbered parameters take the place of its parameters, then it declares none. -/
theorem closureNode_walks {target parameters : Node} {numbering : Option Numbering}
    {ordinary : Bool} {body : List Node} {whole : Span} {first last : Token}
    (counted : numbering.map Numbering.rigid = some (Numbering.body 0 ordinary).rigid)
    (target_walks : Walks features before target middle)
    (parameters_walks : Walks features ({ inherits := true } :: middle) parameters opened)
    (none : ordinary = false → opened = { inherits := true } :: middle)
    (body_walks : WalksAll features opened (body.map .node) inner) :
    Walks features before (closureNode target parameters numbering body whole first last)
      middle := by
  unfold closureNode
  dsimp only
  split
  · rename_i highest used
    -- A number above zero is not that of a body with parameters of its own.
    have free : ordinary = false := by
      cases ordinary with
      | false => rfl
      | true =>
        cases used <;> cases counted
    refine scope_walks rfl (.single target_walks) ?_ body_walks
    rw [none free]
    exact .skip rfl .nil
  · exact scope_walks rfl (.single target_walks) (.single parameters_walks) body_walks

variable {book opening closing : Bookkeeping} {body : List Node}

/-- A block or a lambda literal: the scope of its parameters and its body inherits, and is left at
its end. -/
theorem closure_walks {target : Node} {parameters : Node × Bool} {whole : Span}
    {first last : Token} (opens : opening.frame = book.frame.opened book.scopes true)
    (closes : closing.frame = (opening.openNumbering (.body 0 parameters.2)).frame)
    (target_walks : Walks features before target book.scopes)
    (parameters_walks :
      Walks features ({ inherits := true } :: book.scopes) parameters.1 opening.scopes)
    (none : parameters.2 = false → opening.scopes = { inherits := true } :: book.scopes)
    (body_walks : WalksAll features opening.scopes (body.map .node) closing.scopes) :
    Walks features before
      (closureNode target parameters.1 closing.numbering.head? body whole first last)
      closing.scopes.tail := by
  have inside : closing.frame =
      (book.frame.opened book.scopes true).numbered (.body 0 parameters.2) :=
    closes.trans (congrArg (Frame.numbered · _) opens)
  rw [Bookkeeping.tail_scopes_eq inside]
  exact closureNode_walks (Bookkeeping.head?_numbering_eq inside) target_walks parameters_walks
    none body_walks

/-- The definition of a method or a class: the scope of its body does not inherit. -/
theorem definition_walks {kind : NodeKind} {first second : Child} {whole : Option Span}
    {fields : List (String × Option Span)} (opens : kind.scope? = some false)
    (closes : closing.frame = (book.frame.opened book.scopes false).numbered .closed)
    (name_walks : WalksAll features book.scopes [first] book.scopes)
    (parameters_walks :
      WalksAll features ({ inherits := false } :: book.scopes) [second] opened)
    (body_walks : WalksAll features opened (body.map .node) closing.scopes) :
    Walks features book.scopes
      (.located kind [first, second, .ofOption (sequence body)] whole fields)
      closing.scopes.tail := by
  rw [Bookkeeping.tail_scopes_eq closes]
  exact scope_walks opens name_walks parameters_walks body_walks

end Closures

/-! ### Phrases -/

namespace Grammar

/-- A phrase stands for nodes whose names are what the scopes say. -/
def Phrase.Walks (features : Features) (before : List Scope) :
    (phrase : Phrase) → phrase.Result → List Scope → Prop
  | .of (.statements _), nodes, after | .of (.arguments _), nodes, after
  | .of .entries, nodes, after | .of .clauses, nodes, after =>
    WalksAll features before (nodes.map .node) after
  | .of .expression, node, after | .of (.operators _), node, after
  | .of (.operatorsAfter _ _), node, after | .of .unary, node, after
  | .of (.callsAfter _), node, after | .of .pattern, node, after | .primary, node, after
  | .call _ _ _, node, after | .blockAfter _, node, after | .argument _, node, after
  | .entry _, node, after | .clause, node, after => Dialect.Walks features before node after
  | .actuals, given, after => WalksAll features before (given.nodes.map .node) after

/-- What a phrase goes on from is so already; a call without a receiver, unless a parenthesis
follows, is of a name that is not visible. -/
def Phrase.Starts (features : Features) (before : List Scope) (s : ParseState) : Phrase → Prop
  | .of (.operatorsAfter _ left) => Dialect.Walks features before left s.book.scopes
  | .of (.callsAfter receiver) => Dialect.Walks features before receiver s.book.scopes
  | .blockAfter target => Dialect.Walks features before target s.book.scopes
  | .call (some receiver) _ _ => Dialect.Walks features before receiver s.book.scopes
  | .call none _ selector =>
    before = s.book.scopes ∧ (s.Adjacent .lparen ∨ s.book.isLocal selector.text = false)
  | _ => before = s.book.scopes

variable {features : Features} {s t : ParseState}

theorem Derives.parens_ne_none {actuals : Actuals} (h : Derives features .actuals s actuals t)
    (adjacent : s.Adjacent .lparen) : actuals.parens ≠ none := by
  cases h with
  | emptyParens | parens => exact nofun
  | commandArguments apart | noActuals apart => exact absurd adjacent apart

theorem Derives.aligned {phrase : Phrase} {value : phrase.Result}
    (h : Derives features phrase s value t) (aligned : s.book.frame.Aligned) :
    t.book.frame.Aligned := by
  rw [h.frame_eq]
  exact aligned

/-- A numbered parameter is in the body of a block or a lambda literal. -/
theorem numberedUse?_eq_some {book : Bookkeeping} {name : String} {use : Nat × Bool}
    (h : numberedUse? features book name = some use) (aligned : book.frame.Aligned) :
    features.numberedParameters = true ∧ name ∈ numberedNames ∧
      ∃ scope outer, book.scopes = scope :: outer ∧ scope.inherits = true := by
  unfold numberedUse? at h
  split at h
  · cases h
  · rename_i allowed
    split at h
    · rename_i number highest ordinary _ named numbering
      have on : features.numberedParameters = true := by
        simp only [Bool.or_eq_true, Bool.not_eq_true', not_or, Bool.not_eq_false] at allowed
        exact allowed.1
      have body : ∃ used ∈ book.frame.numbering.head?, used ≠ .closed := by
        refine ⟨(Numbering.body highest ordinary).rigid, ?_, ?_⟩
        · simp [Bookkeeping.frame, numbering]
        · cases ordinary <;> simp [Numbering.rigid]
      have inherits : (book.scopes.map Scope.inherits).head? = some true := aligned body
      refine ⟨on, mem_numberedNames.2 (by rw [named]; rfl), ?_⟩
      cases scopes : book.scopes with
      | nil => simp [scopes] at inherits
      | cons scope outer => exact ⟨scope, outer, rfl, by simpa [scopes] using inherits⟩
    · cases h

theorem aligned_in_closure {book opening : Bookkeeping} (ordinary : Bool)
    (opens : opening.frame = book.frame.opened book.scopes true) :
    (opening.openNumbering (.body 0 ordinary)).frame.Aligned :=
  Frame.aligned_of_inherits (congrArg (Frame.numbered · (.body 0 ordinary)) opens)

theorem numberedVariable_walks {book : Bookkeeping} {token : Token} {number : Nat}
    (use : numberedUse? features book token.text = some (number, false))
    (aligned : book.frame.Aligned) :
    Dialect.Walks features book.scopes (variableNode token) (book.useNumber number).scopes := by
  rw [Bookkeeping.scopes_useNumber]
  exact variableNode_walks (.inr (numberedUse?_eq_some use aligned))

/-- A call without a receiver is of a name that is not visible, or has parentheses. -/
theorem call_walks {receiver : Option Node} {dot : Option Token} {selector : Token}
    {actuals : Actuals} {before : List Scope} (reads : Derives features .actuals s actuals t)
    (starts : (Phrase.call receiver dot selector).Starts features before s)
    (walks : WalksAll features s.book.scopes (actuals.nodes.map .node) t.book.scopes) :
    Dialect.Walks features before (recordedCall s.book.context receiver dot selector actuals)
      t.book.scopes := by
  cases receiver with
  | some receiver => exact recordedCall_walks nofun (.single starts) walks
  | none =>
    obtain ⟨rfl, named⟩ := starts
    refine recordedCall_walks (fun _ noParens visible => ?_) (.skip rfl .nil) walks
    obtain adjacent | hidden := named
    · exact reads.parens_ne_none adjacent noParens
    · exact Bool.false_ne_true (hidden.symm.trans (visible_iff.2 visible))

/-- Every name that a phrase builds a node for is what the scopes say, and the scopes of the parser
are those that a walk through the nodes finds. -/
theorem Derives.walks {phrase : Phrase} {value : phrase.Result} {before : List Scope}
    (h : Derives features phrase s value t) (aligned : s.book.frame.Aligned)
    (starts : phrase.Starts features before s) :
    phrase.Walks features before value t.book.scopes := by
  induction h generalizing before with
  | noStatements | emptyParens | noActuals | noEntries | noClauses =>
    obtain rfl := starts
    exact .nil
  | lastStatement _ _ _ _ ih =>
    obtain rfl := starts
    exact .single (ih aligned rfl)
  | moreStatements _ h1 _ _ ih1 ih2 =>
    obtain rfl := starts
    exact .cons (ih1 aligned rfl) (ih2 (h1.aligned aligned) rfl)
  | @assignment s _ name _ _ _ _ _ _ _ ih =>
    obtain rfl := starts
    have declared := (s.book.frame_declare name.text).symm ▸ aligned
    refine assignment_walks ?_
    rw [← Bookkeeping.scopes_declare]
    exact ih declared rfl
  | unassigned _ _ ih | plainArgument _ _ ih | valuePattern _ _ ih => exact ih aligned starts
  | operators h1 _ ih1 ih2 | chain _ _ h1 _ ih1 ih2 =>
    obtain rfl := starts
    exact ih2 (h1.aligned aligned) (ih1 aligned rfl)
  | noOperator | noCall | noBlock => exact starts
  | operator _ _ _ h1 _ ih1 ih2 =>
    exact ih2 (h1.aligned aligned) (operatorNode_walks starts (ih1 aligned rfl))
  | negative _ _ _ value | integer _ value =>
    obtain rfl := starts
    exact plain_walks rfl rfl nofun nofun (.skip (Child.node?_integer? value) .nil)
  | minus _ _ _ ih | bang _ _ ih => exact signNode_walks (ih aligned starts)
  | string | symbol =>
    obtain rfl := starts
    exact plain_walks rfl rfl nofun nofun (.skip rfl .nil)
  | constant =>
    obtain rfl := starts
    exact constantNode_walks
  | keyword value =>
    obtain rfl := starts
    exact keyword_walks value
  | numberedVariable _ _ use =>
    obtain rfl := starts
    exact numberedVariable_walks use aligned
  | localVariable _ _ _ visible =>
    obtain rfl := starts
    exact variableNode_walks (.inl (visible_iff.1 visible))
  | adjacentCall _ adjacent _ ih =>
    obtain rfl := starts
    exact ih aligned ⟨rfl, .inl adjacent⟩
  | wordCall _ _ _ hidden _ ih =>
    obtain rfl := starts
    exact ih aligned ⟨rfl, .inr hidden⟩
  | parenthesized _ _ _ ih | hashPattern _ _ _ ih =>
    obtain rfl := starts
    exact plain_walks rfl rfl nofun nofun (ih aligned rfl)
  | @lambda s s1 _ _ _ _ _ _ _ _ _ _ _ _ _ parameters _ _ h1 _ ih =>
    obtain rfl := starts
    have opened : s1.book.frame = s.book.frame.opened s.book.scopes true := parameters.frame_eq
    have body := ih (aligned_in_closure _ opened) rfl
    exact closure_walks opened h1.frame_eq arrow_walks parameters.walks parameters.scopes_eq body
  | @method s s1 _ _ _ _ _ _ _ _ _ _ _ parameters h1 _ ih =>
    obtain rfl := starts
    have opened : s1.book.frame = (s.book.frame.opened s.book.scopes false).numbered .closed :=
      parameters.frame_eq
    have body := ih (Frame.aligned_of_closed opened) rfl
    exact definition_walks rfl (h1.frame_eq.trans opened) (.skip rfl .nil)
      (.single parameters.walks) body
  | @classDefinition s _ _ _ _ _ _ _ _ _ _ _ h1 _ ih =>
    obtain rfl := starts
    have opened : ((s.book.openScope false).openNumbering .closed).frame =
        (s.book.frame.opened s.book.scopes false).numbered .closed := rfl
    have body := ih (Frame.aligned_of_closed opened) rfl
    exact definition_walks rfl h1.frame_eq (.single constantNode_walks) (.skip rfl .nil) body
  | whileLoop _ h1 _ _ _ _ ih1 ih2 =>
    obtain rfl := starts
    exact whileNode_walks (ih1 aligned rfl) (ih2 (h1.aligned aligned) rfl)
  | definedWord _ _ _ ih | definedParens _ _ _ _ ih =>
    obtain rfl := starts
    exact plain_walks rfl rfl nofun nofun (.single (ih aligned rfl))
  | caseMatch _ _ h1 _ _ _ ih1 ih2 =>
    obtain rfl := starts
    exact caseNode_walks (ih1 aligned rfl) (ih2 (h1.aligned aligned) rfl) .nil
  | caseElse _ _ h1 _ h2 _ _ _ ih1 ih2 ih3 =>
    obtain rfl := starts
    have left := h1.aligned aligned
    exact caseNode_walks (ih1 aligned rfl) (ih2 left rfl) (ih3 (h2.aligned left) rfl)
  | dotCall _ _ h1 _ ih1 ih2 => exact ih2 (h1.aligned aligned) (ih1 aligned starts)
  | call h1 _ ih1 ih2 =>
    exact ih2 (h1.aligned aligned) (call_walks h1 starts (ih1 aligned rfl))
  | parens _ _ _ _ _ ih | commandArguments _ _ _ ih =>
    obtain rfl := starts
    exact ih aligned rfl
  | lastArgument _ _ ih | lastEntry _ _ _ ih =>
    obtain rfl := starts
    exact .single (ih aligned rfl)
  | moreArguments h1 _ _ ih1 ih2 | moreEntries _ h1 _ _ ih1 ih2 | moreClauses h1 _ ih1 ih2 =>
    obtain rfl := starts
    exact .cons (ih1 aligned rfl) (ih2 (h1.aligned aligned) rfl)
  | @signedArgument first _ _ _ _ _ _ _ signs _ _ ih =>
    obtain rfl := starts
    cases first with
    | true | false => exact signedNode_walks signs (ih aligned rfl)
  | @block s s1 _ _ _ _ _ _ _ _ _ _ _ parameters h1 _ ih =>
    have opened : s1.book.frame = s.book.frame.opened s.book.scopes true := parameters.frame_eq
    have body := ih (aligned_in_closure _ opened) rfl
    exact closure_walks opened h1.frame_eq starts parameters.walks parameters.scopes_eq body
  | variablePattern _ binds =>
    obtain rfl := starts
    exact binds.walks
  | bareEntry _ _ binds =>
    obtain rfl := starts
    exact binds.walks
  | pairEntry _ _ _ ih =>
    obtain rfl := starts
    exact pairNode_walks (ih aligned rfl)
  | clause _ h1 same _ _ _ ih1 ih2 =>
    obtain rfl := starts
    subst same
    exact clauseNode_walks (ih1 aligned rfl) (ih2 (h1.aligned aligned) rfl)

end Grammar

/-- In an accepted source every variable is visible where it stands or is a numbered parameter, and
every call without a receiver and parentheses is of a name that is not visible there. -/
theorem Parser.names_resolved {parser : Parser} {source : String} {tree : Node}
    (accepted : (parser.parse source).1 = .ok (some tree)) :
    ∀ visit ∈ tree.visits [{ inherits := false }], Resolved parser.features visit.1 visit.2 := by
  obtain ⟨tokens, body, after, -, derived, root, -⟩ := Parser.program_of_accepted accepted
  have aligned : Frame.Aligned ⟨[], [false], []⟩ := by
    rintro ⟨_, none, -⟩
    cases none
  have statements : WalksAll parser.features [{ inherits := false }] (body.map .node)
      after.book.scopes := Derives.walks derived aligned rfl
  have walks := sequence_walks statements
  rw [← root] at walks
  exact fun visit mem => walks.resolved visit (List.mem_append_left _ mem)

/-- A variable that a block sees and a method does not, beside a numbered parameter. -/
theorem Parser.names_resolved_method :
    let source := "x = 1; foo \x7b bar x, _1 \x7d; def m(y) x y end"
    ∃ tree, (Parser.newest.parse source).1 = .ok (some tree) ∧
      ((tree.visits [{ inherits := false }]).filter (·.1.kind == .lvar)).length = 3 ∧
      ∀ visit ∈ tree.visits [{ inherits := false }],
        Resolved Parser.newest.features visit.1 visit.2 := by
  intro source
  have counted : (Parser.newest.parse source).1.toOption.join.any (fun tree =>
      ((tree.visits [{ inherits := false }]).filter (·.1.kind == .lvar)).length == 3) := by
    decide +kernel
  cases ok : (Parser.newest.parse source).1 with
  | error fault =>
    rw [ok] at counted
    cases counted
  | ok root =>
    rw [ok] at counted
    cases root with
    | none => cases counted
    | some tree => exact ⟨tree, rfl, beq_iff_eq.1 counted, Parser.names_resolved ok⟩

end Conformance.Dialect
