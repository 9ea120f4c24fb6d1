import Conformance.Proofs.Resolution

/-! Numbered parameters: a walk through a finished tree, which knows nothing of the parser, counts
them again for every body. The number of a block is the highest that its body uses; the bodies of
other blocks, of methods and of classes use none. -/

namespace Conformance.Dialect

/-! ### Numbered parameters of a tree -/

/-- The number of a numbered parameter: a variable of such a name that is not visible. -/
def Node.parameter? : Node → List Scope → Option Nat
  | .mk .lvar [.sym name] _ _, scopes =>
    if visible name scopes then none else parameterNumber? name
  | _, _ => none

mutual

/-- The numbers of the numbered parameters in a node that belong to a body around it: those in the
bodies that start in the node are left out. -/
def Node.numbers : Node → List Scope → List Nat
  | .mk _ [] _ _, _ => []
  | .mk kind (first :: rest) location context, scopes =>
    let bound := kind.bound (first :: rest) scopes
    let own := (Node.mk kind (first :: rest) location context).parameter? scopes
    let inside := match kind.scope? with
      | some _ => []
      | none => childrenNumbers rest (Child.scopesAfter first bound)
    own.toList ++ (Child.numbers first bound ++ inside)

def childrenNumbers : List Child → List Scope → List Nat
  | [], _ => []
  | child :: rest, scopes =>
    Child.numbers child scopes ++ childrenNumbers rest (Child.scopesAfter child scopes)

def Child.numbers : Child → List Scope → List Nat
  | .node node, scopes => Node.numbers node scopes
  | _, _ => []

end

/-- The numbers of the numbered parameters that belong to the body of a node, if the node has one:
it is the scope that the node opens after its first child. -/
def Node.bodyNumbers : Node → List Scope → List Nat
  | .mk kind (first :: rest) _ _, scopes =>
    match kind.scope? with
    | some inherits =>
      childrenNumbers rest
        ({ inherits } :: Child.scopesAfter first (kind.bound (first :: rest) scopes))
    | none => []
  | _, _ => []

/-- The numbered parameters of a node's body are counted: the integer of a numbered block is the
highest of them, and no other node has any. -/
structure Counted (features : Features) (node : Node) (scopes : List Scope) : Prop where
  highest : node.kind = .numblock → ∃ target number body,
    node.allChildren = [target, .int (number : Nat), body] ∧
      (node.bodyNumbers scopes).max? = some number
  unused : node.kind ≠ .numblock → node.bodyNumbers scopes = []
  enabled : ∀ number ∈ node.parameter? scopes, features.numberedParameters = true

section Belonging

open List

/-- The numbers of the visits that are numbered parameters. -/
def parametersOf (visits : List (Node × List Scope)) : List Nat :=
  visits.filterMap fun visit => visit.1.parameter? visit.2

/-- The numbers that belong to the bodies of the visits. -/
def numbersOf (visits : List (Node × List Scope)) : List Nat :=
  visits.flatMap fun visit => visit.1.bodyNumbers visit.2

variable {visits more : List (Node × List Scope)}

theorem parametersOf_cons {visit : Node × List Scope} :
    parametersOf (visit :: visits) =
      (visit.1.parameter? visit.2).toList ++ parametersOf visits := by
  unfold parametersOf
  rw [List.filterMap_cons]
  split <;> simp [*]

theorem numbersOf_cons {visit : Node × List Scope} :
    numbersOf (visit :: visits) = visit.1.bodyNumbers visit.2 ++ numbersOf visits :=
  List.flatMap_cons

theorem parametersOf_append : parametersOf (visits ++ more) =
    parametersOf visits ++ parametersOf more := List.filterMap_append

theorem numbersOf_append : numbersOf (visits ++ more) = numbersOf visits ++ numbersOf more :=
  List.flatMap_append

theorem perm_append {a b c d e f : List Nat} (first : a ~ b ++ c) (second : d ~ e ++ f) :
    a ++ d ~ (b ++ e) ++ (c ++ f) := by
  refine (first.append second).trans ?_
  rw [append_assoc, append_assoc]
  refine .append_left b ?_
  rw [← append_assoc, ← append_assoc]
  exact .append_right f perm_append_comm

mutual

/-- Every numbered parameter in a node belongs to one body: to one that starts in the node or to one
around it. -/
theorem Node.parameters_perm : ∀ (node : Node) (scopes : List Scope),
    parametersOf (node.visits scopes) ~ node.numbers scopes ++ numbersOf (node.visits scopes)
  | .mk kind [] _ _, scopes => by
    cases kind <;> exact .refl _
  | .mk kind (first :: rest) location context, scopes => by
    have outside := Child.parameters_perm first (kind.bound (first :: rest) scopes)
    have all inner := (perm_append outside (children_parameters_perm rest inner)).append_left
      ((Node.mk kind (first :: rest) location context).parameter? scopes).toList
    rw [Node.visits, Node.numbers, parametersOf_cons, numbersOf_cons, parametersOf_append,
      numbersOf_append, Node.bodyNumbers]
    cases kind.scope? with
    | none => simpa using all (Child.scopesAfter first (kind.bound (first :: rest) scopes))
    | some inherits =>
      simpa using all ({ inherits } :: Child.scopesAfter first (kind.bound (first :: rest) scopes))

theorem children_parameters_perm : ∀ (children : List Child) (scopes : List Scope),
    parametersOf (childrenVisits children scopes) ~
      childrenNumbers children scopes ++ numbersOf (childrenVisits children scopes)
  | [], _ => .refl _
  | child :: rest, scopes => by
    rw [childrenVisits, childrenNumbers, parametersOf_append, numbersOf_append]
    exact perm_append (Child.parameters_perm child scopes) (children_parameters_perm rest _)

theorem Child.parameters_perm : ∀ (child : Child) (scopes : List Scope),
    parametersOf (child.visits scopes) ~ child.numbers scopes ++ numbersOf (child.visits scopes)
  | .node node, scopes => Node.parameters_perm node scopes
  | .int _, _ | .bigInt _, _ | .str _, _ | .sym _, _ | .nil, _ => .refl _

end

end Belonging

theorem childrenAfter_append (children more : List Child) (scopes : List Scope) :
    childrenAfter (children ++ more) scopes =
      childrenAfter more (childrenAfter children scopes) := by
  induction children generalizing scopes with
  | nil => rfl
  | cons child rest ih => exact ih _

theorem childrenNumbers_append (children more : List Child) (scopes : List Scope) :
    childrenNumbers (children ++ more) scopes =
      childrenNumbers children scopes ++ childrenNumbers more (childrenAfter children scopes) := by
  induction children generalizing scopes with
  | nil => rfl
  | cons child rest ih =>
    simp only [List.cons_append, childrenNumbers, childrenAfter, ih, List.append_assoc]

theorem childrenVisits_append (children more : List Child) (scopes : List Scope) :
    childrenVisits (children ++ more) scopes =
      childrenVisits children scopes ++ childrenVisits more (childrenAfter children scopes) := by
  induction children generalizing scopes with
  | nil => rfl
  | cons child rest ih =>
    simp only [List.cons_append, childrenVisits, childrenAfter, ih, List.append_assoc]

/-! ### The use of numbered parameters in the books -/

theorem parameterNumber?_pos {name : String} {number : Nat}
    (named : parameterNumber? name = some number) : 0 < number := by
  unfold parameterNumber? at named
  split at named
  · split at named
    · rename_i range
      cases named
      simp only [Bool.and_eq_true, decide_eq_true_eq] at range
      have low : 49 ≤ _ := range.1
      exact Nat.sub_pos_of_lt low
    · cases named
  · cases named

/-- The highest number of a body is at least each of the numbers. -/
def Numbering.raised (numbers : List Nat) : Numbering → Numbering
  | .body highest ordinary => .body (numbers.foldl max highest) ordinary
  | .closed => .closed

@[simp] theorem Numbering.raised_nil (numbering : Numbering) : numbering.raised [] = numbering := by
  cases numbering <;> rfl

theorem Numbering.raised_append (a b : List Nat) (numbering : Numbering) :
    numbering.raised (a ++ b) = (numbering.raised a).raised b := by
  cases numbering
  · rfl
  · simp [raised]

/-- The numbers are used in the innermost body, which must have no parameters of its own. -/
structure Uses (features : Features) (numbers : List Nat) (before after : List Numbering) :
    Prop where
  after_eq : after = before.modifyHead (Numbering.raised numbers)
  allowed : ∀ number ∈ numbers, 0 < number ∧ features.numberedParameters = true ∧
    ∃ highest outer, before = .body highest false :: outer

namespace Uses

variable {features : Features} {a b : List Nat} {before middle after outer : List Numbering}

theorem nil : Uses features [] before before where
  after_eq := by cases before <;> simp
  allowed := nofun

theorem append (first : Uses features a before middle) (rest : Uses features b middle after) :
    Uses features (a ++ b) before after := by
  obtain ⟨rfl, allowed⟩ := first
  obtain ⟨rfl, allowed'⟩ := rest
  refine ⟨?_, fun number mem => ?_⟩
  · rw [List.modifyHead_modifyHead]
    exact congrArg (List.modifyHead · before) (funext fun _ => (Numbering.raised_append ..).symm)
  · obtain here | later := List.mem_append.1 mem
    · exact allowed number here
    · obtain ⟨positive, enabled, highest, outer, eq⟩ := allowed' number later
      refine ⟨positive, enabled, ?_⟩
      cases before with
      | nil => cases eq
      | cons numbering outer' =>
        cases numbering with
        | closed => cases eq
        | body highest' ordinary =>
          obtain rfl : ordinary = false := by
            injection eq with same
            injection same
          exact ⟨highest', outer', rfl⟩

/-- None is used in the body of a method or a class, nor in one with parameters of its own. -/
theorem eq_nil {numbering : Numbering} (uses : Uses features a (numbering :: outer) after)
    (other : ∀ highest, numbering ≠ .body highest false) : a = [] := by
  refine List.eq_nil_iff_forall_not_mem.2 fun number mem => ?_
  obtain ⟨-, -, highest, _, same⟩ := uses.allowed number mem
  exact other highest (List.cons.inj same).1

/-- After a body that started without a number, the highest is that of the numbers that it uses. -/
theorem head?_eq {ordinary : Bool} (uses : Uses features a (.body 0 ordinary :: outer) after) :
    after.head? = some (.body (a.max?.getD 0) ordinary) := by
  rw [uses.after_eq]
  simp [Numbering.raised, List.foldl_max]

/-- A body that ends with a highest number uses that number and no higher one. -/
theorem max?_eq {ordinary ordinary' : Bool} {highest : Nat}
    (uses : Uses features a (.body 0 ordinary :: outer) after)
    (used : after.head? = some (.body (highest + 1) ordinary')) : a.max? = some (highest + 1) := by
  have highest : some (Numbering.body (a.max?.getD 0) ordinary) = _ := uses.head?_eq.symm.trans used
  cases max : a.max? with
  | none => simp [max] at highest
  | some number =>
    rw [max] at highest
    injection highest with same
    injection same with same
    exact congrArg some same

/-- A body that ends without a number uses none. -/
theorem eq_nil_of_unused {ordinary : Bool}
    (uses : Uses features a (.body 0 ordinary :: outer) after)
    (unused : ∀ highest ordinary, after.head? ≠ some (.body (highest + 1) ordinary)) : a = [] := by
  cases max : a.max? with
  | none => exact List.max?_eq_none_iff.1 max
  | some number =>
    obtain ⟨below, rfl⟩ := Nat.exists_eq_add_of_lt (uses.allowed _ (List.max?_mem max)).1
    refine absurd uses.head?_eq ?_
    rw [max]
    exact unused _ _

end Uses

/-- The part of the books that says what a name stands for. -/
structure Ledger where
  scopes : List Scope
  numbering : List Numbering

def Bookkeeping.ledger (book : Bookkeeping) : Ledger := ⟨book.scopes, book.numbering⟩

/-- The ledger with a body inside that opens a scope. -/
def Ledger.opened (ledger : Ledger) (inherits : Bool) (numbering : Numbering) : Ledger :=
  ⟨{ inherits } :: ledger.scopes, numbering :: ledger.numbering⟩

/-- The ledger with a name bound. -/
def Ledger.bind (name : String) (ledger : Ledger) : Ledger :=
  { ledger with scopes := Scope.bind name ledger.scopes }

/-- A node uses the numbered parameters that belong to a body around it, and those of the bodies in
it are counted, where `before` is the ledger at the node and `after` that after it. -/
structure Tally (features : Features) (before : Ledger) (node : Node) (after : Ledger) : Prop where
  scopes_eq : node.scopesAfter before.scopes = after.scopes
  uses : Uses features (node.numbers before.scopes) before.numbering after.numbering
  counted : ∀ visit ∈ node.visits before.scopes, Counted features visit.1 visit.2

/-- The same of children, one after the other. -/
structure TallyAll (features : Features) (before : Ledger) (children : List Child)
    (after : Ledger) : Prop where
  scopes_eq : childrenAfter children before.scopes = after.scopes
  uses : Uses features (childrenNumbers children before.scopes) before.numbering after.numbering
  counted : ∀ visit ∈ childrenVisits children before.scopes, Counted features visit.1 visit.2

section Tally

variable {features : Features} {before middle after inner : Ledger} {node : Node}
  {children more : List Child}

theorem TallyAll.nil : TallyAll features before [] before := ⟨rfl, .nil, nofun⟩

theorem TallyAll.skip {child : Child} (literal : child.node? = none)
    (rest : TallyAll features before more after) :
    TallyAll features before (child :: more) after := by
  cases child with
  | node => cases literal
  | _ => exact ⟨rest.scopes_eq, rest.uses, rest.counted⟩

theorem TallyAll.cons (first : Tally features before node middle)
    (rest : TallyAll features middle more after) :
    TallyAll features before (.node node :: more) after := by
  obtain ⟨same, uses, counted⟩ := first
  obtain ⟨same', uses', counted'⟩ := rest
  rw [← same] at same' uses' counted'
  refine ⟨same', uses.append uses', fun visit mem => ?_⟩
  obtain here | later := List.mem_append.1 mem
  · exact counted visit here
  · exact counted' visit later

theorem TallyAll.single (only : Tally features before node after) :
    TallyAll features before [.node node] after := .cons only .nil

theorem TallyAll.append (first : TallyAll features before children middle)
    (rest : TallyAll features middle more after) :
    TallyAll features before (children ++ more) after := by
  obtain ⟨same, uses, counted⟩ := first
  obtain ⟨same', uses', counted'⟩ := rest
  rw [← same] at same' uses' counted'
  refine ⟨?_, ?_, fun visit mem => ?_⟩
  · rw [childrenAfter_append]
    exact same'
  · rw [childrenNumbers_append]
    exact uses.append uses'
  · rw [childrenVisits_append] at mem
    obtain here | later := List.mem_append.1 mem
    · exact counted visit here
    · exact counted' visit later

variable {kind : NodeKind} {location : Option Location} {context : Option Flags}

/-- A node that opens no scope and is no variable. -/
theorem Tally.intro (scopeless : kind.scope? = none) (noVariable : kind ≠ .lvar)
    (all : TallyAll features ⟨kind.bound children before.scopes, before.numbering⟩ children after) :
    Tally features before (.mk kind children location context) after := by
  have noParameter : (Node.mk kind children location context).parameter? before.scopes = none := by
    cases kind <;> first | rfl | exact absurd rfl noVariable
  have noBody : (Node.mk kind children location context).bodyNumbers before.scopes = [] := by
    cases children with
    | nil => rfl
    | cons => rw [Node.bodyNumbers, scopeless]
  have own : Counted features (.mk kind children location context) before.scopes := by
    refine ⟨fun numblock => ?_, fun _ => noBody, by simp [noParameter]⟩
    obtain rfl : kind = .numblock := numblock
    cases scopeless
  cases children with
  | nil =>
    have unbound : kind.bound [] before.scopes = before.scopes := by cases kind <;> rfl
    rw [unbound] at all
    exact ⟨all.scopes_eq, all.uses, List.forall_mem_singleton.2 own⟩
  | cons first rest =>
    refine ⟨?_, ?_, fun visit mem => ?_⟩
    · rw [Node.scopesAfter, scopeless]
      exact all.scopes_eq
    · rw [Node.numbers, noParameter, scopeless]
      exact all.uses
    · rw [Node.visits, scopeless] at mem
      obtain rfl | below := List.mem_cons.1 mem
      · exact own
      · exact all.counted visit below

/-- A node that opens a scope after its first child. What belongs to its body is left out. -/
theorem Tally.scope {inherits : Bool} {numbering : Numbering} {first : Child}
    (opens : kind.scope? = some inherits) (outside : TallyAll features before [first] middle)
    (inside : TallyAll features (middle.opened inherits numbering) more inner)
    (highest : kind = .numblock → ∃ target number body,
      first :: more = [target, .int (number : Nat), body] ∧
        (childrenNumbers more (middle.opened inherits numbering).scopes).max? = some number)
    (unused : kind ≠ .numblock →
      childrenNumbers more (middle.opened inherits numbering).scopes = []) :
    Tally features before (.mk kind (first :: more) location context) middle := by
  have unbound : kind.bound (first :: more) before.scopes = before.scopes := by
    cases kind <;> first | rfl | cases opens
  have noParameter : (Node.mk kind (first :: more) location context).parameter? before.scopes =
      none := by
    cases kind <;> first | rfl | cases opens
  obtain ⟨same, uses, counted⟩ := outside
  have body : (Node.mk kind (first :: more) location context).bodyNumbers before.scopes =
      childrenNumbers more (middle.opened inherits numbering).scopes := by
    rw [Node.bodyNumbers, opens, unbound, Ledger.opened, ← same]
    rfl
  refine ⟨?_, ?_, fun visit mem => ?_⟩
  · rw [Node.scopesAfter, opens, unbound]
    exact same
  · rw [Node.numbers, noParameter, opens, unbound]
    exact uses
  · rw [Node.visits, opens, unbound] at mem
    obtain rfl | below := List.mem_cons.1 mem
    · exact ⟨by rw [body]; exact highest, by rw [body]; exact unused, by simp [noParameter]⟩
    · obtain here | later := List.mem_append.1 below
      · exact counted visit (List.mem_append_left _ here)
      · refine inside.counted visit ?_
        rw [Ledger.opened, ← same]
        exact later

end Tally

open Grammar

/-! ### The nodes of the grammar -/

section Nodes

variable {features : Features} {before middle after inner : Ledger}

theorem sequence_tally {body : List Node} (all : TallyAll features before (body.map .node) after) :
    TallyAll features before [.ofOption (sequence body)] after := by
  match body with
  | [] => exact all.skip rfl
  | [node] => exact all
  | first :: second :: more => exact .single (.intro rfl nofun all)

theorem constantNode_tally {name : Token} : Tally features before (constantNode name) before :=
  .intro rfl nofun (.skip rfl (.skip rfl .nil))

theorem parameterNode_tally {name : Token} :
    Tally features before (parameterNode name) (before.bind name.text) :=
  .intro rfl nofun (.skip rfl .nil)

theorem matchVariableNode_tally {name : String} {span : Span} :
    Tally features before (matchVariableNode name span) (before.bind name) :=
  .intro rfl nofun (.skip rfl .nil)

theorem operatorNode_tally {left right : Node} {operator : Token}
    (first : Tally features before left middle) (second : Tally features middle right after) :
    Tally features before (operatorNode left operator right) after := by
  unfold operatorNode
  dsimp only
  split
  · exact .intro rfl nofun (.cons first (.single second))
  · exact .intro rfl nofun (.cons first (.single second))
  · exact .intro rfl nofun (.cons first (.skip rfl (.single second)))

theorem signNode_tally {selector : String} {sign : Token} {operand : Node}
    (tally : Tally features before operand after) :
    Tally features before (signNode selector sign operand) after :=
  .intro rfl nofun (.cons tally (.skip rfl .nil))

theorem keyword_tally {kind : TokenKind} {value : NodeKind} {token : Token}
    (stands : keywordValue? kind = some value) :
    Tally features before (leaf value token) before := by
  cases kind <;> cases stands <;> exact .intro rfl nofun .nil

theorem signedNode_tally {kind : TokenKind} {sign : NodeKind} {operand : Node}
    {whole : Option Span} {fields : List (String × Option Span)}
    (signs : argumentSign? (some kind) = some sign)
    (tally : Tally features before operand after) :
    Tally features before (.located sign [.node operand] whole fields) after := by
  cases kind <;> cases signs <;> exact .intro rfl nofun (.single tally)

theorem recordedCall_tally {context : Flags} {receiver : Option Node} {dot : Option Token}
    {selector : Token} {actuals : Actuals}
    (first : TallyAll features before [.ofOption receiver] middle)
    (rest : TallyAll features middle (actuals.nodes.map .node) after) :
    Tally features before (recordedCall context receiver dot selector actuals) after := by
  rw [recordedCall_eq]
  exact .intro rfl nofun (first.append (.skip rfl rest))

/-- A variable uses its number if it is a numbered parameter. -/
theorem variableNode_tally {name : Token} {numbering : List Numbering}
    (uses : Uses features ((variableNode name).parameter? before.scopes).toList before.numbering
      numbering) :
    Tally features before (variableNode name) ⟨before.scopes, numbering⟩ := by
  refine ⟨rfl, ?_, List.forall_mem_singleton.2 ⟨nofun, fun _ => rfl, fun number used => ?_⟩⟩
  · have same : (variableNode name).numbers before.scopes =
        ((variableNode name).parameter? before.scopes).toList := List.append_nil _
    rwa [same]
  · exact (uses.allowed number (Option.mem_toList.2 used)).2.1

theorem parametersNode_tally {nodes : List Node} {first last : Span}
    (all : TallyAll features before (nodes.map .node) after) :
    Tally features before (parametersNode nodes first last) after :=
  .intro rfl nofun all

theorem noParametersNode_tally : Tally features before noParametersNode before :=
  .intro rfl nofun .nil

/-- The body of a method or a class. -/
theorem closed_tally {kind : NodeKind} {inherits : Bool} {first second : Child} {body : List Node}
    {whole : Option Span} {fields : List (String × Option Span)} {opened : Ledger}
    (opens : kind.scope? = some inherits) (other : kind ≠ .numblock)
    (outside : TallyAll features before [first] middle)
    (parameters : TallyAll features (middle.opened inherits .closed) [second] opened)
    (inside : TallyAll features opened (body.map .node) inner) :
    Tally features before
      (.located kind [first, second, .ofOption (sequence body)] whole fields) middle := by
  have all := parameters.append (sequence_tally inside)
  exact .scope opens outside all (absurd · other) fun _ => all.uses.eq_nil nofun

/-- A block. The highest number is that of the numbered parameters in its body. -/
theorem closureNode_tally {target parameters : Node} {ordinary : Bool} {body : List Node}
    {whole : Span} {first last : Token} {opened : Ledger}
    (outside : Tally features before target middle)
    (tally : Tally features (middle.opened true (.body 0 ordinary)) parameters opened)
    (none : ordinary = false → opened = middle.opened true (.body 0 ordinary))
    (inside : TallyAll features opened (body.map .node) inner) :
    Tally features before
      (closureNode target parameters inner.numbering.head? body whole first last) middle := by
  have all : TallyAll features (middle.opened true (.body 0 ordinary))
      [.node parameters, .ofOption (sequence body)] inner :=
    .cons tally (sequence_tally inside)
  unfold closureNode
  dsimp only
  split
  · rename_i highest _ used
    -- A body with parameters of its own ends without a number.
    have free : ordinary = false := by
      cases ordinary with
      | false => rfl
      | true =>
        have ended := all.uses.head?_eq
        rw [all.uses.eq_nil nofun, used] at ended
        cases ended
    obtain rfl := none free
    have numbered : TallyAll features (middle.opened true (.body 0 ordinary))
        [.int (highest + 1), .ofOption (sequence body)] inner :=
      .skip rfl (sequence_tally inside)
    exact .scope rfl (.single outside) numbered
      (fun _ => ⟨_, highest + 1, _, rfl, numbered.uses.max?_eq used⟩) (absurd rfl)
  · rename_i unused
    exact .scope rfl (.single outside) all nofun fun _ => all.uses.eq_nil_of_unused unused

end Nodes

/-! ### The ledger of a parser -/

namespace Bookkeeping

theorem ledger_declare (book : Bookkeeping) (name : String) :
    (book.declare name).ledger = book.ledger.bind name := by
  have numbering : (book.declare name).numbering = book.numbering := by
    unfold declare
    split <;> rfl
  simp only [ledger, Ledger.bind, scopes_declare, numbering]

theorem Binds.ledger_eq {book after : Bookkeeping} {name : String} (binds : Binds name book after) :
    after.ledger = book.ledger.bind name := by
  cases binds with
  | free => exact ledger_declare _ _
  | fresh => exact ledger_declare _ _

theorem Binds.tally {features : Features} {book after : Bookkeeping} {name : String} {span : Span}
    (binds : Binds name book after) :
    Tally features book.ledger (matchVariableNode name span) after.ledger := by
  rw [binds.ledger_eq]
  exact matchVariableNode_tally

theorem ledger_nameParameter (book : Bookkeeping) (name : String) :
    (book.nameParameter name).ledger = book.ledger.bind name := ledger_declare _ _

/-- After a body the ledger is that of before it. -/
theorem ledger_endBody {features : Features} {book body : Bookkeeping} {inherits : Bool}
    {numbering : Numbering} {numbers : List Nat}
    (inside : body.frame = (book.frame.opened book.scopes inherits).numbered numbering)
    (uses : Uses features numbers (numbering :: book.numbering) body.numbering) (context : Flags) :
    (body.endBody context).ledger = book.ledger := by
  have scopes : body.scopes.tail = book.scopes := tail_scopes_eq inside
  have numbering : body.numbering.tail = book.numbering := by rw [uses.after_eq]; rfl
  simp only [ledger, endBody, scopes, numbering]

end Bookkeeping

namespace Grammar

section Parameters

variable {features : Features} {s t : ParseState}

/-! Parameters are read before the body around them has its use of numbered parameters, so that they
are counted with any. -/

theorem parameter_tally {name : Token} {book : Bookkeeping} (numbering : List Numbering) :
    Tally features ⟨book.scopes, numbering⟩ (parameterNode name)
      ⟨(book.nameParameter name.text).scopes, numbering⟩ := by
  have scopes : (book.nameParameter name.text).scopes = Scope.bind name.text book.scopes :=
    congrArg Ledger.scopes (book.ledger_nameParameter name.text)
  rw [scopes]
  exact parameterNode_tally

theorem Names.tally {close : TokenKind} {seen : List String} {nodes : List Node}
    (h : Names close seen s nodes t) (numbering : List Numbering) :
    TallyAll features ⟨s.book.scopes, numbering⟩ (nodes.map .node) ⟨t.book.scopes, numbering⟩ := by
  induction h with
  | none => exact .nil
  | last => exact .single (parameter_tally numbering)
  | more _ _ _ _ ih => exact .cons (parameter_tally numbering) ih

theorem BlockParameters.tally {parameters : Node × Bool} (h : BlockParameters s parameters t)
    (numbering : List Numbering) :
    Tally features ⟨s.book.scopes, numbering⟩ parameters.1 ⟨t.book.scopes, numbering⟩ := by
  cases h with
  | bars => exact .intro rfl nofun .nil
  | none => exact noParametersNode_tally
  | list _ names _ =>
    cases names with
    | intro names => exact parametersNode_tally (names.tally numbering)

theorem ParenthesizedParameters.tally {parameters : Node × Bool}
    (h : ParenthesizedParameters s parameters t) (numbering : List Numbering) :
    Tally features ⟨s.book.scopes, numbering⟩ parameters.1 ⟨t.book.scopes, numbering⟩ := by
  cases h with
  | none => exact noParametersNode_tally
  | list _ names _ =>
    cases names with
    | intro names => exact parametersNode_tally (names.tally numbering)

theorem Names.numbering_eq {close : TokenKind} {seen : List String} {nodes : List Node}
    (h : Names close seen s nodes t) : t.book.numbering = s.book.numbering := by
  have named (book : Bookkeeping) (name : String) :
      (book.nameParameter name).numbering = book.numbering :=
    congrArg Ledger.numbering (book.ledger_nameParameter name)
  induction h with
  | none => rfl
  | last => exact named _ _
  | more _ _ _ _ ih => exact ih.trans (named _ _)

theorem BlockParameters.numbering_eq {parameters : Node × Bool}
    (h : BlockParameters s parameters t) : t.book.numbering = s.book.numbering := by
  cases h with
  | bars | none => rfl
  | list _ names _ =>
    cases names with
    | intro names => exact names.numbering_eq

theorem ParenthesizedParameters.numbering_eq {parameters : Node × Bool}
    (h : ParenthesizedParameters s parameters t) : t.book.numbering = s.book.numbering := by
  cases h with
  | none => rfl
  | list _ names _ =>
    cases names with
    | intro names => exact names.numbering_eq

end Parameters

/-- What a numbered parameter is to the parser. -/
theorem numberedUse?_spec {features : Features} {book : Bookkeeping} {name : String} {number : Nat}
    {ordinary : Bool} (use : numberedUse? features book name = some (number, ordinary)) :
    features.numberedParameters = true ∧ book.isLocal name = false ∧
      parameterNumber? name = some number ∧
      ∃ highest outer, book.numbering = .body highest ordinary :: outer := by
  unfold numberedUse? at use
  split at use
  · cases use
  · rename_i allowed
    split at use
    · rename_i highest _ outer named numbering
      cases use
      simp only [Bool.or_eq_true, Bool.not_eq_true', not_or, Bool.not_eq_false,
        Bool.not_eq_true] at allowed
      exact ⟨allowed.1, allowed.2, named, highest, outer, numbering⟩
    · cases use

section Bodies

variable {features : Features} {before : Ledger} {book opened inner : Bookkeeping}
  {body : List Node} {context : Flags}

/-- A block whose parameters and statements have been read, after its body has ended. -/
theorem closure_tally {target parameters : Node} {ordinary : Bool} {whole : Span}
    {first last : Token} (outside : Tally features before target book.ledger)
    (tally : Tally features (book.ledger.opened true (.body 0 ordinary)) parameters
      ⟨opened.scopes, .body 0 ordinary :: book.numbering⟩)
    (none : ordinary = false → opened.scopes = { inherits := true } :: book.scopes)
    (same : opened.numbering = book.numbering)
    (inside : TallyAll features (opened.openNumbering (.body 0 ordinary)).ledger (body.map .node)
      inner.ledger)
    (frame : inner.frame = (book.frame.opened book.scopes true).numbered (.body 0 ordinary)) :
    Tally features before
      (closureNode target parameters inner.numbering.head? body whole first last)
      (inner.endBody context).ledger := by
  have start : (opened.openNumbering (.body 0 ordinary)).ledger =
      ⟨opened.scopes, .body 0 ordinary :: book.numbering⟩ := by rw [← same]; rfl
  rw [start] at inside
  rw [Bookkeeping.ledger_endBody frame inside.uses]
  refine closureNode_tally outside tally (fun free => ?_) inside
  rw [none free]
  rfl

/-- A method or a class whose parameters and statements have been read, after its body has ended. -/
theorem definition_tally {kind : NodeKind} {first second : Child} {whole : Option Span}
    {fields : List (String × Option Span)} (opens : kind.scope? = some false)
    (other : kind ≠ .numblock) (outside : TallyAll features before [first] book.ledger)
    (parameters : TallyAll features (book.ledger.opened false .closed) [second]
      ⟨opened.scopes, .closed :: book.numbering⟩)
    (same : opened.numbering = .closed :: book.numbering)
    (inside : TallyAll features opened.ledger (body.map .node) inner.ledger)
    (frame : inner.frame = (book.frame.opened book.scopes false).numbered .closed) :
    Tally features before (.located kind [first, second, .ofOption (sequence body)] whole fields)
      (inner.endBody context).ledger := by
  have start : opened.ledger = ⟨opened.scopes, .closed :: book.numbering⟩ := by rw [← same]; rfl
  rw [start] at inside
  rw [Bookkeeping.ledger_endBody frame inside.uses]
  exact closed_tally opens other outside parameters inside

/-- A name that is a numbered parameter to the parser is one in the tree. -/
theorem numberedVariable_tally {name : Token} {number : Nat}
    (use : numberedUse? features book name.text = some (number, false)) :
    Tally features book.ledger (variableNode name) (book.useNumber number).ledger := by
  obtain ⟨enabled, hidden, named, highest, outer, numbering⟩ := numberedUse?_spec use
  have parameter : (variableNode name).parameter? book.ledger.scopes = some number := by
    rw [← named]
    exact if_neg (Bool.not_eq_true _ ▸ hidden)
  have after : (book.useNumber number).ledger =
      ⟨book.scopes, .body (max highest number) false :: outer⟩ := by
    simp [Bookkeeping.useNumber, numbering, Bookkeeping.ledger]
  rw [after]
  refine variableNode_tally ?_
  rw [parameter]
  refine ⟨?_, fun used mem => ?_⟩
  · simp [Bookkeeping.ledger, numbering, Numbering.raised]
  · obtain rfl := List.mem_singleton.1 mem
    exact ⟨parameterNumber?_pos named, enabled, highest, outer, numbering⟩

/-- A variable that is visible is no numbered parameter. -/
theorem localVariable_tally {name : Token} (found : book.isLocal name.text = true) :
    Tally features book.ledger (variableNode name) book.ledger := by
  have noParameter : (variableNode name).parameter? book.ledger.scopes = none := if_pos found
  refine variableNode_tally ?_
  rw [noParameter]
  exact .nil

end Bodies

/-! ### Phrases -/

/-- A phrase stands for nodes whose numbered parameters are counted. -/
def Phrase.Tallies (features : Features) (before : Ledger) :
    (phrase : Phrase) → phrase.Result → Ledger → Prop
  | .of (.statements _), nodes, after | .of (.arguments _), nodes, after
  | .of .entries, nodes, after | .of .clauses, nodes, after =>
    TallyAll features before (nodes.map .node) after
  | .of .expression, node, after | .of (.operators _), node, after
  | .of (.operatorsAfter _ _), node, after | .of .unary, node, after
  | .of (.callsAfter _), node, after | .of .pattern, node, after | .primary, node, after
  | .call _ _ _, node, after | .blockAfter _, node, after | .argument _, node, after
  | .entry _, node, after | .clause, node, after => Tally features before node after
  | .actuals, given, after => TallyAll features before (given.nodes.map .node) after

/-- The node that a phrase goes on from is counted already. -/
def Phrase.Begun (features : Features) (before now : Ledger) : Phrase → Prop
  | .of (.operatorsAfter _ node) | .of (.callsAfter node) | .blockAfter node
  | .call (some node) _ _ => Tally features before node now
  | _ => before = now

variable {features : Features} {s t : ParseState}

/-- Every numbered parameter that a phrase stands for is counted, and the ledger of the parser is
the one that a walk through the nodes finds. -/
theorem Derives.tallies {phrase : Phrase} {value : phrase.Result} {before : Ledger}
    (h : Derives features phrase s value t) (begun : phrase.Begun features before s.book.ledger) :
    phrase.Tallies features before value t.book.ledger := by
  induction h generalizing before with
  | noStatements | emptyParens | noActuals | noEntries | noClauses =>
    obtain rfl := begun
    exact .nil
  | lastStatement _ _ _ _ ih | lastArgument _ _ ih | lastEntry _ _ _ ih =>
    obtain rfl := begun
    exact .single (ih rfl)
  | moreStatements _ _ _ _ ih1 ih2 | moreArguments _ _ _ ih1 ih2 | moreEntries _ _ _ _ ih1 ih2
  | moreClauses _ _ ih1 ih2 =>
    obtain rfl := begun
    exact .cons (ih1 rfl) (ih2 rfl)
  | @assignment s _ name _ _ _ _ _ _ _ ih =>
    obtain rfl := begun
    have value : Tally features (s.book.declare name.text).ledger _ _ := ih rfl
    rw [Bookkeeping.ledger_declare] at value
    exact .intro rfl nofun (.skip rfl (.single value))
  | unassigned _ _ ih | plainArgument _ _ ih | valuePattern _ _ ih => exact ih begun
  | operators _ _ ih1 ih2 | chain _ _ _ _ ih1 ih2 =>
    obtain rfl := begun
    exact ih2 (ih1 rfl)
  | noOperator | noCall | noBlock => exact begun
  | operator _ _ _ _ _ ih1 ih2 => exact ih2 (operatorNode_tally begun (ih1 rfl))
  | negative _ _ _ value | integer _ value =>
    obtain rfl := begun
    exact .intro rfl nofun (.skip (Child.node?_integer? value) .nil)
  | minus _ _ _ ih | bang _ _ ih => exact signNode_tally (ih begun)
  | string | symbol =>
    obtain rfl := begun
    exact .intro rfl nofun (.skip rfl .nil)
  | constant =>
    obtain rfl := begun
    exact constantNode_tally
  | keyword value =>
    obtain rfl := begun
    exact keyword_tally value
  | numberedVariable _ _ use =>
    obtain rfl := begun
    exact numberedVariable_tally use
  | localVariable _ _ _ found =>
    obtain rfl := begun
    exact localVariable_tally found
  | adjacentCall _ _ _ ih | wordCall _ _ _ _ _ ih | parens _ _ _ _ _ ih
  | commandArguments _ _ _ ih =>
    obtain rfl := begun
    exact ih rfl
  | parenthesized _ _ _ ih | hashPattern _ _ _ ih =>
    obtain rfl := begun
    exact .intro rfl nofun (ih rfl)
  | lambda _ _ parameters _ _ h1 _ ih =>
    obtain rfl := begun
    exact closure_tally (.intro rfl nofun .nil) (parameters.tally _) parameters.scopes_eq
      parameters.numbering_eq (ih rfl)
      (h1.frame_eq.trans (congrArg (Frame.numbered · _) parameters.frame_eq))
  | method _ _ parameters h1 _ ih =>
    obtain rfl := begun
    exact definition_tally rfl nofun (.skip rfl .nil) (.single (parameters.tally _))
      parameters.numbering_eq (ih rfl) (h1.frame_eq.trans parameters.frame_eq)
  | classDefinition _ _ _ h1 _ ih =>
    obtain rfl := begun
    exact definition_tally rfl nofun (.single constantNode_tally) (.skip rfl .nil) rfl (ih rfl)
      h1.frame_eq
  | whileLoop _ _ _ _ _ _ ih1 ih2 =>
    obtain rfl := begun
    exact .intro rfl nofun (.cons (ih1 rfl) (sequence_tally (ih2 rfl)))
  | definedWord _ _ _ ih | definedParens _ _ _ _ ih =>
    obtain rfl := begun
    exact .intro rfl nofun (.single (ih rfl))
  | caseMatch _ _ _ _ _ _ ih1 ih2 =>
    obtain rfl := begun
    exact .intro rfl nofun (.cons (ih1 rfl) (TallyAll.append (ih2 rfl) (sequence_tally .nil)))
  | caseElse _ _ _ _ _ _ _ _ ih1 ih2 ih3 =>
    obtain rfl := begun
    exact .intro rfl nofun
      (.cons (ih1 rfl) (TallyAll.append (ih2 rfl) (sequence_tally (ih3 rfl))))
  | dotCall _ _ _ _ ih1 ih2 => exact ih2 (ih1 begun)
  | @call _ _ _ receiver _ _ _ _ _ _ ih1 ih2 =>
    refine ih2 ?_
    cases receiver with
    | some receiver => exact recordedCall_tally (.single begun) (ih1 rfl)
    | none =>
      obtain rfl := begun
      exact recordedCall_tally (.skip rfl .nil) (ih1 rfl)
  | @signedArgument first _ _ _ _ _ _ _ signs _ _ ih =>
    obtain rfl := begun
    cases first with
    | true | false => exact signedNode_tally signs (ih rfl)
  | block _ _ parameters h1 _ ih =>
    exact closure_tally begun (parameters.tally _) parameters.scopes_eq parameters.numbering_eq
      (ih rfl) (h1.frame_eq.trans (congrArg (Frame.numbered · _) parameters.frame_eq))
  | variablePattern _ binds =>
    obtain rfl := begun
    exact binds.tally
  | bareEntry _ _ binds =>
    obtain rfl := begun
    exact binds.tally
  | pairEntry _ _ _ ih =>
    obtain rfl := begun
    exact .intro rfl nofun
      (.cons (.intro rfl nofun (.skip rfl .nil)) (.single (ih rfl)))
  | clause _ _ same _ _ _ ih1 ih2 =>
    obtain rfl := begun
    subst same
    exact .intro rfl nofun (.cons (ih1 rfl) (.skip rfl (sequence_tally (ih2 rfl))))

end Grammar

/-- In an accepted source the numbered parameters of every body are counted, and every numbered
parameter belongs to one of them. -/
theorem Parser.numbers_counted {parser : Parser} {source : String} {tree : Node}
    (accepted : (parser.parse source).1 = .ok (some tree)) :
    (∀ visit ∈ tree.visits [{ inherits := false }],
        Counted parser.features visit.1 visit.2) ∧
      tree.numbers [{ inherits := false }] = [] := by
  obtain ⟨tokens, body, after, -, derived, root, -⟩ := Parser.program_of_accepted accepted
  have statements : TallyAll parser.features ⟨[{ inherits := false }], []⟩ (body.map .node)
      after.book.ledger := Derives.tallies derived rfl
  have tally := sequence_tally statements
  rw [← root] at tally
  refine ⟨fun visit mem => tally.counted visit (List.mem_append_left _ mem), ?_⟩
  refine List.eq_nil_iff_forall_not_mem.2 fun number mem => ?_
  obtain ⟨-, -, _, _, none⟩ := tally.uses.allowed number (List.mem_append_left _ mem)
  cases none

end Conformance.Dialect
