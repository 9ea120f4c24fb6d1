import Conformance.Proofs.Composition
import Conformance.Proofs.Receivers
import Conformance.Proofs.Renesting
import Conformance.Proofs.Words

/-! Loops, case expressions and definitions as arguments of a command. Each ends with a keyword of
its own, so that it is read there as it is alone, unless a `do` block stands in it that nothing
delimits: among the arguments of a command no word `do` opens a block. -/

namespace Conformance.Dialect

/-! ### Blocks that nothing delimits -/

namespace Edge

theorem foldl_enter_of_delimits {edges : List Edge}
    (delimits : ∃ edge ∈ edges, edge.delimits = true)
    (inside inside' : Bool) : edges.foldl enter inside = edges.foldl enter inside' := by
  induction edges generalizing inside inside' with
  | nil =>
    obtain ⟨_, mem, -⟩ := delimits
    cases mem
  | cons edge edges ih =>
    obtain ⟨found, mem, delimits⟩ := delimits
    obtain rfl | mem := List.mem_cons.1 mem
    · simp [enter, delimits]
    · exact ih ⟨found, mem, delimits⟩ _ _

theorem foldl_enter_of_bare {edges : List Edge} (bare : ∀ edge ∈ edges, edge.delimits = false) :
    edges.foldl enter true = true := by
  induction edges with
  | nil => rfl
  | cons edge edges ih =>
    obtain ⟨first, more⟩ := List.forall_mem_cons.1 bare
    rw [List.foldl_cons, show enter true edge = true by simp [enter, first]]
    exact ih more

end Edge

namespace Node

variable {source : String} {node : Node}

/-- There is a `do` block in a node that neither parentheses nor a body in it delimit. -/
def Exposes (source : String) (node : Node) : Prop :=
  ∃ indices edges target, node.trail? indices = some (edges, target) ∧
    target.isDoBlock source = true ∧ ∀ edge ∈ edges, edge.delimits = false

theorem Free.not_exposes (free : node.Free source true) : ¬ node.Exposes source := by
  rintro ⟨indices, edges, target, trail, block, bare⟩
  have inside := free indices edges target trail block
  rw [Edge.foldl_enter_of_bare bare] at inside
  cases inside

theorem Free.of_not_exposes {inside : Bool} (free : node.Free source inside)
    (delimited : ¬ node.Exposes source) : node.Free source true := by
  intro indices edges target trail block
  rw [← free indices edges target trail block]
  refine Edge.foldl_enter_of_delimits (by_contra fun bare => delimited ?_) _ _
  exact ⟨indices, edges, target, trail, block, by simpa using bare⟩

end Node

/-! ### Blocks in a source with more in front of it -/

section Moved

variable {source before : String} {node : Node}

theorem Node.isDoBlock_moved :
    (node.moved before.toList.length).isDoBlock (before ++ source) = node.isDoBlock source := by
  have target : (node.moved before.toList.length).allChildren.head?.bind Child.node? =
      (node.allChildren.head?.bind Child.node?).map (Node.moved before.toList.length) := by
    rw [allChildren_moved]
    cases node.allChildren with
    | nil => rfl
    | cons child more => exact node?_movedChild child
  simp only [isDoBlock, kind_moved, span?_moved, target, Option.any_map, Span.slice_append]

/-- An edge of a tree that stands later. -/
def Edge.moved (n : Nat) (edge : Edge) : Edge := { edge with parent := edge.parent.moved n }

theorem Edge.enter_moved (n : Nat) (inside : Bool) (edge : Edge) :
    Edge.enter inside (edge.moved n) = Edge.enter inside edge := by
  have operator : ((edge.parent.moved n).location?.bind fun location =>
      location.field? "operator").isNone =
        (edge.parent.location?.bind fun location => location.field? "operator").isNone := by
    rw [Node.location?_moved]
    cases edge.parent.location? with
    | none => rfl
    | some location => simp [Location.field?_moved]
  unfold enter delimits forbids Edge.moved
  simp only [Node.kind_moved, Node.span?_moved, Option.isSome_map, Option.isNone_map, operator]

theorem Node.trail?_moved (n : Nat) (node : Node) (indices : List Nat) :
    (node.moved n).trail? indices =
      (node.trail? indices).map fun (edges, target) =>
        (edges.map (Edge.moved n), target.moved n) := by
  induction indices generalizing node with
  | nil => rfl
  | cons index more ih =>
    unfold trail?
    rw [allChildren_moved, List.getElem?_map]
    cases node.allChildren[index]? with
    | none => rfl
    | some child =>
      cases child with
      | node child =>
        simp only [Option.map_some, movedChild_node, ih child, Option.map_map]
        rfl
      | _ => rfl

/-- A tree that stands later is free where it was. -/
theorem Node.free_moved (before : String) {inside : Bool} :
    (node.moved before.toList.length).Free (before ++ source) inside ↔ node.Free source inside := by
  have entered (edges : List Edge) :
      (edges.map (Edge.moved before.toList.length)).foldl Edge.enter inside =
        edges.foldl Edge.enter inside := by
    rw [List.foldl_map]
    exact congrArg (fun step => edges.foldl step inside)
      (funext₂ fun inside edge => Edge.enter_moved _ inside edge)
  constructor
  · intro free indices edges target trail block
    rw [← entered]
    refine free indices _ (target.moved before.toList.length) ?_ (isDoBlock_moved.trans block)
    rw [trail?_moved, trail]
    rfl
  · intro free indices edges target trail block
    rw [trail?_moved] at trail
    obtain ⟨⟨edges', target'⟩, trail', same⟩ := Option.map_eq_some_iff.1 trail
    cases same
    rw [entered]
    exact free indices edges' target' trail' (isDoBlock_moved.symm.trans block)

end Moved

/-! ### The tokens -/

section Tokens

open Grammar Text

variable {source : String} {tokens : List Token} {c : Char} {rest : List Char}

/-- A source that starts with neither a blank nor a comment nor a terminator starts with a token
that is no terminator. -/
theorem head?_placed (h : placed (c :: rest) = .ok tokens) (visible : isLineBlank c = false)
    (other : c ∉ ['\n', ';', '#']) :
    ∀ token ∈ tokens.head?, token.kind ≠ .newline ∧ token.kind ≠ .semicolon := by
  cases found : longestMatch (c :: rest) with
  | none =>
    have unread := (place_ok h).1
    unfold lexemes at unread
    split at unread
    · cases unread
    · rename_i matched
      cases found.symm.trans matched
  | some best =>
    obtain ⟨kind, length⟩ := best
    have begins := begins_of_longestMatch found
    unfold placed at h
    rw [lexemes_of_longestMatch (by simp) found] at h
    obtain ⟨passed, -⟩ | ⟨kind, _, token, -, rfl⟩ := place_cons_ok h
    · obtain rfl | rfl : kind = .blanks ∨ kind = .comment := passed
      · cases visible.symm.trans begins
      · exact absurd (beq_iff_eq.1 begins) (by rintro rfl; simp at other)
    · obtain rfl : _ = LexemeKind.token kind := token
      rintro _ ⟨⟩
      constructor
      · rintro (rfl : kind = .newline)
        have same : '\n' = c := Option.some.inj (beq_iff_eq.1 begins)
        simp [← same] at other
      · rintro (rfl : kind = .semicolon)
        have same : ';' = c := Option.some.inj (beq_iff_eq.1 begins)
        simp [← same] at other

/-- The name, the integer and the comma in front of an argument. -/
def commandTokens : List Token :=
  [⟨.identifier, .ofLength 0 1, "f", true⟩, ⟨.integer, .ofLength 2 1, "1", true⟩,
    ⟨.comma, .ofLength 3 1, ",", false⟩]

/-- The lexemes of a source with the start of a command in front of it. -/
theorem lexemes_command (visible : isLineBlank c = false) :
    lexemes ('f' :: ' ' :: '1' :: ',' :: ' ' :: c :: rest) =
      ([⟨.token .identifier, ['f']⟩, ⟨.blanks, [' ']⟩, ⟨.token .integer, ['1']⟩,
          ⟨.token .comma, [',']⟩, ⟨.blanks, [' ']⟩] ++ (lexemes (c :: rest)).1,
        (lexemes (c :: rest)).2) := by
  have word : Operand "f" .identifier := .identifier (by decide) (by decide)
  have digit : Operand "1" .integer := .integer (by decide)
  have comma : longestMatch [','] = some (.token .comma, 1) := by decide
  have name := word.lexemes_append (by decide : isNameChar ' ' = false) (by decide) (by decide)
    ('1' :: ',' :: ' ' :: c :: rest)
  have blank := lexemes_blank (by decide : isLineBlank '1' = false) (',' :: ' ' :: c :: rest)
  have number := digit.lexemes_append (by decide : isNameChar ',' = false) (by decide) nofun
    (' ' :: c :: rest)
  have parts : Parts ',' [] ' ' := parts_sign (by decide) (.inr rfl)
  have sign := lexemes_append parts comma (c :: rest)
  have blank' := lexemes_blank visible rest
  simp only [List.cons_append, List.nil_append, show "f".toList = ['f'] from rfl,
    show "1".toList = ['1'] from rfl] at name number sign
  rw [name, blank, number, sign, blank']
  rfl

/-- The tokens of a source with the start of a command in front of it. -/
theorem placed_command (h : placed source.toList = .ok tokens) (split : source.toList = c :: rest)
    (visible : isLineBlank c = false) :
    placed ("f 1, " ++ source).toList = .ok (commandTokens ++ tokens.map (Token.moved 5)) := by
  have text : ("f 1, " ++ source).toList = 'f' :: ' ' :: '1' :: ',' :: ' ' :: c :: rest := by
    simp [split]
  have later : place (0 + 5) true (lexemes (c :: rest)).2 (lexemes (c :: rest)).1 =
      .ok (tokens.map (Token.moved 5)) := place_moved (split ▸ h)
  rw [text, placed, lexemes_command visible]
  simp [place, Except.map, later, commandTokens]

end Tokens

/-! ### What ends with a keyword of its own -/

/-- The kinds of nodes of what ends with a keyword of its own. -/
def NodeKind.isConstruct : NodeKind → Bool
  | .whileLoop | .caseMatch | .method | .classDef => true
  | _ => false

namespace Grammar

open ParseState

variable {features : Features} {s t : ParseState} {node : Node}

theorem kind?_ne_of_startsConstruct {kind : TokenKind}
    (starts : s.kind?.any startsConstruct = true) (other : startsConstruct kind = false) :
    s.kind? ≠ some kind := by
  intro here
  rw [here, Option.any_some, other] at starts
  cases starts

theorem Breaks.kind?_ne {kind : TokenKind} (breaks : s.Breaks)
    (other : kind ∉ [TokenKind.newline, .semicolon]) : s.kind? ≠ some kind :=
  fun here => other (breaks kind here)

/-- An expression that stands for such a node is that and nothing more. -/
theorem Derives.construct (h : Derives features (.of .expression) s node t)
    (construct : node.kind.isConstruct = true) :
    Derives features .primary s node t ∧ s.kind?.any startsConstruct = true := by
  have primary : node.kind.isPrimary = true := by
    revert construct
    cases node.kind <;> simp [NodeKind.isConstruct, NodeKind.isPrimary]
  obtain found | negative := h.alone primary
  · refine ⟨found, ?_⟩
    cases found with
    | method keyword | classDefinition keyword | whileLoop keyword | caseMatch _ keyword
    | caseElse _ keyword => simp [keyword.kind?_eq, startsConstruct]
    | @keyword _ kind _ _ _ value _ => cases kind <;> cases value <;> cases construct
    | adjacentCall _ _ called | wordCall _ _ _ _ called =>
      exact absurd primary (by simp [show _ = false from called.alone])
    | lambda => exact absurd primary (by simp [closureNode_isPrimary])
    | _ => cases construct
  · cases negative
    cases construct

/-- What ends with a keyword of its own, at the end of a statement. -/
theorem Derives.expression_of_construct (h : Derives features .primary s node t)
    (starts : s.kind?.any startsConstruct = true) (breaks : t.Breaks) :
    Derives features (.of .expression) s node t := by
  have chain : Derives features (.of .unary) s node t :=
    .chain (kind?_ne_of_startsConstruct starts rfl) (kind?_ne_of_startsConstruct starts rfl) h
      (.noCall (Breaks.kind?_ne breaks (by decide)))
  refine chain.expression_of_unary ?_ fun kind here => ?_
  · rintro ⟨_, _, _, next, -⟩
    exact kind?_ne_of_startsConstruct starts rfl next.kind?_eq
  · obtain rfl | rfl : kind = .newline ∨ kind = .semicolon := by simpa using breaks kind here
    · rfl
    · rfl

/-! ### In the arguments of a command -/

theorem integer?_one : Child.integer? "1".toList = some (.int 1) := by
  have value : integerValue? "1".toList = some 1 := by decide
  rw [Child.integer?, value]
  rfl

/-- The integer in front of the argument. -/
theorem derives_firstArgument {one comma : Token} {value : Child} {r : List Token} {first : Bool}
    (next : s.rest = one :: comma :: r) (isInteger : one.kind = .integer)
    (read : Child.integer? one.text.toList = some value) (isComma : comma.kind = .comma) :
    Derives features (.argument first) s
      (.located .int [value] (some one.span) [("operator", none)]) (s.leaving (comma :: r)) := by
  have after : (s.leaving (comma :: r)).kind? = some .comma := by simp [kind?, isComma]
  have here : s.kind? = some .integer := by simp [kind?, next, isInteger]
  have literal : LiteralToken one (.located .int [value] (some one.span) [("operator", none)]) :=
    .integer isInteger read
  refine .plainArgument (by rw [here]; rfl)
    (literal.derives_chain next (.noCall (by simp [after])) fun kind mem => ?_)
  cases after.symm.trans mem
  rfl

theorem startsCommand_integer {one : Token} {r : List Token} (spaced : one.spaced = true)
    (isInteger : one.kind = .integer) : startsCommand features (one :: r) = true := by
  simp [startsCommand, spaced, isInteger, startsArgument]

/-- The state before the argument. -/
def argumentStart (tokens : List Token) : ParseState :=
  (startOf tokens).nested (·.pushCmdarg true)

theorem numberedUse?_of_other {book : Bookkeeping} {name : String}
    (other : parameterNumber? name = none) : numberedUse? features book name = none := by
  unfold numberedUse?
  rw [other]
  split <;> rfl

theorem argumentSign?_of_startsConstruct (starts : s.kind?.any startsConstruct = true) :
    argumentSign? s.kind? = none := by
  revert starts
  cases s.kind? with
  | none => exact nofun
  | some kind => cases kind <;> simp [startsConstruct, argumentSign?]

/-- A program of a command with what ends with a keyword of its own as its second argument. -/
theorem program_command {tokens : List Token}
    (argument : Derives features .primary (argumentStart tokens) node t)
    (starts : (argumentStart tokens).kind?.any startsConstruct = true)
    (done : t.pastTerminators.rest = []) :
    ∃ call one final, Program features (commandTokens ++ tokens) [call] final ∧
      call.kind = .send ∧ call.allChildren = [.nil, .sym "f", .node one, .node node] ∧
      one.kind = .int ∧ one.allChildren = [.int 1] := by
  let f : Token := ⟨.identifier, .ofLength 0 1, "f", true⟩
  let one : Token := ⟨.integer, .ofLength 2 1, "1", true⟩
  let comma : Token := ⟨.comma, .ofLength 3 1, ",", false⟩
  let s := startOf (commandTokens ++ tokens)
  let u := (s.leaving (one :: comma :: tokens)).nested (·.pushCmdarg true)
  let number : Node := .located .int [.int 1] (some one.span) [("operator", none)]
  have breaks : t.Breaks := breaks_of_pastTerminators done
  have first : Derives features (.argument true) u number (u.leaving (comma :: tokens)) :=
    derives_firstArgument rfl rfl integer?_one rfl
  have second : Derives features (.argument false) (argumentStart tokens) node t :=
    .plainArgument (argumentSign?_of_startsConstruct starts)
      (argument.expression_of_construct starts breaks)
  have between : (u.leaving tokens).pastNewlines = argumentStart tokens :=
    pastNewlines_eq (kind?_ne_of_startsConstruct starts rfl)
  have both : Derives features (.of (.arguments true)) u [number, node] t :=
    .moreArguments first ⟨rfl, rfl⟩
      (between ▸ .lastArgument second (Breaks.kind?_ne breaks (by decide)))
  have actuals : Derives features .actuals (s.leaving (one :: comma :: tokens))
      { nodes := [number, node], last := some node.range } (t.nested .popCmdarg) :=
    .commandArguments (fun ⟨_, _, next, _⟩ => nomatch next.kind?_eq)
      (startsCommand_integer rfl rfl) both
  have noBlock : blockClose? (t.nested .popCmdarg) = none := by
    unfold blockClose?
    split
    · rename_i brace
      exact absurd brace (Breaks.kind?_ne breaks (by decide))
    · rename_i word
      exact absurd word (Breaks.kind?_ne breaks (by decide))
    · rfl
  have call : Derives features .primary s
      (recordedCall .clear none none f { nodes := [number, node], last := some node.range })
      (t.nested .popCmdarg) :=
    .wordCall ⟨rfl, rfl⟩ (fun ⟨_, _, next, _⟩ => nomatch next.kind?_eq)
      (numberedUse?_of_other (by decide)) rfl (.call actuals (.noBlock noBlock))
  have chain : Derives features (.of .unary) s _ (t.nested .popCmdarg) :=
    .chain nofun nofun call (.noCall (Breaks.kind?_ne breaks (by decide)))
  have expression := chain.expression_of_unary
    (by rintro ⟨_, _, _, next, assign⟩; cases next.eq; cases assign)
    (fun kind here => by
      obtain rfl | rfl : kind = .newline ∨ kind = .semicolon := by simpa using breaks kind here
      · rfl
      · rfl)
  refine ⟨_, number, _, program_single_iff.2 ⟨_, expression, rfl, done⟩, ?_⟩
  rw [recordedCall_eq]
  exact ⟨rfl, rfl, rfl, rfl⟩

/-! ### What the arguments of a command are read from -/

/-- An expression that starts with no sign and no assignment starts with a primary one. -/
theorem Derives.first (h : Derives features (.of .expression) s node t) (unassigned : ¬ s.Assigns)
    (noMinus : s.kind? ≠ some .minus) (noBang : s.kind? ≠ some .bang) :
    ∃ receiver u, Derives features .primary s receiver u := by
  cases h with
  | assignment name operator => exact absurd (.intro name operator) unassigned
  | unassigned _ h =>
    cases h with
    | operators h =>
      cases h with
      | negative sign | minus sign => exact absurd sign.kind?_eq noMinus
      | bang sign => exact absurd sign.kind?_eq noBang
      | chain _ _ first => exact ⟨_, _, first⟩

/-- A name that is no variable, with arguments that follow a blank. -/
theorem Derives.commandArguments_of_primary {f : Token} {r : List Token}
    (h : Derives features .primary s node t) (next : s.Next .identifier f r)
    (apart : ¬ (s.leaving r).Adjacent .lparen)
    (unnumbered : numberedUse? features s.book f.text = none)
    (unknown : s.book.isLocal f.text = false) (starts : startsCommand features r = true) :
    ∃ nodes u, Derives features (.of (.arguments true))
      ((s.leaving r).nested (·.pushCmdarg true)) nodes u := by
  cases h with
  | integer token | string token | symbol token | constant token | parenthesized token
  | method token | classDefinition token | whileLoop token | definedWord token
  | definedParens token | lambda _ token | caseMatch _ token | caseElse _ token =>
    cases token.kind?_eq.symm.trans next.kind?_eq
  | keyword value token =>
    cases token.kind?_eq.symm.trans next.kind?_eq
    cases value
  | adjacentCall token adjacent =>
    obtain ⟨rfl, rfl⟩ := List.cons.inj (token.eq.symm.trans next.eq)
    exact absurd adjacent apart
  | numberedVariable token _ use =>
    obtain ⟨rfl, rfl⟩ := List.cons.inj (token.eq.symm.trans next.eq)
    cases unnumbered.symm.trans use
  | localVariable token _ _ known =>
    obtain ⟨rfl, rfl⟩ := List.cons.inj (token.eq.symm.trans next.eq)
    cases unknown.symm.trans known
  | wordCall token _ _ _ called =>
    obtain ⟨rfl, rfl⟩ := List.cons.inj (token.eq.symm.trans next.eq)
    cases called with
    | call actuals =>
      cases actuals with
      | emptyParens first unspaced | parens first unspaced =>
        exact absurd ⟨_, _, first, unspaced⟩ apart
      | commandArguments _ _ nodes => exact ⟨_, _, nodes⟩
      | noActuals _ none => cases starts.symm.trans none

/-- A program has a first statement, where its tokens are no terminators. -/
theorem Program.first {tokens : List Token} {body : List Node} {after : ParseState}
    (h : Program features tokens body after) {token : Token} (head : tokens.head? = some token)
    (visible : token.kind ≠ .newline ∧ token.kind ≠ .semicolon) :
    ∃ node t, Derives features (.of .expression) (startOf tokens) node t := by
  have kind : (startOf tokens).kind? = some token.kind := congrArg (Option.map Token.kind) head
  have here : (startOf tokens).pastTerminators = startOf tokens :=
    pastTerminators_eq (by simp [kind, visible.1]) (by simp [kind, visible.2])
  unfold Program at h
  generalize start : startOf tokens = s at here ⊢
  rw [show ({ rest := tokens } : ParseState).keeping (·.openScope false) = s from start] at h
  cases h with
  | noStatements stop =>
    rw [here, ← start] at stop
    exact nomatch stop token.kind kind
  | lastStatement _ first | moreStatements _ first => exact ⟨_, _, here ▸ first⟩

/-- In a program of the command, a primary expression is read where the second argument starts. -/
theorem primary_of_program {tokens : List Token} {body : List Node} {after : ParseState}
    (program : Program features (commandTokens ++ tokens) body after)
    (starts : (argumentStart tokens).kind?.any startsConstruct = true) :
    ∃ node t, Derives features .primary (argumentStart tokens) node t := by
  let one : Token := ⟨.integer, .ofLength 2 1, "1", true⟩
  let comma : Token := ⟨.comma, .ofLength 3 1, ",", false⟩
  let s := startOf (commandTokens ++ tokens)
  let u := (s.leaving (one :: comma :: tokens)).nested (·.pushCmdarg true)
  obtain ⟨_, _, statement⟩ := program.first rfl (by decide)
  obtain ⟨_, _, called⟩ := statement.first
    (by rintro ⟨_, _, _, next, assign⟩; cases next.eq; cases assign) nofun nofun
  obtain ⟨nodes, _, arguments⟩ := called.commandArguments_of_primary (s := s) ⟨rfl, rfl⟩
    (fun ⟨_, _, next, _⟩ => nomatch next.kind?_eq) (numberedUse?_of_other (by decide)) rfl
    (startsCommand_integer rfl rfl)
  have number : Derives features (.argument true) u _ (u.leaving (comma :: tokens)) :=
    derives_firstArgument rfl rfl integer?_one rfl
  have between : (u.leaving tokens).pastNewlines = argumentStart tokens :=
    pastNewlines_eq (kind?_ne_of_startsConstruct starts rfl)
  have second : ∃ node t, Derives features (.argument false) (argumentStart tokens) node t := by
    cases arguments with
    | lastArgument first noComma =>
      obtain ⟨-, rfl⟩ := number.unique first
      exact absurd rfl noComma
    | moreArguments first next more =>
      obtain ⟨-, rfl⟩ := number.unique first
      obtain ⟨rfl, rfl⟩ := List.cons.inj next.eq
      have more : Derives features (.of (.arguments false)) (argumentStart tokens) _ _ :=
        between ▸ more
      cases more with
      | lastArgument node | moreArguments node => exact ⟨_, _, node⟩
  obtain ⟨_, _, argument⟩ := second
  cases argument with
  | signedArgument sign operator =>
    rw [← operator.kind?_eq, argumentSign?_of_startsConstruct starts] at sign
    cases sign
  | plainArgument _ expression =>
    refine expression.first ?_ (kind?_ne_of_startsConstruct starts rfl)
      (kind?_ne_of_startsConstruct starts rfl)
    rintro ⟨_, _, _, next, -⟩
    exact kind?_ne_of_startsConstruct starts rfl next.kind?_eq

/-! ### Methods and classes -/

/-- In a method or a class every `do` block stands in the body. -/
theorem Derives.definition_free {source : String} (h : Derives features .primary s node t)
    (definition : node.kind = .method ∨ node.kind = .classDef) (braced : Braced source s.rest) :
    node.Free source true := by
  have primary : node.kind.isPrimary = true := by
    obtain kind | kind := definition <;> rw [kind] <;> rfl
  cases h with
  | method keyword name parameters body =>
    have past := (keyword.past.on name.past).on parameters.past
    have hidden := congrArg Nesting.inside parameters.nesting_eq
    have inner := Derives.free body hidden (braced.on past) nofun
    refine scope_free (by simp) nofun nofun ?_ inner
    rintro _ ⟨⟩
    exact parameters.free
  | classDefinition keyword _ name body =>
    have inner := Derives.free body rfl (braced.on (keyword.past.on name.past)) nofun
    refine scope_free (by simp) nofun ?_ nofun inner
    rintro _ ⟨⟩
    exact Node.free_of_plain rfl nofun
  | @keyword _ kind _ _ _ value =>
    cases kind <;> cases value <;> obtain kind | kind := definition <;> cases kind
  | adjacentCall _ _ called | wordCall _ _ _ _ called =>
    exact absurd primary (by simp [show _ = false from called.alone])
  | lambda => exact absurd primary (by simp [closureNode_isPrimary])
  | _ => obtain kind | kind := definition <;> cases kind

/-- The tokens of a source write the word `do` as such. -/
theorem spelled_placed {source : String} {tokens : List Token}
    (h : placed source.toList = .ok tokens) : SpellsDo source tokens := by
  intro token mem kind
  have spelled : (TokenKind.kwDo, String.ofList token.text.toList) ∈ TokenKind.fixedTexts :=
    (placed_lawful h token mem).spells_as kind
  rw [String.ofList_toList] at spelled
  rw [placed_slice h token mem]
  simpa [TokenKind.fixedTexts] using spelled

end Grammar

namespace Parser

open Grammar Text ParseState

/-- A source that stands for what ends with a keyword of its own is that from its first token on. -/
theorem construct_of_accepted {parser : Parser} {source : String} {tree : Node}
    (accepted : (parser.parse source).1 = .ok (some tree))
    (construct : tree.kind.isConstruct = true)
    (trimmed : ∀ c ∈ source.toList.head?, isLineBlank c = false ∧ c ∉ ['\n', ';', '#']) :
    ∃ tokens s, placed source.toList = .ok tokens ∧
      placed ("f 1, " ++ source).toList = .ok (commandTokens ++ tokens.map (Token.moved 5)) ∧
      Derives parser.features .primary (startOf tokens) tree s ∧
      (startOf tokens).kind?.any startsConstruct = true ∧ s.pastTerminators.rest = [] := by
  obtain ⟨tokens, body, after, tokenized, derived, same, -⟩ := program_of_accepted accepted
  obtain rfl : body = [tree] := eq_singleton_of_sequence same.symm (by
    intro begin
    rw [begin] at construct
    cases construct)
  obtain ⟨s, expression, rfl, done⟩ := program_single_iff.1 derived
  cases split : source.toList with
  | nil =>
    have empty := tokenized
    rw [split, placed, lexemes_nil] at empty
    rw [(place_nil_ok empty).2] at expression
    exact absurd nofun expression.not_stops
  | cons c rest =>
    obtain ⟨unblank, other⟩ := trimmed c (by simp [split])
    have visible := head?_placed (split ▸ tokenized) unblank other
    have here : (startOf tokens).pastTerminators = startOf tokens := by
      refine pastTerminators_eq (fun same => ?_) fun same => ?_
      · obtain ⟨token, head, kind⟩ := Option.map_eq_some_iff.1 same
        exact (visible token head).1 kind
      · obtain ⟨token, head, kind⟩ := Option.map_eq_some_iff.1 same
        exact (visible token head).2 kind
    rw [here] at expression
    obtain ⟨primary, starts⟩ := expression.construct construct
    exact ⟨tokens, s, split ▸ tokenized, placed_command tokenized split unblank, primary, starts,
      done⟩

/-- A loop, a case expression, a method or a class that is a whole source is read in the same way as
an argument of a command, unless a `do` block stands in it outside all parentheses and bodies; with
such a block it may not be an argument. In a method or a class no `do` block stands so. -/
theorem construct_as_argument {parser : Parser} {source : String} {tree : Node}
    (accepted : (parser.parse source).1 = .ok (some tree))
    (construct : tree.kind.isConstruct = true)
    (trimmed : ∀ c ∈ source.toList.head?, isLineBlank c = false ∧ c ∉ ['\n', ';', '#']) :
    (¬ tree.Exposes source → ∃ call one,
      (parser.parse ("f 1, " ++ source)).1 = .ok (some call) ∧ call.kind = .send ∧
        call.allChildren = [.nil, .sym "f", .node one, .node (tree.moved 5)] ∧
        one.kind = .int ∧ one.allChildren = [.int 1]) ∧
    (tree.Exposes source → ∀ found, (parser.parse ("f 1, " ++ source)).1 ≠ .ok found) ∧
    (tree.kind = .method ∨ tree.kind = .classDef → ¬ tree.Exposes source) := by
  obtain ⟨tokens, s, tokenized, both, primary, starts, done⟩ :=
    construct_of_accepted accepted construct trimmed
  let moved := tokens.map (Token.moved 5)
  let e : Surroundings := { shift := 5, breaks := by simp }
  have start : (startOf tokens).amid e = startOf moved := by
    simp [amid, Surroundings.tokens, e, startOf, moved, keeping]
  have later : Derives parser.features .primary (startOf moved) (tree.moved 5) (s.amid e) :=
    start ▸ primary.amid ⟨trivial, trivial, trivial, present_placed tokenized⟩
  have starts' : (startOf moved).kind?.any startsConstruct = true := by
    rw [← start, kind?_amid_of_apart fun _ => rfl]
    exact starts
  have spelled : SpellsDo ("f 1, " ++ source) moved := fun token mem =>
    spelled_placed both token (List.mem_append_right _ mem)
  have free_iff : (tree.moved 5).Free ("f 1, " ++ source) true ↔ tree.Free source true :=
    Node.free_moved "f 1, "
  refine ⟨fun delimited => ?_, fun exposes found accepted' => ?_, fun definition => ?_⟩
  · have free : tree.Free source true :=
      (Derives.free primary rfl (braced_placed tokenized)
        (List.forall_mem_nil _)).of_not_exposes delimited
    have argument := later.under (n := { cmdarg := [true] })
      ⟨rfl, spelled, trivial, fun _ _ => free_iff.2 free, fun _ out => absurd out (by decide)⟩
    have done' : (s.amid e).pastTerminators.rest = [] := by
      rw [← amid_pastTerminators fun _ => rfl]
      simp [amid, Surroundings.tokens, done, e]
    obtain ⟨call, one, after, program, shape⟩ := program_command argument starts' done'
    exact ⟨call, one, congrArg Prod.fst (parse_of_program both program), shape⟩
  · obtain ⟨_, body, after, both', program, -⟩ := program_of_accepted accepted'
    cases both.symm.trans both'
    obtain ⟨node, t, argument⟩ := primary_of_program program starts'
    have alone := argument.under (n := {})
      ⟨rfl, spelled, trivial, fun out => absurd out (by decide),
        fun shut => Bool.noConfusion (starts'.symm.trans shut)⟩
    obtain ⟨rfl, -⟩ := later.unique alone
    have braced : Braced ("f 1, " ++ source) moved := fun token mem =>
      braced_placed both token (List.mem_append_right _ mem)
    have free : (tree.moved 5).Free ("f 1, " ++ source) true :=
      Derives.free argument rfl braced (List.forall_mem_nil _)
    exact (free_iff.1 free).not_exposes exposes
  · exact (primary.definition_free definition (braced_placed tokenized)).not_exposes

/-- A block in the body of a method does not matter; in the body of a loop it does. -/
theorem construct_as_argument_blocks :
    (∃ tree call one, (Parser.newest.parse "def m\nfoo do end\nend").1 = .ok (some tree) ∧
      (Parser.newest.parse ("f 1, " ++ "def m\nfoo do end\nend")).1 = .ok (some call) ∧
      call.allChildren = [.nil, .sym "f", .node one, .node (tree.moved 5)]) ∧
    ∃ tree, (Parser.newest.parse "while x\nfoo do end\nend").1 = .ok (some tree) ∧
      tree.Exposes "while x\nfoo do end\nend" ∧
      ∀ found, (Parser.newest.parse ("f 1, " ++ "while x\nfoo do end\nend")).1 ≠ .ok found := by
  have found : (Parser.newest.parse "def m\nfoo do end\nend").1.toOption.join.any
      (·.kind == .method) = true := by decide +kernel
  have found' : (Parser.newest.parse "while x\nfoo do end\nend").1.toOption.join.any
      (fun tree => tree.kind == .whileLoop && (tree.trail? [1]).any fun reached =>
        reached.2.isDoBlock "while x\nfoo do end\nend" &&
          reached.1.all fun edge => !edge.delimits) = true := by decide +kernel
  obtain ⟨tree, accepted, kind⟩ := Parser.accepted_of_any found
  obtain ⟨tree', accepted', shape⟩ := Parser.accepted_of_any found'
  simp only [Bool.and_eq_true, beq_iff_eq, Option.any_eq_true, List.all_eq_true,
    Bool.not_eq_true'] at kind shape
  obtain ⟨kind', ⟨edges, block⟩, trail, isDoBlock, bare⟩ := shape
  have exposes : tree'.Exposes "while x\nfoo do end\nend" :=
    ⟨[1], edges, block, trail, isDoBlock, bare⟩
  have method := construct_as_argument accepted (by rw [kind]; rfl) (by rintro _ ⟨⟩; decide)
  have loop := construct_as_argument accepted' (by rw [kind']; rfl) (by rintro _ ⟨⟩; decide)
  obtain ⟨call, one, accepted'', -, children, -⟩ := method.1 (method.2.2 (.inl kind))
  exact ⟨⟨tree, call, one, accepted, accepted'', children⟩, tree', accepted', exposes,
    loop.2.1 exposes⟩

/-- A loop with a block in its body is no argument of a command, although it is a whole source with
nothing around it. -/
theorem loop_not_argument :
    (∃ tree, (Parser.newest.parse "while x\nfoo do end\nend").1 = .ok (some tree) ∧
      tree.kind = .whileLoop) ∧
    ∀ found, (Parser.newest.parse ("f 1, " ++ "while x\nfoo do end\nend")).1 ≠ .ok found := by
  have found : (Parser.newest.parse "while x\nfoo do end\nend").1.toOption.join.any
      (·.kind == .whileLoop) = true := by decide +kernel
  have rejected : (Parser.newest.parse
      ("f 1, " ++ "while x\nfoo do end\nend")).1.toOption.isNone = true := by decide +kernel
  obtain ⟨tree, accepted, kind⟩ := Parser.accepted_of_any found
  refine ⟨⟨tree, accepted, beq_iff_eq.1 kind⟩, fun tree accepted => ?_⟩
  rw [accepted] at rejected
  cases rejected

end Parser

end Conformance.Dialect
