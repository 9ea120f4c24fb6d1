import Conformance.Proofs.Adequacy
import Conformance.Proofs.Consumption

/-! What the rules of inference derive, the parser reads: in every depth that leaves eight levels
for each token, a phrase with a derivation is what its step yields. -/

namespace Conformance.Dialect

/-- What follows does not add to the count. -/
theorem Past.on {j k : Nat} {a b c : List Token} (h1 : Past j a b) (h2 : Past k b c) :
    Past j a c := (h1.trans h2).weaken (Nat.le_add_right _ _)

namespace Grammar

open Parse

variable {setting : Setting} {s t : ParseState}

/-! ### Rules without constructs in them -/

theorem Names.yields {close : TokenKind} {seen : List String} {nodes : List Node} {depth : Nat}
    (h : Names close seen s nodes t) (other : close ≠ .identifier) (room : s.rest.length < depth) :
    Yields (parameterNames close seen depth) setting s nodes t := by
  induction h generalizing depth with
  | none closes =>
    obtain ⟨depth, rfl⟩ := Nat.exists_eq_add_one_of_ne_zero (Nat.ne_zero_of_lt room)
    rw [parameterNames, yields_at?_bind, if_pos (beq_iff_eq.2 closes)]
    exact yields_pure.2 ⟨rfl, rfl⟩
  | last first fresh noComma =>
    obtain ⟨depth, rfl⟩ := Nat.exists_eq_add_one_of_ne_zero (Nat.ne_zero_of_lt room)
    rw [parameterNames, yields_at?_bind, if_neg (by simpa [first.kind?_eq] using other.symm)]
    refine .expect first (yields_unless_rejected.2 ⟨mayDeclare_iff.2 fresh, ?_⟩)
    exact .eat (.none noComma) (yields_pure.2 ⟨rfl, rfl⟩)
  | @more _ _ _ _ _ _ r2 _ first fresh comma _ ih =>
    obtain ⟨depth, rfl⟩ := Nat.exists_eq_add_one_of_ne_zero (Nat.ne_zero_of_lt room)
    rw [parameterNames, yields_at?_bind, if_neg (by simpa [first.kind?_eq] using other.symm)]
    refine .expect first (yields_unless_rejected.2 ⟨mayDeclare_iff.2 fresh, ?_⟩)
    refine .eat (.some ⟨comma.eq, comma.kind_eq⟩) ?_
    have shorter : r2.length < depth := by
      have read := (first.past.on comma.past).1
      omega
    simp only [beq_iff_eq]
    exact .bind (ih shorter) (yields_pure.2 ⟨rfl, rfl⟩)

theorem ParameterList.yields {close : TokenKind} {nodes : List Node}
    (h : ParameterList close s nodes t) (other : close ≠ .identifier) :
    Yields (within [(.inArgdef, true)] (parameterList close)) setting s nodes t := by
  cases h with
  | intro names =>
    refine yields_within.2 ⟨_, ?_, rfl⟩
    rw [parameterList, yields_keep_bind, yields_get_bind]
    exact .bind (names.yields other (Nat.lt_succ_self _))
      (yields_keep_bind.2 (yields_pure.2 ⟨rfl, rfl⟩))

theorem BlockParameters.yields {parameters : Node × Bool}
    (h : BlockParameters s parameters t) : Yields blockParameters setting s parameters t := by
  cases h with
  | bars bars => exact .eat (.some bars) (yields_pure.2 ⟨rfl, rfl⟩)
  | none noBars noBar => exact .eat (.none noBars) (.eat (.none noBar) (yields_pure.2 ⟨rfl, rfl⟩))
  | list first list last =>
    have noBars : s.kind? ≠ some .orOr := by simp [first.kind?_eq]
    exact .eat (.none noBars) (.eat (.some first)
      (.bind (list.yields (by decide)) (.expect last (yields_pure.2 ⟨rfl, rfl⟩))))

theorem ParenthesizedParameters.yields {parameters : Node × Bool}
    (h : ParenthesizedParameters s parameters t) :
    Yields parenthesizedParameters setting s parameters t := by
  cases h with
  | none absent => exact .eat (.none absent) (yields_pure.2 ⟨rfl, rfl⟩)
  | list first list last =>
    refine .eat (.some first) (yields_nest_bind.2 ?_)
    exact .bind (list.yields (by decide))
      (.expect last (yields_nest_bind.2 (yields_pure.2 ⟨rfl, rfl⟩)))

/-! ### Room -/

/-- How many levels a phrase may enter before it reads a token. -/
def Phrase.room : Phrase → Nat
  | .of (.statements _) | .of (.arguments _) | .call _ _ _ | .actuals => 4
  | .of .expression | .argument _ => 3
  | .of (.operators _) | .of .pattern | .entry _ => 2
  | .of _ => 1
  | .primary | .blockAfter _ | .clause => 0

theorem Phrase.room_le (phrase : Phrase) : phrase.room ≤ 4 := by
  unfold Phrase.room
  split <;> decide

variable {depth k : Nat} {a b : List Token} {phrase : Phrase}

/-- One token makes room for eight levels, of which no phrase needs more than four. -/
theorem room_after {j : Nat} (room : 8 * a.length + k ≤ depth) (past : Past 1 a b) (le : j ≤ 4) :
    8 * b.length + j ≤ depth := by
  have shorter := past.1
  omega

theorem room_later (room : 8 * a.length + k ≤ depth) (past : Past 1 a b) :
    8 * b.length + phrase.room ≤ depth := room_after room past phrase.room_le

/-- Before a token is read, there is room for a phrase that needs less. -/
theorem room_below {j : Nat} (room : 8 * a.length + k ≤ depth) (past : Past 0 a b) (le : j ≤ k) :
    8 * b.length + j ≤ depth := by
  have shorter := past.1
  omega

/-! ### Steps of a construct

What a step yields, from what the constructs in it yield. -/

section Steps

variable {sub : Derivation} {node : Node} {nodes body : List Node} {s1 s2 s3 : ParseState}
  {token keyword name operator first last : Token} {r r1 r2 r3 : List Token}

/-- A primary expression is what its first token says. -/
theorem yields_primary {kind : TokenKind} (first : s.Next kind token r) :
    Yields (primary sub) setting s node t ↔
      Yields (match (motive := TokenKind → Parse Node) kind with
        | .integer => do advance; integerNode token
        | .string => do advance; pure (stringNode token)
        | .symbol => do advance; pure (symbolNode token)
        | .kwNil => do advance; pure (leaf .nilValue token)
        | .kwTrue => do advance; pure (leaf .trueValue token)
        | .kwFalse => do advance; pure (leaf .falseValue token)
        | .kwSelf => do advance; pure (leaf .selfValue token)
        | .constant => do advance; pure (constantNode token)
        | .identifier => identifier sub
        | .lparen => parenthesized sub
        | .arrow => do if (← features).lambda then lambda sub else unexpected
        | .kwDef => methodDefinition sub
        | .kwClass => classDefinition sub
        | .kwWhile => whileLoop sub
        | .kwDefined => definedCheck sub
        | .kwCase => caseMatch sub
        | _ => unexpected) setting s node t := by
  obtain ⟨read, rfl⟩ := first
  have head : s.rest.head? = some token := by simp [read]
  rw [primary, yields_peek_bind]
  generalize s.rest.head? = found at head ⊢
  subst head
  exact Iff.rfl

theorem advance_yields {kind : TokenKind} (first : s.Next kind token r) :
    Yields (advance >>= fun _ => pure node) setting s node (s.leaving r) := by
  refine yields_advance_bind.2 (yields_pure.2 ⟨rfl, ?_⟩)
  rw [first.eq]
  rfl

/-- A statement, and what follows it. -/
theorem statement_yields {stops : List TokenKind} (starts : ¬ s.pastTerminators.Stops stops)
    (h : Yields (sub .expression) setting s.pastTerminators node s1)
    (h1 : Yields (match s1.kind? with
      | none | some .newline | some .semicolon => do
        let more ← sub (.statements stops)
        pure (node :: more)
      | some kind => if stops.contains kind then pure [node] else unexpected)
      setting s1 nodes t) :
    Yields (statements sub stops) setting s nodes t := by
  obtain ⟨kind, here, goes⟩ := ParseState.not_stops_iff.1 starts
  rw [statements, yields_skipTerminators_bind, yields_peekKind_bind, here]
  dsimp only
  rw [if_neg (by simpa using goes)]
  exact .bind h h1

/-- A word that no parenthesis directly follows. -/
theorem word_yields (word : s.Next .identifier token r)
    (apart : ¬ (s.leaving r).Adjacent .lparen)
    (h : Yields (match numberedUse? setting.features s.book token.text with
      | some (number, ordinary) => do
        if ordinary then reject .ordinaryParamDefined .empty token.span
        keep (·.useNumber number)
        pure (variableNode token)
      | none =>
        if s.book.isLocal token.text then pure (variableNode token) else call sub none none token)
      setting (s.leaving r) node t) :
    Yields (identifier sub) setting s node t := by
  refine .next word (yields_adjacent?_bind.2 ?_)
  rw [if_neg (mt ParseState.adjacent_iff.1 apart), yields_books_bind, yields_features_bind]
  exact h

theorem parenthesized_yields (open_paren : s.Next .lparen first r1)
    (h : Yields (sub (.statements [.rparen])) setting ((s.leaving r1).nested .openParen) body s1)
    (close_paren : s1.Next .rparen last r2) :
    Yields (parenthesized sub) setting s
      (.located .begin (body.map .node) (some (first.span.join last.span))
        [("begin", some first.span), ("end", some last.span)])
      ((s1.leaving r2).nested .closeParen) := by
  refine .next open_paren (yields_nest_bind.2 (.bind h (.expect close_paren ?_)))
  exact yields_nest_bind.2 (yields_pure.2 ⟨rfl, rfl⟩)

theorem lambdaClose?_eq_some {opening closing : TokenKind}
    (h : lambdaClose? opening = some closing) :
    opening = .lbrace ∧ closing = .rbrace ∨ opening = .kwDo ∧ closing = .kwEnd := by
  unfold lambdaClose? at h
  split at h <;> cases h
  · exact .inl ⟨rfl, rfl⟩
  · exact .inr ⟨rfl, rfl⟩

theorem lambda_yields {arrow : Token} {opening closing : TokenKind} {parameters : Node × Bool}
    (read : s.Next .arrow arrow r1)
    (declared : ParenthesizedParameters
      (((s.leaving r1).nested .pushLambda).keeping (·.openScope true)) parameters s1)
    (closes : lambdaClose? opening = some closing)
    (opener : (s1.keeping (·.openNumbering (.body 0 parameters.2))).Next opening first r2)
    (h : Yields (sub (.statements [closing])) setting
      (((((s1.leaving r2).keeping (·.openNumbering (.body 0 parameters.2))).nested
        .popLambda).nested .saveStacks).flagged [(.inLambda, true), (.inBlock, false)]) body s2)
    (closer : s2.Next closing last r3) :
    Yields (lambda sub) setting s
      (closureNode (leaf .lambda arrow) parameters.1 s2.book.numbering.head? body
        (arrow.span.join last.span) first last)
      ((s2.leaving r3).keeping (·.endBody s1.book.context)) := by
  refine .next read (yields_nest_bind.2 (yields_keep_bind.2 (.bind declared.yields ?_)))
  refine yields_keep_bind.2 (yields_peekKind_bind.2 ?_)
  obtain ⟨rfl, rfl⟩ | ⟨rfl, rfl⟩ := lambdaClose?_eq_some closes
  all_goals
    rw [opener.kind?_eq]
    refine .bind (yields_pure.2 ⟨rfl, rfl⟩) (.next opener ?_)
    refine yields_nest_bind.2 (yields_nest_bind.2 (.within h ?_))
    refine .expect ⟨closer.eq, closer.kind_eq⟩ (yields_nest_bind.2 ?_)
    exact yields_closeNumbering_bind.2 (yields_keep_bind.2 (yields_pure.2 ⟨rfl, rfl⟩))

theorem methodDefinition_yields {parameters : Node × Bool} (read : s.Next .kwDef keyword r1)
    (named : (s.leaving r1).Next .identifier name r2)
    (declared : ParenthesizedParameters
      ((((s.leaving r2).nested .saveStacks).keeping (·.openScope false)).keeping
        (·.openNumbering .closed)) parameters s1)
    (h : Yields (sub (.statements [.kwEnd])) setting
      (s1.flagged [(.inDef, true), (.inClass, false), (.inBlock, false), (.inLambda, false)])
      body s2)
    (closer : s2.Next .kwEnd last r3) :
    Yields (methodDefinition sub) setting s
      (.located .method [.sym name.text, .node parameters.1, .ofOption (sequence body)]
        (some (keyword.span.join last.span))
        [("keyword", some keyword.span), ("name", some name.span), ("end", some last.span)])
      ((s2.leaving r3).keeping (·.endBody s1.book.context)) := by
  refine .next read (.expect named (yields_openBody_bind.2 (.bind declared.yields ?_)))
  refine .within h (.expect ⟨closer.eq, closer.kind_eq⟩ ?_)
  exact yields_closeBody_bind.2 (yields_pure.2 ⟨rfl, rfl⟩)

theorem classDefinition_yields (read : s.Next .kwClass keyword r1)
    (outside : s.book.context.inDef = false) (named : (s.leaving r1).Next .constant name r2)
    (h : Yields (sub (.statements [.kwEnd])) setting
      (((((s.leaving r2).nested .saveStacks).keeping (·.openScope false)).keeping
        (·.openNumbering .closed)).flagged
        [(.inClass, true), (.inDef, false), (.inBlock, false), (.inLambda, false)]) body s1)
    (closer : s1.Next .kwEnd last r3) :
    Yields (classDefinition sub) setting s
      (.located .classDef [.node (constantNode name), .nil, .ofOption (sequence body)]
        (some (keyword.span.join last.span))
        [("keyword", some keyword.span), ("end", some last.span)])
      ((s1.leaving r3).keeping (·.endBody s.book.context)) := by
  refine .next read (yields_books_bind.2 (yields_unless_rejected.2 ⟨by simp [outside], ?_⟩))
  refine .expect named (yields_openBody_bind.2 (.within h ?_))
  refine .expect ⟨closer.eq, closer.kind_eq⟩ ?_
  exact yields_closeBody_bind.2 (yields_pure.2 ⟨rfl, rfl⟩)

theorem whileLoop_yields {condition : Node} {opener : Option Token}
    (read : s.Next .kwWhile keyword r1)
    (h1 : Yields (sub .expression) setting ((s.leaving r1).nested (·.pushCond true)) condition s1)
    (eats : (s1.nested .popCond).Eats .kwDo opener r2) (opened : (s1.leaving r2).Opened opener)
    (h2 : Yields (sub (.statements [.kwEnd])) setting ((s1.nested .popCond).leaving r2) body s2)
    (closer : s2.Next .kwEnd last r3) :
    Yields (whileLoop sub) setting s
      (.located .whileLoop [.node condition, .ofOption (sequence body)]
        (some (keyword.span.join last.span))
        [("keyword", some keyword.span), ("begin", opener.map Token.span),
          ("end", some last.span)])
      (s2.leaving r3) := by
  refine .next read (yields_nest_bind.2 (.bind h1 (yields_nest_bind.2 ?_)))
  refine .eat eats (yields_opened_bind.2 ⟨opened, ?_⟩)
  exact .bind h2 (.expect closer (yields_pure.2 ⟨rfl, rfl⟩))

theorem definedParens_yields {operand : Node} (read : s.Next .kwDefined keyword r1)
    (open_paren : (s.leaving r1).Next .lparen first r2)
    (h : Yields (sub .expression) setting
      (((s.leaving r2).nested .openParen).pastNewlines.flagged [(.inDefined, true)]) operand s1)
    (close_paren : s1.pastNewlines.Next .rparen last r3) :
    Yields (definedCheck sub) setting s
      (.located .definedCheck [.node operand] (some (keyword.span.join last.span))
        [("keyword", some keyword.span), ("begin", some first.span), ("end", some last.span)])
      (((s1.restoring s.book.context).leaving r3).nested .closeParen) := by
  refine .next read (.eat (.some open_paren) ?_)
  refine yields_nest_bind.2 (yields_skipNewlines_bind.2 (.within h ?_))
  refine yields_skipNewlines_bind.2 (.expect ⟨close_paren.eq, close_paren.kind_eq⟩ ?_)
  exact yields_nest_bind.2 (yields_pure.2 ⟨rfl, rfl⟩)

/-- A case, with or without statements for what no clause matches. -/
theorem caseMatch_yields {subject : Node} {clauses otherwise : List Node}
    {alternative : Option Token} (on : setting.features.patternMatching = true)
    (read : s.Next .kwCase keyword r1)
    (h1 : Yields (sub .expression) setting (s.leaving r1) subject s1)
    (starts : s1.pastTerminators.kind? = some .kwIn)
    (h2 : Yields (sub .clauses) setting s1.pastTerminators clauses s2)
    (eats : s2.Eats .kwElse alternative r2)
    (h3 : Yields (match alternative with
      | some _ => sub (.statements [.kwEnd])
      | none => pure []) setting (s2.leaving r2) otherwise s3)
    (closer : s3.Next .kwEnd last r3) :
    Yields (caseMatch sub) setting s
      (caseNode keyword subject clauses alternative otherwise last) (s3.leaving r3) := by
  refine .next read (.bind h1 (yields_skipTerminators_bind.2 ?_))
  refine yields_features_bind.2 (yields_at?_bind.2 (yields_unless_unexpected.2 ⟨?_, ?_⟩))
  · simp [on, starts]
  · refine .bind h2 (.eat eats ?_)
    cases alternative with
    | none => exact .bind h3 (.expect closer (yields_pure.2 ⟨rfl, rfl⟩))
    | some word => exact .bind h3 (.expect closer (yields_pure.2 ⟨rfl, rfl⟩))

/-- A sign, and the operand after it. -/
theorem minus_yields {operand : Node} (sign : s.Next .minus token r)
    (apart : ¬ (s.leaving r).Adjacent .integer)
    (h : Yields (sub .unary) setting (s.leaving r) operand t) :
    Yields (unary sub) setting s (signNode "-@" token operand) t := by
  simp only [unary, yields_peek_bind, sign.eq, List.head?_cons, sign.kind_eq,
    yields_advance_bind, ParseState.leaving_rest, List.tail_cons]
  split
  · rename_i literal found
    have goes := mt ParseState.adjacent_iff.1 apart
    rw [if_neg (by simpa [found] using goes)]
    exact .bind h (yields_pure.2 ⟨rfl, rfl⟩)
  · exact .bind h (yields_pure.2 ⟨rfl, rfl⟩)

/-- A minus directly before digits. -/
theorem negative_yields {digits : Token} {value : Child} (sign : s.Next .minus token r1)
    (next : (s.leaving r1).Next .integer digits r2) (together : digits.spaced = false)
    (valued : Child.integer? ('-' :: digits.text.toList) = some value) :
    Yields (unary sub) setting s
      (.located .int [value] (some (token.span.join digits.span)) [("operator", some token.span)])
      (s.leaving r2) := by
  obtain rfl : r1 = _ := next.eq
  simp only [unary, yields_peek_bind, sign.eq, List.head?_cons, sign.kind_eq,
    yields_advance_bind, ParseState.leaving_rest, List.tail_cons]
  rw [if_pos (by simp [next.kind_eq, together])]
  exact yields_advance_bind.2
    (.bind (yields_integerChild.2 ⟨valued, rfl⟩) (yields_pure.2 ⟨rfl, rfl⟩))

/-- An operand without a sign. -/
theorem chain_yields (noMinus : s.kind? ≠ some .minus) (noBang : s.kind? ≠ some .bang)
    {receiver : Node} (h1 : Yields (primary sub) setting s receiver s1)
    (h2 : Yields (sub (.callsAfter receiver)) setting s1 node t) :
    Yields (unary sub) setting s node t := by
  rw [unary, yields_peek_bind]
  split
  · rename_i none
    rw [primary, yields_peek_bind, none] at h1
    exact absurd h1 not_yields_unexpected
  · rename_i sign found
    split
    · simp_all [ParseState.kind?]
    · simp_all [ParseState.kind?]
    · exact .bind h1 h2

theorem emptyParens_yields (open_paren : s.Next .lparen first r1) (adjacent : first.spaced = false)
    (close_paren : ((s.leaving r1).nested .openParen).pastNewlines.Next .rparen last r2) :
    Yields (actuals sub) setting s
      { parens := some (first.span, last.span), last := some last.span } (s.leaving r2) := by
  refine yields_adjacent?_bind.2 ?_
  rw [if_pos (ParseState.adjacent_iff.2 ⟨_, _, open_paren, adjacent⟩)]
  refine .next open_paren (yields_nest_bind.2 (yields_skipNewlines_bind.2 (yields_at?_bind.2 ?_)))
  rw [if_pos (beq_iff_eq.2 close_paren.kind?_eq)]
  refine .bind (yields_pure.2 ⟨rfl, rfl⟩) (.expect close_paren ?_)
  exact yields_nest_bind.2 (yields_pure.2 ⟨rfl, rfl⟩)

theorem parens_yields (open_paren : s.Next .lparen first r1) (adjacent : first.spaced = false)
    (filled : ((s.leaving r1).nested .openParen).pastNewlines.kind? ≠ some .rparen)
    (h : Yields (sub (.arguments false)) setting ((s.leaving r1).nested .openParen).pastNewlines
      nodes s1)
    (close_paren : s1.pastNewlines.Next .rparen last r2) :
    Yields (actuals sub) setting s
      { nodes, parens := some (first.span, last.span), last := some last.span }
      ((s1.leaving r2).nested .closeParen) := by
  refine yields_adjacent?_bind.2 ?_
  rw [if_pos (ParseState.adjacent_iff.2 ⟨_, _, open_paren, adjacent⟩)]
  refine .next open_paren (yields_nest_bind.2 (yields_skipNewlines_bind.2 (yields_at?_bind.2 ?_)))
  rw [if_neg (mt beq_iff_eq.1 filled)]
  refine .bind h (yields_skipNewlines_bind.2 ?_)
  refine .bind (yields_pure.2 ⟨rfl, rfl⟩) (.expect close_paren ?_)
  exact yields_nest_bind.2 (yields_pure.2 ⟨rfl, rfl⟩)

end Steps

/-! ### Rules

One lemma for each rule takes what is derived to what its step yields. -/

/-- The constructs yield what the rules derive, where a depth has room for it. -/
def CoversRules (depth : Nat) (setting : Setting) (sub : Derivation) : Prop :=
  ∀ {construct : Construct} {s t : ParseState} {value : construct.Result},
    Derives setting.features (.of construct) s value t →
      8 * s.rest.length + (Phrase.of construct).room ≤ depth →
        Yields (sub construct) setting s value t

section Rules

variable {sub : Derivation} (hsub : CoversRules depth setting sub) {node : Node}
  {nodes : List Node}
include hsub

theorem blockAfter_yields {target : Node}
    (h : Derives setting.features (.blockAfter target) s node t)
    (room : 8 * s.rest.length + 0 ≤ depth) : Yields (blockAfter sub target) setting s node t := by
  refine yields_blockAfter.2 ?_
  cases h with
  | noBlock noClose =>
    rw [noClose]
    exact yields_pure.2 ⟨rfl, rfl⟩
  | block closes first parameters body last =>
    rw [closes]
    have opener : s.Next _ _ _ := ⟨first, rfl⟩
    have past := opener.past.on parameters.past
    refine .next opener (yields_nest_bind.2 (yields_keep_bind.2 (.bind parameters.yields ?_)))
    refine yields_keep_bind.2 (.within (hsub body (room_later room past)) ?_)
    refine .expect ⟨last.eq, last.kind_eq⟩ (yields_closeNumbering_bind.2 ?_)
    exact yields_keep_bind.2 (yields_nest_bind.2 (yields_pure.2 ⟨rfl, rfl⟩))

theorem argument_yields {command : Bool} (h : Derives setting.features (.argument command) s node t)
    (room : 8 * s.rest.length + 3 ≤ depth) : Yields (argument sub command) setting s node t := by
  refine yields_argument.2 ?_
  cases h with
  | plainArgument noSign expression =>
    rw [noSign]
    exact hsub expression room
  | signedArgument sign operator operand =>
    rw [operator.kind?_eq, sign]
    refine .next operator (.bind (hsub operand (room_later room operator.past)) ?_)
    cases command with
    | true =>
      rw [if_pos rfl]
      exact yields_emit_bind.2 (yields_pure.2 ⟨rfl, rfl⟩)
    | false => exact yields_pure.2 ⟨rfl, rfl⟩

theorem arguments_yields {command : Bool}
    (h : Derives setting.features (.of (.arguments command)) s nodes t)
    (room : 8 * s.rest.length + 3 ≤ depth) : Yields (arguments sub command) setting s nodes t := by
  cases h with
  | lastArgument only noComma =>
    exact .bind (argument_yields hsub only room) (.eat (.none noComma) (yields_pure.2 ⟨rfl, rfl⟩))
  | moreArguments first comma more =>
    refine .bind (argument_yields hsub first room) (.eat (.some comma) ?_)
    have past := (first.past.on comma.past).on (past_newlines _)
    exact yields_skipNewlines_bind.2
      (.bind (hsub more (room_later room past)) (yields_pure.2 ⟨rfl, rfl⟩))

theorem actuals_yields {given : Actuals} (h : Derives setting.features .actuals s given t)
    (room : 8 * s.rest.length + 4 ≤ depth) : Yields (actuals sub) setting s given t := by
  cases h with
  | emptyParens first adjacent last => exact emptyParens_yields first adjacent last
  | parens first adjacent some inside last =>
    have past := first.past.on (past_newlines _)
    exact parens_yields first adjacent some (hsub inside (room_later room past)) last
  | commandArguments apart starts inside =>
    refine yields_adjacent?_bind.2 ?_
    rw [if_neg (mt ParseState.adjacent_iff.1 apart), yields_startsCommand?_bind, if_pos starts]
    exact yields_nest_bind.2 (.bind (hsub inside room)
      (yields_nest_bind.2 (yields_pure.2 ⟨rfl, rfl⟩)))
  | noActuals apart starts =>
    refine yields_adjacent?_bind.2 ?_
    rw [if_neg (mt ParseState.adjacent_iff.1 apart), yields_startsCommand?_bind,
      if_neg (Bool.eq_false_iff.1 starts)]
    exact yields_pure.2 ⟨rfl, rfl⟩

theorem call_yields {receiver : Option Node} {dot : Option Token} {selector : Token}
    (h : Derives setting.features (.call receiver dot selector) s node t)
    (room : 8 * s.rest.length + 4 ≤ depth) :
    Yields (call sub receiver dot selector) setting s node t := by
  cases h with
  | call given block =>
    have read := given.past
    exact yields_books_bind.2 (.bind (actuals_yields hsub given room)
      (blockAfter_yields hsub block (room_below room read (Nat.zero_le _))))

theorem callsAfter_yields {receiver : Node}
    (h : Derives setting.features (.of (.callsAfter receiver)) s node t)
    (room : 8 * s.rest.length + 0 ≤ depth) :
    Yields (callsAfter sub receiver) setting s node t := by
  cases h with
  | noCall absent => exact .eat (.none absent) (yields_pure.2 ⟨rfl, rfl⟩)
  | dotCall dot selector called more =>
    have past := dot.past.on selector.past
    have read := call_yields hsub called (room_after room past (Nat.le_refl _))
    exact .eat (.some dot) (.expect selector
      (.bind read (hsub more (room_later room (past.on called.past)))))

theorem entry_yields {label : Token} (h : Derives setting.features (.entry label) s node t)
    (room : 8 * s.rest.length + 2 ≤ depth) : Yields (entry sub label) setting s node t := by
  refine yields_books_bind.2 ?_
  cases h with
  | bareEntry enters ends binds =>
    rw [enters]
    refine yields_keep_bind.2 (yields_peekKind_bind.2 ?_)
    split
    iterate 3 exact yields_bindVariable.2 ⟨_, binds, rfl, rfl⟩
    rename_i comma brace newline
    obtain ⟨kind, here, among⟩ := ends
    simp only [List.mem_cons, List.not_mem_nil, or_false] at among
    obtain rfl | rfl | rfl := among
    · exact absurd here comma
    · exact absurd here brace
    · exact absurd here newline
  | pairEntry enters goes value =>
    rw [enters]
    refine yields_keep_bind.2 (yields_peekKind_bind.2 ?_)
    split
    iterate 3 exact absurd (goes _ ‹_›) (by decide)
    exact .bind (hsub value room) (yields_pure.2 ⟨rfl, rfl⟩)

theorem entries_yields (h : Derives setting.features (.of .entries) s nodes t)
    (room : 8 * s.rest.length + 0 ≤ depth) : Yields (entries sub) setting s nodes t := by
  cases h with
  | noEntries absent => exact .eat (.none absent) (yields_pure.2 ⟨rfl, rfl⟩)
  | lastEntry label only noComma =>
    have read := entry_yields hsub only (room_after room label.past (by decide))
    exact .eat (.some label) (.bind read (.eat (.none noComma) (yields_pure.2 ⟨rfl, rfl⟩)))
  | moreEntries label first comma more =>
    have read := entry_yields hsub first (room_after room label.past (by decide))
    refine .eat (.some label) (.bind read (.eat (.some comma) (yields_skipNewlines_bind.2 ?_)))
    have past := ((label.past.on first.past).on comma.past).on (past_newlines _)
    exact .bind (hsub more (room_later room past)) (yields_pure.2 ⟨rfl, rfl⟩)

theorem pattern_yields (h : Derives setting.features (.of .pattern) s node t)
    (room : 8 * s.rest.length + 1 ≤ depth) : Yields (pattern sub) setting s node t := by
  rw [pattern, yields_peekKind_bind]
  cases h with
  | variablePattern token binds =>
    rw [token.kind?_eq]
    exact .next token (yields_bindVariable.2 ⟨_, binds, rfl, rfl⟩)
  | hashPattern first entries last =>
    rw [first.kind?_eq]
    have past := first.past.on (past_newlines _)
    refine .next first (yields_keep_bind.2 (yields_skipNewlines_bind.2 ?_))
    refine .bind (hsub entries (room_later room past)) (yields_skipNewlines_bind.2 ?_)
    exact .expect last (yields_keep_bind.2 (yields_pure.2 ⟨rfl, rfl⟩))
  | valuePattern starts value =>
    obtain ⟨kind, here, goes⟩ := (Option.any_eq_true _ _).1 starts
    rw [here]
    unfold startsValue at goes
    split at goes
    iterate 8 exact hsub value room
    cases goes

theorem clause_yields (h : Derives setting.features .clause s node t)
    (room : 8 * s.rest.length + 0 ≤ depth) : Yields (clause sub) setting s node t := by
  cases h with
  | clause keyword pattern same opener opened body =>
    subst same
    refine .next keyword (yields_keep_bind.2 ?_)
    refine .within (hsub pattern (room_later room keyword.past)) (yields_keep_bind.2 ?_)
    refine .eat opener (yields_opened_bind.2 ⟨opened, ?_⟩)
    have past := (keyword.past.on pattern.past).on opener.past
    exact .bind (hsub body (room_later room past)) (yields_pure.2 ⟨rfl, rfl⟩)

theorem clauses_yields (h : Derives setting.features (.of .clauses) s nodes t)
    (room : 8 * s.rest.length + 0 ≤ depth) : Yields (clauses sub) setting s nodes t := by
  rw [clauses, yields_at?_bind]
  cases h with
  | noClauses absent =>
    rw [if_neg (by simpa using absent)]
    exact yields_pure.2 ⟨rfl, rfl⟩
  | moreClauses first more =>
    have starts : s.kind? = some .kwIn := by
      cases first with
      | clause keyword => exact keyword.kind?_eq
    rw [if_pos (beq_iff_eq.2 starts)]
    exact .bind (clause_yields hsub first room)
      (.bind (hsub more (room_later room first.past)) (yields_pure.2 ⟨rfl, rfl⟩))

theorem primary_yields (h : Derives setting.features .primary s node t)
    (room : 8 * s.rest.length + 0 ≤ depth) : Yields (primary sub) setting s node t := by
  cases h with
  | integer token value =>
    refine (yields_primary token).2 (yields_advance_bind.2 ?_)
    rw [token.eq]
    exact .bind (yields_integerChild.2 ⟨value, rfl⟩) (yields_pure.2 ⟨rfl, rfl⟩)
  | string token => exact (yields_primary token).2 (advance_yields token)
  | symbol token => exact (yields_primary token).2 (advance_yields token)
  | keyword value token =>
    refine (yields_primary token).2 ?_
    unfold keywordValue? at value
    split at value <;> cases value <;> exact advance_yields token
  | constant token => exact (yields_primary token).2 (advance_yields token)
  | adjacentCall token adjacent called =>
    refine (yields_primary token).2 (.next token (yields_adjacent?_bind.2 ?_))
    rw [if_pos (ParseState.adjacent_iff.2 adjacent)]
    exact call_yields hsub called (room_after room token.past (Nat.le_refl _))
  | numberedVariable token apart use =>
    refine (yields_primary token).2 (word_yields token apart ?_)
    rw [use]
    exact yields_keep_bind.2 (yields_pure.2 ⟨rfl, rfl⟩)
  | localVariable token apart use visible =>
    refine (yields_primary token).2 (word_yields token apart ?_)
    rw [use]
    dsimp only
    rw [if_pos visible]
    exact yields_pure.2 ⟨rfl, rfl⟩
  | wordCall token apart use hidden called =>
    refine (yields_primary token).2 (word_yields token apart ?_)
    rw [use]
    dsimp only
    rw [if_neg (Bool.eq_false_iff.1 hidden)]
    exact call_yields hsub called (room_after room token.past (Nat.le_refl _))
  | parenthesized first body last =>
    have inside := hsub body (room_later room first.past)
    exact (yields_primary first).2 (parenthesized_yields first inside last)
  | lambda on arrow parameters closes first body last =>
    have past := (arrow.past.on parameters.past).on first.past
    have inside := hsub body (room_later room past)
    refine (yields_primary arrow).2 (yields_features_bind.2 ?_)
    rw [if_pos on]
    exact lambda_yields arrow parameters closes first inside last
  | method keyword name parameters body last =>
    have past := (keyword.past.on name.past).on parameters.past
    have inside := hsub body (room_later room past)
    exact (yields_primary keyword).2 (methodDefinition_yields keyword name parameters inside last)
  | classDefinition keyword outside name body last =>
    have inside := hsub body (room_later room (keyword.past.on name.past))
    exact (yields_primary keyword).2 (classDefinition_yields keyword outside name inside last)
  | whileLoop keyword condition opener opened body last =>
    have past := (keyword.past.on condition.past).on opener.past
    exact (yields_primary keyword).2 (whileLoop_yields keyword
      (hsub condition (room_later room keyword.past)) opener opened
      (hsub body (room_later room past)) last)
  | definedWord keyword noParen operand =>
    refine (yields_primary keyword).2 (.next keyword (.eat (.none noParen) ?_))
    exact .within (hsub operand (room_later room keyword.past)) (yields_pure.2 ⟨rfl, rfl⟩)
  | definedParens keyword first operand last =>
    have past := (keyword.past.on first.past).on (past_newlines _)
    have inside := hsub operand (room_later room past)
    exact (yields_primary keyword).2 (definedParens_yields keyword first inside last)
  | caseMatch on keyword subject starts clauses last =>
    have past := (keyword.past.on subject.past).on (past_terminators _)
    exact (yields_primary keyword).2 (caseMatch_yields on keyword
      (hsub subject (room_later room keyword.past)) starts
      (hsub clauses (room_later room past)) (.none (by simp [last.kind?_eq]))
      (yields_pure.2 ⟨rfl, rfl⟩) last)
  | caseElse on keyword subject starts clauses alternative otherwise last =>
    have past := (keyword.past.on subject.past).on (past_terminators _)
    have past' := (past.on clauses.past).on alternative.past
    exact (yields_primary keyword).2 (caseMatch_yields on keyword
      (hsub subject (room_later room keyword.past)) starts
      (hsub clauses (room_later room past)) (.some alternative)
      (hsub otherwise (room_later room past')) last)

theorem unary_yields (h : Derives setting.features (.of .unary) s node t)
    (room : 8 * s.rest.length + 0 ≤ depth) : Yields (unary sub) setting s node t := by
  cases h with
  | negative sign digits together value => exact negative_yields sign digits together value
  | minus sign apart operand =>
    exact minus_yields sign apart (hsub operand (room_later room sign.past))
  | bang sign operand =>
    simp only [unary, yields_peek_bind, sign.eq, List.head?_cons, sign.kind_eq,
      yields_advance_bind]
    exact .bind (hsub operand (room_later room sign.past)) (yields_pure.2 ⟨rfl, rfl⟩)
  | chain noMinus noBang receiver more =>
    exact chain_yields noMinus noBang (primary_yields hsub receiver room)
      (hsub more (room_later room receiver.past))

theorem operatorsAfter_yields {power : Nat} {left : Node}
    (h : Derives setting.features (.of (.operatorsAfter power left)) s node t)
    (room : 8 * s.rest.length + 0 ≤ depth) :
    Yields (operatorsAfter sub power left) setting s node t := by
  rw [operatorsAfter, yields_peek_bind]
  cases h with
  | noOperator loose =>
    split
    · exact yields_pure.2 ⟨rfl, rfl⟩
    · rename_i operator first
      split
      · exact yields_pure.2 ⟨rfl, rfl⟩
      · rename_i tighter binds
        have le := loose operator.kind (by simp [ParseState.kind?, first]) tighter binds
        rw [if_pos le]
        exact yields_pure.2 ⟨rfl, rfl⟩
  | operator binds tighter operator right more =>
    simp only [operator.eq, List.head?_cons, operator.kind_eq, binds, Nat.not_le.2 tighter,
      if_false, yields_advance_bind, yields_skipNewlines_bind]
    have past := operator.past.on (past_newlines _)
    have past' := past.on right.past
    exact .bind (hsub right (room_later room past)) (hsub more (room_later room past'))

theorem operators_yields {power : Nat}
    (h : Derives setting.features (.of (.operators power)) s node t)
    (room : 8 * s.rest.length + 1 ≤ depth) : Yields (operators sub power) setting s node t := by
  cases h with
  | operators first more => exact .bind (hsub first room) (hsub more (room_later room first.past))

theorem expression_yields (h : Derives setting.features (.of .expression) s node t)
    (room : 8 * s.rest.length + 2 ≤ depth) : Yields (expression sub) setting s node t := by
  rw [expression, yields_at?_bind, yields_peekSecond_bind]
  cases h with
  | assignment name operator value =>
    rw [if_pos (ParseState.assigns_iff.2 (.intro name operator))]
    refine .next name (.next operator (yields_skipNewlines_bind.2 (yields_keep_bind.2 ?_)))
    have past := (name.past.on operator.past).on (past_newlines _)
    exact .bind (hsub value (room_later room past)) (yields_pure.2 ⟨rfl, rfl⟩)
  | unassigned apart operators =>
    rw [if_neg (mt ParseState.assigns_iff.1 apart)]
    exact hsub operators room

theorem statements_yields {stops : List TokenKind}
    (h : Derives setting.features (.of (.statements stops)) s nodes t)
    (room : 8 * s.rest.length + 3 ≤ depth) : Yields (statements sub stops) setting s nodes t := by
  have start := room_below room (past_terminators _) (Nat.le_refl _)
  cases h with
  | noStatements stop =>
    rw [statements, yields_skipTerminators_bind, yields_peekKind_bind]
    split
    · exact yields_pure.2 ⟨rfl, rfl⟩
    · rename_i kind here
      rw [if_pos (by simpa using stop kind here)]
      exact yields_pure.2 ⟨rfl, rfl⟩
  | lastStatement starts only goes stop =>
    refine statement_yields starts (hsub only start) ?_
    obtain ⟨kind, here, other⟩ := ParseState.not_stops_iff.1 goes
    rw [here]
    split
    iterate 3 simp_all
    rw [if_pos (by simp_all [ParseState.Stops])]
    exact yields_pure.2 ⟨rfl, rfl⟩
  | moreStatements starts first breaks more =>
    refine statement_yields starts (hsub first start) ?_
    have past := (past_terminators _).trans first.past
    split
    iterate 3 exact .bind (hsub more (room_later room past)) (yields_pure.2 ⟨rfl, rfl⟩)
    rename_i kind noNewline noSemicolon here
    have ends := breaks kind here
    simp_all

end Rules

/-- In every depth the constructs yield what the rules derive, where there is room. Each construct
enters one level. -/
theorem derive_covers (depth : Nat) : CoversRules depth setting (derive depth) := by
  induction depth with
  | zero =>
    intro construct s t value h room
    have needs : 0 < (Phrase.of construct).room := by cases construct <;> exact Nat.succ_pos _
    omega
  | succ depth hsub =>
    intro construct s t value h room
    have inside {k : Nat} (room : 8 * s.rest.length + (k + 1) ≤ depth + 1) :
        8 * s.rest.length + k ≤ depth := Nat.le_of_succ_le_succ room
    cases construct with
    | statements stops => exact statements_yields hsub h (inside room)
    | expression => exact expression_yields hsub h (inside room)
    | operators power => exact operators_yields hsub h (inside room)
    | operatorsAfter power left => exact operatorsAfter_yields hsub h (inside room)
    | unary => exact unary_yields hsub h (inside room)
    | callsAfter receiver => exact callsAfter_yields hsub h (inside room)
    | arguments command => exact arguments_yields hsub h (inside room)
    | pattern => exact pattern_yields hsub h (inside room)
    | entries => exact entries_yields hsub h (inside room)
    | clauses => exact clauses_yields hsub h (inside room)

/-- Every way to read a phrase is how the parser reads it: the depth goes down with each construct,
and each token that is read makes room for the next ones. -/
theorem Derives.yields {value : phrase.Result} {finish : Span} {features : Features}
    (h : Derives features phrase s value t) (room : 8 * s.rest.length + phrase.room ≤ depth) :
    Yields (phrase.step (derive depth)) ⟨features, finish⟩ s value t := by
  have hsub : CoversRules depth ⟨features, finish⟩ (derive depth) := derive_covers depth
  cases phrase with
  | of construct => exact hsub h room
  | primary => exact primary_yields hsub h room
  | call receiver dot selector => exact call_yields hsub h room
  | actuals => exact actuals_yields hsub h room
  | blockAfter target => exact blockAfter_yields hsub h room
  | argument command => exact argument_yields hsub h room
  | entry label => exact entry_yields hsub h room
  | clause => exact clause_yields hsub h room

end Grammar

end Conformance.Dialect
