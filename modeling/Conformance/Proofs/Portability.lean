import Conformance.Proofs.Surroundings

/-! Phrases among other tokens. What can be read from one state on to another can be read in the
same way where the tokens stand later, a line break and more follow them, and diagnostics have been
reported before. -/

namespace Conformance.Dialect.Grammar

variable {e : Surroundings} {features : Features} {s t : ParseState}

/-! ### Phrases -/

/-- A construct whose node stands later, if it goes on from one. -/
@[reducible] def Construct.moved (n : Nat) : Construct → Construct
  | .operatorsAfter power left => .operatorsAfter power (left.moved n)
  | .callsAfter receiver => .callsAfter (receiver.moved n)
  | construct => construct

/-- A phrase whose nodes and tokens stand later, if it goes on from some. -/
@[reducible] def Phrase.moved (n : Nat) : Phrase → Phrase
  | .of construct => .of (construct.moved n)
  | .call receiver dot selector =>
    .call (receiver.map (Node.moved n)) (dot.map (Token.moved n)) (selector.moved n)
  | .blockAfter target => .blockAfter (target.moved n)
  | .entry label => .entry (label.moved n)
  | phrase => phrase

/-- What a phrase stands for, later. -/
def Phrase.later (n : Nat) : (phrase : Phrase) → phrase.Result → (phrase.moved n).Result
  | .of (.statements _), nodes | .of (.arguments _), nodes | .of .entries, nodes
  | .of .clauses, nodes => nodes.map (Node.moved n)
  | .actuals, given => given.moved n
  | .of .expression, node | .of (.operators _), node | .of (.operatorsAfter _ _), node
  | .of .unary, node | .of (.callsAfter _), node | .of .pattern, node | .primary, node
  | .call _ _ _, node | .blockAfter _, node | .argument _, node | .entry _, node
  | .clause, node => node.moved n

/-- Where a phrase may end among other tokens: one that takes the line breaks after it does not end
with the tokens, unless nothing follows them. -/
def Phrase.EndsApart (e : Surroundings) (t : ParseState) : Phrase → Prop
  | .of (.statements _) | .of .entries | .of .clauses | .clause => e.Apart t.rest
  | _ => True

/-- The token that a phrase goes on from has an end. -/
def Phrase.LabelPresent : Phrase → Prop
  | .entry label => 0 < label.span.stop
  | _ => True

def Present (tokens : List Token) : Prop := ∀ token ∈ tokens, 0 < token.span.stop

theorem Present.of_past {k : Nat} {a b : List Token} (present : Present a) (past : Past k a b) :
    Present b := fun token mem => present token (past.2.subset mem)

/-- Where a phrase may stand among other tokens. -/
structure Phrase.Fits (e : Surroundings) (phrase : Phrase) (s t : ParseState) : Prop where
  given : phrase.FromExpression
  label : phrase.LabelPresent
  ends : phrase.EndsApart e t
  present : Present s.rest

theorem Derives.of_value {phrase : Phrase} {value value' : phrase.Result}
    (h : Derives features phrase s value t) (same : value = value') :
    Derives features phrase s value' t := same ▸ h

theorem movedChild_of_integer? {text : List Char} {value : Child} (n : Nat)
    (h : Child.integer? text = some value) : Node.movedChild n value = value := by
  obtain ⟨number, -, rfl⟩ := Option.map_eq_some_iff.1 h
  split <;> rfl

theorem Derives.statements_ranged {stops : List TokenKind} {body : List Node}
    (h : Derives features (.of (.statements stops)) s body t) : ∀ node ∈ body, node.Ranged :=
  fun node mem => (h.statements_shaped node mem).ranged

open ParseState Surroundings

/-! ### Rules

One lemma for each rule takes what is read in it among other tokens to the whole. -/

/-- A phrase that is read from one state on to another, and in the same way among other tokens,
where it may stand there. -/
structure Portable (e : Surroundings) (features : Features) (phrase : Phrase) (s : ParseState)
    (value : phrase.Result) (t : ParseState) : Prop where
  read : Derives features phrase s value t
  amid : phrase.Fits e s t →
    Derives features (phrase.moved e.shift) (s.amid e) (phrase.later e.shift value) (t.amid e)

namespace Portable

section Rules

variable {s1 s2 s3 : ParseState} {stops : List TokenKind} {kind : TokenKind}
  {node value left right operand receiver subject : Node} {nodes more body clauses : List Node}
  {token keyword name sign label comma first last : Token} {r r1 r2 r3 : List Token}

/-- Statements before the token that ends them. -/
theorem inside {k : Nat} {tokens : List Token}
    (body : Portable e features (.of (.statements stops)) s nodes t) (present : Present tokens)
    (past : Past k tokens s.rest) (last : t.Next kind token r) :
    Derives features (.of (.statements stops)) (s.amid e) (nodes.map (Node.moved e.shift))
      (t.amid e) :=
  body.amid ⟨trivial, trivial, apart_of_past last.past, present.of_past past⟩

theorem noStatements (stop : s.pastTerminators.Stops stops) :
    Portable e features (.of (.statements stops)) s [] s.pastTerminators := by
  refine ⟨.noStatements stop, fun fits => ?_⟩
  have apart : e.Apart s.pastTerminators.rest := fits.ends
  have stop' := stop.amid apart
  rw [amid_pastTerminators apart] at stop' ⊢
  exact .noStatements stop'

theorem lastStatement (starts : ¬ s.pastTerminators.Stops stops)
    (only : Portable e features (.of .expression) s.pastTerminators node s1)
    (noBreak : ¬ s1.Breaks) (stop : s1.Stops stops) :
    Portable e features (.of (.statements stops)) s [node] s1 := by
  refine ⟨.lastStatement starts only.read noBreak stop, fun fits => ?_⟩
  have starts' := not_stops_amid (e := e) starts
  have only' := only.amid ⟨trivial, trivial, trivial, fits.present.of_past (past_terminators _)⟩
  rw [amid_pastTerminators (apart_of_past only.read.past)] at starts' only'
  exact .lastStatement starts' only' (not_stops_amid noBreak) (stop.amid fits.ends)

theorem moreStatements (starts : ¬ s.pastTerminators.Stops stops)
    (first : Portable e features (.of .expression) s.pastTerminators node s1) (breaks : s1.Breaks)
    (rest : Portable e features (.of (.statements stops)) s1 more s2) :
    Portable e features (.of (.statements stops)) s (node :: more) s2 := by
  refine ⟨.moreStatements starts first.read breaks rest.read, fun fits => ?_⟩
  have past := (past_terminators _).on first.read.past
  have starts' := not_stops_amid (e := e) starts
  have first' := first.amid ⟨trivial, trivial, trivial, fits.present.of_past (past_terminators _)⟩
  have rest' := rest.amid ⟨trivial, trivial, fits.ends, fits.present.of_past past⟩
  rw [amid_pastTerminators (apart_of_past first.read.past)] at starts' first'
  exact .moreStatements starts' first' breaks.amid rest'

theorem assignment {operator : Token} (named : s.Next .identifier name r1)
    (assign : (s.leaving r1).Next .assign operator r2)
    (assigned : Portable e features (.of .expression)
      ((s.leaving r2).pastNewlines.keeping (·.declare name.text)) value s1) :
    Portable e features (.of .expression) s
      (.located .lvasgn [.sym name.text, .node value] (some (name.span.join value.range))
        [("name", some name.span), ("operator", some operator.span)]) s1 := by
  refine ⟨.assignment named assign assigned.read, fun fits => ?_⟩
  have past := (named.past.on assign.past).on (past_newlines _)
  have assigned' := assigned.amid ⟨trivial, trivial, trivial, fits.present.of_past past⟩
  rw [amid_keeping, amid_pastNewlines (apart_of_past assigned.read.past)] at assigned'
  refine .of_value (.assignment named.amid assign.amid assigned') ?_
  have range := (assigned.read.shaped trivial).ranged.moved_range (n := e.shift)
  simp [Phrase.later, Node.moved_located, Node.movedField, range, Span.moved_join]

/-- At the end of the tokens a line break may follow, which is no operator. -/
theorem noOperator {power : Nat}
    (loose : ∀ kind ∈ s.kind?, ∀ tighter ∈ bindingPower? kind, tighter ≤ power) :
    Portable e features (.of (.operatorsAfter power left)) s left s := by
  refine ⟨.noOperator loose, fun _ => .noOperator fun kind some => ?_⟩
  obtain same | ⟨-, newline⟩ := kind?_amid (s := s) (e := e)
  · exact loose kind (same ▸ some)
  · cases newline.symm.trans some
    rintro _ ⟨⟩

theorem operator {power tighter : Nat} (binds : bindingPower? kind = some tighter)
    (tight : power < tighter) (next : s.Next kind token r)
    (second : Portable e features (.of (.operators tighter)) (s.leaving r).pastNewlines right s1)
    (rest : Portable e features (.of (.operatorsAfter power (operatorNode left token right))) s1
      node s2) :
    Portable e features (.of (.operatorsAfter power left)) s node s2 := by
  refine ⟨.operator binds tight next second.read rest.read, fun fits => ?_⟩
  have past := (next.past.weaken (Nat.zero_le _)).on (past_newlines _)
  have second' := second.amid ⟨trivial, trivial, trivial, fits.present.of_past past⟩
  have rest' := rest.amid ⟨operatorNode_isExpression _ _ _, trivial, trivial,
    fits.present.of_past (past.on second.read.past)⟩
  rw [amid_pastNewlines (apart_of_past second.read.past)] at second'
  have combined := operatorNode_moved (n := e.shift) fits.given.ranged token
    (second.read.shaped trivial).ranged
  exact .operator binds tight next.amid second' (combined ▸ rest')

theorem negative {digits : Token} {number : Child} (minus : s.Next .minus sign r1)
    (next : (s.leaving r1).Next .integer digits r2) (together : digits.spaced = false)
    (valued : Child.integer? ('-' :: digits.text.toList) = some number) :
    Portable e features (.of .unary) s
      (.located .int [number] (some (sign.span.join digits.span))
        [("operator", some sign.span)]) (s.leaving r2) := by
  refine ⟨.negative minus next together valued, fun _ => ?_⟩
  refine .of_value (.negative minus.amid next.amid together valued) ?_
  simp [Phrase.later, Node.moved_located, Node.movedField, Span.moved_join,
    movedChild_of_integer? _ valued]

theorem minus (next : s.Next .minus sign r) (apart : ¬ (s.leaving r).Adjacent .integer)
    (signed : Portable e features (.of .unary) (s.leaving r) operand s1) :
    Portable e features (.of .unary) s (signNode "-@" sign operand) s1 := by
  refine ⟨.minus next apart signed.read, fun fits => ?_⟩
  have signed' := signed.amid ⟨trivial, trivial, trivial, fits.present.of_past next.past⟩
  exact .of_value (.minus next.amid (not_adjacent_amid apart (by decide)) signed')
    (signNode_moved _ _ (signed.read.shaped trivial).ranged)

theorem bang (next : s.Next .bang sign r)
    (signed : Portable e features (.of .unary) (s.leaving r) operand s1) :
    Portable e features (.of .unary) s (signNode "!" sign operand) s1 := by
  refine ⟨.bang next signed.read, fun fits => ?_⟩
  have signed' := signed.amid ⟨trivial, trivial, trivial, fits.present.of_past next.past⟩
  exact .of_value (.bang next.amid signed') (signNode_moved _ _ (signed.read.shaped trivial).ranged)

theorem integer {number : Child} (next : s.Next .integer token r)
    (valued : Child.integer? token.text.toList = some number) :
    Portable e features .primary s (.located .int [number] (some token.span) [("operator", none)])
      (s.leaving r) := by
  refine ⟨.integer next valued, fun _ => .of_value (.integer next.amid valued) ?_⟩
  simp [Phrase.later, Node.moved_located, Node.movedField, movedChild_of_integer? _ valued]

/-- The field for the closing quote is one character before the end of the token. -/
theorem string (next : s.Next .string token r) :
    Portable e features .primary s (stringNode token) (s.leaving r) := by
  refine ⟨.string next, fun fits => ?_⟩
  have positive := fits.present _ (next.eq ▸ List.mem_cons_self)
  exact .of_value (.string next.amid) (stringNode_moved positive)

theorem parenthesized (open_paren : s.Next .lparen first r1)
    (statements : Portable e features (.of (.statements [.rparen]))
      ((s.leaving r1).nested .openParen) body s1)
    (close_paren : s1.Next .rparen last r2) :
    Portable e features .primary s
      (.located .begin (body.map .node) (some (first.span.join last.span))
        [("begin", some first.span), ("end", some last.span)])
      ((s1.leaving r2).nested .closeParen) := by
  refine ⟨.parenthesized open_paren statements.read close_paren, fun fits => ?_⟩
  have body' := statements.inside fits.present open_paren.past close_paren
  rw [amid_nested, amid_leaving]
  refine .of_value (.parenthesized open_paren.amid body' close_paren.amid) ?_
  simp [Phrase.later, Node.moved_located, Node.movedField, Span.moved_join]

theorem lambda {arrow : Token} {opening closing : TokenKind} {parameters : Node × Bool}
    (on : features.lambda = true) (next : s.Next .arrow arrow r1)
    (declared : ParenthesizedParameters
      (((s.leaving r1).nested .pushLambda).keeping (·.openScope true)) parameters s1)
    (closes : lambdaClose? opening = some closing)
    (opener : (s1.keeping (·.openNumbering (.body 0 parameters.2))).Next opening first r2)
    (statements : Portable e features (.of (.statements [closing]))
      (((((s1.leaving r2).keeping (·.openNumbering (.body 0 parameters.2))).nested
        .popLambda).nested .saveStacks).flagged [(.inLambda, true), (.inBlock, false)]) body s2)
    (closer : s2.Next closing last r3) :
    Portable e features .primary s
      (closureNode (leaf .lambda arrow) parameters.1 s2.book.numbering.head? body
        (arrow.span.join last.span) first last)
      ((s2.leaving r3).keeping (·.endBody s1.book.context)) := by
  refine ⟨.lambda on next declared closes opener statements.read closer, fun fits => ?_⟩
  have past := (next.past.on declared.past).on opener.past
  have body' := statements.inside fits.present past closer
  refine .of_value (.lambda on next.amid declared.amid closes opener.amid body' closer.amid) ?_
  refine Eq.trans ?_ (closureNode_moved _ _ _ _ statements.read.statements_ranged)
  rw [leaf_moved, Span.moved_join]
  rfl

theorem method {parameters : Node × Bool} (next : s.Next .kwDef keyword r1)
    (named : (s.leaving r1).Next .identifier name r2)
    (declared : ParenthesizedParameters
      ((((s.leaving r2).nested .saveStacks).keeping (·.openScope false)).keeping
        (·.openNumbering .closed)) parameters s1)
    (statements : Portable e features (.of (.statements [.kwEnd]))
      (s1.flagged [(.inDef, true), (.inClass, false), (.inBlock, false), (.inLambda, false)])
      body s2)
    (closer : s2.Next .kwEnd last r3) :
    Portable e features .primary s
      (.located .method [.sym name.text, .node parameters.1, .ofOption (sequence body)]
        (some (keyword.span.join last.span))
        [("keyword", some keyword.span), ("name", some name.span), ("end", some last.span)])
      ((s2.leaving r3).keeping (·.endBody s1.book.context)) := by
  refine ⟨.method next named declared statements.read closer, fun fits => ?_⟩
  have past := (next.past.on named.past).on declared.past
  have body' := statements.inside fits.present past closer
  refine .of_value (.method next.amid named.amid declared.amid body' closer.amid) ?_
  have moved := sequence_moved (n := e.shift) statements.read.statements_ranged
  simp [Phrase.later, Node.moved_located, Node.movedField, Span.moved_join, moved]

theorem classDefinition (next : s.Next .kwClass keyword r1)
    (outside : s.book.context.inDef = false) (named : (s.leaving r1).Next .constant name r2)
    (statements : Portable e features (.of (.statements [.kwEnd]))
      (((((s.leaving r2).nested .saveStacks).keeping (·.openScope false)).keeping
        (·.openNumbering .closed)).flagged
        [(.inClass, true), (.inDef, false), (.inBlock, false), (.inLambda, false)]) body s1)
    (closer : s1.Next .kwEnd last r3) :
    Portable e features .primary s
      (.located .classDef [.node (constantNode name), .nil, .ofOption (sequence body)]
        (some (keyword.span.join last.span))
        [("keyword", some keyword.span), ("end", some last.span)])
      ((s1.leaving r3).keeping (·.endBody s.book.context)) := by
  refine ⟨.classDefinition next outside named statements.read closer, fun fits => ?_⟩
  have body' := statements.inside fits.present (next.past.on named.past) closer
  refine .of_value (.classDefinition next.amid outside named.amid body' closer.amid) ?_
  have moved := sequence_moved (n := e.shift) statements.read.statements_ranged
  simp [Phrase.later, Node.moved_located, Node.movedField, Span.moved_join, moved,
    constantNode_moved]

theorem whileLoop {condition : Node} {opener : Option Token} (next : s.Next .kwWhile keyword r1)
    (tested : Portable e features (.of .expression) ((s.leaving r1).nested (·.pushCond true))
      condition s1)
    (eats : (s1.nested .popCond).Eats .kwDo opener r2) (opened : (s1.leaving r2).Opened opener)
    (statements : Portable e features (.of (.statements [.kwEnd]))
      ((s1.nested .popCond).leaving r2) body s2)
    (closer : s2.Next .kwEnd last r3) :
    Portable e features .primary s
      (.located .whileLoop [.node condition, .ofOption (sequence body)]
        (some (keyword.span.join last.span))
        [("keyword", some keyword.span), ("begin", opener.map Token.span),
          ("end", some last.span)])
      (s2.leaving r3) := by
  refine ⟨.whileLoop next tested.read eats opened statements.read closer, fun fits => ?_⟩
  have past := (next.past.on tested.read.past).on eats.past
  have tested' := tested.amid ⟨trivial, trivial, trivial, fits.present.of_past next.past⟩
  have body' := statements.inside fits.present past closer
  refine .of_value (.whileLoop next.amid tested' (eats.amid (by decide)) opened.amid
    body' closer.amid) ?_
  have moved := sequence_moved (n := e.shift) statements.read.statements_ranged
  simp [Phrase.later, Node.moved_located, Node.movedField, Span.moved_join, moved,
    Function.comp_def]

theorem definedWord (next : s.Next .kwDefined keyword r)
    (noParen : (s.leaving r).kind? ≠ some .lparen)
    (checked : Portable e features (.of .expression)
      ((s.leaving r).flagged [(.inDefined, true)]) operand s1) :
    Portable e features .primary s
      (.located .definedCheck [.node operand] (some (keyword.span.join operand.range))
        [("keyword", some keyword.span), ("begin", none), ("end", none)])
      (s1.restoring s.book.context) := by
  refine ⟨.definedWord next noParen checked.read, fun fits => ?_⟩
  have checked' := checked.amid ⟨trivial, trivial, trivial, fits.present.of_past next.past⟩
  refine .of_value (.definedWord next.amid (kind?_amid_ne noParen (by decide)) checked') ?_
  have range := (checked.read.shaped trivial).ranged.moved_range (n := e.shift)
  simp [Phrase.later, Node.moved_located, Node.movedField, range, Span.moved_join]

theorem definedParens (next : s.Next .kwDefined keyword r1)
    (open_paren : (s.leaving r1).Next .lparen first r2)
    (checked : Portable e features (.of .expression)
      (((s.leaving r2).nested .openParen).pastNewlines.flagged [(.inDefined, true)]) operand s1)
    (close_paren : s1.pastNewlines.Next .rparen last r3) :
    Portable e features .primary s
      (.located .definedCheck [.node operand] (some (keyword.span.join last.span))
        [("keyword", some keyword.span), ("begin", some first.span), ("end", some last.span)])
      (((s1.restoring s.book.context).leaving r3).nested .closeParen) := by
  refine ⟨.definedParens next open_paren checked.read close_paren, fun fits => ?_⟩
  have past := (next.past.on open_paren.past).on (past_newlines _)
  have checked' := checked.amid ⟨trivial, trivial, trivial, fits.present.of_past past⟩
  have close_paren' := close_paren.amid (e := e)
  rw [amid_pastNewlines (apart_of_past close_paren.past)] at close_paren'
  rw [amid_flagged, amid_pastNewlines (apart_of_past checked.read.past)] at checked'
  refine .of_value (.definedParens next.amid open_paren.amid checked' close_paren') ?_
  simp [Phrase.later, Node.moved_located, Node.movedField, Span.moved_join]

/-- The clauses of a case start with a word that no terminator is, so that tokens are left after
the terminators before them. -/
theorem caseClauses (starts : s1.pastTerminators.kind? = some .kwIn)
    (clause_list : Portable e features (.of .clauses) s1.pastTerminators clauses s2)
    (present : Present s1.rest) (next : s2.Next kind token r) :
    (s1.amid e).pastTerminators.kind? = some .kwIn ∧
      Derives features (.of .clauses) (s1.amid e).pastTerminators
        (clauses.map (Node.moved e.shift)) (s2.amid e) := by
  have starts' := kind?_amid_of_some (e := e) starts
  have clauses' := clause_list.amid ⟨trivial, trivial, apart_of_past next.past,
    present.of_past (past_terminators _)⟩
  have apart := (apart_of_past (e := e) next.past).of_past clause_list.read.past
  rw [amid_pastTerminators apart] at clauses' starts'
  exact ⟨starts', clauses'⟩

theorem caseMatch (on : features.patternMatching = true) (next : s.Next .kwCase keyword r1)
    (matched : Portable e features (.of .expression) (s.leaving r1) subject s1)
    (starts : s1.pastTerminators.kind? = some .kwIn)
    (clause_list : Portable e features (.of .clauses) s1.pastTerminators clauses s2)
    (closer : s2.Next .kwEnd last r2) :
    Portable e features .primary s (caseNode keyword subject clauses none [] last)
      (s2.leaving r2) := by
  refine ⟨.caseMatch on next matched.read starts clause_list.read closer, fun fits => ?_⟩
  have past := next.past.on matched.read.past
  have matched' := matched.amid ⟨trivial, trivial, trivial, fits.present.of_past next.past⟩
  obtain ⟨starts', clauses'⟩ :=
    caseClauses starts clause_list (fits.present.of_past past) closer
  exact .of_value (.caseMatch on next.amid matched' starts' clauses' closer.amid)
    (caseNode_moved _ _ _ none _ (List.forall_mem_nil _))

theorem caseElse {alternative : Token} {otherwise : List Node}
    (on : features.patternMatching = true) (next : s.Next .kwCase keyword r1)
    (matched : Portable e features (.of .expression) (s.leaving r1) subject s1)
    (starts : s1.pastTerminators.kind? = some .kwIn)
    (clause_list : Portable e features (.of .clauses) s1.pastTerminators clauses s2)
    (other : s2.Next .kwElse alternative r2)
    (statements : Portable e features (.of (.statements [.kwEnd])) (s2.leaving r2) otherwise s3)
    (closer : s3.Next .kwEnd last r3) :
    Portable e features .primary s
      (caseNode keyword subject clauses (some alternative) otherwise last) (s3.leaving r3) := by
  refine ⟨.caseElse on next matched.read starts clause_list.read other statements.read closer,
    fun fits => ?_⟩
  have past := next.past.on matched.read.past
  have past' := ((past.on (past_terminators _)).on clause_list.read.past).on other.past
  have matched' := matched.amid ⟨trivial, trivial, trivial, fits.present.of_past next.past⟩
  obtain ⟨starts', clauses'⟩ :=
    caseClauses starts clause_list (fits.present.of_past past) other
  have otherwise' := statements.inside fits.present past' closer
  exact .of_value (.caseElse on next.amid matched' starts' clauses' other.amid otherwise'
    closer.amid) (caseNode_moved _ _ _ (some _) _ statements.read.statements_ranged)

theorem dotCall {dot selector : Token} {called : Node} (next : s.Next .dot dot r1)
    (named : (s.leaving r1).Next .identifier selector r2)
    (sent : Portable e features (.call (some receiver) (some dot) selector) (s.leaving r2)
      called s1)
    (rest : Portable e features (.of (.callsAfter called)) s1 node s2) :
    Portable e features (.of (.callsAfter receiver)) s node s2 := by
  refine ⟨.dotCall next named sent.read rest.read, fun fits => ?_⟩
  have past := next.past.on named.past
  have called := sent.read.shaped (fromExpression_call fits.given)
  exact .dotCall next.amid named.amid
    (sent.amid ⟨fromExpression_call fits.given, trivial, trivial, fits.present.of_past past⟩)
    (rest.amid ⟨called, trivial, trivial, fits.present.of_past (past.on sent.read.past)⟩)

theorem call {caller : Option Node} {dot : Option Token} {selector : Token} {given : Actuals}
    (actuals : Portable e features .actuals s given s1)
    (block : Portable e features
      (.blockAfter (recordedCall s.book.context caller dot selector given)) s1 node s2) :
    Portable e features (.call caller dot selector) s node s2 := by
  refine ⟨.call actuals.read block.read, fun fits => ?_⟩
  have actuals' := actuals.amid ⟨trivial, trivial, trivial, fits.present⟩
  have block' := block.amid ⟨recordedCall_isExpression _ _ _ _ _, trivial, trivial,
    fits.present.of_past actuals.read.past⟩
  have called := recordedCall_moved (n := e.shift) s.book.context dot selector given
    fun node mem => (fits.given node mem).ranged
  exact .call actuals' (called ▸ block')

theorem emptyParens (open_paren : s.Next .lparen first r1) (adjacent : first.spaced = false)
    (close_paren : ((s.leaving r1).nested .openParen).pastNewlines.Next .rparen last r2) :
    Portable e features .actuals s
      { parens := some (first.span, last.span), last := some last.span } (s.leaving r2) := by
  refine ⟨.emptyParens open_paren adjacent close_paren, fun _ => ?_⟩
  have close_paren' := close_paren.amid (e := e)
  rw [amid_pastNewlines (apart_of_past close_paren.past)] at close_paren'
  exact .emptyParens open_paren.amid adjacent close_paren'

theorem parens (open_paren : s.Next .lparen first r1) (adjacent : first.spaced = false)
    (filled : ((s.leaving r1).nested .openParen).pastNewlines.kind? ≠ some .rparen)
    (arguments : Portable e features (.of (.arguments false))
      ((s.leaving r1).nested .openParen).pastNewlines nodes s1)
    (close_paren : s1.pastNewlines.Next .rparen last r2) :
    Portable e features .actuals s
      { nodes, parens := some (first.span, last.span), last := some last.span }
      ((s1.leaving r2).nested .closeParen) := by
  refine ⟨.parens open_paren adjacent filled arguments.read close_paren, fun fits => ?_⟩
  have past := open_paren.past.on (past_newlines _)
  have arguments' := arguments.amid ⟨trivial, trivial, trivial, fits.present.of_past past⟩
  have close_paren' := close_paren.amid (e := e)
  have filled' := kind?_amid_ne (e := e) filled (by decide)
  rw [amid_pastNewlines (apart_of_past close_paren.past)] at close_paren'
  rw [amid_pastNewlines (apart_of_past arguments.read.past)] at arguments' filled'
  exact .parens open_paren.amid adjacent filled' arguments' close_paren'

theorem commandArguments (apart : ¬ s.Adjacent .lparen)
    (starts : startsCommand features s.rest = true)
    (arguments : Portable e features (.of (.arguments true)) (s.nested (·.pushCmdarg true))
      nodes s1) :
    Portable e features .actuals s { nodes, last := nodes.getLast?.map Node.range }
      (s1.nested .popCmdarg) := by
  refine ⟨.commandArguments apart starts arguments.read, fun fits => ?_⟩
  have arguments' := arguments.amid ⟨trivial, trivial, trivial, fits.present⟩
  refine .of_value (.commandArguments (not_adjacent_amid apart (by decide))
    ((startsCommand_tokens _).trans starts) arguments') ?_
  exact congrArg (Actuals.mk _ _) (lastRange_moved (arguments.read.shaped trivial))

theorem moreArguments {command : Bool}
    (argument : Portable e features (.argument command) s node s1)
    (next : s1.Next .comma comma r)
    (rest : Portable e features (.of (.arguments false)) (s1.leaving r).pastNewlines more s2) :
    Portable e features (.of (.arguments command)) s (node :: more) s2 := by
  refine ⟨.moreArguments argument.read next rest.read, fun fits => ?_⟩
  have past := (argument.read.past.on next.past).on (past_newlines _)
  have argument' := argument.amid ⟨trivial, trivial, trivial, fits.present⟩
  have rest' := rest.amid ⟨trivial, trivial, trivial, fits.present.of_past past⟩
  rw [amid_pastNewlines (apart_of_past rest.read.past)] at rest'
  exact .moreArguments argument' next.amid rest'

theorem signedArgument {command : Bool} {signed : NodeKind}
    (signs : argumentSign? (some kind) = some signed) (next : s.Next kind sign r)
    (unsigned : Portable e features (.of (.operators 0)) (s.leaving r) operand s1) :
    Portable e features (.argument command) s
      (.located signed [.node operand] (some (sign.span.join operand.range))
        [("operator", some sign.span)])
      (if command then s1.reporting (ambiguity sign operand) else s1) := by
  refine ⟨.signedArgument signs next unsigned.read, fun fits => ?_⟩
  have unsigned' := unsigned.amid ⟨trivial, trivial, trivial, fits.present.of_past next.past⟩
  have ranged := (unsigned.read.shaped trivial).ranged
  have range := ranged.moved_range (n := e.shift)
  rw [amid_reporting_if, ← ambiguity_moved _ ranged]
  refine .of_value (.signedArgument signs next.amid unsigned') ?_
  simp [Phrase.later, Node.moved_located, Node.movedField, range, Span.moved_join]

theorem block {target : Node} {close : TokenKind} {parameters : Node × Bool}
    (closes : blockClose? s = some close) (read : s.rest = first :: r1)
    (declared : BlockParameters
      (((s.leaving r1).nested .saveStacks).keeping (·.openScope true)) parameters s1)
    (statements : Portable e features (.of (.statements [close]))
      ((s1.keeping (·.openNumbering (.body 0 parameters.2))).flagged
        [(.inBlock, true), (.inLambda, false)]) body s2)
    (closer : s2.Next close last r2) :
    Portable e features (.blockAfter target) s
      (closureNode target parameters.1 s2.book.numbering.head? body
        (target.range.join last.span) first last)
      ((s2.leaving r2).keeping (·.endBody s1.book.context)) := by
  refine ⟨.block closes read declared statements.read closer, fun fits => ?_⟩
  have opener : s.Next first.kind first r1 := ⟨read, rfl⟩
  have body' := statements.inside fits.present (opener.past.on declared.past) closer
  refine .of_value (.block (blockClose?_amid.trans closes) opener.amid.eq declared.amid
    body' closer.amid) ?_
  refine Eq.trans ?_ (closureNode_moved _ _ _ _ statements.read.statements_ranged)
  rw [Span.moved_join, ← fits.given.ranged.moved_range]
  rfl

theorem hashPattern (open_brace : s.Next .lbrace first r1)
    (entries : Portable e features (.of .entries)
      ((s.leaving r1).pastNewlines.keeping fun book =>
        { book with patternKeys := [] :: book.patternKeys }) nodes s1)
    (close_brace : s1.pastNewlines.Next .rbrace last r2) :
    Portable e features (.of .pattern) s
      (.located .hashPattern (nodes.map .node) (some (first.span.join last.span))
        [("begin", some first.span), ("end", some last.span)])
      ((s1.leaving r2).keeping fun book => { book with patternKeys := book.patternKeys.tail }) := by
  refine ⟨.hashPattern open_brace entries.read close_brace, fun fits => ?_⟩
  have apart := apart_of_past (e := e) close_brace.past
  have start := apart.of_past (entries.read.past.on (past_newlines _))
  have entries' := entries.amid ⟨trivial, trivial, apart.of_past (past_newlines _),
    fits.present.of_past (open_brace.past.on (past_newlines _))⟩
  have close_brace' := close_brace.amid (e := e)
  rw [amid_pastNewlines apart] at close_brace'
  rw [amid_keeping, amid_pastNewlines start] at entries'
  refine .of_value (.hashPattern open_brace.amid entries' close_brace') ?_
  simp [Phrase.later, Node.moved_located, Node.movedField, Span.moved_join]

theorem lastEntry (next : s.Next .label label r)
    (only : Portable e features (.entry label) (s.leaving r) node s1)
    (noComma : s1.kind? ≠ some .comma) : Portable e features (.of .entries) s [node] s1 := by
  refine ⟨.lastEntry next only.read noComma, fun fits => ?_⟩
  have positive := fits.present _ (next.eq ▸ List.mem_cons_self)
  have only' := only.amid ⟨trivial, positive, trivial, fits.present.of_past next.past⟩
  exact .lastEntry next.amid only' (kind?_amid_ne noComma (by decide))

theorem moreEntries (next : s.Next .label label r1)
    (entry : Portable e features (.entry label) (s.leaving r1) node s1)
    (separator : s1.Next .comma comma r2)
    (rest : Portable e features (.of .entries) (s1.leaving r2).pastNewlines more s2) :
    Portable e features (.of .entries) s (node :: more) s2 := by
  refine ⟨.moreEntries next entry.read separator rest.read, fun fits => ?_⟩
  have positive := fits.present _ (next.eq ▸ List.mem_cons_self)
  have past := ((next.past.on entry.read.past).on separator.past).on (past_newlines _)
  have entry' := entry.amid ⟨trivial, positive, trivial, fits.present.of_past next.past⟩
  have rest' := rest.amid ⟨trivial, trivial, fits.ends, fits.present.of_past past⟩
  rw [amid_pastNewlines (fits.ends.of_past rest.read.past)] at rest'
  exact .moreEntries next.amid entry' separator.amid rest'

theorem bareEntry {keys : List (List String)} {book : Bookkeeping}
    (enters : Bookkeeping.enter? (keyOf label) s.book.patternKeys = some keys)
    (ends : ∃ kind ∈ s.kind?, kind ∈ [TokenKind.comma, .rbrace, .newline])
    (binds : Bookkeeping.Binds (keyOf label) { s.book with patternKeys := keys } book) :
    Portable e features (.entry label) s (matchVariableNode (keyOf label) (keySpan label))
      (s.keeping fun _ => book) := by
  refine ⟨.bareEntry enters ends binds, fun _ => ?_⟩
  obtain ⟨kind, here, among⟩ := ends
  refine .of_value (.bareEntry enters ⟨kind, kind?_amid_of_some here, among⟩ binds) ?_
  exact (congrArg _ (keySpan_moved _)).trans (matchVariableNode_moved _ _)

theorem pairEntry {keys : List (List String)}
    (enters : Bookkeeping.enter? (keyOf label) s.book.patternKeys = some keys)
    (goes : ∀ kind ∈ s.kind?, kind ∉ [TokenKind.comma, .rbrace, .newline])
    (matched : Portable e features (.of .pattern)
      (s.keeping fun book => { book with patternKeys := keys }) value s1) :
    Portable e features (.entry label) s (pairNode label value) s1 := by
  refine ⟨.pairEntry enters goes matched.read, fun fits => ?_⟩
  have matched' := matched.amid ⟨trivial, trivial, trivial, fits.present⟩
  have same := kind?_amid_of_apart (apart_of_past (e := e) matched.read.past)
  refine .of_value (.pairEntry enters (same ▸ goes) matched') ?_
  exact pairNode_moved fits.label (matched.read.shaped trivial)

theorem clause {pattern : Node} {opener : Option Token} (next : s.Next .kwIn keyword r1)
    (matched : Portable e features (.of .pattern)
      (((s.leaving r1).keeping fun book =>
        { book with patternVariables := [] :: book.patternVariables }).flagged
        [(.inKwarg, true)]) pattern s1)
    (same : s2 = (s1.restoring s.book.context).keeping fun book =>
      { book with patternVariables := book.patternVariables.tail })
    (eats : s2.Eats .kwThen opener r2) (opened : (s2.leaving r2).Opened opener)
    (statements : Portable e features (.of (.statements [.kwIn, .kwElse, .kwEnd]))
      (s2.leaving r2) body s3) :
    Portable e features .clause s (clauseNode keyword pattern opener body) s3 := by
  refine ⟨.clause next matched.read same eats opened statements.read, fun fits => ?_⟩
  subst same
  have past := (next.past.on matched.read.past).on eats.past
  have matched' := matched.amid ⟨trivial, trivial, trivial, fits.present.of_past next.past⟩
  have body' := statements.amid ⟨trivial, trivial, fits.ends, fits.present.of_past past⟩
  refine .of_value (.clause next.amid matched' rfl (eats.amid (by decide)) opened.amid body') ?_
  exact clauseNode_moved _ _ (matched.read.shaped trivial) statements.read.statements_ranged

end Rules

end Portable

variable {phrase : Phrase} {value : phrase.Result}

/-- Every phrase is read among other tokens as it is without them: by induction on how it is read,
with a lemma for each rule. -/
theorem Derives.portable (h : Derives features phrase s value t) :
    Portable e features phrase s value t := by
  induction h with
  | noStatements stop => exact .noStatements stop
  | lastStatement starts _ noBreak stop ih => exact .lastStatement starts ih noBreak stop
  | moreStatements starts _ breaks _ ih1 ih2 => exact .moreStatements starts ih1 breaks ih2
  | assignment name operator _ ih => exact .assignment name operator ih
  | unassigned noAssign operators ih =>
    refine ⟨.unassigned noAssign operators, fun fits => ?_⟩
    exact .unassigned (not_assigns_amid noAssign)
      (ih.amid ⟨trivial, trivial, trivial, fits.present⟩)
  | operators left rest ih1 ih2 =>
    refine ⟨.operators left rest, fun fits => ?_⟩
    exact .operators (ih1.amid ⟨trivial, trivial, trivial, fits.present⟩)
      (ih2.amid ⟨left.shaped trivial, trivial, trivial, fits.present.of_past left.past⟩)
  | noOperator loose => exact .noOperator loose
  | operator binds tighter operator _ _ ih1 ih2 => exact .operator binds tighter operator ih1 ih2
  | negative sign digits unspaced value => exact .negative sign digits unspaced value
  | minus sign apart _ ih => exact .minus sign apart ih
  | bang sign _ ih => exact .bang sign ih
  | chain noMinus noBang receiver rest ih1 ih2 =>
    refine ⟨.chain noMinus noBang receiver rest, fun fits => ?_⟩
    exact .chain (kind?_amid_ne noMinus (by decide)) (kind?_amid_ne noBang (by decide))
      (ih1.amid ⟨trivial, trivial, trivial, fits.present⟩)
      (ih2.amid ⟨receiver.shaped trivial, trivial, trivial, fits.present.of_past receiver.past⟩)
  | integer token value => exact .integer token value
  | string token => exact .string token
  | symbol token =>
    exact ⟨.symbol token, fun _ => .of_value (.symbol token.amid) (symbolNode_moved _)⟩
  | keyword value token =>
    exact ⟨.keyword value token, fun _ => .of_value (.keyword value token.amid) (leaf_moved _ _)⟩
  | constant token =>
    exact ⟨.constant token, fun _ => .of_value (.constant token.amid) (constantNode_moved _)⟩
  | adjacentCall token adjacent called ih =>
    refine ⟨.adjacentCall token adjacent called, fun fits => ?_⟩
    exact .adjacentCall token.amid adjacent.amid
      (ih.amid ⟨fromExpression_word, trivial, trivial, fits.present.of_past token.past⟩)
  | numberedVariable token apart use =>
    refine ⟨.numberedVariable token apart use, fun _ => ?_⟩
    exact .of_value (.numberedVariable token.amid (not_adjacent_amid apart (by decide)) use)
      (variableNode_moved _)
  | localVariable token apart unnumbered isLocal =>
    refine ⟨.localVariable token apart unnumbered isLocal, fun _ => ?_⟩
    exact .of_value (.localVariable token.amid (not_adjacent_amid apart (by decide)) unnumbered
      isLocal) (variableNode_moved _)
  | wordCall token apart unnumbered unknown called ih =>
    refine ⟨.wordCall token apart unnumbered unknown called, fun fits => ?_⟩
    exact .wordCall token.amid (not_adjacent_amid apart (by decide)) unnumbered unknown
      (ih.amid ⟨fromExpression_word, trivial, trivial, fits.present.of_past token.past⟩)
  | parenthesized first _ last ih => exact .parenthesized first ih last
  | lambda on arrow parameters closes first _ last ih =>
    exact .lambda on arrow parameters closes first ih last
  | method keyword name parameters _ last ih => exact .method keyword name parameters ih last
  | classDefinition keyword outside name _ last ih =>
    exact .classDefinition keyword outside name ih last
  | whileLoop keyword _ opener opened _ last ih1 ih2 =>
    exact .whileLoop keyword ih1 opener opened ih2 last
  | definedWord keyword word _ ih => exact .definedWord keyword word ih
  | definedParens keyword first _ last ih => exact .definedParens keyword first ih last
  | caseMatch on keyword _ starts _ last ih1 ih2 =>
    exact .caseMatch on keyword ih1 starts ih2 last
  | caseElse on keyword _ starts _ alternative _ last ih1 ih2 ih3 =>
    exact .caseElse on keyword ih1 starts ih2 alternative ih3 last
  | noCall noDot => exact ⟨.noCall noDot, fun _ => .noCall (kind?_amid_ne noDot (by decide))⟩
  | dotCall dot selector _ _ ih1 ih2 => exact .dotCall dot selector ih1 ih2
  | call _ _ ih1 ih2 => exact .call ih1 ih2
  | emptyParens first unspaced last => exact .emptyParens first unspaced last
  | parens first unspaced some _ last ih => exact .parens first unspaced some ih last
  | commandArguments apart starts _ ih => exact .commandArguments apart starts ih
  | noActuals apart starts =>
    refine ⟨.noActuals apart starts, fun _ => ?_⟩
    exact .noActuals (not_adjacent_amid apart (by decide)) ((startsCommand_tokens _).trans starts)
  | lastArgument node noComma ih =>
    refine ⟨.lastArgument node noComma, fun fits => ?_⟩
    exact .lastArgument (ih.amid ⟨trivial, trivial, trivial, fits.present⟩)
      (kind?_amid_ne noComma (by decide))
  | moreArguments _ comma _ ih1 ih2 => exact .moreArguments ih1 comma ih2
  | plainArgument unsigned node ih =>
    refine ⟨.plainArgument unsigned node, fun fits => ?_⟩
    have same := kind?_amid_of_apart (apart_of_past (e := e) node.past)
    exact .plainArgument (same ▸ unsigned) (ih.amid ⟨trivial, trivial, trivial, fits.present⟩)
  | signedArgument sign operator _ ih => exact .signedArgument sign operator ih
  | noBlock none => exact ⟨.noBlock none, fun _ => .noBlock (blockClose?_amid.trans none)⟩
  | block closes first parameters _ last ih => exact .block closes first parameters ih last
  | variablePattern token binds =>
    refine ⟨.variablePattern token binds, fun _ => ?_⟩
    exact .of_value (.variablePattern token.amid binds) (matchVariableNode_moved _ _)
  | hashPattern first _ last ih => exact .hashPattern first ih last
  | valuePattern starts node ih =>
    refine ⟨.valuePattern starts node, fun fits => ?_⟩
    have same := kind?_amid_of_apart (apart_of_past (e := e) node.past)
    exact .valuePattern (same ▸ starts) (ih.amid ⟨trivial, trivial, trivial, fits.present⟩)
  | noEntries noLabel =>
    exact ⟨.noEntries noLabel, fun _ => .noEntries (kind?_amid_ne noLabel (by decide))⟩
  | lastEntry label _ noComma ih => exact .lastEntry label ih noComma
  | moreEntries label _ comma _ ih1 ih2 => exact .moreEntries label ih1 comma ih2
  | bareEntry enters stop binds => exact .bareEntry enters stop binds
  | pairEntry enters more _ ih => exact .pairEntry enters more ih
  | noClauses noIn =>
    exact ⟨.noClauses noIn, fun _ => .noClauses (kind?_amid_ne noIn (by decide))⟩
  | moreClauses node more ih1 ih2 =>
    refine ⟨.moreClauses node more, fun fits => ?_⟩
    exact .moreClauses (ih1.amid ⟨trivial, trivial, fits.ends.of_past more.past, fits.present⟩)
      (ih2.amid ⟨trivial, trivial, fits.ends, fits.present.of_past node.past⟩)
  | clause keyword _ same opener opened _ ih1 ih2 =>
    exact .clause keyword ih1 same opener opened ih2

/-- Every phrase is read among other tokens as it is without them. -/
theorem Derives.amid (h : Derives features phrase s value t) (fits : phrase.Fits e s t) :
    Derives features (phrase.moved e.shift) (s.amid e) (phrase.later e.shift value) (t.amid e) :=
  h.portable.amid fits

end Conformance.Dialect.Grammar
