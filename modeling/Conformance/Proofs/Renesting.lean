import Conformance.Proofs.Nestings

/-! Phrases in another nesting. A phrase is read in the same way where the word `do` may open a
block as where it may not, unless a `do` block of the phrase, or the word `do` after it, makes a
difference. -/

namespace Conformance.Dialect.Grammar

variable {source : String} {features : Features} {s t : ParseState} {n : Nesting} {phrase : Phrase}
  {value : phrase.Result}

open ParseState

/-! ### Rules

One lemma for each rule takes what is read in it in other nestings to the whole. -/

/-- A phrase that is read from one state on to another, and in other nestings in the same way, where
no `do` makes a difference. -/
structure Renestable (source : String) (features : Features) (phrase : Phrase) (s : ParseState)
    (value : phrase.Result) (t : ParseState) : Prop where
  read : Derives features phrase s value t
  under : ∀ {inside : Bool} {n : Nesting}, phrase.Renests source inside n s value t →
    Derives features phrase (s.under n) value (t.under n)

namespace Renestable

section Rules

variable {s1 s2 s3 : ParseState} {stops : List TokenKind} {kind : TokenKind}
  {node left right operand receiver subject : Node} {nodes more body clauses : List Node}
  {token keyword name sign label comma first last : Token} {r r1 r2 r3 : List Token}

/-- What a delimiter opens is read in the nesting that it makes, whatever stands outside. -/
theorem delimited {k : Nat} {tokens : List Token}
    (h : Renestable source features phrase s value t)
    (level : s.book.nesting.inside = n.inside) (spelled : SpellsDo source tokens)
    (past : Past k tokens s.rest) (called : phrase.Called) :
    Derives features phrase (s.under n) value (t.under n) :=
  h.under (.level level (spelled.on past) called)

theorem lastStatement (starts : ¬ s.pastTerminators.Stops stops)
    (only : Renestable source features (.of .expression) s.pastTerminators node s1)
    (noBreak : ¬ s1.Breaks) (stop : s1.Stops stops) :
    Renestable source features (.of (.statements stops)) s [node] s1 := by
  refine ⟨.lastStatement starts only.read noBreak stop, fun fits => ?_⟩
  have only' := only.under (fits.part rfl (past_terminators _) trivial
    (fun free => free _ (.head _)) fun _ word => ⟨trivial, word⟩)
  exact .lastStatement (s := s.under _) starts only' noBreak stop

/-- The word `do` is no break between statements. -/
theorem moreStatements (starts : ¬ s.pastTerminators.Stops stops)
    (statement : Renestable source features (.of .expression) s.pastTerminators node s1)
    (breaks : s1.Breaks) (rest : Renestable source features (.of (.statements stops)) s1 more s2) :
    Renestable source features (.of (.statements stops)) s (node :: more) s2 := by
  refine ⟨.moreStatements starts statement.read breaks rest.read, fun fits => ?_⟩
  have past := (past_terminators _).on statement.read.past
  have statement' := statement.under (fits.part rfl (past_terminators _) trivial
    (fun free => free _ (.head _)) fun _ word => by simpa using breaks _ word)
  have rest' := rest.under (fits.part statement.read.inside_eq past trivial
    (fun free node mem => free node (.tail _ mem)) fun _ word => ⟨trivial, word⟩)
  exact .moreStatements (s := s.under _) starts statement' breaks rest'

theorem assignment {operator : Token} {value : Node} (named : s.Next .identifier name r1)
    (assign : (s.leaving r1).Next .assign operator r2)
    (assigned : Renestable source features (.of .expression)
      ((s.leaving r2).pastNewlines.keeping (·.declare name.text)) value s1) :
    Renestable source features (.of .expression) s
      (.located .lvasgn [.sym name.text, .node value] (some (name.span.join value.range))
        [("name", some name.span), ("operator", some operator.span)]) s1 := by
  refine ⟨.assignment named assign assigned.read, fun {_ n} fits => ?_⟩
  have past := (named.past.on assign.past).on (past_newlines _)
  have declared : (s.book.declare name.text).nesting.inside = s.book.nesting.inside :=
    congrArg (·.nesting.inside) (s.book.outline_declare name.text)
  have assigned' := assigned.under (fits.part declared past trivial
    (fun free => free.bared 1 rfl rfl) fun _ word => ⟨trivial, word⟩)
  rw [under_declare] at assigned'
  exact .assignment (s := s.under n) named.under assign.under assigned'

/-- What an operator goes on from is free where the whole is. -/
theorem operators {power : Nat} (operand : Renestable source features (.of .unary) s left s1)
    (rest : Renestable source features (.of (.operatorsAfter power left)) s1 node s2) :
    Renestable source features (.of (.operators power)) s node s2 := by
  refine ⟨.operators operand.read rest.read, fun fits => ?_⟩
  have operand' := operand.under (fits.part rfl (.refl _) trivial
    (fun free => rest.read.given_free free _ (.head _))
    fun _ word => ⟨trivial, rest.read.stuck trivial word⟩)
  have rest' := rest.under (fits.part operand.read.inside_eq operand.read.past trivial id
    fun _ word => ⟨trivial, word⟩)
  exact .operators operand' rest'

theorem operator {power tighter : Nat} (binds : bindingPower? kind = some tighter)
    (tight : power < tighter) (next : s.Next kind token r)
    (operand : Renestable source features (.of (.operators tighter)) (s.leaving r).pastNewlines
      right s1)
    (rest : Renestable source features
      (.of (.operatorsAfter power (operatorNode left token right))) s1 node s2) :
    Renestable source features (.of (.operatorsAfter power left)) s node s2 := by
  refine ⟨.operator binds tight next operand.read rest.read, fun fits => ?_⟩
  have past := next.past.on (past_newlines _)
  have operand' := operand.under (fits.part rfl past trivial
    (fun free => (operands_free (rest.read.given_free free _ (.head _))).2)
    fun _ word => ⟨trivial, rest.read.stuck trivial word⟩)
  have rest' := rest.under (fits.part operand.read.inside_eq (past.on operand.read.past) trivial id
    fun _ word => ⟨trivial, word⟩)
  exact .operator binds tight next.under operand' rest'

theorem minus (next : s.Next .minus sign r) (apart : ¬ (s.leaving r).Adjacent .integer)
    (signed : Renestable source features (.of .unary) (s.leaving r) operand s1) :
    Renestable source features (.of .unary) s (signNode "-@" sign operand) s1 := by
  refine ⟨.minus next apart signed.read, fun fits => ?_⟩
  have signed' := signed.under (fits.part rfl next.past trivial (fun free => free.bared 0 rfl rfl)
    fun _ word => ⟨trivial, word⟩)
  exact .minus (s := s.under _) next.under (fun digits => apart (adjacent_under.1 digits)) signed'

theorem bang (next : s.Next .bang sign r)
    (signed : Renestable source features (.of .unary) (s.leaving r) operand s1) :
    Renestable source features (.of .unary) s (signNode "!" sign operand) s1 := by
  refine ⟨.bang next signed.read, fun fits => ?_⟩
  have signed' := signed.under (fits.part rfl next.past trivial (fun free => free.bared 0 rfl rfl)
    fun _ word => ⟨trivial, word⟩)
  exact .bang (s := s.under _) next.under signed'

theorem chain (noMinus : s.kind? ≠ some .minus) (noBang : s.kind? ≠ some .bang)
    (value : Renestable source features .primary s receiver s1)
    (rest : Renestable source features (.of (.callsAfter receiver)) s1 node s2) :
    Renestable source features (.of .unary) s node s2 := by
  refine ⟨.chain noMinus noBang value.read rest.read, fun fits => ?_⟩
  have value' := value.under (fits.part rfl (.refl _) trivial
    (fun free => rest.read.given_free free _ (.head _))
    fun _ word => ⟨trivial, rest.read.stuck trivial word⟩)
  have rest' := rest.under (fits.part value.read.inside_eq value.read.past trivial id
    fun _ word => ⟨trivial, word⟩)
  exact .chain (s := s.under _) noMinus noBang value' rest'

/-- A name starts nothing that a keyword of its own ends. -/
theorem word_open (next : s.Next .identifier token r) : Phrase.primary.Open s := by
  simp [Phrase.Open, next.kind?_eq, startsConstruct]

theorem adjacentCall (next : s.Next .identifier token r)
    (adjacent : (s.leaving r).Adjacent .lparen)
    (called : Renestable source features (.call none none token) (s.leaving r) node s1) :
    Renestable source features .primary s node s1 := by
  refine ⟨.adjacentCall next adjacent called.read, fun fits => ?_⟩
  have called' := called.under (fits.part rfl next.past trivial id
    fun _ word => ⟨word_open next, word⟩)
  exact .adjacentCall (s := s.under _) next.under (adjacent_under.2 adjacent) called'

theorem wordCall (next : s.Next .identifier token r)
    (apart : ¬ (s.leaving r).Adjacent .lparen)
    (unnumbered : numberedUse? features s.book token.text = none)
    (hidden : s.book.isLocal token.text = false)
    (called : Renestable source features (.call none none token) (s.leaving r) node s1) :
    Renestable source features .primary s node s1 := by
  refine ⟨.wordCall next apart unnumbered hidden called.read, fun fits => ?_⟩
  have called' := called.under (fits.part rfl next.past trivial id
    fun _ word => ⟨word_open next, word⟩)
  exact .wordCall (s := s.under _) next.under (fun paren => apart (adjacent_under.1 paren))
    unnumbered hidden called'

theorem parenthesized (open_paren : s.Next .lparen first r1)
    (statements : Renestable source features (.of (.statements [.rparen]))
      ((s.leaving r1).nested .openParen) body s1)
    (close_paren : s1.Next .rparen last r2) :
    Renestable source features .primary s
      (.located .begin (body.map .node) (some (first.span.join last.span))
        [("begin", some first.span), ("end", some last.span)])
      ((s1.leaving r2).nested .closeParen) := by
  refine ⟨.parenthesized open_paren statements.read close_paren, fun {_ n} fits => ?_⟩
  have body' := statements.delimited (n := n.openParen) rfl fits.spelled open_paren.past trivial
  exact .parenthesized (s := s.under n) open_paren.under body' close_paren.under

theorem lambda {arrow : Token} {opening closing : TokenKind} {parameters : Node × Bool}
    (on : features.lambda = true) (next : s.Next .arrow arrow r1)
    (declared : ParenthesizedParameters
      (((s.leaving r1).nested .pushLambda).keeping (·.openScope true)) parameters s1)
    (closes : lambdaClose? opening = some closing)
    (opener : (s1.keeping (·.openNumbering (.body 0 parameters.2))).Next opening first r2)
    (statements : Renestable source features (.of (.statements [closing]))
      (((((s1.leaving r2).keeping (·.openNumbering (.body 0 parameters.2))).nested
        .popLambda).nested .saveStacks).flagged [(.inLambda, true), (.inBlock, false)]) body s2)
    (closer : s2.Next closing last r3) :
    Renestable source features .primary s
      (closureNode (leaf .lambda arrow) parameters.1 s2.book.numbering.head? body
        (arrow.span.join last.span) first last)
      ((s2.leaving r3).keeping (·.endBody s1.book.context)) := by
  refine ⟨.lambda on next declared closes opener statements.read closer, fun {_ n} fits => ?_⟩
  have past := (next.past.on declared.past).on opener.past
  have body' := statements.delimited (n := n.pushLambda.popLambda.saveStacks) rfl fits.spelled past
    trivial
  exact .lambda (s := s.under n) on next.under (declared.under (n := n.pushLambda)) closes
    opener.under body' closer.under

theorem method {parameters : Node × Bool} (next : s.Next .kwDef keyword r1)
    (named : (s.leaving r1).Next .identifier name r2)
    (declared : ParenthesizedParameters
      ((((s.leaving r2).nested .saveStacks).keeping (·.openScope false)).keeping
        (·.openNumbering .closed)) parameters s1)
    (statements : Renestable source features (.of (.statements [.kwEnd]))
      (s1.flagged [(.inDef, true), (.inClass, false), (.inBlock, false), (.inLambda, false)])
      body s2)
    (closer : s2.Next .kwEnd last r3) :
    Renestable source features .primary s
      (.located .method [.sym name.text, .node parameters.1, .ofOption (sequence body)]
        (some (keyword.span.join last.span))
        [("keyword", some keyword.span), ("name", some name.span), ("end", some last.span)])
      ((s2.leaving r3).keeping (·.endBody s1.book.context)) := by
  refine ⟨.method next named declared statements.read closer, fun {_ n} fits => ?_⟩
  have past := (next.past.on named.past).on declared.past
  have hidden := congrArg Nesting.inside declared.nesting_eq
  have body' := statements.delimited (n := n.saveStacks) hidden fits.spelled past trivial
  exact .method (s := s.under n) next.under named.under (declared.under (n := n.saveStacks)) body'
    closer.under

theorem classDefinition (next : s.Next .kwClass keyword r1)
    (outside : s.book.context.inDef = false) (named : (s.leaving r1).Next .constant name r2)
    (statements : Renestable source features (.of (.statements [.kwEnd]))
      (((((s.leaving r2).nested .saveStacks).keeping (·.openScope false)).keeping
        (·.openNumbering .closed)).flagged
        [(.inClass, true), (.inDef, false), (.inBlock, false), (.inLambda, false)]) body s1)
    (closer : s1.Next .kwEnd last r3) :
    Renestable source features .primary s
      (.located .classDef [.node (constantNode name), .nil, .ofOption (sequence body)]
        (some (keyword.span.join last.span))
        [("keyword", some keyword.span), ("end", some last.span)])
      ((s1.leaving r3).keeping (·.endBody s.book.context)) := by
  refine ⟨.classDefinition next outside named statements.read closer, fun {_ n} fits => ?_⟩
  have past := next.past.on named.past
  have body' := statements.delimited (n := n.saveStacks) rfl fits.spelled past trivial
  exact .classDefinition (s := s.under n) next.under outside named.under body' closer.under

/-- The condition is read in a nesting of its own, the body in that of the whole. -/
theorem whileLoop {condition : Node} {opener : Option Token} (next : s.Next .kwWhile keyword r1)
    (tested : Renestable source features (.of .expression) ((s.leaving r1).nested (·.pushCond true))
      condition s1)
    (eats : (s1.nested .popCond).Eats .kwDo opener r2) (opened : (s1.leaving r2).Opened opener)
    (statements : Renestable source features (.of (.statements [.kwEnd]))
      ((s1.nested .popCond).leaving r2) body s2)
    (closer : s2.Next .kwEnd last r3) :
    Renestable source features .primary s
      (.located .whileLoop [.node condition, .ofOption (sequence body)]
        (some (keyword.span.join last.span))
        [("keyword", some keyword.span), ("begin", opener.map Token.span),
          ("end", some last.span)])
      (s2.leaving r3) := by
  refine ⟨.whileLoop next tested.read eats opened statements.read closer, fun {_ n} fits => ?_⟩
  have past := (next.past.on tested.read.past).on eats.past
  have around := congrArg (fun n : Nesting => n.popCond.inside) tested.read.nesting_eq
  have tested' := tested.delimited (n := n.pushCond true) rfl fits.spelled next.past trivial
  have body' := statements.under (fits.part around past trivial
    (fun free => free.of_ofOption 1 rfl rfl) fun _ word => by simp [closer.kind?_eq] at word)
  exact .whileLoop (s := s.under n) next.under tested' eats.under opened body' closer.under

theorem definedWord (next : s.Next .kwDefined keyword r)
    (noParen : (s.leaving r).kind? ≠ some .lparen)
    (checked : Renestable source features (.of .expression)
      ((s.leaving r).flagged [(.inDefined, true)]) operand s1) :
    Renestable source features .primary s
      (.located .definedCheck [.node operand] (some (keyword.span.join operand.range))
        [("keyword", some keyword.span), ("begin", none), ("end", none)])
      (s1.restoring s.book.context) := by
  refine ⟨.definedWord next noParen checked.read, fun {_ n} fits => ?_⟩
  have opens : Phrase.primary.Open s := by simp [Phrase.Open, next.kind?_eq, startsConstruct]
  have checked' := checked.under (fits.part rfl next.past trivial
    (fun free => free.bared 0 rfl rfl) fun _ word => ⟨opens, word⟩)
  exact .definedWord (s := s.under n) next.under noParen checked'

theorem definedParens (next : s.Next .kwDefined keyword r1)
    (open_paren : (s.leaving r1).Next .lparen first r2)
    (checked : Renestable source features (.of .expression)
      (((s.leaving r2).nested .openParen).pastNewlines.flagged [(.inDefined, true)]) operand s1)
    (close_paren : s1.pastNewlines.Next .rparen last r3) :
    Renestable source features .primary s
      (.located .definedCheck [.node operand] (some (keyword.span.join last.span))
        [("keyword", some keyword.span), ("begin", some first.span), ("end", some last.span)])
      (((s1.restoring s.book.context).leaving r3).nested .closeParen) := by
  refine ⟨.definedParens next open_paren checked.read close_paren, fun {_ n} fits => ?_⟩
  have past := (next.past.on open_paren.past).on (past_newlines _)
  have checked' := checked.delimited (n := n.openParen) rfl fits.spelled past trivial
  exact .definedParens (s := s.under n) next.under open_paren.under checked' close_paren.under

/-- After the subject of a case stands no `do`. -/
theorem caseSubject {whole : Node} (fits : Phrase.primary.Renests source inside n s whole t)
    (next : s.Next .kwCase keyword r1)
    (free : whole.Free source true → subject.Free source true)
    (matched : Renestable source features (.of .expression) (s.leaving r1) subject s1)
    (starts : s1.pastTerminators.kind? = some .kwIn) :
    Derives features (.of .expression) ((s.leaving r1).under n) subject (s1.under n) := by
  refine matched.under (fits.part rfl next.past trivial free fun _ word => ?_)
  exact absurd word (kind?_ne_of_pastTerminators starts (by decide) (by decide))

theorem caseMatch (on : features.patternMatching = true) (next : s.Next .kwCase keyword r1)
    (matched : Renestable source features (.of .expression) (s.leaving r1) subject s1)
    (starts : s1.pastTerminators.kind? = some .kwIn)
    (clause_list : Renestable source features (.of .clauses) s1.pastTerminators clauses s2)
    (closer : s2.Next .kwEnd last r2) :
    Renestable source features .primary s (caseNode keyword subject clauses none [] last)
      (s2.leaving r2) := by
  refine ⟨.caseMatch on next matched.read starts clause_list.read closer, fun {_ n} fits => ?_⟩
  have past := (next.past.on matched.read.past).on (past_terminators _)
  have matched' := caseSubject fits next (fun free => free.bared 0 rfl rfl) matched starts
  have clauses' := clause_list.under (fits.part matched.read.inside_eq past trivial clauses_free
    fun _ word => by simp [closer.kind?_eq] at word)
  exact .caseMatch (s := s.under n) on next.under matched' starts clauses' closer.under

theorem caseElse {alternative : Token} {otherwise : List Node}
    (on : features.patternMatching = true) (next : s.Next .kwCase keyword r1)
    (matched : Renestable source features (.of .expression) (s.leaving r1) subject s1)
    (starts : s1.pastTerminators.kind? = some .kwIn)
    (clause_list : Renestable source features (.of .clauses) s1.pastTerminators clauses s2)
    (other : s2.Next .kwElse alternative r2)
    (statements : Renestable source features (.of (.statements [.kwEnd])) (s2.leaving r2)
      otherwise s3)
    (closer : s3.Next .kwEnd last r3) :
    Renestable source features .primary s
      (caseNode keyword subject clauses (some alternative) otherwise last) (s3.leaving r3) := by
  refine ⟨.caseElse on next matched.read starts clause_list.read other statements.read closer,
    fun {_ n} fits => ?_⟩
  have past := (next.past.on matched.read.past).on (past_terminators _)
  have past' := (past.on clause_list.read.past).on other.past
  have matched' := caseSubject fits next (fun free => free.bared 0 rfl rfl) matched starts
  have clauses' := clause_list.under (fits.part matched.read.inside_eq past trivial clauses_free
    fun _ word => by simp [other.kind?_eq] at word)
  have place := clause_list.read.inside_eq.trans matched.read.inside_eq
  have otherwise' := statements.under (fits.part place past' trivial otherwise_free
    fun _ word => by simp [closer.kind?_eq] at word)
  exact .caseElse (s := s.under n) on next.under matched' starts clauses' other.under otherwise'
    closer.under

theorem dotCall {dot selector : Token} {called : Node} (next : s.Next .dot dot r1)
    (named : (s.leaving r1).Next .identifier selector r2)
    (sent : Renestable source features (.call (some receiver) (some dot) selector) (s.leaving r2)
      called s1)
    (rest : Renestable source features (.of (.callsAfter called)) s1 node s2) :
    Renestable source features (.of (.callsAfter receiver)) s node s2 := by
  refine ⟨.dotCall next named sent.read rest.read, fun fits => ?_⟩
  have past := next.past.on named.past
  have sent' := sent.under (fits.part rfl past trivial
    (fun free => rest.read.given_free free _ (.head _))
    fun _ word => ⟨trivial, rest.read.stuck trivial word⟩)
  have rest' := rest.under (fits.part sent.read.inside_eq (past.on sent.read.past) trivial id
    fun _ word => ⟨trivial, word⟩)
  exact .dotCall (s := s.under _) next.under named.under sent' rest'

/-- A `do` after the arguments of a call may open the block of the call, but none in them. -/
theorem call {caller : Option Node} {dot : Option Token} {selector : Token} {given : Actuals}
    (actuals : Renestable source features .actuals s given s1)
    (block : Renestable source features
      (.blockAfter (recordedCall s.book.context caller dot selector given)) s1 node s2) :
    Renestable source features (.call caller dot selector) s node s2 := by
  refine ⟨.call actuals.read block.read, fun fits => ?_⟩
  have actuals' := actuals.under (fits.part rfl (.refl _) trivial
    (fun free => (callee_free (block.read.given_free free _ (.head _))).2) nofun)
  have block' := block.under (fits.part actuals.read.inside_eq actuals.read.past
    (recordedCall_kind _ _ _ _ _) id fun _ word => ⟨trivial, word⟩)
  exact .call (s := s.under _) actuals' block'

theorem parens (open_paren : s.Next .lparen first r1) (adjacent : first.spaced = false)
    (filled : ((s.leaving r1).nested .openParen).pastNewlines.kind? ≠ some .rparen)
    (arguments : Renestable source features (.of (.arguments false))
      ((s.leaving r1).nested .openParen).pastNewlines nodes s1)
    (close_paren : s1.pastNewlines.Next .rparen last r2) :
    Renestable source features .actuals s
      { nodes, parens := some (first.span, last.span), last := some last.span }
      ((s1.leaving r2).nested .closeParen) := by
  refine ⟨.parens open_paren adjacent filled arguments.read close_paren, fun {_ n} fits => ?_⟩
  have past := open_paren.past.on (past_newlines _)
  have arguments' := arguments.delimited (n := n.openParen) rfl fits.spelled past trivial
  exact .parens (s := s.under n) open_paren.under adjacent filled arguments' close_paren.under

theorem commandArguments (apart : ¬ s.Adjacent .lparen)
    (starts : startsCommand features s.rest = true)
    (arguments : Renestable source features (.of (.arguments true)) (s.nested (·.pushCmdarg true))
      nodes s1) :
    Renestable source features .actuals s { nodes, last := nodes.getLast?.map Node.range }
      (s1.nested .popCmdarg) := by
  refine ⟨.commandArguments apart starts arguments.read, fun {_ n} fits => ?_⟩
  have level : (s.book.nesting.pushCmdarg true).inside = (n.pushCmdarg true).inside :=
    (Bool.or_true _).trans (Bool.or_true _).symm
  have arguments' := arguments.delimited (n := n.pushCmdarg true) level fits.spelled (.refl _)
    trivial
  have apart' : ¬ (s.under n).Adjacent .lparen := fun paren => apart (adjacent_under.1 paren)
  exact .commandArguments apart' starts arguments'

theorem moreArguments {command : Bool}
    (argument : Renestable source features (.argument command) s node s1)
    (next : s1.Next .comma comma r)
    (rest : Renestable source features (.of (.arguments false)) (s1.leaving r).pastNewlines more
      s2) :
    Renestable source features (.of (.arguments command)) s (node :: more) s2 := by
  refine ⟨.moreArguments argument.read next rest.read, fun fits => ?_⟩
  have past := (argument.read.past.on next.past).on (past_newlines _)
  have argument' := argument.under (fits.part rfl (.refl _) trivial (fun free => free _ (.head _))
    fun _ word => by simp [next.kind?_eq] at word)
  have rest' := rest.under (fits.part argument.read.inside_eq past trivial
    (fun free node mem => free node (.tail _ mem)) fun _ word => ⟨trivial, word⟩)
  exact .moreArguments (s := s.under _) argument' next.under rest'

theorem signedArgument {command : Bool} {signed : NodeKind}
    (signs : argumentSign? (some kind) = some signed) (next : s.Next kind sign r)
    (unsigned : Renestable source features (.of (.operators 0)) (s.leaving r) operand s1) :
    Renestable source features (.argument command) s
      (.located signed [.node operand] (some (sign.span.join operand.range))
        [("operator", some sign.span)])
      (if command then s1.reporting (ambiguity sign operand) else s1) := by
  refine ⟨.signedArgument signs next unsigned.read, fun {_ n} fits => ?_⟩
  have unsigned' := unsigned.under (fits.part rfl next.past trivial (signed_free signs)
    fun _ word => ⟨trivial, by split <;> exact word⟩)
  rw [under_reporting_if]
  exact .signedArgument (s := s.under n) signs next.under unsigned'

/-- A `do` that opens a block opens it in another nesting too: if it did not, the block would not be
one of a free node. -/
theorem block {target : Node} {close : TokenKind} {parameters : Node × Bool}
    (closes : blockClose? s = some close) (read : s.rest = first :: r1)
    (declared : BlockParameters
      (((s.leaving r1).nested .saveStacks).keeping (·.openScope true)) parameters s1)
    (statements : Renestable source features (.of (.statements [close]))
      ((s1.keeping (·.openNumbering (.body 0 parameters.2))).flagged
        [(.inBlock, true), (.inLambda, false)]) body s2)
    (closer : s2.Next close last r2) :
    Renestable source features (.blockAfter target) s
      (closureNode target parameters.1 s2.book.numbering.head? body
        (target.range.join last.span) first last)
      ((s2.leaving r2).keeping (·.endBody s1.book.context)) := by
  refine ⟨.block closes read declared statements.read closer, fun {_ n} fits => ?_⟩
  have opener : s.Next first.kind first r1 := ⟨read, rfl⟩
  have hidden := congrArg Nesting.inside declared.nesting_eq
  have body' := statements.delimited (n := n.saveStacks) hidden fits.spelled
    (opener.past.on declared.past) trivial
  have closes' : blockClose? (s.under n) = some close := by
    refine blockClose?_under_eq_some closes fun word own => Bool.eq_false_iff.2 fun new => ?_
    have free := fits.hides new (fits.place.symm.trans own)
    have kind : first.kind = .kwDo := by simpa [kind?, read] using word
    exact opener_ne fits.called free (fits.spelled first (by simp [read]) kind)
  exact .block (s := s.under n) closes' read (declared.under (n := n.saveStacks)) body'
    closer.under

theorem hashPattern (open_brace : s.Next .lbrace first r1)
    (entries : Renestable source features (.of .entries)
      ((s.leaving r1).pastNewlines.keeping fun book =>
        { book with patternKeys := [] :: book.patternKeys }) nodes s1)
    (close_brace : s1.pastNewlines.Next .rbrace last r2) :
    Renestable source features (.of .pattern) s
      (.located .hashPattern (nodes.map .node) (some (first.span.join last.span))
        [("begin", some first.span), ("end", some last.span)])
      ((s1.leaving r2).keeping fun book => { book with patternKeys := book.patternKeys.tail }) := by
  refine ⟨.hashPattern open_brace entries.read close_brace, fun {_ n} fits => ?_⟩
  have past := open_brace.past.on (past_newlines _)
  have entries' := entries.under (fits.part rfl past trivial
    (fun free node mem => free.of_isPlain rfl node (by simpa using mem)) fun _ word =>
      absurd word (kind?_ne_of_pastNewlines close_brace.kind?_eq (by decide) (by decide)))
  exact .hashPattern (s := s.under n) open_brace.under entries' close_brace.under

theorem moreEntries (next : s.Next .label label r1)
    (entry : Renestable source features (.entry label) (s.leaving r1) node s1)
    (separator : s1.Next .comma comma r2)
    (rest : Renestable source features (.of .entries) (s1.leaving r2).pastNewlines more s2) :
    Renestable source features (.of .entries) s (node :: more) s2 := by
  refine ⟨.moreEntries next entry.read separator rest.read, fun fits => ?_⟩
  have past := ((next.past.on entry.read.past).on separator.past).on (past_newlines _)
  have entry' := entry.under (fits.part rfl next.past trivial (fun free => free _ (.head _))
    fun _ word => by simp [separator.kind?_eq] at word)
  have rest' := rest.under (fits.part entry.read.inside_eq past trivial
    (fun free node mem => free node (.tail _ mem)) fun _ word => ⟨trivial, word⟩)
  exact .moreEntries (s := s.under _) next.under entry' separator.under rest'

theorem moreClauses (clause : Renestable source features .clause s node s1)
    (rest : Renestable source features (.of .clauses) s1 more s2) :
    Renestable source features (.of .clauses) s (node :: more) s2 := by
  refine ⟨.moreClauses clause.read rest.read, fun fits => ?_⟩
  have clause' := clause.under (fits.part rfl (.refl _) trivial (fun free => free _ (.head _))
    fun _ word => ⟨trivial, rest.read.stuck trivial word⟩)
  have rest' := rest.under (fits.part clause.read.inside_eq clause.read.past trivial
    (fun free node mem => free node (.tail _ mem)) fun _ word => ⟨trivial, word⟩)
  exact .moreClauses clause' rest'

theorem clause {pattern : Node} {opener : Option Token} (next : s.Next .kwIn keyword r1)
    (matched : Renestable source features (.of .pattern)
      (((s.leaving r1).keeping fun book =>
        { book with patternVariables := [] :: book.patternVariables }).flagged
        [(.inKwarg, true)]) pattern s1)
    (same : s2 = (s1.restoring s.book.context).keeping fun book =>
      { book with patternVariables := book.patternVariables.tail })
    (eats : s2.Eats .kwThen opener r2) (opened : (s2.leaving r2).Opened opener)
    (statements : Renestable source features (.of (.statements [.kwIn, .kwElse, .kwEnd]))
      (s2.leaving r2) body s3) :
    Renestable source features .clause s (clauseNode keyword pattern opener body) s3 := by
  refine ⟨.clause next matched.read same eats opened statements.read, fun {_ n} fits => ?_⟩
  subst same
  have past : Past 1 _ _ := next.past.on matched.read.past
  have apart := kind?_ne_of_opened eats opened
  have matched' := matched.under (fits.part rfl next.past trivial
    (fun free => free.bared 0 rfl rfl) fun _ word => absurd word apart)
  have body' := statements.under (fits.part matched.read.inside_eq (past.on eats.past) trivial
    (fun free => free.of_ofOption 2 rfl rfl) fun _ word => ⟨trivial, word⟩)
  exact .clause (s := s.under n) next.under matched' rfl eats.under opened body'

end Rules

end Renestable

/-- A phrase is read in another nesting as it is in its own: by induction on how it is read, with a
lemma for each rule. -/
theorem Derives.renestable (h : Derives features phrase s value t) :
    Renestable source features phrase s value t := by
  induction h with
  | noStatements stop =>
    exact ⟨.noStatements stop, fun _ => .noStatements (s := under _ _) stop⟩
  | lastStatement noStop _ noBreak stop ih => exact .lastStatement noStop ih noBreak stop
  | moreStatements noStop _ breaks _ ih1 ih2 => exact .moreStatements noStop ih1 breaks ih2
  | assignment name operator _ ih => exact .assignment name operator ih
  | unassigned noAssign operators ih =>
    refine ⟨.unassigned noAssign operators, fun fits => ?_⟩
    exact .unassigned (not_assigns_under noAssign)
      (ih.under (fits.part rfl (.refl _) trivial id fun _ word => ⟨trivial, word⟩))
  | operators _ _ ih1 ih2 => exact .operators ih1 ih2
  | noOperator loose => exact ⟨.noOperator loose, fun _ => .noOperator (s := under _ _) loose⟩
  | operator binds tighter operator _ _ ih1 ih2 => exact .operator binds tighter operator ih1 ih2
  | negative sign digits unspaced value =>
    refine ⟨.negative sign digits unspaced value, fun _ => ?_⟩
    exact .negative (s := under _ _) sign.under digits.under unspaced value
  | minus sign apart _ ih => exact .minus sign apart ih
  | bang sign _ ih => exact .bang sign ih
  | chain noMinus noBang _ _ ih1 ih2 => exact .chain noMinus noBang ih1 ih2
  | integer token value =>
    exact ⟨.integer token value, fun _ => .integer (s := under _ _) token.under value⟩
  | string token => exact ⟨.string token, fun _ => .string (s := under _ _) token.under⟩
  | symbol token => exact ⟨.symbol token, fun _ => .symbol (s := under _ _) token.under⟩
  | keyword value token =>
    exact ⟨.keyword value token, fun _ => .keyword (s := under _ _) value token.under⟩
  | constant token => exact ⟨.constant token, fun _ => .constant (s := under _ _) token.under⟩
  | adjacentCall token adjacent _ ih => exact .adjacentCall token adjacent ih
  | numberedVariable token apart use =>
    refine ⟨.numberedVariable token apart use, fun _ => ?_⟩
    rw [under_useNumber]
    exact .numberedVariable (s := under _ _) token.under
      (fun next => apart (adjacent_under.1 next)) use
  | localVariable token apart unnumbered isLocal =>
    refine ⟨.localVariable token apart unnumbered isLocal, fun _ => ?_⟩
    exact .localVariable (s := under _ _) token.under (fun next => apart (adjacent_under.1 next))
      unnumbered isLocal
  | wordCall token apart unnumbered unknown _ ih =>
    exact .wordCall token apart unnumbered unknown ih
  | parenthesized first _ last ih => exact .parenthesized first ih last
  | lambda on arrow parameters closes first _ last ih =>
    exact .lambda on arrow parameters closes first ih last
  | method keyword name parameters _ last ih => exact .method keyword name parameters ih last
  | classDefinition keyword outside name _ last ih =>
    exact .classDefinition keyword outside name ih last
  | whileLoop keyword _ opener opened _ last ih1 ih2 =>
    exact .whileLoop keyword ih1 opener opened ih2 last
  | definedWord keyword word _ ih => exact .definedWord keyword word ih
  | definedParens keyword first _ last ih => exact .definedParens keyword first ih last
  | caseMatch on keyword _ starts _ last ih1 ih2 =>
    exact .caseMatch on keyword ih1 starts ih2 last
  | caseElse on keyword _ starts _ alternative _ last ih1 ih2 ih3 =>
    exact .caseElse on keyword ih1 starts ih2 alternative ih3 last
  | noCall noDot => exact ⟨.noCall noDot, fun _ => .noCall (s := under _ _) noDot⟩
  | dotCall dot selector _ _ ih1 ih2 => exact .dotCall dot selector ih1 ih2
  | call _ _ ih1 ih2 => exact .call ih1 ih2
  | emptyParens first unspaced last =>
    refine ⟨.emptyParens first unspaced last, fun _ => ?_⟩
    exact .emptyParens (s := under _ _) first.under unspaced last.under
  | parens first unspaced some _ last ih => exact .parens first unspaced some ih last
  | commandArguments apart starts _ ih => exact .commandArguments apart starts ih
  | noActuals apart starts =>
    refine ⟨.noActuals apart starts, fun _ => ?_⟩
    exact .noActuals (s := under _ _) (fun next => apart (adjacent_under.1 next)) starts
  | lastArgument argument noComma ih =>
    refine ⟨.lastArgument argument noComma, fun fits => ?_⟩
    exact .lastArgument (s := under _ _) (ih.under (fits.part rfl (.refl _) trivial
      (fun free => free _ (.head _)) fun _ word => ⟨trivial, word⟩)) noComma
  | moreArguments _ comma _ ih1 ih2 => exact .moreArguments ih1 comma ih2
  | plainArgument unsigned expression ih =>
    refine ⟨.plainArgument unsigned expression, fun fits => ?_⟩
    exact .plainArgument (s := under _ _) unsigned
      (ih.under (fits.part rfl (.refl _) trivial id fun _ word => ⟨trivial, word⟩))
  | signedArgument sign operator _ ih => exact .signedArgument sign operator ih
  | noBlock none =>
    refine ⟨.noBlock none, fun fits => .noBlock (blockClose?_under_eq_none none fun new own => ?_)⟩
    exact fits.ends trivial new (fits.place.symm.trans own)
  | block closes first parameters _ last ih => exact .block closes first parameters ih last
  | variablePattern token binds =>
    refine ⟨.variablePattern token binds, fun _ => ?_⟩
    exact .variablePattern (s := under _ _) token.under (binds.under _)
  | hashPattern first _ last ih => exact .hashPattern first ih last
  | valuePattern starts value ih =>
    refine ⟨.valuePattern starts value, fun fits => ?_⟩
    exact .valuePattern (s := under _ _) starts
      (ih.under (fits.part rfl (.refl _) trivial id fun _ word => ⟨trivial, word⟩))
  | noEntries noLabel => exact ⟨.noEntries noLabel, fun _ => .noEntries (s := under _ _) noLabel⟩
  | lastEntry label entry noComma ih =>
    refine ⟨.lastEntry label entry noComma, fun fits => ?_⟩
    exact .lastEntry (s := under _ _) label.under (ih.under (fits.part rfl label.past trivial
      (fun free => free _ (.head _)) fun _ word => ⟨trivial, word⟩)) noComma
  | moreEntries label _ comma _ ih1 ih2 => exact .moreEntries label ih1 comma ih2
  | bareEntry enters stop binds =>
    refine ⟨.bareEntry enters stop binds, fun _ => ?_⟩
    exact .bareEntry (s := under _ _) enters stop (binds.under _)
  | pairEntry enters more value ih =>
    refine ⟨.pairEntry enters more value, fun fits => ?_⟩
    exact .pairEntry (s := under _ _) enters more (ih.under (fits.part rfl (.refl _) trivial
      (fun free => free.bared 1 rfl rfl) fun _ word => ⟨trivial, word⟩))
  | noClauses noIn => exact ⟨.noClauses noIn, fun _ => .noClauses (s := under _ _) noIn⟩
  | moreClauses _ _ ih1 ih2 => exact .moreClauses ih1 ih2
  | clause keyword _ same opener opened _ ih1 ih2 =>
    exact .clause keyword ih1 same opener opened ih2

/-- A phrase is read in another nesting as it is in its own, where no `do` makes a difference. -/
theorem Derives.under {inside : Bool} (h : Derives features phrase s value t)
    (fits : phrase.Renests source inside n s value t) :
    Derives features phrase (s.under n) value (t.under n) :=
  h.renestable.under fits

end Conformance.Dialect.Grammar
