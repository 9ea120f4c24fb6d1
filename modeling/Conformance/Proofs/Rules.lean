import Conformance.Proofs.Yielding

/-! The grammar as rules of inference. `Derives` says that a phrase can be read from one state on to
another, and which node it stands for; every rule names the tokens that it reads and how the books
change. -/

namespace Conformance.Dialect

/-- The names of the numbered parameters. -/
def numberedNames : List String := ["_1", "_2", "_3", "_4", "_5", "_6", "_7", "_8", "_9"]

theorem mem_numberedNames {name : String} :
    name ∈ numberedNames ↔ (parameterNumber? name).isSome = true := by
  constructor
  · intro mem
    simp only [numberedNames, List.mem_cons, List.not_mem_nil, or_false] at mem
    obtain rfl | rfl | rfl | rfl | rfl | rfl | rfl | rfl | rfl := mem <;> rfl
  · unfold parameterNumber?
    split
    · rename_i digit spelled
      split
      · rename_i range
        intro _
        have code : digit = Char.ofNat digit.toNat := (Char.ofNat_toNat digit).symm
        simp only [Bool.and_eq_true, decide_eq_true_eq] at range
        have low : 49 ≤ digit.toNat := range.1
        have high : digit.toNat ≤ 57 := range.2
        have name_eq : name = String.ofList ['_', digit] := by
          rw [← spelled, String.ofList_toList]
        rw [name_eq, code]
        generalize digit.toNat = n at low high
        obtain rfl | rfl | rfl | rfl | rfl | rfl | rfl | rfl | rfl :
            n = 49 ∨ n = 50 ∨ n = 51 ∨ n = 52 ∨ n = 53 ∨ n = 54 ∨ n = 55 ∨ n = 56 ∨ n = 57 := by
          omega
        all_goals decide
      · exact nofun
    · exact nofun

namespace Bookkeeping

/-- A parameter is declared in the innermost scope. -/
def nameParameter (book : Bookkeeping) (name : String) : Bookkeeping :=
  { book with parameters := book.parameters.modifyHead fun _ => some name }.declare name

/-- A variable may be bound in the innermost pattern, which has not bound it unless its name starts
with an underscore. -/
inductive Binds (name : String) (book : Bookkeeping) : Bookkeeping → Prop where
  | free (free : name.toList.head? = some '_') : Binds name book (book.declare name)
  | fresh (strict : name.toList.head? ≠ some '_') {sets : List (List String)}
      (enters : enter? name book.patternVariables = some sets) :
      Binds name book ({ book with patternVariables := sets }.declare name)

/-- The books after a body that has a scope, saved stacks and a use of numbered parameters; the
flags are those of before. -/
def endBody (book : Bookkeeping) (context : Flags) : Bookkeeping :=
  { book with
    nesting := book.nesting.restoreStacks
    context
    scopes := book.scopes.tail
    numbering := book.numbering.tail }

end Bookkeeping

namespace Grammar

/-! ### Parameters -/

/-- Names between commas up to a token of the kind `close`, of which none that does not start with
an underscore is in `seen`. -/
inductive Names (close : TokenKind) :
    List String → ParseState → List Node → ParseState → Prop where
  | none {seen : List String} {s : ParseState} : s.kind? = some close → Names close seen s [] s
  | last {seen : List String} {s : ParseState} {name : Token} {r : List Token} :
      s.Next .identifier name r → (name.text.toList.head? = some '_' ∨ name.text ∉ seen) →
      (s.leaving r).kind? ≠ some .comma →
      Names close seen s [parameterNode name] ((s.leaving r).keeping (·.nameParameter name.text))
  | more {seen : List String} {s s1 : ParseState} {name comma : Token} {r1 r2 : List Token}
      {more : List Node} :
      s.Next .identifier name r1 → (name.text.toList.head? = some '_' ∨ name.text ∉ seen) →
      (s.leaving r1).Next .comma comma r2 →
      Names close (if name.text.toList.head? = some '_' then seen else name.text :: seen)
        ((s.leaving r2).keeping (·.nameParameter name.text)) more s1 →
      Names close seen s (parameterNode name :: more) s1

/-- A list of parameters up to a token of the kind `close`. -/
inductive ParameterList (close : TokenKind) (s : ParseState) : List Node → ParseState → Prop where
  | intro {names : List Node} {s1 : ParseState} :
      Names close []
        ((s.flagged [(.inArgdef, true)]).keeping fun book =>
          { book with parameters := none :: book.parameters }) names s1 →
      ParameterList close s names
        ((s1.keeping fun book =>
          { book with parameters := book.parameters.tail }).restoring s.book.context)

/-- The parameters of a block, and whether there is any. -/
inductive BlockParameters (s : ParseState) : Node × Bool → ParseState → Prop where
  | bars {bars : Token} {r : List Token} : s.Next .orOr bars r →
      BlockParameters s
        (.located .args [] (some bars.span)
          [("begin", some (.ofLength bars.span.start 1)),
            ("end", some (.ofLength (bars.span.start + 1) 1))], false)
        (s.leaving r)
  | none : s.kind? ≠ some .orOr → s.kind? ≠ some .pipe →
      BlockParameters s (noParametersNode, false) s
  | list {first last : Token} {r1 r2 : List Token} {names : List Node} {s1 : ParseState} :
      s.Next .pipe first r1 → ParameterList .pipe (s.leaving r1) names s1 → s1.Next .pipe last r2 →
      BlockParameters s (parametersNode names first.span last.span, !names.isEmpty)
        (s1.leaving r2)

/-- Parameters between parentheses, and whether there is any. -/
inductive ParenthesizedParameters (s : ParseState) : Node × Bool → ParseState → Prop where
  | none : s.kind? ≠ some .lparen → ParenthesizedParameters s (noParametersNode, false) s
  | list {first last : Token} {r1 r2 : List Token} {names : List Node} {s1 : ParseState} :
      s.Next .lparen first r1 →
      ParameterList .rparen ((s.leaving r1).nested .openParen) names s1 →
      s1.Next .rparen last r2 →
      ParenthesizedParameters s (parametersNode names first.span last.span, !names.isEmpty)
        ((s1.leaving r2).nested .closeParen)

/-! ### Phrases -/

/-- What has rules of its own: the constructs, and the parts that they have in common. -/
inductive Phrase where
  | of (construct : Construct)
  | primary
  /-- A call, after its selector. -/
  | call (receiver : Option Node) (dot : Option Token) (selector : Token)
  | actuals
  | blockAfter (call : Node)
  | argument (firstOfCommand : Bool)
  | entry (label : Token)
  | clause

@[reducible] def Phrase.Result : Phrase → Type
  | of construct => construct.Result
  | actuals => Actuals
  | _ => Node

/-- The keywords that are values by themselves. -/
def keywordValue? : TokenKind → Option NodeKind
  | .kwNil => some .nilValue
  | .kwTrue => some .trueValue
  | .kwFalse => some .falseValue
  | .kwSelf => some .selfValue
  | _ => none

/-- The operators that may stand before an argument. -/
def argumentSign? : Option TokenKind → Option NodeKind
  | some .star => some .splat
  | some .ampersand => some .blockPass
  | _ => none

/-- The kinds of tokens that start a value in a pattern. -/
def startsValue : TokenKind → Bool
  | .integer | .string | .symbol | .kwNil | .kwTrue | .kwFalse | .constant | .minus => true
  | _ => false

/-- Whether the first of some tokens starts the arguments of a command. -/
def startsCommand (features : Features) : List Token → Bool
  | [] => false
  | token :: rest =>
    token.spaced && (startsArgument token.kind || token.kind == .arrow && features.lambda ||
      maySignArgument token.kind &&
        rest.head?.any fun second => !second.spaced && second.kind != .newline)

/-- The report of a sign before the first argument of a command. -/
def ambiguity (operator : Token) (operand : Node) : Diagnostic :=
  { Reason.diagnostic .ambiguousPrefix (.ofList [("prefix", operator.text)]) operator.span with
    highlights := [operand.range] }

/-- The call of a method; a call of the probe records the flags. -/
def recordedCall (context : Flags) (receiver : Option Node) (dot : Option Token) (selector : Token)
    (actuals : Actuals) : Node :=
  let node := callNode receiver dot selector actuals
  if selector.text = probeName then node.recording context else node

/-- The kind of the token that closes the block after a call, if a block starts here. -/
def blockClose? (s : ParseState) : Option TokenKind :=
  match s.kind? with
  | some .lbrace => some .rbrace
  | some .kwDo =>
    if s.book.nesting.isCond || s.book.nesting.isCmdarg then none else some .kwEnd
  | _ => none

/-- The kind of the token that closes the body of a lambda literal. -/
def lambdaClose? : TokenKind → Option TokenKind
  | .lbrace => some .rbrace
  | .kwDo => some .kwEnd
  | _ => none

def matchVariableNode (name : String) (span : Span) : Node :=
  .located .matchVar [.sym name] (some span) [("name", some span)]

/-- A key and a pattern for its value. -/
def pairNode (label : Token) (value : Node) : Node :=
  .located .pair
    [.node (.located .sym [.sym (keyOf label)] (some (keySpan label)) [("begin", none)]),
      .node value]
    (some (label.span.join value.range))
    [("operator", some (.ofLength (label.span.stop - 1) 1))]

def clauseNode (keyword : Token) (pattern : Node) (opener : Option Token) (body : List Node) :
    Node :=
  let last := (body.getLast?.map Node.range).getD ((opener.map Token.span).getD pattern.range)
  .located .inPattern [.node pattern, .nil, .ofOption (sequence body)]
    (some (keyword.span.join last))
    [("keyword", some keyword.span), ("begin", opener.map Token.span)]

def caseNode (keyword : Token) (subject : Node) (clauses : List Node) (alternative : Option Token)
    (otherwise : List Node) (last : Token) : Node :=
  .located .caseMatch
    (.node subject :: clauses.map .node ++ [.ofOption (sequence otherwise)])
    (some (keyword.span.join last.span))
    [("keyword", some keyword.span), ("else", alternative.map Token.span), ("end", some last.span)]

/-- A phrase can be read from one state on to another, and stands for a node or for nodes. -/
inductive Derives (features : Features) :
    (phrase : Phrase) → ParseState → phrase.Result → ParseState → Prop where
  -- Statements
  | noStatements {stops : List TokenKind} {s : ParseState} : s.pastTerminators.Stops stops →
      Derives features (.of (.statements stops)) s [] s.pastTerminators
  | lastStatement {stops : List TokenKind} {s s1 : ParseState} {node : Node} :
      ¬ s.pastTerminators.Stops stops →
      Derives features (.of .expression) s.pastTerminators node s1 →
      ¬ s1.Breaks → s1.Stops stops →
      Derives features (.of (.statements stops)) s [node] s1
  | moreStatements {stops : List TokenKind} {s s1 s2 : ParseState} {node : Node}
      {more : List Node} :
      ¬ s.pastTerminators.Stops stops →
      Derives features (.of .expression) s.pastTerminators node s1 →
      s1.Breaks → Derives features (.of (.statements stops)) s1 more s2 →
      Derives features (.of (.statements stops)) s (node :: more) s2
  -- Expressions
  | assignment {s s1 : ParseState} {name operator : Token} {r1 r2 : List Token} {value : Node} :
      s.Next .identifier name r1 → (s.leaving r1).Next .assign operator r2 →
      Derives features (.of .expression)
        ((s.leaving r2).pastNewlines.keeping (·.declare name.text)) value s1 →
      Derives features (.of .expression) s
        (.located .lvasgn [.sym name.text, .node value] (some (name.span.join value.range))
          [("name", some name.span), ("operator", some operator.span)]) s1
  | unassigned {s s1 : ParseState} {node : Node} : ¬ s.Assigns →
      Derives features (.of (.operators 0)) s node s1 →
      Derives features (.of .expression) s node s1
  | operators {power : Nat} {s s1 s2 : ParseState} {left node : Node} :
      Derives features (.of .unary) s left s1 →
      Derives features (.of (.operatorsAfter power left)) s1 node s2 →
      Derives features (.of (.operators power)) s node s2
  | noOperator {power : Nat} {left : Node} {s : ParseState} :
      (∀ kind ∈ s.kind?, ∀ tighter ∈ bindingPower? kind, tighter ≤ power) →
      Derives features (.of (.operatorsAfter power left)) s left s
  | operator {power tighter : Nat} {kind : TokenKind} {left right node : Node} {operator : Token}
      {r : List Token} {s s1 s2 : ParseState} :
      bindingPower? kind = some tighter → power < tighter → s.Next kind operator r →
      Derives features (.of (.operators tighter)) (s.leaving r).pastNewlines right s1 →
      Derives features (.of (.operatorsAfter power (operatorNode left operator right))) s1 node s2 →
      Derives features (.of (.operatorsAfter power left)) s node s2
  | negative {s : ParseState} {sign digits : Token} {r1 r2 : List Token} {value : Child} :
      s.Next .minus sign r1 → (s.leaving r1).Next .integer digits r2 → digits.spaced = false →
      Child.integer? ('-' :: digits.text.toList) = some value →
      Derives features (.of .unary) s
        (.located .int [value] (some (sign.span.join digits.span))
          [("operator", some sign.span)]) (s.leaving r2)
  | minus {s s1 : ParseState} {sign : Token} {r : List Token} {operand : Node} :
      s.Next .minus sign r → ¬ (s.leaving r).Adjacent .integer →
      Derives features (.of .unary) (s.leaving r) operand s1 →
      Derives features (.of .unary) s (signNode "-@" sign operand) s1
  | bang {s s1 : ParseState} {sign : Token} {r : List Token} {operand : Node} :
      s.Next .bang sign r → Derives features (.of .unary) (s.leaving r) operand s1 →
      Derives features (.of .unary) s (signNode "!" sign operand) s1
  | chain {s s1 s2 : ParseState} {receiver node : Node} : s.kind? ≠ some .minus →
      s.kind? ≠ some .bang → Derives features .primary s receiver s1 →
      Derives features (.of (.callsAfter receiver)) s1 node s2 →
      Derives features (.of .unary) s node s2
  -- Primary expressions
  | integer {s : ParseState} {token : Token} {r : List Token} {value : Child} :
      s.Next .integer token r → Child.integer? token.text.toList = some value →
      Derives features .primary s
        (.located .int [value] (some token.span) [("operator", none)]) (s.leaving r)
  | string {s : ParseState} {token : Token} {r : List Token} : s.Next .string token r →
      Derives features .primary s (stringNode token) (s.leaving r)
  | symbol {s : ParseState} {token : Token} {r : List Token} : s.Next .symbol token r →
      Derives features .primary s (symbolNode token) (s.leaving r)
  | keyword {s : ParseState} {kind : TokenKind} {value : NodeKind} {token : Token}
      {r : List Token} : keywordValue? kind = some value → s.Next kind token r →
      Derives features .primary s (leaf value token) (s.leaving r)
  | constant {s : ParseState} {token : Token} {r : List Token} : s.Next .constant token r →
      Derives features .primary s (constantNode token) (s.leaving r)
  | adjacentCall {s s1 : ParseState} {token : Token} {r : List Token} {node : Node} :
      s.Next .identifier token r → (s.leaving r).Adjacent .lparen →
      Derives features (.call none none token) (s.leaving r) node s1 →
      Derives features .primary s node s1
  | numberedVariable {s : ParseState} {token : Token} {r : List Token} {number : Nat} :
      s.Next .identifier token r → ¬ (s.leaving r).Adjacent .lparen →
      numberedUse? features s.book token.text = some (number, false) →
      Derives features .primary s (variableNode token) ((s.leaving r).keeping (·.useNumber number))
  | localVariable {s : ParseState} {token : Token} {r : List Token} :
      s.Next .identifier token r → ¬ (s.leaving r).Adjacent .lparen →
      numberedUse? features s.book token.text = none → s.book.isLocal token.text = true →
      Derives features .primary s (variableNode token) (s.leaving r)
  | wordCall {s s1 : ParseState} {token : Token} {r : List Token} {node : Node} :
      s.Next .identifier token r → ¬ (s.leaving r).Adjacent .lparen →
      numberedUse? features s.book token.text = none → s.book.isLocal token.text = false →
      Derives features (.call none none token) (s.leaving r) node s1 →
      Derives features .primary s node s1
  | parenthesized {s s1 : ParseState} {first last : Token} {r1 r2 : List Token}
      {body : List Node} : s.Next .lparen first r1 →
      Derives features (.of (.statements [.rparen])) ((s.leaving r1).nested .openParen) body s1 →
      s1.Next .rparen last r2 →
      Derives features .primary s
        (.located .begin (body.map .node) (some (first.span.join last.span))
          [("begin", some first.span), ("end", some last.span)])
        ((s1.leaving r2).nested .closeParen)
  | lambda {s s1 s2 : ParseState} {arrow first last : Token} {r1 r2 r3 : List Token}
      {opening closing : TokenKind} {parameters : Node × Bool} {body : List Node} :
      features.lambda = true → s.Next .arrow arrow r1 →
      ParenthesizedParameters
        (((s.leaving r1).nested .pushLambda).keeping (·.openScope true)) parameters s1 →
      lambdaClose? opening = some closing →
      (s1.keeping (·.openNumbering (.body 0 parameters.2))).Next opening first r2 →
      Derives features (.of (.statements [closing]))
        (((((s1.leaving r2).keeping (·.openNumbering (.body 0 parameters.2))).nested
          .popLambda).nested .saveStacks).flagged [(.inLambda, true), (.inBlock, false)])
        body s2 →
      s2.Next closing last r3 →
      Derives features .primary s
        (closureNode (leaf .lambda arrow) parameters.1 s2.book.numbering.head? body
          (arrow.span.join last.span) first last)
        ((s2.leaving r3).keeping (·.endBody s1.book.context))
  | method {s s1 s2 : ParseState} {keyword name last : Token} {r1 r2 r3 : List Token}
      {parameters : Node × Bool} {body : List Node} : s.Next .kwDef keyword r1 →
      (s.leaving r1).Next .identifier name r2 →
      ParenthesizedParameters
        ((((s.leaving r2).nested .saveStacks).keeping (·.openScope false)).keeping
          (·.openNumbering .closed)) parameters s1 →
      Derives features (.of (.statements [.kwEnd]))
        (s1.flagged [(.inDef, true), (.inClass, false), (.inBlock, false), (.inLambda, false)])
        body s2 →
      s2.Next .kwEnd last r3 →
      Derives features .primary s
        (.located .method [.sym name.text, .node parameters.1, .ofOption (sequence body)]
          (some (keyword.span.join last.span))
          [("keyword", some keyword.span), ("name", some name.span), ("end", some last.span)])
        ((s2.leaving r3).keeping (·.endBody s1.book.context))
  | classDefinition {s s1 : ParseState} {keyword name last : Token} {r1 r2 r3 : List Token}
      {body : List Node} : s.Next .kwClass keyword r1 → s.book.context.inDef = false →
      (s.leaving r1).Next .constant name r2 →
      Derives features (.of (.statements [.kwEnd]))
        (((((s.leaving r2).nested .saveStacks).keeping (·.openScope false)).keeping
          (·.openNumbering .closed)).flagged
          [(.inClass, true), (.inDef, false), (.inBlock, false), (.inLambda, false)]) body s1 →
      s1.Next .kwEnd last r3 →
      Derives features .primary s
        (.located .classDef [.node (constantNode name), .nil, .ofOption (sequence body)]
          (some (keyword.span.join last.span))
          [("keyword", some keyword.span), ("end", some last.span)])
        ((s1.leaving r3).keeping (·.endBody s.book.context))
  | whileLoop {s s1 s2 : ParseState} {keyword last : Token} {opener : Option Token}
      {r1 r2 r3 : List Token} {condition : Node} {body : List Node} :
      s.Next .kwWhile keyword r1 →
      Derives features (.of .expression) ((s.leaving r1).nested (·.pushCond true)) condition s1 →
      (s1.nested .popCond).Eats .kwDo opener r2 → (s1.leaving r2).Opened opener →
      Derives features (.of (.statements [.kwEnd])) ((s1.nested .popCond).leaving r2) body s2 →
      s2.Next .kwEnd last r3 →
      Derives features .primary s
        (.located .whileLoop [.node condition, .ofOption (sequence body)]
          (some (keyword.span.join last.span))
          [("keyword", some keyword.span), ("begin", opener.map Token.span),
            ("end", some last.span)])
        (s2.leaving r3)
  | definedWord {s s1 : ParseState} {keyword : Token} {r : List Token} {operand : Node} :
      s.Next .kwDefined keyword r → (s.leaving r).kind? ≠ some .lparen →
      Derives features (.of .expression) ((s.leaving r).flagged [(.inDefined, true)])
        operand s1 →
      Derives features .primary s
        (.located .definedCheck [.node operand] (some (keyword.span.join operand.range))
          [("keyword", some keyword.span), ("begin", none), ("end", none)])
        (s1.restoring s.book.context)
  | definedParens {s s1 : ParseState} {keyword first last : Token} {r1 r2 r3 : List Token}
      {operand : Node} : s.Next .kwDefined keyword r1 → (s.leaving r1).Next .lparen first r2 →
      Derives features (.of .expression)
        (((s.leaving r2).nested .openParen).pastNewlines.flagged [(.inDefined, true)])
        operand s1 →
      s1.pastNewlines.Next .rparen last r3 →
      Derives features .primary s
        (.located .definedCheck [.node operand] (some (keyword.span.join last.span))
          [("keyword", some keyword.span), ("begin", some first.span), ("end", some last.span)])
        (((s1.restoring s.book.context).leaving r3).nested .closeParen)
  | caseMatch {s s1 s2 : ParseState} {keyword last : Token} {r1 r2 : List Token} {subject : Node}
      {clauses : List Node} : features.patternMatching = true → s.Next .kwCase keyword r1 →
      Derives features (.of .expression) (s.leaving r1) subject s1 →
      s1.pastTerminators.kind? = some .kwIn →
      Derives features (.of .clauses) s1.pastTerminators clauses s2 →
      s2.Next .kwEnd last r2 →
      Derives features .primary s (caseNode keyword subject clauses none [] last) (s2.leaving r2)
  | caseElse {s s1 s2 s3 : ParseState} {keyword alternative last : Token} {r1 r2 r3 : List Token}
      {subject : Node} {clauses otherwise : List Node} : features.patternMatching = true →
      s.Next .kwCase keyword r1 →
      Derives features (.of .expression) (s.leaving r1) subject s1 →
      s1.pastTerminators.kind? = some .kwIn →
      Derives features (.of .clauses) s1.pastTerminators clauses s2 →
      s2.Next .kwElse alternative r2 →
      Derives features (.of (.statements [.kwEnd])) (s2.leaving r2) otherwise s3 →
      s3.Next .kwEnd last r3 →
      Derives features .primary s
        (caseNode keyword subject clauses (some alternative) otherwise last) (s3.leaving r3)
  -- Calls
  | noCall {s : ParseState} {receiver : Node} : s.kind? ≠ some .dot →
      Derives features (.of (.callsAfter receiver)) s receiver s
  | dotCall {s s1 s2 : ParseState} {dot selector : Token} {r1 r2 : List Token}
      {receiver called node : Node} : s.Next .dot dot r1 →
      (s.leaving r1).Next .identifier selector r2 →
      Derives features (.call (some receiver) (some dot) selector) (s.leaving r2) called s1 →
      Derives features (.of (.callsAfter called)) s1 node s2 →
      Derives features (.of (.callsAfter receiver)) s node s2
  | call {s s1 s2 : ParseState} {receiver : Option Node} {dot : Option Token} {selector : Token}
      {actuals : Actuals} {node : Node} : Derives features .actuals s actuals s1 →
      Derives features
        (.blockAfter (recordedCall s.book.context receiver dot selector actuals)) s1 node s2 →
      Derives features (.call receiver dot selector) s node s2
  | emptyParens {s : ParseState} {first last : Token} {r1 r2 : List Token} :
      s.Next .lparen first r1 → first.spaced = false →
      ((s.leaving r1).nested .openParen).pastNewlines.Next .rparen last r2 →
      Derives features .actuals s
        { parens := some (first.span, last.span), last := some last.span } (s.leaving r2)
  | parens {s s1 : ParseState} {first last : Token} {r1 r2 : List Token} {nodes : List Node} :
      s.Next .lparen first r1 → first.spaced = false →
      ((s.leaving r1).nested .openParen).pastNewlines.kind? ≠ some .rparen →
      Derives features (.of (.arguments false))
        ((s.leaving r1).nested .openParen).pastNewlines nodes s1 →
      s1.pastNewlines.Next .rparen last r2 →
      Derives features .actuals s
        { nodes, parens := some (first.span, last.span), last := some last.span }
        ((s1.leaving r2).nested .closeParen)
  | commandArguments {s s1 : ParseState} {nodes : List Node} : ¬ s.Adjacent .lparen →
      startsCommand features s.rest = true →
      Derives features (.of (.arguments true)) (s.nested (·.pushCmdarg true)) nodes s1 →
      Derives features .actuals s { nodes, last := nodes.getLast?.map Node.range }
        (s1.nested .popCmdarg)
  | noActuals {s : ParseState} : ¬ s.Adjacent .lparen → startsCommand features s.rest = false →
      Derives features .actuals s {} s
  | lastArgument {command : Bool} {s s1 : ParseState} {node : Node} :
      Derives features (.argument command) s node s1 → s1.kind? ≠ some .comma →
      Derives features (.of (.arguments command)) s [node] s1
  | moreArguments {command : Bool} {s s1 s2 : ParseState} {node : Node} {more : List Node}
      {comma : Token} {r : List Token} : Derives features (.argument command) s node s1 →
      s1.Next .comma comma r →
      Derives features (.of (.arguments false)) (s1.leaving r).pastNewlines more s2 →
      Derives features (.of (.arguments command)) s (node :: more) s2
  | plainArgument {first : Bool} {s s1 : ParseState} {node : Node} :
      argumentSign? s.kind? = none → Derives features (.of .expression) s node s1 →
      Derives features (.argument first) s node s1
  | signedArgument {first : Bool} {s s1 : ParseState} {kind : TokenKind} {sign : NodeKind}
      {operator : Token} {r : List Token} {operand : Node} : argumentSign? (some kind) = some sign →
      s.Next kind operator r → Derives features (.of (.operators 0)) (s.leaving r) operand s1 →
      Derives features (.argument first) s
        (.located sign [.node operand] (some (operator.span.join operand.range))
          [("operator", some operator.span)])
        (if first then s1.reporting (ambiguity operator operand) else s1)
  | noBlock {s : ParseState} {call : Node} : blockClose? s = none →
      Derives features (.blockAfter call) s call s
  | block {s s1 s2 : ParseState} {call : Node} {close : TokenKind} {first last : Token}
      {r1 r2 : List Token} {parameters : Node × Bool} {body : List Node} :
      blockClose? s = some close → s.rest = first :: r1 →
      BlockParameters
        (((s.leaving r1).nested .saveStacks).keeping (·.openScope true)) parameters s1 →
      Derives features (.of (.statements [close]))
        ((s1.keeping (·.openNumbering (.body 0 parameters.2))).flagged
          [(.inBlock, true), (.inLambda, false)]) body s2 →
      s2.Next close last r2 →
      Derives features (.blockAfter call) s
        (closureNode call parameters.1 s2.book.numbering.head? body (call.range.join last.span)
          first last)
        ((s2.leaving r2).keeping (·.endBody s1.book.context))
  -- Patterns
  | variablePattern {s : ParseState} {token : Token} {r : List Token} {book : Bookkeeping} :
      s.Next .identifier token r → s.book.Binds token.text book →
      Derives features (.of .pattern) s (matchVariableNode token.text token.span)
        ((s.leaving r).keeping fun _ => book)
  | hashPattern {s s1 : ParseState} {first last : Token} {r1 r2 : List Token}
      {entries : List Node} : s.Next .lbrace first r1 →
      Derives features (.of .entries)
        ((s.leaving r1).pastNewlines.keeping fun book =>
          { book with patternKeys := [] :: book.patternKeys }) entries s1 →
      s1.pastNewlines.Next .rbrace last r2 →
      Derives features (.of .pattern) s
        (.located .hashPattern (entries.map .node) (some (first.span.join last.span))
          [("begin", some first.span), ("end", some last.span)])
        ((s1.leaving r2).keeping fun book =>
          { book with patternKeys := book.patternKeys.tail })
  | valuePattern {s s1 : ParseState} {node : Node} : s.kind?.any startsValue = true →
      Derives features (.of .unary) s node s1 → Derives features (.of .pattern) s node s1
  | noEntries {s : ParseState} : s.kind? ≠ some .label → Derives features (.of .entries) s [] s
  | lastEntry {s s1 : ParseState} {label : Token} {r : List Token} {node : Node} :
      s.Next .label label r → Derives features (.entry label) (s.leaving r) node s1 →
      s1.kind? ≠ some .comma → Derives features (.of .entries) s [node] s1
  | moreEntries {s s1 s2 : ParseState} {label comma : Token} {r1 r2 : List Token} {node : Node}
      {more : List Node} : s.Next .label label r1 →
      Derives features (.entry label) (s.leaving r1) node s1 → s1.Next .comma comma r2 →
      Derives features (.of .entries) (s1.leaving r2).pastNewlines more s2 →
      Derives features (.of .entries) s (node :: more) s2
  | bareEntry {s : ParseState} {label : Token} {keys : List (List String)} {book : Bookkeeping} :
      Bookkeeping.enter? (keyOf label) s.book.patternKeys = some keys →
      (∃ kind ∈ s.kind?, kind ∈ [TokenKind.comma, .rbrace, .newline]) →
      Bookkeeping.Binds (keyOf label) { s.book with patternKeys := keys } book →
      Derives features (.entry label) s (matchVariableNode (keyOf label) (keySpan label))
        (s.keeping fun _ => book)
  | pairEntry {s s1 : ParseState} {label : Token} {keys : List (List String)} {value : Node} :
      Bookkeeping.enter? (keyOf label) s.book.patternKeys = some keys →
      (∀ kind ∈ s.kind?, kind ∉ [TokenKind.comma, .rbrace, .newline]) →
      Derives features (.of .pattern)
        (s.keeping fun book => { book with patternKeys := keys }) value s1 →
      Derives features (.entry label) s (pairNode label value) s1
  | noClauses {s : ParseState} : s.kind? ≠ some .kwIn → Derives features (.of .clauses) s [] s
  | moreClauses {s s1 s2 : ParseState} {node : Node} {more : List Node} :
      Derives features .clause s node s1 → Derives features (.of .clauses) s1 more s2 →
      Derives features (.of .clauses) s (node :: more) s2
  | clause {s s1 s2 s3 : ParseState} {keyword : Token} {opener : Option Token}
      {r1 r2 : List Token} {pattern : Node} {body : List Node} : s.Next .kwIn keyword r1 →
      Derives features (.of .pattern)
        (((s.leaving r1).keeping fun book =>
          { book with patternVariables := [] :: book.patternVariables }).flagged
          [(.inKwarg, true)]) pattern s1 →
      s2 = ((s1.restoring s.book.context).keeping fun book =>
        { book with patternVariables := book.patternVariables.tail }) →
      s2.Eats .kwThen opener r2 → (s2.leaving r2).Opened opener →
      Derives features (.of (.statements [.kwIn, .kwElse, .kwEnd])) (s2.leaving r2) body s3 →
      Derives features .clause s (clauseNode keyword pattern opener body) s3

end Grammar

end Conformance.Dialect
