import Conformance.Dialect.Grammar.Closure

/-! Calls of methods, and what an identifier stands for. -/

namespace Conformance.Dialect.Grammar

open Parse

/-- The kinds of tokens that start an argument wherever they stand. -/
def startsArgument : TokenKind → Bool
  | .integer | .string | .symbol | .identifier | .constant | .kwNil | .kwTrue | .kwFalse
  | .kwSelf | .kwDefined | .lparen => true
  | _ => false

/-- The kinds of tokens that start an argument if something directly follows them. -/
def maySignArgument : TokenKind → Bool
  | .star | .ampersand | .minus | .bang => true
  | _ => false

/-- Whether the next token starts the arguments of a command, a call without parentheses. -/
def startsCommand? : Parse Bool := do
  match ← peek with
  | none => pure false
  | some token =>
    if !token.spaced then pure false
    else if startsArgument token.kind then pure true
    else if token.kind = .arrow then return (← features).lambda
    else if maySignArgument token.kind then
      return (← peekSecond).any fun second => !second.spaced && second.kind != .newline
    else pure false

/-- An argument. A `*` or `&` before the first argument of a command is reported, since it could be
an operator. -/
def argument (sub : Derivation) (firstOfCommand : Bool) : Parse Node := do
  let kind? : Option NodeKind :=
    match ← peekKind with
    | some .star => some .splat
    | some .ampersand => some .blockPass
    | _ => none
  match kind? with
  | none => sub .expression
  | some kind =>
    let operator ← next
    let operand ← sub (.operators 0)
    if firstOfCommand then
      let diagnostic :=
        Reason.diagnostic .ambiguousPrefix (.ofList [("prefix", operator.text)]) operator.span
      emit { diagnostic with highlights := [operand.range] }
    pure (.located kind [.node operand] (some (operator.span.join operand.range))
      [("operator", some operator.span)])

def arguments (sub : Derivation) (command : Bool) : Parse (List Node) := do
  let first ← argument sub command
  match ← eat .comma with
  | none => pure [first]
  | some _ =>
    skipNewlines
    let more ← sub (.arguments false)
    pure (first :: more)

/-- The arguments of a call: their nodes, the spans of the parentheses around them, and the span of
the last token or argument, if anything follows the selector. -/
structure Actuals where
  nodes : List Node := []
  parens : Option (Span × Span) := none
  last : Option Span := none

def actuals (sub : Derivation) : Parse Actuals := do
  if ← adjacent? .lparen then
    let first ← next
    nest Nesting.openParen
    skipNewlines
    let nodes ←
      if ← at? .rparen then pure []
      else
        let nodes ← sub (.arguments false)
        skipNewlines
        pure nodes
    let last ← expect .rparen
    nest Nesting.closeParen
    pure { nodes, parens := some (first.span, last.span), last := some last.span }
  else if ← startsCommand? then
    nest (·.pushCmdarg true)
    let nodes ← sub (.arguments true)
    nest Nesting.popCmdarg
    pure { nodes, last := nodes.getLast?.map Node.range }
  else pure {}

def callNode (receiver : Option Node) (dot : Option Token) (selector : Token)
    (actuals : Actuals) : Node :=
  let start := (receiver.map Node.range).getD selector.span
  .located .send
    (.ofOption receiver :: .sym selector.text :: actuals.nodes.map .node)
    (some (start.join (actuals.last.getD selector.span)))
    [("dot", dot.map Token.span), ("selector", some selector.span),
      ("begin", actuals.parens.map Prod.fst), ("end", actuals.parens.map Prod.snd)]

/-- A call, after its selector. A call of the probe records the flags. -/
def call (sub : Derivation) (receiver : Option Node) (dot : Option Token) (selector : Token) :
    Parse Node := do
  let context := (← books).context
  let actuals ← actuals sub
  let node := callNode receiver dot selector actuals
  blockAfter sub (if selector.text = probeName then node.recording context else node)

def callsAfter (sub : Derivation) (receiver : Node) : Parse Node := do
  match ← eat .dot with
  | none => pure receiver
  | some dot =>
    let selector ← expect .identifier
    let node ← call sub (some receiver) (some dot) selector
    sub (.callsAfter node)

/-- The number of the numbered parameter that a name stands for, and whether the body around it
declares parameters. -/
def numberedUse? (features : Features) (book : Bookkeeping) (name : String) :
    Option (Nat × Bool) :=
  if !features.numberedParameters || book.isLocal name then none
  else
    match parameterNumber? name, book.numbering with
    | some number, .body _ ordinary :: _ => some (number, ordinary)
    | _, _ => none

/-- An identifier: a variable, a numbered parameter, or a call without a receiver. -/
def identifier (sub : Derivation) : Parse Node := do
  let token ← next
  if ← adjacent? .lparen then call sub none none token
  else
    let book ← books
    match numberedUse? (← features) book token.text with
    | some (number, ordinary) =>
      if ordinary then reject .ordinaryParamDefined .empty token.span
      keep (·.useNumber number)
      pure (variableNode token)
    | none =>
      if book.isLocal token.text then pure (variableNode token)
      else call sub none none token

end Conformance.Dialect.Grammar
