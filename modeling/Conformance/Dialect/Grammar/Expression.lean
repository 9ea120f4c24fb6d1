import Conformance.Dialect.Grammar.Call
import Conformance.Dialect.Grammar.Literal
import Conformance.Dialect.Grammar.Pattern

/-! Expressions and statements. -/

namespace Conformance.Dialect.Grammar

open Parse

/-- How tight a binary operator binds. -/
def bindingPower? : TokenKind → Option Nat
  | .orOr => some 1
  | .andAnd => some 2
  | .equal | .notEqual => some 3
  | .less | .greater | .lessEqual | .greaterEqual => some 4
  | .plus | .minus => some 5
  | .star | .slash | .percent => some 6
  | _ => none

/-- The node of a binary operator: the short-circuiting ones have kinds of their own, and the others
are calls. -/
def operatorNode (left : Node) (operator : Token) (right : Node) : Node :=
  let whole := some (left.through right)
  match operator.kind with
  | .orOr => .located .or [.node left, .node right] whole [("operator", some operator.span)]
  | .andAnd => .located .and [.node left, .node right] whole [("operator", some operator.span)]
  | _ =>
    .located .send [.node left, .sym operator.text, .node right] whole
      [("dot", none), ("selector", some operator.span), ("operator", some operator.span),
        ("begin", none), ("end", none)]

/-- The operators after an operand that bind tighter than `power`. -/
def operatorsAfter (sub : Derivation) (power : Nat) (left : Node) : Parse Node := do
  match ← peek with
  | none => pure left
  | some operator =>
    match bindingPower? operator.kind with
    | none => pure left
    | some tighter =>
      if tighter ≤ power then pure left
      else
        advance
        skipNewlines
        let right ← sub (.operators tighter)
        sub (.operatorsAfter power (operatorNode left operator right))

/-- Operands joined by operators that bind tighter than `power`. -/
def operators (sub : Derivation) (power : Nat) : Parse Node := do
  let left ← sub .unary
  sub (.operatorsAfter power left)

def parenthesized (sub : Derivation) : Parse Node := do
  let first ← next
  nest Nesting.openParen
  let body ← sub (.statements [.rparen])
  let last ← expect .rparen
  nest Nesting.closeParen
  pure (.located .begin (body.map .node) (some (first.span.join last.span))
    [("begin", some first.span), ("end", some last.span)])

/-- A loop. Its condition ends at a `do`, a line break or a semicolon. -/
def whileLoop (sub : Derivation) : Parse Node := do
  let keyword ← next
  nest (·.pushCond true)
  let condition ← sub .expression
  nest Nesting.popCond
  let opener ← eat .kwDo
  if opener.isNone && !(← atTerminator?) then unexpected
  let body ← sub (.statements [.kwEnd])
  let last ← expect .kwEnd
  pure (.located .whileLoop [.node condition, .ofOption (sequence body)]
    (some (keyword.span.join last.span))
    [("keyword", some keyword.span), ("begin", opener.map Token.span), ("end", some last.span)])

/-- The question whether an expression is defined, with or without parentheses. -/
def definedCheck (sub : Derivation) : Parse Node := do
  let keyword ← next
  match ← eat .lparen with
  | none =>
    let operand ← within [(.inDefined, true)] (sub .expression)
    pure (.located .definedCheck [.node operand] (some (keyword.span.join operand.range))
      [("keyword", some keyword.span), ("begin", none), ("end", none)])
  | some first =>
    nest Nesting.openParen
    skipNewlines
    let operand ← within [(.inDefined, true)] (sub .expression)
    skipNewlines
    let last ← expect .rparen
    nest Nesting.closeParen
    pure (.located .definedCheck [.node operand] (some (keyword.span.join last.span))
      [("keyword", some keyword.span), ("begin", some first.span), ("end", some last.span)])

def primary (sub : Derivation) : Parse Node := do
  match ← peek with
  | none => unexpected
  | some token =>
    match token.kind with
    | .integer => do advance; integerNode token
    | .string => do advance; pure (stringNode token)
    | .symbol => do advance; pure (symbolNode token)
    | .kwNil => do advance; pure (leaf .nilValue token)
    | .kwTrue => do advance; pure (leaf .trueValue token)
    | .kwFalse => do advance; pure (leaf .falseValue token)
    | .kwSelf => do advance; pure (leaf .selfValue token)
    | .constant => do advance; pure (constantNode token)
    | .identifier => identifier sub
    | .lparen => parenthesized sub
    | .arrow => do if (← features).lambda then lambda sub else unexpected
    | .kwDef => methodDefinition sub
    | .kwClass => classDefinition sub
    | .kwWhile => whileLoop sub
    | .kwDefined => definedCheck sub
    | .kwCase => caseMatch sub
    | _ => unexpected

def chain (sub : Derivation) : Parse Node := do
  let receiver ← primary sub
  sub (.callsAfter receiver)

def signNode (selector : String) (sign : Token) (operand : Node) : Node :=
  .located .send [.node operand, .sym selector] (some (sign.span.join operand.range))
    [("dot", none), ("selector", some sign.span), ("begin", none), ("end", none)]

/-- An operand with the signs before it. A minus directly before digits belongs to the number. -/
def unary (sub : Derivation) : Parse Node := do
  match ← peek with
  | none => unexpected
  | some sign =>
    match sign.kind with
    | .minus =>
      advance
      match ← peek with
      | some literal =>
        if literal.kind = .integer && !literal.spaced then
          advance
          negativeNode sign literal
        else return signNode "-@" sign (← sub .unary)
      | none => return signNode "-@" sign (← sub .unary)
    | .bang =>
      advance
      return signNode "!" sign (← sub .unary)
    | _ => chain sub

/-- An assignment. Its variable is visible in its value. -/
def assignment (sub : Derivation) : Parse Node := do
  let name ← next
  let operator ← next
  skipNewlines
  keep (·.declare name.text)
  let value ← sub .expression
  pure (.located .lvasgn [.sym name.text, .node value] (some (name.span.join value.range))
    [("name", some name.span), ("operator", some operator.span)])

def expression (sub : Derivation) : Parse Node := do
  if (← at? .identifier) && (← peekSecond).any (·.kind == .assign) then assignment sub
  else sub (.operators 0)

/-- Statements up to a token of one of the kinds `stops`, or to the end. -/
def statements (sub : Derivation) (stops : List TokenKind) : Parse (List Node) := do
  skipTerminators
  match ← peekKind with
  | none => pure []
  | some kind =>
    if stops.contains kind then pure []
    else
      let first ← sub .expression
      match ← peekKind with
      | none | some .newline | some .semicolon =>
        let more ← sub (.statements stops)
        pure (first :: more)
      | some kind => if stops.contains kind then pure [first] else unexpected

end Conformance.Dialect.Grammar
