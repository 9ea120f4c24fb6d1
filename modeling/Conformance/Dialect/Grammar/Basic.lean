import Conformance.Dialect.Parse

/-! The recursive constructs of the grammar, and the nodes that several rules build.

A rule is a step that gets the derivations of the constructs in it as an argument. `Derivation`
gives a step for every recursive construct; the rules are tied together in one place. -/

namespace Conformance.Dialect.Grammar

inductive Construct where
  /-- Statements up to a token of one of the kinds, or to the end. -/
  | statements (stops : List TokenKind)
  | expression
  /-- Operands joined by operators that bind tighter than `power`. -/
  | operators (power : Nat)
  /-- The operators after the operand `left` that bind tighter than `power`. -/
  | operatorsAfter (power : Nat) (left : Node)
  | unary
  | callsAfter (receiver : Node)
  /-- Arguments between commas; `command` says that the first is the first of a command. -/
  | arguments (command : Bool)
  | pattern
  | entries
  | clauses

@[reducible] def Construct.Result : Construct → Type
  | statements _ | arguments _ | entries | clauses => List Node
  | _ => Node

abbrev Derivation := (construct : Construct) → Parse construct.Result

/-- The name of the method that records the flags where it is called. -/
def probeName : String := "get_context"

/-- Statements as one node: none is no node, one is itself, and more are a `begin`. -/
def sequence : List Node → Option Node
  | [] => none
  | [node] => some node
  | first :: second :: more =>
    let last := (second :: more).getLast (by simp)
    some (.located .begin ((first :: second :: more).map .node) (some (first.through last))
      [("begin", none), ("end", none)])

def leaf (kind : NodeKind) (token : Token) : Node := .located kind [] (some token.span) []

/-- A node for one token that names something. -/
def named (kind : NodeKind) (children : List Child) (token : Token) : Node :=
  .located kind children (some token.span) [("name", some token.span)]

def variableNode (token : Token) : Node := named .lvar [.sym token.text] token

def constantNode (token : Token) : Node := named .const [.nil, .sym token.text] token

def parameterNode (token : Token) : Node := named .arg [.sym token.text] token

/-- A list of parameters between two spans. -/
def parametersNode (parameters : List Node) (first last : Span) : Node :=
  .located .args (parameters.map .node) (some (first.join last))
    [("begin", some first), ("end", some last)]

/-- A list of parameters that is not written. -/
def noParametersNode : Node := .located .args [] none [("begin", none), ("end", none)]

end Conformance.Dialect.Grammar
