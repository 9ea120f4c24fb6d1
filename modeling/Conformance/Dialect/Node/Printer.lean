import Conformance.Dialect.Node
import Conformance.Text.Quoted

/-! The written form of trees: a list in parentheses for each node, on one line or with every child
node on a line of its own. -/

namespace Conformance.Dialect.Node

/-- The characters of a child that is a literal. A child node has none here. -/
def literalChars : Child → List Char
  | .node _ => []
  | .int value => (toString value).toList
  | .bigInt text => text.toList
  | .str value => Text.quoteChars value.toList
  | .sym name => ':' :: name.toList
  | .nil => ['n', 'i', 'l']

/-- What stands before a child node: a blank, or a line break and the indent of its depth. -/
def gap : Option Nat → List Char
  | none => [' ']
  | some depth => '\n' :: List.replicate (2 * (depth + 1)) ' '

mutual

/-- The characters of a node before those of `tail`, on one line or with the indent of a depth. -/
def write (indent : Option Nat) : Node → List Char → List Char
  | .mk kind children _ _, tail =>
    '(' :: (kind.name.toList ++ writeChildren indent children (')' :: tail))

def writeChildren (indent : Option Nat) : List Child → List Char → List Char
  | [], tail => tail
  | child :: rest, tail => writeChild indent child (writeChildren indent rest tail)

def writeChild (indent : Option Nat) : Child → List Char → List Char
  | .node node, tail => gap indent ++ write (indent.map (· + 1)) node tail
  | child, tail => ' ' :: (literalChars child ++ tail)

end

def text (node : Node) : String := String.ofList (node.write none [])

/-- A tree with every child node on a line of its own. -/
def indentedText (node : Node) : String := String.ofList (node.write (some 0) [])

instance : Tree Node where
  kind node := node.kind.name
  children := children
  location? := location?
  context? := context?
  same := same
  text := text
  layout := indentedText
  size := size
  size_eq := size_eq

end Conformance.Dialect.Node
