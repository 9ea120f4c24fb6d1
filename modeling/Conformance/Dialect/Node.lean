import Conformance.Text.Lines
import Conformance.Tree

/-! The trees of the language. -/

namespace Conformance.Dialect

inductive NodeKind where
  | int | str | sym | nilValue | trueValue | falseValue | selfValue | const
  | lvar | lvasgn
  /-- A call, that of an operator included. -/
  | send
  | and | or
  | begin
  /-- A call with a block, or a lambda literal. -/
  | block
  | numblock
  | args | arg
  | lambda
  | splat | blockPass
  | method | classDef | whileLoop | definedCheck
  | caseMatch | inPattern | matchVar | hashPattern | pair
  deriving DecidableEq

namespace NodeKind

def all : List NodeKind :=
  [int, str, sym, nilValue, trueValue, falseValue, selfValue, const, lvar, lvasgn, send, and, or,
    begin, block, numblock, args, arg, lambda, splat, blockPass, method, classDef, whileLoop,
    definedCheck, caseMatch, inPattern, matchVar, hashPattern, pair]

def name : NodeKind → String
  | int => "int"
  | str => "str"
  | sym => "sym"
  | nilValue => "nil"
  | trueValue => "true"
  | falseValue => "false"
  | selfValue => "self"
  | const => "const"
  | lvar => "lvar"
  | lvasgn => "lvasgn"
  | send => "send"
  | and => "and"
  | or => "or"
  | begin => "begin"
  | block => "block"
  | numblock => "numblock"
  | args => "args"
  | arg => "arg"
  | lambda => "lambda"
  | splat => "splat"
  | blockPass => "block_pass"
  | method => "def"
  | classDef => "class"
  | whileLoop => "while"
  | definedCheck => "defined?"
  | caseMatch => "case_match"
  | inPattern => "in_pattern"
  | matchVar => "match_var"
  | hashPattern => "hash_pattern"
  | pair => "pair"

def ofName? (name : String) : Option NodeKind := all.find? fun kind => kind.name == name

theorem ofName?_name (kind : NodeKind) : ofName? kind.name = some kind := by
  cases kind <;> rfl

end NodeKind

mutual

inductive Child where
  | node (node : Node)
  /-- An integer from `-2 ^ 63` up to `2 ^ 63 - 1`. -/
  | int (value : Int)
  /-- Any other integer, as its digits were written. -/
  | bigInt (text : String)
  | str (value : String)
  | sym (name : String)
  /-- No child stands in this place. -/
  | nil

/-- A node of a tree. A node that comes from a source has a location. -/
inductive Node where
  | mk (kind : NodeKind) (children : List Child) (location : Option Location)
    (context : Option Flags)

end

/-- The integers that are kept as numbers, from `-2 ^ 63` up to `2 ^ 63 - 1`. -/
def fitsWord (value : Int) : Bool :=
  -9223372036854775808 ≤ value && value ≤ 9223372036854775807

/-- The integer that a text of digits denotes, which a minus sign may precede. -/
def integerValue? (text : List Char) : Option Int :=
  match text with
  | '-' :: digits => if Text.isDigits digits then some (-(Text.digitsValue digits)) else none
  | digits => if Text.isDigits digits then some (Text.digitsValue digits) else none

namespace Child

/-- The child for an integer's text. -/
def integer? (text : List Char) : Option Child :=
  (integerValue? text).map fun value =>
    if fitsWord value then .int value else .bigInt (String.ofList text)

def ofOption : Option Node → Child
  | some child => .node child
  | none => .nil

def node? : Child → Option Node
  | .node child => some child
  | _ => none

end Child

namespace Node

/-- A node without a location. -/
def bare (kind : NodeKind) (children : List Child) : Node := .mk kind children none none

def kind : Node → NodeKind
  | .mk kind _ _ _ => kind

/-- All children, the literals included. -/
def allChildren : Node → List Child
  | .mk _ children _ _ => children

def children (node : Node) : List Node := node.allChildren.filterMap Child.node?

def location? : Node → Option Location
  | .mk _ _ location _ => location

def context? : Node → Option Flags
  | .mk _ _ _ context => context

/-- The field that gives the range of a whole node. -/
def wholeField : String := "expression"

/-- A node whose location has the given range of the whole, and after it the given fields. -/
def located (kind : NodeKind) (children : List Child) (whole : Option Span)
    (fields : List (String × Option Span)) : Node :=
  .mk kind children (some { fields := (wholeField, whole) :: fields }) none

def recording (flags : Flags) : Node → Node
  | .mk kind children location _ => .mk kind children location (some flags)

def range? (node : Node) : Option Span :=
  node.location?.bind fun location => (location.field? wholeField).join

/-- The range of a whole node; a node without one counts as empty at the start. -/
def range (node : Node) : Span := node.range?.getD (.ofLength 0 0)

def through (first last : Node) : Span := first.range.join last.range

mutual

/-- Nodes are the same tree if their kinds and children are, wherever they stand. -/
def same : Node → Node → Bool
  | .mk kind children _ _, .mk kind' children' _ _ =>
    kind == kind' && sameChildren children children'

def sameChildren : List Child → List Child → Bool
  | [], [] => Bool.true
  | child :: rest, child' :: rest' => sameChild child child' && sameChildren rest rest'
  | _, _ => Bool.false

def sameChild : Child → Child → Bool
  | .node node, .node node' => same node node'
  | .int value, .int value' => value == value'
  | .bigInt text, .bigInt text' => text == text'
  | .str value, .str value' => value == value'
  | .sym name, .sym name' => name == name'
  | .nil, .nil => Bool.true
  | _, _ => Bool.false

end

mutual

def size : Node → Nat
  | .mk _ children _ _ => 1 + childrenSize children

def childrenSize : List Child → Nat
  | [] => 0
  | child :: rest => childSize child + childrenSize rest

def childSize : Child → Nat
  | .node node => size node
  | _ => 0

end

theorem childrenSize_eq (children : List Child) :
    childrenSize children = sumOver size (children.filterMap Child.node?) := by
  induction children with
  | nil => rfl
  | cons child rest ih =>
    cases child <;>
      simp [childrenSize, childSize, List.filterMap_cons, Child.node?, sumOver, ih]

theorem size_eq (node : Node) : node.size = 1 + sumOver size node.children := by
  cases node
  simp [size, children, allChildren, childrenSize_eq]

end Node

end Conformance.Dialect
