import Conformance.Harness.Run
import Conformance.Tree

/-! A family of parsers that do what a script says, to put checks themselves to the test. -/

namespace Conformance.Scripted

inductive Node where
  | mk (kind : String) (children : List Node) (location : Option Location)
    (context : Option Flags)

namespace Node

def kind : Node → String
  | .mk kind _ _ _ => kind

def children : Node → List Node
  | .mk _ children _ _ => children

def location? : Node → Option Location
  | .mk _ _ location _ => location

def context? : Node → Option Flags
  | .mk _ _ _ context => context

mutual

def same : Node → Node → Bool
  | .mk kind children _ _, .mk kind' children' _ _ => kind == kind' && sameAll children children'

def sameAll : List Node → List Node → Bool
  | [], [] => true
  | node :: rest, node' :: rest' => same node node' && sameAll rest rest'
  | _, _ => false

end

mutual

/-- A node in parentheses: its kind and its children. -/
def text : Node → String
  | .mk kind children _ _ => "(" ++ kind ++ textAll children ++ ")"

def textAll : List Node → String
  | [] => ""
  | node :: rest => " " ++ text node ++ textAll rest

end

mutual

def size : Node → Nat
  | .mk _ children _ _ => 1 + sizeAll children

def sizeAll : List Node → Nat
  | [] => 0
  | node :: rest => size node + sizeAll rest

end

theorem sizeAll_eq (nodes : List Node) : sizeAll nodes = sumOver size nodes := by
  induction nodes with
  | nil => rfl
  | cons node rest ih => simp [sizeAll, sumOver, ih]

instance : Tree Node where
  kind := kind
  children := children
  location? := location?
  context? := context?
  same := same
  text := text
  layout := text
  size := size
  size_eq node := by cases node; simp [size, children, sizeAll_eq]

end Node

/-- What a parser does under some conditions. -/
structure Rule where
  /-- The versions in which the rule holds; all of them if none are named. -/
  versions : Option (List Version) := none
  encoding : Option Encoding := none
  emitted : List Diagnostic := []
  /-- What the parser has open afterwards. -/
  snapshot : Snapshot := .idle
  reply : Except ParseFailure (Option Node) := .ok none

/-- What the parsers of a family do. -/
structure Script where
  versions : List Version
  /-- The versions of which no parser can be made. -/
  uncreatable : List Version := []
  /-- The message for each reason. -/
  catalog : List (String × String) := []
  /-- The first rule that holds is followed. -/
  rules : List Rule := []

structure Parser where
  version : Version
  encoding : Encoding := .utf8
  snapshot : Snapshot := .idle

def Rule.holds (rule : Rule) (parser : Parser) : Bool :=
  (rule.versions.all fun versions => versions.contains parser.version) &&
    rule.encoding.all (· == parser.encoding)

/-- The family that follows a script. Without a rule that holds there is no tree. -/
def Script.family (script : Script) : Family Parser Node where
  versions := script.versions
  create version :=
    if script.uncreatable.contains version then none else some { version }
  setEncoding encoding parser := { parser with encoding }
  parse parser _ :=
    match script.rules.find? fun rule => rule.holds parser with
    | some rule => (rule.reply, { parser with snapshot := rule.snapshot }, rule.emitted)
    | none => (.ok none, parser, [])
  snapshot := Parser.snapshot
  compile reason _ := (script.catalog.find? fun entry => entry.1 == reason).map Prod.snd

end Conformance.Scripted
