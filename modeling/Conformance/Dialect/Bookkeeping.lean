import Conformance.Dialect.Nesting

/-! What a parser of the language keeps about the constructs that are open. -/

namespace Conformance.Dialect

structure Scope where
  declared : List String := []
  /-- Whether the variables of the scope around it are visible. -/
  inherits : Bool
  deriving DecidableEq

/-- Whether the scopes, the innermost one first, make a variable visible. -/
def visible (name : String) : List Scope → Bool
  | [] => false
  | scope :: outer => scope.declared.contains name || scope.inherits && visible name outer

/-- How the numbered parameters of a body are used. -/
inductive Numbering where
  /-- The body of a method or a class, which has none. -/
  | closed
  /-- The body of a block or a lambda literal: the highest number so far, and whether the block
  declares parameters of its own. -/
  | body (highest : Nat) (ordinary : Bool)
  deriving DecidableEq

/-- The number of a numbered parameter's name, `_1` to `_9`. -/
def parameterNumber? (name : String) : Option Nat :=
  match name.toList with
  | ['_', digit] =>
    if '1' ≤ digit && digit ≤ '9' then some (digit.toNat - '0'.toNat) else none
  | _ => none

/-- The open constructs, the innermost one first in every stack. -/
structure Bookkeeping where
  nesting : Nesting := {}
  context : Flags := .clear
  scopes : List Scope := []
  /-- How each open body uses numbered parameters. -/
  numbering : List Numbering := []
  /-- The parameter that each open list of parameters declared last. -/
  parameters : List (Option String) := []
  /-- The variables that each open pattern has bound. -/
  patternVariables : List (List String) := []
  /-- The keys that each open hash pattern has used. -/
  patternKeys : List (List String) := []
  deriving DecidableEq

namespace Bookkeeping

def empty : Bookkeeping := {}

/-- Closes everything that an earlier parse left open. -/
@[reducible] def reset (book : Bookkeeping) : Bookkeeping :=
  { book with
    nesting := book.nesting.reset
    context := .clear
    scopes := []
    numbering := []
    parameters := []
    patternVariables := []
    patternKeys := [] }

def declare (book : Bookkeeping) (name : String) : Bookkeeping :=
  match book.scopes with
  | [] => book
  | scope :: outer =>
    { book with scopes := { scope with declared := name :: scope.declared } :: outer }

def isLocal (book : Bookkeeping) (name : String) : Bool := visible name book.scopes

def openScope (book : Bookkeeping) (inherits : Bool) : Bookkeeping :=
  { book with scopes := { inherits } :: book.scopes }

def closeScope (book : Bookkeeping) : Bookkeeping := { book with scopes := book.scopes.tail }

def openNumbering (book : Bookkeeping) (numbering : Numbering) : Bookkeeping :=
  { book with numbering := numbering :: book.numbering }

def closeNumbering (book : Bookkeeping) : Bookkeeping :=
  { book with numbering := book.numbering.tail }

/-- Raises the highest numbered parameter of the innermost body. -/
def useNumber (book : Bookkeeping) (number : Nat) : Bookkeeping :=
  match book.numbering with
  | .body highest ordinary :: outer =>
    { book with numbering := .body (max highest number) ordinary :: outer }
  | _ => book

/-- Enters a name into the innermost of some sets of names, unless it is there already. Without a
set every name is new. -/
def enter? (name : String) : List (List String) → Option (List (List String))
  | [] => some []
  | names :: outer => if names.contains name then none else some ((name :: names) :: outer)

def snapshot (book : Bookkeeping) : Snapshot where
  lexer := book.nesting.snapshot
  context := book.context
  staticEnv := book.scopes.length
  maxNumparamStack := book.numbering.length
  currentArgStack := book.parameters.length
  patternVariables := book.patternVariables.length
  patternHashKeys := book.patternKeys.length

end Bookkeeping

end Conformance.Dialect
