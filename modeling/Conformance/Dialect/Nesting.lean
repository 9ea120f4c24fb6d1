import Conformance.Snapshot

/-! The nesting of a source as far as it decides to which call a `do` block belongs: whether the
condition of a loop or the arguments of a command are being read. A new scope and a parenthesis
hide what stands around them. -/

namespace Conformance.Dialect

/-- Stacks with the innermost entry first. -/
structure Nesting where
  /-- Whether the condition of a loop is being read. -/
  cond : List Bool := []
  /-- Whether the arguments of a command are being read. -/
  cmdarg : List Bool := []
  condStack : List (List Bool) := []
  cmdargStack : List (List Bool) := []
  /-- The depth of parentheses at each lambda literal whose body has not started. -/
  lambdaStack : List Nat := []
  parenNest : Nat := 0
  deriving DecidableEq

namespace Nesting

def empty : Nesting := {}

/-- Nothing is left of what stood open. -/
@[reducible] def reset (_ : Nesting) : Nesting := {}

def pushCond (n : Nesting) (active : Bool) : Nesting := { n with cond := active :: n.cond }

def popCond (n : Nesting) : Nesting := { n with cond := n.cond.tail }

/-- Whether the condition of a loop is being read in the innermost scope. -/
def isCond (n : Nesting) : Bool := n.cond.head?.getD false

def pushCmdarg (n : Nesting) (active : Bool) : Nesting := { n with cmdarg := active :: n.cmdarg }

def popCmdarg (n : Nesting) : Nesting := { n with cmdarg := n.cmdarg.tail }

/-- Whether the arguments of a command are being read in the innermost scope. -/
def isCmdarg (n : Nesting) : Bool := n.cmdarg.head?.getD false

/-- A new scope starts with empty stacks. -/
def saveStacks (n : Nesting) : Nesting :=
  { n with
    cond := []
    cmdarg := []
    condStack := n.cond :: n.condStack
    cmdargStack := n.cmdarg :: n.cmdargStack }

/-- The scope around a closed one has its stacks back. -/
def restoreStacks (n : Nesting) : Nesting :=
  { n with
    cond := n.condStack.head?.getD []
    cmdarg := n.cmdargStack.head?.getD []
    condStack := n.condStack.tail
    cmdargStack := n.cmdargStack.tail }

def openParen (n : Nesting) : Nesting :=
  { n with
    parenNest := n.parenNest + 1
    cond := false :: n.cond
    cmdarg := false :: n.cmdarg }

def closeParen (n : Nesting) : Nesting :=
  { n with
    parenNest := n.parenNest - 1
    cond := n.cond.tail
    cmdarg := n.cmdarg.tail }

def pushLambda (n : Nesting) : Nesting := { n with lambdaStack := n.parenNest :: n.lambdaStack }

def popLambda (n : Nesting) : Nesting := { n with lambdaStack := n.lambdaStack.tail }

def snapshot (n : Nesting) : LexerSnapshot where
  cond := n.cond.length
  cmdarg := n.cmdarg.length
  condStack := n.condStack.length
  cmdargStack := n.cmdargStack.length
  lambdaStack := n.lambdaStack.length
  parenNest := n.parenNest

end Nesting

end Conformance.Dialect
