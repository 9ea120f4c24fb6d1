import Conformance.Flags

/-! Snapshots of what a parser keeps while it works, and the audit that finds what a parse left
open. -/

namespace Conformance

structure LexerSnapshot where
  cond : Nat := 0
  cmdarg : Nat := 0
  condStack : Nat := 0
  cmdargStack : Nat := 0
  lambdaStack : Nat := 0
  parenNest : Nat := 0
  deriving DecidableEq

/-- The sizes of a parser's stacks, its lexer's among them, and the flags that are set. -/
structure Snapshot where
  lexer : LexerSnapshot := {}
  context : Flags := .clear
  staticEnv : Nat := 0
  maxNumparamStack : Nat := 0
  currentArgStack : Nat := 0
  patternVariables : Nat := 0
  patternHashKeys : Nat := 0
  deriving DecidableEq

/-- Something that a parse should have closed. -/
inductive Residue where
  | parens (depth : Nat)
  | entries (stack : String) (size : Nat)
  | flag (flag : Flag)
  deriving DecidableEq

def Residue.message : Residue → String
  | parens depth =>
    s!"expected lexer.paren_nest to be 0 after parsing, found {depth}"
  | entries stack size =>
    s!"expected {stack} to be empty after parsing, found {size} entries"
  | flag f => "expected context." ++ f.name ++ " to be `false` after parsing"

namespace Snapshot

/-- The snapshot of a parser that has nothing open. -/
def idle : Snapshot := {}

/-- The stacks in the order in which they are audited. -/
def stackSizes (s : Snapshot) : List (String × Nat) :=
  [("lexer.cmdarg", s.lexer.cmdarg),
    ("lexer.cond", s.lexer.cond),
    ("lexer.cmdarg_stack", s.lexer.cmdargStack),
    ("lexer.cond_stack", s.lexer.condStack),
    ("lexer.lambda_stack", s.lexer.lambdaStack),
    ("static_env", s.staticEnv),
    ("max_numparam_stack", s.maxNumparamStack),
    ("current_arg_stack", s.currentArgStack),
    ("pattern_variables", s.patternVariables),
    ("pattern_hash_keys", s.patternHashKeys)]

/-- The first thing that a snapshot shows open: parentheses, then the stacks, then the flags. -/
def residue? (s : Snapshot) : Option Residue :=
  if s.lexer.parenNest ≠ 0 then some (.parens s.lexer.parenNest)
  else
    match s.stackSizes.find? fun stack => stack.2 != 0 with
    | some stack => some (.entries stack.1 stack.2)
    | none => s.context.active.head?.map .flag

end Snapshot

end Conformance
