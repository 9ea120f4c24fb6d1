import Conformance.Dialect.Nesting

/-! Changes of a nesting that belong together like brackets: what one opens, its counterpart closes.
Where every bracket is closed by its own counterpart, the nesting is as before. -/

namespace Conformance.Dialect

/-- The kinds of pairs of changes. -/
inductive BracketKind where
  | cond (active : Bool)
  | cmdarg (active : Bool)
  /-- A scope with stacks of its own. -/
  | scope
  | paren
  | lambda
  deriving DecidableEq

namespace Nesting

inductive Change where
  | pushCond (active : Bool)
  | popCond
  | pushCmdarg (active : Bool)
  | popCmdarg
  | saveStacks
  | restoreStacks
  | openParen
  | closeParen
  | pushLambda
  | popLambda
  deriving DecidableEq

def change (n : Nesting) : Change → Nesting
  | .pushCond active => n.pushCond active
  | .popCond => n.popCond
  | .pushCmdarg active => n.pushCmdarg active
  | .popCmdarg => n.popCmdarg
  | .saveStacks => n.saveStacks
  | .restoreStacks => n.restoreStacks
  | .openParen => n.openParen
  | .closeParen => n.closeParen
  | .pushLambda => n.pushLambda
  | .popLambda => n.popLambda

/-- Changes from left to right. -/
def changeAll (n : Nesting) (changes : List Change) : Nesting := changes.foldl change n

end Nesting

namespace BracketKind

open Nesting (Change)

def opening : BracketKind → Change
  | cond active => .pushCond active
  | cmdarg active => .pushCmdarg active
  | scope => .saveStacks
  | paren => .openParen
  | lambda => .pushLambda

def closing : BracketKind → Change
  | cond _ => .popCond
  | cmdarg _ => .popCmdarg
  | scope => .restoreStacks
  | paren => .closeParen
  | lambda => .popLambda

/-- The words in which every bracket is closed by its own counterpart. -/
inductive Balanced : List Change → Prop where
  | nil : Balanced []
  | enclose (bracket : BracketKind) {inner rest : List Change} : Balanced inner → Balanced rest →
      Balanced (bracket.opening :: inner ++ bracket.closing :: rest)

end BracketKind

namespace Nesting

open BracketKind (Balanced)

/-- A bracket that is closed at once was never there: its counterpart takes away what it put on the
stacks, and the end of a scope brings back the very stacks that its start saved. -/
theorem change_closing_opening (n : Nesting) (bracket : BracketKind) :
    (n.change bracket.opening).change bracket.closing = n := by
  cases bracket <;> rfl

theorem changeAll_append (n : Nesting) (changes more : List Change) :
    n.changeAll (changes ++ more) = (n.changeAll changes).changeAll more := List.foldl_append

theorem changeAll_balanced {changes : List Change} (balanced : Balanced changes) (n : Nesting) :
    n.changeAll changes = n := by
  -- What stands in a bracket starts from another nesting, so `n` is general.
  induction balanced generalizing n with
  | nil => rfl
  | @enclose bracket inner rest _ _ inside after =>
    calc n.changeAll (bracket.opening :: inner ++ bracket.closing :: rest)
      _ = ((n.change bracket.opening).changeAll inner).changeAll (bracket.closing :: rest) :=
        changeAll_append (n.change bracket.opening) inner (bracket.closing :: rest)
      _ = (n.change bracket.opening).changeAll (bracket.closing :: rest) := by rw [inside]
      _ = ((n.change bracket.opening).change bracket.closing).changeAll rest := rfl
      _ = n := by rw [change_closing_opening, after]

/-- Balanced changes leave a nesting as it was, whatever it is, and so it answers as before. -/
theorem balanced_invisible {changes : List Change} (balanced : Balanced changes) (n : Nesting) :
    n.changeAll changes = n ∧ (n.changeAll changes).isCond = n.isCond ∧
      (n.changeAll changes).isCmdarg = n.isCmdarg := by
  rw [changeAll_balanced balanced]
  exact ⟨rfl, rfl, rfl⟩

/-- In the condition of a loop a lambda literal between parentheses, with a command in its body: the
parenthesis hides the condition, and in the end it is there again. -/
theorem balanced_invisible_lambda :
    let n : Nesting :=
      { cond := [true], cmdarg := [false, true], condStack := [[], [true]],
        cmdargStack := [[true], []], lambdaStack := [3], parenNest := 4 }
    let changes : List Change :=
      [.openParen, .pushLambda, .popLambda, .saveStacks, .pushCmdarg true, .popCmdarg,
        .restoreStacks, .closeParen]
    Balanced changes ∧ n.isCond = true ∧ (n.changeAll (changes.take 1)).isCond = false ∧
      n.changeAll changes = n ∧ (n.changeAll changes).isCond = n.isCond ∧
      (n.changeAll changes).isCmdarg = n.isCmdarg := by
  intro n changes
  have command : Balanced [.pushCmdarg true, .popCmdarg] :=
    @Balanced.enclose (.cmdarg true) [] [] .nil .nil
  have body : Balanced [.saveStacks, .pushCmdarg true, .popCmdarg, .restoreStacks] :=
    @Balanced.enclose .scope _ [] command .nil
  have literal : Balanced [.pushLambda, .popLambda, .saveStacks, .pushCmdarg true, .popCmdarg,
      .restoreStacks] := @Balanced.enclose .lambda [] _ .nil body
  have balanced : Balanced changes := @Balanced.enclose .paren _ [] literal .nil
  exact ⟨balanced, rfl, rfl, balanced_invisible balanced n⟩

end Nesting

end Conformance.Dialect
