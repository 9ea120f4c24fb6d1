import Conformance.Dialect.Grammar.Expression

/-! The grammar of the language, as a derivation of every construct. -/

namespace Conformance.Dialect.Grammar

def Construct.rule (sub : Derivation) : Derivation
  | .statements stops => Grammar.statements sub stops
  | .expression => Grammar.expression sub
  | .operators power => Grammar.operators sub power
  | .operatorsAfter power left => Grammar.operatorsAfter sub power left
  | .unary => Grammar.unary sub
  | .callsAfter receiver => Grammar.callsAfter sub receiver
  | .arguments command => Grammar.arguments sub command
  | .pattern => Grammar.pattern sub
  | .entries => Grammar.entries sub
  | .clauses => Grammar.clauses sub

/-- Derives constructs in which rules are nested at most `depth` deep. -/
def derive (depth : Nat) : Derivation := fun construct =>
  match depth with
  | 0 => throw .depthExceeded
  | depth + 1 => construct.rule (derive depth)

/-- A depth that suffices for a number of tokens. Between two tokens that it reads, a derivation
enters fewer than eight constructs. -/
def depthFor (tokens : Nat) : Nat := 8 * (tokens + 1)

/-- A whole source, in a scope of its own. -/
def program (tokens : Nat) : Parse (Option Node) := do
  Parse.keep (·.openScope false)
  let body ← derive (depthFor tokens) (.statements [])
  Parse.keep Bookkeeping.closeScope
  pure (sequence body)

end Conformance.Dialect.Grammar
