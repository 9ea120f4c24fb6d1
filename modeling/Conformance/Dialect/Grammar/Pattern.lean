import Conformance.Dialect.Grammar.Basic

/-! Patterns, and the expressions that match them. -/

namespace Conformance.Dialect.Grammar

open Parse

/-- Binds a variable in the innermost pattern. A name that does not start with an underscore is
bound only once. -/
def bindVariable (name : String) (span : Span) : Parse Node := do
  if name.toList.head? != some '_' then
    match Bookkeeping.enter? name (← books).patternVariables with
    | some patternVariables => keep fun book => { book with patternVariables }
    | none => reject .duplicateVariableName (.ofList [("name", name)]) span
  keep (·.declare name)
  pure (.located .matchVar [.sym name] (some span) [("name", some span)])

def keyOf (label : Token) : String := String.ofList label.text.toList.dropLast

def keySpan (label : Token) : Span := .ofLength label.span.start (label.span.length - 1)

/-- An entry of a hash pattern after its label: the key alone, or a pattern for its value. -/
def entry (sub : Derivation) (label : Token) : Parse Node := do
  let key := keyOf label
  match Bookkeeping.enter? key (← books).patternKeys with
  | some patternKeys => keep fun book => { book with patternKeys }
  | none => reject .duplicatePatternKey (.ofList [("name", key)]) (keySpan label)
  match ← peekKind with
  | some .comma | some .rbrace | some .newline => bindVariable key (keySpan label)
  | _ =>
    let value ← sub .pattern
    let symbol := Node.located .sym [.sym key] (some (keySpan label)) [("begin", none)]
    pure (.located .pair [.node symbol, .node value] (some (label.span.join value.range))
      [("operator", some (.ofLength (label.span.stop - 1) 1))])

def entries (sub : Derivation) : Parse (List Node) := do
  match ← eat .label with
  | none => pure []
  | some label =>
    let first ← entry sub label
    match ← eat .comma with
    | none => pure [first]
    | some _ =>
      skipNewlines
      let more ← sub .entries
      pure (first :: more)

def hashPattern (sub : Derivation) : Parse Node := do
  let first ← next
  keep fun book => { book with patternKeys := [] :: book.patternKeys }
  skipNewlines
  let entries ← sub .entries
  skipNewlines
  let last ← expect .rbrace
  keep fun book => { book with patternKeys := book.patternKeys.tail }
  pure (.located .hashPattern (entries.map .node) (some (first.span.join last.span))
    [("begin", some first.span), ("end", some last.span)])

/-- A pattern: a variable, a hash pattern or a value. -/
def pattern (sub : Derivation) : Parse Node := do
  match ← peekKind with
  | some .identifier =>
    let token ← next
    bindVariable token.text token.span
  | some .lbrace => hashPattern sub
  | some .integer | some .string | some .symbol | some .kwNil | some .kwTrue | some .kwFalse
  | some .constant | some .minus => sub .unary
  | _ => unexpected

def clause (sub : Derivation) : Parse Node := do
  let keyword ← next
  keep fun book => { book with patternVariables := [] :: book.patternVariables }
  let pattern ← within [(.inKwarg, true)] (sub .pattern)
  keep fun book => { book with patternVariables := book.patternVariables.tail }
  let opener ← eat .kwThen
  if opener.isNone && !(← atTerminator?) then unexpected
  let body ← sub (.statements [.kwIn, .kwElse, .kwEnd])
  let last :=
    (body.getLast?.map Node.range).getD ((opener.map Token.span).getD pattern.range)
  pure (.located .inPattern [.node pattern, .nil, .ofOption (sequence body)]
    (some (keyword.span.join last))
    [("keyword", some keyword.span), ("begin", opener.map Token.span)])

def clauses (sub : Derivation) : Parse (List Node) := do
  if ← at? .kwIn then
    let first ← clause sub
    let more ← sub .clauses
    pure (first :: more)
  else pure []

def caseMatch (sub : Derivation) : Parse Node := do
  let keyword ← next
  let subject ← sub .expression
  skipTerminators
  if !((← features).patternMatching && (← at? .kwIn)) then unexpected
  let clauses ← sub .clauses
  let alternative ← eat .kwElse
  let otherwise ←
    match alternative with
    | some _ => sub (.statements [.kwEnd])
    | none => pure []
  let last ← expect .kwEnd
  pure (.located .caseMatch
    (.node subject :: clauses.map .node ++ [.ofOption (sequence otherwise)])
    (some (keyword.span.join last.span))
    [("keyword", some keyword.span), ("else", alternative.map Token.span),
      ("end", some last.span)])

end Conformance.Dialect.Grammar
