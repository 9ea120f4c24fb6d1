import Conformance.Dialect.Grammar.Basic

/-! Parameters, and the bodies that open a scope: blocks, lambda literals, methods and classes. -/

namespace Conformance.Dialect.Grammar

open Parse

/-- Names between commas, up to a token of the kind `close`. A name that does not start with an
underscore may not be in `seen`. -/
def parameterNames (close : TokenKind) (seen : List String) : Nat → Parse (List Node)
  | 0 => throw .depthExceeded
  | depth + 1 => do
    if ← at? close then pure []
    else
      let name ← expect .identifier
      let free := name.text.toList.head? == some '_'
      if !free && seen.contains name.text then
        reject .duplicateVariableName (.ofList [("name", name.text)]) name.span
      keep fun book =>
        { book with parameters := book.parameters.modifyHead fun _ => some name.text }
      keep (·.declare name.text)
      match ← eat .comma with
      | none => pure [parameterNode name]
      | some _ =>
        let more ← parameterNames close (if free then seen else name.text :: seen) depth
        pure (parameterNode name :: more)

def parameterList (close : TokenKind) : Parse (List Node) := do
  keep fun book => { book with parameters := none :: book.parameters }
  let names ← parameterNames close [] ((← get).rest.length + 1)
  keep fun book => { book with parameters := book.parameters.tail }
  pure names

/-- The parameters of a block between bars, or none, and whether there is any. -/
def blockParameters : Parse (Node × Bool) := do
  match ← eat .orOr with
  | some bars =>
    let start := bars.span.start
    pure (.located .args [] (some bars.span)
      [("begin", some (.ofLength start 1)), ("end", some (.ofLength (start + 1) 1))], false)
  | none =>
    match ← eat .pipe with
    | none => pure (noParametersNode, false)
    | some first =>
      let names ← within [(.inArgdef, true)] (parameterList .pipe)
      let last ← expect .pipe
      pure (parametersNode names first.span last.span, !names.isEmpty)

/-- Parameters between parentheses, or none, and whether there is any. -/
def parenthesizedParameters : Parse (Node × Bool) := do
  match ← eat .lparen with
  | none => pure (noParametersNode, false)
  | some first =>
    nest Nesting.openParen
    let names ← within [(.inArgdef, true)] (parameterList .rparen)
    let last ← expect .rparen
    nest Nesting.closeParen
    pure (parametersNode names first.span last.span, !names.isEmpty)

/-- Closes the innermost use of numbered parameters, and says how it was. -/
def closeNumbering : Parse (Option Numbering) := do
  let numbering := (← books).numbering.head?
  keep Bookkeeping.closeNumbering
  pure numbering

/-- A block with the statements `body`. The highest numbered parameter takes the place of a list of
parameters. -/
def closureNode (target parameters : Node) (numbering : Option Numbering) (body : List Node)
    (whole : Span) (first last : Token) : Node :=
  let fields := [("begin", some first.span), ("end", some last.span)]
  let body := Child.ofOption (sequence body)
  match numbering with
  | some (.body (highest + 1) _) =>
    .located .numblock [.node target, .int (highest + 1), body] (some whole) fields
  | _ => .located .block [.node target, .node parameters, body] (some whole) fields

/-- The block after a call, if there is one. A `do` belongs to no call in the condition of a loop or
in the arguments of a command. -/
def blockAfter (sub : Derivation) (call : Node) : Parse Node := do
  let nesting := (← books).nesting
  let close? : Option TokenKind :=
    match ← peekKind with
    | some .lbrace => some .rbrace
    | some .kwDo => if nesting.isCond || nesting.isCmdarg then none else some .kwEnd
    | _ => none
  match close? with
  | none => pure call
  | some close =>
    let first ← next
    nest Nesting.saveStacks
    keep (·.openScope true)
    let (parameters, ordinary) ← blockParameters
    keep (·.openNumbering (.body 0 ordinary))
    let body ← within [(.inBlock, true), (.inLambda, false)] (sub (.statements [close]))
    let last ← expect close
    let numbering ← closeNumbering
    keep Bookkeeping.closeScope
    nest Nesting.restoreStacks
    pure (closureNode call parameters numbering body (call.range.join last.span) first last)

def lambda (sub : Derivation) : Parse Node := do
  let arrow ← next
  nest Nesting.pushLambda
  keep (·.openScope true)
  let (parameters, ordinary) ← parenthesizedParameters
  keep (·.openNumbering (.body 0 ordinary))
  let close ← match ← peekKind with
    | some .lbrace => pure TokenKind.rbrace
    | some .kwDo => pure TokenKind.kwEnd
    | _ => unexpected
  let first ← next
  nest Nesting.popLambda
  nest Nesting.saveStacks
  let body ← within [(.inLambda, true), (.inBlock, false)] (sub (.statements [close]))
  let last ← expect close
  nest Nesting.restoreStacks
  let numbering ← closeNumbering
  keep Bookkeeping.closeScope
  pure (closureNode (leaf .lambda arrow) parameters numbering body (arrow.span.join last.span)
    first last)

def openBody : Parse Unit := do
  nest Nesting.saveStacks
  keep (·.openScope false)
  keep (·.openNumbering .closed)

def closeBody : Parse Unit := do
  keep Bookkeeping.closeNumbering
  keep Bookkeeping.closeScope
  nest Nesting.restoreStacks

def methodDefinition (sub : Derivation) : Parse Node := do
  let keyword ← next
  let name ← expect .identifier
  openBody
  let (parameters, _) ← parenthesizedParameters
  let body ← within [(.inDef, true), (.inClass, false), (.inBlock, false), (.inLambda, false)]
    (sub (.statements [.kwEnd]))
  let last ← expect .kwEnd
  closeBody
  pure (.located .method
    [.sym name.text, .node parameters, .ofOption (sequence body)]
    (some (keyword.span.join last.span))
    [("keyword", some keyword.span), ("name", some name.span), ("end", some last.span)])

/-- The definition of a class, which the body of a method may not hold. -/
def classDefinition (sub : Derivation) : Parse Node := do
  let keyword ← next
  if (← books).context.inDef then reject .classInDef .empty keyword.span
  let name ← expect .constant
  openBody
  let body ← within [(.inClass, true), (.inDef, false), (.inBlock, false), (.inLambda, false)]
    (sub (.statements [.kwEnd]))
  let last ← expect .kwEnd
  closeBody
  pure (.located .classDef
    [.node (constantNode name), .nil, .ofOption (sequence body)]
    (some (keyword.span.join last.span))
    [("keyword", some keyword.span), ("end", some last.span)])

end Conformance.Dialect.Grammar
