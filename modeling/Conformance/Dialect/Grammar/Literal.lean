import Conformance.Dialect.Grammar.Basic

/-! The literals of the grammar. -/

namespace Conformance.Dialect.Grammar

/-- The value of a string literal's text between the quotes. A backslash before a line break stands
for nothing, and before any other character but `n` and `t` for that character. -/
def unescape : List Char → List Char
  | [] => []
  | ['\\'] => []
  | '\\' :: 'n' :: rest => '\n' :: unescape rest
  | '\\' :: 't' :: rest => '\t' :: unescape rest
  | '\\' :: '\n' :: rest => unescape rest
  | '\\' :: c :: rest => c :: unescape rest
  | c :: rest => c :: unescape rest

/-- The characters of a string literal between its quotes. -/
def stringBodyOf (text : String) : List Char := text.toList.tail.dropLast

def integerChild (text : List Char) : Parse Child :=
  match Child.integer? text with
  | some child => pure child
  | none => throw (.badInteger (String.ofList text))

def integerNode (token : Token) : Parse Node := do
  let value ← integerChild token.text.toList
  pure (.located .int [value] (some token.span) [("operator", none)])

def negativeNode (sign token : Token) : Parse Node := do
  let value ← integerChild ('-' :: token.text.toList)
  pure (.located .int [value] (some (sign.span.join token.span))
    [("operator", some sign.span)])

/-- A string literal, which begins and ends with a quote. -/
def stringNode (token : Token) : Node :=
  .located .str [.str (String.ofList (unescape (stringBodyOf token.text)))] (some token.span)
    [("begin", some (.ofLength token.span.start 1)),
      ("end", some (.ofLength (token.span.stop - 1) 1))]

/-- A symbol literal, which begins with a colon. -/
def symbolNode (token : Token) : Node :=
  .located .sym [.sym (String.ofList token.text.toList.tail)] (some token.span)
    [("begin", some (.ofLength token.span.start 1))]

end Conformance.Dialect.Grammar
