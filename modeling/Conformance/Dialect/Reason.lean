import Conformance.Diagnostic

/-! The reasons for which a parser of the language reports something, and the catalog of their
messages. -/

namespace Conformance.Dialect

inductive Reason where
  /-- A `*` or `&` after the name of a command is read as the start of an argument. -/
  | ambiguousPrefix
  | unexpectedToken
  | unexpectedChar
  | unterminatedString
  /-- A numbered parameter in a block that declares parameters. -/
  | ordinaryParamDefined
  | duplicateVariableName
  | duplicatePatternKey
  | classInDef
  deriving DecidableEq

/-- A piece of a message: fixed text, or the value of an argument. -/
inductive MessagePart where
  | text (piece : String)
  | argument (name : String)
  deriving DecidableEq

namespace Reason

def all : List Reason :=
  [ambiguousPrefix, unexpectedToken, unexpectedChar, unterminatedString, ordinaryParamDefined,
    duplicateVariableName, duplicatePatternKey, classInDef]

/-- The code under which a reason is reported. -/
def code : Reason → String
  | ambiguousPrefix => "ambiguous_prefix"
  | unexpectedToken => "unexpected_token"
  | unexpectedChar => "unexpected_char"
  | unterminatedString => "unterminated_string"
  | ordinaryParamDefined => "ordinary_param_defined"
  | duplicateVariableName => "duplicate_variable_name"
  | duplicatePatternKey => "duplicate_pattern_key"
  | classInDef => "class_in_def"

def ofCode? (code : String) : Option Reason := all.find? fun reason => reason.code == code

theorem ofCode?_code (reason : Reason) : ofCode? reason.code = some reason := by
  cases reason <;> rfl

/-- Only an ambiguity lets the parse go on. -/
def level : Reason → Level
  | ambiguousPrefix => .warning
  | _ => .error

/-- The pieces of the message of a reason. -/
def parts : Reason → List MessagePart
  | ambiguousPrefix => [.text "`", .argument "prefix", .text "' interpreted as argument prefix"]
  | unexpectedToken => [.text "unexpected token ", .argument "token"]
  | unexpectedChar => [.text "unexpected `", .argument "character", .text "'"]
  | unterminatedString => [.text "unterminated string meets end of file"]
  | ordinaryParamDefined => [.text "ordinary parameter is defined"]
  | duplicateVariableName => [.text "duplicated variable name ", .argument "name"]
  | duplicatePatternKey => [.text "duplicate hash pattern key ", .argument "name"]
  | classInDef => [.text "class definition in method body"]

end Reason

namespace MessagePart

def template : MessagePart → String
  | .text piece => piece
  | .argument name => "%\x7b" ++ name ++ "\x7d"

/-- A piece in a message, if its argument has a value. -/
def render? (arguments : Arguments) : MessagePart → Option String
  | .text piece => some piece
  | .argument name => arguments.get? name

end MessagePart

namespace Reason

/-- The message of a reason before its arguments have values. -/
def template (reason : Reason) : String := "".intercalate (reason.parts.map MessagePart.template)

/-- The message of a reason, if every argument in it has a value. -/
def message? (reason : Reason) (arguments : Arguments) : Option String :=
  (reason.parts.mapM (MessagePart.render? arguments)).map "".intercalate

def diagnostic (reason : Reason) (arguments : Arguments) (location : Span) : Diagnostic where
  level := reason.level
  reason := reason.code
  arguments
  message := (reason.message? arguments).getD reason.template
  location

end Reason

/-- The message for a reason's code, if there is such a reason and its arguments have values. -/
def compileMessage? (code : String) (arguments : Arguments) : Option String :=
  (Reason.ofCode? code).bind (·.message? arguments)

end Conformance.Dialect
