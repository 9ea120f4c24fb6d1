import Conformance.Span

/-! The tokens of the language. -/

namespace Conformance.Dialect

inductive TokenKind where
  | newline | semicolon | integer | string | symbol | label | identifier | constant
  | kwDef | kwEnd | kwClass | kwDo | kwWhile | kwCase | kwIn | kwThen | kwElse | kwDefined
  | kwNil | kwTrue | kwFalse | kwSelf
  | lparen | rparen | lbrace | rbrace | comma | dot | pipe | orOr | andAnd | ampersand | star
  | arrow | assign | equal | notEqual | less | greater | lessEqual | greaterEqual
  | plus | minus | slash | percent | bang
  deriving DecidableEq

namespace TokenKind

/-- The name of a kind in messages. -/
def describe : TokenKind → String
  | newline => "tNL"
  | semicolon => "tSEMI"
  | integer => "tINTEGER"
  | string => "tSTRING"
  | symbol => "tSYMBOL"
  | label => "tLABEL"
  | identifier => "tIDENTIFIER"
  | constant => "tCONSTANT"
  | kwDef => "kDEF"
  | kwEnd => "kEND"
  | kwClass => "kCLASS"
  | kwDo => "kDO"
  | kwWhile => "kWHILE"
  | kwCase => "kCASE"
  | kwIn => "kIN"
  | kwThen => "kTHEN"
  | kwElse => "kELSE"
  | kwDefined => "kDEFINED"
  | kwNil => "kNIL"
  | kwTrue => "kTRUE"
  | kwFalse => "kFALSE"
  | kwSelf => "kSELF"
  | lparen => "tLPAREN"
  | rparen => "tRPAREN"
  | lbrace => "tLCURLY"
  | rbrace => "tRCURLY"
  | comma => "tCOMMA"
  | dot => "tDOT"
  | pipe => "tPIPE"
  | orOr => "tOROP"
  | andAnd => "tANDOP"
  | ampersand => "tAMPER"
  | star => "tSTAR"
  | arrow => "tLAMBDA"
  | assign => "tEQL"
  | equal => "tEQ"
  | notEqual => "tNEQ"
  | less => "tLT"
  | greater => "tGT"
  | lessEqual => "tLEQ"
  | greaterEqual => "tGEQ"
  | plus => "tPLUS"
  | minus => "tMINUS"
  | slash => "tDIVIDE"
  | percent => "tPERCENT"
  | bang => "tBANG"

/-- The kinds whose tokens have only one text, each with its text. -/
def fixedTexts : List (TokenKind × String) :=
  [(newline, "\n"), (semicolon, ";"), (kwDef, "def"), (kwEnd, "end"), (kwClass, "class"),
    (kwDo, "do"), (kwWhile, "while"), (kwCase, "case"), (kwIn, "in"), (kwThen, "then"),
    (kwElse, "else"), (kwDefined, "defined?"), (kwNil, "nil"), (kwTrue, "true"),
    (kwFalse, "false"), (kwSelf, "self"), (lparen, "("), (rparen, ")"), (lbrace, "\x7b"),
    (rbrace, "\x7d"), (comma, ","), (dot, "."), (pipe, "|"), (orOr, "||"), (andAnd, "&&"),
    (ampersand, "&"), (star, "*"), (arrow, "->"), (assign, "="), (equal, "=="),
    (notEqual, "!="), (less, "<"), (greater, ">"), (lessEqual, "<="), (greaterEqual, ">="),
    (plus, "+"), (minus, "-"), (slash, "/"), (percent, "%"), (bang, "!")]

end TokenKind

structure Token where
  kind : TokenKind
  span : Span
  text : String
  /-- Whether the token is the first, or follows a blank, a comment or a line break. -/
  spaced : Bool
  deriving DecidableEq

end Conformance.Dialect
