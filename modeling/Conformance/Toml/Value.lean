/-! The values of TOML documents. -/

namespace Conformance.Toml

/-- A value. A date or a time is a table with a single entry that holds its text. -/
inductive Value where
  | string (value : String)
  | integer (value : Int)
  /-- A number with a point or an exponent, as the text of the binary number next to it. -/
  | float (text : String)
  /-- A number with a point or an exponent that is beyond every binary number. -/
  | tooLarge
  | boolean (value : Bool)
  | array (elements : List Value)
  | table (entries : List (String × Value))

/-! ### The widths of integers -/

/-- From `-2 ^ 63` up to `2 ^ 63 - 1`. -/
def isSigned64 (n : Int) : Bool := -9223372036854775808 ≤ n && n < 9223372036854775808

/-- From `-2 ^ 63` up to `2 ^ 64 - 1`. -/
def isWord64 (n : Int) : Bool := -9223372036854775808 ≤ n && n < 18446744073709551616

/-- From `-2 ^ 127` up to `2 ^ 127 - 1`. -/
def isSigned128 (n : Int) : Bool :=
  -170141183460469231731687303715884105728 ≤ n && n < 170141183460469231731687303715884105728

/-- From `-2 ^ 127` up to `2 ^ 128 - 1`. -/
def isWord128 (n : Int) : Bool :=
  -170141183460469231731687303715884105728 ≤ n && n < 340282366920938463463374607431768211456

namespace Value

def datetimeKey : String := "$__toml_private_datetime"

def datetime (text : String) : Value := .table [(datetimeKey, .string text)]

def lookup? (key : String) (entries : List (String × Value)) : Option Value :=
  (entries.find? fun entry => entry.1 == key).map Prod.snd

mutual

/-- Checks the values without parts that a value consists of, in their order. -/
def forLeaves {ε : Type} (check : Value → Except ε Unit) : Value → Except ε Unit
  | .array elements => forElements check elements
  | .table entries => forEntries check entries
  | value => check value

def forElements {ε : Type} (check : Value → Except ε Unit) : List Value → Except ε Unit
  | [] => .ok ()
  | value :: rest => do
    forLeaves check value
    forElements check rest

def forEntries {ε : Type} (check : Value → Except ε Unit) :
    List (String × Value) → Except ε Unit
  | [] => .ok ()
  | (_, value) :: rest => do
    forLeaves check value
    forEntries check rest

end

end Value

/-- Inserts an entry before the first entry with a later key. -/
def insertSorted {α : Type} (entry : String × α) : List (String × α) → List (String × α)
  | [] => [entry]
  | first :: rest =>
    if entry.1 < first.1 then entry :: first :: rest else first :: insertSorted entry rest

def sortEntries {α : Type} (entries : List (String × α)) : List (String × α) :=
  entries.foldr insertSorted []

end Conformance.Toml
