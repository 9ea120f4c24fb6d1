import Conformance.Toml.Scalar

/-! TOML documents. A document is read into tables that remember how they came to be, since that
decides where more entries may be added. -/

namespace Conformance.Toml

inductive Origin where
  /-- By a header of its own, or as the document itself. -/
  | header
  /-- On the way to a table with a header. -/
  | implied
  /-- On the way to a key with dots. -/
  | dotted
  deriving DecidableEq

mutual

inductive Draft where
  | mk (origin : Origin) (entries : List (String × Item))

inductive Item where
  | value (value : Value)
  | table (draft : Draft)
  /-- The tables of an array, the last one first. -/
  | tables (last : Draft) (earlier : List Draft)

end

namespace Draft

def origin : Draft → Origin
  | .mk origin _ => origin

def entries : Draft → List (String × Item)
  | .mk _ entries => entries

def empty (origin : Origin) : Draft := .mk origin []

def get? (draft : Draft) (key : String) : Option Item :=
  (draft.entries.find? fun entry => entry.1 == key).map Prod.snd

/-- Replaces what a key has, or adds it. -/
def put (draft : Draft) (key : String) (item : Item) : Draft :=
  .mk draft.origin ((key, item) :: draft.entries.filter fun entry => entry.1 != key)

/-- Changes the table at the end of a path and makes the tables on the way that are missing. The
way goes through the last table of an array. A path with dots may not go through a table that has a
header. -/
def changeAt (dotted : Bool) (change : Draft → Option Draft) :
    List String → Draft → Option Draft
  | [], draft => change draft
  | key :: path, draft =>
    match draft.get? key with
    | none => do
      let child ← changeAt dotted change path (empty (if dotted then .dotted else .implied))
      pure (draft.put key (.table child))
    | some (.table child) =>
      if dotted && child.origin == .header then none
      else do
        let child ← changeAt dotted change path child
        pure (draft.put key (.table child))
    | some (.tables last earlier) => do
      let last ← changeAt dotted change path last
      pure (draft.put key (.tables last earlier))
    | some (.value _) => none

/-- Adds a value under a path with dots, which has at least one key. -/
def assign (path : List String) (value : Value) (draft : Draft) : Option Draft :=
  match path.getLast? with
  | none => none
  | some key =>
    changeAt true
      (fun table =>
        if (table.get? key).isSome || (table.origin == .dotted) == (path.length == 1) then none
        else some (table.put key (.value value)))
      path.dropLast draft

/-- Opens the table of a header. -/
def openTable (path : List String) (draft : Draft) : Option Draft :=
  match path.getLast? with
  | none => none
  | some key =>
    changeAt false
      (fun table =>
        match table.get? key with
        | none => some (table.put key (.table (empty .header)))
        | some (.table child) =>
          if child.origin == .implied then
            some (table.put key (.table (.mk .header child.entries)))
          else none
        | some _ => none)
      path.dropLast draft

def openElement (path : List String) (draft : Draft) : Option Draft :=
  match path.getLast? with
  | none => none
  | some key =>
    changeAt false
      (fun table =>
        match table.get? key with
        | none => some (table.put key (.tables (empty .header) []))
        | some (.tables last earlier) =>
          some (table.put key (.tables (empty .header) (last :: earlier)))
        | some _ => none)
      path.dropLast draft

mutual

/-- The entries of a finished table, in the order of their keys. -/
def finish : Draft → List (String × Value)
  | .mk _ entries => sortEntries (finishEntries entries)

def finishEntries : List (String × Item) → List (String × Value)
  | [] => []
  | (key, item) :: rest => (key, finishItem item) :: finishEntries rest

def finishItem : Item → Value
  | .value value => value
  | .table draft => .table draft.finish
  | .tables last earlier => .array (finishTables earlier [.table last.finish])

/-- The tables of an array in their order, before those that are finished. -/
def finishTables : List Draft → List Value → List Value
  | [], finished => finished
  | draft :: earlier, finished => finishTables earlier (.table draft.finish :: finished)

end

end Draft

open Scan

/-! ### Keys and values -/

def bareKey : Scan String := do
  let text ← takeWhile fun c => c.isAlphanum || c == '_' || c == '-'
  if text.isEmpty then failure
  pure (String.ofList text)

def simpleKey : Scan String := basicString <|> literalString <|> bareKey

/-- How many parts a key may have, and how deep lists and tables may be in one another. -/
def depthLimit : Nat := 80

/-- A key whose parts stand between dots. -/
def key : Scan (List String) := do
  let first ← simpleKey
  let more ← many do
    blanks
    char '.'
    blanks
    simpleKey
  if depthLimit ≤ more.length then failure
  pure (first :: more)

/-- An element of a list between brackets, and the comma after it. Only the last element may have
none. -/
def element {α : Type} (close : Char) (scan : Scan α) : Scan α := do
  let value ← scan
  space
  if (← peek?) == some close then pure value
  else
    char ','
    space
    pure value

def bracketed {α : Type} (first last : Char) (scan : Scan α) : Scan (List α) := do
  char first
  space
  let elements ← many (element last scan)
  char last
  pure elements

/-- A key and its value, with `gap` around the sign between them. -/
def keyValue (gap : Scan Unit) (value : Scan Value) : Scan (List String × Value) := do
  let path ← key
  gap
  char '='
  gap
  return (path, ← value)

def tableOf? (entries : List (List String × Value)) : Option Value :=
  (entries.foldlM (fun (draft : Draft) entry => draft.assign entry.1 entry.2)
    (Draft.empty .header)).map fun draft => .table draft.finish

/-- A value with lists and tables up to `depth` deep in one another. -/
def value : Nat → Scan Value
  | 0 => scalar
  | depth + 1 => do
    match ← peek? with
    | some '[' => return .array (← bracketed '[' ']' (value depth))
    | some '\x7b' =>
      let entries ← bracketed '\x7b' '\x7d' (keyValue space (value depth))
      match tableOf? entries with
      | some table => pure table
      | none => failure
    | _ => scalar

/-! ### Lines -/

inductive Line where
  | nothing
  | assign (path : List String) (value : Value)
  | openTable (path : List String)
  | openElement (path : List String)

def content : Scan Line := do
  match ← peek? with
  | some '[' =>
    char '['
    if (← peek?) == some '[' then
      char '['
      blanks
      let path ← key
      blanks
      literal [']', ']']
      pure (.openElement path)
    else
      blanks
      let path ← key
      blanks
      char ']'
      pure (.openTable path)
  | some '#' | some '\n' | some '\r' | none => pure .nothing
  | _ =>
    let (path, value) ← keyValue blanks (value depthLimit)
    pure (.assign path value)

def line : Scan Line := do
  blanks
  let content ← content
  blanks
  discard (optional comment)
  pure content

def document : Scan (List Line) := do
  let first ← line
  let more ← many do
    newline
    line
  finish
  pure (first :: more)

/-- A document under construction: its tables, and the path of the header above the next line. -/
structure Progress where
  root : Draft := .empty .header
  header : List String := []

def Progress.add (progress : Progress) : Line → Option Progress
  | .nothing => some progress
  | .assign path value => do
    let root ← progress.root.changeAt false (Draft.assign path value) progress.header
    pure { progress with root }
  | .openTable path => return ⟨← progress.root.openTable path, path⟩
  | .openElement path => return ⟨← progress.root.openElement path, path⟩

/-- The entries of a document, in the order of their keys, if the text is a document. -/
def parse? (text : String) : Option (List (String × Value)) := do
  let cs := text.toList
  let (lines, _) ← document (if cs.head? == some '\uFEFF' then cs.tail else cs)
  let progress ← lines.foldlM Progress.add {}
  pure progress.root.finish

/-! ### Plain values -/

/-- Whether a value is the text of a date or a time. -/
def holdsDatetime : Value → Bool
  | .string text => isDatetime text
  | _ => false

mutual

/-- Whether the numbers of a value are in the range of 64 bits, integers with their sign, and its
dates and times are some. A table whose first key is that of dates and times is one, whatever else
it holds. -/
def isPlain : Value → Bool
  | .integer n => isSigned64 n
  | .array elements => arePlain elements
  | .table [] => true
  | .table ((key, value) :: rest) =>
    if key = Value.datetimeKey then holdsDatetime value else isPlain value && havePlain rest
  | .tooLarge => false
  | .string _ | .float _ | .boolean _ => true

def arePlain : List Value → Bool
  | [] => true
  | value :: rest => isPlain value && arePlain rest

def havePlain : List (String × Value) → Bool
  | [] => true
  | (_, value) :: rest => isPlain value && havePlain rest

end

end Conformance.Toml
