import Conformance.Text.Lines
import Conformance.Tree

/-! Markings: lines drawn under a snippet that state where a part of it stands.

A line has blanks up to the first marked character, then a run of `~` and `^` under the marked
characters (or a single `!`, if there should be no range), blanks, the name of a field, and
optionally blanks and a path in parentheses. A path has its steps between dots, and a step is a
kind of node, which a slash and a number from 1 on may follow. -/

namespace Conformance

structure Marking where
  /-- The marked range; a line with `!` has none. -/
  range : Option Span
  field : String
  path : Path
  line : String
  deriving DecidableEq

namespace Marking

open Text

def isMarker (c : Char) : Bool := c == '~' || c == '^'

/-- A character of a field's name. -/
def isWord (c : Char) : Bool := c.isLower || c == '_'

def isPathChar (c : Char) : Bool := isWord c || c.isDigit || c == '.' || c == '/'

/-- Decodes a step such as `send` or `send/2`. -/
def step? (segment : List Char) : Option Step :=
  let kind := segment.takeWhile (· != '/')
  if kind.isEmpty then none
  else
    match segment.dropWhile (· != '/') with
    | [] => some ⟨String.ofList kind, 0⟩
    | _ :: occurrence => (word64? occurrence).bind (Step.nth? (String.ofList kind))

/-- Decodes what follows a field's name: nothing, or a path in parentheses. -/
def path? (rest : List Char) : Option Path :=
  if rest.isEmpty then some []
  else do
    let (_, rest) ← run? isSpace rest
    let rest ← skip? '(' rest
    let (segments, rest) ← run? isPathChar rest
    let rest ← skip? ')' rest
    if rest.isEmpty then (pieces '.' segments).mapM step? else none

/-- Decodes the markers that follow `start` blanks. -/
def range? (start : Nat) (rest : List Char) : Option (Option Span × List Char) :=
  match skip? '!' rest with
  | some rest => some (none, rest)
  | none => do
    let (markers, rest) ← run? isMarker rest
    pure (some (.ofLength start markers.length), rest)

/-- Decodes a line that has no blanks at its end. -/
def decode? (line : List Char) : Option Marking := do
  let (range, rest) ← range? (line.takeWhile isSpace).length (line.dropWhile isSpace)
  let (_, rest) ← run? isSpace rest
  let (field, rest) ← run? isWord rest
  let path ← path? rest
  pure ⟨range, String.ofList field, path, String.ofList line⟩

/-- A line without blanks at its end. A bar that only blanks precede goes with these. -/
def strip (raw : List Char) : List Char :=
  match raw.dropWhile isSpace with
  | '|' :: rest => trimRight rest
  | _ => trimRight raw

/-- A reader of a block of lines. It stops for good at the first line that it cannot decode. -/
structure Reader where
  lines : List (List Char)
  failed : Bool := false

def Reader.ofBlock (block : String) : Reader := ⟨Text.lines block.toList, false⟩

/-- Decodes the first line that is not empty. A line that cannot be decoded is given back. -/
def Reader.step : List (List Char) → Option (Except String Marking) × Reader
  | [] => (none, ⟨[], false⟩)
  | raw :: rest =>
    let line := strip raw
    if line.isEmpty then Reader.step rest
    else
      match decode? line with
      | some marking => (some (.ok marking), ⟨rest, false⟩)
      | none => (some (.error (String.ofList line)), ⟨rest, true⟩)

/-- The next marking, or the line that stopped the reader. -/
def Reader.next (reader : Reader) : Option (Except String Marking) × Reader :=
  if reader.failed then (none, reader) else Reader.step reader.lines

/-- Every marking up to the first line that cannot be decoded, and that line. -/
def readLines : List (List Char) → List Marking × Option String
  | [] => ([], none)
  | raw :: rest =>
    let line := strip raw
    if line.isEmpty then readLines rest
    else
      match decode? line with
      | none => ([], some (String.ofList line))
      | some marking =>
        let (markings, failure) := readLines rest
        (marking :: markings, failure)

/-- The markings of a block up to the first line that cannot be decoded, and that line. -/
def readBlock (block : String) : List Marking × Option String :=
  readLines (Text.lines block.toList)

end Marking

end Conformance
