import Conformance.Encoding
import Conformance.Span

/-! Positions: from offsets of bytes to offsets of characters, in either encoding. -/

namespace Conformance.Dialect

/-- The byte offset of every character of a text that starts at the byte `start`, and the offset of
its end. -/
def byteStarts (start : Nat) : List Char → List Nat
  | [] => [start]
  | c :: rest => start :: byteStarts (start + c.utf8Size) rest

/-- Counts the characters from the byte `byte`, which starts `unread` and is the start of character
number `offset`, up to the byte `target`. There is no count if `target` does not start a
character. -/
def countTo (target : Nat) (unread : List Char) (byte offset : Nat) : Option (List Char × Nat) :=
  if byte = target then some (unread, offset)
  else
    match unread with
    | [] => none
    | c :: rest =>
      if byte < target then countTo target rest (byte + c.utf8Size) (offset + 1) else none

inductive Positions where
  /-- Characters are counted from the byte that was looked up last. -/
  | counted (source unread : List Char) (byte offset : Nat)
  /-- The code points and where each of them starts are listed beforehand. -/
  | listed (codePoints : List Char) (starts : List Nat)

namespace Positions

def ofSource (source : List Char) : Encoding → Positions
  | .utf8 => counted source source 0 0
  | .utf32 => listed source (byteStarts 0 source)

/-- The character offset of a byte offset. A count goes on where the last one ended, unless the
byte lies before that; a list gives the number of characters that start before the byte. -/
def offset? (positions : Positions) (target : Nat) : Option (Nat × Positions) :=
  match positions with
  | counted source unread byte offset =>
    let found :=
      if target < byte then countTo target source 0 0 else countTo target unread byte offset
    found.map fun (rest, offset) => (offset, counted source rest target offset)
  | listed _ starts => some (starts.countP (· < target), positions)

def span? (positions : Positions) (start stop : Nat) : Option (Span × Positions) := do
  let (first, positions) ← positions.offset? start
  let (last, positions) ← positions.offset? stop
  let span ← Span.ofBounds? first last
  pure (span, positions)

/-- The character with the offset `offset`, where the text `unread` starts. -/
def character (positions : Positions) (offset : Nat) (unread : List Char) : Char :=
  match positions with
  | counted .. => unread.head?.getD '\x00'
  | listed codePoints _ => codePoints[offset]?.getD '\x00'

end Positions

end Conformance.Dialect
