import Conformance.Text.Blank

/-! The cutting of texts: into lines, at a separator, and into a run of characters and the rest. -/

namespace Conformance.Text

/-- The lines of a text. A line ends at a line feed, which may follow a carriage return; neither
belongs to the line. The last line need not end. -/
def lines : List Char → List (List Char)
  | [] => []
  | '\n' :: rest => [] :: lines rest
  | '\r' :: '\n' :: rest => [] :: lines rest
  | c :: rest =>
    match lines rest with
    | [] => [[c]]
    | line :: more => (c :: line) :: more

/-- The pieces of a text between the occurrences of a separator. -/
def pieces (separator : Char) : List Char → List (List Char)
  | [] => [[]]
  | c :: rest =>
    if c = separator then [] :: pieces separator rest
    else
      match pieces separator rest with
      | [] => [[c]]
      | piece :: more => (c :: piece) :: more

/-- The longest run at the start of a text of characters that satisfy `p`, with what follows it,
if the run is not empty. -/
def run? (p : Char → Bool) (cs : List Char) : Option (List Char × List Char) :=
  if (cs.takeWhile p).isEmpty then none else some (cs.takeWhile p, cs.dropWhile p)

/-- What follows the character `c` at the start of a text. -/
def skip? (c : Char) : List Char → Option (List Char)
  | [] => none
  | d :: rest => if d = c then some rest else none

/-- The number that a run of decimal digits denotes. -/
def digitsValue (cs : List Char) : Nat :=
  cs.foldl (fun n c => 10 * n + (c.toNat - '0'.toNat)) 0

/-- A text of one or more decimal digits and nothing else. -/
def isDigits (cs : List Char) : Bool := !cs.isEmpty && cs.all Char.isDigit

/-- The number of the words of 64 bits, `2 ^ 64`. -/
def wordCount : Nat := 18446744073709551616

/-- The number below `wordCount` that a text of decimal digits denotes. -/
def word64? (cs : List Char) : Option Nat :=
  if isDigits cs && digitsValue cs < wordCount then some (digitsValue cs) else none

end Conformance.Text
