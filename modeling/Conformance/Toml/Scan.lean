import Conformance.Text.Lines

/-! The reading of texts from left to right. A scan that fails says nothing about the reason. -/

namespace Conformance.Toml

/-- Reads a part of a text and leaves the rest. -/
abbrev Scan := StateT (List Char) Option

namespace Scan

def peek? : Scan (Option Char) := return (← get).head?

def satisfy (p : Char → Bool) : Scan Char := fun cs =>
  match cs with
  | c :: rest => if p c then some (c, rest) else none
  | [] => none

def char (c : Char) : Scan Unit := discard (satisfy (· == c))

def literal (text : List Char) : Scan Unit := fun cs =>
  if text.isPrefixOf cs then some ((), cs.drop text.length) else none

/-- Reads the longest run of characters that satisfy `p`. -/
def takeWhile (p : Char → Bool) : Scan (List Char) := fun cs =>
  some (cs.takeWhile p, cs.dropWhile p)

/-- Whether a scan would succeed here. -/
def ahead {α : Type} (scan : Scan α) : Scan Bool := fun cs => some ((scan cs).isSome, cs)

/-- Succeeds at the end of the text only. -/
def finish : Scan Unit := fun cs => if cs.isEmpty then some ((), cs) else none

/-- Takes a scan up to `limit` times, until it fails. -/
def repeatAtMost {α : Type} (scan : Scan α) : Nat → Scan (List α)
  | 0 => pure []
  | limit + 1 => do
    match ← optional scan with
    | none => pure []
    | some value =>
      let more ← repeatAtMost scan limit
      pure (value :: more)

/-- Takes a scan, which reads at least one character, until it fails. -/
def many {α : Type} (scan : Scan α) : Scan (List α) := do
  repeatAtMost scan ((← get).length + 1)

end Scan

end Conformance.Toml
