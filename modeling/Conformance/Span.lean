import Conformance.Text.Blank

/-! Spans: ranges of characters of a source, the end excluded. -/

namespace Conformance

/-- A range of characters from `start` up to `stop`, which is not before it. -/
structure Span where
  start : Nat
  stop : Nat
  ordered : start ≤ stop := by omega
  deriving DecidableEq

namespace Span

def ofLength (start length : Nat) : Span := ⟨start, start + length, by omega⟩

/-- The span between two offsets, if the end is not before the start. -/
def ofBounds? (start stop : Nat) : Option Span :=
  if h : start ≤ stop then some ⟨start, stop, h⟩ else none

def length (s : Span) : Nat := s.stop - s.start

def isEmpty (s : Span) : Bool := s.start == s.stop

/-- The least span that covers both spans. -/
def join (a b : Span) : Span where
  start := min a.start b.start
  stop := max a.stop b.stop
  ordered := by have := a.ordered; have := b.ordered; omega

/-- Spans are ordered by their start, and then by their end. -/
def order (a b : Span) : Ordering :=
  (compare a.start b.start).then (compare a.stop b.stop)

def text (s : Span) : String := toString s.start ++ "..." ++ toString s.stop

/-- The byte offsets of a span in a source. Offsets past the end of the source give its length. -/
def byteRange (s : Span) (source : String) : Nat × Nat :=
  (Text.bytes (source.toList.take s.start), Text.bytes (source.toList.take s.stop))

/-- The characters of a source that a span covers. -/
def slice (s : Span) (source : String) : String :=
  String.ofList ((source.toList.take s.stop).drop s.start)

theorem ofBounds?_eq_some {start stop : Nat} (h : start ≤ stop) :
    ofBounds? start stop = some ⟨start, stop, h⟩ := dif_pos h

end Span

end Conformance
