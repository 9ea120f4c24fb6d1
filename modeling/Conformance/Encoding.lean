/-! The ways in which a parser may find the characters of its source. -/

namespace Conformance

/-- How offsets in a source are turned into offsets of characters: by counting characters on the
way through its bytes, or by a table of all its code points. -/
inductive Encoding where
  | utf8
  | utf32
  deriving DecidableEq

end Conformance
