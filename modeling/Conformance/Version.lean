/-! The names of the versions of a language. -/

namespace Conformance

/-- A version, which is known by its name alone. -/
structure Version where
  name : String
  deriving DecidableEq

/-- Versions are ordered as their names are, code point by code point. -/
def Version.order (a b : Version) : Ordering := compare a.name b.name

end Conformance
