import Conformance.Version

/-! The versions of the language: the numbered revisions, the vendor dialects, and what a version
can do. -/

namespace Conformance.Dialect

/-- The numbered revisions, the oldest first. -/
def revisions : List Version :=
  [⟨"1.8"⟩, ⟨"1.9"⟩, ⟨"2.0"⟩, ⟨"2.1"⟩, ⟨"2.2"⟩, ⟨"2.3"⟩, ⟨"2.4"⟩, ⟨"2.5"⟩, ⟨"2.6"⟩, ⟨"2.7"⟩,
    ⟨"3.0"⟩, ⟨"3.1"⟩, ⟨"3.2"⟩]

def vendorDialects : List Version := [⟨"mac"⟩, ⟨"ios"⟩]

/-- Every version, the numbered revisions first. -/
def versions : List Version := revisions ++ vendorDialects

/-- The revision that the vendor dialects extend. -/
def vendorBase : Version := ⟨"1.9"⟩

/-- The revision that a version is based on: a numbered revision is based on itself. -/
def baseOf (version : Version) : Version :=
  if version ∈ vendorDialects then vendorBase else version

def revisionIndex? (version : Version) : Option Nat := revisions.findIdx? (· == version)

/-- The parts of the language that not every version has. -/
structure Features where
  lambda : Bool
  /-- The names `_1` to `_9` as parameters of a block that declares none. -/
  numberedParameters : Bool
  patternMatching : Bool
  deriving DecidableEq

def lambdaSince : Version := ⟨"1.9"⟩

/-- The first revision with numbered parameters and pattern matching. -/
def matchingSince : Version := ⟨"2.7"⟩

/-- Whether the revision with index `index` is `first` or a later one. -/
def reaches (index : Nat) (first : Version) : Bool :=
  match revisionIndex? first with
  | some start => start ≤ index
  | none => false

/-- What a version can do, if it is a version of the language. -/
def features? (version : Version) : Option Features :=
  (revisionIndex? (baseOf version)).map fun index =>
    ⟨reaches index lambdaSince, reaches index matchingSince, reaches index matchingSince⟩

def since? (version : Version) : Option (List Version) :=
  (revisionIndex? version).map revisions.drop

/-- The numbered revisions up to the given one, which is the last of them. -/
def until? (version : Version) : Option (List Version) :=
  (revisionIndex? version).map fun index => revisions.take (index + 1)

end Conformance.Dialect
