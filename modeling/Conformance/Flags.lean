/-! The flags that describe where in a program a parser stands. -/

namespace Conformance

/-- A property of the place that is being parsed. -/
inductive Flag where
  | inDefined
  | inKwarg
  | inArgdef
  | inDef
  | inClass
  | inBlock
  | inLambda
  deriving DecidableEq

namespace Flag

/-- Every flag, in the order in which flags are listed. -/
def all : List Flag := [inDefined, inKwarg, inArgdef, inDef, inClass, inBlock, inLambda]

def name : Flag → String
  | inDefined => "in_defined"
  | inKwarg => "in_kwarg"
  | inArgdef => "in_argdef"
  | inDef => "in_def"
  | inClass => "in_class"
  | inBlock => "in_block"
  | inLambda => "in_lambda"

def ofName? (name : String) : Option Flag := all.find? fun flag => flag.name == name

/-- The name of a flag in a message that compares sets of flags. -/
def title : Flag → String
  | inDefined => "InDefined"
  | inKwarg => "InKwarg"
  | inArgdef => "InArgdef"
  | inDef => "InDef"
  | inClass => "InClass"
  | inBlock => "InBlock"
  | inLambda => "InLambda"

theorem mem_all (flag : Flag) : flag ∈ all := by cases flag <;> decide

theorem ofName?_name (flag : Flag) : ofName? flag.name = some flag := by cases flag <;> rfl

end Flag

structure Flags where
  inDefined : Bool := false
  inKwarg : Bool := false
  inArgdef : Bool := false
  inDef : Bool := false
  inClass : Bool := false
  inBlock : Bool := false
  inLambda : Bool := false
  deriving DecidableEq

namespace Flags

def clear : Flags := {}

def get (flags : Flags) : Flag → Bool
  | .inDefined => flags.inDefined
  | .inKwarg => flags.inKwarg
  | .inArgdef => flags.inArgdef
  | .inDef => flags.inDef
  | .inClass => flags.inClass
  | .inBlock => flags.inBlock
  | .inLambda => flags.inLambda

def set (flags : Flags) (flag : Flag) (value : Bool) : Flags :=
  match flag with
  | .inDefined => { flags with inDefined := value }
  | .inKwarg => { flags with inKwarg := value }
  | .inArgdef => { flags with inArgdef := value }
  | .inDef => { flags with inDef := value }
  | .inClass => { flags with inClass := value }
  | .inBlock => { flags with inBlock := value }
  | .inLambda => { flags with inLambda := value }

theorem get_set (flags : Flags) (flag other : Flag) (value : Bool) :
    (flags.set flag value).get other = if other = flag then value else flags.get other := by
  cases flag <;> cases other <;> rfl

/-- Each flag takes the value that stands beside it, from left to right. -/
def setAll (flags : Flags) (changes : List (Flag × Bool)) : Flags :=
  changes.foldl (fun flags change => flags.set change.1 change.2) flags

def ofList (flags : List Flag) : Flags := clear.setAll (flags.map (·, true))

/-- The flags in the set, in the order of `Flag.all`. -/
def active (flags : Flags) : List Flag := Flag.all.filter flags.get

def isClear (flags : Flags) : Bool := flags.active.isEmpty

end Flags

end Conformance
