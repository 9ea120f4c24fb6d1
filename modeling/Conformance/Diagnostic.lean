import Conformance.Span
import Conformance.Text.Quoted

/-! Diagnostics, and what a check expects of them. -/

namespace Conformance

inductive Level where
  | note
  | warning
  | error
  | fatal
  deriving DecidableEq

namespace Level

def all : List Level := [note, warning, error, fatal]

/-- The name of a level where it is written by a person. -/
def name : Level → String
  | note => "note"
  | warning => "warning"
  | error => "error"
  | fatal => "fatal"

def ofName? (name : String) : Option Level := all.find? fun level => level.name == name

/-- The name of a level in a message that compares two of them. -/
def title : Level → String
  | note => "Note"
  | warning => "Warning"
  | error => "Error"
  | fatal => "Fatal"

/-- The heading under which a level is reported: a fatal diagnostic is reported as an error. -/
def severity : Level → Level
  | note => note
  | warning => warning
  | error | fatal => error

end Level

/-- The named values of a diagnostic, in the order in which their names were first given. -/
structure Arguments where
  entries : List (String × String) := []
  distinct : (entries.map Prod.fst).Nodup := by simp
  deriving DecidableEq

namespace Arguments

def empty : Arguments := {}

def get? (arguments : Arguments) (name : String) : Option String :=
  (arguments.entries.find? fun entry => entry.1 == name).map Prod.snd

/-- Replaces the value of `name` where it stands in `entries`, or adds it at the end. -/
def put (entries : List (String × String)) (name value : String) : List (String × String) :=
  match entries with
  | [] => [(name, value)]
  | entry :: rest =>
    if entry.1 = name then (name, value) :: rest else entry :: put rest name value

theorem names_put (entries : List (String × String)) (name value : String) :
    (put entries name value).map Prod.fst =
      if name ∈ entries.map Prod.fst then entries.map Prod.fst
      else entries.map Prod.fst ++ [name] := by
  induction entries with
  | nil => simp [put]
  | cons entry rest ih =>
    by_cases h : entry.1 = name
    · simp [put, h]
    · have h' : ¬ name = entry.1 := fun e => h e.symm
      by_cases hm : name ∈ rest.map Prod.fst
      · simp only [put, if_neg h, List.map_cons, ih, if_pos hm]
        rw [if_pos (List.mem_cons_of_mem _ hm)]
      · simp only [put, if_neg h, List.map_cons, ih, if_neg hm]
        rw [if_neg (by simp only [List.mem_cons, not_or]; exact ⟨h', hm⟩)]
        rfl

/-- A name that has a value keeps its place and takes the new value. -/
def insert (arguments : Arguments) (name value : String) : Arguments where
  entries := put arguments.entries name value
  distinct := by
    rw [names_put]
    split
    · exact arguments.distinct
    · rename_i h
      exact List.nodup_append.2 ⟨arguments.distinct, by simp, by
        intro a ha b hb
        simp only [List.mem_singleton] at hb
        subst hb
        exact fun e => h (e ▸ ha)⟩

/-- The arguments that the pairs give, from left to right. -/
def ofList (pairs : List (String × String)) : Arguments :=
  pairs.foldl (fun arguments pair => arguments.insert pair.1 pair.2) empty

/-- The same names have the same values, whatever their order. -/
def same (a b : Arguments) : Bool :=
  a.entries.length == b.entries.length &&
    a.entries.all fun entry => b.get? entry.1 == some entry.2

/-- Arguments as a message shows them. -/
def text (arguments : Arguments) : String :=
  let pairs := arguments.entries.map fun entry =>
    Text.quote entry.1 ++ ": " ++ Text.quote entry.2
  "\x7b" ++ ", ".intercalate pairs ++ "\x7d"

end Arguments

structure Diagnostic where
  level : Level
  reason : String
  arguments : Arguments := .empty
  message : String
  location : Span
  highlights : List Span := []
  deriving DecidableEq

namespace Diagnostic

/-- A diagnostic on one line. -/
def text (d : Diagnostic) : String :=
  d.level.name ++ ": " ++ d.message ++ " [" ++ d.reason ++ "] @ " ++ d.location.text

/-- Whether a labelled range is the place of a diagnostic or one of its highlights. -/
inductive Rank where
  | primary
  | secondary
  deriving DecidableEq

/-- The byte ranges that a diagnostic marks in a source, its location first. -/
def labels (d : Diagnostic) (source : String) : List (Rank × Nat × Nat) :=
  (.primary, d.location.byteRange source) ::
    d.highlights.map fun span => (.secondary, span.byteRange source)

end Diagnostic

/-- What is drawn of a diagnostic under its source. -/
structure Report where
  severity : Level
  code : String
  message : String
  labels : List (Diagnostic.Rank × Nat × Nat)
  deriving DecidableEq

def Diagnostic.report (d : Diagnostic) (source : String) : Report where
  severity := d.level.severity
  code := d.reason
  message := d.message
  labels := d.labels source

/-- The part of a diagnostic that a check states. -/
structure ExpectedDiagnostic where
  level : Level
  reason : String
  arguments : Arguments := .empty
  deriving DecidableEq

end Conformance
