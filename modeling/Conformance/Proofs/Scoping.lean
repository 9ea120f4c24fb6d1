import Conformance.Proofs.Acceptance

/-! What a phrase leaves alone of the scopes and of the use of numbered parameters: it declares
names in the innermost scope and raises the highest number of the innermost body, and ends every
scope and every body that it starts. -/

namespace Conformance.Dialect

/-- The use of numbered parameters without the highest number, where that may still rise: it cannot
in a body with parameters of its own. -/
def Numbering.rigid : Numbering → Numbering
  | .body _ false => .body 0 false
  | numbering => numbering

/-- What a phrase leaves as it was. -/
structure Frame where
  /-- The scopes around the innermost one. -/
  outer : List Scope
  /-- For each scope whether it inherits. -/
  inherits : List Bool
  numbering : List Numbering

namespace Frame

/-- With another scope inside. -/
def opened (frame : Frame) (scopes : List Scope) (inherits : Bool) : Frame :=
  ⟨scopes, inherits :: frame.inherits, frame.numbering⟩

/-- With another body inside. -/
def numbered (frame : Frame) (numbering : Numbering) : Frame :=
  { frame with numbering := numbering.rigid :: frame.numbering }

/-- Without the innermost scope and body. -/
def left (frame : Frame) : Frame :=
  ⟨frame.outer.tail, frame.inherits.tail, frame.numbering.tail⟩

/-- In the body of a block or a lambda literal, the innermost scope inherits. -/
def Aligned (frame : Frame) : Prop :=
  (∃ numbering ∈ frame.numbering.head?, numbering ≠ .closed) → frame.inherits.head? = some true

theorem aligned_of_inherits {frame outer : Frame} {scopes : List Scope} {numbering : Numbering}
    (inside : frame = (outer.opened scopes true).numbered numbering) : frame.Aligned := by
  rw [inside]
  exact fun _ => rfl

theorem aligned_of_closed {frame outer : Frame} (inside : frame = outer.numbered .closed) :
    frame.Aligned := by
  rw [inside]
  rintro ⟨numbering, head, isBody⟩
  exact absurd (Option.some.inj head).symm isBody

end Frame

namespace Bookkeeping

def frame (book : Bookkeeping) : Frame :=
  ⟨book.scopes.tail, book.scopes.map Scope.inherits, book.numbering.map Numbering.rigid⟩

@[simp] theorem frame_declare (book : Bookkeeping) (name : String) :
    (book.declare name).frame = book.frame := by
  unfold declare
  split
  · rfl
  · rename_i scopes
    simp [frame, scopes]

@[simp] theorem frame_nameParameter (book : Bookkeeping) (name : String) :
    (book.nameParameter name).frame = book.frame := frame_declare _ name

theorem Binds.frame_eq {book after : Bookkeeping} {name : String} (binds : Binds name book after) :
    after.frame = book.frame := by
  cases binds with
  | free => exact frame_declare _ _
  | fresh => exact frame_declare _ _

theorem frame_useNumber {features : Features} {book : Bookkeeping} {name : String} {number : Nat}
    (use : Grammar.numberedUse? features book name = some (number, false)) :
    (book.useNumber number).frame = book.frame := by
  unfold Grammar.numberedUse? at use
  split at use
  · cases use
  · split at use
    · rename_i numbering
      cases use
      simp [useNumber, numbering, frame, Numbering.rigid]
    · cases use

section Body

variable {book body : Bookkeeping} {inherits : Bool} {numbering : Numbering}
  (inside : body.frame = (book.frame.opened book.scopes inherits).numbered numbering)

include inside

theorem tail_scopes_eq : body.scopes.tail = book.scopes := congrArg Frame.outer inside

theorem head?_numbering_eq : body.numbering.head?.map Numbering.rigid = some numbering.rigid := by
  rw [← List.head?_map]
  exact congrArg (fun frame : Frame => frame.numbering.head?) inside

/-- A body is ended where it was started. -/
theorem frame_endBody (context : Flags) : (body.endBody context).frame = book.frame := by
  have left : (body.endBody context).frame = body.frame.left := by
    simp [endBody, frame, Frame.left, List.map_tail]
  rw [left, inside]
  rfl

end Body

end Bookkeeping

namespace Grammar

variable {features : Features} {s t : ParseState}

theorem Names.frame_eq {close : TokenKind} {seen : List String} {nodes : List Node}
    (h : Names close seen s nodes t) : t.book.frame = s.book.frame := by
  induction h with
  | none => rfl
  | last => exact Bookkeeping.frame_nameParameter _ _
  | more _ _ _ _ ih => exact ih.trans (Bookkeeping.frame_nameParameter _ _)

theorem ParameterList.frame_eq {close : TokenKind} {nodes : List Node}
    (h : ParameterList close s nodes t) : t.book.frame = s.book.frame := by
  cases h with
  | intro names => exact names.frame_eq

theorem BlockParameters.frame_eq {parameters : Node × Bool} (h : BlockParameters s parameters t) :
    t.book.frame = s.book.frame := by
  cases h with
  | bars | none => rfl
  | list _ names _ => exact names.frame_eq

theorem ParenthesizedParameters.frame_eq {parameters : Node × Bool}
    (h : ParenthesizedParameters s parameters t) : t.book.frame = s.book.frame := by
  cases h with
  | none => rfl
  | list _ names _ => exact names.frame_eq

theorem Derives.frame_eq {phrase : Phrase} {value : phrase.Result}
    (h : Derives features phrase s value t) : t.book.frame = s.book.frame := by
  induction h with
  | noStatements | noOperator | negative | integer | string | symbol | keyword | constant
  | localVariable | noCall | emptyParens | noActuals | noBlock | noEntries | noClauses => rfl
  | lastStatement _ _ _ _ ih | unassigned _ _ ih | minus _ _ _ ih | bang _ _ ih
  | adjacentCall _ _ _ ih | wordCall _ _ _ _ _ ih | parenthesized _ _ _ ih | definedWord _ _ _ ih
  | definedParens _ _ _ _ ih | parens _ _ _ _ _ ih | commandArguments _ _ _ ih
  | lastArgument _ _ ih | plainArgument _ _ ih | hashPattern _ _ _ ih
  | valuePattern _ _ ih | lastEntry _ _ _ ih | pairEntry _ _ _ ih => exact ih
  | moreStatements _ _ _ _ ih1 ih2 | operators _ _ ih1 ih2 | operator _ _ _ _ _ ih1 ih2
  | chain _ _ _ _ ih1 ih2 | whileLoop _ _ _ _ _ _ ih1 ih2 | caseMatch _ _ _ _ _ _ ih1 ih2
  | dotCall _ _ _ _ ih1 ih2 | call _ _ ih1 ih2 | moreArguments _ _ _ ih1 ih2
  | moreEntries _ _ _ _ ih1 ih2 | moreClauses _ _ ih1 ih2 => exact ih2.trans ih1
  | caseElse _ _ _ _ _ _ _ _ ih1 ih2 ih3 => exact ih3.trans (ih2.trans ih1)
  | assignment _ _ _ ih => exact ih.trans (Bookkeeping.frame_declare _ _)
  | numberedVariable _ _ use => exact Bookkeeping.frame_useNumber use
  | signedArgument _ _ _ ih =>
    split
    · exact ih
    · exact ih
  | variablePattern _ binds => exact binds.frame_eq
  | bareEntry _ _ binds => exact binds.frame_eq
  | clause _ _ same _ _ _ ih1 ih2 =>
    subst same
    exact ih2.trans ih1
  | lambda _ _ parameters _ _ _ _ ih =>
    have inside := ih.trans (congrArg (Frame.numbered · _) parameters.frame_eq)
    exact Bookkeeping.frame_endBody inside _
  | block _ _ parameters _ _ ih =>
    have inside := ih.trans (congrArg (Frame.numbered · _) parameters.frame_eq)
    exact Bookkeeping.frame_endBody inside _
  | method _ _ parameters _ _ ih => exact Bookkeeping.frame_endBody (ih.trans parameters.frame_eq) _
  | classDefinition _ _ _ _ _ ih => exact Bookkeeping.frame_endBody ih _

end Grammar

end Conformance.Dialect
