import Conformance.Proofs.Decoding
import Conformance.Proofs.Reports

/-! Which highlight a line means. The number of a highlight is the only step of the path, in digits;
a line without a path means the first one. The decoder forgets the occurrence that a step states if
this is the first, so that such a step numbers a highlight, too. With any other path a line of
highlights cannot be used. -/

namespace Conformance

open Text

namespace Marking

/-! ### The text of a path -/

/-- What the parentheses of a line have between them. -/
def pathText? (line : List Char) : Option (List Char) :=
  match line.dropWhile (· != '(') with
  | [] => none
  | _ :: rest => some rest.dropLast

/-- Digits that denote a number of 64 bits. -/
structure IndexText (digits : List Char) (index : Nat) : Prop where
  run : RunOf IsDigit digits
  value : Nat.ofDigitChars 10 digits 0 = index
  bound : index < 2 ^ 64

/-- The highlight that the text of a path means. -/
inductive Indicates : Option (List Char) → Nat → Prop where
  | absent : Indicates none 0
  | bare {digits : List Char} {index : Nat} : IndexText digits index →
      Indicates (some digits) index
  /-- The digits have a slash and the number one after them. -/
  | suffixed {digits occurrence : List Char} {index : Nat} : IndexText digits index →
      IndexText occurrence 1 → Indicates (some (digits ++ '/' :: occurrence)) index

variable {line segments digits tail : List Char} {marking : Marking} {path : Path} {step : Step}
  {index : Nat}

theorem word64?_eq_some_iff : word64? digits = some index ↔ IndexText digits index :=
  word64?_eq_some.trans ⟨fun ⟨run, value, bound⟩ => ⟨run, value, bound⟩,
    fun ⟨run, value, bound⟩ => ⟨run, value, bound⟩⟩

/-- The path of a line is the text between its parentheses, decoded; a line without a path has no
parentheses. -/
theorem Line.pathText?_cases (h : Line line marking) :
    pathText? line = none ∧ marking.path = [] ∨
      ∃ segments, pathText? line = some segments ∧ Segments segments marking.path := by
  have unopened {p : Char → Prop} {cs : List Char} (all : ∀ c ∈ cs, p c) (other : ¬ p '(')
      (rest : List Char) : (cs ++ rest).dropWhile (· != '(') = rest.dropWhile (· != '(') :=
    List.dropWhile_append_of_pos fun c mem => bne_iff_ne.2 fun same => other (same ▸ all c mem)
  cases h with
  | @intro indent marks blanks field tail _ range path indent_blank marks_form blanks_run field_run
      target form =>
    have before : line.dropWhile (· != '(') = tail.dropWhile (· != '(') := by
      have marks_unopened : ∀ c ∈ marks, c ≠ '(' := by
        cases marks_form with
        | absent => exact List.forall_mem_singleton.2 (by decide)
        | range run => exact fun c mem same => absurd (run.all c mem) (same ▸ by decide)
      rw [form, unopened indent_blank (by decide), unopened marks_unopened (by decide),
        unopened blanks_run.all (by decide), unopened field_run.all (by decide)]
    unfold Marking.pathText?
    rw [before]
    cases target with
    | root => exact .inl ⟨rfl, rfl⟩
    | @path blanks segments path blanks_run steps =>
      refine .inr ⟨segments, ?_, steps⟩
      rw [unopened blanks_run.all (by decide), List.dropWhile_cons_of_neg (by decide)]
      exact congrArg some List.dropLast_concat

/-! ### The step that numbers a highlight -/

theorem Segments.unique {path' : Path} (h : Segments segments path)
    (h' : Segments segments path') : path = path' :=
  Option.some.inj (h.read.symm.trans h'.read)

theorem IndexText.kind (h : IndexText digits index) : RunOf IsKindChar digits :=
  ⟨h.run.nonempty, fun c mem => .inr (h.run.all c mem)⟩

/-- A path that numbers a highlight is that number, with the first occurrence after it or not. -/
theorem Segments.numbers (h : Segments segments [⟨String.ofList digits, 0⟩])
    (number : IndexText digits index) : Indicates (some segments) index := by
  cases h with
  | last segment =>
    generalize same : (⟨String.ofList digits, 0⟩ : Step) = step at segment
    cases segment with
    | first run =>
      obtain rfl := String.ofList_inj.1 (Step.mk.inj same).1
      exact .bare number
    | @numbered kind occurrence count run occurrence_run value positive bound =>
      obtain ⟨kind_eq, count_eq⟩ := Step.mk.inj same
      obtain rfl := String.ofList_inj.1 kind_eq
      -- Occurrences are counted from zero in a step, and from one in the text.
      obtain rfl : count = 1 := by omega
      exact .suffixed number ⟨occurrence_run, value, bound⟩
  | more _ others => cases others

/-- The text of a path numbers a highlight exactly when the decoded path does. -/
theorem Line.numbers_iff (h : Line line marking) :
    marking.Numbers index ↔ Indicates (Marking.pathText? line) index := by
  obtain ⟨text, root⟩ | ⟨segments, text, steps⟩ := h.pathText?_cases
  · rw [text]
    constructor
    · intro numbers
      cases numbers with
      | first => exact .absent
      | nth path => cases root.symm.trans path
    · intro indicates
      cases indicates
      exact .first root
  · rw [text]
    constructor
    · intro numbers
      cases numbers with
      | first path =>
        rw [path] at steps
        cases steps
      | @nth digits index path number =>
        rw [path, ← String.ofList_toList (s := digits)] at steps
        exact steps.numbers (word64?_eq_some_iff.1 number)
    · intro indicates
      have decoded {digits : List Char} (number : IndexText digits index)
          (segment : Segment segments ⟨String.ofList digits, 0⟩) : marking.Numbers index := by
        refine .nth (steps.unique (.last segment)) ?_
        rw [String.toList_ofList]
        exact word64?_eq_some_iff.2 number
      cases indicates with
      | bare number => exact decoded number (.first number.kind)
      | suffixed number first =>
        exact decoded number
          (.numbered number.kind first.run first.value (Nat.le_refl 1) (by decide))

end Marking

/-- The highlight with a number, or the report that there is none. -/
def Diagnostic.highlight (d : Diagnostic) (version : Version) (index : Nat) : Except Failure Span :=
  match d.highlights[index]? with
  | some span => .ok span
  | none => .error (.mismatch version (.noHighlight index d.highlights.length))

theorem highlightIndex_malformed {marking : Marking} (h : ∀ index, ¬ marking.Numbers index) :
    highlightIndex marking = .error (.malformedMarking marking.line) := by
  unfold highlightIndex
  split
  · rename_i root
    exact absurd (.first root) (h 0)
  · rename_i digits step
    split
    · rename_i index number
      exact absurd (.nth step number) (h index)
    · rfl
  · rfl

open Marking in
/-- A line of highlights selects the one that its path means, and it is malformed if the text of the
path means none. -/
theorem highlights_numbered {line : List Char} {marking : Marking}
    (decoded : decode? line = some marking) (field : marking.field = "highlights")
    (version : Version) (d : Diagnostic) :
    (∀ index, Indicates (pathText? line) index →
      diagnosticRange version d marking = d.highlight version index) ∧
    (diagnosticRange version d marking = .error (.malformedMarking (String.ofList line)) ↔
      ∀ index, ¬ Indicates (pathText? line) index) := by
  have form := decode?_eq_some_iff.1 decoded
  have selects : ∀ index, Indicates (pathText? line) index →
      diagnosticRange version d marking = d.highlight version index := by
    intro index indicates
    rw [diagnosticRange_highlights field, highlightIndex_eq_ok.2 (form.numbers_iff.2 indicates)]
    rfl
  refine ⟨selects, fun malformed index indicates => ?_, fun none => ?_⟩
  · rw [selects index indicates] at malformed
    unfold Diagnostic.highlight at malformed
    split at malformed <;> cases malformed
  · have unnumbered : ∀ index, ¬ marking.Numbers index :=
      fun index numbers => none index (form.numbers_iff.1 numbers)
    rw [diagnosticRange_highlights field, highlightIndex_malformed unnumbered]
    cases form
    rfl

/-- The second of two highlights, by a number with a zero in front of it. -/
theorem highlights_numbered_second :
    ∃ marking, Marking.decode? "  ^ highlights (01)".toList = some marking ∧
      marking.field = "highlights" ∧
      Marking.Indicates (Marking.pathText? "  ^ highlights (01)".toList) 1 ∧
      ∀ version message, diagnosticRange version ⟨.warning, "ambiguous_prefix", .empty, message,
        .ofLength 0 1, [.ofLength 0 2, .ofLength 2 1]⟩ marking = .ok (.ofLength 2 1) := by
  have decoded : Marking.decode? "  ^ highlights (01)".toList =
      some ⟨some (.ofLength 2 1), "highlights", [⟨"01", 0⟩], "  ^ highlights (01)"⟩ := by
    decide +kernel
  have second : Marking.Indicates (Marking.pathText? "  ^ highlights (01)".toList) 1 := by
    have path : Marking.pathText? "  ^ highlights (01)".toList = some "01".toList := by
      decide +kernel
    exact path ▸ .bare (Marking.word64?_eq_some_iff.1 (by decide +kernel))
  exact ⟨_, decoded, rfl, second, fun version _ =>
    (highlights_numbered decoded rfl version _).1 1 second⟩

/-- A slash and the number one after the number of a highlight change nothing. -/
theorem suffix_disregarded :
    ∃ marking, Marking.decode? "     ~~~ highlights (0/1)".toList = some marking ∧
      marking.field = "highlights" ∧
      Marking.pathText? "     ~~~ highlights (0/1)".toList = some "0/1".toList ∧
      diagnosticRange ⟨"3.2"⟩ ⟨.warning, "ambiguous_prefix", .ofList [("prefix", "*")],
        "\x60*' interpreted as argument prefix", .ofLength 4 1, [.ofLength 5 3]⟩ marking =
          .ok (.ofLength 5 3) := by
  have decoded : Marking.decode? "     ~~~ highlights (0/1)".toList =
      some ⟨some (.ofLength 5 3), "highlights", [⟨"0", 0⟩], "     ~~~ highlights (0/1)"⟩ := by
    decide +kernel
  have path : Marking.pathText? "     ~~~ highlights (0/1)".toList = some "0/1".toList := by
    decide +kernel
  exact ⟨_, decoded, rfl, path, rfl⟩

end Conformance
