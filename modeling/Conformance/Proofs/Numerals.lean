import Conformance.Proofs.Decoding
import Conformance.Proofs.Receivers
import Conformance.Proofs.Spaces
import Mathlib.Data.Nat.Digits.Defs

/-! Integers as texts. A text denotes an integer if it has decimal digits and nothing else, apart
from a minus in front. It is read as the integer where 64 bits hold this, and is kept as it stands
elsewhere, so that zeros in front of its digits count there and nowhere else. As a source it is a
literal with the same child. -/

namespace Conformance.Dialect

open Text
open Marking (IsDigit isDigits_iff)

/-! ### What a text denotes -/

/-- The number that decimal digits denote. The last of them counts the units. -/
def decimalValue (digits : List Char) : Nat :=
  Nat.ofDigits 10 (digits.reverse.map fun c => c.toNat - '0'.toNat)

/-- A text of digits, which a minus may precede, and the integer that it denotes. -/
inductive Numeral : List Char → Int → Prop where
  | plain {digits : List Char} : RunOf IsDigit digits → Numeral digits (decimalValue digits)
  | negated {digits : List Char} : RunOf IsDigit digits →
      Numeral ('-' :: digits) (-decimalValue digits)

/-- An integer that 64 bits with a sign hold. -/
def InWord (value : Int) : Prop := -2 ^ 63 ≤ value ∧ value ≤ 2 ^ 63 - 1
deriving Decidable

variable {text digits : List Char} {value : Int} {child : Child}

/-- Digits that are added up from the left have the value of their places. -/
theorem digitsValue_eq (digits : List Char) : digitsValue digits = decimalValue digits := by
  unfold digitsValue decimalValue
  rw [Nat.ofDigits_eq_foldr, List.foldr_map, List.foldr_reverse]
  simp only [Nat.cast_id, Nat.add_comm]

theorem fitsWord_iff : fitsWord value = true ↔ InWord value := by
  simp [fitsWord, InWord]

theorem integerValue?_eq_some_iff : integerValue? text = some value ↔ Numeral text value := by
  constructor
  · intro found
    unfold integerValue? at found
    split at found
    · obtain ⟨run, denoted⟩ := Option.ite_none_right_eq_some.1 found
      cases denoted
      exact digitsValue_eq _ ▸ .negated (isDigits_iff.1 run)
    · obtain ⟨run, denoted⟩ := Option.ite_none_right_eq_some.1 found
      cases denoted
      exact digitsValue_eq _ ▸ .plain (isDigits_iff.1 run)
  · intro numeral
    cases numeral with
    | plain run => rw [integerValue?_digits (isDigits_iff.2 run), digitsValue_eq]
    | negated run => rw [integerValue?_minus (isDigits_iff.2 run), digitsValue_eq]

theorem Numeral.unique {other : Int} (h : Numeral text value) (h' : Numeral text other) :
    value = other :=
  Option.some.inj
    ((integerValue?_eq_some_iff.2 h).symm.trans (integerValue?_eq_some_iff.2 h'))

/-! ### The child for a text -/

namespace Child

/-- The texts of integers have a child, and no others. -/
theorem integer?_eq_some_iff :
    integer? text = some child ↔ ∃ value, Numeral text value ∧
      child = if InWord value then .int value else .bigInt (String.ofList text) := by
  simp only [integer?, Option.map_eq_some_iff, integerValue?_eq_some_iff, fitsWord_iff,
    eq_comm (a := child)]

/-- The child for a text is the one for the text that it is written as. -/
theorem integer?_literalChars (read : integer? text = some child) :
    integer? (Node.literalChars child) = some child := by
  obtain ⟨value, numeral, rfl⟩ := integer?_eq_some_iff.1 read
  split
  · rename_i fits
    have same := integerValue?_eq_some_iff.1 (Node.integerValue?_toString value)
    exact integer?_eq_some_iff.2 ⟨value, same, (if_pos fits).symm⟩
  · rename_i large
    rw [if_neg large] at read
    show integer? (String.ofList text).toList = _
    rwa [String.toList_ofList]

/-- Integers are compared by their values where 64 bits hold these, and by their texts elsewhere. -/
theorem integers_compared {a b : List Char} {left right : Child} (readLeft : integer? a = some left)
    (readRight : integer? b = some right) :
    ∃ x y, Numeral a x ∧ Numeral b y ∧
      (Node.sameChild left right = true ↔ x = y ∧ (InWord x ∨ a = b)) := by
  obtain ⟨x, denotes, rfl⟩ := integer?_eq_some_iff.1 readLeft
  obtain ⟨y, denotes', rfl⟩ := integer?_eq_some_iff.1 readRight
  refine ⟨x, y, denotes, denotes', ?_⟩
  -- Children of different kinds have different values, since just one of these is in the range.
  by_cases fits : InWord x
  · rw [if_pos fits, and_iff_left (.inl fits)]
    by_cases fits' : InWord y
    · rw [if_pos fits']
      exact beq_iff_eq
    · rw [if_neg fits']
      exact iff_of_false Bool.false_ne_true fun same => fits' (same ▸ fits)
  · rw [if_neg fits, or_iff_right fits]
    by_cases fits' : InWord y
    · rw [if_pos fits']
      exact iff_of_false Bool.false_ne_true fun same => fits (same.1 ▸ fits')
    · rw [if_neg fits']
      refine beq_iff_eq.trans (String.ofList_inj.trans ?_)
      exact ⟨fun same => ⟨(same ▸ denotes).unique denotes', same⟩, And.right⟩

/-- Zeros in front of a number of 64 bits do not matter. -/
theorem integers_compared_zeros :
    ∃ left right, integer? "-007".toList = some left ∧ integer? "-7".toList = some right ∧
      ∃ x y, Numeral "-007".toList x ∧ Numeral "-7".toList y ∧
        (Node.sameChild left right = true ↔ x = y ∧ (InWord x ∨ "-007".toList = "-7".toList)) :=
  ⟨.int (-7), .int (-7), rfl, rfl, integers_compared rfl rfl⟩

/-- A zero in front of a larger number makes another child of it. -/
theorem leadingZero_distinct :
    ∃ left right, integer? "09223372036854775808".toList = some left ∧
      integer? "9223372036854775808".toList = some right ∧
      Numeral "09223372036854775808".toList (2 ^ 63) ∧
      Numeral "9223372036854775808".toList (2 ^ 63) ∧ Node.sameChild left right = false := by
  have zero : Numeral "09223372036854775808".toList (2 ^ 63) :=
    integerValue?_eq_some_iff.1 (by decide +kernel)
  have plain : Numeral "9223372036854775808".toList (2 ^ 63) :=
    integerValue?_eq_some_iff.1 (by decide +kernel)
  have large : ¬ InWord (2 ^ 63) := by decide
  refine ⟨.bigInt "09223372036854775808", .bigInt "9223372036854775808",
    integer?_eq_some_iff.2 ⟨_, zero, ?_⟩, integer?_eq_some_iff.2 ⟨_, plain, ?_⟩, zero, plain, ?_⟩
  · rw [if_neg large, String.ofList_toList]
  · rw [if_neg large, String.ofList_toList]
  · decide +kernel

end Child

/-! ### Integers in a source -/

namespace Grammar

open ParseState

variable {token sign : Token}

/-- A program of one integer with a minus directly before it. -/
theorem program_negated (features : Features) (isMinus : sign.kind = .minus)
    (isInteger : token.kind = .integer) (unspaced : token.spaced = false)
    (read : Child.integer? ('-' :: token.text.toList) = some child) :
    ∃ after, Program features [sign, token]
      [.located .int [child] (some (sign.span.join token.span)) [("operator", some sign.span)]]
      after := by
  have operand : Derives features (.of .unary) (startOf [sign, token])
      (.located .int [child] (some (sign.span.join token.span)) [("operator", some sign.span)])
      ((startOf [sign, token]).leaving []) :=
    .negative ⟨rfl, isMinus⟩ ⟨rfl, isInteger⟩ unspaced read
  have unassigned : ¬ (startOf [sign, token]).Assigns := by
    rintro ⟨_, _, _, next, -⟩
    cases next.eq
    cases isMinus.symm.trans next.kind_eq
  refine ⟨_, .of_expression (operand.expression_of_unary unassigned nofun) ?_ rfl⟩
  rintro _ ⟨⟩
  simp [isMinus]

end Grammar

/-- Digits are one token. -/
theorem placed_digits (run : RunOf IsDigit digits) :
    ∃ span, placed digits = .ok [⟨.integer, span, String.ofList digits, true⟩] := by
  have whole := longestMatch_integer (isDigits_iff.2 run)
  refine ⟨.ofLength 0 digits.length, ?_⟩
  rw [placed, lexemes_whole run.nonempty whole]
  rfl

/-- A minus before digits is a token of its own. -/
theorem placed_negated (run : RunOf IsDigit digits) :
    ∃ a b, placed ('-' :: digits) =
      .ok [⟨.minus, a, "-", true⟩, ⟨.integer, b, String.ofList digits, false⟩] := by
  have whole := longestMatch_integer (isDigits_iff.2 run)
  have last := lexemes_whole run.nonempty whole
  refine ⟨.ofLength 0 1, .ofLength 1 digits.length, ?_⟩
  obtain ⟨c, rest, rfl⟩ := List.exists_cons_of_ne_nil run.nonempty
  have digit : c.isDigit = true := (Marking.isDigit_iff c).2 (run.all c (.head _))
  have name : isNameChar c = true := by simp [isNameChar, Char.isAlphanum, digit]
  have among : (TokenKind.minus, "-") ∈ TokenKind.fixedTexts := by decide
  have first := lexemes_operator among rfl (.inl name) rest
  rw [last] at first
  rw [placed, show '-' :: c :: rest = "-".toList ++ c :: rest from rfl, first]
  rfl

namespace Parser

/-- The text of an integer is accepted as the literal of its child. -/
theorem parse_numeral (parser : Parser) (read : Child.integer? text = some child) :
    ∃ node, (parser.parse (String.ofList text)).1 = .ok (some node) ∧ node.kind = .int ∧
      node.allChildren = [child] := by
  have spelled (cs : List Char) : (String.ofList cs).toList = cs := String.toList_ofList
  obtain ⟨value, numeral, -⟩ := Child.integer?_eq_some_iff.1 read
  cases numeral with
  | plain run =>
    obtain ⟨span, tokens⟩ := placed_digits run
    let token : Token := ⟨.integer, span, String.ofList text, true⟩
    have read' : Child.integer? token.text.toList = some child := by rwa [spelled]
    obtain ⟨after, program⟩ := (Grammar.LiteralToken.integer rfl read').program parser.features
    have accepted := parse_of_program ((congrArg placed (spelled text)).trans tokens) program
    exact ⟨_, congrArg Prod.fst accepted, rfl, rfl⟩
  | @negated digits run =>
    -- The minus is lost as a token; the rule for a sign puts it in front of the digits again.
    obtain ⟨a, b, tokens⟩ := placed_negated run
    let sign : Token := ⟨.minus, a, "-", true⟩
    let token : Token := ⟨.integer, b, String.ofList digits, false⟩
    have isMinus : sign.kind = .minus := rfl
    have literal : Child.integer? ('-' :: token.text.toList) = some child := by rwa [spelled]
    obtain ⟨after, program⟩ := Grammar.program_negated parser.features isMinus rfl rfl literal
    have accepted := parse_of_program ((congrArg placed (spelled _)).trans tokens) program
    exact ⟨_, congrArg Prod.fst accepted, rfl, rfl⟩

/-- Integers keep their value, whatever the length of their text: as a child, in the text of that
child, and as a literal of any version. -/
theorem integers_kept (text : List Char) :
    (∀ child, Child.integer? text = some child ↔ ∃ value, Numeral text value ∧
      child = if InWord value then .int value else .bigInt (String.ofList text)) ∧
    ∀ child, Child.integer? text = some child →
      Child.integer? (Node.literalChars child) = some child ∧
      ∀ parser : Parser, ∃ node, (parser.parse (String.ofList text)).1 = .ok (some node) ∧
        node.kind = .int ∧ node.allChildren = [child] :=
  ⟨fun _ => Child.integer?_eq_some_iff, fun _ read =>
    ⟨Child.integer?_literalChars read, fun parser => parser.parse_numeral read⟩⟩

/-- The least integer of 64 bits, which is no negated one. -/
theorem integers_kept_least :
    ∃ child, Child.integer? "-9223372036854775808".toList = some child ∧
      child = .int (-2 ^ 63) ∧ Child.integer? (Node.literalChars child) = some child ∧
      ∃ node, (newest.parse (String.ofList "-9223372036854775808".toList)).1 = .ok (some node) ∧
        node.kind = .int ∧ node.allChildren = [child] := by
  have numeral : Numeral "-9223372036854775808".toList (-2 ^ 63) :=
    integerValue?_eq_some_iff.1 (by decide +kernel)
  obtain ⟨denoted, kept⟩ := integers_kept "-9223372036854775808".toList
  have read : Child.integer? "-9223372036854775808".toList = some (.int (-2 ^ 63)) :=
    (denoted _).2 ⟨_, numeral, (if_pos (by decide)).symm⟩
  obtain ⟨again, parsed⟩ := kept _ read
  exact ⟨_, read, rfl, again, parsed newest⟩

end Parser

end Conformance.Dialect
