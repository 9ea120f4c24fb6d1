import Conformance.Marking
import Conformance.Proofs.Answers

/-! Blocks of markings. The lines that say something are read up to the first one that cannot be
decoded, whether as a whole or one after the other. -/

namespace Conformance

namespace Marking

/-! ### Blocks line by line -/

/-- The lines that say something. A bar and the blanks before it are no part of a line, nor are those
at its end. -/
def stated (raws : List (List Char)) : List (List Char) :=
  (raws.map strip).filter fun line => !line.isEmpty

/-- The markings of the lines before the first one that cannot be decoded. -/
def decoded (lines : List (List Char)) : List Marking :=
  (lines.takeWhile fun line => (decode? line).isSome).filterMap decode?

/-- The first line that cannot be decoded. -/
def malformed? (lines : List (List Char)) : Option String :=
  (lines.find? fun line => (decode? line).isNone).map String.ofList

/-- What is found in lines: the markings before the first malformed one, and this. -/
def findings (lines : List (List Char)) : List (Except String Marking) :=
  (decoded lines).map .ok ++ (malformed? lines).toList.map .error

section Stated

variable {raw line : List Char} {raws lines : List (List Char)} {marking : Marking}

theorem stated_cons_idle (idle : (strip raw).isEmpty = true) :
    stated (raw :: raws) = stated raws := by
  simp [stated, idle]

theorem stated_cons (states : (strip raw).isEmpty = false) :
    stated (raw :: raws) = strip raw :: stated raws := by
  simp [stated, states]

theorem decoded_cons (read : decode? line = some marking) :
    decoded (line :: lines) = marking :: decoded lines := by
  simp [decoded, read]

theorem decoded_cons_malformed (malformed : decode? line = none) :
    decoded (line :: lines) = [] := by
  simp [decoded, malformed]

theorem malformed?_cons (read : decode? line = some marking) :
    malformed? (line :: lines) = malformed? lines := by
  simp [malformed?, read]

theorem malformed?_cons_malformed (malformed : decode? line = none) :
    malformed? (line :: lines) = some (String.ofList line) := by
  simp [malformed?, malformed]

theorem findings_cons (read : decode? line = some marking) :
    findings (line :: lines) = .ok marking :: findings lines := by
  simp [findings, decoded_cons read, malformed?_cons read]

theorem findings_cons_malformed (malformed : decode? line = none) :
    findings (line :: lines) = [.error (String.ofList line)] := by
  simp [findings, decoded_cons_malformed malformed, malformed?_cons_malformed malformed]

/-- A whole block is read up to its first malformed line. -/
theorem readLines_eq (raws : List (List Char)) :
    readLines raws = (decoded (stated raws), malformed? (stated raws)) := by
  induction raws with
  | nil => rfl
  | cons raw raws ih =>
    rw [readLines]
    dsimp only
    cases idle : (strip raw).isEmpty with
    | true => rw [if_pos rfl, ih, stated_cons_idle idle]
    | false =>
      rw [if_neg Bool.false_ne_true, stated_cons idle]
      cases read : decode? (strip raw) with
      | none => rw [decoded_cons_malformed read, malformed?_cons_malformed read]
      | some marking => rw [ih, decoded_cons read, malformed?_cons read]

end Stated

/-! ### A reader that is asked for one marking after the other -/

/-- What a reader has still to give. -/
def Reader.pending (reader : Reader) : List (Except String Marking) :=
  if reader.failed then [] else findings (stated reader.lines)

/-- A step gives the first of the findings, and the others are left. -/
theorem Reader.step_findings (raws : List (List Char)) :
    (Reader.step raws).1 = (findings (stated raws)).head? ∧
      (Reader.step raws).2.pending = (findings (stated raws)).tail := by
  induction raws with
  | nil => exact ⟨rfl, rfl⟩
  | cons raw raws ih =>
    rw [Reader.step]
    cases idle : (strip raw).isEmpty with
    | true => rwa [if_pos rfl, stated_cons_idle idle]
    | false =>
      rw [if_neg Bool.false_ne_true, stated_cons idle]
      cases read : decode? (strip raw) with
      | none =>
        rw [findings_cons_malformed read]
        exact ⟨rfl, rfl⟩
      | some marking =>
        rw [findings_cons read]
        exact ⟨rfl, rfl⟩

/-- A reader gives what it has still to give, one after the other. -/
theorem Reader.enumerates : Enumerates Reader.next Reader.pending where
  first := by
    rintro ⟨raws, failed⟩
    cases failed with
    | true => rfl
    | false => exact (Reader.step_findings raws).1
  rest := by
    rintro ⟨raws, failed⟩
    cases failed with
    | true => rfl
    | false => exact (Reader.step_findings raws).2

end Marking

end Conformance
