import Conformance.Proofs.Decoding

/-! Blocks of lines that are drawn and read back. What a note says can be drawn on a line, the lines
can be put on a sheet, with bars in front of them and lines that say nothing between them, and the
block on the sheet is read as the notes, in their order and with nothing left out. -/

namespace Conformance

namespace Text

/-! ### Lines of a text -/

section Lines

variable {c : Char} {cs text rest tail : List Char}

/-- A character that breaks no line belongs to the first one. -/
theorem lines_cons (feed : c ≠ '\n') (carriage : c = '\r' → cs.head? ≠ some '\n') :
    lines (c :: cs) = (c :: (lines cs).head?.getD []) :: (lines cs).tail := by
  rw [lines.eq_4 _ _ feed]
  · cases lines cs <;> rfl
  · rintro more rfl rfl
    exact carriage rfl rfl

theorem lines_ne_nil (nonempty : cs ≠ []) : lines cs ≠ [] := by
  fun_cases lines cs <;> simp_all

theorem mem_of_mem_lines {line : List Char} (mem : line ∈ lines cs) : ∀ c ∈ line, c ∈ cs := by
  fun_induction lines cs generalizing line with
  | case1 => cases mem
  | case2 rest ih | case3 rest ih =>
    rcases List.mem_cons.1 mem with rfl | later
    · exact List.forall_mem_nil _
    · exact fun c inside => by simp [ih later c inside]
  | case4 c rest _ _ none ih =>
    rw [List.mem_singleton.1 mem]
    exact fun d inside => List.mem_singleton.1 inside ▸ .head _
  | case5 c rest _ _ first more split ih =>
    rcases List.mem_cons.1 mem with rfl | later
    · intro d inside
      rcases List.mem_cons.1 inside with rfl | inner
      · exact .head _
      · exact .tail _ (ih (split ▸ .head _) d inner)
    · exact fun d inside => .tail _ (ih (split ▸ .tail _ later) d inside)

/-- What stands before a line feed has lines of its own. -/
theorem lines_append (a b : List Char) :
    lines (a ++ '\n' :: b) = lines (a ++ ['\n']) ++ lines b := by
  induction a with
  | nil => rfl
  | cons c a ih =>
    by_cases feed : c = '\n'
    · subst feed
      exact congrArg _ ih
    have next : (a ++ '\n' :: b).head? = (a ++ ['\n']).head? := by cases a <;> rfl
    by_cases carriage : c = '\r' ∧ (a ++ ['\n']).head? = some '\n'
    · obtain ⟨rfl, breaks⟩ := carriage
      cases a with
      | nil => rfl
      | cons d a =>
        obtain rfl : d = '\n' := Option.some.inj breaks
        exact ih
    · have joined : c = '\r' → (a ++ ['\n']).head? ≠ some '\n' :=
        fun same breaks => carriage ⟨same, breaks⟩
      have filled : a ++ ['\n'] ≠ [] := by simp
      obtain ⟨first, more, found⟩ := List.exists_cons_of_ne_nil (lines_ne_nil filled)
      rw [List.cons_append, List.cons_append, lines_cons feed joined,
        lines_cons feed (by rwa [next]), ih, found]
      rfl

/-- What follows a line in a text: nothing, or a line feed and the text of the other lines. -/
inductive Follows : List Char → List Char → Prop
  | last : Follows [] []
  | more {rest : List Char} : Follows ('\n' :: rest) rest

/-- A text without line feeds that does not end in a carriage return is a line. -/
theorem lines_follows (follows : Follows tail rest) (nonempty : text ≠ []) (unbroken : '\n' ∉ text)
    (ends : text.getLast? ≠ some '\r') : lines (text ++ tail) = text :: lines rest := by
  cases follows with
  | last =>
    rw [List.append_nil]
    exact lines_eq_singleton nonempty unbroken
  | more =>
    induction text with
    | nil => exact (nonempty rfl).elim
    | cons c text ih =>
      have feed : c ≠ '\n' := fun same => unbroken (same ▸ .head _)
      cases text with
      | nil => exact lines_cons feed fun same => (ends (congrArg some same)).elim
      | cons d text =>
        have others : '\n' ∉ d :: text := fun mem => unbroken (.tail _ mem)
        have next : ((d :: text) ++ '\n' :: rest).head? ≠ some '\n' :=
          fun same => others (Option.some.inj same ▸ .head _)
        rw [List.cons_append, lines_cons feed fun _ => next,
          ih (List.cons_ne_nil _ _) others (by simpa using ends)]
        rfl

end Lines

end Text

namespace Marking

open Text

/-! ### Lines that say nothing -/

section Lines

variable {c : Char} {cs raw before after rest tail : List Char} {raws more : List (List Char)}

theorem trimRight_eq_nil (blank : ∀ c ∈ raw, Text.isBlank c = true) : trimRight raw = [] := by
  unfold trimRight
  rw [List.reverse_eq_nil_iff, List.dropWhile_eq_nil_iff]
  exact fun c mem => blank c (List.mem_reverse.1 mem)

theorem strip_bar (raw : List Char) : strip ('|' :: raw) = trimRight raw := rfl

theorem strip_of_no_bar (plain : (raw.dropWhile isSpace).head? ≠ some '|') :
    strip raw = trimRight raw := by
  unfold strip
  split
  · rename_i barred
    exact (plain (congrArg List.head? barred)).elim
  · rfl

theorem strip_blank (blank : ∀ c ∈ raw, Text.isBlank c = true) : strip raw = [] := by
  rw [strip_of_no_bar, trimRight_eq_nil blank]
  intro bar
  exact absurd (blank '|' ((List.dropWhile_suffix _).mem (List.mem_of_head? bar))) (by decide)

theorem readLines_congr (same : strip raw = strip cs) :
    readLines (raw :: more) = readLines (cs :: more) := by
  unfold readLines
  rw [same]

/-- Lines that are empty without their blanks are passed over. -/
theorem readLines_append (idle : ∀ raw ∈ raws, strip raw = []) :
    readLines (raws ++ more) = readLines more := by
  induction raws with
  | nil => rfl
  | cons raw raws ih =>
    obtain ⟨first, others⟩ := List.forall_mem_cons.1 idle
    rw [List.cons_append, readLines]
    simp only [first]
    exact ih others

/-- A text with nothing to read in it, whether or not a line feed ends it, is passed over. -/
theorem readLines_idle (follows : Follows tail rest) (idle : ∀ raw ∈ lines cs, strip raw = [])
    (ended : ∀ raw ∈ lines (cs ++ ['\n']), strip raw = []) :
    readLines (lines (cs ++ tail)) = readLines (lines rest) := by
  cases follows with
  | last =>
    have read : readLines (lines cs ++ []) = readLines [] := readLines_append idle
    rwa [List.append_nil] at read ⊢
  | more =>
    rw [lines_append]
    exact readLines_append ended

theorem readLines_blank (follows : Follows tail rest) (blank : ∀ c ∈ cs, Text.isBlank c = true) :
    readLines (lines (cs ++ tail)) = readLines (lines rest) := by
  refine readLines_idle follows (fun raw mem => ?_) fun raw mem => ?_
  · exact strip_blank fun c inside => blank c (mem_of_mem_lines mem c inside)
  · refine strip_blank fun c inside => ?_
    rcases List.mem_append.1 (mem_of_mem_lines mem c inside) with among | last
    · exact blank c among
    · rw [List.mem_singleton.1 last]
      rfl

theorem strip_barred_blank (blank : ∀ c ∈ cs, Text.isBlank c = true) :
    ∀ raw ∈ lines ('|' :: cs), strip raw = [] := by
  have inner : ∀ raw ∈ lines cs, ∀ c ∈ raw, Text.isBlank c = true :=
    fun raw mem c inside => blank c (mem_of_mem_lines mem c inside)
  rw [lines_cons (by decide) fun bar => absurd bar (by decide)]
  cases found : lines cs with
  | nil => simp [strip_bar, trimRight_eq_nil]
  | cons first others =>
    rw [found] at inner
    obtain ⟨head, tail⟩ := List.forall_mem_cons.1 inner
    refine List.forall_mem_cons.2 ⟨?_, fun raw mem => strip_blank (tail raw mem)⟩
    exact (strip_bar first).trans (trimRight_eq_nil head)

/-- A line that starts with blanks and a bar, or has nothing but blanks. -/
def Barred (raw : List Char) : Prop := (raw.dropWhile isSpace).head? ∈ [none, some '|']

theorem Barred.strip_cons (barred : Barred raw) (blank : isSpace c = true) :
    strip (c :: raw) = strip raw ∧ Barred (c :: raw) := by
  have dropped : (c :: raw).dropWhile isSpace = raw.dropWhile isSpace :=
    List.dropWhile_cons_of_pos blank
  refine ⟨?_, by rwa [Barred, dropped]⟩
  cases left : raw.dropWhile isSpace with
  | nil =>
    have all : ∀ d ∈ raw, Text.isBlank d = true :=
      fun d mem => isBlank_of_isSpace (List.dropWhile_eq_nil_iff.1 left d mem)
    rw [strip_blank all, strip_blank (List.forall_mem_cons.2 ⟨isBlank_of_isSpace blank, all⟩)]
  | cons d after =>
    obtain rfl : d = '|' := by simpa [Barred, left] using barred
    unfold strip
    rw [dropped, left]
    rfl

/-- The blanks before a bar are passed over with it, even where they end lines. -/
theorem readLines_bar (blank : ∀ c ∈ before, IsBlank c) :
    readLines (lines (before ++ '|' :: cs)) = readLines (lines ('|' :: cs)) := by
  -- The first line stays one to which blanks can be added in front.
  suffices both : readLines (lines (before ++ '|' :: cs)) = readLines (lines ('|' :: cs)) ∧
      ∀ first ∈ (lines (before ++ '|' :: cs)).head?, Barred first from both.1
  induction before with
  | nil =>
    refine ⟨rfl, fun first mem => ?_⟩
    rw [List.nil_append, lines_cons (by decide) fun bar => absurd bar (by decide)] at mem
    obtain rfl := Option.some.inj mem
    exact .tail _ (.head _)
  | cons c before ih =>
    obtain ⟨head, others⟩ := List.forall_mem_cons.1 blank
    obtain ⟨read, barred⟩ := ih others
    by_cases feed : c = '\n'
    · subst feed
      refine ⟨read, fun first mem => ?_⟩
      obtain rfl := Option.some.inj mem
      exact .head _
    by_cases carriage : c = '\r' ∧ (before ++ '|' :: cs).head? = some '\n'
    · obtain ⟨rfl, breaks⟩ := carriage
      cases before with
      | nil => exact absurd (Option.some.inj breaks) (by decide)
      | cons d before =>
        obtain rfl : d = '\n' := Option.some.inj breaks
        exact ⟨read, barred⟩
    · have filled : before ++ '|' :: cs ≠ [] := by simp
      obtain ⟨first, more, found⟩ := List.exists_cons_of_ne_nil (lines_ne_nil filled)
      rw [found] at read barred
      have longer := (barred first rfl).strip_cons ((isSpace_iff c).2 head)
      rw [List.cons_append, lines_cons feed fun same breaks => carriage ⟨same, breaks⟩, found]
      refine ⟨(readLines_congr longer.1).trans read, fun line mem => ?_⟩
      obtain rfl := Option.some.inj mem
      exact longer.2

end Lines

/-! ### Notes -/

/-- What a marking says, however it is written. -/
structure Note where
  range : Option Span
  field : String
  path : Path

/-- The marking that is read from a line with a note. -/
def Note.marking (note : Note) (line : List Char) : Marking :=
  ⟨note.range, note.field, note.path, String.ofList line⟩

/-- A note that can be written: its range is not empty, and its names are words. The occurrence
numbers of its path, which are one more than the indices in it, fit a word of 64 bits. -/
structure Note.Writable (note : Note) : Prop where
  range : ∀ span ∈ note.range, span.start < span.stop
  field : RunOf IsFieldChar note.field.toList
  kinds : ∀ step ∈ note.path, RunOf IsKindChar step.kind.toList
  indices : ∀ step ∈ note.path, step.index < 2 ^ 64 - 1

/-- How a range is drawn: after as many spaces as there are characters before it, with as many marks
as there are in it. That there is none is drawn by an exclamation mark, wherever it stands. -/
inductive Draws : Option Span → List Char → Prop
  | absent (column : Nat) : Draws none (List.replicate column ' ' ++ ['!'])
  | range {span : Span} {marks : List Char} : (∀ c ∈ marks, IsMark c) →
      marks.length = span.length → Draws (some span) (List.replicate span.start ' ' ++ marks)

/-- The path at the end of a line; that of the root is left out. -/
def pathText (path : Path) : List Char :=
  if path.isEmpty then [] else (" (" ++ path.text ++ ")").toList

/-- A line for a note. -/
inductive Note.Writes (note : Note) : List Char → Prop
  | intro {drawing : List Char} : Draws note.range drawing →
      note.Writes (drawing ++ (' ' :: (note.field.toList ++ pathText note.path)))

/-- A line that says nothing: blanks alone, or a bar among blanks. -/
inductive Idle : List Char → Prop
  | blank {line : List Char} : (∀ c ∈ line, Text.isBlank c = true) → Idle line
  | bar {before after : List Char} : (∀ c ∈ before, IsBlank c) →
      (∀ c ∈ after, Text.isBlank c = true) → Idle (before ++ '|' :: after)

/-- Lines on which some texts stand one after the other: blanks and a bar may be in front of each of
them, and lines that say nothing between them. -/
inductive Sheet : List (List Char) → List (List Char) → Prop
  | nil : Sheet [] []
  | idle {line : List Char} {texts lines : List (List Char)} : Idle line → Sheet texts lines →
      Sheet texts (line :: lines)
  | plain {text : List Char} {texts lines : List (List Char)} : Sheet texts lines →
      Sheet (text :: texts) (text :: lines)
  | barred {before text : List Char} {texts lines : List (List Char)} : (∀ c ∈ before, IsBlank c) →
      Sheet texts lines → Sheet (text :: texts) ((before ++ '|' :: text) :: lines)

/-! ### What is written has the form of a line -/

section Writes

variable {note : Note} {text drawing : List Char} {range : Option Span} {path : Path} {step : Step}

theorem Draws.marks (draws : Draws range drawing)
    (nonempty : ∀ span ∈ range, span.start < span.stop) :
    ∃ indent marks, drawing = indent ++ marks ∧ (∀ c ∈ indent, c = ' ') ∧
      Marks indent.length marks range := by
  cases draws with
  | absent column =>
    exact ⟨_, _, rfl, fun c mem => List.eq_of_mem_replicate mem, .absent⟩
  | @range span marks all length =>
    refine ⟨_, _, rfl, fun c mem => List.eq_of_mem_replicate mem, ?_⟩
    obtain ⟨start, stop, ordered⟩ := span
    have filled : start < stop := nonempty _ rfl
    have count : marks.length = stop - start := length
    have run : RunOf IsMark marks := ⟨List.ne_nil_of_length_pos (by omega), all⟩
    have stop_eq : start + marks.length = stop := by omega
    subst stop_eq
    rw [List.length_replicate]
    exact .range run

theorem segment_text (kind : RunOf IsKindChar step.kind.toList) (index : step.index < 2 ^ 64 - 1) :
    Segment step.text.toList step := by
  rw [toList_text]
  split
  · rename_i first
    have first_segment := Segment.first kind
    rw [List.append_nil]
    rwa [String.ofList_toList, ← first] at first_segment
  · have digits : RunOf IsDigit (Nat.toDigits 10 (step.index + 1)) := by
      refine ⟨Nat.toDigits_ne_nil, fun c mem => (isDigit_iff c).1 ?_⟩
      exact Nat.isDigit_of_mem_toDigits (by decide) (by decide) mem
    have numbered := Segment.numbered kind digits (Dialect.Node.digitsValue_toDigits _)
      (by omega) (by omega)
    rwa [String.ofList_toList, Nat.add_sub_cancel] at numbered

theorem segments_stepsText (nonempty : path ≠ [])
    (kinds : ∀ step ∈ path, RunOf IsKindChar step.kind.toList)
    (indices : ∀ step ∈ path, step.index < 2 ^ 64 - 1) : Segments (stepsText path) path := by
  induction path with
  | nil => exact (nonempty rfl).elim
  | cons step more ih =>
    obtain ⟨kind, kinds⟩ := List.forall_mem_cons.1 kinds
    obtain ⟨index, indices⟩ := List.forall_mem_cons.1 indices
    have first := segment_text kind index
    cases more with
    | nil =>
      rw [stepsText_singleton]
      exact .last first
    | cons second rest =>
      rw [stepsText_cons_cons]
      exact .more first (ih (List.cons_ne_nil _ _) kinds indices)

theorem pathText_of_ne_nil (nonempty : path ≠ []) :
    pathText path = ' ' :: '(' :: (stepsText path ++ [')']) := by
  unfold pathText
  rw [if_neg (by simpa using nonempty), String.toList_append, String.toList_append,
    toList_path_text nonempty]
  rfl

theorem Note.Writable.segments (writable : note.Writable) (nonempty : note.path ≠ []) :
    Segments (stepsText note.path) note.path :=
  segments_stepsText nonempty writable.kinds writable.indices

theorem Note.Writable.target (writable : note.Writable) :
    Target (pathText note.path) note.path := by
  by_cases empty : note.path = []
  · rw [empty]
    exact .root
  · rw [pathText_of_ne_nil empty]
    have blank : RunOf IsBlank [' '] := by decide
    exact .path blank (writable.segments empty)

theorem Note.Writes.line (writes : note.Writes text) (writable : note.Writable) :
    Line text (note.marking text) := by
  obtain @⟨drawing, draws⟩ := writes
  obtain ⟨indent, marks, rfl, spaces, marked⟩ := draws.marks writable.range
  have blanks : ∀ c ∈ indent, IsBlank c := fun c mem => spaces c mem ▸ .head _
  have blank : RunOf IsBlank [' '] := by decide
  have form : indent ++ marks ++ ' ' :: (note.field.toList ++ pathText note.path) =
      indent ++ (marks ++ ([' '] ++ (note.field.toList ++ pathText note.path))) := by simp
  have line := Line.intro blanks marked blank writable.field writable.target form
  rwa [String.ofList_toList] at line

/-! ### What is written is stripped of nothing -/

/-- A character that shows on a line. -/
def IsInk (c : Char) : Prop := 0x21 ≤ c.toNat ∧ c.toNat ≤ 0x7e
deriving Decidable

theorem IsStepChar.ink {c : Char} (h : IsStepChar c) : IsInk c := by
  have between {low high : Char} (first : low ≤ c) (last : c ≤ high)
      (inside : IsInk low ∧ IsInk high) : IsInk c :=
    ⟨le_trans inside.1.1 (UInt32.le_iff_toNat_le.1 first),
      le_trans (UInt32.le_iff_toNat_le.1 last) inside.2.2⟩
  rcases h with ((⟨first, last⟩ | rfl) | ⟨first, last⟩) | rfl | rfl
  · exact between first last (by decide)
  · decide
  · exact between first last (by decide)
  · decide
  · decide

theorem Marks.ink {start : Nat} {marks : List Char} (h : Marks start marks range) :
    ∀ c ∈ marks, IsInk c := by
  cases h with
  | absent => exact List.forall_mem_singleton.2 (by decide)
  | range run =>
    intro c mem
    rcases run.all c mem with rfl | rfl
    · decide
    · decide

theorem Marks.no_bar {start : Nat} {marks rest : List Char} (h : Marks start marks range) :
    (marks ++ rest).head? ≠ some '|' := by
  cases h with
  | absent => exact fun bar => absurd (Option.some.inj bar) (by decide)
  | range run => exact fun bar => absurd (run.head '|' bar) (by decide)

theorem Note.Writable.field_ink (writable : note.Writable) : ∀ c ∈ note.field.toList, IsInk c :=
  fun c mem => IsStepChar.ink (.inl (.inl (writable.field.all c mem)))

theorem Note.Writable.path_ink (writable : note.Writable) :
    ∀ c ∈ pathText note.path, c = ' ' ∨ IsInk c := by
  by_cases root : note.path = []
  · rw [root]
    exact nofun
  · rw [pathText_of_ne_nil root]
    refine List.forall_mem_cons.2 ⟨.inl rfl, List.forall_mem_cons.2 ⟨.inr (by decide), ?_⟩⟩
    have steps := (writable.segments root).chars
    refine List.forall_mem_append.2 ⟨fun c mem => .inr (steps.all c mem).ink, ?_⟩
    exact List.forall_mem_singleton.2 (.inr (by decide))

/-- The blanks of a line are spaces. -/
theorem Note.Writes.chars (writes : note.Writes text) (writable : note.Writable) :
    ∀ c ∈ text, c = ' ' ∨ IsInk c := by
  obtain @⟨drawing, draws⟩ := writes
  obtain ⟨indent, marks, rfl, spaces, marked⟩ := draws.marks writable.range
  refine List.forall_mem_append.2 ⟨List.forall_mem_append.2 ⟨?_, ?_⟩, ?_⟩
  · exact fun c mem => .inl (spaces c mem)
  · exact fun c mem => .inr (marked.ink c mem)
  · refine List.forall_mem_cons.2 ⟨.inl rfl, List.forall_mem_append.2 ⟨?_, writable.path_ink⟩⟩
    exact fun c mem => .inr (writable.field_ink c mem)

/-- A line does not end in a blank. -/
theorem Note.Writes.last (writes : note.Writes text) (writable : note.Writable) :
    ∃ before last, text = before ++ [last] ∧ IsInk last := by
  obtain @⟨drawing, draws⟩ := writes
  by_cases root : note.path = []
  · have nothing : pathText note.path = [] := by
      rw [root]
      rfl
    obtain ⟨before, last, split⟩ :=
      (List.eq_nil_or_concat note.field.toList).resolve_left writable.field.nonempty
    have ink : IsInk last := writable.field_ink last (by simp [split])
    exact ⟨drawing ++ ' ' :: before, last, by simp [nothing, split], ink⟩
  · rw [pathText_of_ne_nil root]
    exact ⟨drawing ++ ' ' :: (note.field.toList ++ ' ' :: '(' :: stepsText note.path), ')',
      by simp, by decide⟩

theorem Note.Writes.trimRight (writes : note.Writes text) (writable : note.Writable) :
    trimRight text = text := by
  obtain ⟨before, last, rfl, ink⟩ := writes.last writable
  exact trimRight_concat before (Dialect.isBlank_eq_false ink.1 ink.2)

/-- The first character of a line that is no blank is no bar. -/
theorem Note.Writes.strip (writes : note.Writes text) (writable : note.Writable) :
    strip text = text := by
  refine Eq.trans (strip_of_no_bar ?_) (writes.trimRight writable)
  obtain @⟨drawing, draws⟩ := writes
  obtain ⟨indent, marks, rfl, spaces, marked⟩ := draws.marks writable.range
  have blanks : ∀ c ∈ indent, IsBlank c := fun c mem => spaces c mem ▸ .head _
  rw [List.append_assoc, (takeWhile_append_of_stop isSpace_iff blanks fun c => marked.head c).2]
  exact marked.no_bar

/-- A line for a note is a line of its own in a text, and it is read as the note. -/
theorem Note.Writes.reads {tail rest : List Char} (writes : note.Writes text)
    (writable : note.Writable) (follows : Follows tail rest) :
    lines (text ++ tail) = text :: lines rest ∧
      lines ('|' :: text ++ tail) = ('|' :: text) :: lines rest := by
  have chars := writes.chars writable
  obtain ⟨before, last, split, ink⟩ := writes.last writable
  have unbroken : '\n' ∉ text := fun mem => absurd (chars _ mem) (by decide)
  have ends : text.getLast? ≠ some '\r' := by
    rw [split, List.getLast?_concat]
    rintro ⟨⟩
    exact absurd ink (by decide)
  have nonempty : text ≠ [] := by simp [split]
  refine ⟨lines_follows follows nonempty unbroken ends, ?_⟩
  refine lines_follows follows (List.cons_ne_nil _ _) ?_ ?_
  · simpa using unbroken
  · rwa [List.getLast?_cons_of_ne_nil nonempty]

theorem readLines_line {raw : List Char} {more : List (List Char)} {marking : Marking}
    (stripped : Marking.strip raw = text) (line : Line text marking) :
    readLines (raw :: more) = (marking :: (readLines more).1, (readLines more).2) := by
  have read := line.read
  have nonempty : text ≠ [] := by
    rintro rfl
    cases read
  rw [readLines, stripped]
  dsimp only
  rw [if_neg (by simpa using nonempty), read]

end Writes

/-! ### What is drawn is read -/

section Sheets

variable {note : Note} {notes : List Note} {line rest tail before text : List Char}
  {texts sheet : List (List Char)}

theorem exists_draws (range : Option Span) : ∃ drawing, Draws range drawing := by
  cases range with
  | none => exact ⟨_, .absent 0⟩
  | some span =>
    have marks : ∀ c ∈ List.replicate span.length '~', IsMark c :=
      fun c mem => .inl (List.eq_of_mem_replicate mem)
    exact ⟨_, .range marks List.length_replicate⟩

/-- There is a line for each note. -/
theorem exists_writes (notes : List Note) : ∃ texts, List.Forall₂ Note.Writes notes texts := by
  induction notes with
  | nil => exact ⟨[], .nil⟩
  | cons note notes ih =>
    obtain ⟨drawing, draws⟩ := exists_draws note.range
    obtain ⟨texts, written⟩ := ih
    exact ⟨_, .cons ⟨draws⟩ written⟩

/-- The first of the lines on a sheet, and what follows it. -/
theorem intercalate_follows (line : List Char) (sheet : List (List Char)) :
    ∃ tail, ['\n'].intercalate (line :: sheet) = line ++ tail ∧
      Follows tail (['\n'].intercalate sheet) := by
  cases sheet with
  | nil => exact ⟨[], by simp, .last⟩
  | cons second more => exact ⟨_, by rw [List.intercalate_cons_cons, List.append_assoc]; rfl, .more⟩

theorem Idle.read (idle : Idle line) (follows : Follows tail rest) :
    readLines (lines (line ++ tail)) = readLines (lines rest) := by
  cases idle with
  | blank blank => exact readLines_blank follows blank
  | @bar before after blank blank' =>
    rw [List.append_assoc, List.cons_append, readLines_bar blank, ← List.cons_append]
    refine readLines_idle follows (strip_barred_blank blank') (strip_barred_blank ?_)
    exact List.forall_mem_append.2 ⟨blank', List.forall_mem_singleton.2 (by decide)⟩

theorem Note.Writes.read (writes : note.Writes text) (writable : note.Writable)
    (follows : Follows tail rest) :
    readLines (lines (text ++ tail)) =
      (note.marking text :: (readLines (lines rest)).1, (readLines (lines rest)).2) := by
  rw [(writes.reads writable follows).1]
  exact readLines_line (writes.strip writable) (writes.line writable)

theorem Note.Writes.read_barred (writes : note.Writes text) (writable : note.Writable)
    (blank : ∀ c ∈ before, IsBlank c) (follows : Follows tail rest) :
    readLines (lines ((before ++ '|' :: text) ++ tail)) =
      (note.marking text :: (readLines (lines rest)).1, (readLines (lines rest)).2) := by
  rw [List.append_assoc, List.cons_append, readLines_bar blank, ← List.cons_append,
    (writes.reads writable follows).2]
  exact readLines_line (writes.trimRight writable) (writes.line writable)

/-- The lines on a sheet are read as the notes that stand there. -/
theorem Sheet.read (drawn : Sheet texts sheet) (written : List.Forall₂ Note.Writes notes texts)
    (writable : ∀ note ∈ notes, note.Writable) :
    readLines (lines (['\n'].intercalate sheet)) =
      (List.zipWith Note.marking notes texts, none) := by
  induction drawn generalizing notes with
  | nil =>
    cases written
    rfl
  | @idle line texts sheet idle _ ih =>
    obtain ⟨tail, split, follows⟩ := intercalate_follows line sheet
    rw [split, idle.read follows]
    exact ih written writable
  | @plain text texts sheet _ ih =>
    obtain ⟨tail, split, follows⟩ := intercalate_follows text sheet
    obtain _ | ⟨writes, written⟩ := written
    obtain ⟨first, others⟩ := List.forall_mem_cons.1 writable
    rw [split, writes.read first follows, ih written others]
    rfl
  | @barred before text texts sheet blank _ ih =>
    obtain ⟨tail, split, follows⟩ := intercalate_follows (before ++ '|' :: text) sheet
    obtain _ | ⟨writes, written⟩ := written
    obtain ⟨first, others⟩ := List.forall_mem_cons.1 writable
    rw [split, writes.read_barred first blank follows, ih written others]
    rfl

/-- Notes can be drawn, and the block of any sheet on which they are drawn is read as these notes,
each with the line on which it is drawn and in their order. -/
theorem notes_reread {notes : List Note} (writable : ∀ note ∈ notes, note.Writable) :
    (∃ texts, List.Forall₂ Note.Writes notes texts) ∧
      ∀ texts sheet, List.Forall₂ Note.Writes notes texts → Sheet texts sheet →
        readBlock ("\n".intercalate (sheet.map String.ofList)) =
          (List.zipWith Note.marking notes texts, none) := by
  refine ⟨exists_writes notes, fun texts sheet written drawn => ?_⟩
  unfold readBlock
  have block : ("\n".intercalate (sheet.map String.ofList)).toList = ['\n'].intercalate sheet := by
    rw [String.toList_intercalate, List.map_map]
    simp
  rw [block]
  exact drawn.read written writable

theorem notes_reread_barred :
    readBlock "  ~~^ name (send.int/3)\n\n \t|! operator\n |  " =
      ([⟨some (.ofLength 2 3), "name", [⟨"send", 0⟩, ⟨"int", 2⟩], "  ~~^ name (send.int/3)"⟩,
        ⟨none, "operator", [], "! operator"⟩], none) := by
  let ranged : Note := ⟨some (.ofLength 2 3), "name", [⟨"send", 0⟩, ⟨"int", 2⟩]⟩
  let absent : Note := ⟨none, "operator", []⟩
  have ranged_writable : ranged.Writable := by
    refine ⟨?_, by decide, ?_, by decide⟩
    · rintro _ ⟨⟩
      decide
    · exact List.forall_mem_cons.2 ⟨by decide, List.forall_mem_singleton.2 (by decide)⟩
  have absent_writable : absent.Writable := ⟨nofun, by decide, nofun, nofun⟩
  have first : ranged.Writes "  ~~^ name (send.int/3)".toList := by
    have text : ([' ', ' '] ++ ['~', '~', '^']) ++ ' ' :: (ranged.field.toList ++
        pathText ranged.path) = "  ~~^ name (send.int/3)".toList := by decide +kernel
    have draws : Draws ranged.range ([' ', ' '] ++ ['~', '~', '^']) :=
      .range (List.all_iff_forall_prop.1 (by decide)) rfl
    exact text ▸ .intro draws
  have second : absent.Writes "! operator".toList := by
    have text : ['!'] ++ ' ' :: (absent.field.toList ++ pathText absent.path) =
        "! operator".toList := by decide +kernel
    exact text ▸ .intro (.absent 0)
  have barred : Idle ([' '] ++ '|' :: [' ', ' ']) :=
    .bar (List.all_iff_forall_prop.1 (by decide)) (List.all_iff_forall_prop.1 (by decide))
  have drawn : Sheet ["  ~~^ name (send.int/3)".toList, "! operator".toList]
      ["  ~~^ name (send.int/3)".toList, [], " \t|! operator".toList, " |  ".toList] :=
    .plain (.idle (.blank nofun)
      (@Sheet.barred [' ', '\t'] _ _ _ (List.all_iff_forall_prop.1 (by decide))
        (.idle barred .nil)))
  have writable := List.forall_mem_cons.2
    ⟨ranged_writable, List.forall_mem_singleton.2 absent_writable⟩
  exact (notes_reread writable).2 _ _ (.cons first (.cons second .nil)) drawn

end Sheets

end Marking

end Conformance
