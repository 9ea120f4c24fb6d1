import Conformance.Proofs.Markings
import Mathlib.Data.Bool.AllAny
import Mathlib.Data.List.TakeWhile

/-! Which lines are decoded. `Line` gives the form of a line that marks something, part by part,
with what each part denotes; the main result is that the lines of this form are decoded, as what
they denote, and no others. No part can start with a character that the part before it may end in,
so that the longest run is always the right one. -/

namespace Conformance

namespace Text

/-- One or more characters that all satisfy `p`. -/
structure RunOf (p : Char → Prop) (cs : List Char) : Prop where
  nonempty : cs ≠ []
  all : ∀ c ∈ cs, p c

instance {p : Char → Prop} [DecidablePred p] (cs : List Char) : Decidable (RunOf p cs) :=
  decidable_of_iff (cs ≠ [] ∧ cs.all (fun c => p c) = true)
    ⟨fun ⟨nonempty, all⟩ => ⟨nonempty, List.all_iff_forall_prop.1 all⟩,
      fun run => ⟨run.nonempty, List.all_iff_forall_prop.2 run.all⟩⟩

/-- What is read as a run is a run, with the rest of the text after it. -/
theorem RunOf.of_run? {p : Char → Bool} {q : Char → Prop} {cs run rest : List Char}
    (same : ∀ c, p c = true ↔ q c) (found : run? p cs = some (run, rest)) :
    RunOf q run ∧ cs = run ++ rest := by
  obtain ⟨nonempty, holds⟩ := run?_eq_some found
  refine ⟨⟨nonempty, fun c mem => (same c).1 (holds c mem)⟩, ?_⟩
  unfold run? at found
  split at found
  · cases found
  · cases found
    exact List.takeWhile_append_dropWhile.symm

/-- A run is read if the text goes on with another character, or ends. -/
theorem RunOf.read {p : Char → Bool} {q : Char → Prop} {run rest : List Char} (whole : RunOf q run)
    (same : ∀ c, p c = true ↔ q c) (stops : ∀ c ∈ rest.head?, ¬ q c) :
    run? p (run ++ rest) = some (run, rest) := by
  have holds : ∀ c ∈ run, p c = true := fun c mem => (same c).2 (whole.all c mem)
  have ends : rest.head?.any p = false := by
    rw [Option.any_eq_false]
    intro c mem
    exact Bool.eq_false_iff.2 fun holds => stops c mem ((same c).1 holds)
  exact run?_append whole.nonempty (List.all_eq_true.2 holds) ends

/-- What starts with a run starts with a character of it. -/
theorem RunOf.head {q : Char → Prop} {run rest : List Char} (whole : RunOf q run) :
    ∀ c ∈ (run ++ rest).head?, q c := by
  intro c first
  cases run with
  | nil => exact (whole.nonempty rfl).elim
  | cons d more =>
    obtain rfl := Option.some.inj first
    exact whole.all d (.head _)

/-- Where a text stops to satisfy a predicate. -/
theorem takeWhile_append_of_stop {p : Char → Bool} {q : Char → Prop} {run rest : List Char}
    (same : ∀ c, p c = true ↔ q c) (all : ∀ c ∈ run, q c) (stops : ∀ c ∈ rest.head?, ¬ q c) :
    (run ++ rest).takeWhile p = run ∧ (run ++ rest).dropWhile p = rest := by
  have holds : ∀ c ∈ run, p c = true := fun c mem => (same c).2 (all c mem)
  rw [List.takeWhile_append_of_pos holds, List.dropWhile_append_of_pos holds]
  cases rest with
  | nil => exact ⟨List.append_nil _, rfl⟩
  | cons c more =>
    have stop : ¬ p c = true := fun holds => stops c rfl ((same c).1 holds)
    rw [List.takeWhile_cons_of_neg stop, List.dropWhile_cons_of_neg stop, List.append_nil]
    exact ⟨rfl, rfl⟩

theorem skip?_eq_some {c : Char} {cs rest : List Char} :
    skip? c cs = some rest ↔ cs = c :: rest := by
  cases cs with
  | nil => simp [skip?]
  | cons d more =>
    unfold skip?
    by_cases same : d = c
    · simp [same]
    · simp [same]

/-- The first piece of a text ends at the first separator. -/
theorem pieces_append {separator : Char} {piece rest : List Char} (whole : separator ∉ piece) :
    pieces separator (piece ++ separator :: rest) = piece :: pieces separator rest := by
  induction piece with
  | nil => exact if_pos rfl
  | cons c more ih =>
    have other : c ≠ separator := fun same => whole (same ▸ .head _)
    rw [List.cons_append, pieces, if_neg other, ih fun mem => whole (.tail _ mem)]

theorem pieces_of_notMem {separator : Char} {piece : List Char} (whole : separator ∉ piece) :
    pieces separator piece = [piece] := by
  induction piece with
  | nil => rfl
  | cons c more ih =>
    have other : c ≠ separator := fun same => whole (same ▸ .head _)
    rw [pieces, if_neg other, ih fun mem => whole (.tail _ mem)]

/-- A text has a separator, and up to the first one a piece, or it has none. -/
theorem pieces_cases (separator : Char) (cs : List Char) :
    separator ∉ cs ∨ ∃ piece rest, separator ∉ piece ∧ cs = piece ++ separator :: rest := by
  by_cases mem : separator ∈ cs
  · obtain ⟨piece, rest, rfl, whole⟩ := List.eq_append_cons_of_mem mem
    exact .inr ⟨piece, rest, whole, rfl⟩
  · exact .inl mem

end Text

namespace Marking

open Text

/-! ### The form of a line -/

def IsBlank (c : Char) : Prop := c ∈ [' ', '\t', '\r', '\n', '\x0b', '\x0c']
deriving Decidable

def IsMark (c : Char) : Prop := c = '~' ∨ c = '^'
deriving Decidable

def IsDigit (c : Char) : Prop := '0' ≤ c ∧ c ≤ '9'
deriving Decidable

/-- A character of the name of a field. -/
def IsFieldChar (c : Char) : Prop := ('a' ≤ c ∧ c ≤ 'z') ∨ c = '_'
deriving Decidable

/-- A character of a kind. -/
def IsKindChar (c : Char) : Prop := IsFieldChar c ∨ IsDigit c
deriving Decidable

/-- What marks the range, in a line that has `start` blanks before it. -/
inductive Marks (start : Nat) : List Char → Option Span → Prop
  | absent : Marks start ['!'] none
  | range {marks : List Char} : RunOf IsMark marks →
      Marks start marks (some (.ofLength start marks.length))

/-- A kind, and perhaps a slash and a number from 1 up to `2 ^ 64 - 1`. -/
inductive Segment : List Char → Step → Prop
  | first {kind : List Char} : RunOf IsKindChar kind → Segment kind ⟨String.ofList kind, 0⟩
  | numbered {kind digits : List Char} {number : Nat} :
      RunOf IsKindChar kind → RunOf IsDigit digits → Nat.ofDigitChars 10 digits 0 = number →
      1 ≤ number → number < 2 ^ 64 →
      Segment (kind ++ '/' :: digits) ⟨String.ofList kind, number - 1⟩

/-- Segments with dots between them. -/
inductive Segments : List Char → Path → Prop
  | last {segment : List Char} {step : Step} : Segment segment step → Segments segment [step]
  | more {segment rest : List Char} {step : Step} {path : Path} : Segment segment step →
      Segments rest path → Segments (segment ++ '.' :: rest) (step :: path)

/-- Nothing, or blanks and a path in parentheses. -/
inductive Target : List Char → Path → Prop
  | root : Target [] []
  | path {blanks segments : List Char} {path : Path} :
      RunOf IsBlank blanks → Segments segments path →
      Target (blanks ++ '(' :: (segments ++ [')'])) path

/-- A line: blanks, what marks the range, blanks, the name of a field, and what follows it. -/
inductive Line : List Char → Marking → Prop
  | intro {indent marks blanks field tail line : List Char} {range : Option Span} {path : Path} :
      (∀ c ∈ indent, IsBlank c) → Marks indent.length marks range → RunOf IsBlank blanks →
      RunOf IsFieldChar field → Target tail path →
      line = indent ++ (marks ++ (blanks ++ (field ++ tail))) →
      Line line ⟨range, String.ofList field, path, String.ofList line⟩

/-! ### The classes of characters -/

/-- The characters between the parentheses of a path. -/
def IsStepChar (c : Char) : Prop := IsKindChar c ∨ c = '.' ∨ c = '/'
deriving Decidable

theorem isSpace_iff (c : Char) : isSpace c = true ↔ IsBlank c := by
  unfold isSpace IsBlank
  constructor
  · intro space
    rcases Bool.or_eq_true_iff.1 space with same | range
    · rw [beq_iff_eq.1 same]
      decide
    · obtain ⟨low, high⟩ := Bool.and_eq_true_iff.1 range
      have low := of_decide_eq_true low
      have high := of_decide_eq_true high
      rw [← Char.ofNat_toNat c]
      generalize c.toNat = n at low high
      obtain rfl | rfl | rfl | rfl | rfl : n = 9 ∨ n = 10 ∨ n = 11 ∨ n = 12 ∨ n = 13 := by omega
      all_goals decide
  · intro mem
    simp only [List.mem_cons, List.not_mem_nil, or_false] at mem
    rcases mem with rfl | rfl | rfl | rfl | rfl | rfl
    all_goals rfl

theorem isMarker_iff (c : Char) : isMarker c = true ↔ IsMark c := by
  simp [isMarker, IsMark]

theorem isWord_iff (c : Char) : isWord c = true ↔ IsFieldChar c := by
  have lower : c.isLower = (decide ('a' ≤ c) && decide (c ≤ 'z')) := rfl
  simp [isWord, IsFieldChar, lower]

theorem isDigit_iff (c : Char) : c.isDigit = true ↔ IsDigit c := by
  simp [Char.isDigit, IsDigit, Char.le_def]

theorem isPathChar_iff (c : Char) : isPathChar c = true ↔ IsStepChar c := by
  simp [isPathChar, IsStepChar, IsKindChar, isWord_iff, isDigit_iff, or_assoc]

theorem IsBlank.not_mark {c : Char} (h : IsBlank c) : ¬ IsMark c := by
  have none : ∀ c ∈ [' ', '\t', '\r', '\n', '\x0b', '\x0c'], ¬ IsMark c :=
    List.all_iff_forall_prop.1 (by decide)
  exact none c h

theorem IsBlank.not_field {c : Char} (h : IsBlank c) : ¬ IsFieldChar c := by
  have none : ∀ c ∈ [' ', '\t', '\r', '\n', '\x0b', '\x0c'], ¬ IsFieldChar c :=
    List.all_iff_forall_prop.1 (by decide)
  exact none c h

/-! ### Segments -/

section Segments

variable {segment digits text : List Char} {number : Nat} {step : Step} {path : Path}

theorem isDigits_iff : isDigits digits = true ↔ RunOf IsDigit digits := by
  unfold isDigits
  rw [Bool.and_eq_true, List.all_eq_true, Bool.not_eq_true', List.isEmpty_eq_false_iff]
  constructor
  · rintro ⟨nonempty, all⟩
    exact ⟨nonempty, fun c mem => (isDigit_iff c).1 (all c mem)⟩
  · rintro ⟨nonempty, all⟩
    exact ⟨nonempty, fun c mem => (isDigit_iff c).2 (all c mem)⟩

theorem word64?_eq_some :
    word64? digits = some number ↔
      RunOf IsDigit digits ∧ Nat.ofDigitChars 10 digits 0 = number ∧ number < 2 ^ 64 := by
  have value : digitsValue digits = Nat.ofDigitChars 10 digits 0 := rfl
  unfold word64? wordCount
  rw [value, Option.ite_none_right_eq_some, Bool.and_eq_true, isDigits_iff, decide_eq_true_eq,
    Option.some.injEq]
  constructor
  · rintro ⟨⟨run, bound⟩, rfl⟩
    exact ⟨run, rfl, bound⟩
  · rintro ⟨run, rfl, bound⟩
    exact ⟨⟨run, bound⟩, rfl⟩

/-- No character of a kind separates it from what follows. -/
theorem IsKindChar.ne {c separator : Char} (h : IsKindChar c)
    (separates : separator = '.' ∨ separator = '/') : c ≠ separator := by
  rintro rfl
  rcases separates with rfl | rfl
  · exact absurd h (by decide)
  · exact absurd h (by decide)

theorem Segment.read (h : Segment segment step) : step? segment = some step := by
  have slashless {kind : List Char} (run : RunOf IsKindChar kind) : ∀ c ∈ kind, (c != '/') = true :=
    fun c mem => bne_iff_ne.2 ((run.all c mem).ne (.inr rfl))
  unfold step?
  cases h with
  | @first kind run =>
    rw [List.takeWhile_eq_self_iff.2 (slashless run), List.dropWhile_eq_nil_iff.2 (slashless run)]
    exact if_neg (by simpa using run.nonempty)
  | @numbered kind digits number run digits_run value positive bound =>
    rw [List.takeWhile_append_of_pos (slashless run), List.dropWhile_append_of_pos (slashless run),
      List.takeWhile_cons_of_neg (by decide), List.dropWhile_cons_of_neg (by decide),
      List.append_nil]
    dsimp only
    rw [if_neg (by simpa using run.nonempty), word64?_eq_some.2 ⟨digits_run, value, bound⟩]
    exact if_neg (by omega)

theorem Segment.of_step? (chars : ∀ c ∈ segment, IsStepChar c)
    (whole : '.' ∉ segment) (read : step? segment = some step) : Segment segment step := by
  -- The kind ends before the first slash, and so it has none.
  have kind_chars : ∀ c ∈ segment.takeWhile (· != '/'), IsKindChar c := by
    intro c mem
    have inside : c ∈ segment := (List.takeWhile_prefix _).mem mem
    have slash : c ≠ '/' := bne_iff_ne.1 (List.all_eq_true.1 List.all_takeWhile c mem)
    have dot : c ≠ '.' := fun same => whole (same ▸ inside)
    exact (chars c inside).resolve_right fun other => other.elim dot slash
  have split := List.takeWhile_append_dropWhile (p := (· != '/')) (l := segment)
  have slash := List.head?_dropWhile_not (· != '/') segment
  unfold step? at read
  dsimp only at read
  generalize segment.takeWhile (· != '/') = kind at *
  generalize segment.dropWhile (· != '/') = rest at *
  subst split
  split at read
  · cases read
  · rename_i nonempty
    have run : RunOf IsKindChar kind := ⟨by simpa using nonempty, kind_chars⟩
    cases rest with
    | nil =>
      cases read
      rw [List.append_nil]
      exact .first run
    | cons c digits =>
      obtain rfl : c = '/' := by simpa using slash
      obtain ⟨number, word, nth⟩ := Option.bind_eq_some_iff.1 read
      obtain ⟨digits_run, value, bound⟩ := word64?_eq_some.1 word
      unfold Step.nth? at nth
      split at nth
      · cases nth
      · rename_i positive
        cases nth
        exact .numbered run digits_run value (by omega) bound

theorem Segment.dotless (h : Segment segment step) : '.' ∉ segment := by
  have dotless {kind : List Char} (run : RunOf IsKindChar kind) : '.' ∉ kind :=
    fun mem => (run.all _ mem).ne (.inl rfl) rfl
  cases h with
  | first run => exact dotless run
  | numbered run digits_run =>
    have digits : RunOf IsKindChar _ :=
      ⟨digits_run.nonempty, fun c mem => .inr (digits_run.all c mem)⟩
    rw [List.mem_append, List.mem_cons]
    rintro (kind | slash | digit)
    · exact dotless run kind
    · cases slash
    · exact dotless digits digit

theorem Segment.chars (h : Segment segment step) : RunOf IsStepChar segment := by
  cases h with
  | first run => exact ⟨run.nonempty, fun c mem => .inl (run.all c mem)⟩
  | numbered run digits_run =>
    refine ⟨by simp, List.forall_mem_append.2 ⟨fun c mem => .inl (run.all c mem), ?_⟩⟩
    exact List.forall_mem_cons.2 ⟨.inr (.inr rfl), fun c mem => .inl (.inr (digits_run.all c mem))⟩

theorem Segments.chars (h : Segments text path) : RunOf IsStepChar text := by
  induction h with
  | last segment => exact segment.chars
  | more segment _ ih =>
    refine ⟨by simp, List.forall_mem_append.2 ⟨segment.chars.all, ?_⟩⟩
    exact List.forall_mem_cons.2 ⟨.inr (.inl rfl), ih.all⟩

theorem Segments.read (h : Segments text path) : (pieces '.' text).mapM step? = some path := by
  induction h with
  | last segment =>
    rw [pieces_of_notMem segment.dotless, List.mapM_cons, segment.read]
    rfl
  | more segment _ ih =>
    rw [pieces_append segment.dotless, List.mapM_cons, segment.read, ih]
    rfl

theorem Segments.of_pieces (chars : ∀ c ∈ text, IsStepChar c)
    (read : (pieces '.' text).mapM step? = some path) : Segments text path := by
  induction path generalizing text with
  | nil =>
    rcases pieces_cases '.' text with whole | ⟨piece, rest, whole, rfl⟩
    · rw [pieces_of_notMem whole, List.mapM_cons] at read
      obtain ⟨_, -, read⟩ := Option.bind_eq_some_iff.1 read
      cases read
    · rw [pieces_append whole, List.mapM_cons] at read
      obtain ⟨_, -, read⟩ := Option.bind_eq_some_iff.1 read
      obtain ⟨_, -, read⟩ := Option.bind_eq_some_iff.1 read
      cases read
  | cons step path ih =>
    rcases pieces_cases '.' text with whole | ⟨piece, rest, whole, rfl⟩
    · rw [pieces_of_notMem whole, List.mapM_cons] at read
      obtain ⟨_, first, read⟩ := Option.bind_eq_some_iff.1 read
      cases read
      exact .last (.of_step? chars whole first)
    · rw [pieces_append whole, List.mapM_cons] at read
      obtain ⟨_, first, read⟩ := Option.bind_eq_some_iff.1 read
      obtain ⟨_, others, read⟩ := Option.bind_eq_some_iff.1 read
      cases read
      obtain ⟨head, tail⟩ := List.forall_mem_append.1 chars
      exact .more (.of_step? head whole first) (ih (fun c mem => tail c (.tail _ mem)) others)

end Segments

/-! ### Lines -/

section Lines

variable {tail line : List Char} {path : Path} {range : Option Span} {start : Nat}
  {marks rest : List Char}

theorem Target.read (h : Target tail path) : path? tail = some path := by
  cases h with
  | root => rfl
  | @path blanks segments path blanks_run steps =>
    have opening : run? isSpace (blanks ++ '(' :: (segments ++ [')'])) =
        some (blanks, '(' :: (segments ++ [')'])) :=
      blanks_run.read isSpace_iff (by rintro _ ⟨⟩; decide)
    have inner : run? isPathChar (segments ++ [')']) = some (segments, [')']) :=
      steps.chars.read isPathChar_iff (by rintro _ ⟨⟩; decide)
    unfold path?
    rw [if_neg (by simp)]
    refine Option.bind_eq_some_iff.2 ⟨_, opening, Option.bind_eq_some_iff.2 ⟨_, rfl,
      Option.bind_eq_some_iff.2 ⟨_, inner, Option.bind_eq_some_iff.2 ⟨_, rfl, ?_⟩⟩⟩⟩
    exact steps.read

theorem Target.head (h : Target tail path) : ∀ c ∈ tail.head?, IsBlank c := by
  cases h with
  | root => exact nofun
  | path blanks_run _ => exact blanks_run.head

theorem Target.of_path? (read : path? tail = some path) : Target tail path := by
  unfold path? at read
  split at read
  · rename_i empty
    cases read
    rw [List.isEmpty_iff.1 empty]
    exact .root
  · obtain ⟨⟨blanks, opened⟩, opening, read⟩ := Option.bind_eq_some_iff.1 read
    obtain ⟨inside, paren, read⟩ := Option.bind_eq_some_iff.1 read
    obtain ⟨⟨segments, closed⟩, inner, read⟩ := Option.bind_eq_some_iff.1 read
    obtain ⟨after, paren', read⟩ := Option.bind_eq_some_iff.1 read
    obtain ⟨empty, steps⟩ := Option.ite_none_right_eq_some.1 read
    obtain ⟨blanks_run, rfl⟩ := RunOf.of_run? isSpace_iff opening
    obtain ⟨steps_run, rfl⟩ := RunOf.of_run? isPathChar_iff inner
    obtain rfl := skip?_eq_some.1 paren
    obtain rfl := skip?_eq_some.1 paren'
    obtain rfl := List.isEmpty_iff.1 empty
    exact .path blanks_run (.of_pieces steps_run.all steps)

theorem Marks.read (h : Marks start marks range) (stops : ∀ c ∈ rest.head?, ¬ IsMark c) :
    range? start (marks ++ rest) = some (range, rest) := by
  cases h with
  | absent => rfl
  | range run =>
    have present : skip? '!' (marks ++ rest) = none := by
      rw [Option.eq_none_iff_forall_ne_some]
      intro after excluded
      have first : (marks ++ rest).head? = some '!' := by
        rw [skip?_eq_some.1 excluded]
        rfl
      exact absurd (run.head '!' first) (by decide)
    have marked : run? isMarker (marks ++ rest) = some (marks, rest) := run.read isMarker_iff stops
    unfold range?
    rw [present]
    dsimp only
    rw [marked]
    rfl

/-- What marks a range is no blank. -/
theorem Marks.head (h : Marks start marks range) : ∀ c ∈ (marks ++ rest).head?, ¬ IsBlank c := by
  cases h with
  | absent =>
    rintro _ ⟨⟩
    decide
  | range run => exact fun c first blank => blank.not_mark (run.head c first)

theorem Marks.of_range? (read : range? start line = some (range, rest)) :
    ∃ marks, Marks start marks range ∧ line = marks ++ rest := by
  unfold range? at read
  split at read
  · rename_i after excluded
    cases read
    exact ⟨['!'], .absent, skip?_eq_some.1 excluded⟩
  · obtain ⟨⟨marks, after⟩, marked, read⟩ := Option.bind_eq_some_iff.1 read
    cases read
    obtain ⟨run, rfl⟩ := RunOf.of_run? isMarker_iff marked
    exact ⟨marks, .range run, rfl⟩

variable {marking : Marking}

theorem Line.read (h : Line line marking) : decode? line = some marking := by
  cases h with
  | @intro indent marks blanks field tail _ range path indent_blank marks_form blanks_run field_run
      target form =>
    have after_marks : ∀ c ∈ (blanks ++ (field ++ tail)).head?, ¬ IsMark c :=
      fun c first => (blanks_run.head c first).not_mark
    have after_blanks : ∀ c ∈ (field ++ tail).head?, ¬ IsBlank c :=
      fun c first blank => blank.not_field (field_run.head c first)
    have after_field : ∀ c ∈ tail.head?, ¬ IsFieldChar c :=
      fun c first => (target.head c first).not_field
    have before_marks : ∀ c ∈ (marks ++ (blanks ++ (field ++ tail))).head?, ¬ IsBlank c :=
      marks_form.head
    have start := takeWhile_append_of_stop isSpace_iff indent_blank before_marks
    have marked : range? indent.length (marks ++ (blanks ++ (field ++ tail))) =
        some (range, blanks ++ (field ++ tail)) := marks_form.read after_marks
    have blank : run? isSpace (blanks ++ (field ++ tail)) = some (blanks, field ++ tail) :=
      blanks_run.read isSpace_iff after_blanks
    have named : run? isWord (field ++ tail) = some (field, tail) :=
      field_run.read isWord_iff after_field
    unfold decode?
    rw [form, start.1, start.2]
    exact Option.bind_eq_some_iff.2 ⟨_, marked, Option.bind_eq_some_iff.2 ⟨_, blank,
      Option.bind_eq_some_iff.2 ⟨_, named, Option.bind_eq_some_iff.2 ⟨path, target.read, rfl⟩⟩⟩⟩

theorem Line.of_decode? (read : decode? line = some marking) : Line line marking := by
  obtain ⟨⟨range, unmarked⟩, marked, read⟩ := Option.bind_eq_some_iff.1 read
  obtain ⟨⟨blanks, named⟩, blank, read⟩ := Option.bind_eq_some_iff.1 read
  obtain ⟨⟨field, tail⟩, name, read⟩ := Option.bind_eq_some_iff.1 read
  obtain ⟨path, target, read⟩ := Option.bind_eq_some_iff.1 read
  cases read
  obtain ⟨marks, marks_form, rest⟩ := Marks.of_range? marked
  obtain ⟨blanks_run, rfl⟩ := RunOf.of_run? isSpace_iff blank
  obtain ⟨field_run, rfl⟩ := RunOf.of_run? isWord_iff name
  have indent_blank : ∀ c ∈ line.takeWhile isSpace, IsBlank c :=
    fun c mem => (isSpace_iff c).1 (List.all_eq_true.1 List.all_takeWhile c mem)
  refine .intro indent_blank marks_form blanks_run field_run (.of_path? target) ?_
  rw [← rest, List.takeWhile_append_dropWhile]

end Lines

/-- The lines that are decoded are those of the form, and they are decoded as what they denote. -/
theorem decode?_eq_some_iff {line : List Char} {marking : Marking} :
    decode? line = some marking ↔ Line line marking := ⟨Line.of_decode?, Line.read⟩

end Marking

end Conformance
