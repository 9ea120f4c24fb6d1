import Conformance.Dialect.Grammar
import Conformance.Proofs.Ending

/-! Steps that succeed: `Yields` says in which value and state a step ends. Each primitive step has
an equation in terms of a few changes of states. -/

namespace Conformance.Dialect

/-! ### States -/

namespace ParseState

/-- A state in which other tokens have not been read. -/
def leaving (s : ParseState) (rest : List Token) : ParseState := { s with rest }

def keeping (s : ParseState) (change : Bookkeeping → Bookkeeping) : ParseState :=
  { s with book := change s.book }

def nested (s : ParseState) (change : Nesting → Nesting) : ParseState :=
  s.keeping fun book => { book with nesting := change book.nesting }

def flagged (s : ParseState) (changes : List (Flag × Bool)) : ParseState :=
  s.keeping fun book => { book with context := book.context.setAll changes }

/-- A state with the flags from before a step. -/
def restoring (s : ParseState) (context : Flags) : ParseState :=
  s.keeping fun book => { book with context }

def reporting (s : ParseState) (diagnostic : Diagnostic) : ParseState :=
  { s with emitted := s.emitted ++ [diagnostic] }

def pastNewlines (s : ParseState) : ParseState :=
  s.leaving (s.rest.dropWhile fun token => token.kind == .newline)

def pastTerminators (s : ParseState) : ParseState :=
  s.leaving (s.rest.dropWhile fun token => token.kind == .newline || token.kind == .semicolon)

def kind? (s : ParseState) : Option TokenKind := s.rest.head?.map Token.kind

section Parts

variable (s : ParseState) (rest : List Token) (change : Bookkeeping → Bookkeeping)
  (renest : Nesting → Nesting) (changes : List (Flag × Bool)) (context : Flags) (d : Diagnostic)

@[simp] theorem leaving_rest : (s.leaving rest).rest = rest := rfl

@[simp] theorem leaving_book : (s.leaving rest).book = s.book := rfl

@[simp] theorem leaving_emitted : (s.leaving rest).emitted = s.emitted := rfl

@[simp] theorem keeping_rest : (s.keeping change).rest = s.rest := rfl

@[simp] theorem keeping_book : (s.keeping change).book = change s.book := rfl

@[simp] theorem keeping_emitted : (s.keeping change).emitted = s.emitted := rfl

@[simp] theorem nested_rest : (s.nested renest).rest = s.rest := rfl

@[simp] theorem nested_book :
    (s.nested renest).book = { s.book with nesting := renest s.book.nesting } := rfl

@[simp] theorem nested_emitted : (s.nested renest).emitted = s.emitted := rfl

@[simp] theorem flagged_rest : (s.flagged changes).rest = s.rest := rfl

@[simp] theorem flagged_book :
    (s.flagged changes).book = { s.book with context := s.book.context.setAll changes } := rfl

@[simp] theorem flagged_emitted : (s.flagged changes).emitted = s.emitted := rfl

@[simp] theorem restoring_rest : (s.restoring context).rest = s.rest := rfl

@[simp] theorem restoring_book : (s.restoring context).book = { s.book with context } := rfl

@[simp] theorem restoring_emitted : (s.restoring context).emitted = s.emitted := rfl

@[simp] theorem reporting_rest : (s.reporting d).rest = s.rest := rfl

@[simp] theorem reporting_book : (s.reporting d).book = s.book := rfl

@[simp] theorem reporting_emitted : (s.reporting d).emitted = s.emitted ++ [d] := rfl

@[simp] theorem pastNewlines_book : s.pastNewlines.book = s.book := rfl

@[simp] theorem pastNewlines_emitted : s.pastNewlines.emitted = s.emitted := rfl

@[simp] theorem pastTerminators_book : s.pastTerminators.book = s.book := rfl

@[simp] theorem pastTerminators_emitted : s.pastTerminators.emitted = s.emitted := rfl

end Parts

/-- The next token has a kind, and `rest` follows it. -/
structure Next (s : ParseState) (kind : TokenKind) (token : Token) (rest : List Token) : Prop where
  eq : s.rest = token :: rest
  kind_eq : token.kind = kind

/-- The token of a kind that may stand next, and what follows it. -/
inductive Eats (s : ParseState) (kind : TokenKind) : Option Token → List Token → Prop where
  | none (absent : s.kind? ≠ some kind) : Eats s kind none s.rest
  | some {token : Token} {rest : List Token} (next : s.Next kind token rest) :
      Eats s kind (some token) rest

/-- The next token has a kind and directly follows the one before it. -/
def Adjacent (s : ParseState) (kind : TokenKind) : Prop :=
  ∃ token rest, s.Next kind token rest ∧ token.spaced = false

/-- At a token of one of the kinds, or at the end. -/
def Stops (s : ParseState) (stops : List TokenKind) : Prop := ∀ kind ∈ s.kind?, kind ∈ stops

/-- At the end of a statement that more may follow. -/
def Breaks (s : ParseState) : Prop := s.Stops [.newline, .semicolon]

/-- After the condition of a loop or a pattern, which a keyword or the end of the line closes. -/
def Opened (s : ParseState) (opener : Option Token) : Prop :=
  opener ≠ none ∨ s.kind? = some .newline ∨ s.kind? = some .semicolon

/-- At a name that is assigned to. -/
def Assigns (s : ParseState) : Prop :=
  ∃ name operator rest, s.Next .identifier name (operator :: rest) ∧ operator.kind = .assign

theorem Next.kind?_eq {s : ParseState} {kind : TokenKind} {token : Token} {rest : List Token}
    (next : s.Next kind token rest) : s.kind? = some kind := by
  simp [kind?, next.eq, next.kind_eq]

theorem not_stops_iff {s : ParseState} {stops : List TokenKind} :
    ¬ s.Stops stops ↔ ∃ kind, s.kind? = some kind ∧ kind ∉ stops := by
  simp [Stops]

theorem adjacent_iff {s : ParseState} {kind : TokenKind} :
    (s.rest.head?.any fun token => token.kind == kind && !token.spaced) = true ↔
      s.Adjacent kind := by
  obtain ⟨rest, book, emitted⟩ := s
  cases rest with
  | nil =>
    refine iff_of_false nofun ?_
    rintro ⟨token, rest, next, -⟩
    cases next.eq
  | cons token rest =>
    simp only [List.head?_cons, Option.any_some, Bool.and_eq_true, beq_iff_eq, Bool.not_eq_true']
    constructor
    · rintro ⟨hk, hs⟩
      exact ⟨token, rest, ⟨rfl, hk⟩, hs⟩
    · rintro ⟨_, _, next, hs⟩
      cases next.eq
      exact ⟨next.kind_eq, hs⟩

theorem Assigns.intro {s : ParseState} {name operator : Token} {r1 r2 : List Token}
    (first : s.Next .identifier name r1) (second : (s.leaving r1).Next .assign operator r2) :
    s.Assigns := by
  obtain rfl : r1 = operator :: r2 := second.eq
  exact ⟨name, operator, r2, first, second.kind_eq⟩

theorem assigns_iff {s : ParseState} :
    (s.kind? == some .identifier && s.rest.tail.head?.any (·.kind == .assign)) = true ↔
      s.Assigns := by
  obtain ⟨rest, book, emitted⟩ := s
  constructor
  · match rest with
    | [] => simp [kind?]
    | [_] => simp
    | name :: operator :: rest =>
      simp only [kind?, List.head?_cons, Option.map_some, List.tail_cons, Option.any_some,
        Bool.and_eq_true, beq_iff_eq, Option.some.injEq]
      rintro ⟨hn, ho⟩
      exact ⟨name, operator, rest, ⟨rfl, hn⟩, ho⟩
  · rintro ⟨name, operator, rest, next, ho⟩
    cases next.eq
    simp [kind?, next.kind_eq, ho]

end ParseState

namespace Parse

variable {α β : Type}

/-- From `state`, a step ends in a value and in the state `after`. -/
def Yields (step : Parse α) (setting : Setting) (state : ParseState) (value : α)
    (after : ParseState) : Prop := step setting state = .ok value after

variable {setting : Setting} {s t : ParseState} {value : α}

theorem yields_iff_ends {step : Parse α} :
    Yields step setting s value t ↔
      Ends step setting s (fun given after => value = given ∧ t = after) fun _ _ => False := by
  unfold Yields Ends
  cases step setting s with
  | ok given after => simp [eq_comm]
  | error fault after => simp

/-- What a step is known to end in holds of what it yields. -/
theorem Ends.of_yields {step : Parse α} {Q : α → ParseState → Prop}
    {E : ParseFault → ParseState → Prop} (h : Ends step setting s Q E)
    (yields : Yields step setting s value t) : Q value t := by
  unfold Ends at h
  rw [yields] at h
  exact h

theorem yields_bind {step : Parse α} {next : α → Parse β} {value : β} :
    Yields (step >>= next) setting s value t ↔
      ∃ first middle, Yields step setting s first middle ∧
        Yields (next first) setting middle value t := by
  show EStateM.bind (step setting) (fun value => next value setting) s = .ok value t ↔ _
  unfold EStateM.bind Yields
  cases step setting s with
  | ok first middle => simp [and_assoc]
  | error fault middle => simp

theorem yields_pure {given : α} :
    Yields (pure given) setting s value t ↔ value = given ∧ t = s := yields_iff_ends

theorem not_yields_unexpected : ¬ Yields (unexpected : Parse α) setting s value t := by
  rw [yields_iff_ends, ends_unexpected]
  exact id

theorem not_yields_throw {fault : ParseFault} :
    ¬ Yields (throw fault : Parse α) setting s value t := nofun

/-! ### Steps that look, or change something -/

section Bind

variable {value : β}

theorem yields_peek_bind {next : Option Token → Parse β} :
    Yields (peek >>= next) setting s value t ↔ Yields (next s.rest.head?) setting s value t :=
  Iff.rfl

theorem yields_peekKind_bind {next : Option TokenKind → Parse β} :
    Yields (peekKind >>= next) setting s value t ↔ Yields (next s.kind?) setting s value t :=
  Iff.rfl

theorem yields_peekSecond_bind {next : Option Token → Parse β} :
    Yields (peekSecond >>= next) setting s value t ↔
      Yields (next s.rest.tail.head?) setting s value t := Iff.rfl

theorem yields_at?_bind {kind : TokenKind} {next : Bool → Parse β} :
    Yields (at? kind >>= next) setting s value t ↔
      Yields (next (s.kind? == some kind)) setting s value t := Iff.rfl

theorem yields_adjacent?_bind {kind : TokenKind} {next : Bool → Parse β} :
    Yields (adjacent? kind >>= next) setting s value t ↔
      Yields (next (s.rest.head?.any fun token => token.kind == kind && !token.spaced))
        setting s value t := Iff.rfl

theorem yields_atTerminator?_bind {next : Bool → Parse β} :
    Yields (atTerminator? >>= next) setting s value t ↔
      Yields (next (s.kind? == some .newline || s.kind? == some .semicolon)) setting s value t :=
  Iff.rfl

theorem yields_get_bind {next : ParseState → Parse β} :
    Yields (get >>= next) setting s value t ↔ Yields (next s) setting s value t := Iff.rfl

theorem yields_books_bind {next : Bookkeeping → Parse β} :
    Yields (books >>= next) setting s value t ↔ Yields (next s.book) setting s value t := Iff.rfl

theorem yields_features_bind {next : Features → Parse β} :
    Yields (features >>= next) setting s value t ↔
      Yields (next setting.features) setting s value t := Iff.rfl

theorem yields_keep_bind {change : Bookkeeping → Bookkeeping} {next : Unit → Parse β} :
    Yields (keep change >>= next) setting s value t ↔
      Yields (next ()) setting (s.keeping change) value t := Iff.rfl

theorem yields_nest_bind {change : Nesting → Nesting} {next : Unit → Parse β} :
    Yields (nest change >>= next) setting s value t ↔
      Yields (next ()) setting (s.nested change) value t := Iff.rfl

theorem yields_emit_bind {d : Diagnostic} {next : Unit → Parse β} :
    Yields (emit d >>= next) setting s value t ↔
      Yields (next ()) setting (s.reporting d) value t := Iff.rfl

theorem yields_advance_bind {next : Unit → Parse β} :
    Yields (advance >>= next) setting s value t ↔
      Yields (next ()) setting (s.leaving s.rest.tail) value t := Iff.rfl

theorem yields_skipNewlines_bind {next : Unit → Parse β} :
    Yields (skipNewlines >>= next) setting s value t ↔
      Yields (next ()) setting s.pastNewlines value t := Iff.rfl

theorem yields_skipTerminators_bind {next : Unit → Parse β} :
    Yields (skipTerminators >>= next) setting s value t ↔
      Yields (next ()) setting s.pastTerminators value t := Iff.rfl

/-- Nothing comes after a rejection. -/
theorem not_yields_reject_bind {reason : Reason} {arguments : Arguments} {location : Span}
    {next : α → Parse β} :
    ¬ Yields (reject reason arguments location >>= next) setting s value t := nofun

theorem not_yields_unexpected_bind {next : α → Parse β} :
    ¬ Yields (unexpected >>= next) setting s value t := by
  rw [yields_bind]
  rintro ⟨_, _, none, -⟩
  exact not_yields_unexpected none

/-- A step behind a condition that has to hold. -/
theorem yields_unless_unexpected {c : Prop} [Decidable c] {next : α → Parse β} {step : Parse β} :
    Yields (if c then unexpected >>= next else step) setting s value t ↔
      ¬ c ∧ Yields step setting s value t := by
  by_cases h : c
  · simp [h, not_yields_unexpected_bind]
  · simp [h]

theorem yields_unless_rejected {c : Prop} [Decidable c] {reason : Reason}
    {arguments : Arguments} {location : Span} {next : α → Parse β} {step : Parse β} :
    Yields (if c then reject reason arguments location >>= next else step) setting s value t ↔
      ¬ c ∧ Yields step setting s value t := by
  by_cases h : c
  · simp [h, not_yields_reject_bind]
  · simp [h]

end Bind

/-! ### Steps that read tokens -/

theorem yields_next {token : Token} :
    Yields next setting s token t ↔ ∃ rest, s.rest = token :: rest ∧ t = s.leaving rest := by
  rw [yields_iff_ends, ends_next]
  cases h : s.rest with
  | nil => simp
  | cons found rest =>
    constructor
    · rintro ⟨rfl, rfl⟩
      exact ⟨rest, rfl, rfl⟩
    · rintro ⟨_, same, rfl⟩
      cases same
      exact ⟨rfl, rfl⟩

theorem yields_eat {kind : TokenKind} {found : Option Token} :
    Yields (eat kind) setting s found t ↔ ∃ rest, s.Eats kind found rest ∧ t = s.leaving rest := by
  rw [yields_iff_ends, ends_eat]
  cases h : s.rest with
  | nil =>
    constructor
    · rintro ⟨rfl, rfl⟩
      exact ⟨t.rest, .none (by simp [ParseState.kind?, h]), rfl⟩
    · rintro ⟨_, eats, rfl⟩
      cases eats with
      | none _ => exact ⟨rfl, rfl⟩
      | some next => simp [next.eq] at h
  | cons token rest =>
    dsimp only
    split
    · rename_i hk
      constructor
      · rintro ⟨rfl, rfl⟩
        exact ⟨rest, .some ⟨h, hk⟩, rfl⟩
      · rintro ⟨_, eats, rfl⟩
        cases eats with
        | none absent => simp [ParseState.kind?, h, hk] at absent
        | some next =>
          cases h.symm.trans next.eq
          exact ⟨rfl, rfl⟩
    · rename_i hk
      constructor
      · rintro ⟨rfl, rfl⟩
        exact ⟨t.rest, .none (by simp [ParseState.kind?, h, hk]), rfl⟩
      · rintro ⟨_, eats, rfl⟩
        cases eats with
        | none _ => exact ⟨rfl, rfl⟩
        | some next =>
          cases h.symm.trans next.eq
          exact absurd next.kind_eq hk

theorem yields_expect {kind : TokenKind} {token : Token} :
    Yields (expect kind) setting s token t ↔
      ∃ rest, s.Next kind token rest ∧ t = s.leaving rest := by
  unfold expect
  rw [yields_bind]
  constructor
  · rintro ⟨found, middle, ate, h⟩
    obtain ⟨rest, eats, rfl⟩ := yields_eat.1 ate
    cases eats with
    | none _ => exact absurd h not_yields_unexpected
    | some next =>
      obtain ⟨rfl, rfl⟩ := yields_pure.1 h
      exact ⟨rest, next, rfl⟩
  · rintro ⟨rest, next, rfl⟩
    exact ⟨some token, _, yields_eat.2 ⟨rest, .some next, rfl⟩, yields_pure.2 ⟨rfl, rfl⟩⟩

theorem yields_within {changes : List (Flag × Bool)} {step : Parse α} :
    Yields (within changes step) setting s value t ↔
      ∃ after, Yields step setting (s.flagged changes) value after ∧
        t = after.restoring s.book.context := by
  rw [yields_iff_ends, ends_within]
  show Ends step setting (s.flagged changes) _ _ ↔ _
  unfold Ends Yields
  cases step setting (s.flagged changes) with
  | ok given after =>
    constructor
    · rintro ⟨rfl, rfl⟩
      exact ⟨after, rfl, rfl⟩
    · rintro ⟨_, same, rfl⟩
      cases same
      exact ⟨rfl, rfl⟩
  | error fault after => simp

theorem yields_next_bind {next' : Token → Parse β} {value : β} :
    Yields (next >>= next') setting s value t ↔
      ∃ token rest, s.rest = token :: rest ∧
        Yields (next' token) setting (s.leaving rest) value t := by
  rw [yields_bind]
  constructor
  · rintro ⟨token, _, read, h⟩
    obtain ⟨rest, eq, rfl⟩ := yields_next.1 read
    exact ⟨token, rest, eq, h⟩
  · rintro ⟨token, rest, eq, h⟩
    exact ⟨token, _, yields_next.2 ⟨rest, eq, rfl⟩, h⟩

/-- The next token, whose kind is known. -/
theorem yields_next_bind_of_kind {kind : TokenKind} (first : s.kind? = some kind)
    {next' : Token → Parse β} {value : β} :
    Yields (next >>= next') setting s value t ↔
      ∃ token rest, s.Next kind token rest ∧
        Yields (next' token) setting (s.leaving rest) value t := by
  rw [yields_next_bind]
  constructor
  · rintro ⟨token, rest, eq, h⟩
    exact ⟨token, rest, ⟨eq, by simpa [ParseState.kind?, eq] using first⟩, h⟩
  · rintro ⟨token, rest, next, h⟩
    exact ⟨token, rest, next.eq, h⟩

theorem yields_eat_bind {kind : TokenKind} {next : Option Token → Parse β} {value : β} :
    Yields (eat kind >>= next) setting s value t ↔
      ∃ found rest, s.Eats kind found rest ∧
        Yields (next found) setting (s.leaving rest) value t := by
  rw [yields_bind]
  constructor
  · rintro ⟨found, _, read, h⟩
    obtain ⟨rest, eats, rfl⟩ := yields_eat.1 read
    exact ⟨found, rest, eats, h⟩
  · rintro ⟨found, rest, eats, h⟩
    exact ⟨found, _, yields_eat.2 ⟨rest, eats, rfl⟩, h⟩

theorem yields_expect_bind {kind : TokenKind} {next : Token → Parse β} {value : β} :
    Yields (expect kind >>= next) setting s value t ↔
      ∃ token rest, s.Next kind token rest ∧
        Yields (next token) setting (s.leaving rest) value t := by
  rw [yields_bind]
  constructor
  · rintro ⟨token, _, read, h⟩
    obtain ⟨rest, first, rfl⟩ := yields_expect.1 read
    exact ⟨token, rest, first, h⟩
  · rintro ⟨token, rest, first, h⟩
    exact ⟨token, _, yields_expect.2 ⟨rest, first, rfl⟩, h⟩

theorem yields_within_bind {changes : List (Flag × Bool)} {step : Parse α} {next : α → Parse β}
    {value : β} :
    Yields (within changes step >>= next) setting s value t ↔
      ∃ given after, Yields step setting (s.flagged changes) given after ∧
        Yields (next given) setting (after.restoring s.book.context) value t := by
  rw [yields_bind]
  constructor
  · rintro ⟨given, _, flagged, h⟩
    obtain ⟨after, inside, rfl⟩ := yields_within.1 flagged
    exact ⟨given, after, inside, h⟩
  · rintro ⟨given, after, inside, h⟩
    exact ⟨given, _, yields_within.2 ⟨after, inside, rfl⟩, h⟩

/-! ### Putting runs together -/

namespace Yields

variable {value : β} {first : α} {s1 : ParseState}

theorem bind {step : Parse α} {next : α → Parse β} (h1 : Yields step setting s first s1)
    (h2 : Yields (next first) setting s1 value t) : Yields (step >>= next) setting s value t :=
  yields_bind.2 ⟨first, s1, h1, h2⟩

theorem within {changes : List (Flag × Bool)} {step : Parse α} {next : α → Parse β}
    (h1 : Yields step setting (s.flagged changes) first s1)
    (h2 : Yields (next first) setting (s1.restoring s.book.context) value t) :
    Yields (Parse.within changes step >>= next) setting s value t :=
  yields_within_bind.2 ⟨first, s1, h1, h2⟩

variable {kind : TokenKind} {token : Token} {rest : List Token}

theorem next {after : Token → Parse β} (read : s.Next kind token rest)
    (h : Yields (after token) setting (s.leaving rest) value t) :
    Yields (Parse.next >>= after) setting s value t :=
  yields_next_bind.2 ⟨token, rest, read.eq, h⟩

theorem expect {after : Token → Parse β} (read : s.Next kind token rest)
    (h : Yields (after token) setting (s.leaving rest) value t) :
    Yields (Parse.expect kind >>= after) setting s value t :=
  yields_expect_bind.2 ⟨token, rest, read, h⟩

theorem eat {after : Option Token → Parse β} {found : Option Token}
    (eats : s.Eats kind found rest)
    (h : Yields (after found) setting (s.leaving rest) value t) :
    Yields (Parse.eat kind >>= after) setting s value t :=
  yields_eat_bind.2 ⟨found, rest, eats, h⟩

end Yields

end Parse

end Conformance.Dialect
