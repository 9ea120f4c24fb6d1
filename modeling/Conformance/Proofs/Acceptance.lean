import Conformance.Dialect.Parser
import Conformance.Proofs.Balance
import Conformance.Proofs.Completeness
import Conformance.Proofs.Placing

/-! The sources that a parser accepts: those whose tokens are statements up to the end. -/

namespace Conformance.Dialect

namespace ParseState

variable {s : ParseState}

/-- There is nothing to pass over. -/
theorem pastNewlines_eq (visible : s.kind? ≠ some .newline) : s.pastNewlines = s := by
  obtain ⟨_ | ⟨token, rest⟩, book, emitted⟩ := s
  · rfl
  · have other : token.kind ≠ .newline := by simpa [kind?] using visible
    simp [pastNewlines, leaving, other]

theorem pastTerminators_eq (visible : s.kind? ≠ some .newline)
    (visible' : s.kind? ≠ some .semicolon) : s.pastTerminators = s := by
  obtain ⟨_ | ⟨token, rest⟩, book, emitted⟩ := s
  · rfl
  · have other : token.kind ≠ .newline := by simpa [kind?] using visible
    have other' : token.kind ≠ .semicolon := by simpa [kind?] using visible'
    simp [pastTerminators, leaving, other, other']

/-- Where only terminators are left, a statement ends. -/
theorem breaks_of_pastTerminators (done : s.pastTerminators.rest = []) : s.Breaks := by
  obtain ⟨_ | ⟨token, rest⟩, book, emitted⟩ := s
  · exact nofun
  · rintro _ ⟨⟩
    by_cases terminator : token.kind = .newline ∨ token.kind = .semicolon
    · simpa using terminator
    · simp [pastTerminators, terminator] at done

/-- Where no token stops a body, there is none. -/
theorem rest_eq_nil (stops : s.Stops []) : s.rest = [] := by
  cases eq : s.rest with
  | nil => rfl
  | cons token rest =>
    have some : s.kind? = some token.kind := by simp [kind?, eq]
    cases stops token.kind some

end ParseState

namespace Grammar

/-! ### What a phrase leaves as it was -/

theorem Phrase.step_tidy (depth : Nat) (phrase : Phrase) :
    Parse.Tidy (phrase.step (derive depth)) := by
  have hsub := derive_tidy depth
  cases phrase with
  | of construct => exact hsub construct
  | primary => exact primary_tidy hsub
  | call receiver dot selector => exact call_tidy hsub receiver dot selector
  | actuals => exact actuals_tidy hsub
  | blockAfter target => exact blockAfter_tidy hsub target
  | argument first => exact argument_tidy hsub first
  | entry label => exact entry_tidy hsub label
  | clause => exact clause_tidy hsub

section Outline

variable {features : Features} {phrase : Phrase} {value : phrase.Result} {s t : ParseState}
  {parameters : Node × Bool}

theorem Derives.outline_eq (h : Derives features phrase s value t) :
    t.book.outline = s.book.outline := by
  have run : Parse.Yields _ ⟨features, .ofLength 0 0⟩ s value t := h.yields (Nat.le_refl _)
  exact (phrase.step_tidy _ s.book.outline _ s rfl).of_yields run

theorem Derives.nesting_eq (h : Derives features phrase s value t) :
    t.book.nesting = s.book.nesting := congrArg Outline.nesting h.outline_eq

theorem BlockParameters.nesting_eq (h : BlockParameters s parameters t) :
    t.book.nesting = s.book.nesting := by
  have run : Parse.Yields _ ⟨⟨true, true, true⟩, .ofLength 0 0⟩ s parameters t := h.yields
  have leads : Parse.Leads blockParameters (fun _ => True) s.book.outline s.book.outline :=
    blockParameters_leads trivial trivial
  exact congrArg Outline.nesting ((leads _ s rfl).of_yields run)

theorem ParenthesizedParameters.nesting_eq (h : ParenthesizedParameters s parameters t) :
    t.book.nesting = s.book.nesting := by
  have run : Parse.Yields _ ⟨⟨true, true, true⟩, .ofLength 0 0⟩ s parameters t := h.yields
  have leads : Parse.Leads parenthesizedParameters (fun _ => True) s.book.outline
      s.book.outline := parenthesizedParameters_leads trivial trivial
  exact congrArg Outline.nesting ((leads _ s rfl).of_yields run)

end Outline

/-- A phrase is read in one way only. -/
theorem Derives.unique {features : Features} {phrase : Phrase} {value value' : phrase.Result}
    {s t t' : ParseState} (h : Derives features phrase s value t)
    (h' : Derives features phrase s value' t') : value = value' ∧ t = t' := by
  have run : Parse.Yields _ ⟨features, .ofLength 0 0⟩ s value t := h.yields (Nat.le_refl _)
  have run' : Parse.Yields _ ⟨features, .ofLength 0 0⟩ s value' t' := h'.yields (Nat.le_refl _)
  cases run.symm.trans run'
  exact ⟨rfl, rfl⟩

/-! ### Programs -/

/-- Statements stop only where they may. -/
theorem Derives.stops {features : Features} {phrase : Phrase} {value : phrase.Result}
    {s t : ParseState} (h : Derives features phrase s value t) {stops : List TokenKind}
    (among : phrase = .of (.statements stops)) : t.Stops stops := by
  induction h with
  | noStatements stop =>
    cases among
    exact stop
  | lastStatement _ _ _ stop =>
    cases among
    exact stop
  | moreStatements _ _ _ _ _ ih =>
    cases among
    exact ih rfl
  | _ => cases among

/-- What a source with some tokens stands for: its statements, read in a scope of their own, and
the state after them. -/
def Program (features : Features) (tokens : List Token) (body : List Node) (after : ParseState) :
    Prop :=
  Derives features (.of (.statements [])) (({ rest := tokens } : ParseState).keeping
    (·.openScope false)) body after

/-- Every token is read. -/
theorem Program.rest_eq {features : Features} {tokens : List Token} {body : List Node}
    {after : ParseState} (h : Program features tokens body after) : after.rest = [] :=
  ParseState.rest_eq_nil (Derives.stops h rfl)

/-- The state before a source with some tokens. -/
def startOf (tokens : List Token) : ParseState :=
  ({ rest := tokens } : ParseState).keeping (·.openScope false)

/-- Statements that stand for a node of its own are that node. -/
theorem eq_singleton_of_sequence {body : List Node} {node : Node}
    (whole : sequence body = some node)
    (single : node.kind ≠ .begin) : body = [node] := by
  match body with
  | [] => cases whole
  | [_] =>
    cases whole
    rfl
  | _ :: _ :: _ =>
    cases whole
    exact absurd rfl single

/-- An expression has a first token. -/
theorem Derives.not_stops {features : Features} {node : Node} {s t : ParseState}
    (h : Derives features (.of .expression) s node t) : ¬ s.Stops [] := by
  have some : 0 < s.rest.length := Nat.lt_of_lt_of_le (Nat.succ_pos _) h.past.1
  obtain ⟨token, rest, eq⟩ := List.exists_cons_of_length_pos some
  rw [ParseState.not_stops_iff]
  exact ⟨token.kind, by simp [ParseState.kind?, eq], nofun⟩

/-- A program of one statement: an expression with nothing but terminators around it. -/
theorem program_single_iff {features : Features} {tokens : List Token} {node : Node}
    {after : ParseState} :
    Program features tokens [node] after ↔
      ∃ s, Derives features (.of .expression) (startOf tokens).pastTerminators node s ∧
        after = s.pastTerminators ∧ after.rest = [] := by
  constructor
  · intro h
    have done := h.rest_eq
    cases h with
    | lastStatement _ _ noBreak stop =>
      exact absurd (fun kind here => nomatch stop kind here) noBreak
    | moreStatements _ first _ more =>
      cases more
      exact ⟨_, first, rfl, done⟩
  · rintro ⟨s, first, rfl, done⟩
    have breaks : s.Breaks := ParseState.breaks_of_pastTerminators done
    have more : Derives features (.of (.statements [])) s [] s.pastTerminators :=
      .noStatements (by simp [ParseState.Stops, ParseState.kind?, done])
    exact .moreStatements first.not_stops first breaks more

/-- A program of an expression that starts with the first token. -/
theorem Program.of_expression {features : Features} {tokens : List Token} {node : Node}
    {after : ParseState} (h : Derives features (.of .expression) (startOf tokens) node after)
    (starts : ∀ kind ∈ (startOf tokens).kind?, kind ≠ .newline ∧ kind ≠ .semicolon)
    (done : after.rest = []) : Program features tokens [node] after := by
  have here : (startOf tokens).pastTerminators = startOf tokens :=
    ParseState.pastTerminators_eq (fun same => (starts _ same).1 rfl)
      fun same => (starts _ same).2 rfl
  have there : after.pastTerminators = after :=
    ParseState.pastTerminators_eq (by simp [ParseState.kind?, done])
      (by simp [ParseState.kind?, done])
  exact program_single_iff.2 ⟨after, here.symm ▸ h, there.symm, done⟩

theorem program_yields {features : Features} {finish : Span} {tokens : List Token}
    {tree : Option Node} {t : ParseState} :
    Parse.Yields (program tokens.length) ⟨features, finish⟩ { rest := tokens } tree t ↔
      ∃ body after, Program features tokens body after ∧ tree = sequence body ∧
        t = after.keeping .closeScope := by
  unfold program
  rw [Parse.yields_keep_bind]
  constructor
  · intro h
    obtain ⟨body, after, h1, h⟩ := Parse.yields_bind.1 h
    rw [Parse.yields_keep_bind] at h
    obtain ⟨rfl, rfl⟩ := Parse.yields_pure.1 h
    exact ⟨body, after, derives_of_yields _ h1, rfl, rfl⟩
  · rintro ⟨body, after, derived, rfl, rfl⟩
    have room : 8 * tokens.length + 4 ≤ depthFor tokens.length := by
      unfold depthFor
      omega
    have read : Parse.Yields _ ⟨features, finish⟩ _ body after := Derives.yields derived room
    exact .bind read (Parse.yields_keep_bind.2 (Parse.yields_pure.2 ⟨rfl, rfl⟩))

end Grammar

open Grammar in
/-- A source is accepted if its tokens are statements; these are the tree. -/
theorem parseSource_ok_iff {features : Features} {encoding : Encoding} {source : String}
    {tree : Option Node} {book : Bookkeeping} {emitted : List Diagnostic} :
    parseSource features encoding source = ⟨.ok tree, book, emitted⟩ ↔
      ∃ tokens body after, placed source.toList = .ok tokens ∧
        Program features tokens body after ∧ tree = sequence body ∧
        book = after.book.closeScope ∧ emitted = after.emitted := by
  unfold parseSource
  rw [tokenize_eq]
  cases placed source.toList with
  | error e =>
    refine iff_of_false (fun h => ?_) (by simp)
    cases e <;> cases h
  | ok tokens =>
    simp only [Except.ok.injEq]
    constructor
    · intro h
      unfold Outcome.ofStep at h
      split at h
      · rename_i value t yields
        cases h
        obtain ⟨body, after, derived, rfl, rfl⟩ := program_yields.1 yields
        exact ⟨tokens, body, after, rfl, derived, rfl, rfl, rfl⟩
      · cases h
    · rintro ⟨_, body, after, rfl, derived, rfl, rfl, rfl⟩
      have yields : Parse.Yields (program tokens.length)
          ⟨features, .ofLength source.toList.length 0⟩ _ _ _ :=
        program_yields.2 ⟨body, after, derived, rfl, rfl⟩
      unfold Outcome.ofStep
      rw [yields]
      rfl

namespace Parser

open Grammar

variable {parser : Parser} {source : String}

/-- An accepted source is a program, of which its tree are the statements. -/
theorem program_of_accepted {tree : Option Node} (accepted : (parser.parse source).1 = .ok tree) :
    ∃ tokens body after, placed source.toList = .ok tokens ∧
      Program parser.features tokens body after ∧ tree = sequence body ∧
      (parser.parse source).2.2 = after.emitted := by
  unfold Parser.parse at accepted ⊢
  cases outcome : parseSource parser.features parser.encoding source with
  | mk result book emitted =>
    rw [outcome] at accepted
    cases result with
    | error fault => cases accepted
    | ok found =>
      cases accepted
      obtain ⟨tokens, body, after, tokenized, derived, rfl, rfl, rfl⟩ :=
        parseSource_ok_iff.1 outcome
      exact ⟨tokens, body, after, tokenized, derived, rfl, rfl⟩

/-- A program is accepted. -/
theorem parse_of_program {tokens : List Token} {body : List Node} {after : ParseState}
    (tokenized : placed source.toList = .ok tokens)
    (derived : Program parser.features tokens body after) :
    parser.parse source =
      (.ok (sequence body), { parser with book := after.book.closeScope }, after.emitted) := by
  unfold Parser.parse
  rw [parseSource_ok_iff.2 ⟨tokens, body, after, tokenized, derived, rfl, rfl, rfl⟩]
  rfl

end Parser

end Conformance.Dialect
