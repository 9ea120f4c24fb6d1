import Conformance.Proofs.Acceptance
import Conformance.Proofs.Moving

/-! States among other tokens: the tokens stand later, a line break and more follow them, and
diagnostics have been reported before. What a parser looks at in a state is the same there, and so
are the parameters that it reads. -/

namespace Conformance.Dialect

/-- What stands around some tokens and diagnostics: the tokens stand `shift` characters later and
`after` follows them, and `before` has been reported. -/
structure Surroundings where
  shift : Nat
  after : List Token := []
  before : List Diagnostic := []
  /-- What follows starts with a line break. -/
  breaks : ∀ token ∈ after.head?, token.kind = .newline

namespace Surroundings

variable (e : Surroundings)

def tokens (rest : List Token) : List Token := rest.map (Token.moved e.shift) ++ e.after

/-- There are tokens left, or none after them: where the phrases of a line may end. -/
def Apart (rest : List Token) : Prop := rest = [] → e.after = []

variable {e} {k : Nat} {a b : List Token} {token : Token}

theorem Apart.of_past (apart : e.Apart b) (past : Past k a b) : e.Apart a := by
  rintro rfl
  exact apart (List.suffix_nil.1 past.2)

theorem apart_of_past (past : Past (k + 1) a b) : e.Apart a := by
  rintro rfl
  exact absurd past.1 (by simp)

theorem tokens_dropWhile (p : TokenKind → Bool)
    (apart : e.Apart (a.dropWhile fun token => p token.kind)) :
    (e.tokens a).dropWhile (fun token => p token.kind) =
      e.tokens (a.dropWhile fun token => p token.kind) := by
  have moved : (a.map (Token.moved e.shift)).dropWhile (fun token => p token.kind) =
      (a.dropWhile fun token => p token.kind).map (Token.moved e.shift) := List.dropWhile_map ..
  unfold tokens
  rw [List.dropWhile_append, moved]
  cases left : a.dropWhile fun token => p token.kind with
  | nil =>
    rw [apart left]
    rfl
  | cons token rest => rfl

theorem tokens_dropWhile_dropWhile (p : TokenKind → Bool) :
    (e.tokens (a.dropWhile fun token => p token.kind)).dropWhile (fun token => p token.kind) =
      (e.tokens a).dropWhile fun token => p token.kind := by
  induction a with
  | nil => rfl
  | cons token rest ih =>
    rw [List.dropWhile_cons]
    split
    · rename_i passed
      rw [ih, tokens, tokens, List.map_cons, List.cons_append, List.dropWhile_cons,
        if_pos (show p (token.moved e.shift).kind = true from passed)]
    · rfl

end Surroundings

namespace ParseState

variable (e : Surroundings) (s : ParseState)

/-- A state with something around its tokens and its diagnostics. -/
def amid : ParseState where
  rest := e.tokens s.rest
  book := s.book
  emitted := e.before ++ s.emitted.map (Diagnostic.moved e.shift)

section Parts

variable (rest : List Token) (change : Bookkeeping → Bookkeeping) (renest : Nesting → Nesting)
  (changes : List (Flag × Bool)) (context : Flags) (d : Diagnostic)

@[simp] theorem amid_book : (s.amid e).book = s.book := rfl

@[simp] theorem amid_leaving :
    (s.leaving rest).amid e = (s.amid e).leaving (e.tokens rest) := rfl

@[simp] theorem amid_keeping :
    (s.keeping change).amid e = (s.amid e).keeping change := rfl

@[simp] theorem amid_nested : (s.nested renest).amid e = (s.amid e).nested renest := rfl

@[simp] theorem amid_flagged :
    (s.flagged changes).amid e = (s.amid e).flagged changes := rfl

@[simp] theorem amid_restoring :
    (s.restoring context).amid e = (s.amid e).restoring context := rfl

@[simp] theorem amid_reporting :
    (s.reporting d).amid e = (s.amid e).reporting (d.moved e.shift) := by
  simp [amid, reporting]

theorem amid_reporting_if (reports : Bool) :
    (if reports then s.reporting d else s).amid e =
      if reports then (s.amid e).reporting (d.moved e.shift) else s.amid e := by
  cases reports
  · rfl
  · exact amid_reporting e s d

end Parts

variable {e s} {kind : TokenKind} {token : Token} {rest : List Token}

theorem amid_pastNewlines (apart : e.Apart s.pastNewlines.rest) :
    s.pastNewlines.amid e = (s.amid e).pastNewlines :=
  congrArg (s.amid e).leaving
    (Surroundings.tokens_dropWhile (· == .newline) apart).symm

theorem amid_pastTerminators (apart : e.Apart s.pastTerminators.rest) :
    s.pastTerminators.amid e = (s.amid e).pastTerminators :=
  congrArg (s.amid e).leaving
    (Surroundings.tokens_dropWhile (fun kind => kind == .newline || kind == .semicolon)
      apart).symm

theorem pastTerminators_amid_pastTerminators :
    (s.pastTerminators.amid e).pastTerminators = (s.amid e).pastTerminators :=
  congrArg (s.amid e).leaving
    (Surroundings.tokens_dropWhile_dropWhile fun kind => kind == .newline || kind == .semicolon)

/-- At the end of the tokens a line break may follow. -/
theorem kind?_amid :
    (s.amid e).kind? = s.kind? ∨ s.rest = [] ∧ (s.amid e).kind? = some .newline := by
  unfold kind? amid Surroundings.tokens
  dsimp only
  cases s.rest with
  | cons token rest => exact .inl rfl
  | nil =>
    rw [List.map_nil, List.nil_append]
    cases first : e.after.head? with
    | none => exact .inl rfl
    | some token => exact .inr ⟨rfl, congrArg some (e.breaks token first)⟩

theorem kind?_amid_of_some (h : s.kind? = some kind) : (s.amid e).kind? = some kind := by
  obtain same | ⟨none, -⟩ := kind?_amid (s := s) (e := e)
  · rw [same, h]
  · simp [kind?, none] at h

theorem kind?_amid_ne (h : s.kind? ≠ some kind) (other : kind ≠ .newline) :
    (s.amid e).kind? ≠ some kind := by
  obtain same | ⟨-, newline⟩ := kind?_amid (s := s) (e := e)
  · rwa [same]
  · rw [newline]
    exact fun same => other (Option.some.inj same).symm

theorem kind?_amid_of_apart (apart : e.Apart s.rest) :
    (s.amid e).kind? = s.kind? := by
  obtain same | ⟨none, newline⟩ := kind?_amid (s := s) (e := e)
  · exact same
  · have nothing : (s.amid e).rest = [] := by
      simp [amid, Surroundings.tokens, none, apart none]
    simp [kind?, none, nothing]

theorem Next.amid (next : s.Next kind token rest) :
    (s.amid e).Next kind (token.moved e.shift) (e.tokens rest) where
  eq := by simp [ParseState.amid, Surroundings.tokens, next.eq]
  kind_eq := next.kind_eq

theorem Next.amid_inv {token : Token} {rest : List Token}
    (next : (s.amid e).Next kind token rest) (other : kind ≠ .newline) :
    ∃ before left, s.Next kind before left ∧ token = before.moved e.shift ∧
      rest = e.tokens left := by
  have first : s.kind? = some kind :=
    Decidable.byContradiction fun absent => kind?_amid_ne absent other next.kind?_eq
  cases read : s.rest with
  | nil => simp [kind?, read] at first
  | cons before left =>
    have eq := next.eq
    simp only [ParseState.amid, Surroundings.tokens, read, List.map_cons, List.cons_append,
      List.cons.injEq] at eq
    exact ⟨before, left, ⟨read, by simpa [kind?, read] using first⟩, eq.1.symm, eq.2.symm⟩

theorem Eats.amid {found : Option Token} (eats : s.Eats kind found rest) (other : kind ≠ .newline) :
    (s.amid e).Eats kind (found.map (Token.moved e.shift)) (e.tokens rest) := by
  cases eats with
  | none absent => exact .none (kind?_amid_ne absent other)
  | some next => exact .some next.amid

theorem Adjacent.amid (adjacent : s.Adjacent kind) : (s.amid e).Adjacent kind := by
  obtain ⟨token, rest, next, unspaced⟩ := adjacent
  exact ⟨_, _, next.amid, unspaced⟩

theorem not_adjacent_amid (apart : ¬ s.Adjacent kind) (other : kind ≠ .newline) :
    ¬ (s.amid e).Adjacent kind := by
  rintro ⟨token, rest, next, unspaced⟩
  obtain ⟨before, left, first, rfl, -⟩ := next.amid_inv other
  exact apart ⟨before, left, first, unspaced⟩

theorem not_assigns_amid (unassigned : ¬ s.Assigns) : ¬ (s.amid e).Assigns := by
  rintro ⟨name, operator, rest, next, assign⟩
  obtain ⟨before, left, first, -, eq⟩ := next.amid_inv (by decide)
  have second : ((s.leaving left).amid e).Next .assign operator rest := ⟨eq.symm, assign⟩
  obtain ⟨sign, more, second, -, -⟩ := second.amid_inv (by decide)
  exact unassigned (.intro first second)

theorem Stops.amid {stops : List TokenKind} (h : s.Stops stops) (apart : e.Apart s.rest) :
    (s.amid e).Stops stops := by
  rwa [Stops, kind?_amid_of_apart apart]

theorem not_stops_amid {stops : List TokenKind} (h : ¬ s.Stops stops) :
    ¬ (s.amid e).Stops stops := by
  rw [not_stops_iff] at h ⊢
  obtain ⟨kind, some, other⟩ := h
  exact ⟨kind, kind?_amid_of_some some, other⟩

theorem Breaks.amid (h : s.Breaks) : (s.amid e).Breaks := by
  obtain same | ⟨-, newline⟩ := kind?_amid (s := s) (e := e)
  · rwa [Breaks, Stops, same]
  · simp [Breaks, Stops, newline]

theorem Opened.amid {opener : Option Token} (h : s.Opened opener) :
    (s.amid e).Opened (opener.map (Token.moved e.shift)) := by
  obtain some | newline | semicolon := h
  · exact .inl (by simpa using some)
  · exact .inr (.inl (kind?_amid_of_some newline))
  · exact .inr (.inr (kind?_amid_of_some semicolon))

end ParseState

namespace Grammar

variable {e : Surroundings} {features : Features} {s t : ParseState}

theorem startsCommand_tokens (tokens : List Token) :
    startsCommand features (e.tokens tokens) = startsCommand features tokens := by
  unfold Surroundings.tokens
  match tokens with
  | [] =>
    rw [List.map_nil, List.nil_append]
    cases following : e.after with
    | nil => rfl
    | cons first rest =>
      have newline : first.kind = .newline := e.breaks first (by rw [following]; rfl)
      simp [startsCommand, newline, startsArgument, maySignArgument]
  | [token] =>
    cases following : e.after with
    | nil => rfl
    | cons first rest =>
      have newline : first.kind = .newline := e.breaks first (by rw [following]; rfl)
      simp [startsCommand, newline]
  | first :: second :: rest => rfl

theorem blockClose?_amid : blockClose? (s.amid e) = blockClose? s := by
  unfold blockClose?
  obtain same | ⟨none, newline⟩ := ParseState.kind?_amid (s := s) (e := e)
  · rw [same]
    rfl
  · have nothing : s.kind? = Option.none := by simp [ParseState.kind?, none]
    rw [newline, nothing]

/-! ### Parameters -/

theorem Names.amid {close : TokenKind} {seen : List String} {nodes : List Node}
    (h : Names close seen s nodes t) :
    Names close seen (s.amid e) (nodes.map (Node.moved e.shift)) (t.amid e) := by
  induction h with
  | none closes => exact .none (ParseState.kind?_amid_of_some closes)
  | last name fresh noComma =>
    rw [List.map_singleton, ← parameterNode_moved]
    exact .last name.amid fresh (ParseState.kind?_amid_ne noComma (by decide))
  | more name fresh comma _ ih =>
    rw [List.map_cons, ← parameterNode_moved]
    exact .more name.amid fresh comma.amid ih

theorem ParameterList.amid {close : TokenKind} {nodes : List Node}
    (h : ParameterList close s nodes t) :
    ParameterList close (s.amid e) (nodes.map (Node.moved e.shift)) (t.amid e) := by
  cases h with
  | intro names =>
    rw [ParseState.amid_restoring, ParseState.amid_keeping]
    exact .intro names.amid

theorem BlockParameters.amid {parameters : Node × Bool} (h : BlockParameters s parameters t) :
    BlockParameters (s.amid e) (parameters.1.moved e.shift, parameters.2)
      (t.amid e) := by
  cases h with
  | bars bars =>
    have h := BlockParameters.bars (bars.amid (e := e))
    simpa [Node.moved_located, Node.movedField, Span.moved_ofLength, Nat.add_right_comm] using h
  | none noBars noBar =>
    rw [noParametersNode_moved]
    exact .none (ParseState.kind?_amid_ne noBars (by decide))
      (ParseState.kind?_amid_ne noBar (by decide))
  | @list _ _ _ _ names _ first list last =>
    have h := BlockParameters.list first.amid list.amid (last.amid (e := e))
    rw [List.isEmpty_map] at h
    simpa [← parametersNode_moved] using h

theorem ParenthesizedParameters.amid {parameters : Node × Bool}
    (h : ParenthesizedParameters s parameters t) :
    ParenthesizedParameters (s.amid e) (parameters.1.moved e.shift, parameters.2)
      (t.amid e) := by
  cases h with
  | none absent =>
    rw [noParametersNode_moved]
    exact .none (ParseState.kind?_amid_ne absent (by decide))
  | list first list last =>
    have h := ParenthesizedParameters.list first.amid list.amid (last.amid (e := e))
    rw [List.isEmpty_map] at h
    simpa [← parametersNode_moved] using h

end Grammar

end Conformance.Dialect
