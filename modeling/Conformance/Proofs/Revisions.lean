import Conformance.Proofs.Acceptance
import Conformance.Proofs.Idle

/-! Revisions of the language are conservative: a version that can do more gives an accepted source
the same tree, unless the source has a name that the version takes for a numbered parameter. -/

namespace Conformance.Dialect

/-- Each part of the language that `older` has is also in `newer`. -/
structure Features.Within (older newer : Features) : Prop where
  lambda : older.lambda = true → newer.lambda = true
  numberedParameters : older.numberedParameters = true → newer.numberedParameters = true
  patternMatching : older.patternMatching = true → newer.patternMatching = true

namespace Grammar

variable {older newer : Features} {s t : ParseState} {phrase : Phrase}

/-- Tokens without a numbered parameter and, where there are no lambda literals, without an
arrow. -/
structure Plain (features : Features) (tokens : List Token) : Prop where
  unnumbered : ∀ token ∈ tokens, token.kind = .identifier → token.text ∉ numberedNames
  arrowless : features.lambda = false → ∀ token ∈ tokens, token.kind ≠ .arrow

theorem Plain.on {k : Nat} {a b : List Token} (plain : Plain older a) (past : Past k a b) :
    Plain older b where
  unnumbered token mem := plain.unnumbered token (past.2.mem mem)
  arrowless off token mem := plain.arrowless off token (past.2.mem mem)

theorem numberedUse?_eq_none {features : Features} {book : Bookkeeping} {name : String}
    (unnumbered : name ∉ numberedNames) : numberedUse? features book name = none := by
  have none : parameterNumber? name = none := by
    simpa [mem_numberedNames] using unnumbered
  unfold numberedUse?
  rw [none]
  split <;> rfl

theorem startsCommand_eq (within : older.Within newer) {tokens : List Token}
    (plain : Plain older tokens) : startsCommand newer tokens = startsCommand older tokens := by
  cases tokens with
  | nil => rfl
  | cons token rest =>
    have same :
        (token.kind == .arrow && newer.lambda) = (token.kind == .arrow && older.lambda) := by
      cases on : older.lambda with
      | true => rw [within.lambda on]
      | false =>
        have other := plain.arrowless on token (.head _)
        simp [other]
    simp only [startsCommand, same]

theorem Plain.unnumbered_next {token : Token} {rest : List Token} (plain : Plain older s.rest)
    (next : s.Next .identifier token rest) : token.text ∉ numberedNames := by
  refine plain.unnumbered token ?_ next.kind_eq
  rw [next.eq]
  exact .head _

theorem Derives.within {value : phrase.Result} (h : Derives older phrase s value t)
    (within : older.Within newer) (plain : Plain older s.rest) :
    Derives newer phrase s value t := by
  induction h with
  | noStatements stop => exact .noStatements stop
  | lastStatement starts _ goes stop ih =>
    exact .lastStatement starts (ih (plain.on (past_terminators _))) goes stop
  | moreStatements starts h1 breaks _ ih1 ih2 =>
    have past := (past_terminators _).on h1.past
    exact .moreStatements starts (ih1 (plain.on (past_terminators _))) breaks (ih2 (plain.on past))
  | assignment name operator _ ih =>
    have past := (name.past.on operator.past).on (past_newlines _)
    exact .assignment name operator (ih (plain.on past))
  | unassigned apart _ ih => exact .unassigned apart (ih plain)
  | operators h1 _ ih1 ih2 => exact .operators (ih1 plain) (ih2 (plain.on h1.past))
  | noOperator loose => exact .noOperator loose
  | operator binds tighter operator h1 _ ih1 ih2 =>
    have past := operator.past.on (past_newlines _)
    exact .operator binds tighter operator (ih1 (plain.on past)) (ih2 (plain.on (past.on h1.past)))
  | negative sign digits together value => exact .negative sign digits together value
  | minus sign apart _ ih => exact .minus sign apart (ih (plain.on sign.past))
  | bang sign _ ih => exact .bang sign (ih (plain.on sign.past))
  | chain noMinus noBang h1 _ ih1 ih2 =>
    exact .chain noMinus noBang (ih1 plain) (ih2 (plain.on h1.past))
  | integer token value => exact .integer token value
  | string token => exact .string token
  | symbol token => exact .symbol token
  | keyword value token => exact .keyword value token
  | constant token => exact .constant token
  | adjacentCall token adjacent _ ih =>
    exact .adjacentCall token adjacent (ih (plain.on token.past))
  | numberedVariable token _ use =>
    rw [numberedUse?_eq_none (plain.unnumbered_next token)] at use
    cases use
  | localVariable token apart _ visible =>
    exact .localVariable token apart (numberedUse?_eq_none (plain.unnumbered_next token)) visible
  | wordCall token apart _ hidden _ ih =>
    exact .wordCall token apart (numberedUse?_eq_none (plain.unnumbered_next token)) hidden
      (ih (plain.on token.past))
  | parenthesized first _ last ih => exact .parenthesized first (ih (plain.on first.past)) last
  | lambda on arrow parameters closes first _ last ih =>
    have past := (arrow.past.on parameters.past).on first.past
    exact .lambda (within.lambda on) arrow parameters closes first (ih (plain.on past)) last
  | method keyword name parameters _ last ih =>
    have past := (keyword.past.on name.past).on parameters.past
    exact .method keyword name parameters (ih (plain.on past)) last
  | classDefinition keyword outside name _ last ih =>
    have past := keyword.past.on name.past
    exact .classDefinition keyword outside name (ih (plain.on past)) last
  | whileLoop keyword h1 opener opened _ last ih1 ih2 =>
    have past := (keyword.past.on h1.past).on opener.past
    exact .whileLoop keyword (ih1 (plain.on keyword.past)) opener opened (ih2 (plain.on past)) last
  | definedWord keyword noParen _ ih =>
    exact .definedWord keyword noParen (ih (plain.on keyword.past))
  | definedParens keyword first _ last ih =>
    have past := (keyword.past.on first.past).on (past_newlines _)
    exact .definedParens keyword first (ih (plain.on past)) last
  | caseMatch on keyword h1 starts _ last ih1 ih2 =>
    have past := (keyword.past.on h1.past).on (past_terminators _)
    exact .caseMatch (within.patternMatching on) keyword (ih1 (plain.on keyword.past)) starts
      (ih2 (plain.on past)) last
  | caseElse on keyword h1 starts h2 alternative _ last ih1 ih2 ih3 =>
    have past := (keyword.past.on h1.past).on (past_terminators _)
    have past' := (past.on h2.past).on alternative.past
    exact .caseElse (within.patternMatching on) keyword (ih1 (plain.on keyword.past)) starts
      (ih2 (plain.on past)) alternative (ih3 (plain.on past')) last
  | noCall absent => exact .noCall absent
  | dotCall dot selector h1 _ ih1 ih2 =>
    have past := dot.past.on selector.past
    exact .dotCall dot selector (ih1 (plain.on past)) (ih2 (plain.on (past.on h1.past)))
  | call h1 _ ih1 ih2 => exact .call (ih1 plain) (ih2 (plain.on h1.past))
  | emptyParens first adjacent last => exact .emptyParens first adjacent last
  | parens first adjacent some _ last ih =>
    have past := first.past.on (past_newlines _)
    exact .parens first adjacent some (ih (plain.on past)) last
  | commandArguments apart starts _ ih =>
    rw [← startsCommand_eq within plain] at starts
    exact .commandArguments apart starts (ih plain)
  | noActuals apart starts =>
    rw [← startsCommand_eq within plain] at starts
    exact .noActuals apart starts
  | lastArgument _ noComma ih => exact .lastArgument (ih plain) noComma
  | moreArguments h1 comma _ ih1 ih2 =>
    have past := (h1.past.on comma.past).on (past_newlines _)
    exact .moreArguments (ih1 plain) comma (ih2 (plain.on past))
  | plainArgument noSign _ ih => exact .plainArgument noSign (ih plain)
  | signedArgument sign operator _ ih =>
    exact .signedArgument sign operator (ih (plain.on operator.past))
  | noBlock noClose => exact .noBlock noClose
  | @block s _ _ _ _ first _ r1 _ _ _ closes read parameters _ last ih =>
    have opener : s.Next first.kind first r1 := ⟨read, rfl⟩
    have past := opener.past.on parameters.past
    exact .block closes read parameters (ih (plain.on past)) last
  | variablePattern token binds => exact .variablePattern token binds
  | hashPattern first _ last ih =>
    have past := first.past.on (past_newlines _)
    exact .hashPattern first (ih (plain.on past)) last
  | valuePattern starts _ ih => exact .valuePattern starts (ih plain)
  | noEntries absent => exact .noEntries absent
  | lastEntry label _ noComma ih => exact .lastEntry label (ih (plain.on label.past)) noComma
  | moreEntries label h1 comma _ ih1 ih2 =>
    have past := ((label.past.on h1.past).on comma.past).on (past_newlines _)
    exact .moreEntries label (ih1 (plain.on label.past)) comma (ih2 (plain.on past))
  | bareEntry enters ends binds => exact .bareEntry enters ends binds
  | pairEntry enters goes _ ih => exact .pairEntry enters goes (ih plain)
  | noClauses absent => exact .noClauses absent
  | moreClauses h1 _ ih1 ih2 => exact .moreClauses (ih1 plain) (ih2 (plain.on h1.past))
  | clause keyword h1 same opener opened _ ih1 ih2 =>
    have past : Past 1 _ _ := keyword.past.on h1.past
    subst same
    exact .clause keyword (ih1 (plain.on keyword.past)) rfl opener opened
      (ih2 (plain.on (past.on opener.past)))

/-- The statements of a source stay what they are. -/
theorem Program.within {tokens : List Token} {body : List Node} {after : ParseState}
    (derived : Program older tokens body after) (within : older.Within newer)
    (unnumbered : ∀ token ∈ tokens, token.kind = .identifier → token.text ∉ numberedNames) :
    Program newer tokens body after := by
  have none : ∀ token ∈ after.rest, token.kind ≠ .arrow := by simp [derived.rest_eq]
  have arrowless : older.lambda = false → ∀ token ∈ tokens, token.kind ≠ .arrow :=
    fun off => (Derives.consumes derived).arrowless off none
  exact Derives.within derived within ⟨unnumbered, arrowless⟩

end Grammar

/-- If a version can do all that another one can, then it accepts what the other one accepts, with
the same tree and the same diagnostics, unless a name in the source is that of a numbered
parameter. -/
theorem Parser.parse_conservative {older newer : Parser} {source : String} {tree : Option Node}
    (within : older.features.Within newer.features)
    (unnumbered : ∀ tokens, tokenize older.encoding source = .ok tokens →
      ∀ token ∈ tokens, token.kind = .identifier → token.text ∉ numberedNames)
    (accepted : (older.parse source).1 = .ok tree) :
    (newer.parse source).1 = .ok tree ∧
      (newer.parse source).2.2 = (older.parse source).2.2 := by
  obtain ⟨tokens, body, after, tokenized, derived, rfl, reported⟩ :=
    Parser.program_of_accepted accepted
  have plain := unnumbered tokens ((tokenize_eq older.encoding source).trans tokenized)
  rw [reported, Parser.parse_of_program tokenized (derived.within within plain)]
  exact ⟨rfl, rfl⟩

/-- A parser of the oldest revision. -/
def Parser.oldest : Parser := { version := ⟨"1.8"⟩, features := ⟨false, false, false⟩ }

/-- The newest revision reads a command with a block as the oldest one does, the warning of its
first argument and the recorded flags included. -/
theorem Parser.parse_conservative_command :
    let source := "foo *bar \x7b |x| get_context x \x7d"
    (Parser.newest.parse source).1 = (Parser.oldest.parse source).1 ∧
      (Parser.newest.parse source).2.2 = (Parser.oldest.parse source).2.2 ∧
      (Parser.oldest.parse source).1.toOption.isSome = true := by
  intro source
  have accepted : (Parser.oldest.parse source).1.toOption.isSome = true := by decide +kernel
  have unnumbered : ∀ tokens, tokenize .utf8 source = .ok tokens →
      ∀ token ∈ tokens, token.kind = .identifier → token.text ∉ numberedNames := by
    have found : (tokenize .utf8 source).toOption.all fun tokens =>
        tokens.all fun token => token.kind != .identifier || token.text ∉ numberedNames := by
      decide +kernel
    intro tokens ok token mem name
    rw [ok] at found
    have free := List.all_eq_true.1 found token mem
    simpa [name] using free
  cases ok : (Parser.oldest.parse source).1 with
  | error fault =>
    rw [ok] at accepted
    cases accepted
  | ok tree =>
    have within : Parser.oldest.features.Within Parser.newest.features :=
      ⟨fun _ => rfl, fun _ => rfl, fun _ => rfl⟩
    have same := Parser.parse_conservative within unnumbered ok
    exact ⟨same.1, same.2, rfl⟩

end Conformance.Dialect
