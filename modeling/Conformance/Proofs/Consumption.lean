import Conformance.Proofs.Reading
import Conformance.Proofs.Rules

/-! How many tokens a phrase reads at least, and that no phrase reads an arrow where there are no
lambda literals. -/

namespace Conformance.Dialect

theorem past_dropWhile (p : Token → Bool) (tokens : List Token) :
    Past 0 tokens (tokens.dropWhile p) :=
  have suffix : tokens.dropWhile p <:+ tokens := List.dropWhile_suffix _
  ⟨suffix.length_le, suffix⟩

theorem past_newlines (tokens : List Token) :
    Past 0 tokens (tokens.dropWhile fun token => token.kind == .newline) := past_dropWhile _ _

theorem past_terminators (tokens : List Token) :
    Past 0 tokens
      (tokens.dropWhile fun token => token.kind == .newline || token.kind == .semicolon) :=
  past_dropWhile _ _

/-- After at least `k` tokens; without lambda literals no arrow is among them. -/
structure Consumes (features : Features) (k : Nat) (before after : List Token) : Prop where
  past : Past k before after
  arrowless : features.lambda = false → (∀ token ∈ after, token.kind ≠ .arrow) →
    ∀ token ∈ before, token.kind ≠ .arrow

namespace Consumes

variable {features : Features} {j k : Nat} {a b c : List Token}

theorem refl (tokens : List Token) : Consumes features 0 tokens tokens :=
  ⟨.refl _, fun _ none => none⟩

/-- What comes after does not make a phrase shorter. -/
theorem trans (h1 : Consumes features j a b) (h2 : Consumes features k b c) :
    Consumes features j a c where
  past := (h1.past.trans h2.past).weaken (Nat.le_add_right _ _)
  arrowless off none := h1.arrowless off (h2.arrowless off none)

theorem any (h : Consumes features k a b) : Consumes features 0 a b :=
  ⟨h.past.weaken (Nat.zero_le _), h.arrowless⟩

/-- No arrow is passed over. -/
theorem of_dropWhile {p : Token → Bool} (h : ∀ token, p token = true → token.kind ≠ .arrow)
    (tokens : List Token) : Consumes features 0 tokens (tokens.dropWhile p) := by
  refine ⟨past_dropWhile p tokens, fun _ none token mem => ?_⟩
  rw [← List.takeWhile_append_dropWhile (p := p) (l := tokens)] at mem
  obtain passed | left := List.mem_append.1 mem
  · exact h token (List.all_eq_true.1 List.all_takeWhile token passed)
  · exact none token left

theorem newlines (tokens : List Token) :
    Consumes features 0 tokens (tokens.dropWhile fun token => token.kind == .newline) :=
  of_dropWhile (fun token newline arrow => by simp [arrow] at newline) _

theorem terminators (tokens : List Token) :
    Consumes features 0 tokens
      (tokens.dropWhile fun token => token.kind == .newline || token.kind == .semicolon) :=
  of_dropWhile (fun token terminator arrow => by simp [arrow] at terminator) _

end Consumes

namespace ParseState

variable {features : Features} {s : ParseState} {kind : TokenKind} {token : Token}
  {rest : List Token}

theorem Next.past (next : s.Next kind token rest) : Past 1 s.rest rest := by
  rw [next.eq]
  exact .of_cons _ _

theorem Next.consumes (next : s.Next kind token rest) (h : kind ≠ .arrow) :
    Consumes features 1 s.rest rest := by
  refine ⟨next.past, fun _ none => ?_⟩
  rw [next.eq, List.forall_mem_cons, next.kind_eq]
  exact ⟨h, none⟩

theorem Next.consumes_of_lambda (next : s.Next kind token rest) (on : features.lambda = true) :
    Consumes features 1 s.rest rest :=
  ⟨next.past, fun off => by simp [on] at off⟩

theorem Eats.past {found : Option Token} (eats : s.Eats kind found rest) :
    Past 0 s.rest rest := by
  cases eats with
  | none _ => exact .refl _
  | some next => exact next.past.weaken (Nat.zero_le _)

theorem Eats.consumes {found : Option Token} (eats : s.Eats kind found rest)
    (h : kind ≠ .arrow) : Consumes features 0 s.rest rest := by
  cases eats with
  | none _ => exact .refl _
  | some next => exact (next.consumes h).any

end ParseState

namespace Grammar

variable {features : Features} {s t : ParseState}

theorem Names.consumes {close : TokenKind} {seen : List String} {nodes : List Node}
    (h : Names close seen s nodes t) : Consumes features 0 s.rest t.rest := by
  induction h with
  | none _ => exact .refl _
  | last name _ _ => exact (name.consumes (by decide)).any
  | more name _ comma _ ih =>
    exact (((name.consumes (by decide)).trans (comma.consumes (by decide))).trans ih).any

theorem ParameterList.consumes {close : TokenKind} {nodes : List Node}
    (h : ParameterList close s nodes t) : Consumes features 0 s.rest t.rest := by
  cases h with
  | intro names => exact names.consumes

theorem BlockParameters.consumes {parameters : Node × Bool}
    (h : BlockParameters s parameters t) : Consumes features 0 s.rest t.rest := by
  cases h with
  | bars bars => exact (bars.consumes (by decide)).any
  | none _ _ => exact .refl _
  | list first list last =>
    exact (((first.consumes (by decide)).trans list.consumes).trans
      (last.consumes (by decide))).any

theorem ParenthesizedParameters.consumes {parameters : Node × Bool}
    (h : ParenthesizedParameters s parameters t) : Consumes features 0 s.rest t.rest := by
  cases h with
  | none _ => exact .refl _
  | list first list last =>
    exact (((first.consumes (by decide)).trans list.consumes).trans
      (last.consumes (by decide))).any

theorem BlockParameters.past {parameters : Node × Bool} (h : BlockParameters s parameters t) :
    Past 0 s.rest t.rest :=
  have read : Consumes ⟨true, true, true⟩ 0 s.rest t.rest := h.consumes
  read.past

theorem ParenthesizedParameters.past {parameters : Node × Bool}
    (h : ParenthesizedParameters s parameters t) :
    Past 0 s.rest t.rest :=
  have read : Consumes ⟨true, true, true⟩ 0 s.rest t.rest := h.consumes
  read.past

/-- How many tokens a phrase has at least. -/
def Phrase.least : Phrase → Nat
  | .of (.statements _) | .of (.operatorsAfter _ _) | .of (.callsAfter _) | .of .entries
  | .of .clauses => 0
  | .of _ | .primary | .argument _ | .clause => 1
  | .call _ _ _ | .actuals | .blockAfter _ | .entry _ => 0

theorem ne_arrow_of_bindingPower? {kind : TokenKind} {power : Nat}
    (h : bindingPower? kind = some power) : kind ≠ .arrow := by
  rintro rfl
  cases h

theorem ne_arrow_of_keywordValue? {kind : TokenKind} {value : NodeKind}
    (h : keywordValue? kind = some value) : kind ≠ .arrow := by
  rintro rfl
  cases h

theorem ne_arrow_of_argumentSign? {kind : TokenKind} {sign : NodeKind}
    (h : argumentSign? (some kind) = some sign) : kind ≠ .arrow := by
  rintro rfl
  cases h

/-- A block opens and closes with braces, or with `do` and `end`. -/
theorem blockClose?_eq_some {close : TokenKind} (h : blockClose? s = some close) :
    s.kind? = some .lbrace ∧ close = .rbrace ∨ s.kind? = some .kwDo ∧ close = .kwEnd := by
  unfold blockClose? at h
  split at h
  · cases h
    exact .inl ⟨‹_›, rfl⟩
  · split at h
    · cases h
    · cases h
      exact .inr ⟨‹_›, rfl⟩
  · cases h

theorem Derives.consumes {phrase : Phrase} {value : phrase.Result}
    (h : Derives features phrase s value t) :
    Consumes features phrase.least s.rest t.rest := by
  induction h with
  | noStatements _ => exact .terminators _
  | lastStatement _ _ _ _ ih => exact (Consumes.terminators _).trans ih
  | moreStatements _ _ _ _ ih1 ih2 => exact ((Consumes.terminators _).trans ih1).trans ih2
  | assignment name operator _ ih =>
    exact (((name.consumes (by decide)).trans (operator.consumes (by decide))).trans
      (.newlines _)).trans ih
  | unassigned _ _ ih => exact ih
  | operators _ _ ih1 ih2 => exact ih1.trans ih2
  | noOperator _ => exact .refl _
  | operator binds _ operator _ _ ih1 ih2 =>
    exact ((((operator.consumes (ne_arrow_of_bindingPower? binds)).trans (.newlines _)).trans
      ih1).trans ih2).any
  | negative sign digits _ _ =>
    exact (sign.consumes (by decide)).trans (digits.consumes (by decide))
  | minus sign _ _ ih => exact (sign.consumes (by decide)).trans ih
  | bang sign _ ih => exact (sign.consumes (by decide)).trans ih
  | chain _ _ _ _ ih1 ih2 => exact ih1.trans ih2
  | integer token _ => exact token.consumes (by decide)
  | string token => exact token.consumes (by decide)
  | symbol token => exact token.consumes (by decide)
  | keyword value token => exact token.consumes (ne_arrow_of_keywordValue? value)
  | constant token => exact token.consumes (by decide)
  | adjacentCall token _ _ ih => exact (token.consumes (by decide)).trans ih
  | numberedVariable token _ _ => exact token.consumes (by decide)
  | localVariable token _ _ _ => exact token.consumes (by decide)
  | wordCall token _ _ _ _ ih => exact (token.consumes (by decide)).trans ih
  | parenthesized first _ last ih =>
    exact ((first.consumes (by decide)).trans ih).trans (last.consumes (by decide))
  | lambda on arrow parameters _ first _ last ih =>
    exact ((((arrow.consumes_of_lambda on).trans parameters.consumes).trans
      (first.consumes_of_lambda on)).trans ih).trans (last.consumes_of_lambda on)
  | method keyword name parameters _ last ih =>
    exact ((((keyword.consumes (by decide)).trans (name.consumes (by decide))).trans
      parameters.consumes).trans ih).trans (last.consumes (by decide))
  | classDefinition keyword _ name _ last ih =>
    exact (((keyword.consumes (by decide)).trans (name.consumes (by decide))).trans ih).trans
      (last.consumes (by decide))
  | whileLoop keyword _ opener _ _ last ih1 ih2 =>
    exact ((((keyword.consumes (by decide)).trans ih1).trans (opener.consumes (by decide))).trans
      ih2).trans (last.consumes (by decide))
  | definedWord keyword _ _ ih => exact (keyword.consumes (by decide)).trans ih
  | definedParens keyword first _ last ih =>
    exact (((((keyword.consumes (by decide)).trans (first.consumes (by decide))).trans
      (.newlines _)).trans ih).trans (.newlines _)).trans (last.consumes (by decide))
  | caseMatch _ keyword _ _ _ last ih1 ih2 =>
    exact ((((keyword.consumes (by decide)).trans ih1).trans (.terminators _)).trans ih2).trans
      (last.consumes (by decide))
  | caseElse _ keyword _ _ _ alternative _ last ih1 ih2 ih3 =>
    exact ((((((keyword.consumes (by decide)).trans ih1).trans (.terminators _)).trans ih2).trans
      (alternative.consumes (by decide))).trans ih3).trans (last.consumes (by decide))
  | noCall _ => exact .refl _
  | dotCall dot selector _ _ ih1 ih2 =>
    exact ((((dot.consumes (by decide)).trans (selector.consumes (by decide))).trans ih1).trans
      ih2).any
  | call _ _ ih1 ih2 => exact ih1.trans ih2
  | emptyParens first _ last =>
    exact (((first.consumes (by decide)).trans (.newlines _)).trans
      (last.consumes (by decide))).any
  | parens first _ _ _ last ih =>
    exact (((((first.consumes (by decide)).trans (.newlines _)).trans ih).trans
      (.newlines _)).trans (last.consumes (by decide))).any
  | commandArguments _ _ _ ih => exact ih.any
  | noActuals _ _ => exact .refl _
  | lastArgument _ _ ih => exact ih
  | moreArguments _ comma _ ih1 ih2 =>
    exact ((ih1.trans (comma.consumes (by decide))).trans (.newlines _)).trans ih2
  | plainArgument _ _ ih => exact ih
  | @signedArgument first _ _ _ _ _ _ _ sign operator _ ih =>
    have read := (operator.consumes (ne_arrow_of_argumentSign? sign)).trans ih
    cases first <;> exact read
  | noBlock _ => exact .refl _
  | @block s _ _ _ _ _ _ _ _ _ _ closes first parameters _ last ih =>
    obtain ⟨opens, rfl⟩ | ⟨opens, rfl⟩ := blockClose?_eq_some closes
    all_goals
      have opener : s.Next _ _ _ := ⟨first, by simpa [ParseState.kind?, first] using opens⟩
      exact ((((opener.consumes (by decide)).trans parameters.consumes).trans ih).trans
        (last.consumes (by decide))).any
  | variablePattern token _ => exact token.consumes (by decide)
  | hashPattern first _ last ih =>
    exact ((((first.consumes (by decide)).trans (.newlines _)).trans ih).trans
      (.newlines _)).trans (last.consumes (by decide))
  | valuePattern _ _ ih => exact ih
  | noEntries _ => exact .refl _
  | lastEntry label _ _ ih => exact ((label.consumes (by decide)).trans ih).any
  | moreEntries label _ comma _ ih1 ih2 =>
    exact (((((label.consumes (by decide)).trans ih1).trans (comma.consumes (by decide))).trans
      (.newlines _)).trans ih2).any
  | bareEntry _ _ _ => exact .refl _
  | pairEntry _ _ _ ih => exact ih.any
  | noClauses _ => exact .refl _
  | moreClauses _ _ ih1 ih2 => exact (ih1.trans ih2).any
  | clause keyword _ same opener _ _ ih1 ih2 =>
    subst same
    exact (((keyword.consumes (by decide)).trans ih1).trans (opener.consumes (by decide))).trans ih2

theorem Derives.past {phrase : Phrase} {value : phrase.Result}
    (h : Derives features phrase s value t) : Past phrase.least s.rest t.rest := h.consumes.past

end Grammar

end Conformance.Dialect
