import Conformance.Dialect.Node.Reader
import Conformance.Proofs.Placing

/-! What a token's text is made of: each lexical rule takes characters of one form, so that names can
be written as symbols and integers have a value. -/

namespace Conformance.Dialect

open Text

/-- Characters that a tree can show as the name of a symbol. -/
def IsName (cs : List Char) : Prop := cs ≠ [] ∧ ∀ c ∈ cs, Node.isAtomChar c = true

-- Not through the quantifier over characters: deciding it could run through all of them.
instance (cs : List Char) : Decidable (IsName cs) :=
  @decidable_of_decidable_of_iff (cs ≠ [] ∧ cs.all Node.isAtomChar = true) _ _
    (and_congr_right' List.all_eq_true)

/-- The texts that the tokens of a kind have. -/
def TokenKind.Spells : TokenKind → List Char → Prop
  | .integer, cs => isDigits cs = true
  | .string, _ => True
  | .symbol, cs => IsName cs.tail
  | .label, cs => IsName cs.dropLast
  | .identifier, cs | .constant, cs => IsName cs
  | kind, cs => (kind, String.ofList cs) ∈ TokenKind.fixedTexts

/-! ### Characters of names -/

/-- The visible characters of ASCII are no blanks. -/
theorem isBlank_eq_false {c : Char} (h1 : 0x21 ≤ c.toNat) (h2 : c.toNat ≤ 0x7e) :
    isBlank c = false := by
  have space : c ≠ ' ' := by
    rintro rfl
    exact absurd h1 (by decide)
  simp only [isBlank, isSpace, wideBlanks, List.any_cons, List.any_nil, Bool.or_eq_false_iff,
    beq_eq_false_iff_ne, Bool.and_eq_false_iff, decide_eq_false_iff_not]
  refine ⟨⟨space, ?_⟩, ?_, ?_, ?_, ?_, ?_, ?_, ?_, ?_, trivial⟩ <;> omega

theorem isAtomChar_of_range {c : Char} (h1 : 0x2a ≤ c.toNat) (h2 : c.toNat ≤ 0x7e) :
    Node.isAtomChar c = true := by
  have opening : c ≠ '(' := by
    rintro rfl
    exact absurd h1 (by decide)
  have closing : c ≠ ')' := by
    rintro rfl
    exact absurd h1 (by decide)
  simp [Node.isAtomChar, isBlank_eq_false (by omega) h2, opening, closing]

theorem isAtomChar_of_isDigit {c : Char} (h : c.isDigit = true) : Node.isAtomChar c = true := by
  simp only [Char.isDigit, Bool.and_eq_true, decide_eq_true_eq, ge_iff_le,
    UInt32.le_iff_toNat_le] at h
  have h1 : 48 ≤ c.toNat := h.1
  have h2 : c.toNat ≤ 57 := h.2
  exact isAtomChar_of_range (by omega) (by omega)

theorem isAtomChar_of_isUpper {c : Char} (h : c.isUpper = true) : Node.isAtomChar c = true := by
  obtain ⟨lower, upper⟩ := of_decide_eq_true h
  have h1 : 65 ≤ c.toNat := UInt32.le_iff_toNat_le.1 lower
  have h2 : c.toNat ≤ 90 := UInt32.le_iff_toNat_le.1 upper
  exact isAtomChar_of_range (by omega) (by omega)

theorem isAtomChar_of_isLower {c : Char} (h : c.isLower = true) : Node.isAtomChar c = true := by
  obtain ⟨lower, upper⟩ := Bool.and_eq_true_iff.1 h
  have h1 : 97 ≤ c.toNat := UInt32.le_iff_toNat_le.1 (of_decide_eq_true lower)
  have h2 : c.toNat ≤ 122 := UInt32.le_iff_toNat_le.1 (of_decide_eq_true upper)
  exact isAtomChar_of_range (by omega) (by omega)

theorem isAtomChar_of_isAlpha {c : Char} (h : c.isAlpha = true) : Node.isAtomChar c = true := by
  obtain upper | lower := Bool.or_eq_true_iff.1 h
  · exact isAtomChar_of_isUpper upper
  · exact isAtomChar_of_isLower lower

theorem isAtomChar_of_isNameChar {c : Char} (h : isNameChar c = true) :
    Node.isAtomChar c = true := by
  simp only [isNameChar, Char.isAlphanum, Bool.or_eq_true, beq_iff_eq] at h
  obtain (alpha | digit) | rfl := h
  · exact isAtomChar_of_isAlpha alpha
  · exact isAtomChar_of_isDigit digit
  · decide

theorem isAtomChar_of_isNameStart {c : Char} (h : isNameStart c = true) :
    Node.isAtomChar c = true := by
  simp only [isNameStart, Bool.or_eq_true, beq_iff_eq] at h
  obtain lower | rfl := h
  · exact isAtomChar_of_isLower lower
  · decide

theorem isName_cons {c : Char} {cs : List Char} (h : Node.isAtomChar c = true)
    (hs : ∀ d ∈ cs, Node.isAtomChar d = true) : IsName (c :: cs) :=
  ⟨by simp, List.forall_mem_cons.2 ⟨h, hs⟩⟩

/-! ### What the rules take -/

theorem take_runLength (p : Char → Bool) (cs : List Char) :
    cs.take (runLength p cs) = cs.takeWhile p :=
  (List.prefix_iff_eq_take.1 (List.takeWhile_prefix p)).symm

/-- The characters of a run, and perhaps one more after it. -/
theorem mem_take_run {p q : Char → Bool} {cs : List Char} {d : Char}
    (h : d ∈ cs.take (runLength p cs + oneLength q (cs.drop (runLength p cs)))) :
    p d = true ∨ q d = true := by
  rw [List.take_add, take_runLength, List.mem_append] at h
  obtain run | one := h
  · exact .inl (List.all_eq_true.1 (List.all_takeWhile (p := p) (l := cs)) d run)
  · right
    revert one
    cases cs.drop (runLength p cs) with
    | nil => simp
    | cons c rest =>
      simp only [oneLength]
      split
      · rename_i hc
        simp only [List.take_succ_cons, List.take_zero, List.mem_singleton]
        rintro rfl
        exact hc
      · simp

theorem take_run_one {p q : Char → Bool} {cs : List Char}
    (h : oneLength q (cs.drop (runLength p cs)) = 1) :
    ∃ d, cs.take (runLength p cs + 1) = cs.takeWhile p ++ [d] := by
  rw [List.take_add, take_runLength]
  cases hd : cs.drop (runLength p cs) with
  | nil => simp [hd, oneLength] at h
  | cons d rest => exact ⟨d, rfl⟩

theorem isName_run {c : Char} (h : Node.isAtomChar c = true) (rest : List Char) :
    IsName (c :: rest.takeWhile isNameChar) := by
  refine isName_cons h fun d hd => ?_
  exact isAtomChar_of_isNameChar (List.all_eq_true.1 List.all_takeWhile d hd)

/-- A name that may end in one more character. -/
theorem isName_run_one {c : Char} {q : Char → Bool} (h : Node.isAtomChar c = true)
    (hq : ∀ d, q d = true → Node.isAtomChar d = true) (rest : List Char) :
    IsName (c :: rest.take (runLength isNameChar rest +
      oneLength q (rest.drop (runLength isNameChar rest)))) := by
  refine isName_cons h fun d hd => ?_
  obtain run | one := mem_take_run hd
  · exact isAtomChar_of_isNameChar run
  · exact hq d one

theorem fixed_spells {kind : TokenKind} {text : String} {cs : List Char}
    (h : (kind, text) ∈ TokenKind.fixedTexts)
    (pos : 0 < LexicalRule.fixed text.toList cs) :
    kind.Spells (cs.take (LexicalRule.fixed text.toList cs)) := by
  have taken : cs.take (LexicalRule.fixed text.toList cs) = text.toList := by
    unfold LexicalRule.fixed at pos ⊢
    split
    · rename_i hp
      exact (List.prefix_iff_eq_take.1 (List.isPrefixOf_iff_prefix.1 hp)).symm
    · rename_i hp
      simp [hp] at pos
  rw [taken]
  have member : (kind, String.ofList text.toList) ∈ TokenKind.fixedTexts := by
    rw [String.ofList_toList]
    exact h
  cases kind <;> first
    | exact member
    | exact absurd h (by simp [TokenKind.fixedTexts])

theorem integer_spells {cs : List Char} (pos : 0 < LexicalRule.integer cs) :
    TokenKind.integer.Spells (cs.take (LexicalRule.integer cs)) := by
  unfold LexicalRule.integer at pos ⊢
  rw [take_runLength]
  have nonempty : cs.takeWhile Char.isDigit ≠ [] := List.ne_nil_of_length_pos pos
  simp only [TokenKind.Spells, isDigits, List.all_takeWhile, Bool.and_true, Bool.not_eq_true',
    List.isEmpty_eq_false_iff]
  exact nonempty

theorem nameSymbol_spells {cs : List Char} (pos : 0 < LexicalRule.nameSymbol cs) :
    TokenKind.symbol.Spells (cs.take (LexicalRule.nameSymbol cs)) := by
  unfold LexicalRule.nameSymbol at pos ⊢
  split at pos
  · rename_i c rest
    dsimp only at pos ⊢
    split at pos
    · rename_i hc
      rw [if_pos hc, Nat.add_assoc, Nat.add_comm 2]
      simp only [List.take_succ_cons, TokenKind.Spells, List.tail_cons]
      refine isName_run_one ?_ (fun d one => ?_) rest
      · simp only [Bool.or_eq_true, beq_iff_eq] at hc
        obtain alpha | rfl := hc
        · exact isAtomChar_of_isAlpha alpha
        · decide
      · simp only [Bool.or_eq_true, beq_iff_eq] at one
        obtain (rfl | rfl) | rfl := one <;> decide
    · omega
  · omega

theorem foldl_max_mem (xs : List Nat) (most : Nat) :
    xs.foldl max most = most ∨ xs.foldl max most ∈ xs := by
  induction xs generalizing most with
  | nil => exact .inl rfl
  | cons x xs ih =>
    obtain same | mem := ih (max most x)
    · rw [List.foldl_cons, same]
      by_cases h : x ≤ most
      · exact .inl (Nat.max_eq_left h)
      · rw [Nat.max_eq_right (by omega)]
        exact .inr (.head _)
    · exact .inr (.tail _ mem)

theorem symbolOperators_isName : ∀ text ∈ LexicalRule.symbolOperators, IsName text.toList := by
  decide

theorem operatorSymbol_spells {cs : List Char} (pos : 0 < LexicalRule.operatorSymbol cs) :
    TokenKind.symbol.Spells (cs.take (LexicalRule.operatorSymbol cs)) := by
  unfold LexicalRule.operatorSymbol at pos ⊢
  split at pos
  · rename_i rest
    split at pos
    · omega
    · rename_i length hne
      rw [show ∀ n, 1 + n = n + 1 from fun n => Nat.add_comm 1 n]
      simp only [List.take_succ_cons, TokenKind.Spells, List.tail_cons]
      obtain zero | mem := foldl_max_mem
        (LexicalRule.symbolOperators.map fun text => LexicalRule.fixed text.toList rest) 0
      · exact absurd zero hne
      · obtain ⟨text, member, eq⟩ := List.mem_map.1 mem
        rw [← eq] at hne ⊢
        unfold LexicalRule.fixed at hne ⊢
        split
        · rename_i hp
          rw [← List.prefix_iff_eq_take.1 (List.isPrefixOf_iff_prefix.1 hp)]
          exact symbolOperators_isName text member
        · rename_i hp
          simp [hp] at hne
  · omega

theorem label_spells {cs : List Char} (pos : 0 < LexicalRule.label cs) :
    TokenKind.label.Spells (cs.take (LexicalRule.label cs)) := by
  unfold LexicalRule.label at pos ⊢
  split at pos
  · rename_i c rest
    dsimp only at pos ⊢
    split at pos
    · rename_i hc
      rw [if_pos hc]
      split at pos
      · rename_i colon
        obtain ⟨d, taken⟩ := take_run_one colon
        rw [if_pos colon, Nat.add_comm 2]
        simp only [List.take_succ_cons, TokenKind.Spells, taken]
        rw [← List.cons_append, List.dropLast_concat]
        exact isName_run (isAtomChar_of_isNameStart hc) rest
      · omega
    · omega
  · omega

theorem identifier_spells {cs : List Char} (pos : 0 < LexicalRule.identifier cs) :
    TokenKind.identifier.Spells (cs.take (LexicalRule.identifier cs)) := by
  unfold LexicalRule.identifier at pos ⊢
  split at pos
  · rename_i c rest
    dsimp only at pos ⊢
    split at pos
    · rename_i hc
      rw [if_pos hc, Nat.add_assoc, Nat.add_comm 1]
      simp only [List.take_succ_cons, TokenKind.Spells]
      refine isName_run_one (isAtomChar_of_isNameStart hc) (fun d one => ?_) rest
      simp only [Bool.or_eq_true, beq_iff_eq] at one
      obtain rfl | rfl := one <;> decide
    · omega
  · omega

theorem constant_spells {cs : List Char} (pos : 0 < LexicalRule.constant cs) :
    TokenKind.constant.Spells (cs.take (LexicalRule.constant cs)) := by
  unfold LexicalRule.constant at pos ⊢
  split at pos
  · rename_i c rest
    split at pos
    · rename_i hc
      rw [if_pos hc, Nat.add_comm 1, List.take_succ_cons, take_runLength]
      exact isName_run (isAtomChar_of_isUpper hc) rest
    · omega
  · omega

/-- The lexical rules, one by one. -/
inductive IsRule : LexemeKind → (List Char → Nat) → Prop where
  | fixed {text : TokenKind × String} : text ∈ TokenKind.fixedTexts →
      IsRule (.token text.1) (LexicalRule.fixed text.2.toList)
  | blanks : IsRule .blanks LexicalRule.blanks
  | comment : IsRule .comment LexicalRule.comment
  | integer : IsRule (.token .integer) LexicalRule.integer
  | string : IsRule (.token .string) LexicalRule.string
  | openString : IsRule .openString LexicalRule.openString
  | nameSymbol : IsRule (.token .symbol) LexicalRule.nameSymbol
  | operatorSymbol : IsRule (.token .symbol) LexicalRule.operatorSymbol
  | label : IsRule (.token .label) LexicalRule.label
  | identifier : IsRule (.token .identifier) LexicalRule.identifier
  | constant : IsRule (.token .constant) LexicalRule.constant

theorem isRule_of_mem {kind : LexemeKind} {rule : List Char → Nat}
    (h : (kind, rule) ∈ lexicalRules) : IsRule kind rule := by
  simp only [lexicalRules, List.mem_append, List.mem_map, List.mem_cons, List.not_mem_nil,
    or_false, Prod.mk.injEq] at h
  obtain ⟨text, among, rfl, rfl⟩ | ⟨rfl, rfl⟩ | ⟨rfl, rfl⟩ | ⟨rfl, rfl⟩ | ⟨rfl, rfl⟩ | ⟨rfl, rfl⟩ |
    ⟨rfl, rfl⟩ | ⟨rfl, rfl⟩ | ⟨rfl, rfl⟩ | ⟨rfl, rfl⟩ | ⟨rfl, rfl⟩ := h
  · exact .fixed among
  all_goals constructor

/-- Whatever rule takes the characters of a token, they spell it. -/
theorem lexicalRules_spell {kind : TokenKind} {rule : List Char → Nat}
    (h : (.token kind, rule) ∈ lexicalRules) {cs : List Char} (pos : 0 < rule cs) :
    kind.Spells (cs.take (rule cs)) := by
  cases isRule_of_mem h with
  | fixed among => exact fixed_spells among pos
  | integer => exact integer_spells pos
  | string => exact trivial
  | nameSymbol => exact nameSymbol_spells pos
  | operatorSymbol => exact operatorSymbol_spells pos
  | label => exact label_spells pos
  | identifier => exact identifier_spells pos
  | constant => exact constant_spells pos

/-! ### Lawful tokens -/

theorem longerMatch_eq_some {best : Option (LexemeKind × Nat)} {kind : LexemeKind} {length : Nat}
    {found : LexemeKind × Nat} (h : longerMatch best kind length = some found) :
    best = some found ∨ (kind, length) = found := by
  unfold longerMatch at h
  split at h
  · split at h
    · cases h
    · exact .inr (Option.some.inj h)
  · split at h
    · exact .inr (Option.some.inj h)
    · exact .inl h

theorem foldl_longerMatch_mem {cs : List Char} {found : LexemeKind × Nat}
    (rules : List (LexemeKind × (List Char → Nat))) :
    ∀ best, rules.foldl (fun best rule => longerMatch best rule.1 (rule.2 cs)) best = some found →
      best = some found ∨ ∃ rule ∈ rules, (rule.1, rule.2 cs) = found := by
  induction rules with
  | nil => exact fun _ h => .inl h
  | cons rule rules ih =>
    intro best h
    obtain start | ⟨later, member, eq⟩ := ih _ h
    · obtain before | here := longerMatch_eq_some start
      · exact .inl before
      · exact .inr ⟨rule, .head _, here⟩
    · exact .inr ⟨later, .tail _ member, eq⟩

/-- The longest match is that of a lexical rule. -/
theorem longestMatch_mem {cs : List Char} {kind : LexemeKind} {length : Nat}
    (h : longestMatch cs = some (kind, length)) :
    ∃ rule, (kind, rule) ∈ lexicalRules ∧ rule cs = length := by
  obtain none | ⟨⟨_, rule⟩, member, eq⟩ := foldl_longerMatch_mem lexicalRules none h
  · cases none
  · cases eq
    exact ⟨rule, member, rfl⟩

/-- A lexeme has characters, and those of a token spell it. -/
structure Lexeme.Lawful (lexeme : Lexeme) : Prop where
  nonempty : lexeme.text ≠ []
  spells : ∀ kind, lexeme.kind = .token kind → kind.Spells lexeme.text

theorem lexemes_lawful (cs : List Char) : ∀ lexeme ∈ (lexemes cs).1, lexeme.Lawful := by
  fun_induction lexemes cs with
  | case1 => simp
  | case2 c rest _ => simp
  | case3 c rest kind length matched pos more unread found ih =>
    rw [found] at ih
    refine List.forall_mem_cons.2 ⟨⟨?_, ?_⟩, ih⟩
    · cases length with
      | zero => omega
      | succ length => simp
    · rintro kind rfl
      obtain ⟨rule, member, rfl⟩ := longestMatch_mem matched
      exact lexicalRules_spell member pos

/-- A token of a source of `n` characters. -/
structure Token.Lawful (n : Nat) (token : Token) : Prop where
  spells : token.kind.Spells token.text.toList
  stop_le : token.span.stop ≤ n

theorem Token.Lawful.spells_as {n : Nat} {token : Token} {kind : TokenKind}
    (lawful : token.Lawful n) (h : token.kind = kind) : kind.Spells token.text.toList := by
  rw [← h]
  exact lawful.spells

theorem place_lawful {offset n : Nat} {spaced : Bool} {unread : List Char} {found : List Lexeme}
    {tokens : List Token} (h : place offset spaced unread found = .ok tokens)
    (lawful : ∀ lexeme ∈ found, lexeme.Lawful)
    (fits : offset + (lexemesText found ++ unread).length ≤ n) :
    ∀ token ∈ tokens, token.Lawful n := by
  induction found generalizing offset spaced tokens with
  | nil =>
    cases unread with
    | nil =>
      cases h
      simp
    | cons c rest => cases h
  | cons lexeme more ih =>
    obtain ⟨first, others⟩ := List.forall_mem_cons.1 lawful
    rw [lexemesText_cons, List.append_assoc, List.length_append, ← Nat.add_assoc] at fits
    simp only [place] at h
    split at h
    · exact ih h others fits
    · exact ih h others fits
    · cases h
    · rename_i kind hk
      cases hr : place (offset + lexeme.text.length) (kind == .newline) unread more with
      | error e =>
        rw [hr] at h
        cases h
      | ok rest =>
        rw [hr] at h
        cases h
        refine List.forall_mem_cons.2 ⟨⟨?_, ?_⟩, ih hr others fits⟩
        · rw [String.toList_ofList]
          exact first.spells kind hk
        · show offset + lexeme.text.length ≤ n
          omega

/-- What a rejected source is rejected for stands in the source. -/
theorem place_error {offset n : Nat} {spaced : Bool} {unread : List Char} {found : List Lexeme}
    {e : LexError} (h : place offset spaced unread found = .error e)
    (lawful : ∀ lexeme ∈ found, lexeme.Lawful)
    (fits : offset + (lexemesText found ++ unread).length ≤ n) :
    (∃ c span, e = .unexpectedChar c span ∧ span.stop ≤ n) ∨
      ∃ span, e = .unterminatedString span ∧ span.stop ≤ n := by
  induction found generalizing offset spaced with
  | nil =>
    cases unread with
    | nil => cases h
    | cons c rest =>
      cases h
      refine .inl ⟨c, _, rfl, ?_⟩
      rw [lexemesText, List.flatMap_nil, List.nil_append, List.length_cons] at fits
      show offset + 1 ≤ n
      omega
  | cons lexeme more ih =>
    obtain ⟨first, others⟩ := List.forall_mem_cons.1 lawful
    rw [lexemesText_cons, List.append_assoc, List.length_append, ← Nat.add_assoc] at fits
    simp only [place] at h
    split at h
    · exact ih h others fits
    · exact ih h others fits
    · cases h
      have pos := List.length_pos_iff.2 first.nonempty
      refine .inr ⟨_, rfl, ?_⟩
      show offset + 1 ≤ n
      omega
    · rename_i kind _
      cases hr : place (offset + lexeme.text.length) (kind == .newline) unread more with
      | error e' =>
        rw [hr] at h
        cases h
        exact ih hr others fits
      | ok rest =>
        rw [hr] at h
        cases h

theorem length_lexemes_text (source : List Char) :
    0 + (lexemesText (lexemes source).1 ++ (lexemes source).2).length ≤ source.length := by
  rw [lexemes_text]
  omega

theorem placed_lawful {source : List Char} {tokens : List Token} (h : placed source = .ok tokens) :
    ∀ token ∈ tokens, token.Lawful source.length :=
  place_lawful h (lexemes_lawful source) (length_lexemes_text source)

theorem placed_error {source : List Char} {e : LexError} (h : placed source = .error e) :
    (∃ c span, e = .unexpectedChar c span ∧ span.stop ≤ source.length) ∨
      ∃ span, e = .unterminatedString span ∧ span.stop ≤ source.length :=
  place_error h (lexemes_lawful source) (length_lexemes_text source)

end Conformance.Dialect
