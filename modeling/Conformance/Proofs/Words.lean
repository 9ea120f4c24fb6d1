import Conformance.Proofs.Junction

/-! Texts that are one token: names, digits and operators. Where the longest match takes such a text
as a whole, it does so before any character from which no token goes on. -/

namespace Conformance.Dialect

open Text LexicalRule

variable {first next : Char} {cs more : List Char} {kind : LexemeKind} {length : Nat}

/-! ### The rule that takes the most -/

theorem longerMatch_most (best : Option (LexemeKind × Nat)) (kind : LexemeKind) (most : Nat) :
    (∀ found ∈ best, ∃ later ∈ longerMatch best kind most, found.2 ≤ later.2) ∧
      (0 < most → ∃ later ∈ longerMatch best kind most, most ≤ later.2) := by
  cases best with
  | none =>
    refine ⟨nofun, fun positive => ⟨(kind, most), ?_, Nat.le_refl most⟩⟩
    exact if_neg (Nat.ne_of_gt positive)
  | some best =>
    unfold longerMatch
    dsimp only
    split
    · rename_i longer
      exact ⟨fun found mem => ⟨_, rfl, by cases mem; omega⟩, fun _ => ⟨_, rfl, Nat.le_refl most⟩⟩
    · rename_i shorter
      exact ⟨fun found mem => ⟨found, mem, Nat.le_refl _⟩, fun _ => ⟨best, rfl, by omega⟩⟩

theorem foldl_longerMatch_most (rules : List (LexemeKind × (List Char → Nat)))
    (best : Option (LexemeKind × Nat)) :
    (∀ found ∈ best, ∃ later ∈ rules.foldl
        (fun best rule => longerMatch best rule.1 (rule.2 cs)) best, found.2 ≤ later.2) ∧
      ∀ rule ∈ rules, 0 < rule.2 cs → ∃ later ∈ rules.foldl
        (fun best rule => longerMatch best rule.1 (rule.2 cs)) best, rule.2 cs ≤ later.2 := by
  induction rules generalizing best with
  | nil => exact ⟨fun found mem => ⟨found, mem, Nat.le_refl _⟩, nofun⟩
  | cons rule rules ih =>
    obtain ⟨kept, takes⟩ := longerMatch_most best rule.1 (rule.2 cs)
    obtain ⟨kept', takes'⟩ := ih (longerMatch best rule.1 (rule.2 cs))
    refine ⟨fun found mem => ?_, fun other mem positive => ?_⟩
    · obtain ⟨middle, mem, le⟩ := kept found mem
      obtain ⟨later, mem, le'⟩ := kept' middle mem
      exact ⟨later, mem, Nat.le_trans le le'⟩
    · obtain rfl | mem := List.mem_cons.1 mem
      · obtain ⟨middle, mem, le⟩ := takes positive
        obtain ⟨later, mem, le'⟩ := kept' middle mem
        exact ⟨later, mem, Nat.le_trans le le'⟩
      · exact takes' other mem positive

/-- A rule that takes something, and more than any rule for lexemes of another kind. -/
theorem longestMatch_eq {rule : List Char → Nat} (mem : (kind, rule) ∈ lexicalRules)
    (positive : 0 < rule cs)
    (most : ∀ {kind' : LexemeKind} {rule' : List Char → Nat}, IsRule kind' rule' →
      rule' cs ≤ rule cs ∧ (rule' cs = rule cs → kind' = kind)) :
    longestMatch cs = some (kind, rule cs) := by
  obtain ⟨⟨kind', length⟩, found, le⟩ := (foldl_longerMatch_most lexicalRules none).2 _ mem positive
  have found' : longestMatch cs = some (kind', length) := found
  obtain ⟨rule', mem', rfl⟩ := longestMatch_mem found'
  obtain ⟨le', same⟩ := most (isRule_of_mem mem')
  have eq : rule' cs = rule cs := Nat.le_antisymm le' le
  rw [found', same eq, eq]

/-! ### Classes of characters -/

theorem isDigit_range {c : Char} (digit : c.isDigit = true) : 48 ≤ c.toNat ∧ c.toNat ≤ 57 := by
  simp only [Char.isDigit, Bool.and_eq_true, decide_eq_true_eq, ge_iff_le,
    UInt32.le_iff_toNat_le] at digit
  exact digit

theorem isUpper_range {c : Char} (upper : c.isUpper = true) : 65 ≤ c.toNat ∧ c.toNat ≤ 90 := by
  obtain ⟨low, high⟩ := of_decide_eq_true upper
  exact ⟨UInt32.le_iff_toNat_le.1 low, UInt32.le_iff_toNat_le.1 high⟩

theorem isNameStart_range {c : Char} (start : isNameStart c = true) :
    c.toNat = 95 ∨ 97 ≤ c.toNat ∧ c.toNat ≤ 122 := by
  simp only [isNameStart, Bool.or_eq_true, beq_iff_eq] at start
  obtain lower | rfl := start
  · have range : (decide ('a' ≤ c) && decide (c ≤ 'z')) = true := lower
    simp only [Bool.and_eq_true, decide_eq_true_eq, Char.le_def, UInt32.le_iff_toNat_le] at range
    exact .inr range
  · exact .inl rfl

theorem isNameChar_of_isNameStart {c : Char} (start : isNameStart c = true) :
    isNameChar c = true := by
  simp only [isNameStart, Bool.or_eq_true, beq_iff_eq] at start
  obtain lower | rfl := start
  · have alpha : c.isAlpha = true := Bool.or_eq_true_iff.2 (.inr lower)
    simp [isNameChar, Char.isAlphanum, alpha]
  · decide

theorem isLineBlank_le {c : Char} (blank : isLineBlank c = true) : c.toNat ≤ 32 := by
  simp only [isLineBlank, Bool.or_eq_true, beq_iff_eq] at blank
  obtain (rfl | rfl) | rfl := blank <;> decide

theorem fixedTexts_digits :
    ∀ fixed ∈ TokenKind.fixedTexts, ∀ c ∈ fixed.2.toList.head?, c.isDigit = false :=
  fun fixed mem c head => by
    simpa using fixedTexts_head (p := fun _ c => !c.isDigit) (by decide) fixed mem c head

/-- What starts with a digit is an integer. -/
theorem integer_of_isDigit {rule : List Char → Nat} (digit : first.isDigit = true)
    (is : IsRule kind rule) (taken : 0 < rule (first :: cs)) :
    kind = .token .integer ∧ rule = integer := by
  have begins := begins_of_isRule is taken
  obtain ⟨low, high⟩ := isDigit_range digit
  cases is with
  | integer => exact ⟨rfl, rfl⟩
  | @fixed text among =>
    have other : text.2.toList.head? ≠ some first := fun head => by
      simp [fixedTexts_digits text among first head] at digit
    simp [fixed_of_head? other] at taken
  | blanks =>
    have le := isLineBlank_le begins
    omega
  | comment | string | openString | nameSymbol | operatorSymbol =>
    obtain rfl := beq_iff_eq.1 begins
    simp at low high
  | label | identifier =>
    have range := isNameStart_range begins
    omega
  | constant =>
    have range := isUpper_range begins
    omega

/-- What starts with a small letter or an underscore is a keyword, a label or an identifier. -/
theorem word_of_isNameStart {rule : List Char → Nat} (start : isNameStart first = true)
    (is : IsRule kind rule) (taken : 0 < rule (first :: cs)) :
    (∃ text ∈ TokenKind.fixedTexts, rule = LexicalRule.fixed text.2.toList) ∨ rule = label ∨
      kind = .token .identifier ∧ rule = identifier := by
  have begins := begins_of_isRule is taken
  have range := isNameStart_range start
  cases is with
  | fixed among => exact .inl ⟨_, among, rfl⟩
  | label => exact .inr (.inl rfl)
  | identifier => exact .inr (.inr ⟨rfl, rfl⟩)
  | blanks =>
    have le := isLineBlank_le begins
    omega
  | comment | string | openString | nameSymbol | operatorSymbol =>
    obtain rfl := beq_iff_eq.1 begins
    simp at range
  | integer =>
    have digit := isDigit_range begins
    omega
  | constant =>
    have upper := isUpper_range begins
    omega

/-! ### Digits -/

theorem integer_of_isDigits (digits : isDigits cs = true) : integer cs = cs.length ∧ cs ≠ [] := by
  simp only [isDigits, Bool.and_eq_true, Bool.not_eq_true', List.isEmpty_eq_false_iff,
    List.all_eq_true] at digits
  exact ⟨runLength_of_forall digits.2, digits.1⟩

/-- Digits are an integer. -/
theorem longestMatch_integer (digits : isDigits cs = true) :
    longestMatch cs = some (.token .integer, cs.length) := by
  obtain ⟨whole, nonempty⟩ := integer_of_isDigits digits
  have mem : (.token .integer, integer) ∈ lexicalRules := by simp [lexicalRules]
  have positive : 0 < integer cs := whole ▸ List.length_pos_iff.2 nonempty
  obtain ⟨first, cs, rfl⟩ := List.exists_cons_of_ne_nil nonempty
  have digit : first.isDigit = true := runLength_cons_pos positive
  rw [← whole]
  refine longestMatch_eq mem positive fun {kind' rule'} is => ?_
  by_cases taken : 0 < rule' (first :: cs)
  · obtain ⟨rfl, rfl⟩ := integer_of_isDigit digit is taken
    exact ⟨Nat.le_refl _, fun _ => rfl⟩
  · exact ⟨by omega, fun same => by omega⟩

/-! ### Names -/

/-- Whether a text is a name that starts with a small letter or an underscore. -/
def isWord : List Char → Bool
  | c :: rest => isNameStart c && rest.all isNameChar
  | [] => false

theorem isWord_iff : isWord cs = true ↔ ∃ first rest, cs = first :: rest ∧
    isNameStart first = true ∧ ∀ c ∈ rest, isNameChar c = true := by
  cases cs with
  | nil => simp [isWord]
  | cons first rest =>
    simp only [isWord, Bool.and_eq_true, List.all_eq_true, List.cons.injEq]
    exact ⟨fun word => ⟨first, rest, ⟨rfl, rfl⟩, word⟩,
      fun ⟨_, _, ⟨same, same'⟩, word⟩ => same ▸ same' ▸ word⟩

/-- What may stand at the end of a name. -/
inductive Mark : List Char → Prop where
  | none : Mark []
  | bang : Mark ['!']

theorem runLength_word (name : ∀ c ∈ cs, isNameChar c = true) {mark : List Char}
    (marked : Mark mark) : runLength isNameChar (cs ++ mark) = cs.length := by
  cases marked with
  | none => rw [List.append_nil, runLength_of_forall name]
  | bang => rw [runLength_junction (by decide), runLength_of_forall name]

/-- A fixed text that takes a whole text is that text. -/
theorem eq_of_fixed {text : List Char} (whole : LexicalRule.fixed text cs = cs.length)
    (taken : 0 < LexicalRule.fixed text cs) : text = cs := by
  unfold LexicalRule.fixed at whole taken
  split at whole
  · rename_i starts
    exact (List.isPrefixOf_iff_prefix.1 starts).eq_of_length whole
  · rename_i other
    exact absurd taken (by simp [other])

/-- A name that is no keyword is an identifier, and with a `!` it always is one. -/
theorem longestMatch_identifier (word : isWord cs = true) {mark : List Char} (marked : Mark mark)
    (free : ∀ fixed ∈ TokenKind.fixedTexts, fixed.2.toList ≠ cs ++ mark) :
    longestMatch (cs ++ mark) = some (.token .identifier, (cs ++ mark).length) := by
  obtain ⟨first, rest, rfl, start, name⟩ := isWord_iff.1 word
  have run := runLength_word name marked
  have rest_eq : (rest ++ mark).drop rest.length = mark := List.drop_left
  have whole : identifier (first :: rest ++ mark) = (first :: rest ++ mark).length := by
    simp only [List.cons_append, identifier, start, if_true, run, rest_eq]
    cases marked <;> simp [oneLength] <;> omega
  have noLabel : label (first :: rest ++ mark) = 0 := by
    simp only [List.cons_append, label, start, if_true, run, rest_eq]
    cases marked <;> simp [oneLength]
  have mem : (.token .identifier, identifier) ∈ lexicalRules := by simp [lexicalRules]
  have positive : 0 < identifier (first :: rest ++ mark) := whole ▸ Nat.succ_pos _
  rw [← whole]
  refine longestMatch_eq mem positive fun {kind' rule'} is => ?_
  by_cases taken : 0 < rule' (first :: rest ++ mark)
  · obtain ⟨text, among, rfl⟩ | rfl | ⟨rfl, rfl⟩ := word_of_isNameStart start is taken
    · rw [whole]
      refine ⟨fixed_le _ _, fun same => absurd ?_ (free text among)⟩
      exact eq_of_fixed same taken
    · exact absurd noLabel (Nat.ne_of_gt taken)
    · exact ⟨Nat.le_refl _, fun _ => rfl⟩
  · exact ⟨by omega, fun same => by omega⟩

/-! ### Before another character -/

theorem isLineBlank_eq_false {c : Char} (visible : 33 ≤ c.toNat) : isLineBlank c = false :=
  Bool.eq_false_iff.2 fun blank => by
    have le := isLineBlank_le blank
    omega

theorem parts_digit (digit : first.isDigit = true) (ends : next.isDigit = false) :
    Parts first cs next := by
  obtain ⟨low, high⟩ := isDigit_range digit
  have noStart : isNameStart first = false := Bool.eq_false_iff.2 fun start => by
    have range := isNameStart_range start
    omega
  have noUpper : first.isUpper = false := Bool.eq_false_iff.2 fun upper => by
    have range := isUpper_range upper
    omega
  have noColon : first ≠ ':' := by
    rintro rfl
    cases digit
  exact {
    fixed := fun fixed mem head => by simp [fixedTexts_digits fixed mem first head] at digit
    blank := by simp [isLineBlank_eq_false (c := first) (by omega)]
    comment := by rintro rfl; cases digit
    digit := fun _ => ends
    string := by rintro rfl; cases digit
    name := by simp [noStart, noUpper, noColon]
    mark := by simp [noStart]
    symbol := fun colon => absurd colon noColon }

theorem fixedTexts_words : ∀ fixed ∈ TokenKind.fixedTexts, ∀ c ∈ fixed.2.toList.head?,
    isNameStart c = true → ∀ d ∈ fixed.2.toList.tail, isNameChar d = true ∨ d = '?' := by
  intro fixed mem c head start
  have tail := fixedTexts_head (p := fun fixed c => !isNameStart c ||
    fixed.2.toList.tail.all fun d => isNameChar d || d == '?') (by decide) fixed mem c head
  simpa [start] using tail

theorem parts_word (start : isNameStart first = true) (ends : isNameChar next = false)
    (mark : next ∉ ['?', '!', ':']) : Parts first cs next := by
  have range := isNameStart_range start
  have noDigit : first.isDigit = false := Bool.eq_false_iff.2 fun digit => by
    have range := isDigit_range digit
    omega
  exact {
    fixed := fun fixed mem head within => by
      obtain name | rfl := fixedTexts_words fixed mem first head start next within
      · rw [ends] at name
        cases name
      · exact mark (.head _)
    blank := by simp [isLineBlank_eq_false (c := first) (by omega)]
    comment := by rintro rfl; cases start
    digit := by simp [noDigit]
    string := by rintro rfl; cases start
    name := fun _ => ends
    mark := fun _ => mark
    symbol := by rintro rfl; cases start }

theorem fixedTexts_signs : ∀ fixed ∈ TokenKind.fixedTexts, ∀ c ∈ fixed.2.toList.head?,
    isPunctuation c = true → ∀ d ∈ fixed.2.toList.tail, isNameChar d = false ∧ d ≠ ' ' := by
  intro fixed mem c head sign
  have tail := fixedTexts_head (p := fun fixed c => !isPunctuation c ||
    fixed.2.toList.tail.all fun d => !isNameChar d && d != ' ') (by decide) fixed mem c head
  simpa [sign] using tail

theorem parts_sign (sign : isPunctuation first = true)
    (ends : isNameChar next = true ∨ next = ' ') : Parts first cs next := by
  refine parts_punctuation sign fun fixed mem head within => ?_
  obtain ⟨noName, noBlank⟩ := fixedTexts_signs fixed mem first head sign next within
  simp [noName, noBlank] at ends

theorem fixedTexts_visible : ∀ fixed ∈ TokenKind.fixedTexts, fixed.2.toList.head? ≠ some ' ' := by
  decide

theorem parts_blank (ends : isLineBlank next = false) : Parts ' ' [] next where
  fixed := fun fixed mem head => absurd head (fixedTexts_visible fixed mem)
  blank := fun _ => ends
  comment := nofun
  digit := nofun
  string := nofun
  name := fun starts => absurd starts (by decide)
  mark := nofun
  symbol := nofun

/-- A text that is one lexeme, before a character from which it does not go on. -/
theorem lexemes_append (parts : Parts first cs next)
    (whole : longestMatch (first :: cs) = some (kind, (first :: cs).length)) (more : List Char) :
    lexemes (first :: cs ++ next :: more) =
      (⟨kind, first :: cs⟩ :: (lexemes (next :: more)).1, (lexemes (next :: more)).2) := by
  have found : longestMatch (first :: cs ++ next :: more) = some (kind, (first :: cs).length) :=
    (longestMatch_junction parts).trans whole
  rw [lexemes_of_longestMatch (by simp) found, List.take_left, List.drop_left]

theorem lexemes_whole (nonempty : cs ≠ []) (whole : longestMatch cs = some (kind, cs.length)) :
    lexemes cs = ([⟨kind, cs⟩], []) := by
  rw [lexemes_of_longestMatch nonempty whole, List.drop_length, List.take_length, lexemes_nil]

theorem lexemes_blank (ends : isLineBlank next = false) (more : List Char) :
    lexemes (' ' :: next :: more) =
      (⟨.blanks, [' ']⟩ :: (lexemes (next :: more)).1, (lexemes (next :: more)).2) := by
  have whole : longestMatch [' '] = some (.blanks, 1) := by decide
  exact lexemes_append (parts_blank ends) whole more

/-! ### Operands -/

/-- An operand that is one token: digits, or a name that is no keyword. -/
inductive Operand (text : String) : TokenKind → Prop where
  | integer (digits : isDigits text.toList = true) : Operand text .integer
  | identifier (word : isWord text.toList = true)
      (free : ∀ fixed ∈ TokenKind.fixedTexts, fixed.2 ≠ text) : Operand text .identifier

namespace Operand

variable {text : String} {kind : TokenKind}

theorem starts (operand : Operand text kind) :
    ∃ c rest, text.toList = c :: rest ∧
      (kind = .integer ∧ c.isDigit = true ∨ kind = .identifier ∧ isNameStart c = true) := by
  cases operand with
  | integer digits =>
    obtain ⟨whole, nonempty⟩ := integer_of_isDigits digits
    obtain ⟨c, rest, split⟩ := List.exists_cons_of_ne_nil nonempty
    have positive : 0 < LexicalRule.integer (c :: rest) := by
      rw [← split, whole]
      exact List.length_pos_iff.2 nonempty
    exact ⟨c, rest, split, .inl ⟨rfl, runLength_cons_pos positive⟩⟩
  | identifier word =>
    obtain ⟨c, rest, split, start, -⟩ := isWord_iff.1 word
    exact ⟨c, rest, split, .inr ⟨rfl, start⟩⟩

theorem kind_eq (operand : Operand text kind) : kind = .integer ∨ kind = .identifier := by
  cases operand
  · exact .inl rfl
  · exact .inr rfl

theorem isNameChar_of_mem (operand : Operand text kind) :
    ∀ c ∈ text.toList, isNameChar c = true := by
  cases operand with
  | integer digits =>
    simp only [isDigits, Bool.and_eq_true, List.all_eq_true] at digits
    exact fun c mem => by simp [isNameChar, Char.isAlphanum, digits.2 c mem]
  | identifier word =>
    obtain ⟨c, rest, split, start, name⟩ := isWord_iff.1 word
    rw [split]
    exact List.forall_mem_cons.2 ⟨isNameChar_of_isNameStart start, name⟩

/-- An operand is no name with a `!`. -/
theorem ne_bang (operand : Operand text kind) (word : String) : text ≠ word ++ "!" := by
  rintro rfl
  have name := operand.isNameChar_of_mem '!' (by simp)
  cases name

theorem ne_newline (operand : Operand text kind) : kind ≠ .newline := by
  cases operand <;> decide

theorem longestMatch_eq (operand : Operand text kind) :
    longestMatch text.toList = some (.token kind, text.toList.length) := by
  cases operand with
  | integer digits => exact longestMatch_integer digits
  | identifier word free =>
    have whole := longestMatch_identifier word .none fun fixed mem same =>
      free fixed mem (String.toList_inj.1 (by simpa using same))
    rwa [List.append_nil] at whole

theorem nonempty (operand : Operand text kind) : text.toList ≠ [] := by
  obtain ⟨c, rest, split, -⟩ := operand.starts
  simp [split]

/-- The first character of an operand. -/
theorem head (operand : Operand text kind) :
    ∃ c rest, text.toList = c :: rest ∧ isNameChar c = true ∧ isLineBlank c = false := by
  obtain ⟨c, rest, split, ⟨-, digit⟩ | ⟨-, start⟩⟩ := operand.starts
  · have range := isDigit_range digit
    exact ⟨c, rest, split, by simp [isNameChar, Char.isAlphanum, digit],
      isLineBlank_eq_false (by omega)⟩
  · have range := isNameStart_range start
    exact ⟨c, rest, split, isNameChar_of_isNameStart start, isLineBlank_eq_false (by omega)⟩

/-- An operand is a lexeme of its own before a blank or an operator, but for a `!` after a name. -/
theorem lexemes_append (operand : Operand text kind) {next : Char}
    (ends : isNameChar next = false) (mark : next ∉ ['?', ':'])
    (bang : kind = .identifier → next ≠ '!') (more : List Char) :
    lexemes (text.toList ++ next :: more) =
      (⟨.token kind, text.toList⟩ :: (lexemes (next :: more)).1, (lexemes (next :: more)).2) := by
  obtain ⟨c, rest, split, ⟨rfl, digit⟩ | ⟨rfl, start⟩⟩ := operand.starts
  · have whole := operand.longestMatch_eq
    rw [split] at whole ⊢
    have noDigit : next.isDigit = false := by
      simp only [isNameChar, Char.isAlphanum, Bool.or_eq_false_iff] at ends
      exact ends.1.2
    exact Dialect.lexemes_append (parts_digit digit noDigit) whole more
  · have whole := operand.longestMatch_eq
    rw [split] at whole ⊢
    have noBang := bang rfl
    exact Dialect.lexemes_append (parts_word start ends (by simp_all)) whole more

end Operand

end Conformance.Dialect
