import Conformance.Proofs.Moving
import Conformance.Proofs.Spelling
import Mathlib.Data.List.TakeWhile

/-! What the lexical rules take at the start of a text, with more characters after it. Where no rule
goes on from the text to the character after it, each takes what it takes of the text alone. So it
is before a line break, except in a string that is not closed, and before a dot, except in such a
string or in a comment: the tokens of two sources on two lines are those of the first, a line break,
and those of the second. -/

namespace Conformance.Dialect

/-! ### Rules before another character -/

section Runs

variable {p : Char → Bool} {next : Char} {cs more : List Char}

theorem runLength_junction (stops : p next = false) :
    runLength p (cs ++ next :: more) = runLength p cs := by
  induction cs with
  | nil => simp [runLength, stops]
  | cons c cs ih =>
    unfold runLength at *
    rw [List.cons_append, List.takeWhile_cons, List.takeWhile_cons]
    split
    · exact congrArg (· + 1) ih
    · rfl

theorem runLength_le (p : Char → Bool) (cs : List Char) : runLength p cs ≤ cs.length :=
  (List.takeWhile_prefix p).length_le

/-- A run is over before the text ends, or all of the text is one. -/
theorem runLength_junction_of_mem {d : Char} (mem : d ∈ cs) (stops : p d = false) :
    runLength p (cs ++ more) = runLength p cs := by
  obtain ⟨before, after, rfl⟩ := List.append_of_mem mem
  rw [List.append_assoc, List.cons_append, runLength_junction stops, runLength_junction stops]

/-- A run and what may follow it are characters of the text. -/
theorem run_one_le (p q : Char → Bool) (cs : List Char) :
    runLength p cs + oneLength q (cs.drop (runLength p cs)) ≤ cs.length := by
  have run := runLength_le p cs
  have length : (cs.drop (runLength p cs)).length = cs.length - runLength p cs := List.length_drop
  revert length
  cases cs.drop (runLength p cs) with
  | nil =>
    intro _
    exact run
  | cons c rest =>
    intro length
    rw [List.length_cons] at length
    have one : oneLength q (c :: rest) ≤ 1 := by
      unfold oneLength
      dsimp only
      split <;> omega
    omega

theorem oneLength_junction (stops : p next = false) :
    oneLength p (cs ++ next :: more) = oneLength p cs := by
  cases cs with
  | nil => simp [oneLength, stops]
  | cons c cs => rfl

/-- A run and what may follow it. -/
theorem oneLength_drop_junction {q : Char → Bool} (run : p next = false) (one : q next = false) :
    oneLength q ((cs ++ next :: more).drop (runLength p (cs ++ next :: more))) =
      oneLength q (cs.drop (runLength p cs)) := by
  rw [runLength_junction run, List.drop_append_of_le_length (runLength_le p cs),
    oneLength_junction one]

theorem isPrefixOf_junction {text : List Char} (within : next ∉ text) :
    text.isPrefixOf (cs ++ next :: more) = text.isPrefixOf cs := by
  induction text generalizing cs with
  | nil => simp
  | cons t text ih =>
    obtain ⟨other, others⟩ : next ≠ t ∧ next ∉ text := by simpa using within
    cases cs with
    | nil => simp [List.isPrefixOf, other.symm]
    | cons c cs => simp [List.isPrefixOf, ih others]

end Runs

namespace LexicalRule

variable {first next : Char} {cs more : List Char}

theorem fixed_junction {text : List Char} (within : next ∉ text) :
    fixed text (cs ++ next :: more) = fixed text cs := by
  rw [fixed, isPrefixOf_junction within, fixed]

theorem fixed_le (text cs : List Char) : fixed text cs ≤ cs.length := by
  unfold fixed
  split
  · rename_i starts
    exact (List.isPrefixOf_iff_prefix.1 starts).length_le
  · exact Nat.zero_le _

/-- A fixed text that starts with another character takes nothing. -/
theorem fixed_of_head? {text : List Char} (other : text.head? ≠ some first) :
    fixed text (first :: cs) = 0 := by
  cases text with
  | nil => simp [fixed]
  | cons t text =>
    have differ : t ≠ first := fun same => other (congrArg some same)
    simp [fixed, List.isPrefixOf, differ]

/-- A fixed text that starts as the text does has the character after it at most in front. -/
theorem fixed_junction_of_head? {text : List Char}
    (within : text.head? = some first → next ∉ text.tail) :
    fixed text (first :: cs ++ next :: more) = fixed text (first :: cs) := by
  by_cases starts : text.head? = some first
  · cases text with
    | nil => cases starts
    | cons t text =>
      have others : text.isPrefixOf (cs ++ next :: more) = text.isPrefixOf cs :=
        isPrefixOf_junction (within starts)
      simp [fixed, List.isPrefixOf, others]
  · rw [List.cons_append, fixed_of_head? starts, fixed_of_head? starts]

/-- A run of characters, of which the first or the next is none. -/
theorem runLength_junction_of_head {p : Char → Bool} (stops : p first = true → p next = false) :
    runLength p (first :: cs ++ next :: more) = runLength p (first :: cs) := by
  cases starts : p first with
  | true => exact runLength_junction (stops starts)
  | false => exact runLength_junction_of_mem List.mem_cons_self starts

theorem comment_junction (ends : first = '#' → next = '\n' ∨ '\n' ∈ cs) :
    comment (first :: cs ++ next :: more) = comment (first :: cs) := by
  by_cases hash : first = '#'
  · subst hash
    obtain rfl | mem := ends rfl
    · simp [comment, runLength_junction]
    · simp [comment, runLength_junction_of_mem mem]
  · simp [comment, hash]

theorem stringBody_junction (closed : (stringBody cs).2 = true) :
    stringBody (cs ++ more) = stringBody cs := by
  fun_induction stringBody cs with
  | case1 | case3 => cases closed
  | case2 rest => rfl
  | case4 c rest length closes found ih =>
    rw [found] at ih
    rw [List.cons_append, List.cons_append, stringBody, ih closed]
  | case5 c rest quote lone escape length closes found ih =>
    have plain : c ≠ '\\' := by
      rintro rfl
      cases rest with
      | nil => exact lone rfl rfl
      | cons d rest => exact escape d rest rfl rfl
    rw [found] at ih
    rw [List.cons_append, stringBody, ih closed]
    · exact quote
    · exact fun same => absurd same plain
    · exact fun _ _ same => absurd same plain

/-- With the quote that closes it, a string is part of the text. -/
theorem stringBody_le (closed : (stringBody cs).2 = true) :
    (stringBody cs).1 + 1 ≤ cs.length := by
  fun_induction stringBody cs with
  | case1 | case3 => cases closed
  | case2 rest => simp
  | case4 c rest length closes found ih =>
    rw [found] at ih
    have le := ih closed
    simp only [List.length_cons] at le ⊢
    omega
  | case5 c rest quote lone escape length closes found ih =>
    rw [found] at ih
    have le := ih closed
    simp only [List.length_cons] at le ⊢
    omega

theorem string_le (cs : List Char) : string cs ≤ cs.length := by
  unfold string
  split
  · rename_i rest
    split
    · rename_i length body
      have le : (stringBody rest).1 + 1 ≤ rest.length := stringBody_le (by rw [body])
      rw [body] at le
      rw [List.length_cons]
      omega
    · exact Nat.zero_le _
  · exact Nat.zero_le _

theorem comment_le (cs : List Char) : comment cs ≤ cs.length := by
  unfold comment
  split
  · rename_i rest
    have le := runLength_le (· != '\n') rest
    rw [List.length_cons]
    omega
  · exact Nat.zero_le _

theorem nameSymbol_le (cs : List Char) : nameSymbol cs ≤ cs.length := by
  unfold nameSymbol
  split
  · rename_i c rest
    have le := run_one_le isNameChar (fun d => d == '?' || d == '!' || d == '=') rest
    dsimp only
    split
    · simp only [List.length_cons]
      omega
    · exact Nat.zero_le _
  · exact Nat.zero_le _

theorem operatorSymbol_le (cs : List Char) : operatorSymbol cs ≤ cs.length := by
  unfold operatorSymbol
  split
  · rename_i rest
    obtain none | among := foldl_max_mem
      (symbolOperators.map fun text => fixed text.toList rest) 0
    · rw [none]
      exact Nat.zero_le _
    · obtain ⟨text, -, same⟩ := List.mem_map.1 among
      have le := fixed_le text.toList rest
      rw [same] at le
      split
      · exact Nat.zero_le _
      · rw [List.length_cons]
        omega
  · exact Nat.zero_le _

theorem label_le (cs : List Char) : label cs ≤ cs.length := by
  unfold label
  split
  · rename_i c rest
    have le := run_one_le isNameChar (· == ':') rest
    dsimp only
    split
    · split
      · rw [List.length_cons]
        omega
      · exact Nat.zero_le _
    · exact Nat.zero_le _
  · exact Nat.zero_le _

theorem identifier_le (cs : List Char) : identifier cs ≤ cs.length := by
  unfold identifier
  split
  · rename_i c rest
    have le := run_one_le isNameChar (fun d => d == '?' || d == '!') rest
    dsimp only
    split
    · rw [List.length_cons]
      omega
    · exact Nat.zero_le _
  · exact Nat.zero_le _

theorem constant_le (cs : List Char) : constant cs ≤ cs.length := by
  unfold constant
  split
  · rename_i c rest
    have le := runLength_le isNameChar rest
    split
    · rw [List.length_cons]
      omega
    · exact Nat.zero_le _
  · exact Nat.zero_le _


/-- If a text starts with a quote, another quote closes the string. -/
def Closes (cs : List Char) : Prop := ∀ rest, cs = '"' :: rest → (stringBody rest).2 = true

theorem string_junction (closed : Closes (first :: cs)) :
    string (first :: cs ++ more) = string (first :: cs) := by
  by_cases quote : first = '"'
  · subst quote
    simp only [string, List.cons_append, stringBody_junction (closed cs rfl)]
  · simp [string, quote]

theorem openString_junction (closed : Closes (first :: cs)) :
    openString (first :: cs ++ more) = openString (first :: cs) := by
  by_cases quote : first = '"'
  · subst quote
    simp only [openString, List.cons_append, stringBody_junction (closed cs rfl)]
  · simp [openString, quote]

theorem nameSymbol_junction
    (ends : first = ':' → isNameChar next = false ∧ next ∉ ['?', '!', '=']) :
    nameSymbol (first :: cs ++ next :: more) = nameSymbol (first :: cs) := by
  by_cases colon : first = ':'
  · subst colon
    obtain ⟨name, mark⟩ := ends rfl
    have noMark : (next == '?' || next == '!' || next == '=') = false := by
      simpa [and_assoc] using mark
    cases cs with
    | nil =>
      have noStart : (next.isAlpha || next == '_') = false := by
        simp only [isNameChar, Char.isAlphanum, Bool.or_eq_false_iff] at name
        simp [name]
      simp [nameSymbol, noStart]
    | cons d cs =>
      simp only [nameSymbol, List.cons_append]
      rw [oneLength_drop_junction name noMark, runLength_junction name]
  · simp [nameSymbol, colon]

theorem operatorSymbol_colon (rest : List Char) :
    operatorSymbol (':' :: rest) =
      match (symbolOperators.map fun text => fixed text.toList rest).foldl max 0 with
      | 0 => 0
      | length => 1 + length := by
  -- The longest operator is not to be evaluated.
  generalize longest : (symbolOperators.map fun text => fixed text.toList rest).foldl max 0 = most
  unfold operatorSymbol
  split
  · rename_i same
    cases same
    rewrite [longest]
    rfl
  · rename_i other
    exact absurd rfl (other rest)

theorem operatorSymbol_of_ne {c : Char} (other : c ≠ ':') (rest : List Char) :
    operatorSymbol (c :: rest) = 0 := by
  unfold operatorSymbol
  split
  · rename_i same
    exact absurd (List.cons.inj same).1 other
  · rfl

theorem operatorSymbol_junction
    (ends : first = ':' → ∀ text ∈ symbolOperators, next ∉ text.toList) :
    operatorSymbol (first :: cs ++ next :: more) = operatorSymbol (first :: cs) := by
  rw [List.cons_append]
  by_cases colon : first = ':'
  · subst colon
    have lengths : (symbolOperators.map fun text => fixed text.toList (cs ++ next :: more)) =
        symbolOperators.map fun text => fixed text.toList cs :=
      List.map_congr_left fun text mem => fixed_junction (ends rfl text mem)
    rw [operatorSymbol_colon, operatorSymbol_colon, lengths]
  · rw [operatorSymbol_of_ne colon, operatorSymbol_of_ne colon]

theorem label_junction (ends : isNameStart first = true → isNameChar next = false ∧ next ≠ ':') :
    label (first :: cs ++ next :: more) = label (first :: cs) := by
  cases starts : isNameStart first with
  | true =>
    obtain ⟨name, colon⟩ := ends starts
    simp only [label, List.cons_append]
    rw [oneLength_drop_junction name (by simpa using colon), runLength_junction name]
  | false => simp [label, starts]

theorem identifier_junction
    (ends : isNameStart first = true → isNameChar next = false ∧ next ≠ '?' ∧ next ≠ '!') :
    identifier (first :: cs ++ next :: more) = identifier (first :: cs) := by
  cases starts : isNameStart first with
  | true =>
    obtain ⟨name, mark⟩ := ends starts
    simp only [identifier, List.cons_append]
    rw [oneLength_drop_junction name (by simpa using mark), runLength_junction name]
  | false => simp [identifier, starts]

theorem constant_junction (ends : first.isUpper = true → isNameChar next = false) :
    constant (first :: cs ++ next :: more) = constant (first :: cs) := by
  cases starts : first.isUpper with
  | true =>
    simp only [constant, List.cons_append]
    rw [runLength_junction (ends starts)]
  | false => simp [constant, starts]

end LexicalRule

/-! ### Where no rule goes on -/

open LexicalRule

/-- No lexical rule goes on from a text, of which `first` is the first character and `cs` are the
others, to the character `next` after it. -/
structure Parts (first : Char) (cs : List Char) (next : Char) : Prop where
  fixed : ∀ fixed ∈ TokenKind.fixedTexts, fixed.2.toList.head? = some first →
    next ∉ fixed.2.toList.tail
  blank : isLineBlank first = true → isLineBlank next = false
  comment : first = '#' → next = '\n' ∨ '\n' ∈ cs
  digit : first.isDigit = true → next.isDigit = false
  string : first = '"' → (stringBody cs).2 = true
  name : isNameStart first = true ∨ first.isUpper = true ∨ first = ':' → isNameChar next = false
  mark : isNameStart first = true → next ∉ ['?', '!', ':']
  symbol : first = ':' → next ∉ ['?', '!', '='] ∧ ∀ text ∈ symbolOperators, next ∉ text.toList

/-- A character that no rule takes after others, except in strings and comments. -/
structure Separates (next : Char) : Prop where
  fixed : ∀ fixed ∈ TokenKind.fixedTexts, next ∉ fixed.2.toList.tail
  blank : isLineBlank next = false
  digit : next.isDigit = false
  name : isNameChar next = false
  mark : next ∉ ['?', '!', '=', ':']
  symbol : ∀ text ∈ symbolOperators, next ∉ text.toList

theorem separates_newline : Separates '\n' := by
  constructor <;> decide

theorem separates_dot : Separates '.' := by
  constructor <;> decide

section Lexemes

variable {first next : Char} {cs more : List Char}

theorem Separates.parts (separates : Separates next) (closed : Closes (first :: cs))
    (quiet : first = '#' → next = '\n' ∨ '\n' ∈ cs) : Parts first cs next where
  fixed fixed mem _ := separates.fixed fixed mem
  blank _ := separates.blank
  comment := quiet
  digit _ := separates.digit
  string quote := closed cs (by rw [quote])
  name _ := separates.name
  mark _ := fun mem =>
    separates.mark ((by decide : ['?', '!', ':'] ⊆ ['?', '!', '=', ':']) mem)
  symbol _ := ⟨fun mem =>
    separates.mark ((by decide : ['?', '!', '='] ⊆ ['?', '!', '=', ':']) mem), separates.symbol⟩

theorem Parts.closes (parts : Parts first cs next) : Closes (first :: cs) := by
  rintro rest same
  obtain ⟨quote, rfl⟩ := List.cons.inj same
  exact parts.string quote

/-- Where no rule goes on, each takes what it takes of the text alone. -/
theorem lexicalRules_junction (parts : Parts first cs next) :
    ∀ rule ∈ lexicalRules, rule.2 (first :: cs ++ next :: more) = rule.2 (first :: cs) := by
  rintro ⟨kind, rule⟩ mem
  cases isRule_of_mem mem with
  | fixed among => exact fixed_junction_of_head? (parts.fixed _ among)
  | blanks => exact runLength_junction_of_head parts.blank
  | integer => exact runLength_junction_of_head parts.digit
  | comment => exact comment_junction parts.comment
  | string => exact string_junction parts.closes
  | openString => exact openString_junction parts.closes
  | nameSymbol =>
    exact nameSymbol_junction fun colon => ⟨parts.name (.inr (.inr colon)), (parts.symbol colon).1⟩
  | operatorSymbol => exact operatorSymbol_junction fun colon => (parts.symbol colon).2
  | label =>
    exact label_junction fun starts =>
      ⟨parts.name (.inl starts), fun same => parts.mark starts (by simp [same])⟩
  | identifier =>
    exact identifier_junction fun starts => ⟨parts.name (.inl starts),
      fun same => parts.mark starts (by simp [same]),
      fun same => parts.mark starts (by simp [same])⟩
  | constant => exact constant_junction fun starts => parts.name (.inr (.inl starts))

theorem longestMatch_junction (parts : Parts first cs next) :
    longestMatch (first :: cs ++ next :: more) = longestMatch (first :: cs) := by
  have matches' (text : List Char) : longestMatch text =
      (lexicalRules.map fun rule => (rule.1, rule.2 text)).foldl
        (fun best found => longerMatch best found.1 found.2) none := by
    rw [List.foldl_map]
    rfl
  rw [matches', matches', List.map_congr_left fun rule mem => ?_]
  rw [lexicalRules_junction parts rule mem]

/-- A character from which no rule goes on. -/
theorem longestMatch_alone (parts : ∀ next, Parts first [] next) (more : List Char) :
    longestMatch (first :: more) = longestMatch [first] := by
  cases more with
  | nil => rfl
  | cons next more =>
    have junction : longestMatch ([first] ++ next :: more) = longestMatch [first] :=
      longestMatch_junction (parts next)
    exact junction

/-- Whether a lexeme of a kind may start with a character. -/
def LexemeKind.begins (c : Char) : LexemeKind → Bool
  | .blanks => isLineBlank c
  | .comment => c == '#'
  | .openString | .token .string => c == '"'
  | .token .integer => c.isDigit
  | .token .symbol => c == ':'
  | .token .label | .token .identifier => isNameStart c
  | .token .constant => c.isUpper
  | .token kind => (TokenKind.fixedTexts.lookup kind).any (·.toList.head? == some c)

/-- What a check of the fixed texts says of their first characters. -/
theorem fixedTexts_head {p : TokenKind × String → Char → Bool}
    (checked : (TokenKind.fixedTexts.all fun fixed => fixed.2.toList.head?.all (p fixed)) = true) :
    ∀ fixed ∈ TokenKind.fixedTexts, ∀ c ∈ fixed.2.toList.head?, p fixed c = true :=
  fun fixed mem => (Option.all_eq_true ..).1 (List.all_eq_true.1 checked fixed mem)

theorem fixedTexts_begin : ∀ fixed ∈ TokenKind.fixedTexts, ∀ c ∈ fixed.2.toList.head?,
    LexemeKind.begins c (.token fixed.1) = true :=
  fixedTexts_head (p := fun fixed c => LexemeKind.begins c (.token fixed.1)) (by decide)

theorem runLength_cons_pos {p : Char → Bool} (taken : 0 < runLength p (first :: cs)) :
    p first = true := by
  cases starts : p first with
  | true => rfl
  | false => simp [runLength, starts] at taken

/-- A rule that takes anything takes what may start a lexeme of its kind. -/
theorem begins_of_isRule {kind : LexemeKind} {rule : List Char → Nat} (is : IsRule kind rule)
    (taken : 0 < rule (first :: cs)) : kind.begins first = true := by
  cases is with
  | fixed among =>
    refine fixedTexts_begin _ among first (Decidable.byContradiction fun other => ?_)
    rw [fixed_of_head? other] at taken
    exact absurd taken (Nat.lt_irrefl 0)
  | blanks | integer => exact runLength_cons_pos taken
  | comment =>
    by_cases hash : first = '#'
    · simp [LexemeKind.begins, hash]
    · simp [comment, hash] at taken
  | string =>
    by_cases quote : first = '"'
    · simp [LexemeKind.begins, quote]
    · simp [string, quote] at taken
  | openString =>
    by_cases quote : first = '"'
    · simp [LexemeKind.begins, quote]
    · simp [openString, quote] at taken
  | nameSymbol =>
    by_cases colon : first = ':'
    · simp [LexemeKind.begins, colon]
    · simp [nameSymbol, colon] at taken
  | operatorSymbol =>
    by_cases colon : first = ':'
    · simp [LexemeKind.begins, colon]
    · simp [operatorSymbol_of_ne colon] at taken
  | label =>
    by_cases starts : isNameStart first = true
    · exact starts
    · simp [label, starts] at taken
  | identifier =>
    by_cases starts : isNameStart first = true
    · exact starts
    · simp [identifier, starts] at taken
  | constant =>
    by_cases starts : first.isUpper = true
    · exact starts
    · simp [constant, starts] at taken

/-- A character that starts only tokens of fixed texts. -/
def isPunctuation (c : Char) : Bool :=
  !(isLineBlank c || c == '#' || c == '"' || c == ':' || c.isDigit || isNameStart c || c.isUpper)

theorem parts_punctuation (punctuation : isPunctuation first = true)
    (fixed : ∀ fixed ∈ TokenKind.fixedTexts, fixed.2.toList.head? = some first →
      next ∉ fixed.2.toList.tail) : Parts first cs next := by
  simp only [isPunctuation, Bool.not_eq_true', Bool.or_eq_false_iff,
    beq_eq_false_iff_ne] at punctuation
  obtain ⟨⟨⟨⟨⟨⟨blank, hash⟩, quote⟩, colon⟩, digit⟩, name⟩, upper⟩ := punctuation
  exact {
    fixed
    blank := by simp [blank]
    comment := fun same => absurd same hash
    digit := by simp [digit]
    string := fun same => absurd same quote
    name := by simp [name, upper, colon]
    mark := by simp [name]
    symbol := fun same => absurd same colon }

/-- A text of one character that no fixed text goes on from. -/
theorem longestMatch_punctuation (punctuation : isPunctuation first = true)
    (alone : ∀ fixed ∈ TokenKind.fixedTexts, fixed.2.toList.head? = some first →
      fixed.2.toList.tail = []) (more : List Char) :
    longestMatch (first :: more) = longestMatch [first] :=
  longestMatch_alone (fun _ => parts_punctuation punctuation fun fixed mem starts => by
    simp [alone fixed mem starts]) more

/-- A line break is a token of its own. -/
theorem longestMatch_newline (more : List Char) :
    longestMatch ('\n' :: more) = some (.token .newline, 1) :=
  (longestMatch_punctuation (by decide) (by decide) more).trans (by decide)

theorem longestMatch_dot (more : List Char) : longestMatch ('.' :: more) = some (.token .dot, 1) :=
  (longestMatch_punctuation (by decide) (by decide) more).trans (by decide)

/-- The longest match may start as its text does. -/
theorem begins_of_longestMatch {kind : LexemeKind} {length : Nat}
    (found : longestMatch (first :: cs) = some (kind, length)) : kind.begins first = true := by
  have positive := longestMatch_pos found
  obtain ⟨rule, mem, rfl⟩ := longestMatch_mem found
  exact begins_of_isRule (isRule_of_mem mem) positive

theorem fixedTexts_unquoted : ∀ fixed ∈ TokenKind.fixedTexts, fixed.2.toList.head? ≠ some '"' := by
  decide

/-- Where a match is no open string, a string that starts is closed. -/
theorem closes_of_longestMatch {kind : LexemeKind} {length : Nat}
    (found : longestMatch cs = some (kind, length)) (closed : kind ≠ .openString) : Closes cs := by
  rintro rest rfl
  have positive := longestMatch_pos found
  have begins := begins_of_longestMatch found
  obtain ⟨rule, mem, rfl⟩ := longestMatch_mem found
  cases isRule_of_mem mem with
  | string =>
    unfold string at positive
    split at positive
    · rename_i same
      cases same
      split at positive
      · rename_i length body
        rw [body]
      · omega
    · omega
  | fixed among =>
    rw [fixed_of_head? (fixedTexts_unquoted _ among)] at positive
    exact absurd positive (Nat.lt_irrefl 0)
  | openString => exact absurd rfl closed
  | _ => exact absurd begins (by decide)

theorem fixedTexts_uncommented :
    ∀ fixed ∈ TokenKind.fixedTexts, fixed.2.toList.head? ≠ some '#' := by
  decide

theorem runLength_of_forall {p : Char → Bool} (all : ∀ c ∈ cs, p c = true) :
    runLength p cs = cs.length := by
  simp only [runLength, List.takeWhile_eq_self_iff.2 all]

/-- What starts with a `#` is a comment, which goes on to the end of the line. -/
theorem longestMatch_comment {kind : LexemeKind} {length : Nat}
    (found : longestMatch ('#' :: cs) = some (kind, length)) :
    kind = .comment ∧ ('\n' ∉ cs → length = cs.length + 1) := by
  have positive := longestMatch_pos found
  have begins := begins_of_longestMatch found
  obtain ⟨rule, mem, rfl⟩ := longestMatch_mem found
  cases isRule_of_mem mem with
  | comment =>
    refine ⟨rfl, fun unbroken => ?_⟩
    have whole : runLength (· != '\n') cs = cs.length :=
      runLength_of_forall fun c mem => by simpa using ne_of_mem_of_not_mem mem unbroken
    rw [comment, whole, Nat.add_comm]
  | fixed among =>
    rw [fixed_of_head? (fixedTexts_uncommented _ among)] at positive
    exact absurd positive (Nat.lt_irrefl 0)
  | _ => exact absurd begins (by decide)

theorem lexemes_nil : lexemes [] = ([], []) := by
  generalize none : ([] : List Char) = cs
  fun_cases lexemes cs with
  | case1 => rfl
  | _ => cases none

/-- What a match takes is part of the text. -/
theorem longestMatch_le {kind : LexemeKind} {length : Nat}
    (found : longestMatch cs = some (kind, length)) (closed : kind ≠ .openString) :
    length ≤ cs.length := by
  obtain ⟨rule, mem, rfl⟩ := longestMatch_mem found
  cases isRule_of_mem mem with
  | fixed => exact fixed_le _ _
  | blanks | integer => exact runLength_le _ _
  | comment => exact comment_le _
  | string => exact string_le _
  | openString => exact absurd rfl closed
  | nameSymbol => exact nameSymbol_le _
  | operatorSymbol => exact operatorSymbol_le _
  | label => exact label_le _
  | identifier => exact identifier_le _
  | constant => exact constant_le _

theorem lexemes_of_longestMatch {kind : LexemeKind} {length : Nat} (first : cs ≠ [])
    (found : longestMatch cs = some (kind, length)) :
    lexemes cs =
      (⟨kind, cs.take length⟩ :: (lexemes (cs.drop length)).1, (lexemes (cs.drop length)).2) := by
  fun_cases lexemes cs with
  | case1 => exact absurd rfl first
  | case2 c rest none => cases none.symm.trans found
  | case3 c rest kind' length' found' positive more unread split =>
    obtain ⟨rfl, rfl⟩ := Prod.mk.inj (Option.some.inj (found'.symm.trans found))
    rw [split]

/-- The lexemes of two texts with a character between them that separates them. -/
theorem lexemes_junction {kind : LexemeKind} (separates : Separates next)
    (single : ∀ more, longestMatch (next :: more) = some (kind, 1)) (more : List Char)
    (closed : ∀ lexeme ∈ (lexemes cs).1, lexeme.kind ≠ .openString)
    (quiet : ∀ lexeme ∈ (lexemes cs).1.getLast?, lexeme.kind = .comment → next = '\n')
    (read : (lexemes cs).2 = []) :
    lexemes (cs ++ next :: more) =
      ((lexemes cs).1 ++ ⟨kind, [next]⟩ :: (lexemes more).1, (lexemes more).2) := by
  fun_induction lexemes cs with
  | case1 => exact lexemes_of_longestMatch (by simp) (single more)
  | case2 c rest _ => cases read
  | case3 c rest kind length found positive others unread split ih =>
    rw [split] at ih
    obtain ⟨first, later⟩ := List.forall_mem_cons.1 closed
    have quiet' : c = '#' → next = '\n' ∨ '\n' ∈ rest := by
      rintro rfl
      obtain ⟨comment, whole⟩ := longestMatch_comment found
      refine or_iff_not_imp_right.2 fun unbroken => ?_
      have none : ('#' :: rest).drop (rest.length + 1) = [] := List.drop_length
      rw [whole unbroken, none, lexemes_nil] at split
      cases split
      exact quiet _ rfl comment
    have parts := separates.parts (closes_of_longestMatch found first) quiet'
    have found' : longestMatch (c :: rest ++ next :: more) = some (kind, length) :=
      (longestMatch_junction parts).trans found
    have le := longestMatch_le found first
    have quietLater : ∀ lexeme ∈ others.getLast?, lexeme.kind = .comment → next = '\n' := by
      intro lexeme mem
      refine quiet lexeme ?_
      rw [List.getLast?_cons, Option.mem_def.1 mem]
      rfl
    rw [lexemes_of_longestMatch (by simp) found', List.take_append_of_le_length le,
      List.drop_append_of_le_length le, ih later quietLater read]
    rfl

end Lexemes

/-! ### Places -/

section Places

variable {offset n : Nat} {spaced : Bool} {unread : List Char} {found : List Lexeme}
  {tokens : List Token}

/-- A first lexeme is passed over, or it is the first token. -/
theorem place_cons_ok {lexeme : Lexeme}
    (h : place offset spaced unread (lexeme :: found) = .ok tokens) :
    (lexeme.kind = .blanks ∨ lexeme.kind = .comment) ∧
        place (offset + lexeme.text.length) true unread found = .ok tokens ∨
      ∃ kind rest, lexeme.kind = .token kind ∧
        place (offset + lexeme.text.length) (kind == .newline) unread found = .ok rest ∧
        tokens = ⟨kind, .ofLength offset lexeme.text.length, String.ofList lexeme.text, spaced⟩ ::
          rest := by
  rw [place] at h
  split at h
  · rename_i blanks
    exact .inl ⟨.inl blanks, h⟩
  · rename_i comment
    exact .inl ⟨.inr comment, h⟩
  · cases h
  · rename_i kind token
    cases later : place (offset + lexeme.text.length) (kind == .newline) unread found with
    | error e =>
      rw [later] at h
      cases h
    | ok rest =>
      rw [later] at h
      cases h
      exact .inr ⟨kind, rest, token, later, rfl⟩

theorem place_nil_ok (h : place offset spaced unread [] = .ok tokens) :
    unread = [] ∧ tokens = [] := by
  cases unread with
  | nil =>
    cases h
    exact ⟨rfl, rfl⟩
  | cons c rest => cases h

/-- A source with tokens has read everything and left no string open. -/
theorem place_ok (h : place offset spaced unread found = .ok tokens) :
    unread = [] ∧ ∀ lexeme ∈ found, lexeme.kind ≠ .openString := by
  induction found generalizing offset spaced tokens with
  | nil => exact ⟨(place_nil_ok h).1, nofun⟩
  | cons lexeme more ih =>
    obtain ⟨passed, later⟩ | ⟨kind, rest, token, later, -⟩ := place_cons_ok h
    · obtain ⟨read, closed⟩ := ih later
      refine ⟨read, List.forall_mem_cons.2 ⟨?_, closed⟩⟩
      obtain kind | kind := passed <;> simp [kind]
    · obtain ⟨read, closed⟩ := ih later
      exact ⟨read, List.forall_mem_cons.2 ⟨by simp [token], closed⟩⟩

theorem place_of_token {lexeme : Lexeme} {kind : TokenKind} (token : lexeme.kind = .token kind) :
    place offset spaced unread (lexeme :: found) =
      (place (offset + lexeme.text.length) (kind == .newline) unread found).map
        (⟨kind, .ofLength offset lexeme.text.length, String.ofList lexeme.text, spaced⟩ :: ·) := by
  rw [place, token]

theorem place_of_passed {lexeme : Lexeme}
    (passed : lexeme.kind = .blanks ∨ lexeme.kind = .comment) :
    place offset spaced unread (lexeme :: found) =
      place (offset + lexeme.text.length) true unread found := by
  obtain kind | kind := passed <;> rw [place, kind]

/-- Lexemes that stand later give tokens that do. -/
theorem place_moved (h : place offset spaced unread found = .ok tokens) :
    place (offset + n) spaced unread found = .ok (tokens.map (Token.moved n)) := by
  induction found generalizing offset spaced tokens with
  | nil =>
    obtain ⟨rfl, rfl⟩ := place_nil_ok h
    rfl
  | cons lexeme more ih =>
    have shift : offset + n + lexeme.text.length = offset + lexeme.text.length + n := by omega
    obtain ⟨passed, later⟩ | ⟨kind, rest, token, later, rfl⟩ := place_cons_ok h
    · rw [place_of_passed passed, shift, ih later]
    · rw [place_of_token token, shift, ih later]
      simp [Except.map, Token.moved, Span.moved_ofLength]

/-- Tokens of lexemes one after the other: what precedes the later ones shows only in whether the
first of them is spaced. -/
theorem place_append (unread : List Char) (more : List Lexeme)
    (h : place offset spaced [] found = .ok tokens) :
    ∃ spaced', place offset spaced unread (found ++ more) =
      (place (offset + (lexemesText found).length) spaced' unread more).map (tokens ++ ·) := by
  induction found generalizing offset spaced tokens with
  | nil =>
    cases h
    refine ⟨spaced, ?_⟩
    show place offset spaced unread more = (place offset spaced unread more).map _
    cases place offset spaced unread more <;> rfl
  | cons lexeme others ih =>
    have shift : offset + (lexemesText (lexeme :: others)).length =
        offset + lexeme.text.length + (lexemesText others).length := by
      rw [lexemesText_cons, List.length_append, Nat.add_assoc]
    rw [List.cons_append, shift]
    obtain ⟨passed, later⟩ | ⟨kind, rest, token, later, rfl⟩ := place_cons_ok h
    · rw [place_of_passed passed]
      exact ih later
    · obtain ⟨spaced', eq⟩ := ih later
      refine ⟨spaced', ?_⟩
      rw [place_of_token token, eq]
      cases place _ spaced' unread more <;> rfl

theorem length_lexemesText {a : List Char} (read : (lexemes a).2 = []) :
    (lexemesText (lexemes a).1).length = a.length := by
  have text := lexemes_text a
  rw [read, List.append_nil] at text
  rw [text]

/-- The tokens of two texts with a character between them that is a token and separates them. -/
theorem placed_separated {a b : List Char} {next : Char} {kind : TokenKind} {first : List Token}
    (separates : Separates next)
    (single : ∀ more, longestMatch (next :: more) = some (.token kind, 1))
    (quiet : ∀ lexeme ∈ (lexemes a).1.getLast?, lexeme.kind = .comment → next = '\n')
    (ha : placed a = .ok first) :
    ∃ spaced, placed (a ++ next :: b) =
      (place (a.length + 1) (kind == .newline) (lexemes b).2 (lexemes b).1).map fun rest =>
        first ++ ⟨kind, .ofLength a.length 1, String.ofList [next], spaced⟩ :: rest := by
  obtain ⟨read, closed⟩ := place_ok ha
  have length := length_lexemesText read
  unfold placed at ha ⊢
  rw [read] at ha
  rw [lexemes_junction separates single b closed quiet read]
  obtain ⟨spaced, eq⟩ := place_append (lexemes b).2 (⟨.token kind, [next]⟩ :: (lexemes b).1) ha
  refine ⟨spaced, eq.trans ?_⟩
  rw [length, Nat.zero_add, place_of_token rfl]
  cases place (a.length + [next].length) (kind == .newline) (lexemes b).2 (lexemes b).1 <;> rfl

/-- The tokens of two sources with a line break between them. -/
theorem placed_junction {a b : List Char} {first second : List Token} (ha : placed a = .ok first)
    (hb : placed b = .ok second) :
    ∃ spaced, placed (a ++ '\n' :: b) =
      .ok (first ++ ⟨.newline, .ofLength a.length 1, "\n", spaced⟩ ::
        second.map (Token.moved (a.length + 1))) := by
  have later : place (0 + (a.length + 1)) true (lexemes b).2 (lexemes b).1 =
      .ok (second.map (Token.moved (a.length + 1))) := place_moved hb
  rw [Nat.zero_add] at later
  obtain ⟨spaced, eq⟩ := placed_separated (b := b) separates_newline longestMatch_newline
    (fun _ _ _ => rfl) ha
  refine ⟨spaced, eq.trans ?_⟩
  show (place (a.length + 1) true (lexemes b).2 (lexemes b).1).map _ = _
  rw [later]
  rfl

end Places

end Conformance.Dialect
