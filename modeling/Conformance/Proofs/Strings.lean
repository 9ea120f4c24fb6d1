import Conformance.Proofs.Receivers
import Conformance.Proofs.Reread
import Conformance.Proofs.Words
import Mathlib.Algebra.Group.Nat.Even

/-! String literals in a source and in a written tree. Both are read up to the same quote, and every
escape stands for the same in both but one: a backslash before a line break stands for nothing in a
source, and for the line break in a tree. -/

namespace Conformance.Dialect

open Text (isBlank)
open Grammar (unescape stringBodyOf)
open Node (readString? unescaped)

variable {c : Char} {cs rest : List Char}

/-! ### Between the quotes -/

/-- What stands between the quotes of a string literal: pairs of a backslash and any character, and
characters that are neither a backslash nor a quote. -/
inductive StringBody : List Char → Prop
  | nil : StringBody []
  | single {c : Char} {cs : List Char} : c ≠ '"' → c ≠ '\\' → StringBody cs → StringBody (c :: cs)
  | pair {c : Char} {cs : List Char} : StringBody cs → StringBody ('\\' :: c :: cs)

/-- The rule for strings goes up to the quote after such a text. -/
theorem stringBody_of_closed (closed : (LexicalRule.stringBody cs).2 = true) :
    ∃ body rest, cs = body ++ '"' :: rest ∧ StringBody body ∧
      (LexicalRule.stringBody cs).1 = body.length := by
  fun_induction LexicalRule.stringBody cs with
  | case1 | case3 => cases closed
  | case2 rest => exact ⟨[], rest, rfl, .nil, rfl⟩
  | case4 c rest length ended read ih =>
    rw [read] at ih
    obtain ⟨body, after, rfl, inside, same⟩ := ih closed
    exact ⟨'\\' :: c :: body, after, rfl, .pair inside, congrArg (· + 2) same⟩
  | case5 c rest quote lone escape length ended read ih =>
    have plain : c ≠ '\\' := by
      rintro rfl
      cases rest with
      | nil => exact lone rfl rfl
      | cons d rest => exact escape d rest rfl rfl
    rw [read] at ih
    obtain ⟨body, after, rfl, inside, same⟩ := ih closed
    exact ⟨c :: body, after, rfl, .single quote plain inside, congrArg (· + 1) same⟩

theorem StringBody.closed (inside : StringBody cs) (rest : List Char) :
    LexicalRule.stringBody (cs ++ '"' :: rest) = (cs.length, true) := by
  induction inside with
  | nil => rfl
  | single quote plain inside ih =>
    rw [List.cons_append, LexicalRule.stringBody, ih]
    · rfl
    · exact quote
    · exact fun same => absurd same plain
    · exact fun _ _ same => absurd same plain
  | pair inside ih =>
    rw [List.cons_append, List.cons_append, LexicalRule.stringBody, ih]
    rfl

/-- What the rule for strings takes as a whole stands between two quotes. -/
theorem quoted_of_string (nonempty : cs ≠ []) (whole : LexicalRule.string cs = cs.length) :
    ∃ body, cs = '"' :: (body ++ ['"']) ∧ StringBody body := by
  have positive := List.length_pos_iff.2 nonempty
  unfold LexicalRule.string at whole
  split at whole
  · rename_i rest
    split at whole
    · rename_i length read
      have closed : (LexicalRule.stringBody rest).2 = true := by rw [read]
      obtain ⟨body, after, rfl, inside, same⟩ := stringBody_of_closed closed
      rw [read] at same
      dsimp only at same
      simp only [List.length_cons, List.length_append] at whole
      obtain rfl : after = [] := List.length_eq_zero_iff.1 (by omega)
      exact ⟨body, rfl, inside⟩
    · omega
  · omega

theorem fixedTexts_no_string : ∀ fixed ∈ TokenKind.fixedTexts, fixed.1 ≠ .string := by decide

/-- A text that is one lexeme is what the longest match takes. -/
theorem longestMatch_of_lexemes {kind : LexemeKind} (closed : kind ≠ .openString)
    (single : lexemes cs = ([⟨kind, cs⟩], [])) : longestMatch cs = some (kind, cs.length) := by
  revert single
  fun_cases lexemes cs with
  | case1 | case2 =>
    intro single
    cases single
  | case3 c rest kind' length found positive more unread split =>
    intro single
    simp only [Prod.mk.injEq, List.cons.injEq, Lexeme.mk.injEq] at single
    obtain ⟨⟨⟨rfl, whole⟩, -⟩, -⟩ := single
    have le := longestMatch_le found closed
    have taken := congrArg List.length whole
    rw [List.length_take, Nat.min_eq_left le] at taken
    rw [found, taken]

/-- A text that is one string token stands between two quotes. -/
theorem quoted_of_placed {text : String} {span : Span} {spaced : Bool}
    (literal : placed text.toList = .ok [⟨.string, span, text, spaced⟩]) :
    ∃ body, text.toList = '"' :: (body ++ ['"']) ∧ StringBody body := by
  have found := longestMatch_of_lexemes (by decide) (lexemes_of_placed literal)
  have nonempty := List.length_pos_iff.1 (longestMatch_pos found)
  obtain ⟨rule, mem, whole⟩ := longestMatch_mem found
  generalize kindEq : LexemeKind.token .string = kind at mem
  cases isRule_of_mem mem with
  | string => exact quoted_of_string nonempty whole
  | fixed among => exact absurd (LexemeKind.token.inj kindEq).symm (fixedTexts_no_string _ among)
  | _ => cases kindEq

/-- With quotes around it, such a text is one string token. -/
theorem StringBody.longestMatch (inside : StringBody cs) :
    longestMatch ('"' :: (cs ++ ['"'])) =
      some (.token .string, ('"' :: (cs ++ ['"'])).length) := by
  have mem : (.token .string, LexicalRule.string) ∈ lexicalRules := by simp [lexicalRules]
  have whole : LexicalRule.string ('"' :: (cs ++ ['"'])) = ('"' :: (cs ++ ['"'])).length := by
    simp [LexicalRule.string, inside.closed]
  have positive : 0 < LexicalRule.string ('"' :: (cs ++ ['"'])) := whole ▸ Nat.succ_pos _
  rw [← whole]
  refine longestMatch_eq mem positive fun {kind' rule'} is => ?_
  by_cases taken : 0 < rule' ('"' :: (cs ++ ['"']))
  · have begins := begins_of_isRule is taken
    cases is with
    | string => exact ⟨Nat.le_refl _, fun _ => rfl⟩
    | openString =>
      -- The quote at the end is no part of an open string.
      have less : LexicalRule.openString ('"' :: (cs ++ ['"'])) + 1 =
          LexicalRule.string ('"' :: (cs ++ ['"'])) := by
        simp only [LexicalRule.openString, LexicalRule.string, inside.closed]
        omega
      exact ⟨by omega, fun same => by omega⟩
    | fixed among =>
      rw [LexicalRule.fixed_of_head? (fixedTexts_unquoted _ among)] at taken
      exact absurd taken (Nat.lt_irrefl 0)
    | _ => exact absurd begins (by decide)
  · exact ⟨by omega, fun same => by omega⟩

/-- A text is one string token if it has quotes around what may stand between them, and only
then. -/
theorem placed_string_iff {text : String} :
    (∃ span spaced, placed text.toList = .ok [⟨.string, span, text, spaced⟩]) ↔
      ∃ body, text.toList = '"' :: (body ++ ['"']) ∧ StringBody body := by
  refine ⟨fun ⟨_, _, literal⟩ => quoted_of_placed literal, fun ⟨body, quoted, inside⟩ => ?_⟩
  refine ⟨.ofLength 0 text.toList.length, true, ?_⟩
  rw [placed, quoted, lexemes_whole (List.cons_ne_nil _ _) inside.longestMatch, ← quoted,
    place_of_token rfl, String.ofList_toList]
  rfl

/-! ### What an escape stands for -/

theorem unescape_plain (plain : c ≠ '\\') (cs : List Char) :
    unescape (c :: cs) = c :: unescape cs := by
  simp [unescape, plain]

/-- In a source, a backslash before a line break stands for nothing. -/
theorem unescape_pair (c : Char) (cs : List Char) :
    unescape ('\\' :: c :: cs) = if c = '\n' then unescape cs else unescaped c :: unescape cs := by
  by_cases feed : c = 'n'
  · subst feed
    rfl
  by_cases tab : c = 't'
  · subst tab
    rfl
  by_cases broken : c = '\n'
  · subst broken
    rfl
  rw [if_neg broken, unescape, unescaped] <;> assumption

/-- The number of backslashes at the end of a text. -/
def trailingBackslashes (cs : List Char) : Nat := (cs.reverse.takeWhile (· == '\\')).length

/-- A line break stands directly after a backslash that no other backslash escapes: those before it
come in pairs. -/
def EscapesBreak (cs : List Char) : Prop :=
  ∃ before after, cs = before ++ '\\' :: '\n' :: after ∧ Even (trailingBackslashes before)

/-- Before an escape, backslashes escape each other as they do without it. -/
theorem even_trailingBackslashes_pair :
    Even (trailingBackslashes ('\\' :: c :: cs)) ↔ Even (trailingBackslashes cs) := by
  have split : ('\\' :: c :: cs).reverse = cs.reverse ++ [c, '\\'] := by simp
  unfold trailingBackslashes
  rw [split, List.takeWhile_append]
  split
  · rename_i whole
    rw [List.length_append, whole]
    by_cases escaped : c = '\\'
    · subst escaped
      exact Nat.even_add.trans (iff_true_right ⟨1, rfl⟩)
    · simp [escaped]
  · rfl

theorem trailingBackslashes_plain (plain : c ≠ '\\') (cs : List Char) :
    trailingBackslashes (c :: cs) = trailingBackslashes cs := by
  unfold trailingBackslashes
  rw [List.reverse_cons, List.takeWhile_append]
  split
  · simp_all
  · rfl

theorem not_escapesBreak_nil : ¬ EscapesBreak [] := by
  rintro ⟨before, after, same, -⟩
  simp at same

theorem escapesBreak_plain (plain : c ≠ '\\') : EscapesBreak (c :: cs) ↔ EscapesBreak cs := by
  constructor
  · rintro ⟨before, after, same, even⟩
    cases before with
    | nil => exact absurd (List.cons.inj same).1 plain
    | cons first before =>
      obtain ⟨rfl, rfl⟩ := List.cons.inj same
      exact ⟨before, after, rfl, trailingBackslashes_plain plain before ▸ even⟩
  · rintro ⟨before, after, rfl, even⟩
    exact ⟨c :: before, after, rfl, (trailingBackslashes_plain plain before).symm ▸ even⟩

theorem escapesBreak_pair : EscapesBreak ('\\' :: c :: cs) ↔ c = '\n' ∨ EscapesBreak cs := by
  constructor
  · rintro ⟨before, after, same, even⟩
    match before with
    | [] => exact .inl (List.cons.inj (List.cons.inj same).2).1
    | [slash] =>
      obtain ⟨rfl, -⟩ := List.cons.inj same
      exact absurd even (by decide)
    | slash :: escaped :: before =>
      simp only [List.cons_append, List.cons.injEq] at same
      obtain ⟨rfl, rfl, rfl⟩ := same
      exact .inr ⟨before, after, rfl, even_trailingBackslashes_pair.1 even⟩
  · rintro (rfl | ⟨before, after, rfl, even⟩)
    · exact ⟨[], cs, rfl, by decide⟩
    · exact ⟨'\\' :: c :: before, after, rfl, even_trailingBackslashes_pair.2 even⟩

/-! ### What is read -/

/-- The reader takes all between the quotes. It finds at least as many characters as there are in a
source, and more where a line break is escaped. -/
theorem StringBody.readString? (inside : StringBody cs) (rest : List Char) :
    ∃ value, Node.readString? (cs ++ '"' :: rest) = some (value, rest) ∧
      (unescape cs).length ≤ value.length ∧
      (value = unescape cs ↔ ¬ EscapesBreak (cs ++ ['"'])) := by
  induction inside with
  | nil =>
    have none : ¬ EscapesBreak ['"'] := by
      rw [escapesBreak_plain (by decide)]
      exact not_escapesBreak_nil
    exact ⟨[], rfl, Nat.le_refl 0, iff_of_true rfl none⟩
  | @single c cs quote plain inside ih =>
    obtain ⟨value, read, le, same⟩ := ih
    refine ⟨c :: value, ?_, ?_, ?_⟩
    · rw [List.cons_append, Node.readString?_plain quote plain, read]
      rfl
    · rw [unescape_plain plain]
      exact Nat.succ_le_succ le
    · rw [unescape_plain plain, List.cons_append, escapesBreak_plain plain, ← same]
      exact List.cons_inj_right c
  | @pair c cs inside ih =>
    obtain ⟨value, read, le, same⟩ := ih
    refine ⟨unescaped c :: value, ?_, ?_⟩
    · rw [List.cons_append, List.cons_append, Node.readString?, read]
      rfl
    rw [unescape_pair, List.cons_append, List.cons_append, escapesBreak_pair, not_or, ← same]
    by_cases broken : c = '\n'
    · rw [if_pos broken]
      refine ⟨Nat.le_succ_of_le le, iff_of_false (fun longer => ?_) fun plain => plain.1 broken⟩
      have lengths := congrArg List.length longer
      rw [List.length_cons] at lengths
      omega
    · rw [if_neg broken, and_iff_right broken]
      exact ⟨Nat.succ_le_succ le, List.cons_inj_right _⟩

/-- A tree of one string is read as that. -/
theorem Node.read_str {text : String} {value : List Char} (quoted : text.toList = '"' :: cs)
    (found : Node.readString? (cs ++ [')']) = some (value, [')'])) :
    Node.read ("(str " ++ text ++ ")") = .ok (.bare .str [.str (String.ofList value)]) := by
  have name := (Node.isName_kind .str).2
  have written : ("(str " ++ text ++ ")").toList =
      '(' :: (NodeKind.str.name.toList ++ ([' '] ++ '"' :: (cs ++ [')']))) := by
    simp [quoted, NodeKind.name]
  have whole : Node.ofItems (Node.items ("(str " ++ text ++ ")").toList) =
      .ok (.bare .str [.str (String.ofList value)]) := by
    have stops : Node.Stops ([' '] ++ '"' :: (cs ++ [')'])) := Node.stops_cons (by decide) _
    have blank : ∀ c ∈ [' '], isBlank c = true := List.forall_mem_singleton.2 rfl
    rw [written, Node.items_opening name stops, Node.items_blanks blank, Node.items_quote found,
      Node.items_closing, Node.items_nil]
    simp only [Node.ofItems, Node.openNode_name]
    rfl
  rw [Node.read, whole]
  rfl

/-- Trees of one string are the same if the strings are. -/
theorem Node.same_str {value : List Char} {token : Token} :
    Node.same (.bare .str [.str (String.ofList value)]) (Grammar.stringNode token) = true ↔
      value = unescape (stringBodyOf token.text) := by
  simp [Node.same, Node.sameChildren, Node.sameChild, Node.bare, Node.located, Grammar.stringNode,
    String.ofList_inj]

namespace Parser

/-- A string literal is the same in every version. -/
theorem parse_string {text : String} {span : Span} {spaced : Bool} (parser : Parser)
    (literal : placed text.toList = .ok [⟨.string, span, text, spaced⟩]) :
    (parser.parse text).1 = .ok (some (Grammar.stringNode ⟨.string, span, text, spaced⟩)) := by
  let token : Token := ⟨.string, span, text, spaced⟩
  have isString : token.kind = .string := rfl
  obtain ⟨after, program⟩ := (Grammar.LiteralToken.string isString).program parser.features
  exact congrArg Prod.fst (parse_of_program literal program)

/-- A string literal is read in a tree as it is in a source of any version, unless a line break is
escaped in it. -/
theorem strings_agree {encoding : Encoding} {text : String} {span : Span} {spaced : Bool}
    (literal : tokenize encoding text = .ok [⟨.string, span, text, spaced⟩]) :
    ∃ found, Node.read ("(str " ++ text ++ ")") = .ok found ∧ ∀ parser : Parser,
      ∃ node, (parser.parse text).1 = .ok (some node) ∧ node.kind = .str ∧
        node.allChildren = [.str (String.ofList (unescape (stringBodyOf text)))] ∧
        (Node.same found node = true ↔ ¬ EscapesBreak text.toList) := by
  rw [tokenize_eq] at literal
  obtain ⟨body, quoted, inside⟩ := quoted_of_placed literal
  obtain ⟨value, found, -, same⟩ := inside.readString? [')']
  have content : stringBodyOf text = body := by simp [stringBodyOf, quoted]
  refine ⟨_, Node.read_str quoted (by simpa using found), fun parser =>
    ⟨_, parser.parse_string literal, rfl, rfl, ?_⟩⟩
  rw [quoted, escapesBreak_plain (by decide), ← same, ← content]
  exact Node.same_str

/-- A line break after a backslash that is escaped itself, and an escaped quote. -/
theorem strings_agree_escapes :
    ∃ span spaced, tokenize .utf8 "\"\\\\\n\\\"(é\"" =
        .ok [⟨.string, span, "\"\\\\\n\\\"(é\"", spaced⟩] ∧
      ∃ found node, Node.read ("(str " ++ "\"\\\\\n\\\"(é\"" ++ ")") = .ok found ∧
        (newest.parse "\"\\\\\n\\\"(é\"").1 = .ok (some node) ∧ Node.same found node = true := by
  have inside : StringBody ['\\', '\\', '\n', '\\', '"', '(', 'é'] := by
    refine .pair (.single ?_ ?_ (.pair (.single ?_ ?_ (.single ?_ ?_ .nil)))) <;> decide
  obtain ⟨span, spaced, literal⟩ :=
    (@placed_string_iff "\"\\\\\n\\\"(é\"").2 ⟨_, rfl, inside⟩
  rw [← tokenize_eq .utf8] at literal
  have unbroken : ¬ EscapesBreak "\"\\\\\n\\\"(é\"".toList := by
    simp [escapesBreak_plain, escapesBreak_pair, not_escapesBreak_nil]
  obtain ⟨found, read, agrees⟩ := strings_agree literal
  obtain ⟨node, parsed, -, -, same⟩ := agrees newest
  exact ⟨span, spaced, literal, found, node, read, parsed, same.2 unbroken⟩

end Parser

end Conformance.Dialect
