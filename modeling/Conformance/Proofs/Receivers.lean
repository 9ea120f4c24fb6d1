import Conformance.Proofs.Idle
import Conformance.Proofs.Junction
import Conformance.Proofs.Acceptance
import Conformance.Proofs.Expressions

/-! Literals before a dot. A literal is one token, or a minus and the digits directly after it. What
is one token is an operand that calls may follow; a number with a minus is not. -/

namespace Conformance.Dialect

/-! ### The tokens of a source with a dot and a name after it -/

section Tokens

variable {offset : Nat} {spaced : Bool} {unread cs : List Char} {found : List Lexeme}
  {tokens : List Token}

/-- Blanks and comments are no tokens. -/
theorem place_passed (passed : ∀ lexeme ∈ found, lexeme.kind = .blanks ∨ lexeme.kind = .comment)
    (h : place offset spaced unread found = .ok tokens) : tokens = [] := by
  induction found generalizing offset spaced with
  | nil => exact (place_nil_ok h).2
  | cons lexeme more ih =>
    obtain ⟨first, others⟩ := List.forall_mem_cons.1 passed
    rw [place_of_passed first] at h
    exact ih others h

/-- Before blanks and comments at the end, a token stands among the characters of the lexemes, and
its text is part of them. -/
theorem place_within {trailing : List Lexeme}
    (passed : ∀ lexeme ∈ trailing, lexeme.kind = .blanks ∨ lexeme.kind = .comment)
    (h : place offset spaced unread (found ++ trailing) = .ok tokens) :
    ∀ token ∈ tokens, token.span.stop ≤ offset + (lexemesText found).length ∧
      token.text.toList.length ≤ (lexemesText found).length := by
  induction found generalizing offset spaced tokens with
  | nil =>
    rw [place_passed passed h]
    exact nofun
  | cons lexeme more ih =>
    have sum : (lexemesText (lexeme :: more)).length =
        lexeme.text.length + (lexemesText more).length := by
      rw [lexemesText_cons, List.length_append]
    have within {spaced : Bool} {rest : List Token}
        (later : place (offset + lexeme.text.length) spaced unread (more ++ trailing) = .ok rest)
        (token : Token) (mem : token ∈ rest) :
        token.span.stop ≤ offset + (lexemesText (lexeme :: more)).length ∧
          token.text.toList.length ≤ (lexemesText (lexeme :: more)).length := by
      obtain ⟨stop, text⟩ := ih later token mem
      omega
    obtain ⟨-, later⟩ | ⟨kind, rest, -, later, rfl⟩ := place_cons_ok h
    · exact within later
    · refine List.forall_mem_cons.2 ⟨⟨?_, ?_⟩, within later⟩
      · simp only [Span.ofLength]
        omega
      · simp only [String.toList_ofList]
        omega

theorem eq_nil_of_lexemesText (lawful : ∀ lexeme ∈ found, lexeme.Lawful)
    (none : (lexemesText found).length = 0) : found = [] := by
  cases found with
  | nil => rfl
  | cons lexeme more =>
    have some := List.length_pos_iff.2 (lawful lexeme (.head _)).nonempty
    rw [lexemesText_cons, List.length_append] at none
    omega

/-- A text that is one token is one lexeme. -/
theorem lexemes_of_placed {kind : TokenKind} {span : Span} {word : String}
    (h : placed word.toList = .ok [⟨kind, span, word, spaced⟩]) :
    lexemes word.toList = ([⟨.token kind, word.toList⟩], []) := by
  have read := (place_ok h).1
  have whole := length_lexemesText read
  have lawful := lexemes_lawful word.toList
  unfold placed at h
  generalize split : (lexemes word.toList).1 = found at h whole lawful
  obtain _ | ⟨lexeme, more⟩ := found
  · cases (place_nil_ok h).2
  have some := List.length_pos_iff.2 (lawful lexeme (.head _)).nonempty
  have sum : (lexemesText (lexeme :: more)).length =
      lexeme.text.length + (lexemesText more).length := by
    rw [lexemesText_cons, List.length_append]
  obtain ⟨-, later⟩ | ⟨kind', rest, token, later, same⟩ := place_cons_ok h
  · rw [← List.append_nil more] at later
    have le := (place_within (List.forall_mem_nil _) later _ (.head _)).2
    dsimp only at le
    omega
  · simp only [List.cons.injEq, Token.mk.injEq] at same
    obtain ⟨⟨rfl, -, text, -⟩, rfl⟩ := same
    have text' : word.toList = lexeme.text := by rw [text, String.toList_ofList]
    obtain rfl := eq_nil_of_lexemesText (fun lexeme mem => lawful lexeme (.tail _ mem))
      (show (lexemesText more).length = 0 by rw [← text'] at sum; omega)
    obtain ⟨lexemeKind, text''⟩ := lexeme
    refine Prod.ext (split.trans ?_) read
    rw [text']
    simpa using token

/-- The last token of a source, which ends with it: no blank and no comment does. -/
structure EndsWith (source : String) (last : Token) : Prop where
  tokens : ∃ tokens, placed source.toList = .ok tokens ∧ tokens.getLast? = some last
  stop : last.span.stop = source.toList.length

/-- The lexeme at the end is that of the last token. -/
theorem EndsWith.quiet {source : String} {last : Token} (ends : EndsWith source last) :
    ∀ lexeme ∈ (lexemes source.toList).1.getLast?, lexeme.kind ≠ .comment := by
  obtain ⟨tokens, tokenized, final⟩ := ends.tokens
  have read := (place_ok tokenized).1
  have whole := length_lexemesText read
  have lawful := lexemes_lawful source.toList
  intro lexeme mem comment
  obtain ⟨before, split⟩ := List.getLast?_eq_some_iff.1 mem
  have some := List.length_pos_iff.2 (lawful lexeme (by simp [split])).nonempty
  have sum : (lexemesText (lexemes source.toList).1).length =
      (lexemesText before).length + lexeme.text.length := by
    rw [split, lexemesText, List.flatMap_append, List.length_append]
    simp [lexemesText]
  unfold placed at tokenized
  rw [split] at tokenized
  have le := (place_within (by simp [comment]) tokenized last (List.mem_of_getLast? final)).1
  have stop := ends.stop
  omega

/-- The tokens of a source with a dot and a name after it. -/
theorem placed_dot {source word : String} {last : Token} {span : Span}
    (ends : EndsWith source last) (ha : placed source.toList = .ok tokens)
    (hb : placed word.toList = .ok [⟨.identifier, span, word, spaced⟩]) :
    ∃ dot name, placed (source ++ "." ++ word).toList = .ok (tokens ++ [dot, name]) ∧
      dot.kind = .dot ∧ name.kind = .identifier ∧ name.text = word := by
  have text : (source ++ "." ++ word).toList = source.toList ++ '.' :: word.toList := by simp
  obtain ⟨spaced', eq⟩ := placed_separated (b := word.toList) separates_dot longestMatch_dot
    (fun lexeme mem comment => absurd comment (ends.quiet lexeme mem)) ha
  rw [lexemes_of_placed hb, place_of_token rfl] at eq
  exact ⟨⟨.dot, _, _, spaced'⟩, ⟨.identifier, _, _, _⟩, text ▸ eq, rfl, rfl,
    String.ofList_toList⟩

end Tokens

/-! ### Literals -/

/-- The kinds of literals, and of `self` and constants. -/
def NodeKind.isLiteral : NodeKind → Bool
  | .int | .str | .sym | .nilValue | .trueValue | .falseValue | .selfValue | .const => true
  | _ => false

namespace Grammar

open ParseState

/-- What a literal of one token stands for. -/
inductive LiteralToken (token : Token) : Node → Prop where
  | integer {value : Child} : token.kind = .integer →
      Child.integer? token.text.toList = some value →
      LiteralToken token (.located .int [value] (some token.span) [("operator", none)])
  | string : token.kind = .string → LiteralToken token (stringNode token)
  | symbol : token.kind = .symbol → LiteralToken token (symbolNode token)
  | keyword {value : NodeKind} : keywordValue? token.kind = some value →
      LiteralToken token (leaf value token)
  | constant : token.kind = .constant → LiteralToken token (constantNode token)

/-- A literal can be read from one state on to another: it is one token, or an integer with a
minus directly before it. -/
inductive Literal (s : ParseState) : Node → ParseState → Prop where
  | token {token : Token} {r : List Token} {node : Node} : s.rest = token :: r →
      LiteralToken token node → Literal s node (s.leaving r)
  | negative {node : Node} {t : ParseState} : Negative s node t → Literal s node t

variable {features : Features} {phrase : Phrase} {value : phrase.Result} {s t : ParseState}

/-- An expression that stands for a literal is that and nothing more. -/
theorem Derives.literal {node : Node} (h : Derives features (.of .expression) s node t)
    (literal : node.kind.isLiteral = true) : Literal s node t := by
  have primary : node.kind.isPrimary = true := by
    revert literal
    cases node.kind <;> simp [NodeKind.isLiteral, NodeKind.isPrimary]
  obtain found | negative := h.alone primary
  · cases found with
    | integer token value => exact .token token.eq (.integer token.kind_eq value)
    | string token => exact .token token.eq (.string token.kind_eq)
    | symbol token => exact .token token.eq (.symbol token.kind_eq)
    | keyword value token => exact .token token.eq (.keyword (token.kind_eq ▸ value))
    | constant token => exact .token token.eq (.constant token.kind_eq)
    | adjacentCall _ _ called | wordCall _ _ _ _ called =>
      exact absurd primary (by simp [show _ = false from called.alone])
    | lambda => exact absurd primary (by simp [closureNode_isPrimary])
    | _ => cases literal
  · exact .negative negative

/-- A literal of one token is read wherever its token stands. -/
theorem LiteralToken.derives {token : Token} {node : Node} {r : List Token}
    (literal : LiteralToken token node) (next : s.rest = token :: r) :
    Derives features .primary s node (s.leaving r) := by
  cases literal with
  | integer kind value => exact .integer ⟨next, kind⟩ value
  | string kind => exact .string ⟨next, kind⟩
  | symbol kind => exact .symbol ⟨next, kind⟩
  | keyword value => exact .keyword value ⟨next, rfl⟩
  | constant kind => exact .constant ⟨next, kind⟩

/-- Neither a sign nor a name nor the end of a statement is a literal. -/
theorem LiteralToken.starts {token : Token} {node : Node} (literal : LiteralToken token node) :
    token.kind ≠ .minus ∧ token.kind ≠ .bang ∧ token.kind ≠ .identifier ∧
      token.kind ≠ .newline ∧ token.kind ≠ .semicolon := by
  cases literal with
  | keyword value =>
    revert value
    generalize token.kind = kind
    cases kind <;> simp [keywordValue?]
  | _ => simp_all

/-- Only a number with a minus has an operator. -/
theorem LiteralToken.unsigned {token : Token} {node : Node} (literal : LiteralToken token node) :
    node.span? "operator" = none := by
  cases literal <;> rfl

/-- Where a phrase of an expression may start: a dot is no place for one. -/
def Phrase.Undotted (s : ParseState) : Phrase → Prop
  | .of .expression | .of (.operators _) | .of .unary | .primary => s.kind? ≠ some .dot
  | _ => True

theorem Derives.undotted (h : Derives features phrase s value t) : phrase.Undotted s := by
  induction h with
  | unassigned _ _ ih | operators _ _ ih | chain _ _ _ _ ih => exact ih
  | assignment token | negative token | minus token | bang token | integer token | string token
  | symbol token | constant token | adjacentCall token | numberedVariable token
  | localVariable token | wordCall token | parenthesized token | method token
  | classDefinition token | whileLoop token | definedWord token | definedParens token
  | lambda _ token | caseMatch _ token | caseElse _ token =>
    simp [Phrase.Undotted, token.kind?_eq]
  | keyword value token =>
    rintro here
    cases token.kind?_eq.symm.trans here
    cases value
  | _ => trivial

/-! ### A dot after a literal -/

section Dot

variable {tokens more : List Token} {token dot name : Token} {node : Node}

/-- The first statement of a source with more tokens at its end. -/
theorem pastTerminators_startOf_append (some : (startOf tokens).pastTerminators.rest ≠ [])
    (more : List Token) :
    (startOf (tokens ++ more)).pastTerminators =
      (startOf tokens).pastTerminators.leaving ((startOf tokens).pastTerminators.rest ++ more) := by
  have rest : (tokens ++ more).dropWhile (fun token => token.kind == .newline ||
      token.kind == .semicolon) = (tokens.dropWhile fun token => token.kind == .newline ||
        token.kind == .semicolon) ++ more := by
    rw [List.dropWhile_append, if_neg (by rwa [List.isEmpty_iff])]
  exact congrArg (startOf tokens).leaving rest

theorem LiteralToken.not_assigns {r : List Token} (literal : LiteralToken token node)
    (next : s.rest = token :: r) : ¬ s.Assigns := by
  rintro ⟨other, _, _, here, -⟩
  obtain ⟨rfl, -⟩ := List.cons.inj (next.symm.trans here.eq)
  exact literal.starts.2.2.1 here.kind_eq

/-- An operand that no operator follows. -/
theorem Derives.expression_of_unary (h : Derives features (.of .unary) s node t)
    (unassigned : ¬ s.Assigns) (slack : ∀ kind ∈ t.kind?, bindingPower? kind = none) :
    Derives features (.of .expression) s node t := by
  refine .unassigned unassigned (.operators h (.noOperator fun kind mem tighter binds => ?_))
  rw [slack kind mem] at binds
  cases binds

/-- A literal of one token, and calls after it. -/
theorem LiteralToken.derives_chain {r : List Token} {called : Node}
    (literal : LiteralToken token node) (next : s.rest = token :: r)
    (calls : Derives features (.of (.callsAfter node)) (s.leaving r) called t)
    (slack : ∀ kind ∈ t.kind?, bindingPower? kind = none) :
    Derives features (.of .expression) s called t := by
  have first : s.kind? = some token.kind := by rw [kind?, next]; rfl
  obtain ⟨noMinus, noBang, -⟩ := literal.starts
  have chain : Derives features (.of .unary) s called t :=
    .chain (by simpa [first] using noMinus) (by simpa [first] using noBang) (literal.derives next)
      calls
  exact chain.expression_of_unary (literal.not_assigns next) slack

/-- A program of one literal that is one token. -/
theorem LiteralToken.program (literal : LiteralToken token node) (features : Features) :
    ∃ after, Program features [token] [node] after := by
  have whole : Derives features (.of .expression) (startOf [token]) node
      ((startOf [token]).leaving []) :=
    literal.derives_chain rfl (.noCall nofun) nofun
  refine ⟨_, .of_expression whole ?_ rfl⟩
  rintro _ ⟨⟩
  exact literal.starts.2.2.2

theorem pastTerminators_rest_suffix (s : ParseState) : s.pastTerminators.rest <:+ s.rest :=
  (past_terminators s.rest).2

theorem getLast?_of_suffix {r : List Token} (suffix : r <:+ tokens) (some : r ≠ []) :
    tokens.getLast? = r.getLast? := by
  obtain ⟨before, rfl⟩ := suffix
  rw [List.getLast?_append, List.getLast?_eq_some_getLast some]
  rfl

/-- Where only terminators are left, the last token is one of them. -/
theorem terminator_of_suffix {r : List Token} (suffix : r <:+ tokens) (some : r ≠ [])
    (done : (s.leaving r).pastTerminators.rest = []) :
    ∃ last ∈ tokens.getLast?, last.kind = .newline ∨ last.kind = .semicolon := by
  have all : ∀ token ∈ r, (token.kind == .newline || token.kind == .semicolon) = true := by
    simpa [ParseState.pastTerminators] using done
  refine ⟨r.getLast some, ?_, by simpa using all _ (List.getLast_mem some)⟩
  rw [getLast?_of_suffix suffix some]
  exact List.getLast?_eq_some_getLast some

/-- A literal of one token at the end of a source, with a dot and a name after it. -/
theorem program_dot {after : ParseState} (single : Program features tokens [node] after)
    (literal : node.kind.isLiteral = true) (unsigned : node.span? "operator" = none)
    (ends : ∀ last ∈ tokens.getLast?, last.kind ≠ .newline ∧ last.kind ≠ .semicolon)
    (isDot : dot.kind = .dot) (isName : name.kind = .identifier) :
    ∃ called final, Program features (tokens ++ [dot, name]) [called] final ∧
      called.kind = .send ∧ called.allChildren = [.node node, .sym name.text] := by
  obtain ⟨s, first, rfl, done⟩ := program_single_iff.1 single
  cases first.literal literal with
  | negative negative =>
    cases negative
    cases unsigned
  | @token token r _ next literal =>
    have suffix : r <:+ tokens :=
      (next ▸ List.suffix_cons token r).trans (pastTerminators_rest_suffix (startOf tokens))
    obtain rfl : r = [] := by
      by_contra some
      obtain ⟨last, final, newline | semicolon⟩ := terminator_of_suffix suffix some done
      · exact (ends last final).1 newline
      · exact (ends last final).2 semicolon
    have nonempty : (startOf tokens).pastTerminators.rest ≠ [] := by simp [next]
    have start := pastTerminators_startOf_append nonempty [dot, name]
    let u := (startOf (tokens ++ [dot, name])).pastTerminators
    have next' : u.rest = [token, dot, name] := by simp [u, start, next]
    let called := recordedCall u.book.context (some node) (some dot) name {}
    have call : Derives features (.call (some node) (some dot) name) (u.leaving []) called
        (u.leaving []) :=
      .call (.noActuals (fun ⟨_, _, next, _⟩ => nomatch next.eq) rfl) (.noBlock rfl)
    have calls : Derives features (.of (.callsAfter node)) (u.leaving [dot, name]) called
        (u.leaving []) := .dotCall ⟨rfl, isDot⟩ ⟨rfl, isName⟩ call (.noCall nofun)
    refine ⟨called, _, program_single_iff.2
      ⟨_, literal.derives_chain next' calls nofun, rfl, rfl⟩, ?_⟩
    rw [show called = _ from recordedCall_eq ..]
    exact ⟨rfl, rfl⟩

/-- A statement before a dot at the end of its line. -/
theorem not_derives_after_dot {final : ParseState} {body : List Node}
    (here : s.pastTerminators.kind? = some .dot) :
    ¬ Derives features (.of (.statements [])) s body final := by
  intro h
  cases h with
  | noStatements stop => exact nomatch stop .dot here
  | lastStatement _ first => exact first.undotted here
  | moreStatements _ first => exact first.undotted here

/-- After a first statement that is complete no dot may come. -/
theorem not_program_of_first {features : Features} {r : List Token} {final : ParseState}
    {body : List Node}
    (first : Derives features (.of .expression) (startOf tokens).pastTerminators node
      ((startOf tokens).pastTerminators.leaving (r ++ dot :: more)))
    (done : (s.leaving r).pastTerminators.rest = []) (isDot : dot.kind = .dot) :
    ¬ Program features tokens body final := by
  intro program
  cases program with
  | noStatements stop => exact first.not_stops stop
  | lastStatement _ _ noBreak stop => exact noBreak fun kind here => nomatch stop kind here
  | moreStatements _ first' _ others =>
    obtain ⟨-, rfl⟩ := first.unique first'
    refine not_derives_after_dot ?_ others
    have passed : r.dropWhile (fun token => token.kind == .newline || token.kind == .semicolon) =
        [] := done
    simp [kind?, ParseState.pastTerminators, List.dropWhile_append, passed, isDot]

/-- What comes after a complete statement with a dot after it. -/
theorem kind?_of_done {r : List Token} (done : (s.leaving r).pastTerminators.rest = [])
    (isDot : dot.kind = .dot) (more : List Token) :
    ∃ kind ∈ [TokenKind.newline, .semicolon, .dot],
      (s.leaving (r ++ dot :: more)).kind? = some kind ∧ (r ≠ [] → kind ≠ .dot) := by
  cases r with
  | nil => exact ⟨.dot, by simp, by simp [kind?, isDot], fun some => absurd rfl some⟩
  | cons token r =>
    have terminator : token.kind = .newline ∨ token.kind = .semicolon := by
      simpa using breaks_of_pastTerminators done token.kind rfl
    obtain kind | kind := terminator
    · exact ⟨.newline, by simp, by simp [kind?, kind], by simp⟩
    · exact ⟨.semicolon, by simp, by simp [kind?, kind], by simp⟩

/-- A number with a minus, or a literal at the end of a statement, with a dot after it. -/
theorem not_program_dot {after final : ParseState} {body : List Node}
    (single : Program features tokens [node] after) (literal : node.kind.isLiteral = true)
    (stuck : node.span? "operator" ≠ none ∨ ∃ last ∈ tokens.getLast?, last.kind = .semicolon)
    (isDot : dot.kind = .dot) : ¬ Program features (tokens ++ dot :: more) body final := by
  obtain ⟨s, first, rfl, done⟩ := program_single_iff.1 single
  have nonempty : (startOf tokens).pastTerminators.rest ≠ [] := fun none =>
    first.not_stops (by simp [Stops, kind?, none])
  suffices again : Derives features (.of .expression)
      (startOf (tokens ++ dot :: more)).pastTerminators node
      ((startOf (tokens ++ dot :: more)).pastTerminators.leaving (s.rest ++ dot :: more)) from
    not_program_of_first again done isDot
  rw [pastTerminators_startOf_append nonempty]
  -- The statement is read as before.
  have suffix : (startOf tokens).pastTerminators.rest <:+ tokens :=
    pastTerminators_rest_suffix (startOf tokens)
  generalize (startOf tokens).pastTerminators = u at first nonempty suffix
  obtain ⟨kind, among, here, apart⟩ := kind?_of_done (s := u) done isDot more
  have slack : ∀ kind ∈ (u.leaving (s.rest ++ dot :: more)).kind?, bindingPower? kind = none := by
    rw [here]
    rintro _ ⟨⟩
    simp only [List.mem_cons, List.not_mem_nil, or_false] at among
    obtain rfl | rfl | rfl := among <;> rfl
  cases first.literal literal with
  | negative negative =>
    obtain ⟨next, isMinus, isInteger, unspaced, number⟩ := negative
    rename_i sign digits r value
    have operand : Derives features (.of .unary) (u.leaving (u.rest ++ dot :: more))
        (.located .int [value] (some (sign.span.join digits.span))
          [("operator", some sign.span)]) (u.leaving (r ++ dot :: more)) :=
      .negative ⟨by rw [leaving_rest, next]; rfl, isMinus⟩ ⟨rfl, isInteger⟩ unspaced number
    refine operand.expression_of_unary ?_ slack
    rintro ⟨name, _, _, read, -⟩
    have same := read.eq
    rw [leaving_rest, next] at same
    obtain rfl := (List.cons.inj same).1
    cases isMinus.symm.trans read.kind_eq
  | @token token r _ next literal =>
    have left : r ≠ [] := by
      rintro rfl
      obtain signed | ⟨last, final, semicolon⟩ := stuck
      · exact signed literal.unsigned
      · rw [getLast?_of_suffix suffix nonempty, next] at final
        cases final
        exact literal.starts.2.2.2.2 semicolon
    have noDot : (u.leaving (r ++ dot :: more)).kind? ≠ some .dot := by
      rw [show (u.leaving (r ++ dot :: more)).kind? = some kind from here]
      exact fun same => apart left (Option.some.inj same)
    exact literal.derives_chain (by rw [leaving_rest, next]; rfl) (.noCall noDot) slack

end Dot

end Grammar

namespace Parser

open Grammar

/-- A literal that is all of a source may be the receiver of a call, if it is one token and the
source ends with it. A number with a minus directly before it may not, and neither may what a
semicolon ends. -/
theorem literals_receive {parser : Parser} {source word : String} {literal : Node} {last : Token}
    {span : Span} {spaced : Bool}
    (accepted : (parser.parse source).1 = .ok (some literal))
    (isLiteral : literal.kind.isLiteral = true) (ends : EndsWith source last)
    (line : last.kind ≠ .newline)
    (name : placed word.toList = .ok [⟨.identifier, span, word, spaced⟩]) :
    (literal.span? "operator" = none ∧ last.kind ≠ .semicolon →
      ∃ tree, (parser.parse (source ++ "." ++ word)).1 = .ok (some tree) ∧ tree.kind = .send ∧
        tree.allChildren = [.node literal, .sym word]) ∧
    (literal.span? "operator" ≠ none ∨ last.kind = .semicolon →
      ∀ tree, (parser.parse (source ++ "." ++ word)).1 ≠ .ok tree) := by
  obtain ⟨tokens, body, after, tokenized, derived, same, -⟩ := program_of_accepted accepted
  obtain ⟨_, tokenized', final⟩ := ends.tokens
  cases tokenized.symm.trans tokenized'
  obtain ⟨dot, selector, both, isDot, isName, rfl⟩ := placed_dot ends tokenized name
  obtain rfl : body = [literal] := eq_singleton_of_sequence same.symm (by
    intro begin
    rw [begin] at isLiteral
    cases isLiteral)
  refine ⟨fun ⟨unsigned, open_⟩ => ?_, fun stuck tree accepted' => ?_⟩
  · obtain ⟨called, _, program, kind, children⟩ := program_dot derived isLiteral unsigned
      (by rw [final]; rintro _ ⟨⟩; exact ⟨line, open_⟩) isDot isName
    exact ⟨called, congrArg Prod.fst (parse_of_program both program), kind, children⟩
  · obtain ⟨_, _, _, both', program, -⟩ := program_of_accepted accepted'
    cases both.symm.trans both'
    refine not_program_dot derived isLiteral (stuck.imp_right fun semicolon => ?_) isDot program
    exact ⟨last, final, semicolon⟩

theorem placed_eq_ok {cs : List Char} {tokens : List Token}
    (read : (placed cs).toOption = some tokens) : placed cs = .ok tokens := by
  cases found : placed cs with
  | error e =>
    rw [found] at read
    cases read
  | ok found =>
    rw [found] at read
    exact congrArg Except.ok (Option.some.inj read)

/-- A symbol after a semicolon receives a call; with a semicolon after it, it does not. -/
theorem literals_receive_symbol :
    ∃ literal tree, (Parser.newest.parse ";:<=").1 = .ok (some literal) ∧
      (Parser.newest.parse (";:<=" ++ "." ++ "ok?")).1 = .ok (some tree) ∧ tree.kind = .send ∧
      tree.allChildren = [.node literal, .sym "ok?"] ∧
      ∀ tree, (Parser.newest.parse (";:<=;" ++ "." ++ "ok?")).1 ≠ .ok tree := by
  let symbol : Token := ⟨.symbol, .ofLength 1 3, ":<=", false⟩
  let semicolon : Token := ⟨.semicolon, .ofLength 4 1, ";", false⟩
  let test (node : Node) : Bool := node.kind.isLiteral && (node.span? "operator").isNone
  have found : (Parser.newest.parse ";:<=").1.toOption.join.any test = true := by decide +kernel
  have found' : (Parser.newest.parse ";:<=;").1.toOption.join.any test = true := by decide +kernel
  obtain ⟨literal, accepted, shape⟩ := Parser.accepted_of_any found
  obtain ⟨literal', accepted', shape'⟩ := Parser.accepted_of_any found'
  obtain ⟨isLiteral, unsigned⟩ := Bool.and_eq_true_iff.1 shape
  have ends : EndsWith ";:<=" symbol :=
    ⟨⟨[⟨.semicolon, .ofLength 0 1, ";", true⟩, symbol], placed_eq_ok (by decide +kernel), rfl⟩, rfl⟩
  have ends' : EndsWith ";:<=;" semicolon :=
    ⟨⟨[⟨.semicolon, .ofLength 0 1, ";", true⟩, symbol, semicolon],
      placed_eq_ok (by decide +kernel), rfl⟩, rfl⟩
  have name : placed "ok?".toList = .ok [⟨.identifier, .ofLength 0 3, "ok?", true⟩] :=
    placed_eq_ok (by decide +kernel)
  obtain ⟨tree, called⟩ := (literals_receive accepted isLiteral ends (by decide) name).1
    ⟨Option.isNone_iff_eq_none.1 unsigned, by decide⟩
  exact ⟨literal, tree, accepted, called.1, called.2.1, called.2.2,
    (literals_receive accepted' (Bool.and_eq_true_iff.1 shape').1 ends' (by decide) name).2
      (.inr rfl)⟩

/-- A number with a minus receives no call, although it is a literal that ends its source. -/
theorem negative_receives_nothing :
    (∃ literal, (Parser.newest.parse "-1").1 = .ok (some literal) ∧ literal.kind = .int) ∧
      (∃ last, EndsWith "-1" last ∧ last.kind = .integer) ∧
      placed "foo".toList = .ok [⟨.identifier, .ofLength 0 3, "foo", true⟩] ∧
      ∀ tree, (Parser.newest.parse ("-1" ++ "." ++ "foo")).1 ≠ .ok tree := by
  have found : (Parser.newest.parse "-1").1.toOption.join.any (·.kind == .int) = true := by
    decide +kernel
  obtain ⟨literal, accepted, kind⟩ := Parser.accepted_of_any found
  have rejected : (Parser.newest.parse ("-1" ++ "." ++ "foo")).1.toOption.isNone = true := by
    decide +kernel
  refine ⟨⟨literal, accepted, beq_iff_eq.1 kind⟩,
    ⟨⟨.integer, .ofLength 1 1, "1", false⟩, ⟨⟨[⟨.minus, .ofLength 0 1, "-", true⟩, _],
      placed_eq_ok (by decide +kernel), rfl⟩, rfl⟩, rfl⟩, placed_eq_ok (by decide +kernel),
    fun tree accepted => ?_⟩
  rw [accepted] at rejected
  cases rejected

end Parser

end Conformance.Dialect
