import Conformance.Proofs.Idle
import Conformance.Proofs.Layout
import Conformance.Proofs.Acceptance
import Conformance.Proofs.Words

/-! The spaces around a binary operator. A token that has a place of its own in the source is an
operand whether or not it is spaced, and so is what an operator stands for; only a name takes a `!`
that directly follows it. -/

namespace Conformance.Dialect

open Text

/-! ### Binary operators -/

/-- What the lexical rules make of the texts of binary operators. -/
theorem fixedTexts_operators : ∀ fixed ∈ TokenKind.fixedTexts,
    (Grammar.bindingPower? fixed.1).isSome = true →
      longestMatch fixed.2.toList = some (.token fixed.1, fixed.2.toList.length) ∧
        ∀ c ∈ fixed.2.toList.head?, isPunctuation c = true ∧ isNameChar c = false ∧
          c ∉ ['?', ':'] ∧ isLineBlank c = false ∧ (c = '!' → fixed.2 = "!=") := by
  have whole : ∀ fixed ∈ TokenKind.fixedTexts, (Grammar.bindingPower? fixed.1).isSome = true →
      longestMatch fixed.2.toList = some (.token fixed.1, fixed.2.toList.length) := by
    decide
  refine fun fixed mem binary => ⟨whole fixed mem binary, fun c head => ?_⟩
  have first := fixedTexts_head (p := fun fixed c => !(Grammar.bindingPower? fixed.1).isSome ||
    decide (isPunctuation c = true ∧ isNameChar c = false ∧ c ∉ ['?', ':'] ∧
      isLineBlank c = false ∧ (c = '!' → fixed.2 = "!="))) (by decide) fixed mem c head
  simpa only [binary, Bool.not_true, Bool.false_or, decide_eq_true_eq] using first

theorem fixedTexts_nonempty : ∀ fixed ∈ TokenKind.fixedTexts, fixed.2.toList ≠ [] := by
  decide

theorem Node.Alike.kind_eq {node node' : Node} (alike : node.Alike node') :
    node.kind = node'.kind := by
  obtain ⟨kind, children, location, context⟩ := node
  obtain ⟨kind', children', location', context'⟩ := node'
  rw [Node.Alike, Node.unplaced_mk, Node.unplaced_mk] at alike
  exact (Node.mk.inj alike).1

namespace Grammar

open ParseState

variable {features : Features} {s : ParseState} {r : List Token} {token token' : Token}

/-! ### Operands -/

/-- What a token that is an operand stands for where no variable of its name is visible. -/
def operandNode (context : Flags) (token : Token) : Node :=
  match Child.integer? token.text.toList with
  | some value => .located .int [value] (some token.span) [("operator", none)]
  | none => recordedCall context none none token {}

theorem operandNode_alike (context : Flags) (token token' : Token)
    (same : token.text = token'.text) :
    (operandNode context token).Alike (operandNode context token') := by
  obtain ⟨kind, span, text, spaced⟩ := token
  obtain ⟨kind', span', _, spaced'⟩ := token'
  obtain rfl : text = _ := same
  unfold operandNode
  dsimp only
  split
  · exact Node.located_alike rfl
  · simp [Node.Alike, recordedCall_eq]

theorem integer?_of_isDigits {digits : List Char} (h : isDigits digits = true) :
    ∃ value, Child.integer? digits = some value :=
  ⟨_, congrArg (Option.map _) (integerValue?_digits h)⟩

theorem integer?_of_isNameStart {c : Char} {rest : List Char} (start : isNameStart c = true) :
    Child.integer? (c :: rest) = none := by
  have range := isNameStart_range start
  have noDigits : isDigits (c :: rest) = false := by
    have noDigit : c.isDigit = false := Bool.eq_false_iff.2 fun digit => by
      have range := isDigit_range digit
      omega
    simp [isDigits, noDigit]
  have noMinus : c ≠ '-' := by
    rintro rfl
    cases start
  simp [Child.integer?, integerValue?, noMinus, noDigits]

theorem numberedUse?_of_no_body {name : String} (noBody : s.book.numbering = []) :
    numberedUse? features s.book name = none := by
  unfold numberedUse?
  rw [noBody]
  split
  · rfl
  · cases parameterNumber? name <;> rfl

/-- An operand, before an operator or the end of the tokens. -/
theorem derives_operand {kind : TokenKind} (operand : Operand token.text kind)
    (next : s.Next kind token r) (unbound : s.book.isLocal token.text = false)
    (noBody : s.book.numbering = []) (noCommand : startsCommand features r = false)
    (follows : ∀ after ∈ r.head?, (bindingPower? after.kind).isSome = true) :
    Derives features (.of .unary) s (operandNode s.book.context token) (s.leaving r) := by
  have ends {kind : TokenKind} (other : bindingPower? kind = none) :
      (s.leaving r).kind? ≠ some kind := by
    intro here
    obtain ⟨after, first, rfl⟩ := Option.map_eq_some_iff.1 here
    have operator := follows after first
    simp [other] at operator
  have noDot : Derives features (.of (.callsAfter (operandNode s.book.context token)))
      (s.leaving r) (operandNode s.book.context token) (s.leaving r) := .noCall (ends rfl)
  cases operand with
  | integer digits =>
    obtain ⟨value, read⟩ := integer?_of_isDigits digits
    have number : operandNode s.book.context token =
        .located .int [value] (some token.span) [("operator", none)] := by
      rw [operandNode, read]
    have here : Derives features .primary s (operandNode s.book.context token) (s.leaving r) :=
      number ▸ .integer next read
    exact .chain (by simp [next.kind?_eq]) (by simp [next.kind?_eq]) here noDot
  | identifier word free =>
    obtain ⟨c, rest, split, start⟩ := isWord_iff.1 word
    have name : operandNode s.book.context token =
        recordedCall s.book.context none none token {} := by
      rw [operandNode, split, integer?_of_isNameStart start.1]
    have apart : ¬ (s.leaving r).Adjacent .lparen := fun ⟨_, _, next, _⟩ => ends rfl next.kind?_eq
    have noBlock : blockClose? (s.leaving r) = none := by
      unfold blockClose?
      split
      · rename_i brace
        exact absurd brace (ends rfl)
      · rename_i opener
        exact absurd opener (ends rfl)
      · rfl
    have call : Derives features (.call none none token) (s.leaving r)
        (operandNode s.book.context token) (s.leaving r) :=
      name ▸ .call (.noActuals apart noCommand) (.noBlock noBlock)
    exact .chain (by simp [next.kind?_eq]) (by simp [next.kind?_eq])
      (.wordCall next apart (numberedUse?_of_no_body noBody) unbound call) noDot

/-! ### Two operands with an operator between them -/

theorem bindingPower?_pos {kind : TokenKind} {power : Nat}
    (binds : bindingPower? kind = some power) :
    0 < power := by
  revert binds
  cases kind <;> simp [bindingPower?] <;> omega

variable {left operator right : Token} {first sign second : TokenKind}

theorem startsCommand_of_binary (binary : (bindingPower? operator.kind).isSome = true)
    (apart : operator.spaced = true → right.spaced = true) :
    startsCommand features [operator, right] = false := by
  obtain ⟨kind, span, text, spaced⟩ := operator
  cases kind <;> simp_all [startsCommand, startsArgument, maySignArgument, bindingPower?]

/-- The operand at the end of the tokens. -/
theorem derives_last {s : ParseState} (operand : Operand token.text first)
    (next : s.Next first token []) (unbound : s.book.isLocal token.text = false)
    (noBody : s.book.numbering = []) (power : Nat) :
    Derives features (.of (.operators power)) s (operandNode s.book.context token)
      (s.leaving []) :=
  .operators (derives_operand operand next unbound noBody rfl nofun) (.noOperator nofun)

theorem operatorNode_ne_lvasgn (left right : Node) (operator : Token) :
    (operatorNode left operator right).kind ≠ .lvasgn := by
  unfold operatorNode
  split <;> nofun

/-- Two operands with an operator between them, where no variable is visible. -/
theorem program_operation (features : Features) (left operator right : Token)
    (operand : Operand left.text first) (isLeft : left.kind = first)
    (binary : (bindingPower? operator.kind).isSome = true)
    (operand' : Operand right.text second) (isRight : right.kind = second)
    (apart : operator.spaced = true → right.spaced = true) :
    ∃ after, Program features [left, operator, right]
      [operatorNode (operandNode .clear left) operator (operandNode .clear right)] after := by
  let s := startOf [left, operator, right]
  obtain ⟨power, binds⟩ := Option.isSome_iff_exists.1 binary
  have noCommand : startsCommand features [operator, right] = false :=
    startsCommand_of_binary binary apart
  have read : Derives features (.of .unary) s (operandNode .clear left)
      (s.leaving [operator, right]) :=
    derives_operand operand ⟨rfl, isLeft⟩ rfl rfl noCommand (by simpa using binary)
  have read' : Derives features (.of (.operators power)) (s.leaving [right])
      (operandNode .clear right) (s.leaving []) :=
    derives_last operand' ⟨rfl, isRight⟩ rfl rfl power
  have positive : 0 < power := bindingPower?_pos binds
  have same : (s.leaving [right]).pastNewlines = s.leaving [right] := by
    refine pastNewlines_eq fun here => ?_
    obtain rfl | rfl := operand'.kind_eq <;> cases isRight.symm.trans (Option.some.inj here)
  rw [← same] at read'
  have whole : Derives features (.of (.operators 0)) s
      (operatorNode (operandNode .clear left) operator (operandNode .clear right)) (s.leaving []) :=
    .operators read (.operator binds positive ⟨rfl, rfl⟩ read' (.noOperator nofun))
  have unassigned : ¬ s.Assigns := by
    rintro ⟨_, _, _, next, assign⟩
    cases next.eq
    simp [assign, bindingPower?] at binary
  refine ⟨_, .of_expression (.unassigned unassigned whole) ?_ rfl⟩
  rintro _ ⟨⟩
  obtain rfl | rfl := operand.kind_eq <;> simp [isLeft]

/-- An assignment of an operand, where no variable of its name is visible. -/
theorem program_assignment (features : Features) (left operator right : Token)
    (isLeft : left.kind = .identifier) (assign : operator.kind = .assign)
    (operand : Operand right.text second) (isRight : right.kind = second)
    (other : right.text ≠ left.text) :
    ∃ node after, Program features [left, operator, right] [node] after ∧ node.kind = .lvasgn ∧
      node.allChildren = [.sym left.text, .node (operandNode .clear right)] := by
  let s := ((startOf [right]).keeping (·.declare left.text))
  have unbound : s.book.isLocal right.text = false := by
    simp [s, startOf, Bookkeeping.isLocal, Bookkeeping.declare, Bookkeeping.openScope, visible,
      other]
  have value : Derives features (.of .expression) s (operandNode .clear right) (s.leaving []) := by
    refine .unassigned ?_ (derives_last operand ⟨rfl, isRight⟩ unbound rfl 0)
    rintro ⟨_, _, _, next, -⟩
    cases next.eq
  have visible : ((startOf [left, operator, right]).leaving [right]).pastNewlines =
      (startOf [left, operator, right]).leaving [right] := by
    refine pastNewlines_eq fun here => ?_
    obtain rfl | rfl := operand.kind_eq <;> cases isRight.symm.trans (Option.some.inj here)
  have value' : Derives features (.of .expression)
      (((startOf [left, operator, right]).leaving [right]).pastNewlines.keeping
        (·.declare left.text)) (operandNode .clear right) (s.leaving []) := by
    rw [visible]
    exact value
  refine ⟨_, _, .of_expression (.assignment ⟨rfl, isLeft⟩ ⟨rfl, assign⟩ value') ?_ rfl, rfl, rfl⟩
  rintro _ ⟨⟩
  simp [isLeft]

end Grammar

/-! ### The tokens -/

section Tokens

open Grammar

variable {left operator right : String} {first sign second : TokenKind}

/-- An operator is a lexeme of its own before a blank or an operand. -/
theorem lexemes_operator (among : (sign, operator) ∈ TokenKind.fixedTexts)
    (binary : (bindingPower? sign).isSome = true) {next : Char}
    (ends : isNameChar next = true ∨ next = ' ') (more : List Char) :
    lexemes (operator.toList ++ next :: more) =
      (⟨.token sign, operator.toList⟩ :: (lexemes (next :: more)).1,
        (lexemes (next :: more)).2) := by
  obtain ⟨whole, head⟩ := fixedTexts_operators _ among binary
  dsimp only at whole head
  obtain ⟨c, rest, split⟩ := List.exists_cons_of_ne_nil (fixedTexts_nonempty _ among)
  rw [split] at whole head ⊢
  exact lexemes_append (parts_sign (head c rfl).1 ends) whole more

/-- The lexemes of two operands with an operator and blanks between them. -/
theorem lexemes_spaced (operand : Operand left first)
    (among : (sign, operator) ∈ TokenKind.fixedTexts)
    (binary : (bindingPower? sign).isSome = true) (operand' : Operand right second) :
    lexemes (left.toList ++ ' ' :: (operator.toList ++ ' ' :: right.toList)) =
      ([⟨.token first, left.toList⟩, ⟨.blanks, [' ']⟩, ⟨.token sign, operator.toList⟩,
        ⟨.blanks, [' ']⟩, ⟨.token second, right.toList⟩], []) := by
  have last := lexemes_whole operand'.nonempty operand'.longestMatch_eq
  obtain ⟨c, rest, split, -, visible⟩ := operand'.head
  have blank := lexemes_blank visible rest
  rw [← split, last] at blank
  have middle := lexemes_operator among binary (.inr rfl) right.toList
  obtain ⟨-, head⟩ := fixedTexts_operators _ among binary
  obtain ⟨o, os, split'⟩ := List.exists_cons_of_ne_nil (fixedTexts_nonempty _ among)
  dsimp only at head split'
  rw [split', List.cons_append] at middle
  have blank' := lexemes_blank (head o (by simp [split'])).2.2.2.1 (os ++ ' ' :: right.toList)
  rw [operand.lexemes_append (by decide) (by decide) (fun _ => by decide), split',
    List.cons_append, blank', middle, blank]

/-- The lexemes of two operands with an operator between them. -/
theorem lexemes_tight (operand : Operand left first)
    (among : (sign, operator) ∈ TokenKind.fixedTexts)
    (binary : (bindingPower? sign).isSome = true) (operand' : Operand right second)
    (apart : first = .identifier → operator ≠ "!=") :
    lexemes (left.toList ++ (operator.toList ++ right.toList)) =
      ([⟨.token first, left.toList⟩, ⟨.token sign, operator.toList⟩,
        ⟨.token second, right.toList⟩], []) := by
  have last := lexemes_whole operand'.nonempty operand'.longestMatch_eq
  obtain ⟨c, rest, split, name, -⟩ := operand'.head
  have middle := lexemes_operator among binary (.inl name) rest
  rw [← split, last] at middle
  obtain ⟨-, head⟩ := fixedTexts_operators _ among binary
  obtain ⟨o, os, split'⟩ := List.exists_cons_of_ne_nil (fixedTexts_nonempty _ among)
  dsimp only at head split'
  obtain ⟨-, ends, mark, -, bang⟩ := head o (by simp [split'])
  rw [split', List.cons_append] at middle ⊢
  rw [operand.lexemes_append ends mark fun name same => apart name (bang same), middle]

theorem fixedTexts_unmarked : ∀ fixed ∈ TokenKind.fixedTexts, ∀ c ∈ fixed.2.toList.head?,
    isNameStart c = true → fixed.2.toList.getLast? ≠ some '!' := by
  intro fixed mem c head start
  have unmarked := fixedTexts_head (p := fun fixed c => !isNameStart c ||
    fixed.2.toList.getLast? != some '!') (by decide) fixed mem c head
  simpa [start] using unmarked

/-- The lexemes of a name, `!=` and an operand: the name takes the `!`. -/
theorem lexemes_glued (word : isWord left.toList = true) (operand : Operand right second) :
    lexemes (left.toList ++ '!' :: '=' :: right.toList) =
      ([⟨.token .identifier, left.toList ++ ['!']⟩, ⟨.token .assign, ['=']⟩,
        ⟨.token second, right.toList⟩], []) := by
  have last := lexemes_whole operand.nonempty operand.longestMatch_eq
  obtain ⟨c, rest, split, name, -⟩ := operand.head
  have whole : longestMatch ['='] = some (.token .assign, 1) := by decide
  have assign : Parts '=' [] c := parts_sign (by decide) (.inl name)
  have middle := lexemes_append assign whole rest
  rw [List.cons_append, List.nil_append, ← split, last] at middle
  obtain ⟨d, ds, split', start, -⟩ := isWord_iff.1 word
  have noKeyword : ∀ fixed ∈ TokenKind.fixedTexts, fixed.2.toList ≠ left.toList ++ ['!'] := by
    intro fixed mem same
    have unmarked := fixedTexts_unmarked fixed mem d (by simp [same, split']) start
    simp [same] at unmarked
  have found := longestMatch_identifier word .bang noKeyword
  rw [split', List.cons_append] at found
  have name' : Parts d (ds ++ ['!']) '=' := parts_word start (by decide) (by decide)
  have glued := lexemes_append name' found right.toList
  have text : left.toList ++ '!' :: '=' :: right.toList =
      d :: (ds ++ ['!']) ++ '=' :: right.toList := by simp [split']
  rw [text, glued, middle, split']
  rfl

/-- The tokens of two operands with an operator and blanks between them. -/
theorem placed_spaced (operand : Operand left first)
    (among : (sign, operator) ∈ TokenKind.fixedTexts)
    (binary : (bindingPower? sign).isSome = true) (operand' : Operand right second) :
    ∃ a b c, placed (left ++ " " ++ operator ++ " " ++ right).toList =
      .ok [⟨first, a, left, true⟩, ⟨sign, b, operator, true⟩, ⟨second, c, right, true⟩] := by
  have text : (left ++ " " ++ operator ++ " " ++ right).toList =
      left.toList ++ ' ' :: (operator.toList ++ ' ' :: right.toList) := by simp
  rw [text, placed, lexemes_spaced operand among binary operand']
  simp [place, Except.map]

/-- The tokens of two operands with an operator between them. -/
theorem placed_tight (operand : Operand left first)
    (among : (sign, operator) ∈ TokenKind.fixedTexts)
    (binary : (bindingPower? sign).isSome = true) (operand' : Operand right second)
    (apart : first = .identifier → operator ≠ "!=") :
    ∃ a b c, placed (left ++ operator ++ right).toList =
      .ok [⟨first, a, left, true⟩, ⟨sign, b, operator, false⟩, ⟨second, c, right, false⟩] := by
  have text : (left ++ operator ++ right).toList =
      left.toList ++ (operator.toList ++ right.toList) := by simp
  have first_ne : first ≠ .newline := operand.ne_newline
  have sign_ne : sign ≠ .newline := by
    rintro rfl
    cases binary
  rw [text, placed, lexemes_tight operand among binary operand' apart]
  simp [place, Except.map, first_ne, sign_ne]

/-- The tokens of a name, `!=` and an operand. -/
theorem placed_glued (word : isWord left.toList = true) (operand : Operand right second) :
    ∃ a b c, placed (left ++ "!=" ++ right).toList =
      .ok [⟨.identifier, a, left ++ "!", true⟩, ⟨.assign, b, "=", false⟩,
        ⟨second, c, right, false⟩] := by
  have text : (left ++ "!=" ++ right).toList = left.toList ++ '!' :: '=' :: right.toList := by simp
  have glued : String.ofList (left.toList ++ ['!']) = left ++ "!" :=
    String.toList_inj.1 (by simp)
  rw [text, placed, lexemes_glued word operand]
  simp [place, Except.map, glued]

end Tokens

namespace Parser

open Grammar

/-- Spaces around a binary operator between two operands do not matter, but for `!=` after a name:
without a space the `!` belongs to the name, to which the right operand is assigned. -/
theorem spaces_optional (parser : Parser) {left operator right : String}
    {first sign second : TokenKind} (operand : Operand left first)
    (among : (sign, operator) ∈ TokenKind.fixedTexts)
    (binary : (bindingPower? sign).isSome = true) (operand' : Operand right second) :
    ∃ spaced tight,
      (parser.parse (left ++ " " ++ operator ++ " " ++ right)).1 = .ok (some spaced) ∧
      (parser.parse (left ++ operator ++ right)).1 = .ok (some tight) ∧
      (tight.Alike spaced ↔ ¬ (operator = "!=" ∧ first = .identifier)) ∧
      (operator = "!=" ∧ first = .identifier →
        tight.kind = .lvasgn ∧ tight.allChildren.head? = some (.sym (left ++ "!"))) := by
  obtain ⟨a, b, c, tokens⟩ := placed_spaced operand among binary operand'
  obtain ⟨after, program⟩ := program_operation parser.features ⟨first, a, left, true⟩
    ⟨sign, b, operator, true⟩ ⟨second, c, right, true⟩ operand rfl binary operand' rfl fun _ => rfl
  have spaced := congrArg Prod.fst (parse_of_program tokens program)
  by_cases glued : operator = "!=" ∧ first = .identifier
  · obtain ⟨rfl, rfl⟩ := glued
    cases operand with
    | identifier word free =>
      obtain ⟨a', b', c', tokens'⟩ := placed_glued word operand'
      obtain ⟨node, after', program', kind, children⟩ :=
        program_assignment parser.features ⟨.identifier, a', left ++ "!", true⟩
          ⟨.assign, b', "=", false⟩ ⟨second, c', right, false⟩ rfl rfl operand' rfl
          (operand'.ne_bang left)
      have tight := congrArg Prod.fst (parse_of_program tokens' program')
      refine ⟨_, node, spaced, tight, iff_of_false (fun alike => ?_) (by simp), fun _ => ?_⟩
      · have same : node.kind = _ := alike.kind_eq
        rw [kind] at same
        exact operatorNode_ne_lvasgn _ _ _ same.symm
      · exact ⟨kind, by rw [children]; rfl⟩
  · obtain ⟨a', b', c', tokens'⟩ := placed_tight operand among binary operand' fun name bang =>
      glued ⟨bang, name⟩
    obtain ⟨after', program'⟩ := program_operation parser.features
      ⟨first, a', left, true⟩ ⟨sign, b', operator, false⟩ ⟨second, c', right, false⟩
      operand rfl binary operand' rfl nofun
    have tight := congrArg Prod.fst (parse_of_program tokens' program')
    have alike := operatorNode_alike
      (operandNode_alike .clear ⟨first, a', left, true⟩ ⟨first, a, left, true⟩ rfl)
      (.intro sign operator true b' b)
      (operandNode_alike .clear ⟨second, c', right, false⟩ ⟨second, c, right, true⟩ rfl)
    exact ⟨_, _, spaced, tight, iff_of_true alike glued, fun glued' => absurd glued' glued⟩

/-- A name before a minus: the minus is no part of it. -/
theorem spaces_optional_minus :
    ∃ spaced tight,
      (Parser.newest.parse ("size" ++ " " ++ "-" ++ " " ++ "10")).1 = .ok (some spaced) ∧
      (Parser.newest.parse ("size" ++ "-" ++ "10")).1 = .ok (some tight) ∧ tight.Alike spaced := by
  have operand : Operand "size" .identifier := .identifier (by decide) (by decide)
  have operand' : Operand "10" .integer := .integer (by decide)
  have among : (TokenKind.minus, "-") ∈ TokenKind.fixedTexts := by decide
  obtain ⟨spaced, tight, accepted, accepted', alike, -⟩ :=
    spaces_optional .newest operand among rfl operand'
  exact ⟨spaced, tight, accepted, accepted', alike.2 (by decide)⟩

/-- A name before `!=`: with a space it is compared, and without one it is assigned to. -/
theorem name_takes_bang :
    Operand "a" .identifier ∧ Operand "b" .identifier ∧ (bindingPower? .notEqual).isSome = true ∧
      ∃ spaced tight, (Parser.newest.parse "a != b").1 = .ok (some spaced) ∧
        (Parser.newest.parse "a!=b").1 = .ok (some tight) ∧ ¬ tight.Alike spaced := by
  have found : (Parser.newest.parse "a != b").1.toOption.join.any (·.kind == .send) = true := by
    decide +kernel
  have found' : (Parser.newest.parse "a!=b").1.toOption.join.any (·.kind == .lvasgn) = true := by
    decide +kernel
  obtain ⟨spaced, accepted, call⟩ := Parser.accepted_of_any found
  obtain ⟨tight, accepted', assignment⟩ := Parser.accepted_of_any found'
  refine ⟨.identifier (by decide) (by decide), .identifier (by decide) (by decide), rfl, spaced,
    tight, accepted, accepted', fun alike => ?_⟩
  have same := alike.kind_eq
  rw [beq_iff_eq.1 call, beq_iff_eq.1 assignment] at same
  cases same

end Parser

end Conformance.Dialect
