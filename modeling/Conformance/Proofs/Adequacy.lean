import Conformance.Proofs.Rules

/-! The rules of inference are those of the parser: what a step yields has a derivation. One lemma
for each rule takes this from the constructs in the rule, and `derives_of_yields` ties them
together. -/

namespace Conformance.Dialect.Grammar

open Parse

def Phrase.step (sub : Derivation) : (phrase : Phrase) → Parse phrase.Result
  | .of construct => sub construct
  | .primary => Grammar.primary sub
  | .call receiver dot selector => Grammar.call sub receiver dot selector
  | .actuals => Grammar.actuals sub
  | .blockAfter target => Grammar.blockAfter sub target
  | .argument firstOfCommand => Grammar.argument sub firstOfCommand
  | .entry label => Grammar.entry sub label
  | .clause => Grammar.clause sub

variable {setting : Setting} {s t : ParseState}

/-! ### Rules without constructs in them -/

/-- A name may repeat if it starts with an underscore. -/
theorem mayDeclare_iff {name : String} {seen : List String} :
    ¬ (!(name.toList.head? == some '_') && seen.contains name) = true ↔
      name.toList.head? = some '_' ∨ name ∉ seen := by
  by_cases free : name.toList.head? = some '_' <;> simp [free]

theorem Names.of_yields {close : TokenKind} {seen : List String} {depth : Nat} {nodes : List Node}
    (h : Yields (parameterNames close seen depth) setting s nodes t) :
    Names close seen s nodes t := by
  induction depth generalizing seen s nodes with
  | zero => exact absurd h not_yields_throw
  | succ depth ih =>
    rw [parameterNames, yields_at?_bind] at h
    split at h
    · rename_i done
      obtain ⟨rfl, rfl⟩ := yields_pure.1 h
      exact .none (beq_iff_eq.1 done)
    · obtain ⟨name, r1, first, h⟩ := yields_expect_bind.1 h
      obtain ⟨free, h⟩ := yields_unless_rejected.1 h
      have fresh := mayDeclare_iff.1 free
      rw [yields_keep_bind, yields_keep_bind] at h
      obtain ⟨comma, r2, eats, h⟩ := yields_eat_bind.1 h
      cases eats with
      | none absent =>
        obtain ⟨rfl, rfl⟩ := yields_pure.1 h
        exact Names.last first fresh absent
      | some comma =>
        obtain ⟨more, s1, names, h⟩ := yields_bind.1 h
        obtain ⟨rfl, rfl⟩ := yields_pure.1 h
        have others := ih names
        simp only [beq_iff_eq] at others
        exact .more first fresh ⟨comma.eq, comma.kind_eq⟩ others

theorem ParameterList.of_yields {close : TokenKind} {nodes : List Node}
    (h : Yields (within [(.inArgdef, true)] (parameterList close)) setting s nodes t) :
    ParameterList close s nodes t := by
  obtain ⟨after, inside, rfl⟩ := yields_within.1 h
  rw [parameterList, yields_keep_bind, yields_get_bind] at inside
  obtain ⟨names, s1, h1, h⟩ := yields_bind.1 inside
  rw [yields_keep_bind] at h
  obtain ⟨rfl, rfl⟩ := yields_pure.1 h
  exact .intro (Names.of_yields h1)

theorem BlockParameters.of_yields {parameters : Node × Bool}
    (h : Yields blockParameters setting s parameters t) : BlockParameters s parameters t := by
  obtain ⟨bars, r1, eats, h⟩ := yields_eat_bind.1 h
  cases eats with
  | some bars =>
    obtain ⟨rfl, rfl⟩ := yields_pure.1 h
    exact .bars bars
  | none noBars =>
    obtain ⟨bar, r2, eats, h⟩ := yields_eat_bind.1 h
    cases eats with
    | none noBar =>
      obtain ⟨rfl, rfl⟩ := yields_pure.1 h
      exact .none noBars noBar
    | some first =>
      obtain ⟨names, s1, list, h⟩ := yields_bind.1 h
      obtain ⟨last, r3, close, h⟩ := yields_expect_bind.1 h
      obtain ⟨rfl, rfl⟩ := yields_pure.1 h
      exact .list first (ParameterList.of_yields list) close

theorem ParenthesizedParameters.of_yields {parameters : Node × Bool}
    (h : Yields parenthesizedParameters setting s parameters t) :
    ParenthesizedParameters s parameters t := by
  obtain ⟨paren, r1, eats, h⟩ := yields_eat_bind.1 h
  cases eats with
  | none absent =>
    obtain ⟨rfl, rfl⟩ := yields_pure.1 h
    exact .none absent
  | some first =>
    rw [yields_nest_bind] at h
    obtain ⟨names, s1, list, h⟩ := yields_bind.1 h
    obtain ⟨last, r3, close, h⟩ := yields_expect_bind.1 h
    rw [yields_nest_bind] at h
    obtain ⟨rfl, rfl⟩ := yields_pure.1 h
    exact .list first (ParameterList.of_yields list) close

theorem yields_bindVariable {name : String} {span : Span} {node : Node} :
    Yields (bindVariable name span) setting s node t ↔
      ∃ book, s.book.Binds name book ∧ node = matchVariableNode name span ∧
        t = s.keeping fun _ => book := by
  unfold bindVariable
  by_cases free : name.toList.head? = some '_'
  · rw [if_neg (by simp [free]), yields_keep_bind, yields_pure]
    constructor
    · rintro ⟨rfl, rfl⟩
      exact ⟨_, .free free, rfl, rfl⟩
    · rintro ⟨book, binds, rfl, rfl⟩
      cases binds with
      | free _ => exact ⟨rfl, rfl⟩
      | fresh strict _ => exact absurd free strict
  · rw [if_pos (bne_iff_ne.2 free), yields_books_bind]
    cases enters : Bookkeeping.enter? name s.book.patternVariables with
    | none =>
      refine iff_of_false not_yields_reject_bind ?_
      rintro ⟨book, binds, -⟩
      cases binds with
      | free under => exact free under
      | fresh _ some => simp [enters] at some
    | some sets =>
      dsimp only
      rw [yields_keep_bind, yields_keep_bind, yields_pure]
      constructor
      · rintro ⟨rfl, rfl⟩
        exact ⟨_, .fresh free enters, rfl, rfl⟩
      · rintro ⟨book, binds, rfl, rfl⟩
        cases binds with
        | free under => exact absurd under free
        | fresh _ same =>
          cases enters.symm.trans same
          exact ⟨rfl, rfl⟩

theorem yields_integerChild {text : List Char} {child : Child} :
    Yields (integerChild text) setting s child t ↔
      Child.integer? text = some child ∧ t = s := by
  unfold integerChild
  cases h : Child.integer? text with
  | none => exact iff_of_false not_yields_throw (by simp)
  | some value =>
    rw [yields_pure]
    simp [eq_comm]

theorem yields_startsCommand?_bind {α : Type} {value : α} {next : Bool → Parse α} :
    Yields (startsCommand? >>= next) setting s value t ↔
      Yields (next (startsCommand setting.features s.rest)) setting s value t := by
  have starts : Yields startsCommand? setting s (startsCommand setting.features s.rest) s := by
    obtain ⟨rest, book, emitted⟩ := s
    match rest with
    | [] => rfl
    | ⟨_, _, _, false⟩ :: _ => rfl
    | ⟨kind, _, _, true⟩ :: _ =>
      obtain ⟨⟨lambda, _, _⟩, _⟩ := setting
      cases kind with
      | arrow => cases lambda <;> rfl
      | _ => rfl
  rw [yields_bind]
  constructor
  · rintro ⟨answer, middle, looks, h⟩
    cases starts.symm.trans looks
    exact h
  · exact fun h => ⟨_, _, starts, h⟩

theorem yields_openBody_bind {β : Type} {value : β} {next : Unit → Parse β} :
    Yields (openBody >>= next) setting s value t ↔
      Yields (next ()) setting
        (((s.nested .saveStacks).keeping (·.openScope false)).keeping (·.openNumbering .closed))
        value t := Iff.rfl

theorem yields_closeBody_bind {β : Type} {value : β} {next : Unit → Parse β} :
    Yields (closeBody >>= next) setting s value t ↔
      Yields (next ()) setting (s.keeping fun book => book.endBody book.context) value t := Iff.rfl

theorem yields_closeNumbering_bind {β : Type} {value : β} {next : Option Numbering → Parse β} :
    Yields (closeNumbering >>= next) setting s value t ↔
      Yields (next s.book.numbering.head?) setting (s.keeping (·.closeNumbering)) value t := Iff.rfl

theorem yields_opened_bind {opener : Option Token} {β : Type} {value : β} {step : Parse β} :
    Yields
        (atTerminator? >>= fun closed =>
          if (opener.isNone && !closed) = true then unexpected >>= fun _ : Unit => step else step)
        setting s value t ↔
      s.Opened opener ∧ Yields step setting s value t := by
  rw [yields_atTerminator?_bind, yields_unless_unexpected]
  refine and_congr ?_ Iff.rfl
  cases opener <;> simp [ParseState.Opened, Decidable.or_iff_not_imp_left]

/-- An argument is what the operator before it says. -/
theorem yields_argument {sub : Derivation} {node : Node} {first : Bool} :
    Yields (argument sub first) setting s node t ↔
      Yields (match argumentSign? s.kind? with
        | none => sub .expression
        | some sign => do
          let operator ← next
          let operand ← sub (.operators 0)
          if first then emit (ambiguity operator operand)
          pure (.located sign [.node operand] (some (operator.span.join operand.range))
            [("operator", some operator.span)])) setting s node t := by
  unfold argument
  exact yields_peekKind_bind

/-- After a call there is a block if one may start. -/
theorem yields_blockAfter {sub : Derivation} {node target : Node} :
    Yields (blockAfter sub target) setting s node t ↔
      Yields (match blockClose? s with
        | none => pure target
        | some close => do
          let first ← next
          nest Nesting.saveStacks
          keep (·.openScope true)
          let (parameters, ordinary) ← blockParameters
          keep (·.openNumbering (.body 0 ordinary))
          let body ← within [(.inBlock, true), (.inLambda, false)] (sub (.statements [close]))
          let last ← expect close
          let numbering ← closeNumbering
          keep Bookkeeping.closeScope
          nest Nesting.restoreStacks
          pure (closureNode target parameters numbering body (target.range.join last.span) first
            last)) setting s node t := by
  rw [blockAfter, yields_books_bind]
  exact yields_peekKind_bind

section Rules

/-- What the constructs yield follows from the rules. -/
def FollowsRules (setting : Setting) (sub : Derivation) : Prop :=
  ∀ {construct : Construct} {s t : ParseState} {value : construct.Result},
    Yields (sub construct) setting s value t →
      Derives setting.features (.of construct) s value t

variable {sub : Derivation} (hsub : FollowsRules setting sub) {node : Node} {nodes : List Node}
include hsub

theorem whileLoop_derives (first : s.kind? = some .kwWhile)
    (h : Yields (whileLoop sub) setting s node t) :
    Derives setting.features .primary s node t := by
  obtain ⟨keyword, r1, read, h⟩ := (yields_next_bind_of_kind first).1 h
  rw [yields_nest_bind] at h
  obtain ⟨condition, s1, h1, h⟩ := yields_bind.1 h
  rw [yields_nest_bind] at h
  obtain ⟨opener, r2, eats, h⟩ := yields_eat_bind.1 h
  obtain ⟨opened, h⟩ := yields_opened_bind.1 h
  obtain ⟨body, s2, h2, h⟩ := yields_bind.1 h
  obtain ⟨last, r3, close, h⟩ := yields_expect_bind.1 h
  obtain ⟨rfl, rfl⟩ := yields_pure.1 h
  exact .whileLoop read (hsub h1) eats opened (hsub h2) close

theorem definedCheck_derives (first : s.kind? = some .kwDefined)
    (h : Yields (definedCheck sub) setting s node t) :
    Derives setting.features .primary s node t := by
  obtain ⟨keyword, r1, read, h⟩ := (yields_next_bind_of_kind first).1 h
  obtain ⟨paren, r2, eats, h⟩ := yields_eat_bind.1 h
  cases eats with
  | none absent =>
    obtain ⟨operand, s1, h1, h⟩ := yields_within_bind.1 h
    obtain ⟨rfl, rfl⟩ := yields_pure.1 h
    exact .definedWord read absent (hsub h1)
  | some paren =>
    rw [yields_nest_bind, yields_skipNewlines_bind] at h
    obtain ⟨operand, s1, h1, h⟩ := yields_within_bind.1 h
    rw [yields_skipNewlines_bind] at h
    obtain ⟨last, r3, close, h⟩ := yields_expect_bind.1 h
    rw [yields_nest_bind] at h
    obtain ⟨rfl, rfl⟩ := yields_pure.1 h
    exact .definedParens read paren (hsub h1) ⟨close.eq, close.kind_eq⟩

theorem parenthesized_derives (first : s.kind? = some .lparen)
    (h : Yields (parenthesized sub) setting s node t) :
    Derives setting.features .primary s node t := by
  obtain ⟨paren, r1, read, h⟩ := (yields_next_bind_of_kind first).1 h
  rw [yields_nest_bind] at h
  obtain ⟨body, s1, h1, h⟩ := yields_bind.1 h
  obtain ⟨last, r2, close, h⟩ := yields_expect_bind.1 h
  rw [yields_nest_bind] at h
  obtain ⟨rfl, rfl⟩ := yields_pure.1 h
  exact .parenthesized read (hsub h1) close

theorem blockAfter_derives {target : Node}
    (h : Yields (blockAfter sub target) setting s node t) :
    Derives setting.features (.blockAfter target) s node t := by
  rw [yields_blockAfter] at h
  cases closes : blockClose? s with
  | none =>
    rw [closes] at h
    obtain ⟨rfl, rfl⟩ := yields_pure.1 h
    exact .noBlock closes
  | some close =>
    rw [closes] at h
    obtain ⟨opening, r1, read, h⟩ := yields_next_bind.1 h
    rw [yields_nest_bind, yields_keep_bind] at h
    obtain ⟨parameters, s1, h1, h⟩ := yields_bind.1 h
    rw [yields_keep_bind] at h
    obtain ⟨body, s2, h2, h⟩ := yields_within_bind.1 h
    obtain ⟨last, r2, closing, h⟩ := yields_expect_bind.1 h
    rw [yields_closeNumbering_bind, yields_keep_bind, yields_nest_bind] at h
    obtain ⟨rfl, rfl⟩ := yields_pure.1 h
    have derived : Derives setting.features (.blockAfter target) s _ _ :=
      .block closes read (.of_yields h1) (hsub h2) ⟨closing.eq, closing.kind_eq⟩
    exact derived

theorem lambda_derives (enabled : setting.features.lambda = true) (first : s.kind? = some .arrow)
    (h : Yields (lambda sub) setting s node t) :
    Derives setting.features .primary s node t := by
  obtain ⟨arrow, r1, read, h⟩ := (yields_next_bind_of_kind first).1 h
  rw [yields_nest_bind, yields_keep_bind] at h
  obtain ⟨parameters, s1, h1, h⟩ := yields_bind.1 h
  rw [yields_keep_bind, yields_peekKind_bind] at h
  have body {opening closing : TokenKind} (closes : lambdaClose? opening = some closing)
      (opens : (s1.keeping (·.openNumbering (.body 0 parameters.2))).kind? = some opening)
      (h : Yields (do
        let first ← next
        nest Nesting.popLambda
        nest Nesting.saveStacks
        let body ← within [(.inLambda, true), (.inBlock, false)] (sub (.statements [closing]))
        let last ← expect closing
        nest Nesting.restoreStacks
        let numbering ← closeNumbering
        keep Bookkeeping.closeScope
        pure (closureNode (leaf .lambda arrow) parameters.1 numbering body
          (arrow.span.join last.span) first last))
        setting (s1.keeping (·.openNumbering (.body 0 parameters.2))) node t) :
      Derives setting.features .primary s node t := by
    obtain ⟨opener, r2, next, h⟩ := (yields_next_bind_of_kind opens).1 h
    rw [yields_nest_bind, yields_nest_bind] at h
    obtain ⟨body, s2, h2, h⟩ := yields_within_bind.1 h
    obtain ⟨last, r3, close, h⟩ := yields_expect_bind.1 h
    rw [yields_nest_bind, yields_closeNumbering_bind, yields_keep_bind] at h
    obtain ⟨rfl, rfl⟩ := yields_pure.1 h
    have derived := Derives.lambda enabled read (.of_yields h1) closes next (hsub h2)
      ⟨close.eq, close.kind_eq⟩
    exact derived
  split at h
  · exact body rfl ‹_› h
  · exact body rfl ‹_› h
  · exact absurd h not_yields_unexpected_bind

theorem methodDefinition_derives (first : s.kind? = some .kwDef)
    (h : Yields (methodDefinition sub) setting s node t) :
    Derives setting.features .primary s node t := by
  obtain ⟨keyword, r1, read, h⟩ := (yields_next_bind_of_kind first).1 h
  obtain ⟨name, r2, named, h⟩ := yields_expect_bind.1 h
  rw [yields_openBody_bind] at h
  obtain ⟨parameters, s1, h1, h⟩ := yields_bind.1 h
  obtain ⟨body, s2, h2, h⟩ := yields_within_bind.1 h
  obtain ⟨last, r3, close, h⟩ := yields_expect_bind.1 h
  rw [yields_closeBody_bind] at h
  obtain ⟨rfl, rfl⟩ := yields_pure.1 h
  have derived := Derives.method read named (.of_yields h1) (hsub h2)
    ⟨close.eq, close.kind_eq⟩
  exact derived

theorem classDefinition_derives (first : s.kind? = some .kwClass)
    (h : Yields (classDefinition sub) setting s node t) :
    Derives setting.features .primary s node t := by
  obtain ⟨keyword, r1, read, h⟩ := (yields_next_bind_of_kind first).1 h
  rw [yields_books_bind] at h
  obtain ⟨outside, h⟩ := yields_unless_rejected.1 h
  obtain ⟨name, r2, named, h⟩ := yields_expect_bind.1 h
  rw [yields_openBody_bind] at h
  obtain ⟨body, s1, h1, h⟩ := yields_within_bind.1 h
  obtain ⟨last, r3, close, h⟩ := yields_expect_bind.1 h
  rw [yields_closeBody_bind] at h
  obtain ⟨rfl, rfl⟩ := yields_pure.1 h
  have derived := Derives.classDefinition read (Bool.eq_false_iff.2 outside) named (hsub h1)
    ⟨close.eq, close.kind_eq⟩
  exact derived

theorem argument_derives {command : Bool} (h : Yields (argument sub command) setting s node t) :
    Derives setting.features (.argument command) s node t := by
  rw [yields_argument] at h
  cases signs : argumentSign? s.kind? with
  | none =>
    rw [signs] at h
    exact .plainArgument signs (hsub h)
  | some sign =>
    rw [signs] at h
    obtain ⟨operator, r1, eq, h⟩ := yields_next_bind.1 h
    have read : s.Next operator.kind operator r1 := ⟨eq, rfl⟩
    rw [read.kind?_eq] at signs
    obtain ⟨operand, s1, h1, h⟩ := yields_bind.1 h
    cases command with
    | true =>
      rw [if_pos rfl] at h
      dsimp only at h
      rw [yields_emit_bind] at h
      obtain ⟨rfl, rfl⟩ := yields_pure.1 h
      exact .signedArgument signs read (hsub h1)
    | false =>
      obtain ⟨rfl, rfl⟩ := yields_pure.1 h
      exact .signedArgument signs read (hsub h1)

theorem arguments_derives {command : Bool}
    (h : Yields (arguments sub command) setting s nodes t) :
    Derives setting.features (.of (.arguments command)) s nodes t := by
  obtain ⟨first, s1, h1, h⟩ := yields_bind.1 h
  obtain ⟨comma, r1, eats, h⟩ := yields_eat_bind.1 h
  cases eats with
  | none absent =>
    obtain ⟨rfl, rfl⟩ := yields_pure.1 h
    exact .lastArgument (argument_derives hsub h1) absent
  | some comma =>
    rw [yields_skipNewlines_bind] at h
    obtain ⟨more, s2, h2, h⟩ := yields_bind.1 h
    obtain ⟨rfl, rfl⟩ := yields_pure.1 h
    exact .moreArguments (argument_derives hsub h1) comma (hsub h2)

theorem actuals_derives {actuals : Actuals}
    (h : Yields (Grammar.actuals sub) setting s actuals t) :
    Derives setting.features .actuals s actuals t := by
  rw [Grammar.actuals, yields_adjacent?_bind] at h
  split at h
  · rename_i adjacent
    obtain ⟨first, r1, read, spaced⟩ := ParseState.adjacent_iff.1 adjacent
    obtain ⟨first', r, eq, h⟩ := yields_next_bind.1 h
    cases read.eq.symm.trans eq
    rw [yields_nest_bind, yields_skipNewlines_bind, yields_at?_bind] at h
    split at h
    · rename_i empty
      obtain ⟨last, r2, close, h⟩ := yields_expect_bind.1 h
      rw [yields_nest_bind] at h
      obtain ⟨rfl, rfl⟩ := yields_pure.1 h
      exact .emptyParens read spaced close
    · rename_i some
      obtain ⟨nodes, s1, h1, h⟩ := yields_bind.1 h
      rw [yields_skipNewlines_bind] at h
      obtain ⟨last, r2, close, h⟩ := yields_expect_bind.1 h
      rw [yields_nest_bind] at h
      obtain ⟨rfl, rfl⟩ := yields_pure.1 h
      have derived := Derives.parens read spaced
        (fun empty => some (beq_iff_eq.2 empty)) (hsub h1) close
      exact derived
  · rename_i apart
    rw [ParseState.adjacent_iff] at apart
    rw [yields_startsCommand?_bind] at h
    split at h
    · rename_i starts
      rw [yields_nest_bind] at h
      obtain ⟨nodes, s1, h1, h⟩ := yields_bind.1 h
      rw [yields_nest_bind] at h
      obtain ⟨rfl, rfl⟩ := yields_pure.1 h
      exact .commandArguments apart starts (hsub h1)
    · rename_i none
      obtain ⟨rfl, rfl⟩ := yields_pure.1 h
      exact .noActuals apart (Bool.eq_false_iff.2 none)

theorem call_derives {receiver : Option Node} {dot : Option Token} {selector : Token}
    (h : Yields (call sub receiver dot selector) setting s node t) :
    Derives setting.features (.call receiver dot selector) s node t := by
  rw [call, yields_books_bind] at h
  obtain ⟨actuals, s1, h1, h⟩ := yields_bind.1 h
  exact .call (actuals_derives hsub h1) (blockAfter_derives hsub h)

theorem callsAfter_derives {receiver : Node}
    (h : Yields (callsAfter sub receiver) setting s node t) :
    Derives setting.features (.of (.callsAfter receiver)) s node t := by
  obtain ⟨dot, r1, eats, h⟩ := yields_eat_bind.1 h
  cases eats with
  | none absent =>
    obtain ⟨rfl, rfl⟩ := yields_pure.1 h
    exact .noCall absent
  | some dot =>
    obtain ⟨selector, r2, named, h⟩ := yields_expect_bind.1 h
    obtain ⟨called, s1, h1, h⟩ := yields_bind.1 h
    exact .dotCall dot named (call_derives hsub h1) (hsub h)

theorem identifier_derives (first : s.kind? = some .identifier)
    (h : Yields (identifier sub) setting s node t) :
    Derives setting.features .primary s node t := by
  obtain ⟨token, r1, read, h⟩ := (yields_next_bind_of_kind first).1 h
  rw [yields_adjacent?_bind] at h
  split at h
  · rename_i adjacent
    exact .adjacentCall read (ParseState.adjacent_iff.1 adjacent) (call_derives hsub h)
  · rename_i apart
    rw [ParseState.adjacent_iff] at apart
    rw [yields_books_bind, yields_features_bind] at h
    cases use : numberedUse? setting.features s.book token.text with
    | some numbered =>
      obtain ⟨number, ordinary⟩ := numbered
      rw [ParseState.leaving_book, use] at h
      obtain ⟨undeclared, h⟩ := yields_unless_rejected.1 h
      rw [yields_keep_bind] at h
      obtain ⟨rfl, rfl⟩ := yields_pure.1 h
      rw [Bool.eq_false_iff.2 undeclared] at use
      exact .numberedVariable read apart use
    | none =>
      rw [ParseState.leaving_book, use] at h
      cases visible : s.book.isLocal token.text with
      | true =>
        rw [if_pos visible] at h
        obtain ⟨rfl, rfl⟩ := yields_pure.1 h
        exact .localVariable read apart use visible
      | false =>
        rw [if_neg (Bool.eq_false_iff.1 visible)] at h
        exact .wordCall read apart use visible (call_derives hsub h)

theorem entry_derives {label : Token} (h : Yields (entry sub label) setting s node t) :
    Derives setting.features (.entry label) s node t := by
  rw [entry, yields_books_bind] at h
  cases enters : Bookkeeping.enter? (keyOf label) s.book.patternKeys with
  | none =>
    rw [enters] at h
    exact absurd h not_yields_reject_bind
  | some keys =>
    rw [enters] at h
    dsimp only at h
    rw [yields_keep_bind, yields_peekKind_bind] at h
    split at h
    · obtain ⟨book, binds, rfl, rfl⟩ := yields_bindVariable.1 h
      exact .bareEntry enters ⟨.comma, ‹_›, by decide⟩ binds
    · obtain ⟨book, binds, rfl, rfl⟩ := yields_bindVariable.1 h
      exact .bareEntry enters ⟨.rbrace, ‹_›, by decide⟩ binds
    · obtain ⟨book, binds, rfl, rfl⟩ := yields_bindVariable.1 h
      exact .bareEntry enters ⟨.newline, ‹_›, by decide⟩ binds
    · rename_i comma brace newline
      obtain ⟨value, s1, h1, h⟩ := yields_bind.1 h
      obtain ⟨rfl, rfl⟩ := yields_pure.1 h
      refine .pairEntry enters (fun kind here ends => ?_) (hsub h1)
      simp only [List.mem_cons, List.not_mem_nil, or_false] at ends
      obtain rfl | rfl | rfl := ends
      · exact comma here
      · exact brace here
      · exact newline here

theorem entries_derives (h : Yields (entries sub) setting s nodes t) :
    Derives setting.features (.of .entries) s nodes t := by
  obtain ⟨label, r1, eats, h⟩ := yields_eat_bind.1 h
  cases eats with
  | none absent =>
    obtain ⟨rfl, rfl⟩ := yields_pure.1 h
    exact .noEntries absent
  | some label =>
    obtain ⟨first, s1, h1, h⟩ := yields_bind.1 h
    obtain ⟨comma, r2, eats, h⟩ := yields_eat_bind.1 h
    cases eats with
    | none absent =>
      obtain ⟨rfl, rfl⟩ := yields_pure.1 h
      exact .lastEntry label (entry_derives hsub h1) absent
    | some comma =>
      rw [yields_skipNewlines_bind] at h
      obtain ⟨more, s2, h2, h⟩ := yields_bind.1 h
      obtain ⟨rfl, rfl⟩ := yields_pure.1 h
      exact .moreEntries label (entry_derives hsub h1) comma (hsub h2)

theorem hashPattern_derives (first : s.kind? = some .lbrace)
    (h : Yields (hashPattern sub) setting s node t) :
    Derives setting.features (.of .pattern) s node t := by
  obtain ⟨opener, r1, read, h⟩ := (yields_next_bind_of_kind first).1 h
  rw [yields_keep_bind, yields_skipNewlines_bind] at h
  obtain ⟨entries, s1, h1, h⟩ := yields_bind.1 h
  rw [yields_skipNewlines_bind] at h
  obtain ⟨last, r2, close, h⟩ := yields_expect_bind.1 h
  rw [yields_keep_bind] at h
  obtain ⟨rfl, rfl⟩ := yields_pure.1 h
  have derived := Derives.hashPattern read (hsub h1) close
  exact derived

theorem pattern_derives (h : Yields (pattern sub) setting s node t) :
    Derives setting.features (.of .pattern) s node t := by
  rw [pattern, yields_peekKind_bind] at h
  split at h
  · obtain ⟨token, r1, read, h⟩ := (yields_next_bind_of_kind ‹_›).1 h
    obtain ⟨book, binds, rfl, rfl⟩ := yields_bindVariable.1 h
    exact .variablePattern read binds
  · exact hashPattern_derives hsub ‹_› h
  iterate 8 exact .valuePattern (by simp [startsValue, *]) (hsub h)
  · exact absurd h not_yields_unexpected

theorem clause_derives (first : s.kind? = some .kwIn)
    (h : Yields (clause sub) setting s node t) : Derives setting.features .clause s node t := by
  obtain ⟨keyword, r1, read, h⟩ := (yields_next_bind_of_kind first).1 h
  rw [yields_keep_bind] at h
  obtain ⟨pattern, s1, h1, h⟩ := yields_within_bind.1 h
  rw [yields_keep_bind] at h
  obtain ⟨opener, r2, eats, h⟩ := yields_eat_bind.1 h
  obtain ⟨opened, h⟩ := yields_opened_bind.1 h
  obtain ⟨body, s2, h2, h⟩ := yields_bind.1 h
  obtain ⟨rfl, rfl⟩ := yields_pure.1 h
  exact .clause read (hsub h1) rfl eats opened (hsub h2)

theorem clauses_derives (h : Yields (clauses sub) setting s nodes t) :
    Derives setting.features (.of .clauses) s nodes t := by
  rw [clauses, yields_at?_bind] at h
  split at h
  · rename_i first
    obtain ⟨node, s1, h1, h⟩ := yields_bind.1 h
    obtain ⟨more, s2, h2, h⟩ := yields_bind.1 h
    obtain ⟨rfl, rfl⟩ := yields_pure.1 h
    exact .moreClauses (clause_derives hsub (beq_iff_eq.1 first) h1) (hsub h2)
  · rename_i absent
    obtain ⟨rfl, rfl⟩ := yields_pure.1 h
    exact .noClauses fun first => absent (beq_iff_eq.2 first)

theorem caseMatch_derives (first : s.kind? = some .kwCase)
    (h : Yields (caseMatch sub) setting s node t) :
    Derives setting.features .primary s node t := by
  obtain ⟨keyword, r1, read, h⟩ := (yields_next_bind_of_kind first).1 h
  obtain ⟨subject, s1, h1, h⟩ := yields_bind.1 h
  rw [yields_skipTerminators_bind, yields_features_bind, yields_at?_bind] at h
  obtain ⟨starts, h⟩ := yields_unless_unexpected.1 h
  have enabled : setting.features.patternMatching = true ∧
      s1.pastTerminators.kind? = some .kwIn := by simpa using starts
  obtain ⟨clauses, s2, h2, h⟩ := yields_bind.1 h
  obtain ⟨alternative, r2, eats, h⟩ := yields_eat_bind.1 h
  cases eats with
  | none absent =>
    obtain ⟨otherwise, s3, h3, h⟩ := yields_bind.1 h
    obtain ⟨rfl, rfl⟩ := yields_pure.1 h3
    obtain ⟨last, r3, close, h⟩ := yields_expect_bind.1 h
    obtain ⟨rfl, rfl⟩ := yields_pure.1 h
    exact .caseMatch enabled.1 read (hsub h1) enabled.2 (hsub h2) close
  | some alternative =>
    obtain ⟨otherwise, s3, h3, h⟩ := yields_bind.1 h
    obtain ⟨last, r3, close, h⟩ := yields_expect_bind.1 h
    obtain ⟨rfl, rfl⟩ := yields_pure.1 h
    exact .caseElse enabled.1 read (hsub h1) enabled.2 (hsub h2) alternative (hsub h3) close

theorem primary_derives (h : Yields (primary sub) setting s node t) :
    Derives setting.features .primary s node t := by
  rw [primary, yields_peek_bind] at h
  cases eq : s.rest with
  | nil =>
    rw [eq] at h
    exact absurd h not_yields_unexpected
  | cons token r =>
    rw [eq] at h
    dsimp only [List.head?_cons] at h
    have read {kind : TokenKind} (found : token.kind = kind) : s.Next kind token r := ⟨eq, found⟩
    have leaf {node' : Node}
        (h : Yields (advance >>= fun _ => pure node') setting s node t) :
        node = node' ∧ t = s.leaving r := by
      rw [yields_advance_bind, yields_pure, eq] at h
      exact h
    split at h
    · rw [yields_advance_bind] at h
      obtain ⟨value, _, is_value, h⟩ := yields_bind.1 h
      obtain ⟨valued, rfl⟩ := yields_integerChild.1 is_value
      obtain ⟨rfl, rfl⟩ := yields_pure.1 h
      rw [eq]
      exact .integer (read ‹_›) valued
    · obtain ⟨rfl, rfl⟩ := leaf h
      exact .string (read ‹_›)
    · obtain ⟨rfl, rfl⟩ := leaf h
      exact .symbol (read ‹_›)
    iterate 4
      obtain ⟨rfl, rfl⟩ := leaf h
      exact .keyword rfl (read ‹_›)
    · obtain ⟨rfl, rfl⟩ := leaf h
      exact .constant (read ‹_›)
    · exact identifier_derives hsub (read ‹_›).kind?_eq h
    · exact parenthesized_derives hsub (read ‹_›).kind?_eq h
    · rw [yields_features_bind] at h
      split at h
      · exact lambda_derives hsub ‹_› (read ‹_›).kind?_eq h
      · exact absurd h not_yields_unexpected
    · exact methodDefinition_derives hsub (read ‹_›).kind?_eq h
    · exact classDefinition_derives hsub (read ‹_›).kind?_eq h
    · exact whileLoop_derives hsub (read ‹_›).kind?_eq h
    · exact definedCheck_derives hsub (read ‹_›).kind?_eq h
    · exact caseMatch_derives hsub (read ‹_›).kind?_eq h
    · exact absurd h not_yields_unexpected

theorem chain_derives (noMinus : s.kind? ≠ some .minus) (noBang : s.kind? ≠ some .bang)
    (h : Yields (chain sub) setting s node t) :
    Derives setting.features (.of .unary) s node t := by
  obtain ⟨receiver, s1, h1, h⟩ := yields_bind.1 h
  exact .chain noMinus noBang (primary_derives hsub h1) (hsub h)

theorem unary_derives (h : Yields (unary sub) setting s node t) :
    Derives setting.features (.of .unary) s node t := by
  rw [unary, yields_peek_bind] at h
  cases eq : s.rest with
  | nil =>
    rw [eq] at h
    exact absurd h not_yields_unexpected
  | cons sign r =>
    rw [eq] at h
    dsimp only [List.head?_cons] at h
    have read {kind : TokenKind} (found : sign.kind = kind) : s.Next kind sign r := ⟨eq, found⟩
    split at h
    · rename_i minus
      rw [yields_advance_bind, yields_peek_bind, eq, ParseState.leaving_rest, List.tail_cons] at h
      have signed (apart : ¬ (s.leaving r).Adjacent .integer)
          (h : Yields (do return signNode "-@" sign (← sub .unary)) setting (s.leaving r) node t) :
          Derives setting.features (.of .unary) s node t := by
        obtain ⟨operand, s1, h1, h⟩ := yields_bind.1 h
        obtain ⟨rfl, rfl⟩ := yields_pure.1 h
        exact .minus (read minus) apart (hsub h1)
      split at h
      · rename_i digits found
        split at h
        · rename_i together
          obtain ⟨kind, spaced⟩ : digits.kind = .integer ∧ digits.spaced = false := by
            simpa using together
          obtain ⟨r2, rfl⟩ := List.head?_eq_some_iff.1 found
          rw [yields_advance_bind] at h
          obtain ⟨value, _, is_value, h⟩ := yields_bind.1 h
          obtain ⟨valued, rfl⟩ := yields_integerChild.1 is_value
          obtain ⟨rfl, rfl⟩ := yields_pure.1 h
          exact .negative (read minus) ⟨rfl, kind⟩ spaced valued
        · rename_i apart
          refine signed (fun adjacent => apart ?_) h
          simpa [found] using ParseState.adjacent_iff.2 adjacent
      · rename_i absent
        refine signed (fun adjacent => ?_) h
        have some := ParseState.adjacent_iff.2 adjacent
        simp [absent] at some
    · obtain ⟨operand, s1, h1, h⟩ := yields_bind.1 (yields_advance_bind.1 h)
      obtain ⟨rfl, rfl⟩ := yields_pure.1 h
      rw [eq] at h1
      exact .bang (read ‹_›) (hsub h1)
    · rename_i noMinus noBang
      refine chain_derives hsub (fun minus => noMinus ?_) (fun bang => noBang ?_) h
      · simpa [ParseState.kind?, eq] using minus
      · simpa [ParseState.kind?, eq] using bang

theorem assignment_derives (assigns : s.Assigns) (h : Yields (assignment sub) setting s node t) :
    Derives setting.features (.of .expression) s node t := by
  obtain ⟨name, operator, r2, named, assign⟩ := assigns
  obtain ⟨_, _, eq, h⟩ := yields_next_bind.1 h
  cases named.eq.symm.trans eq
  obtain ⟨_, _, eq, h⟩ := yields_next_bind.1 h
  cases eq
  rw [yields_skipNewlines_bind, yields_keep_bind] at h
  obtain ⟨value, s1, h1, h⟩ := yields_bind.1 h
  obtain ⟨rfl, rfl⟩ := yields_pure.1 h
  exact .assignment named ⟨rfl, assign⟩ (hsub h1)

theorem expression_derives (h : Yields (expression sub) setting s node t) :
    Derives setting.features (.of .expression) s node t := by
  rw [expression, yields_at?_bind, yields_peekSecond_bind] at h
  split at h
  · exact assignment_derives hsub (ParseState.assigns_iff.1 ‹_›) h
  · exact .unassigned (mt ParseState.assigns_iff.2 ‹_›) (hsub h)

theorem statements_derives {stops : List TokenKind}
    (h : Yields (statements sub stops) setting s nodes t) :
    Derives setting.features (.of (.statements stops)) s nodes t := by
  rw [statements, yields_skipTerminators_bind, yields_peekKind_bind] at h
  split at h
  · rename_i done
    obtain ⟨rfl, rfl⟩ := yields_pure.1 h
    exact .noStatements (by simp [ParseState.Stops, done])
  · rename_i kind here
    split at h
    · rename_i stop
      obtain ⟨rfl, rfl⟩ := yields_pure.1 h
      exact .noStatements (by simpa [ParseState.Stops, here] using stop)
    · rename_i more
      have starts : ¬ s.pastTerminators.Stops stops := by
        simpa [ParseState.Stops, here] using more
      obtain ⟨first, s1, h1, h⟩ := yields_bind.1 h
      have continues (breaks : s1.Breaks)
          (h : Yields (do let more ← sub (.statements stops); pure (first :: more))
            setting s1 nodes t) :
          Derives setting.features (.of (.statements stops)) s nodes t := by
        obtain ⟨others, s2, h2, h⟩ := yields_bind.1 h
        obtain ⟨rfl, rfl⟩ := yields_pure.1 h
        exact .moreStatements starts (hsub h1) breaks (hsub h2)
      rw [yields_peekKind_bind] at h
      split at h
      iterate 3 exact continues (by simp [ParseState.Breaks, ParseState.Stops, *]) h
      rename_i kind noNewline noSemicolon here
      split at h
      · rename_i stop
        obtain ⟨rfl, rfl⟩ := yields_pure.1 h
        refine .lastStatement starts (hsub h1) (fun breaks => ?_) ?_
        · have ends := breaks kind here
          simp only [List.mem_cons, List.not_mem_nil, or_false] at ends
          obtain rfl | rfl := ends
          · exact noNewline rfl
          · exact noSemicolon rfl
        · simpa [ParseState.Stops, here] using stop
      · exact absurd h not_yields_unexpected

theorem operatorsAfter_derives {power : Nat} {left : Node}
    (h : Yields (operatorsAfter sub power left) setting s node t) :
    Derives setting.features (.of (.operatorsAfter power left)) s node t := by
  rw [operatorsAfter, yields_peek_bind] at h
  cases eq : s.rest with
  | nil =>
    rw [eq] at h
    obtain ⟨rfl, rfl⟩ := yields_pure.1 h
    exact .noOperator (by simp [ParseState.kind?, eq])
  | cons operator r =>
    rw [eq] at h
    dsimp only [List.head?_cons] at h
    cases binds : bindingPower? operator.kind with
    | none =>
      rw [binds] at h
      obtain ⟨rfl, rfl⟩ := yields_pure.1 h
      exact .noOperator (by simp [ParseState.kind?, eq, binds])
    | some tighter =>
      rw [binds] at h
      dsimp only at h
      split at h
      · obtain ⟨rfl, rfl⟩ := yields_pure.1 h
        refine .noOperator ?_
        simpa [ParseState.kind?, eq, binds]
      · rw [yields_advance_bind, yields_skipNewlines_bind, eq] at h
        obtain ⟨right, s1, h1, h⟩ := yields_bind.1 h
        exact .operator binds (by omega) ⟨eq, rfl⟩ (hsub h1) (hsub h)

theorem operators_derives {power : Nat} (h : Yields (operators sub power) setting s node t) :
    Derives setting.features (.of (.operators power)) s node t := by
  obtain ⟨left, s1, h1, h⟩ := yields_bind.1 h
  exact .operators (hsub h1) (hsub h)

theorem rule_derives : FollowsRules setting (Construct.rule sub)
  | .statements _, _, _, _, h => statements_derives hsub h
  | .expression, _, _, _, h => expression_derives hsub h
  | .operators _, _, _, _, h => operators_derives hsub h
  | .operatorsAfter _ _, _, _, _, h => operatorsAfter_derives hsub h
  | .unary, _, _, _, h => unary_derives hsub h
  | .callsAfter _, _, _, _, h => callsAfter_derives hsub h
  | .arguments _, _, _, _, h => arguments_derives hsub h
  | .pattern, _, _, _, h => pattern_derives hsub h
  | .entries, _, _, _, h => entries_derives hsub h
  | .clauses, _, _, _, h => clauses_derives hsub h

end Rules

theorem derives_of_yields (depth : Nat) : FollowsRules setting (derive depth) := by
  induction depth with
  | zero => exact fun h => absurd h not_yields_throw
  | succ depth ih => exact rule_derives ih

end Conformance.Dialect.Grammar
