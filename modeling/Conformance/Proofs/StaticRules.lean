import Conformance.Proofs.Refusals
import Conformance.Proofs.Verdict

/-! The rules of a tree decide what is rejected besides the grammar: no accepted tree breaks one,
and whatever is rejected by one would break it. -/

namespace Conformance.Dialect

namespace Grammar

open Parse

variable {setting : Setting} {s : ParseState} {spot : Spot}

/-! ### Names -/

/-- A name that may not be declared is there once. -/
theorem count_of_not_mayDeclare {names : List Token} {seen : List String} {name : String}
    (recorded : Recorded ((names.map Token.text).filter isStrict) [seen])
    (refused : (!(name.toList.head? == some '_') && seen.contains name) = true) :
    isStrict name = true ∧ (names.map Token.text).count name = 1 := by
  obtain ⟨under, again⟩ := Bool.and_eq_true_iff.1 refused
  have strict : isStrict name = true := under
  have present : Bookkeeping.enter? name [seen] = none := by simpa [Bookkeeping.enter?] using again
  have once := recorded.count_eq_one present
  exact ⟨strict, by rwa [List.count_filter strict] at once⟩

/-- What a name that may be declared adds to the names so far. -/
theorem entered_of_mayDeclare {seen : List String} {name : String}
    (free : ¬ (!(name.toList.head? == some '_') && seen.contains name) = true) :
    Entered ([name].filter isStrict) [seen]
      [if (name.toList.head? == some '_') = true then seen else name :: seen] := by
  have fresh := mayDeclare_iff.1 free
  rw [List.filter_singleton]
  by_cases under : name.toList.head? = some '_'
  · have loose : isStrict name = false := by simp [isStrict, under]
    rw [if_pos (by simp [under]), loose]
    exact .nil _
  · have strict : isStrict name = true := by simp [isStrict, under]
    rw [if_neg (by simp [under]), strict]
    exact .of_enter? (by simpa [Bookkeeping.enter?] using fresh.resolve_left under)

theorem names_blames {list names : List Token} {close : TokenKind} {depth : Nat}
    {seen : List String} (opens : spot.OpensList setting.features list)
    (listed : NamesUpTo list names s.rest)
    (recorded : Recorded ((names.map Token.text).filter isStrict) [seen]) :
    spot.Blames (parameterNames close seen depth) setting s := by
  -- On how many names may follow: `seen` are those of `names` that may not repeat.
  induction depth generalizing names seen s with
  | zero => exact blames_throw (by simp)
  | succ depth ih =>
    rw [parameterNames, blames_at?_bind]
    split
    · exact blames_pure
    · refine blames_expect_bind fun name r1 next => ?_
      rw [next.eq] at listed
      refine blames_unless_rejected (fun refused _ => ?_) fun free => ?_
      · obtain ⟨strict, once⟩ := count_of_not_mayDeclare recorded refused
        exact .rule (.parameter opens listed next.kind_eq strict once)
      · rw [blames_keep_bind, blames_keep_bind]
        refine blames_eat_bind fun comma r2 eats => ?_
        cases eats with
        | none => exact blames_pure
        | some comma =>
          obtain rfl : r1 = _ := comma.eq
          have longer := recorded.entered (entered_of_mayDeclare free)
          refine blames_bind (ih (.more listed next.kind_eq comma.kind_eq) ?_) fun _ _ _ =>
            blames_pure
          rwa [List.map_append, List.filter_append]

theorem list_blames {list : List Token} {close : TokenKind}
    (opens : spot.OpensList setting.features list) (start : s.rest = list) :
    spot.Blames (parameterList close) setting s := by
  rw [parameterList, blames_keep_bind, blames_get_bind]
  have listed : NamesUpTo list [] s.rest := start ▸ .start
  exact blames_bind (names_blames opens listed (.fresh _)) fun _ _ _ => blames_of_yields rfl

theorem blockParameters_blames
    (opens : ∀ bar list, s.rest = bar :: list → bar.kind = .pipe →
      spot.OpensList setting.features list) :
    spot.Blames blockParameters setting s := by
  refine blames_eat_bind fun bars r1 eats => ?_
  cases eats with
  | some => exact blames_pure
  | none =>
    refine blames_eat_bind fun bar r2 eats => ?_
    cases eats with
    | none => exact blames_pure
    | some first =>
      refine blames_within_bind (list_blames (opens _ _ first.eq first.kind_eq) rfl) fun _ _ _ => ?_
      exact blames_expect_bind fun _ _ _ => blames_pure

theorem parenthesizedParameters_blames
    (opens : ∀ paren list, s.rest = paren :: list → paren.kind = .lparen →
      spot.OpensList setting.features list) :
    spot.Blames parenthesizedParameters setting s := by
  refine blames_eat_bind fun paren r1 eats => ?_
  cases eats with
  | none => exact blames_pure
  | some first =>
    rw [blames_nest_bind]
    refine blames_within_bind (list_blames (opens _ _ first.eq first.kind_eq) rfl) fun _ _ _ => ?_
    exact blames_expect_bind fun _ _ _ => blames_of_yields rfl

theorem bindVariable_blames {name : String} {span : Span}
    (refused : isStrict name = true → Bookkeeping.enter? name s.book.patternVariables = none →
      spot.Rejects setting.features (repeatedName name span)) :
    spot.Blames (bindVariable name span) setting s := by
  rw [bindVariable]
  split
  · rename_i strict
    rw [blames_books_bind]
    cases enters : Bookkeeping.enter? name s.book.patternVariables with
    | some => exact blames_of_yields rfl
    | none => exact blames_reject_bind fun _ => refused strict enters
  · exact blames_of_yields rfl

theorem integerChild_blames {text : List Char} : spot.Blames (integerChild text) setting s := by
  unfold integerChild
  split
  · exact blames_pure
  · exact blames_throw (by simp)

theorem startsCommand?_blames_bind {α : Type} {next : Bool → Parse α}
    (later : spot.Blames (next (startsCommand setting.features s.rest)) setting s) :
    spot.Blames (startsCommand? >>= next) setting s := by
  refine blames_bind ?_ fun starts t looked => ?_
  · exact (startsCommand?_looks setting s).mono (fun _ _ _ => trivial) fun _ _ none => none.elim
  · have same := yields_startsCommand?_bind.1 (looked.bind (yields_pure.2 ⟨rfl, rfl⟩))
    obtain ⟨rfl, rfl⟩ := yields_pure.1 same
    exact later

/-! ### Rules -/

section Rules

/-- All that the constructs reject by a rule is refused somewhere in them. -/
def Blamed (setting : Setting) (sub : Derivation) : Prop :=
  ∀ {construct : Construct} {s : ParseState} {around : Around},
    Spot.Faithful ⟨.of construct, s, around⟩ →
      Spot.Blames ⟨.of construct, s, around⟩ (sub construct) setting s

omit spot in
theorem Blamed.sub {sub : Derivation} (hb : Blamed setting sub) {construct : Construct}
    {outer : Spot} {around : Around} (faithful : outer.Faithful)
    (enters : Enters setting.features outer ⟨.of construct, s, around⟩) :
    outer.Blames (sub construct) setting s := (hb (enters.faithful faithful)).enter enters

variable {sub : Derivation} (hsub : FollowsRules setting sub) (hb : Blamed setting sub)
  {around : Around}
include hb

theorem definedCheck_blames (faithful : Spot.Faithful ⟨.primary, s, around⟩)
    (first : s.kind? = some .kwDefined) :
    Spot.Blames ⟨.primary, s, around⟩ (definedCheck sub) setting s := by
  refine blames_next_bind_of_kind first fun keyword r1 read => ?_
  refine blames_eat_bind fun paren r2 eats => ?_
  cases eats with
  | none absent =>
    exact blames_within_bind (hb.sub faithful (.opens (.definedWord read absent))) fun _ _ _ =>
      blames_pure
  | some paren =>
    rw [blames_nest_bind, blames_skipNewlines_bind]
    refine blames_within_bind (hb.sub faithful (.opens (.definedParens read paren))) fun _ _ _ => ?_
    rw [blames_skipNewlines_bind]
    exact blames_expect_bind fun _ _ _ => blames_of_yields rfl

theorem parenthesized_blames (faithful : Spot.Faithful ⟨.primary, s, around⟩)
    (first : s.kind? = some .lparen) :
    Spot.Blames ⟨.primary, s, around⟩ (parenthesized sub) setting s := by
  refine blames_next_bind_of_kind first fun paren r1 read => ?_
  rw [blames_nest_bind]
  refine blames_bind (hb.sub faithful (.opens (.parenthesized read))) fun _ _ _ => ?_
  exact blames_expect_bind fun _ _ _ => blames_of_yields rfl

theorem lambda_blames (faithful : Spot.Faithful ⟨.primary, s, around⟩)
    (enabled : setting.features.lambda = true) (first : s.kind? = some .arrow) :
    Spot.Blames ⟨.primary, s, around⟩ (lambda sub) setting s := by
  refine blames_next_bind_of_kind first fun arrow r1 read => ?_
  rw [blames_nest_bind, blames_keep_bind]
  refine blames_bind (parenthesizedParameters_blames fun paren list eq kind =>
    .lambda enabled (read.eq.trans (congrArg _ eq)) read.kind_eq kind) fun parameters s1 h1 => ?_
  rw [blames_keep_bind, blames_peekKind_bind]
  have body {opening closing : TokenKind} (closes : lambdaClose? opening = some closing)
      (opens : (s1.keeping (·.openNumbering (.body 0 parameters.2))).kind? = some opening) :
      Spot.Blames ⟨.primary, s, around⟩ (do
        let first ← next
        nest Nesting.popLambda
        nest Nesting.saveStacks
        let body ← within [(.inLambda, true), (.inBlock, false)] (sub (.statements [closing]))
        let last ← expect closing
        nest Nesting.restoreStacks
        let numbering ← closeNumbering
        keep Bookkeeping.closeScope
        pure (closureNode (leaf .lambda arrow) parameters.1 numbering body
          (arrow.span.join last.span) first last))
        setting (s1.keeping (·.openNumbering (.body 0 parameters.2))) := by
    refine blames_next_bind_of_kind opens fun opener r2 next => ?_
    rw [blames_nest_bind, blames_nest_bind]
    refine blames_within_bind (hb.sub faithful
      (.opens (.lambdaBody enabled read (.of_yields h1) closes next))) fun _ _ _ => ?_
    exact blames_expect_bind fun _ _ _ => blames_of_yields rfl
  split
  · exact body rfl ‹_›
  · exact body rfl ‹_›
  · exact blames_bind blames_unexpected fun _ _ none => absurd none not_yields_unexpected

theorem methodDefinition_blames (faithful : Spot.Faithful ⟨.primary, s, around⟩)
    (first : s.kind? = some .kwDef) :
    Spot.Blames ⟨.primary, s, around⟩ (methodDefinition sub) setting s := by
  refine blames_next_bind_of_kind first fun keyword r1 read => ?_
  refine blames_expect_bind fun name r2 named => ?_
  rw [blames_openBody_bind]
  refine blames_bind (parenthesizedParameters_blames fun paren list eq kind => ?_)
    fun parameters s1 h1 => ?_
  · refine .method ?_ read.kind_eq named.kind_eq kind
    exact read.eq.trans (congrArg _ (named.eq.trans (congrArg _ eq)))
  · refine blames_within_bind (hb.sub faithful (.methodBody read named (.of_yields h1)))
      fun _ _ _ => ?_
    exact blames_expect_bind fun _ _ _ => blames_of_yields rfl

theorem classDefinition_blames (faithful : Spot.Faithful ⟨.primary, s, around⟩)
    (first : s.kind? = some .kwClass) :
    Spot.Blames ⟨.primary, s, around⟩ (classDefinition sub) setting s := by
  refine blames_next_bind_of_kind first fun keyword r1 read => ?_
  rw [blames_books_bind]
  refine blames_unless_rejected (fun inside _ => ?_) fun outside => ?_
  · exact .rule (.classDefinition read (faithful.method.symm.trans inside))
  · refine blames_expect_bind fun name r2 named => ?_
    rw [blames_openBody_bind]
    refine blames_within_bind (hb.sub faithful
      (.opens (.classBody read (Bool.eq_false_iff.2 outside) named))) fun _ _ _ => ?_
    exact blames_expect_bind fun _ _ _ => blames_of_yields rfl

theorem blockAfter_blames {target : Node}
    (faithful : Spot.Faithful ⟨.blockAfter target, s, around⟩) :
    Spot.Blames ⟨.blockAfter target, s, around⟩ (blockAfter sub target) setting s := by
  rw [blockAfter, blames_books_bind, blames_peekKind_bind]
  dsimp only
  split
  · exact blames_pure
  · rename_i close closes
    have closes : blockClose? s = some close := closes
    refine blames_next_bind fun opening r1 read => ?_
    rw [blames_nest_bind, blames_keep_bind]
    refine blames_bind (blockParameters_blames fun bar list eq kind =>
      .block closes (read.trans (congrArg _ eq)) kind) fun parameters s1 h1 => ?_
    rw [blames_keep_bind]
    refine blames_within_bind
      (hb.sub faithful (.opens (.blockBody closes read (.of_yields h1)))) fun _ _ _ => ?_
    exact blames_expect_bind fun _ _ _ => blames_of_yields rfl

theorem argument_blames {command : Bool}
    (faithful : Spot.Faithful ⟨.argument command, s, around⟩) :
    Spot.Blames ⟨.argument command, s, around⟩ (argument sub command) setting s := by
  rw [argument, blames_peekKind_bind]
  dsimp only
  split
  · rename_i none
    exact hb.sub faithful (.opens (.plainArgument none))
  · rename_i sign signs
    have signs : argumentSign? s.kind? = some sign := signs
    refine blames_next_bind fun operator r1 eq => ?_
    have read : s.Next operator.kind operator r1 := ⟨eq, rfl⟩
    rw [read.kind?_eq] at signs
    refine blames_bind (hb.sub faithful (.opens (.signedArgument signs read))) fun _ _ _ => ?_
    cases command <;> exact blames_of_yields rfl

theorem actuals_blames (faithful : Spot.Faithful ⟨.actuals, s, around⟩) :
    Spot.Blames ⟨.actuals, s, around⟩ (Grammar.actuals sub) setting s := by
  rw [Grammar.actuals, blames_adjacent?_bind]
  split
  · rename_i adjacent
    obtain ⟨first, r1, read, spaced⟩ := ParseState.adjacent_iff.1 adjacent
    refine blames_next_bind fun first' r eq => ?_
    cases read.eq.symm.trans eq
    rw [blames_nest_bind, blames_skipNewlines_bind, blames_at?_bind]
    split
    · exact blames_expect_bind fun _ _ _ => blames_of_yields rfl
    · rename_i some
      refine blames_bind (hb.sub faithful (.opens (.parens read spaced
        fun empty => some (beq_iff_eq.2 empty)))) fun _ _ _ => ?_
      rw [blames_skipNewlines_bind]
      exact blames_expect_bind fun _ _ _ => blames_of_yields rfl
  · rename_i apart
    rw [ParseState.adjacent_iff] at apart
    refine startsCommand?_blames_bind ?_
    split
    · rename_i starts
      rw [blames_nest_bind]
      exact blames_bind (hb.sub faithful (.opens (.command apart starts))) fun _ _ _ =>
        blames_of_yields rfl
    · exact blames_pure

theorem entry_blames {label : Token} (faithful : Spot.Faithful ⟨.entry label, s, around⟩) :
    Spot.Blames ⟨.entry label, s, around⟩ (entry sub label) setting s := by
  rw [entry, blames_books_bind]
  cases enters : Bookkeeping.enter? (keyOf label) s.book.patternKeys with
  | none =>
    exact blames_reject_bind fun _ => .rule (.key (faithful.keys.count_eq_one enters))
  | some sets =>
    dsimp only
    rw [blames_keep_bind, blames_peekKind_bind]
    have alone {kind : TokenKind} (here : s.kind? = some kind)
        (ends : kind ∈ [TokenKind.comma, .rbrace, .newline]) :
        Spot.Blames ⟨.entry label, s, around⟩ (bindVariable (keyOf label) (keySpan label)) setting
          (s.keeping fun book => { book with patternKeys := sets }) := by
      -- The key is in the books by now, which the names do not show.
      refine bindVariable_blames fun strict refused => ?_
      have once := faithful.names.count_eq_one refused
      exact .rule (.label ⟨kind, here, ends⟩ strict (by rwa [List.count_filter strict] at once))
    split
    · exact alone ‹_› (by decide)
    · exact alone ‹_› (by decide)
    · exact alone ‹_› (by decide)
    · rename_i comma brace newline
      refine blames_bind (hb.sub faithful (.entryValue enters fun kind here ends => ?_))
        fun _ _ _ => blames_pure
      simp only [List.mem_cons, List.not_mem_nil, or_false] at ends
      obtain rfl | rfl | rfl := ends
      · exact comma here
      · exact brace here
      · exact newline here

theorem hashPattern_blames (faithful : Spot.Faithful ⟨.of .pattern, s, around⟩)
    (first : s.kind? = some .lbrace) :
    Spot.Blames ⟨.of .pattern, s, around⟩ (hashPattern sub) setting s := by
  refine blames_next_bind_of_kind first fun opener r1 read => ?_
  rw [blames_keep_bind, blames_skipNewlines_bind]
  refine blames_bind (hb.sub faithful (.hashEntries read)) fun _ _ _ => ?_
  rw [blames_skipNewlines_bind]
  exact blames_expect_bind fun _ _ _ => blames_of_yields rfl

theorem pattern_blames (faithful : Spot.Faithful ⟨.of .pattern, s, around⟩) :
    Spot.Blames ⟨.of .pattern, s, around⟩ (pattern sub) setting s := by
  rw [pattern, blames_peekKind_bind]
  split
  · refine blames_next_bind_of_kind ‹_› fun token r1 read => ?_
    refine bindVariable_blames fun strict refused => ?_
    have once := faithful.names.count_eq_one refused
    exact .rule (.binding read strict (by rwa [List.count_filter strict] at once))
  · exact hashPattern_blames hb faithful ‹_›
  iterate 8 exact hb.sub faithful (.opens (.value (by simp [startsValue, *])))
  · exact blames_unexpected

theorem expression_blames (faithful : Spot.Faithful ⟨.of .expression, s, around⟩) :
    Spot.Blames ⟨.of .expression, s, around⟩ (expression sub) setting s := by
  rw [expression, blames_at?_bind, blames_peekSecond_bind]
  split
  · obtain ⟨name, operator, r2, named, assign⟩ := ParseState.assigns_iff.1 ‹_›
    refine blames_next_bind fun _ _ eq => ?_
    cases named.eq.symm.trans eq
    refine blames_next_bind fun _ _ eq => ?_
    cases eq
    rw [blames_skipNewlines_bind, blames_keep_bind]
    exact blames_bind (hb.sub faithful (.opens (.assigned named ⟨rfl, assign⟩))) fun _ _ _ =>
      blames_pure
  · exact hb.sub faithful (.opens (.unassigned (mt ParseState.assigns_iff.2 ‹_›)))

include hsub

theorem arguments_blames {command : Bool}
    (faithful : Spot.Faithful ⟨.of (.arguments command), s, around⟩) :
    Spot.Blames ⟨.of (.arguments command), s, around⟩ (arguments sub command) setting s := by
  have enters : Enters setting.features ⟨.of (.arguments command), s, around⟩ ⟨_, s, around⟩ :=
    .opens .argument
  have first := argument_blames hb (enters.faithful faithful)
  refine blames_bind (first.enter enters) fun node s1 h1 => ?_
  refine blames_eat_bind fun comma r eats => ?_
  cases eats with
  | none => exact blames_pure
  | some comma =>
    rw [blames_skipNewlines_bind]
    exact blames_bind
      (hb.sub faithful (.opens (.moreArguments (argument_derives hsub h1) comma))) fun _ _ _ =>
        blames_pure

theorem call_blames {receiver : Option Node} {dot : Option Token} {selector : Token}
    (faithful : Spot.Faithful ⟨.call receiver dot selector, s, around⟩) :
    Spot.Blames ⟨.call receiver dot selector, s, around⟩ (call sub receiver dot selector)
      setting s := by
  rw [call, blames_books_bind]
  have opens : Enters setting.features ⟨.call receiver dot selector, s, around⟩ ⟨_, s, around⟩ :=
    .opens .actuals
  have first := actuals_blames hb (opens.faithful faithful)
  refine blames_bind (first.enter opens) fun actuals s1 h1 => ?_
  have enters : Enters setting.features ⟨.call receiver dot selector, s, around⟩ ⟨_, s1, around⟩ :=
    .opens (.blockAfter (actuals_derives hsub h1))
  exact (blockAfter_blames hb (enters.faithful faithful)).enter enters

theorem callsAfter_blames {receiver : Node}
    (faithful : Spot.Faithful ⟨.of (.callsAfter receiver), s, around⟩) :
    Spot.Blames ⟨.of (.callsAfter receiver), s, around⟩ (callsAfter sub receiver) setting s := by
  refine blames_eat_bind fun dot r1 eats => ?_
  cases eats with
  | none => exact blames_pure
  | some dot =>
    refine blames_expect_bind fun selector r2 named => ?_
    have enters : Enters setting.features ⟨.of (.callsAfter receiver), s, around⟩ ⟨_, _, around⟩ :=
      .opens (.dotCall dot named)
    refine blames_bind ((call_blames hsub hb (enters.faithful faithful)).enter enters)
      fun node s1 h1 => ?_
    exact hb.sub faithful (.opens (.moreCalls dot named (call_derives hsub h1)))

theorem identifier_blames (faithful : Spot.Faithful ⟨.primary, s, around⟩)
    (first : s.kind? = some .identifier) :
    Spot.Blames ⟨.primary, s, around⟩ (identifier sub) setting s := by
  refine blames_next_bind_of_kind first fun token r1 read => ?_
  have called (enters : Enters setting.features ⟨.primary, s, around⟩
      ⟨.call none none token, s.leaving r1, around⟩) :
      Spot.Blames ⟨.primary, s, around⟩ (call sub none none token) setting (s.leaving r1) :=
    (call_blames hsub hb (enters.faithful faithful)).enter enters
  rw [blames_adjacent?_bind]
  split
  · rename_i adjacent
    exact called (.opens (.adjacentCall read (ParseState.adjacent_iff.1 adjacent)))
  · rename_i apart
    rw [ParseState.adjacent_iff] at apart
    rw [blames_books_bind, blames_features_bind]
    split
    · rename_i number ordinary use
      refine blames_unless_rejected (fun refused _ => ?_) fun _ => blames_of_yields rfl
      rw [refused] at use
      exact .numbered read apart use
    · rename_i use
      split
      · exact blames_pure
      · rename_i absent
        exact called (.opens (.wordCall read apart use (Bool.eq_false_iff.2 absent)))

theorem entries_blames (faithful : Spot.Faithful ⟨.of .entries, s, around⟩) :
    Spot.Blames ⟨.of .entries, s, around⟩ (entries sub) setting s := by
  refine blames_eat_bind fun label r1 eats => ?_
  cases eats with
  | none => exact blames_pure
  | some label =>
    have enters : Enters setting.features ⟨.of .entries, s, around⟩ ⟨_, _, around⟩ :=
      .opens (.entry label)
    refine blames_bind ((entry_blames hb (enters.faithful faithful)).enter enters)
      fun node s1 h1 => ?_
    refine blames_eat_bind fun comma r2 eats => ?_
    cases eats with
    | none => exact blames_pure
    | some comma =>
      rw [blames_skipNewlines_bind]
      exact blames_bind
        (hb.sub faithful (.moreEntries label (entry_derives hsub h1) comma)) fun _ _ _ =>
          blames_pure

theorem clause_blames (faithful : Spot.Faithful ⟨.clause, s, around⟩)
    (first : s.kind? = some .kwIn) :
    Spot.Blames ⟨.clause, s, around⟩ (clause sub) setting s := by
  refine blames_next_bind_of_kind first fun keyword r1 read => ?_
  rw [blames_keep_bind]
  refine blames_within_bind (hb.sub faithful (.clausePattern read)) fun pattern s1 h1 => ?_
  rw [blames_keep_bind]
  refine blames_eat_bind fun opener r2 eats => blames_opened_bind fun opened => ?_
  exact blames_bind (hb.sub faithful (.opens (.clauseBody read (hsub h1) rfl eats opened)))
    fun _ _ _ => blames_pure

theorem clauses_blames (faithful : Spot.Faithful ⟨.of .clauses, s, around⟩) :
    Spot.Blames ⟨.of .clauses, s, around⟩ (clauses sub) setting s := by
  rw [clauses, blames_at?_bind]
  split
  · rename_i here
    have first := beq_iff_eq.1 here
    have enters : Enters setting.features ⟨.of .clauses, s, around⟩ ⟨_, _, around⟩ :=
      .opens (.clause first)
    refine blames_bind ((clause_blames hsub hb (enters.faithful faithful) first).enter enters)
      fun node s1 h1 => ?_
    exact blames_bind (hb.sub faithful (.opens (.moreClauses (clause_derives hsub first h1))))
      fun _ _ _ => blames_pure
  · exact blames_pure

theorem whileLoop_blames (faithful : Spot.Faithful ⟨.primary, s, around⟩)
    (first : s.kind? = some .kwWhile) :
    Spot.Blames ⟨.primary, s, around⟩ (whileLoop sub) setting s := by
  refine blames_next_bind_of_kind first fun keyword r1 read => ?_
  rw [blames_nest_bind]
  refine blames_bind (hb.sub faithful (.opens (.condition read))) fun condition s1 h1 => ?_
  rw [blames_nest_bind]
  refine blames_eat_bind fun opener r2 eats => blames_opened_bind fun opened => ?_
  refine blames_bind (hb.sub faithful (.opens (.loopBody read (hsub h1) eats opened)))
    fun body s2 h2 => ?_
  exact blames_expect_bind fun _ _ _ => blames_pure

theorem caseMatch_blames (faithful : Spot.Faithful ⟨.primary, s, around⟩)
    (first : s.kind? = some .kwCase) :
    Spot.Blames ⟨.primary, s, around⟩ (caseMatch sub) setting s := by
  refine blames_next_bind_of_kind first fun keyword r1 read => ?_
  refine blames_bind (hb.sub faithful (.opens (.subject read))) fun subject s1 h1 => ?_
  rw [blames_skipTerminators_bind, blames_features_bind, blames_at?_bind]
  refine blames_unless_unexpected fun starts => ?_
  have enabled : setting.features.patternMatching = true ∧
      s1.pastTerminators.kind? = some .kwIn := by simpa using starts
  refine blames_bind (hb.sub faithful (.opens (.clauses enabled.1 read (hsub h1) enabled.2)))
    fun clauses s2 h2 => ?_
  refine blames_eat_bind fun alternative r2 eats => ?_
  have close {otherwise : List Node} {t : ParseState} :
      Spot.Blames ⟨.primary, s, around⟩ (do
        let last ← expect .kwEnd
        pure (caseNode keyword subject clauses alternative otherwise last)) setting t :=
    blames_expect_bind fun _ _ _ => blames_pure
  cases eats with
  | none => exact blames_bind blames_pure fun _ _ _ => close
  | some alternative =>
    exact blames_bind (hb.sub faithful
      (.opens (.otherwise enabled.1 read (hsub h1) enabled.2 (hsub h2) alternative)))
      fun _ _ _ => close

theorem primary_blames (faithful : Spot.Faithful ⟨.primary, s, around⟩) :
    Spot.Blames ⟨.primary, s, around⟩ (primary sub) setting s := by
  rw [primary, blames_peek_bind]
  cases eq : s.rest with
  | nil => exact blames_unexpected
  | cons token r =>
    dsimp only [List.head?_cons]
    have first {kind : TokenKind} (found : token.kind = kind) : s.kind? = some kind :=
      (ParseState.Next.mk eq found).kind?_eq
    split
    · rw [blames_advance_bind]
      exact blames_bind integerChild_blames fun _ _ _ => blames_pure
    iterate 7 exact blames_of_yields rfl
    · exact identifier_blames hsub hb faithful (first ‹_›)
    · exact parenthesized_blames hb faithful (first ‹_›)
    · rw [blames_features_bind]
      split
      · exact lambda_blames hb faithful ‹_› (first ‹_›)
      · exact blames_unexpected
    · exact methodDefinition_blames hb faithful (first ‹_›)
    · exact classDefinition_blames hb faithful (first ‹_›)
    · exact whileLoop_blames hsub hb faithful (first ‹_›)
    · exact definedCheck_blames hb faithful (first ‹_›)
    · exact caseMatch_blames hsub hb faithful (first ‹_›)
    · exact blames_unexpected

theorem chain_blames (faithful : Spot.Faithful ⟨.of .unary, s, around⟩)
    (noMinus : s.kind? ≠ some .minus) (noBang : s.kind? ≠ some .bang) :
    Spot.Blames ⟨.of .unary, s, around⟩ (chain sub) setting s := by
  have enters : Enters setting.features ⟨.of .unary, s, around⟩ ⟨_, s, around⟩ :=
    .opens (.primary noMinus noBang)
  refine blames_bind ((primary_blames hsub hb (enters.faithful faithful)).enter enters)
    fun receiver s1 h1 => ?_
  exact hb.sub faithful (.opens (.callsAfter noMinus noBang (primary_derives hsub h1)))

theorem unary_blames (faithful : Spot.Faithful ⟨.of .unary, s, around⟩) :
    Spot.Blames ⟨.of .unary, s, around⟩ (unary sub) setting s := by
  rw [unary, blames_peek_bind]
  cases eq : s.rest with
  | nil => exact blames_unexpected
  | cons sign r =>
    dsimp only [List.head?_cons]
    have read {kind : TokenKind} (found : sign.kind = kind) : s.Next kind sign r := ⟨eq, found⟩
    split
    · rename_i minus
      rw [blames_advance_bind, blames_peek_bind, eq, ParseState.leaving_rest, List.tail_cons]
      have signed (apart : ¬ (s.leaving r).Adjacent .integer) :
          Spot.Blames ⟨.of .unary, s, around⟩ (do return signNode "-@" sign (← sub .unary))
            setting (s.leaving r) :=
        blames_bind (hb.sub faithful (.opens (.minus (read minus) apart))) fun _ _ _ => blames_pure
      split
      · rename_i digits found
        split
        · rw [blames_advance_bind]
          exact blames_bind integerChild_blames fun _ _ _ => blames_pure
        · rename_i apart
          refine signed fun adjacent => apart ?_
          simpa [found] using ParseState.adjacent_iff.2 adjacent
      · rename_i absent
        refine signed fun adjacent => ?_
        have some := ParseState.adjacent_iff.2 adjacent
        simp [absent] at some
    · rw [blames_advance_bind, eq]
      exact blames_bind (hb.sub faithful (.opens (.bang (read ‹_›)))) fun _ _ _ => blames_pure
    · rename_i noMinus noBang
      refine chain_blames hsub hb faithful (fun minus => noMinus ?_) (fun bang => noBang ?_)
      · simpa [ParseState.kind?, eq] using minus
      · simpa [ParseState.kind?, eq] using bang

theorem statements_blames {stops : List TokenKind}
    (faithful : Spot.Faithful ⟨.of (.statements stops), s, around⟩) :
    Spot.Blames ⟨.of (.statements stops), s, around⟩ (statements sub stops) setting s := by
  rw [statements, blames_skipTerminators_bind, blames_peekKind_bind]
  split
  · exact blames_pure
  · rename_i kind here
    split
    · exact blames_pure
    · rename_i more
      have starts : ¬ s.pastTerminators.Stops stops := by
        simpa [ParseState.Stops, here] using more
      refine blames_bind (hb.sub faithful (.opens (.statement starts))) fun first s1 h1 => ?_
      have continues (breaks : s1.Breaks) :
          Spot.Blames ⟨.of (.statements stops), s, around⟩
            (do let more ← sub (.statements stops); pure (first :: more)) setting s1 :=
        blames_bind (hb.sub faithful (.opens (.moreStatements starts (hsub h1) breaks)))
          fun _ _ _ => blames_pure
      rw [blames_peekKind_bind]
      split
      iterate 3 exact continues (by simp [ParseState.Breaks, ParseState.Stops, *])
      split
      · exact blames_pure
      · exact blames_unexpected

theorem operatorsAfter_blames {power : Nat} {left : Node}
    (faithful : Spot.Faithful ⟨.of (.operatorsAfter power left), s, around⟩) :
    Spot.Blames ⟨.of (.operatorsAfter power left), s, around⟩ (operatorsAfter sub power left)
      setting s := by
  rw [operatorsAfter, blames_peek_bind]
  cases eq : s.rest with
  | nil => exact blames_pure
  | cons operator r =>
    dsimp only [List.head?_cons]
    cases binds : bindingPower? operator.kind with
    | none => exact blames_pure
    | some tighter =>
      dsimp only
      split
      · exact blames_pure
      · rename_i loose
        have read : s.Next operator.kind operator r := ⟨eq, rfl⟩
        rw [blames_advance_bind, blames_skipNewlines_bind, eq]
        refine blames_bind
          (hb.sub faithful (.opens (.operand binds (Nat.lt_of_not_le loose) read)))
          fun right s1 h1 => ?_
        exact hb.sub faithful
          (.opens (.moreOperators binds (Nat.lt_of_not_le loose) read (hsub h1)))

theorem operators_blames {power : Nat}
    (faithful : Spot.Faithful ⟨.of (.operators power), s, around⟩) :
    Spot.Blames ⟨.of (.operators power), s, around⟩ (operators sub power) setting s := by
  refine blames_bind (hb.sub faithful (.opens .firstOperand)) fun left s1 h1 => ?_
  exact hb.sub faithful (.opens (.operatorsAfter (hsub h1)))

theorem rule_blames : Blamed setting (Construct.rule sub)
  | .statements _, _, _, faithful => statements_blames hsub hb faithful
  | .expression, _, _, faithful => expression_blames hb faithful
  | .operators _, _, _, faithful => operators_blames hsub hb faithful
  | .operatorsAfter _ _, _, _, faithful => operatorsAfter_blames hsub hb faithful
  | .unary, _, _, faithful => unary_blames hsub hb faithful
  | .callsAfter _, _, _, faithful => callsAfter_blames hsub hb faithful
  | .arguments _, _, _, faithful => arguments_blames hsub hb faithful
  | .pattern, _, _, faithful => pattern_blames hb faithful
  | .entries, _, _, faithful => entries_blames hsub hb faithful
  | .clauses, _, _, faithful => clauses_blames hsub hb faithful

end Rules

/-- All that the grammar rejects by a rule is refused somewhere. -/
theorem derive_blames (depth : Nat) : Blamed setting (derive depth) := by
  induction depth with
  | zero => exact fun _ => blames_throw (by simp)
  | succ depth ih => exact rule_blames (derives_of_yields depth) ih

/-- The place at the start of a source. -/
def Spot.start (tokens : List Token) : Spot where
  phrase := .of (.statements [])
  state := ({ rest := tokens } : ParseState).keeping (·.openScope false)

theorem Spot.start_faithful (tokens : List Token) : (Spot.start tokens).Faithful :=
  ⟨nofun, nofun, nofun, rfl⟩

theorem program_blames (tokens : List Token) :
    (Spot.start tokens).Blames (program tokens.length) setting { rest := tokens } := by
  rw [program, blames_keep_bind]
  exact blames_bind (derive_blames _ (Spot.start_faithful tokens)) fun _ _ _ => blames_of_yields rfl

/-- A place in a source refuses what a diagnostic reports. -/
def RefusedIn (features : Features) (source : String) (d : Diagnostic) : Prop :=
  ∃ tokens place, placed source.toList = .ok tokens ∧
    Relation.ReflTransGen (Enters features) (.start tokens) place ∧ place.Refuses features d

/-- A place in a source rejects what a diagnostic reports. -/
def RejectedIn (features : Features) (source : String) (d : Diagnostic) : Prop :=
  ∃ tokens place, placed source.toList = .ok tokens ∧
    Relation.ReflTransGen (Enters features) (.start tokens) place ∧ place.Rejects features d

theorem RejectedIn.refused {features : Features} {source : String} {d : Diagnostic}
    (h : RejectedIn features source d) (static : StaticReport d) : RefusedIn features source d := by
  obtain ⟨tokens, place, tokenized, reached, rejects⟩ := h
  cases rejects with
  | rule refuses => exact ⟨tokens, place, tokenized, reached, refuses⟩
  | numbered =>
    obtain ⟨reason, among, same⟩ := static
    have ordinary : Reason.ordinaryParamDefined.code = reason.code := same
    rw [← Reason.code_injective ordinary] at among
    exact absurd among (by decide)

end Grammar

open Grammar

theorem not_staticReport_of_ambiguous {d : Diagnostic}
    (ambiguous : d.reason = Reason.ambiguousPrefix.code) : ¬ StaticReport d := by
  rintro ⟨reason, among, same⟩
  rw [← Reason.code_injective (ambiguous.symm.trans same)] at among
  exact absurd among (by decide)

theorem parseSource_rejected {features : Features} {encoding : Encoding} {source message : String}
    (rejected : (parseSource features encoding source).result = .error (.rejected message)) :
    ∃ before d, (parseSource features encoding source).emitted = before ++ [d] ∧
      (SemanticReport d → RejectedIn features source d) := by
  unfold parseSource at rejected ⊢
  rw [tokenize_eq] at rejected ⊢
  cases tokenized : placed source.toList with
  | ok tokens =>
    rw [tokenized] at rejected
    dsimp only at rejected ⊢
    obtain ⟨_, _, -, same⟩ | ⟨fault, state, explains, same⟩ :=
      Outcome.ofStep_ends features source.toList.length tokens _ (program_blames tokens)
    · rw [same] at rejected
      cases rejected
    · rw [same] at rejected ⊢
      cases rejected
      obtain ⟨before, d, emitted, blamed⟩ := explains message rfl
      refine ⟨before, d, emitted, fun semantic => ?_⟩
      obtain ⟨place, reached, rejects⟩ := blamed semantic
      exact ⟨tokens, place, tokenized, reached, rejects⟩
  | error e =>
    rw [tokenized] at rejected
    cases e with
    | misplaced => cases rejected
    | _ =>
      exact ⟨[], _, rfl, fun semantic => absurd semantic (not_semanticReport (by decide) _ _)⟩

namespace Parser

theorem rejectedIn_of_rejected {parser : Parser} {source message : String}
    (rejected : (parser.parse source).1 = .error (.rejected message)) :
    ∃ before d, (parser.parse source).2.2 = before ++ [d] ∧
      (SemanticReport d → RejectedIn parser.features source d) := by
  have mapped : (parseSource parser.features parser.encoding source).result.mapError
    ParseFault.toFailure = .error (.rejected message) := rejected
  cases ended : (parseSource parser.features parser.encoding source).result with
  | ok =>
    rw [ended] at mapped
    cases mapped
  | error fault =>
    rw [ended] at mapped
    cases fault with
    | rejected => exact parseSource_rejected ended
    | _ => cases mapped

theorem refused_of_rejected {parser : Parser} {source message : String}
    (rejected : (parser.parse source).1 = .error (.rejected message)) :
    ∃ before d, (parser.parse source).2.2 = before ++ [d] ∧
      (StaticReport d → RefusedIn parser.features source d) := by
  obtain ⟨before, d, emitted, blamed⟩ := rejectedIn_of_rejected rejected
  exact ⟨before, d, emitted, fun static => (blamed static.semantic).refused static⟩

/-- No accepted tree breaks a rule. What is reported as breaking one is a name or a key for the
second time where it may not repeat, or a class in the body of a method. -/
theorem static_rules (parser : Parser) (source : String) :
    (∀ tree, (parser.parse source).1 = .ok (some tree) → tree.Every Node.Ruled) ∧
      ∀ d ∈ (parser.parse source).2.2, StaticReport d → RefusedIn parser.features source d := by
  constructor
  · intro tree accepted
    obtain ⟨tokens, body, after, -, derived, same, -⟩ := program_of_accepted accepted
    exact derived.ruled tree same.symm
  · intro d mem static
    have agrees := (parser.parse_agrees source).1
    -- Only the last diagnostic is no warning, and only if the source is rejected.
    generalize reported : (parser.parse source).2.2 = diagnostics at mem agrees
    generalize ended : (parser.parse source).1 = result at agrees
    cases agrees with
    | accepted warned => exact absurd static (not_staticReport_of_ambiguous (warned d mem).2)
    | rejected warned _ =>
      obtain ⟨before, last, same, blamed⟩ := refused_of_rejected ended
      obtain ⟨-, alike⟩ := List.append_inj' (reported.symm.trans same) rfl
      cases alike
      rcases List.mem_append.1 mem with early | final
      · exact absurd static (not_staticReport_of_ambiguous (warned d early).2)
      · obtain rfl := List.mem_singleton.1 final
        exact blamed static

/-- A name that a case expression in the pattern binds too, and what is refused: a second name in a
nested pattern, a second key after a nested pattern, and a class in a block in a method. -/
theorem static_rules_nested :
    let accepted := "case 1\nin \x7bx: -(case 2\nin b then b end), b:\x7d then b end"
    let name := "case 1\nin \x7ba: b, c: \x7bd: b\x7d\x7d then 1 end"
    let key := "case 1\nin \x7ba: b, c: \x7ba: 1\x7d, a: 2\x7d then 1 end"
    let inMethod := "def foo() bar \x7b class A end \x7d end"
    (∃ tree, (newest.parse accepted).1 = .ok (some tree) ∧ tree.Every Node.Ruled) ∧
      ∀ rejected ∈ [(name, repeatedName "b" ⟨24, 25, by decide⟩),
          (key, repeatedKey "a" ⟨28, 29, by decide⟩),
          (inMethod, classInMethod ⟨16, 21, by decide⟩)],
        (newest.parse rejected.1).2.2 = [rejected.2] ∧
          RefusedIn newest.features rejected.1 rejected.2 := by
  intro accepted name key inMethod
  constructor
  · have found : (newest.parse accepted).1.toOption.join.any (fun _ => true) = true := by
      decide +kernel
    obtain ⟨tree, parsed, -⟩ := accepted_of_any found
    exact ⟨tree, parsed, (static_rules newest accepted).1 tree parsed⟩
  · have reported : ∀ rejected ∈ [(name, repeatedName "b" ⟨24, 25, by decide⟩),
        (key, repeatedKey "a" ⟨28, 29, by decide⟩), (inMethod, classInMethod ⟨16, 21, by decide⟩)],
        (newest.parse rejected.1).2.2 = [rejected.2] ∧
          ∃ reason ∈ staticReasons, rejected.2.reason = reason.code := by
      decide +kernel
    intro rejected among
    obtain ⟨only, static⟩ := reported rejected among
    refine ⟨only, (static_rules newest rejected.1).2 _ ?_ static⟩
    rw [only]
    exact .head _

end Parser

end Conformance.Dialect
