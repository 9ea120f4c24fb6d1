import Conformance.Dialect.Grammar
import Conformance.Proofs.Outline

/-! Every construct of the grammar leaves the outline as it was, and a fault in it leaves open what
`LeftOpen` describes. One lemma for each rule takes this from the constructs in the rule, and
`derive_tidy` ties them together. -/

namespace Conformance.Dialect.Grammar

open Parse

/-! ### Rules without constructs in them -/

theorem parameterNames_leads (close : TokenKind) (seen : List String) (depth : Nat)
    {E : Depths → Prop} {o : Outline} (hE : E o.depths) :
    Leads (parameterNames close seen depth) E o o := by
  induction depth generalizing seen with
  | zero => exact (throw_quiet _).leads hE
  | succ depth ih =>
    refine (at?_looks close).quiet.bind_leads hE fun done => ?_
    refine ite_leads (fun _ => pure_leads _) fun _ => ?_
    refine (expect_quiet _).bind_leads hE fun name => ?_
    refine ite_leads (fun _ => reject_bind_leads hE) fun _ => ?_
    refine (keep_leads id fun book => ?_).bind fun _ => ?_
    · simp [Bookkeeping.outline]
    refine (keep_leads id fun book => book.outline_declare _).bind fun _ => ?_
    refine (eat_quiet _).bind_leads hE fun comma => ?_
    cases comma with
    | none => exact pure_leads _
    | some _ => exact (ih _).bind fun more => pure_leads _

/-- A fault in a list of parameters leaves the list open. -/
theorem parameterList_leads (close : TokenKind) {E : Depths → Prop} {o : Outline}
    (hList : E o.depths.list) : Leads (parameterList close) E o o := by
  refine (keep_leads (fun o => { o with parameters := o.parameters + 1 })
    fun book => rfl).bind fun _ => ?_
  refine get_looks.quiet.bind_leads hList fun state => ?_
  refine (parameterNames_leads close [] _ hList).bind fun names => ?_
  refine (keep_leads (fun o => { o with parameters := o.parameters - 1 })
    fun book => ?_).bind fun _ => pure_leads _
  simp [Bookkeeping.outline]

theorem parameterList_within_leads (close : TokenKind) {E : Depths → Prop} {o : Outline}
    (hList : E o.depths.list) :
    Leads (within [(.inArgdef, true)] (parameterList close)) E o o := by
  refine within_leads (F := fun d => E { d with context := o.context }) ?_ fun _ h => h
  exact parameterList_leads close hList

theorem blockParameters_leads {E : Depths → Prop} {o : Outline} (hE : E o.depths)
    (hList : E o.depths.list) : Leads blockParameters E o o := by
  refine (eat_quiet _).bind_leads hE fun bars => ?_
  cases bars with
  | some bars => exact pure_leads _
  | none =>
    refine (eat_quiet _).bind_leads hE fun bar => ?_
    cases bar with
    | none => exact pure_leads _
    | some first =>
      refine (parameterList_within_leads _ hList).bind fun names => ?_
      exact (expect_quiet _).bind_leads hE fun last => pure_leads _

theorem parenthesizedParameters_leads {E : Depths → Prop} {o : Outline} (hE : E o.depths)
    (hList : E o.depths.list) : Leads parenthesizedParameters E o o := by
  refine (eat_quiet _).bind_leads hE fun paren => ?_
  cases paren with
  | none => exact pure_leads _
  | some first =>
    refine (nest_leads _).bind fun _ => ?_
    refine Leads.bind (parameterList_within_leads _ hList) fun names => ?_
    refine (expect_quiet _).bind_leads hE fun last => ?_
    exact (nest_leads _).bind fun _ => pure_leads _

theorem keepCloseNumbering_leads {E : Depths → Prop} (o : Outline) :
    Leads (keep Bookkeeping.closeNumbering) E o { o with numbering := o.numbering - 1 } :=
  keep_leads (fun o => { o with numbering := o.numbering - 1 }) Bookkeeping.outline_closeNumbering

theorem closeNumbering_leads {E : Depths → Prop} (o : Outline) :
    Leads closeNumbering E o { o with numbering := o.numbering - 1 } :=
  books_leads fun _ _ => (keepCloseNumbering_leads _).bind fun _ => pure_leads _

theorem closeScope_leads {E : Depths → Prop} (o : Outline) :
    Leads (keep Bookkeeping.closeScope) E o { o with scopes := o.scopes - 1 } :=
  keep_leads (fun o => { o with scopes := o.scopes - 1 }) Bookkeeping.outline_closeScope

theorem openScope_leads {E : Depths → Prop} (o : Outline) (inherits : Bool) :
    Leads (keep (·.openScope inherits)) E o { o with scopes := o.scopes + 1 } :=
  keep_leads (fun o => { o with scopes := o.scopes + 1 }) fun _ => rfl

theorem openNumbering_leads {E : Depths → Prop} (o : Outline) (numbering : Numbering) :
    Leads (keep (·.openNumbering numbering)) E o { o with numbering := o.numbering + 1 } :=
  keep_leads (fun o => { o with numbering := o.numbering + 1 }) fun _ => rfl

theorem openBody_leads {E : Depths → Prop} (o : Outline) :
    Leads openBody E o
      { o with
        nesting := o.nesting.saveStacks
        scopes := o.scopes + 1
        numbering := o.numbering + 1 } := by
  refine (nest_leads _).bind fun _ => ?_
  exact (openScope_leads _ _).bind fun _ => openNumbering_leads _ _

theorem closeBody_leads {E : Depths → Prop} (o : Outline) :
    Leads closeBody E o
      { o with
        nesting := o.nesting.restoreStacks
        scopes := o.scopes - 1
        numbering := o.numbering - 1 } := by
  refine (keepCloseNumbering_leads _).bind fun _ => ?_
  exact (closeScope_leads _).bind fun _ => nest_leads _

/-- A name that enters the innermost set adds no set. -/
theorem enterVariable_leads {E : Depths → Prop} {o : Outline} {name : String}
    {book : Bookkeeping} {sets : List (List String)} (hb : book.outline = o)
    (h : Bookkeeping.enter? name book.patternVariables = some sets) :
    Leads (keep fun book => { book with patternVariables := sets }) E o o := by
  intro setting state hs
  rw [ends_keep]
  show ({ state.book.outline with patternVariables := sets.length } : Outline) = o
  rw [Bookkeeping.length_enter? h, hs, ← hb]
  rfl

theorem enterKey_leads {E : Depths → Prop} {o : Outline} {name : String}
    {book : Bookkeeping} {sets : List (List String)} (hb : book.outline = o)
    (h : Bookkeeping.enter? name book.patternKeys = some sets) :
    Leads (keep fun book => { book with patternKeys := sets }) E o o := by
  intro setting state hs
  rw [ends_keep]
  show ({ state.book.outline with patternKeys := sets.length } : Outline) = o
  rw [Bookkeeping.length_enter? h, hs, ← hb]
  rfl

theorem bindVariable_tidy (name : String) (span : Span) : Tidy (bindVariable name span) := by
  intro o
  have declared : Leads (keep (·.declare name)) (LeftOpen o.depths) o o :=
    keep_leads id fun book => book.outline_declare _
  refine ite_leads (fun _ => books_leads fun book hb => ?_) fun _ => ?_
  · split
    · rename_i sets h
      exact (enterVariable_leads hb h).bind fun _ => declared.bind fun _ => pure_leads _
    · exact reject_bind_leads (LeftOpen.refl _)
  · exact declared.bind fun _ => pure_leads _

theorem integerChild_quiet (text : List Char) : Quiet (integerChild text) := by
  unfold integerChild
  split
  · exact fun _ _ => rfl
  · exact throw_quiet _

theorem integerNode_tidy (token : Token) : Tidy (integerNode token) :=
  (integerChild_quiet _).tidy.bind fun _ _ => pure_leads _

theorem negativeNode_tidy (sign token : Token) : Tidy (negativeNode sign token) :=
  (integerChild_quiet _).tidy.bind fun _ _ => pure_leads _

section Rules

variable {sub : Derivation} (hsub : ∀ construct, Tidy (sub construct))
include hsub

theorem whileLoop_tidy : Tidy (whileLoop sub) := by
  intro o
  have here : LeftOpen o.depths o.depths := LeftOpen.refl _
  refine next_quiet.bind_leads here fun keyword => ?_
  refine (nest_leads _).bind fun _ => ?_
  refine (hsub .expression).bind_leads (fun _ h => h) fun condition => ?_
  refine (nest_leads _).bind fun _ => ?_
  refine (eat_quiet _).bind_leads here fun opener => ?_
  refine atTerminator?_looks.quiet.bind_leads here fun terminated => ?_
  refine ite_leads (fun _ => unexpected_bind_leads here) fun _ => ?_
  refine (hsub (.statements _)).bind_leads (fun _ h => h) fun body => ?_
  exact (expect_quiet _).bind_leads here fun last => pure_leads _

theorem definedCheck_tidy : Tidy (definedCheck sub) := by
  intro o
  have here : LeftOpen o.depths o.depths := LeftOpen.refl _
  refine next_quiet.bind_leads here fun keyword => ?_
  refine (eat_quiet _).bind_leads here fun paren => ?_
  cases paren with
  | none =>
    exact (within_leads (hsub .expression _) fun d h => h.of_context).bind fun operand =>
      pure_leads _
  | some first =>
    refine (nest_leads _).bind fun _ => ?_
    refine skipNewlines_quiet.bind_leads here fun _ => ?_
    refine (within_leads (hsub .expression _) fun d h => h.of_context).bind fun operand => ?_
    refine skipNewlines_quiet.bind_leads here fun _ => ?_
    refine (expect_quiet _).bind_leads here fun last => ?_
    exact (nest_leads _).bind fun _ => pure_leads _

theorem parenthesized_tidy : Tidy (parenthesized sub) := by
  intro o
  have here : LeftOpen o.depths o.depths := LeftOpen.refl _
  refine next_quiet.bind_leads here fun first => ?_
  refine (nest_leads _).bind fun _ => ?_
  refine (hsub (.statements _)).bind_leads (fun _ h => h) fun body => ?_
  refine (expect_quiet _).bind_leads here fun last => ?_
  exact (nest_leads _).bind fun _ => pure_leads _

theorem blockAfter_tidy (call : Node) : Tidy (blockAfter sub call) := by
  intro o
  have here : LeftOpen o.depths o.depths := LeftOpen.refl _
  have opened : LeftOpen o.depths o.depths.opening := LeftOpen.opening _
  refine books_leads fun book _ => ?_
  refine peekKind_looks.quiet.bind_leads here fun kind => ?_
  dsimp only
  split
  · exact pure_leads _
  · rename_i close _
    refine next_quiet.bind_leads here fun first => ?_
    refine (nest_leads _).bind fun _ => ?_
    refine (openScope_leads _ _).bind fun _ => ?_
    refine Leads.bind (blockParameters_leads opened (opened.list rfl)) fun parameters => ?_
    refine (openNumbering_leads _ _).bind fun _ => ?_
    refine (within_leads (hsub (.statements _) _) fun d h =>
      LeftOpen.of_body (LeftOpen.of_context h)).bind fun body => ?_
    refine (expect_quiet _).bind_leads (LeftOpen.body _) fun last => ?_
    refine (closeNumbering_leads _).bind fun numbering => ?_
    refine (closeScope_leads _).bind fun _ => ?_
    exact (nest_leads _).bind fun _ => pure_leads _

theorem lambda_tidy : Tidy (lambda sub) := by
  intro o
  have here : LeftOpen o.depths o.depths := LeftOpen.refl _
  have opened : LeftOpen o.depths o.depths.literal := LeftOpen.literal _
  have settled := LeftOpen.settled o.depths
  refine next_quiet.bind_leads here fun arrow => ?_
  refine (nest_leads _).bind fun _ => ?_
  refine (openScope_leads _ _).bind fun _ => ?_
  refine Leads.bind (parenthesizedParameters_leads opened (opened.list rfl)) fun parameters => ?_
  refine (openNumbering_leads _ _).bind fun _ => ?_
  refine peekKind_looks.quiet.bind_leads settled fun kind => ?_
  dsimp only
  split
  case h_3 => exact unexpected_bind_leads settled
  all_goals
    refine (pure_leads _).bind fun close => ?_
    refine next_quiet.bind_leads settled fun first => ?_
    refine (nest_leads _).bind fun _ => ?_
    refine (nest_leads _).bind fun _ => ?_
    refine Leads.bind (within_leads (hsub (.statements _) _) fun d h =>
      LeftOpen.of_body (LeftOpen.of_context h)) fun body => ?_
    refine (expect_quiet _).bind_leads (LeftOpen.body _) fun last => ?_
    refine (nest_leads _).bind fun _ => ?_
    refine (closeNumbering_leads _).bind fun numbering => ?_
    exact (closeScope_leads _).bind fun _ => pure_leads _

theorem methodDefinition_tidy : Tidy (methodDefinition sub) := by
  intro o
  have here : LeftOpen o.depths o.depths := LeftOpen.refl _
  have inside : LeftOpen o.depths o.depths.body := LeftOpen.body _
  refine next_quiet.bind_leads here fun keyword => ?_
  refine (expect_quiet _).bind_leads here fun name => ?_
  refine (openBody_leads _).bind fun _ => ?_
  refine Leads.bind (parenthesizedParameters_leads inside (inside.list rfl)) fun parameters => ?_
  refine (within_leads (hsub (.statements _) _) fun d h =>
    LeftOpen.of_body (LeftOpen.of_context h)).bind fun body => ?_
  refine (expect_quiet _).bind_leads inside fun last => ?_
  exact (closeBody_leads _).bind fun _ => pure_leads _

theorem classDefinition_tidy : Tidy (classDefinition sub) := by
  intro o
  have here : LeftOpen o.depths o.depths := LeftOpen.refl _
  refine next_quiet.bind_leads here fun keyword => ?_
  refine books_leads fun book _ => ?_
  refine ite_leads (fun _ => reject_bind_leads here) fun _ => ?_
  refine (expect_quiet _).bind_leads here fun name => ?_
  refine (openBody_leads _).bind fun _ => ?_
  refine (within_leads (hsub (.statements _) _) fun d h =>
    LeftOpen.of_body (LeftOpen.of_context h)).bind fun body => ?_
  refine (expect_quiet _).bind_leads (LeftOpen.body _) fun last => ?_
  exact (closeBody_leads _).bind fun _ => pure_leads _

theorem argument_tidy (first : Bool) : Tidy (argument sub first) := by
  intro o
  have here : LeftOpen o.depths o.depths := LeftOpen.refl _
  refine peekKind_looks.quiet.bind_leads here fun kind => ?_
  dsimp only
  split
  · exact hsub .expression o
  · refine next_quiet.bind_leads here fun operator => ?_
    refine (hsub (.operators 0)).bind_leads (fun _ h => h) fun operand => ?_
    refine ite_leads (fun _ => ?_) fun _ => pure_leads _
    exact (emit_quiet _).bind_leads here fun _ => pure_leads _

theorem arguments_tidy (command : Bool) : Tidy (arguments sub command) := by
  refine (argument_tidy hsub command).bind fun first => ?_
  refine (eat_quiet _).tidy.bind fun comma => ?_
  cases comma with
  | none => exact fun _ => pure_leads _
  | some _ =>
    refine skipNewlines_quiet.tidy.bind fun _ => ?_
    exact (hsub (.arguments false)).bind fun more _ => pure_leads _

theorem actuals_tidy : Tidy (actuals sub) := by
  intro o
  have here : LeftOpen o.depths o.depths := LeftOpen.refl _
  refine (adjacent?_looks _).quiet.bind_leads here fun paren => ?_
  refine ite_leads (fun _ => ?_) fun _ => ?_
  · refine next_quiet.bind_leads here fun first => ?_
    refine (nest_leads _).bind fun _ => ?_
    refine skipNewlines_quiet.bind_leads here fun _ => ?_
    refine (at?_looks _).quiet.bind_leads here fun empty => ?_
    refine ite_leads (fun _ => ?_) fun _ => ?_
    · refine (pure_leads _).bind fun nodes => ?_
      refine (expect_quiet _).bind_leads here fun last => ?_
      exact (nest_leads _).bind fun _ => pure_leads _
    · refine (hsub (.arguments false)).bind_leads (fun _ h => h) fun nodes => ?_
      refine skipNewlines_quiet.bind_leads here fun _ => ?_
      refine (pure_leads _).bind fun nodes => ?_
      refine (expect_quiet _).bind_leads here fun last => ?_
      exact (nest_leads _).bind fun _ => pure_leads _
  · refine startsCommand?_looks.quiet.bind_leads here fun command => ?_
    refine ite_leads (fun _ => ?_) fun _ => pure_leads _
    refine (nest_leads _).bind fun _ => ?_
    refine (hsub (.arguments true)).bind_leads (fun _ h => h) fun nodes => ?_
    exact (nest_leads _).bind fun _ => pure_leads _

theorem call_tidy (receiver : Option Node) (dot : Option Token) (selector : Token) :
    Tidy (call sub receiver dot selector) := by
  refine Tidy.bind (fun o => books_leads fun _ _ => pure_leads _) fun context => ?_
  exact (actuals_tidy hsub).bind fun actuals => blockAfter_tidy hsub _

theorem callsAfter_tidy (receiver : Node) : Tidy (callsAfter sub receiver) := by
  refine (eat_quiet _).tidy.bind fun dot => ?_
  cases dot with
  | none => exact fun _ => pure_leads _
  | some dot =>
    refine (expect_quiet _).tidy.bind fun selector => ?_
    exact (call_tidy hsub _ _ _).bind fun node => hsub (.callsAfter node)

theorem identifier_tidy : Tidy (identifier sub) := by
  intro o
  have here : LeftOpen o.depths o.depths := LeftOpen.refl _
  refine next_quiet.bind_leads here fun token => ?_
  refine (adjacent?_looks _).quiet.bind_leads here fun paren => ?_
  refine ite_leads (fun _ => call_tidy hsub _ _ _ o) fun _ => ?_
  refine books_leads fun book _ => ?_
  refine features_looks.quiet.bind_leads here fun features => ?_
  split
  · refine ite_leads (fun _ => reject_bind_leads here) fun _ => ?_
    exact (keep_leads id fun book => book.outline_useNumber _).bind fun _ => pure_leads _
  · exact ite_leads (fun _ => pure_leads _) fun _ => call_tidy hsub _ _ _ o

theorem entry_tidy (label : Token) : Tidy (entry sub label) := by
  intro o
  have here : LeftOpen o.depths o.depths := LeftOpen.refl _
  refine books_leads fun book hb => ?_
  dsimp only
  split
  · rename_i sets h
    refine (enterKey_leads hb h).bind fun _ => ?_
    refine peekKind_looks.quiet.bind_leads here fun kind => ?_
    split
    case h_4 => exact (hsub .pattern).bind_leads (fun _ h => h) fun value => pure_leads _
    all_goals exact bindVariable_tidy _ _ o
  · exact reject_bind_leads here

theorem entries_tidy : Tidy (entries sub) := by
  refine (eat_quiet _).tidy.bind fun label => ?_
  cases label with
  | none => exact fun _ => pure_leads _
  | some label =>
    refine (entry_tidy hsub label).bind fun first => ?_
    refine (eat_quiet _).tidy.bind fun comma => ?_
    cases comma with
    | none => exact fun _ => pure_leads _
    | some _ =>
      refine skipNewlines_quiet.tidy.bind fun _ => ?_
      exact (hsub .entries).bind fun more _ => pure_leads _

theorem hashPattern_tidy : Tidy (hashPattern sub) := by
  intro o
  have here : LeftOpen o.depths o.depths := LeftOpen.refl _
  refine next_quiet.bind_leads here fun first => ?_
  refine (keep_leads (fun o => { o with patternKeys := o.patternKeys + 1 })
    fun book => rfl).bind fun _ => ?_
  refine skipNewlines_quiet.bind_leads here fun _ => ?_
  refine (hsub .entries).bind_leads (fun _ h => h) fun entries => ?_
  refine skipNewlines_quiet.bind_leads here fun _ => ?_
  refine (expect_quiet _).bind_leads here fun last => ?_
  refine (keep_leads (fun o => { o with patternKeys := o.patternKeys - 1 })
    fun book => ?_).bind fun _ => pure_leads _
  simp [Bookkeeping.outline]

theorem pattern_tidy : Tidy (pattern sub) := by
  refine peekKind_looks.quiet.tidy.bind fun kind => ?_
  split
  case h_1 => exact next_quiet.tidy.bind fun token => bindVariable_tidy _ _
  case h_2 => exact hashPattern_tidy hsub
  case h_11 => exact fun o => unexpected_leads (LeftOpen.refl _)
  all_goals exact hsub .unary

theorem clause_tidy : Tidy (clause sub) := by
  intro o
  have here : LeftOpen o.depths o.depths := LeftOpen.refl _
  refine next_quiet.bind_leads here fun keyword => ?_
  refine (keep_leads (fun o => { o with patternVariables := o.patternVariables + 1 })
    fun book => rfl).bind fun _ => ?_
  refine (within_leads (hsub .pattern _) fun d h => h.of_context).bind fun pattern => ?_
  refine (keep_leads (fun o => { o with patternVariables := o.patternVariables - 1 })
    fun book => ?_).bind fun _ => ?_
  · simp [Bookkeeping.outline]
  refine (eat_quiet _).bind_leads here fun opener => ?_
  refine atTerminator?_looks.quiet.bind_leads here fun terminated => ?_
  refine ite_leads (fun _ => unexpected_bind_leads here) fun _ => ?_
  exact (hsub (.statements _)).bind_leads (fun _ h => h) fun body => pure_leads _

theorem clauses_tidy : Tidy (clauses sub) := by
  refine (at?_looks _).quiet.tidy.bind fun more => ?_
  intro o
  refine ite_leads (fun _ => ?_) fun _ => pure_leads _
  refine (clause_tidy hsub).bind_leads (fun _ h => h) fun first => ?_
  exact (hsub .clauses).bind_leads (fun _ h => h) fun more => pure_leads _

theorem caseMatch_tidy : Tidy (caseMatch sub) := by
  intro o
  have here : LeftOpen o.depths o.depths := LeftOpen.refl _
  refine next_quiet.bind_leads here fun keyword => ?_
  refine (hsub .expression).bind_leads (fun _ h => h) fun subject => ?_
  refine skipTerminators_quiet.bind_leads here fun _ => ?_
  refine features_looks.quiet.bind_leads here fun features => ?_
  refine (at?_looks _).quiet.bind_leads here fun more => ?_
  refine ite_leads (fun _ => unexpected_bind_leads here) fun _ => ?_
  refine (hsub .clauses).bind_leads (fun _ h => h) fun clauses => ?_
  refine (eat_quiet _).bind_leads here fun alternative => ?_
  dsimp only
  split
  · refine (hsub (.statements _)).bind_leads (fun _ h => h) fun otherwise => ?_
    exact (expect_quiet _).bind_leads here fun last => pure_leads _
  · refine (pure_leads _).bind fun otherwise => ?_
    exact (expect_quiet _).bind_leads here fun last => pure_leads _

theorem primary_tidy : Tidy (primary sub) := by
  refine peek_looks.quiet.tidy.bind fun token => ?_
  have literal : ∀ node : Node, Tidy (do advance; pure node) := fun node =>
    advance_quiet.tidy.bind fun _ _ => pure_leads _
  cases token with
  | none => exact fun o => unexpected_leads (LeftOpen.refl _)
  | some token =>
    dsimp only
    split
    case h_1 => exact advance_quiet.tidy.bind fun _ => integerNode_tidy token
    case h_9 => exact identifier_tidy hsub
    case h_10 => exact parenthesized_tidy hsub
    case h_11 =>
      refine features_looks.quiet.tidy.bind fun features o => ?_
      exact ite_leads (fun _ => lambda_tidy hsub o) fun _ => unexpected_leads (LeftOpen.refl _)
    case h_12 => exact methodDefinition_tidy hsub
    case h_13 => exact classDefinition_tidy hsub
    case h_14 => exact whileLoop_tidy hsub
    case h_15 => exact definedCheck_tidy hsub
    case h_16 => exact caseMatch_tidy hsub
    case h_17 => exact fun o => unexpected_leads (LeftOpen.refl _)
    all_goals exact literal _

theorem chain_tidy : Tidy (chain sub) :=
  (primary_tidy hsub).bind fun receiver => hsub (.callsAfter receiver)

theorem unary_tidy : Tidy (unary sub) := by
  refine peek_looks.quiet.tidy.bind fun sign => ?_
  have signed : ∀ (selector : String) (sign : Token),
      Tidy (do return signNode selector sign (← sub .unary)) := fun selector sign =>
    (hsub .unary).bind fun operand _ => pure_leads _
  cases sign with
  | none => exact fun o => unexpected_leads (LeftOpen.refl _)
  | some sign =>
    dsimp only
    split
    · refine advance_quiet.tidy.bind fun _ => peek_looks.quiet.tidy.bind fun literal => ?_
      cases literal with
      | none => exact signed _ _
      | some literal =>
        intro o
        refine ite_leads (fun _ => ?_) fun _ => signed _ _ o
        exact (advance_quiet.tidy.bind fun _ => negativeNode_tidy sign literal) o
    · exact advance_quiet.tidy.bind fun _ => signed _ _
    · exact chain_tidy hsub

theorem assignment_tidy : Tidy (assignment sub) := by
  refine next_quiet.tidy.bind fun name => next_quiet.tidy.bind fun operator => ?_
  refine skipNewlines_quiet.tidy.bind fun _ => ?_
  intro o
  refine (keep_leads id fun book => book.outline_declare _).bind fun _ => ?_
  exact (hsub .expression).bind_leads (fun _ h => h) fun value => pure_leads _

theorem expression_tidy : Tidy (expression sub) := by
  refine (at?_looks _).quiet.tidy.bind fun named => peekSecond_looks.quiet.tidy.bind fun second => ?_
  exact fun o => ite_leads (fun _ => assignment_tidy hsub o) fun _ => hsub (.operators 0) o

theorem statements_tidy (stops : List TokenKind) : Tidy (statements sub stops) := by
  refine skipTerminators_quiet.tidy.bind fun _ => peekKind_looks.quiet.tidy.bind fun kind => ?_
  cases kind with
  | none => exact fun _ => pure_leads _
  | some kind =>
    intro o
    refine ite_leads (fun _ => pure_leads _) fun _ => ?_
    refine (hsub .expression).bind_leads (fun _ h => h) fun first => ?_
    refine peekKind_looks.quiet.bind_leads (LeftOpen.refl _) fun kind => ?_
    split
    case h_4 =>
      exact ite_leads (fun _ => pure_leads _) fun _ => unexpected_leads (LeftOpen.refl _)
    all_goals
      exact (hsub (.statements stops)).bind_leads (fun _ h => h) fun more => pure_leads _

theorem operatorsAfter_tidy (power : Nat) (left : Node) :
    Tidy (operatorsAfter sub power left) := by
  refine peek_looks.quiet.tidy.bind fun operator => ?_
  cases operator with
  | none => exact fun _ => pure_leads _
  | some operator =>
    dsimp only
    split
    · exact fun _ => pure_leads _
    · intro o
      refine ite_leads (fun _ => pure_leads _) fun _ => ?_
      refine (advance_quiet.tidy.bind fun _ => skipNewlines_quiet.tidy.bind fun _ => ?_) o
      exact (hsub (.operators _)).bind fun right => hsub (.operatorsAfter _ _)

theorem operators_tidy (power : Nat) : Tidy (operators sub power) :=
  (hsub .unary).bind fun left => hsub (.operatorsAfter power left)

theorem Construct.rule_tidy (construct : Construct) : Tidy (construct.rule sub) := by
  cases construct with
  | statements stops => exact statements_tidy hsub stops
  | expression => exact expression_tidy hsub
  | operators power => exact operators_tidy hsub power
  | operatorsAfter power left => exact operatorsAfter_tidy hsub power left
  | unary => exact unary_tidy hsub
  | callsAfter receiver => exact callsAfter_tidy hsub receiver
  | arguments command => exact arguments_tidy hsub command
  | pattern => exact pattern_tidy hsub
  | entries => exact entries_tidy hsub
  | clauses => exact clauses_tidy hsub

end Rules

theorem derive_tidy (depth : Nat) (construct : Construct) : Tidy (derive depth construct) := by
  induction depth generalizing construct with
  | zero => exact (throw_quiet _).tidy
  | succ depth ih => exact Construct.rule_tidy ih construct

/-- A whole source leaves its books as they were, and a fault in it has at least the scope of the
source open. -/
theorem program_leads (tokens : Nat) (o : Outline) :
    Leads (program tokens) (LeftOpen { o with scopes := o.scopes + 1 }.depths) o o := by
  refine (openScope_leads _ _).bind fun _ => ?_
  refine (derive_tidy _ (.statements [])).bind_leads (fun _ h => h) fun body => ?_
  exact (closeScope_leads _).bind fun _ => pure_leads _

end Conformance.Dialect.Grammar
