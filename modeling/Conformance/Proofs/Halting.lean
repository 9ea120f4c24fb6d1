import Conformance.Proofs.Acceptance

/-! Every parse comes to an end and reads on. `Halts` compares a step with one in which rules may be
nested deeper: where there is room for the constructs in a step, the depth is not what it fails for,
and the deeper one ends in the same way. That each construct reads a token before it comes back to
itself carries this from the constructs to the rules, one lemma for each, and `derive_halts` ties
them together. -/

namespace Conformance.Dialect

namespace Parse

variable {α β : Type} {room : Prop} {j k : Nat} {tokens : List Token}

/-- Where `tokens` are left, a step that succeeds has read at least `k` of them. If there is room,
it does not fail because of the depth, and `deeper` ends in the same way. -/
structure Halts (room : Prop) (step deeper : Parse α) (k : Nat) (tokens : List Token) : Prop where
  ends : ∀ setting state, state.rest = tokens →
    Ends step setting state (fun _ after => Past k tokens after.rest)
      fun fault _ => room → fault ≠ .depthExceeded
  same : room → ∀ setting state, state.rest = tokens → deeper setting state = step setting state

namespace Halts

variable {step deeper : Parse α} {next next' : α → Parse β}

/-- A step without constructs in it. -/
theorem of_ends (ends : ∀ setting state, state.rest = tokens →
    Ends step setting state (fun _ after => Past k tokens after.rest)
      fun fault _ => fault ≠ .depthExceeded) : Halts room step step k tokens where
  ends setting state hs :=
    (ends setting state hs).mono (fun _ _ past => past) fun _ _ other _ => other
  same _ _ _ _ := rfl

theorem when {less : Prop} (h : Halts room step deeper k tokens) (enough : less → room) :
    Halts less step deeper k tokens where
  ends setting state hs :=
    (h.ends setting state hs).mono (fun _ _ past => past) fun _ _ other room => other (enough room)
  same room := h.same (enough room)

/-- One step after another, where the value of the first one says how much it has read. -/
theorem bind_of_count {count : α → Nat}
    (ends : ∀ setting state, state.rest = tokens →
      Ends step setting state (fun value after => Past (count value) tokens after.rest)
        fun fault _ => room → fault ≠ .depthExceeded)
    (same : room → ∀ setting state, state.rest = tokens →
      deeper setting state = step setting state)
    (hn : ∀ value rest, Past (count value) tokens rest →
      Halts room (next value) (next' value) (k - count value) rest) :
    Halts room (step >>= next) (deeper >>= next') k tokens where
  ends setting state hs := by
    refine (ends setting state hs).bind fun value after read => ?_
    refine ((hn value after.rest read).ends setting after rfl).mono (fun _ _ more => ?_)
      fun _ _ other => other
    exact (read.trans more).weaken (by omega)
  same enough setting state hs := by
    have ended := ends setting state hs
    show EStateM.bind (deeper setting) (fun value => next' value setting) state =
      EStateM.bind (step setting) (fun value => next value setting) state
    unfold EStateM.bind
    rw [same enough setting state hs]
    unfold Ends at ended
    cases result : step setting state with
    | ok value after =>
      rw [result] at ended
      exact (hn value after.rest ended).same enough setting after rfl
    | error fault after => rfl

/-- One step after another: what the first one has read, the second one need not read. -/
theorem bind (h : Halts room step deeper j tokens)
    (hn : ∀ value rest, Past j tokens rest →
      Halts room (next value) (next' value) (k - j) rest) :
    Halts room (step >>= next) (deeper >>= next') k tokens :=
  bind_of_count h.ends h.same hn

/-- Nothing comes after a step that never succeeds. -/
theorem bind_of_fails (fails : ∀ j, Halts room step deeper j tokens) :
    Halts room (step >>= next) (deeper >>= next') k tokens :=
  (fails (tokens.length + 1)).bind fun _ rest past => absurd past.1 (by omega)

theorem ite {p : Prop} [Decidable p] {x y x' y' : Parse α} (hx : p → Halts room x x' k tokens)
    (hy : ¬ p → Halts room y y' k tokens) :
    Halts room (if p then x else y) (if p then x' else y') k tokens := by
  split
  · exact hx ‹_›
  · exact hy ‹_›

/-- Flags that are changed for a step do not matter for how it ends. -/
theorem within {changes : List (Flag × Bool)} (h : Halts room step deeper k tokens) :
    Halts room (Parse.within changes step) (Parse.within changes deeper) k tokens where
  ends setting state hs := (ends_within changes step).2 (h.ends setting _ hs)
  same enough setting state hs := by
    unfold Parse.within
    simp only [h.same enough setting { state with
      book := { state.book with context := state.book.context.setAll changes } } hs]

end Halts

/-! ### Primitive steps -/

theorem pure_halts (value : α) : Halts room (pure value) (pure value) 0 tokens :=
  .of_ends fun _ _ hs => hs ▸ Past.refl _

theorem Looks.halts {step : Parse α} (h : Looks step) : Halts room step step 0 tokens := by
  refine .of_ends fun setting state hs => (h setting state).mono (fun _ after same => ?_)
    fun _ _ none => none.elim
  rw [same, hs]
  exact .refl _

theorem keep_halts (change : Bookkeeping → Bookkeeping) :
    Halts room (keep change) (keep change) 0 tokens := .of_ends fun _ _ hs => hs ▸ Past.refl _

theorem nest_halts (change : Nesting → Nesting) :
    Halts room (nest change) (nest change) 0 tokens := keep_halts _

theorem emit_halts (diagnostic : Diagnostic) :
    Halts room (emit diagnostic) (emit diagnostic) 0 tokens :=
  .of_ends fun _ _ hs => hs ▸ Past.refl _

theorem throw_halts {fault : ParseFault} (other : fault ≠ .depthExceeded) :
    Halts room (throw fault : Parse α) (throw fault) k tokens := .of_ends fun _ _ _ => other

theorem reject_halts (reason : Reason) (arguments : Arguments) (location : Span) :
    Halts room (reject reason arguments location : Parse α) (reject reason arguments location) k
      tokens := .of_ends fun _ _ _ => nofun

theorem reject_bind_halts {reason : Reason} {arguments : Arguments} {location : Span}
    {next next' : β → Parse α} :
    Halts room (reject reason arguments location >>= next)
      (reject reason arguments location >>= next') k tokens :=
  .bind_of_fails fun _ => reject_halts _ _ _

theorem unexpected_halts : Halts room (unexpected : Parse α) unexpected k tokens :=
  .of_ends fun _ _ _ => ends_unexpected.2 nofun

theorem unexpected_bind_halts {next next' : β → Parse α} :
    Halts room (unexpected >>= next) (unexpected >>= next') k tokens :=
  .bind_of_fails fun _ => unexpected_halts

theorem next_halts : Halts room next next 1 tokens := by
  refine .of_ends fun setting state hs => ends_next.2 ?_
  rw [hs]
  cases tokens with
  | nil => exact ends_unexpected.2 nofun
  | cons token rest => exact .of_cons _ _

/-- What is eaten is read. -/
theorem eat_ends (kind : TokenKind) (setting : Setting) (state : ParseState) :
    Ends (eat kind) setting state
      (fun found after => Past found.toList.length state.rest after.rest) fun _ _ => False := by
  obtain ⟨rest, book, emitted⟩ := state
  rw [ends_eat]
  cases rest with
  | nil => exact .refl _
  | cons token rest =>
    dsimp only
    split
    · exact .of_cons _ _
    · exact .refl _

theorem eat_halts (kind : TokenKind) : Halts room (eat kind) (eat kind) 0 tokens :=
  .of_ends fun setting state hs => (eat_ends kind setting state).mono
    (fun _ _ past => hs ▸ past.weaken (Nat.zero_le _)) fun _ _ none => none.elim

theorem eat_bind_halts {kind : TokenKind} {next next' : Option Token → Parse α}
    (h : ∀ found rest, Past found.toList.length tokens rest →
      Halts room (next found) (next' found) (k - found.toList.length) rest) :
    Halts room (eat kind >>= next) (eat kind >>= next') k tokens := by
  refine .bind_of_count (fun setting state hs => ?_) (fun _ _ _ _ => rfl) h
  exact (eat_ends kind setting state).mono (fun _ _ past => hs ▸ past) fun _ _ none => none.elim

theorem expect_halts (kind : TokenKind) : Halts room (expect kind) (expect kind) 1 tokens := by
  refine .of_ends fun setting state hs => (ends_expect kind).2 ?_
  refine (eat_ends kind setting state).mono (fun found after past => ?_) fun _ _ none => none.elim
  cases found with
  | none => exact ends_unexpected.2 nofun
  | some token => exact hs ▸ past

theorem skipWhile_halts (p : TokenKind → Bool) :
    Halts room (skipWhile p) (skipWhile p) 0 tokens :=
  .of_ends fun _ _ hs => hs ▸ past_dropWhile _ _

/-! ### Steps whose value says what is left -/

section Tokens

variable {next next' : Option Token → Parse α}

theorem peek_bind_halts (h : Halts room (next tokens.head?) (next' tokens.head?) k tokens) :
    Halts room (peek >>= next) (peek >>= next') k tokens where
  ends setting state hs := by
    subst hs
    exact ends_bind.2 (h.ends setting state rfl)
  same enough setting state hs := by
    subst hs
    exact h.same enough setting state rfl

theorem advance_bind_halts {token : Token} {rest : List Token} {next next' : Unit → Parse α}
    (h : Halts room (next ()) (next' ()) (k - 1) rest) :
    Halts room (advance >>= next) (advance >>= next') k (token :: rest) where
  ends setting state hs := by
    have hr : state.rest.tail = rest := by rw [hs, List.tail_cons]
    refine ends_bind.2 ((h.ends setting { state with rest := state.rest.tail } hr).mono
      (fun _ _ past => ?_) fun _ _ other => other)
    exact ((Past.of_cons token rest).trans past).weaken (by omega)
  same enough setting state hs := by
    have hr : state.rest.tail = rest := by rw [hs, List.tail_cons]
    exact h.same enough setting { state with rest := state.rest.tail } hr

theorem get_bind_halts {next next' : ParseState → Parse α}
    (h : ∀ state : ParseState, state.rest = tokens →
      Halts room (next state) (next' state) k tokens) :
    Halts room (get >>= next) (get >>= next') k tokens where
  ends setting state hs := ends_bind.2 ((h state hs).ends setting state hs)
  same enough setting state hs := (h state hs).same enough setting state hs

end Tokens

end Parse

namespace Grammar

open Parse

variable {room : Prop} {depth k : Nat} {tokens : List Token}

/-- Where the constructs find room in a depth, they do not fail because of it, and with the deeper
ones they end in the same way. -/
structure HaltsTo (depth : Nat) (sub deeper : Derivation) : Prop where
  statements : ∀ {stops tokens} {room : Prop}, (room → 8 * tokens.length + 4 ≤ depth) →
    Halts room (sub (.statements stops)) (deeper (.statements stops)) 0 tokens
  expression : ∀ {tokens} {room : Prop}, (room → 8 * tokens.length + 3 ≤ depth) →
    Halts room (sub .expression) (deeper .expression) 1 tokens
  operators : ∀ {power tokens} {room : Prop}, (room → 8 * tokens.length + 2 ≤ depth) →
    Halts room (sub (.operators power)) (deeper (.operators power)) 1 tokens
  operatorsAfter : ∀ {power left tokens} {room : Prop}, (room → 8 * tokens.length + 1 ≤ depth) →
    Halts room (sub (.operatorsAfter power left)) (deeper (.operatorsAfter power left)) 0 tokens
  unary : ∀ {tokens} {room : Prop}, (room → 8 * tokens.length + 1 ≤ depth) →
    Halts room (sub .unary) (deeper .unary) 1 tokens
  callsAfter : ∀ {receiver tokens} {room : Prop}, (room → 8 * tokens.length + 1 ≤ depth) →
    Halts room (sub (.callsAfter receiver)) (deeper (.callsAfter receiver)) 0 tokens
  arguments : ∀ {command tokens} {room : Prop}, (room → 8 * tokens.length + 4 ≤ depth) →
    Halts room (sub (.arguments command)) (deeper (.arguments command)) 1 tokens
  pattern : ∀ {tokens} {room : Prop}, (room → 8 * tokens.length + 2 ≤ depth) →
    Halts room (sub .pattern) (deeper .pattern) 1 tokens
  entries : ∀ {tokens} {room : Prop}, (room → 8 * tokens.length + 1 ≤ depth) →
    Halts room (sub .entries) (deeper .entries) 0 tokens
  clauses : ∀ {tokens} {room : Prop}, (room → 8 * tokens.length + 1 ≤ depth) →
    Halts room (sub .clauses) (deeper .clauses) 0 tokens

/-! ### Rules without constructs in them -/

theorem parameterNames_halts (close : TokenKind) (seen : List String)
    (enough : tokens.length < depth) :
    Halts room (parameterNames close seen depth) (parameterNames close seen depth) 0 tokens := by
  induction depth generalizing seen tokens with
  | zero => omega
  | succ depth ih =>
    refine (at?_looks close).halts.bind fun done r1 p1 => ?_
    refine .ite (fun _ => pure_halts _) fun _ => ?_
    refine (expect_halts _).bind fun name r2 p2 => ?_
    refine .ite (fun _ => reject_bind_halts) fun _ => ?_
    refine (keep_halts _).bind fun _ r3 p3 => (keep_halts _).bind fun _ r4 p4 => ?_
    refine (eat_halts _).bind fun comma r5 p5 => ?_
    cases comma with
    | none => exact pure_halts _
    | some _ => exact (ih _ (by omega)).bind fun more r6 p6 => pure_halts _

theorem parameterList_halts (close : TokenKind) :
    Halts room (parameterList close) (parameterList close) 0 tokens := by
  refine (keep_halts _).bind fun _ r1 p1 => get_bind_halts fun state hs => ?_
  rw [hs]
  refine (parameterNames_halts close [] (by omega)).bind fun names r2 p2 => ?_
  exact (keep_halts _).bind fun _ r3 p3 => pure_halts _

theorem blockParameters_halts : Halts room blockParameters blockParameters 0 tokens := by
  refine (eat_halts _).bind fun bars r1 p1 => ?_
  cases bars with
  | some bars => exact pure_halts _
  | none =>
    refine (eat_halts _).bind fun bar r2 p2 => ?_
    cases bar with
    | none => exact pure_halts _
    | some first =>
      refine (parameterList_halts _).within.bind fun names r3 p3 => ?_
      exact (expect_halts _).bind fun last r4 p4 => pure_halts _

theorem parenthesizedParameters_halts :
    Halts room parenthesizedParameters parenthesizedParameters 0 tokens := by
  refine (eat_halts _).bind fun paren r1 p1 => ?_
  cases paren with
  | none => exact pure_halts _
  | some first =>
    refine (nest_halts _).bind fun _ r2 p2 => ?_
    refine (parameterList_halts _).within.bind fun names r3 p3 => ?_
    refine (expect_halts _).bind fun last r4 p4 => ?_
    exact (nest_halts _).bind fun _ r5 p5 => pure_halts _

theorem closeNumbering_halts : Halts room closeNumbering closeNumbering 0 tokens :=
  books_looks.halts.bind fun _ _ _ => (keep_halts _).bind fun _ _ _ => pure_halts _

theorem openBody_halts : Halts room openBody openBody 0 tokens :=
  (nest_halts _).bind fun _ _ _ => (keep_halts _).bind fun _ _ _ => keep_halts _

theorem closeBody_halts : Halts room closeBody closeBody 0 tokens :=
  (keep_halts _).bind fun _ _ _ => (keep_halts _).bind fun _ _ _ => nest_halts _

theorem bindVariable_halts (name : String) (span : Span) :
    Halts room (bindVariable name span) (bindVariable name span) 0 tokens := by
  have declared (r : List Token) : Halts room
      (do
        keep (·.declare name)
        pure (Node.located .matchVar [.sym name] (some span) [("name", some span)]))
      _ 0 r := (keep_halts _).bind fun _ _ _ => pure_halts _
  refine .ite (fun _ => books_looks.halts.bind fun book r1 p1 => ?_) fun _ => declared _
  split
  · exact (keep_halts _).bind fun _ r2 p2 => declared r2
  · exact reject_bind_halts

theorem integerChild_halts (text : List Char) :
    Halts room (integerChild text) (integerChild text) 0 tokens := by
  unfold integerChild
  split
  · exact pure_halts _
  · exact throw_halts (by simp)

theorem integerNode_halts (token : Token) :
    Halts room (integerNode token) (integerNode token) 0 tokens :=
  (integerChild_halts _).bind fun _ _ _ => pure_halts _

theorem negativeNode_halts (sign token : Token) :
    Halts room (negativeNode sign token) (negativeNode sign token) 0 tokens :=
  (integerChild_halts _).bind fun _ _ _ => pure_halts _

section Rules

variable {sub deeper : Derivation} (hsub : HaltsTo depth sub deeper)
include hsub

theorem whileLoop_halts :
    Halts (8 * tokens.length ≤ depth) (whileLoop sub) (whileLoop deeper) 1 tokens := by
  refine next_halts.bind fun keyword r1 p1 => ?_
  refine (nest_halts _).bind fun _ r2 p2 => ?_
  refine (hsub.expression fun room => by omega).bind fun condition r3 p3 => ?_
  refine (nest_halts _).bind fun _ r4 p4 => ?_
  refine (eat_halts _).bind fun opener r5 p5 => ?_
  refine atTerminator?_looks.halts.bind fun terminated r6 p6 => ?_
  refine .ite (fun _ => unexpected_bind_halts) fun _ => ?_
  refine (hsub.statements fun room => by omega).bind fun body r7 p7 => ?_
  exact (expect_halts _).bind fun last r8 p8 => pure_halts _

theorem definedCheck_halts :
    Halts (8 * tokens.length ≤ depth) (definedCheck sub) (definedCheck deeper) 1 tokens := by
  refine next_halts.bind fun keyword r1 p1 => ?_
  refine (eat_halts _).bind fun paren r2 p2 => ?_
  cases paren with
  | none =>
    exact (hsub.expression fun room => by omega).within.bind fun operand r3 p3 => pure_halts _
  | some first =>
    refine (nest_halts _).bind fun _ r3 p3 => ?_
    refine (skipWhile_halts _).bind fun _ r4 p4 => ?_
    refine (hsub.expression fun room => by omega).within.bind fun operand r5 p5 => ?_
    refine (skipWhile_halts _).bind fun _ r6 p6 => ?_
    refine (expect_halts _).bind fun last r7 p7 => ?_
    exact (nest_halts _).bind fun _ r8 p8 => pure_halts _

theorem parenthesized_halts :
    Halts (8 * tokens.length ≤ depth) (parenthesized sub) (parenthesized deeper) 1 tokens := by
  refine next_halts.bind fun first r1 p1 => ?_
  refine (nest_halts _).bind fun _ r2 p2 => ?_
  refine (hsub.statements fun room => by omega).bind fun body r3 p3 => ?_
  refine (expect_halts _).bind fun last r4 p4 => ?_
  exact (nest_halts _).bind fun _ r5 p5 => pure_halts _

theorem blockAfter_halts (call : Node) :
    Halts (8 * tokens.length ≤ depth) (blockAfter sub call) (blockAfter deeper call) 0 tokens := by
  refine books_looks.halts.bind fun book r1 p1 => ?_
  refine peekKind_looks.halts.bind fun kind r2 p2 => ?_
  dsimp only
  split
  · exact pure_halts _
  · refine next_halts.bind fun first r3 p3 => ?_
    refine (nest_halts _).bind fun _ r4 p4 => (keep_halts _).bind fun _ r5 p5 => ?_
    refine blockParameters_halts.bind fun parameters r6 p6 => ?_
    refine (keep_halts _).bind fun _ r7 p7 => ?_
    refine (hsub.statements fun room => by omega).within.bind fun body r8 p8 => ?_
    refine (expect_halts _).bind fun last r9 p9 => ?_
    refine closeNumbering_halts.bind fun numbering r10 p10 => ?_
    exact (keep_halts _).bind fun _ r11 p11 => (nest_halts _).bind fun _ r12 p12 => pure_halts _

theorem lambda_halts :
    Halts (8 * tokens.length ≤ depth) (lambda sub) (lambda deeper) 1 tokens := by
  refine next_halts.bind fun arrow r1 p1 => ?_
  refine (nest_halts _).bind fun _ r2 p2 => (keep_halts _).bind fun _ r3 p3 => ?_
  refine parenthesizedParameters_halts.bind fun parameters r4 p4 => ?_
  refine (keep_halts _).bind fun _ r5 p5 => ?_
  refine peekKind_looks.halts.bind fun kind r6 p6 => ?_
  dsimp only
  split
  case h_3 => exact unexpected_bind_halts
  all_goals
    refine (pure_halts _).bind fun close r7 p7 => ?_
    refine next_halts.bind fun first r8 p8 => ?_
    refine (nest_halts _).bind fun _ r9 p9 => (nest_halts _).bind fun _ r10 p10 => ?_
    refine (hsub.statements fun room => by omega).within.bind fun body r11 p11 => ?_
    refine (expect_halts _).bind fun last r12 p12 => ?_
    refine (nest_halts _).bind fun _ r13 p13 => ?_
    refine closeNumbering_halts.bind fun numbering r14 p14 => ?_
    exact (keep_halts _).bind fun _ r15 p15 => pure_halts _

theorem methodDefinition_halts :
    Halts (8 * tokens.length ≤ depth) (methodDefinition sub) (methodDefinition deeper) 1
      tokens := by
  refine next_halts.bind fun keyword r1 p1 => ?_
  refine (expect_halts _).bind fun name r2 p2 => ?_
  refine openBody_halts.bind fun _ r3 p3 => ?_
  refine parenthesizedParameters_halts.bind fun parameters r4 p4 => ?_
  refine (hsub.statements fun room => by omega).within.bind fun body r5 p5 => ?_
  refine (expect_halts _).bind fun last r6 p6 => ?_
  exact closeBody_halts.bind fun _ r7 p7 => pure_halts _

theorem classDefinition_halts :
    Halts (8 * tokens.length ≤ depth) (classDefinition sub) (classDefinition deeper) 1
      tokens := by
  refine next_halts.bind fun keyword r1 p1 => ?_
  refine books_looks.halts.bind fun book r2 p2 => ?_
  refine .ite (fun _ => reject_bind_halts) fun _ => ?_
  refine (expect_halts _).bind fun name r3 p3 => ?_
  refine openBody_halts.bind fun _ r4 p4 => ?_
  refine (hsub.statements fun room => by omega).within.bind fun body r5 p5 => ?_
  refine (expect_halts _).bind fun last r6 p6 => ?_
  exact closeBody_halts.bind fun _ r7 p7 => pure_halts _

theorem argument_halts (first : Bool) :
    Halts (8 * tokens.length + 3 ≤ depth) (argument sub first) (argument deeper first) 1
      tokens := by
  refine peekKind_looks.halts.bind fun kind r1 p1 => ?_
  dsimp only
  split
  · exact hsub.expression fun room => by omega
  · refine next_halts.bind fun operator r2 p2 => ?_
    refine (hsub.operators fun room => by omega).bind fun operand r3 p3 => ?_
    refine .ite (fun _ => ?_) fun _ => pure_halts _
    exact (emit_halts _).bind fun _ r4 p4 => pure_halts _

theorem arguments_halts (command : Bool) :
    Halts (8 * tokens.length + 3 ≤ depth) (arguments sub command) (arguments deeper command) 1
      tokens := by
  refine (argument_halts hsub command).bind fun first r1 p1 => ?_
  refine (eat_halts _).bind fun comma r2 p2 => ?_
  cases comma with
  | none => exact pure_halts _
  | some _ =>
    refine (skipWhile_halts _).bind fun _ r3 p3 => ?_
    exact (hsub.arguments fun room => by omega).bind fun more r4 p4 => pure_halts _

theorem actuals_halts :
    Halts (8 * tokens.length + 4 ≤ depth) (actuals sub) (actuals deeper) 0 tokens := by
  refine (adjacent?_looks _).halts.bind fun paren r1 p1 => ?_
  refine .ite (fun _ => ?_) fun _ => ?_
  · refine next_halts.bind fun first r2 p2 => ?_
    refine (nest_halts _).bind fun _ r3 p3 => (skipWhile_halts _).bind fun _ r4 p4 => ?_
    refine (at?_looks _).halts.bind fun empty r5 p5 => ?_
    refine .ite (fun _ => ?_) fun _ => ?_
    · refine (pure_halts _).bind fun nodes r6 p6 => ?_
      refine (expect_halts _).bind fun last r7 p7 => ?_
      exact (nest_halts _).bind fun _ r8 p8 => pure_halts _
    · refine (hsub.arguments fun room => by omega).bind fun nodes r6 p6 => ?_
      refine (skipWhile_halts _).bind fun _ r7 p7 => ?_
      refine (pure_halts _).bind fun nodes r8 p8 => ?_
      refine (expect_halts _).bind fun last r9 p9 => ?_
      exact (nest_halts _).bind fun _ r10 p10 => pure_halts _
  · refine startsCommand?_looks.halts.bind fun command r2 p2 => ?_
    refine .ite (fun _ => ?_) fun _ => pure_halts _
    refine (nest_halts _).bind fun _ r3 p3 => ?_
    refine (hsub.arguments fun room => by omega).bind fun nodes r4 p4 => ?_
    exact (nest_halts _).bind fun _ r5 p5 => pure_halts _

theorem call_halts (receiver : Option Node) (dot : Option Token) (selector : Token) :
    Halts (8 * tokens.length + 4 ≤ depth) (call sub receiver dot selector)
      (call deeper receiver dot selector) 0 tokens := by
  refine books_looks.halts.bind fun book r1 p1 => ?_
  refine ((actuals_halts hsub).when fun room => by omega).bind fun actuals r2 p2 => ?_
  exact (blockAfter_halts hsub _).when fun room => by omega

theorem callsAfter_halts (receiver : Node) :
    Halts (8 * tokens.length ≤ depth) (callsAfter sub receiver) (callsAfter deeper receiver) 0
      tokens := by
  refine (eat_halts _).bind fun dot r1 p1 => ?_
  cases dot with
  | none => exact pure_halts _
  | some dot =>
    refine (expect_halts _).bind fun selector r2 p2 => ?_
    refine ((call_halts hsub _ _ _).when fun room => by omega).bind fun node r3 p3 => ?_
    exact hsub.callsAfter fun room => by omega

theorem identifier_halts :
    Halts (8 * tokens.length ≤ depth) (identifier sub) (identifier deeper) 1 tokens := by
  refine next_halts.bind fun token r1 p1 => ?_
  have called (r : List Token) (past : Past 0 r1 r) : Halts (8 * tokens.length ≤ depth)
      (call sub none none token) (call deeper none none token) 0 r :=
    (call_halts hsub _ _ _).when fun room => by omega
  refine (adjacent?_looks _).halts.bind fun paren r2 p2 => ?_
  refine .ite (fun _ => called r2 p2) fun _ => ?_
  refine books_looks.halts.bind fun book r3 p3 => ?_
  refine features_looks.halts.bind fun features r4 p4 => ?_
  split
  · refine .ite (fun _ => reject_bind_halts) fun _ => ?_
    exact (keep_halts _).bind fun _ r5 p5 => pure_halts _
  · exact .ite (fun _ => pure_halts _) fun _ => called r4 (p2.trans (p3.trans p4))

theorem entry_halts (label : Token) :
    Halts (8 * tokens.length + 2 ≤ depth) (entry sub label) (entry deeper label) 0 tokens := by
  refine books_looks.halts.bind fun book r1 p1 => ?_
  dsimp only
  split
  · refine (keep_halts _).bind fun _ r2 p2 => ?_
    refine peekKind_looks.halts.bind fun kind r3 p3 => ?_
    split
    case h_4 => exact (hsub.pattern fun room => by omega).bind fun value r4 p4 => pure_halts _
    all_goals exact bindVariable_halts _ _
  · exact reject_bind_halts

theorem entries_halts :
    Halts (8 * tokens.length ≤ depth) (entries sub) (entries deeper) 0 tokens := by
  refine eat_bind_halts fun label r1 p1 => ?_
  cases label with
  | none => exact pure_halts _
  | some label =>
    -- The label is what makes room for the pattern after it.
    have shorter : r1.length + 1 ≤ tokens.length := p1.1
    refine ((entry_halts hsub label).when fun room => by omega).bind fun first r2 p2 => ?_
    refine (eat_halts _).bind fun comma r3 p3 => ?_
    cases comma with
    | none => exact pure_halts _
    | some _ =>
      refine (skipWhile_halts _).bind fun _ r4 p4 => ?_
      exact (hsub.entries fun room => by omega).bind fun more r5 p5 => pure_halts _

theorem hashPattern_halts :
    Halts (8 * tokens.length ≤ depth) (hashPattern sub) (hashPattern deeper) 1 tokens := by
  refine next_halts.bind fun first r1 p1 => ?_
  refine (keep_halts _).bind fun _ r2 p2 => (skipWhile_halts _).bind fun _ r3 p3 => ?_
  refine (hsub.entries fun room => by omega).bind fun entries r4 p4 => ?_
  refine (skipWhile_halts _).bind fun _ r5 p5 => ?_
  refine (expect_halts _).bind fun last r6 p6 => ?_
  exact (keep_halts _).bind fun _ r7 p7 => pure_halts _

theorem pattern_halts :
    Halts (8 * tokens.length + 1 ≤ depth) (pattern sub) (pattern deeper) 1 tokens := by
  refine peekKind_looks.halts.bind fun kind r1 p1 => ?_
  split
  case h_1 => exact next_halts.bind fun token r2 p2 => bindVariable_halts _ _
  case h_2 => exact (hashPattern_halts hsub).when fun room => by omega
  case h_11 => exact unexpected_halts
  all_goals exact hsub.unary fun room => by omega

theorem clause_halts :
    Halts (8 * tokens.length ≤ depth) (clause sub) (clause deeper) 1 tokens := by
  refine next_halts.bind fun keyword r1 p1 => ?_
  refine (keep_halts _).bind fun _ r2 p2 => ?_
  refine (hsub.pattern fun room => by omega).within.bind fun pattern r3 p3 => ?_
  refine (keep_halts _).bind fun _ r4 p4 => ?_
  refine (eat_halts _).bind fun opener r5 p5 => ?_
  refine atTerminator?_looks.halts.bind fun terminated r6 p6 => ?_
  refine .ite (fun _ => unexpected_bind_halts) fun _ => ?_
  exact (hsub.statements fun room => by omega).bind fun body r7 p7 => pure_halts _

theorem clauses_halts :
    Halts (8 * tokens.length ≤ depth) (clauses sub) (clauses deeper) 0 tokens := by
  refine (at?_looks _).halts.bind fun more r1 p1 => ?_
  refine .ite (fun _ => ?_) fun _ => pure_halts _
  refine ((clause_halts hsub).when fun room => by omega).bind fun first r2 p2 => ?_
  exact (hsub.clauses fun room => by omega).bind fun more r3 p3 => pure_halts _

theorem caseMatch_halts :
    Halts (8 * tokens.length ≤ depth) (caseMatch sub) (caseMatch deeper) 1 tokens := by
  refine next_halts.bind fun keyword r1 p1 => ?_
  refine (hsub.expression fun room => by omega).bind fun subject r2 p2 => ?_
  refine (skipWhile_halts _).bind fun _ r3 p3 => ?_
  refine features_looks.halts.bind fun features r4 p4 => ?_
  refine (at?_looks _).halts.bind fun more r5 p5 => ?_
  refine .ite (fun _ => unexpected_bind_halts) fun _ => ?_
  refine (hsub.clauses fun room => by omega).bind fun clauses r6 p6 => ?_
  refine (eat_halts _).bind fun alternative r7 p7 => ?_
  dsimp only
  split
  · refine (hsub.statements fun room => by omega).bind fun otherwise r8 p8 => ?_
    exact (expect_halts _).bind fun last r9 p9 => pure_halts _
  · refine (pure_halts _).bind fun otherwise r8 p8 => ?_
    exact (expect_halts _).bind fun last r9 p9 => pure_halts _

theorem primary_halts :
    Halts (8 * tokens.length ≤ depth) (primary sub) (primary deeper) 1 tokens := by
  apply peek_bind_halts
  cases tokens with
  | nil => exact unexpected_halts
  | cons token rest =>
    have literal (node : Node) : Halts (8 * (token :: rest).length ≤ depth)
        (do advance; pure node) (do advance; pure node) 1 (token :: rest) :=
      advance_bind_halts (pure_halts _)
    simp only [List.head?_cons]
    split
    case h_1 => exact advance_bind_halts (integerNode_halts token)
    case h_9 => exact identifier_halts hsub
    case h_10 => exact parenthesized_halts hsub
    case h_11 =>
      refine features_looks.halts.bind fun features r1 p1 => ?_
      refine .ite (fun _ => ?_) fun _ => unexpected_halts
      exact (lambda_halts hsub).when fun room => by omega
    case h_12 => exact methodDefinition_halts hsub
    case h_13 => exact classDefinition_halts hsub
    case h_14 => exact whileLoop_halts hsub
    case h_15 => exact definedCheck_halts hsub
    case h_16 => exact caseMatch_halts hsub
    case h_17 => exact unexpected_halts
    all_goals exact literal _

theorem chain_halts :
    Halts (8 * tokens.length ≤ depth) (chain sub) (chain deeper) 1 tokens := by
  refine (primary_halts hsub).bind fun receiver r1 p1 => ?_
  exact hsub.callsAfter fun room => by omega

theorem unary_halts :
    Halts (8 * tokens.length ≤ depth) (unary sub) (unary deeper) 1 tokens := by
  apply peek_bind_halts
  cases tokens with
  | nil => exact unexpected_halts
  | cons sign rest =>
    have p1 : Past 1 (sign :: rest) rest := .of_cons _ _
    have signed (selector : String) : Halts (8 * (sign :: rest).length ≤ depth)
        (do return signNode selector sign (← sub .unary))
        (do return signNode selector sign (← deeper .unary)) 0 rest :=
      (hsub.unary fun room => by omega).bind fun operand r2 p2 => pure_halts _
    simp only [List.head?_cons]
    split
    · refine advance_bind_halts (peek_bind_halts ?_)
      cases rest with
      | nil => exact signed _
      | cons literal more =>
        refine .ite (fun _ => ?_) fun _ => signed _
        exact advance_bind_halts (negativeNode_halts sign literal)
    · exact advance_bind_halts (signed _)
    · exact chain_halts hsub

theorem assignment_halts :
    Halts (8 * tokens.length ≤ depth) (assignment sub) (assignment deeper) 1 tokens := by
  refine next_halts.bind fun name r1 p1 => next_halts.bind fun operator r2 p2 => ?_
  refine (skipWhile_halts _).bind fun _ r3 p3 => (keep_halts _).bind fun _ r4 p4 => ?_
  exact (hsub.expression fun room => by omega).bind fun value r5 p5 => pure_halts _

theorem expression_halts :
    Halts (8 * tokens.length + 2 ≤ depth) (expression sub) (expression deeper) 1 tokens := by
  refine (at?_looks _).halts.bind fun named r1 p1 => ?_
  refine peekSecond_looks.halts.bind fun second r2 p2 => ?_
  refine .ite (fun _ => ?_) fun _ => hsub.operators fun room => by omega
  exact (assignment_halts hsub).when fun room => by omega

theorem statements_halts (stops : List TokenKind) :
    Halts (8 * tokens.length + 3 ≤ depth) (statements sub stops) (statements deeper stops) 0
      tokens := by
  refine (skipWhile_halts _).bind fun _ r1 p1 => ?_
  refine peekKind_looks.halts.bind fun kind r2 p2 => ?_
  cases kind with
  | none => exact pure_halts _
  | some kind =>
    refine .ite (fun _ => pure_halts _) fun _ => ?_
    refine (hsub.expression fun room => by omega).bind fun first r3 p3 => ?_
    refine peekKind_looks.halts.bind fun kind r4 p4 => ?_
    split
    case h_4 => exact .ite (fun _ => pure_halts _) fun _ => unexpected_halts
    all_goals
      exact (hsub.statements fun room => by omega).bind fun more r5 p5 => pure_halts _

theorem operatorsAfter_halts (power : Nat) (left : Node) :
    Halts (8 * tokens.length ≤ depth) (operatorsAfter sub power left)
      (operatorsAfter deeper power left) 0 tokens := by
  apply peek_bind_halts
  cases tokens with
  | nil => exact pure_halts _
  | cons operator rest =>
    have p1 : Past 1 (operator :: rest) rest := .of_cons _ _
    simp only [List.head?_cons]
    split
    · exact pure_halts _
    · refine .ite (fun _ => pure_halts _) fun _ => ?_
      refine advance_bind_halts ((skipWhile_halts _).bind fun _ r2 p2 => ?_)
      refine (hsub.operators fun room => by omega).bind fun right r3 p3 => ?_
      exact hsub.operatorsAfter fun room => by omega

theorem operators_halts (power : Nat) :
    Halts (8 * tokens.length + 1 ≤ depth) (operators sub power) (operators deeper power) 1
      tokens := by
  refine (hsub.unary fun room => room).bind fun left r1 p1 => ?_
  exact hsub.operatorsAfter fun room => by omega

end Rules

/-- With no room at all, nothing is said of how a step ends. -/
theorem outOfDepth_halts {α : Type} {step : Parse α} (none : ¬ room) :
    Halts room (throw .depthExceeded) step k tokens where
  ends _ _ _ := fun room => absurd room none
  same room := absurd room none

/-- What a derivation does in a depth, and deeper. -/
theorem derive_halts {depth deeper : Nat} (le : depth ≤ deeper) :
    HaltsTo depth (derive depth) (derive deeper) := by
  induction depth generalizing deeper with
  | zero =>
    constructor <;>
      exact fun enough => outOfDepth_halts fun room => absurd (enough room) (by omega)
  | succ depth ih =>
    obtain ⟨deeper, rfl⟩ : ∃ less, deeper = less + 1 := ⟨deeper - 1, by omega⟩
    have hsub := ih (Nat.le_of_succ_le_succ le)
    have below {n k : Nat} {room : Prop} (enough : room → n + (k + 1) ≤ depth + 1) (now : room) :
        n + k ≤ depth := Nat.le_of_succ_le_succ (enough now)
    exact {
      statements := fun enough => (statements_halts hsub _).when (below enough)
      expression := fun enough => (expression_halts hsub).when (below enough)
      operators := fun enough => (operators_halts hsub _).when (below enough)
      operatorsAfter := fun enough => (operatorsAfter_halts hsub _ _).when (below enough)
      unary := fun enough => (unary_halts hsub).when (below enough)
      callsAfter := fun enough => (callsAfter_halts hsub _).when (below enough)
      arguments := fun enough => (arguments_halts hsub _).when (below enough)
      pattern := fun enough => (pattern_halts hsub).when (below enough)
      entries := fun enough => (entries_halts hsub).when (below enough)
      clauses := fun enough => (clauses_halts hsub).when (below enough) }

/-- The depth that is allowed for some tokens is enough for them. -/
theorem program_halts {n deeper : Nat} (enough : tokens.length ≤ n) (le : n ≤ deeper) :
    Halts True (program n) (program deeper) 0 tokens := by
  have depths : depthFor n ≤ depthFor deeper := Nat.mul_le_mul_left 8 (Nat.succ_le_succ le)
  refine (keep_halts _).bind fun _ r1 p1 => ?_
  refine ((derive_halts depths).statements fun _ => ?_).bind fun body r2 p2 => ?_
  · unfold depthFor
    omega
  · exact (keep_halts _).bind fun _ r3 p3 => pure_halts _

end Grammar

end Conformance.Dialect
