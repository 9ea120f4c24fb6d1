import Conformance.Proofs.Reading

/-! Every derivation reads tokens and builds sound trees. A rule may enter at most seven constructs
before it reads a token, so that a depth of eight for each token is enough. One lemma for each rule
takes this from the constructs in it, and `derive_sound` ties them together. -/

namespace Conformance.Dialect.Grammar

open Parse

/-- A sound node after at least `k` tokens. -/
structure NodeAfter (n k : Nat) (tokens : List Token) (node : Node) (rest : List Token) :
    Prop where
  past : Past k tokens rest
  sound : node.Sound n

/-- Sound nodes after at least `k` tokens. -/
structure NodesAfter (n k : Nat) (tokens : List Token) (nodes : List Node) (rest : List Token) :
    Prop where
  past : Past k tokens rest
  sound : ∀ node ∈ nodes, node.Sound n

/-- What the constructs read and give in a depth. -/
structure SoundTo (n depth : Nat) (sub : Derivation) : Prop where
  statements : ∀ {stops tokens}, 8 * tokens.length + 4 ≤ depth →
    Reads n (sub (.statements stops)) tokens (NodesAfter n 0 tokens)
  expression : ∀ {tokens}, 8 * tokens.length + 3 ≤ depth →
    Reads n (sub .expression) tokens (NodeAfter n 1 tokens)
  operators : ∀ {power tokens}, 8 * tokens.length + 2 ≤ depth →
    Reads n (sub (.operators power)) tokens (NodeAfter n 1 tokens)
  operatorsAfter : ∀ {power left tokens}, left.Sound n → 8 * tokens.length + 1 ≤ depth →
    Reads n (sub (.operatorsAfter power left)) tokens (NodeAfter n 0 tokens)
  unary : ∀ {tokens}, 8 * tokens.length + 1 ≤ depth →
    Reads n (sub .unary) tokens (NodeAfter n 1 tokens)
  callsAfter : ∀ {receiver tokens}, receiver.Sound n → 8 * tokens.length + 1 ≤ depth →
    Reads n (sub (.callsAfter receiver)) tokens (NodeAfter n 0 tokens)
  arguments : ∀ {command tokens}, 8 * tokens.length + 4 ≤ depth →
    Reads n (sub (.arguments command)) tokens (NodesAfter n 1 tokens)
  pattern : ∀ {tokens}, 8 * tokens.length + 2 ≤ depth →
    Reads n (sub .pattern) tokens (NodeAfter n 1 tokens)
  entries : ∀ {tokens}, 8 * tokens.length + 1 ≤ depth →
    Reads n (sub .entries) tokens (NodesAfter n 0 tokens)
  clauses : ∀ {tokens}, 8 * tokens.length + 1 ≤ depth →
    Reads n (sub .clauses) tokens (NodesAfter n 0 tokens)

variable {n depth : Nat} {tokens : List Token}

/-! ### Rules without constructs in them -/

theorem integerChild_reads {text : List Char} {value : Int} (h : integerValue? text = some value) :
    Reads n (integerChild text) tokens fun child rest => rest = tokens ∧ child.Sound n := by
  unfold integerChild
  cases hc : Child.integer? text with
  | none => simp [Child.integer?, h] at hc
  | some child => exact pure_reads ⟨rfl, Child.integer?_sound hc⟩

theorem integerNode_reads {token : Token} (lawful : token.Lawful n)
    (kind : token.kind = .integer) :
    Reads n (integerNode token) tokens (NodeAfter n 0 tokens) := by
  have value := integerValue?_digits (lawful.spells_as kind)
  refine (integerChild_reads value).bind fun child rest ⟨hr, hc⟩ => ?_
  subst hr
  refine pure_reads ⟨.refl _, Node.located_sound ?_ ?_⟩
  · simpa using lawful.stop_le
  · simpa using hc

theorem negativeNode_reads {sign token : Token} (hs : sign.Lawful n) (lawful : token.Lawful n)
    (kind : token.kind = .integer) :
    Reads n (negativeNode sign token) tokens (NodeAfter n 0 tokens) := by
  have value := integerValue?_minus (lawful.spells_as kind)
  refine (integerChild_reads value).bind fun child rest ⟨hr, hc⟩ => ?_
  subst hr
  refine pure_reads ⟨.refl _, Node.located_sound ?_ ?_⟩
  · simpa using Span.join_stop_le hs.stop_le lawful.stop_le
  · simpa using hc

theorem modest_declare {book : Bookkeeping} (h : book.Modest) (name : String) :
    (book.declare name).Modest := by
  unfold Bookkeeping.declare
  split
  · exact h
  · exact h

theorem modest_openNumbering {book : Bookkeeping} {numbering : Numbering} (h : book.Modest)
    (hn : ∀ highest ordinary, numbering = .body highest ordinary → highest ≤ 9) :
    (book.openNumbering numbering).Modest := by
  intro highest ordinary hm
  obtain here | outer := List.mem_cons.1 hm
  · exact hn highest ordinary here.symm
  · exact h highest ordinary outer

theorem modest_openBlock {book : Bookkeeping} (h : book.Modest) (ordinary : Bool) :
    (book.openNumbering (.body 0 ordinary)).Modest := by
  refine modest_openNumbering h fun highest _ hn => ?_
  cases hn
  omega

theorem modest_closeNumbering {book : Bookkeeping} (h : book.Modest) :
    book.closeNumbering.Modest :=
  fun highest ordinary hm => h highest ordinary (List.mem_of_mem_tail hm)

theorem modest_useNumber {book : Bookkeeping} {number : Nat} (h : book.Modest)
    (hn : number ≤ 9) : (book.useNumber number).Modest := by
  unfold Bookkeeping.useNumber
  split
  · rename_i highest ordinary outer hb
    intro highest' ordinary' hm
    obtain here | below := List.mem_cons.1 hm
    · cases here
      have before := h highest ordinary (by rw [hb]; exact .head _)
      omega
    · exact h highest' ordinary' (by rw [hb]; exact .tail _ below)
  · exact h

/-- The key of a label. -/
theorem isName_of_label {token : Token} (lawful : token.Lawful n)
    (kind : token.kind = .label) : IsName (keyOf token).toList := by
  rw [keyOf, String.toList_ofList]
  exact lawful.spells_as kind

theorem keySpan_stop_le {label : Token} (lawful : label.Lawful n) : (keySpan label).stop ≤ n := by
  have le := lawful.stop_le
  have ordered := label.span.ordered
  show label.span.start + (label.span.stop - label.span.start - 1) ≤ n
  omega

theorem parameterNames_reads (close : TokenKind) (seen : List String)
    (room : tokens.length < depth) :
    Reads n (parameterNames close seen depth) tokens (NodesAfter n 0 tokens) := by
  induction depth generalizing seen tokens with
  | zero => omega
  | succ depth ih =>
    refine (at?_looks close).bind_reads fun done => ?_
    refine ite_reads (fun _ => pure_reads ⟨.refl _, by simp⟩) fun _ => ?_
    refine (expect_reads _).bind fun name r1 h1 => ?_
    have p1 := h1.past
    have first := parameterNode_sound h1.lawful (h1.lawful.spells_as h1.kind_eq)
    refine ite_reads (fun _ => reject_bind_reads rfl rfl h1.lawful.stop_le) fun _ => ?_
    refine keep_bind_reads (fun _ modest => modest) ?_
    refine keep_bind_reads (fun _ modest => modest_declare modest _) ?_
    refine (eat_reads _).bind fun comma r2 h2 => ?_
    have p2 := p1.trans h2.past
    cases comma with
    | none => exact pure_reads ⟨p2.weaken (by omega), by simpa using first⟩
    | some _ =>
      refine Reads.bind (ih _ (by omega)) fun more r3 h3 => ?_
      refine pure_reads ⟨(p2.trans h3.past).weaken (by omega), ?_⟩
      exact List.forall_mem_cons.2 ⟨first, h3.sound⟩

theorem parameterList_reads (close : TokenKind) :
    Reads n (parameterList close) tokens (NodesAfter n 0 tokens) := by
  refine keep_bind_reads (fun _ modest => modest) ?_
  refine get_bind_reads fun state hs => ?_
  rw [hs]
  refine (parameterNames_reads close [] (by omega)).bind fun names r1 h1 => ?_
  refine keep_bind_reads (fun _ modest => modest) ?_
  exact pure_reads h1

/-- A list of parameters, written or not, and whether it has any. -/
structure ParametersAfter (n : Nat) (tokens : List Token) (parameters : Node × Bool)
    (rest : List Token) : Prop where
  past : Past 0 tokens rest
  sound : parameters.1.Sound n

theorem blockParameters_reads :
    Reads n blockParameters tokens (ParametersAfter n tokens) := by
  refine (eat_reads _).bind fun bars r1 h1 => ?_
  have p1 := h1.past
  cases bars with
  | some bars =>
    have taken : TakenAs n _ tokens bars r1 := h1
    refine pure_reads ⟨p1, Node.located_sound ?_ (by simp)⟩
    simpa using taken.lawful.stop_le
  | none =>
    refine (eat_reads _).bind fun bar r2 h2 => ?_
    have p2 := p1.trans h2.past
    cases bar with
    | none => exact pure_reads ⟨p2, noParametersNode_sound⟩
    | some first =>
      have taken : TakenAs n _ r1 first r2 := h2
      refine Reads.bind (within_reads (parameterList_reads _)) fun names r3 h3 => ?_
      have p3 := p2.trans h3.past
      refine (expect_reads _).bind fun last r4 h4 => ?_
      refine pure_reads ⟨(p3.trans h4.past).weaken (by omega), ?_⟩
      exact parametersNode_sound h3.sound taken.lawful.stop_le h4.lawful.stop_le

theorem parenthesizedParameters_reads :
    Reads n parenthesizedParameters tokens (ParametersAfter n tokens) := by
  refine (eat_reads _).bind fun paren r1 h1 => ?_
  have p1 := h1.past
  cases paren with
  | none => exact pure_reads ⟨p1, noParametersNode_sound⟩
  | some first =>
    have taken : TakenAs n _ tokens first r1 := h1
    apply nest_bind_reads
    refine Reads.bind (within_reads (parameterList_reads _)) fun names r2 h2 => ?_
    have p2 := p1.trans h2.past
    refine (expect_reads _).bind fun last r3 h3 => ?_
    apply nest_bind_reads
    refine pure_reads ⟨(p2.trans h3.past).weaken (by omega), ?_⟩
    exact parametersNode_sound h2.sound taken.lawful.stop_le h3.lawful.stop_le

/-- How the innermost use of numbered parameters was. -/
structure Settled (tokens : List Token) (numbering : Option Numbering) (rest : List Token) :
    Prop where
  eq : rest = tokens
  used : ∀ highest ordinary, numbering = some (.body highest ordinary) → highest ≤ 9

theorem closeNumbering_reads : Reads n closeNumbering tokens (Settled tokens) := by
  refine books_bind_reads fun book modest => ?_
  refine keep_bind_reads (fun _ modest => modest_closeNumbering modest) ?_
  refine pure_reads ⟨rfl, fun highest ordinary hh => ?_⟩
  exact modest highest ordinary (List.mem_of_mem_head? hh)

theorem bindVariable_reads {name : String} {span : Span} (hn : IsName name.toList)
    (hs : span.stop ≤ n) :
    Reads n (bindVariable name span) tokens (NodeAfter n 0 tokens) := by
  have declared : Reads n
      (do
        keep (·.declare name)
        pure (.located .matchVar [.sym name] (some span) [("name", some span)]))
      tokens (NodeAfter n 0 tokens) := by
    refine keep_bind_reads (fun _ modest => modest_declare modest _) ?_
    refine pure_reads ⟨.refl _, Node.located_sound ?_ ?_⟩
    · simpa using hs
    · simpa using hn
  refine ite_reads (fun _ => books_bind_reads fun book _ => ?_) fun _ => declared
  split
  · exact keep_bind_reads (fun _ modest => modest) declared
  · exact reject_bind_reads rfl rfl hs

theorem numberedUse?_le {features : Features} {book : Bookkeeping} {name : String} {number : Nat}
    {ordinary : Bool} (h : numberedUse? features book name = some (number, ordinary)) :
    number ≤ 9 := by
  unfold numberedUse? at h
  split at h
  · cases h
  · split at h
    · rename_i digit _ _ _ found _
      cases h
      unfold parameterNumber? at found
      split at found
      · split at found
        · rename_i d _ bounds
          simp only [Bool.and_eq_true, decide_eq_true_eq] at bounds
          have le : d.toNat ≤ 57 := bounds.2
          have code : '0'.toNat = 48 := rfl
          cases found
          omega
        · cases found
      · cases found
    · cases h

theorem openBody_reads : Reads n openBody tokens fun _ rest => rest = tokens := by
  intro setting state hf sound hs
  have modest : (state.book.openNumbering .closed).Modest :=
    modest_openNumbering sound.modest fun _ _ hn => by cases hn
  exact ⟨⟨sound.tokens, modest, sound.warned⟩, hs⟩

theorem closeBody_reads : Reads n closeBody tokens fun _ rest => rest = tokens := by
  intro setting state hf sound hs
  exact ⟨⟨sound.tokens, modest_closeNumbering sound.modest, sound.warned⟩, hs⟩

section Rules

variable {sub : Derivation} (hsub : SoundTo n depth sub)
include hsub

theorem whileLoop_reads (room : 8 * tokens.length ≤ depth) :
    Reads n (whileLoop sub) tokens (NodeAfter n 1 tokens) := by
  refine next_reads.bind fun keyword r1 h1 => ?_
  have p1 := h1.past
  apply nest_bind_reads
  refine (hsub.expression (by omega)).bind fun condition r2 h2 => ?_
  have p2 := p1.trans h2.past
  apply nest_bind_reads
  refine (eat_reads _).bind fun opener r3 h3 => ?_
  have p3 := p2.trans h3.past
  refine atTerminator?_looks.bind_reads fun terminated => ?_
  refine ite_reads (fun _ => unexpected_bind_reads) fun _ => ?_
  refine (hsub.statements (by omega)).bind fun body r4 h4 => ?_
  have p4 := p3.trans h4.past
  refine (expect_reads _).bind fun last r5 h5 => ?_
  refine pure_reads ⟨(p4.trans h5.past).weaken (by omega), Node.located_sound ?_ ?_⟩
  · simpa using Span.join_stop_le h1.lawful.stop_le h5.lawful.stop_le
  · simpa using ⟨h2.sound, sequence_sound h4.sound⟩

theorem definedCheck_reads (room : 8 * tokens.length ≤ depth) :
    Reads n (definedCheck sub) tokens (NodeAfter n 1 tokens) := by
  refine next_reads.bind fun keyword r1 h1 => ?_
  have p1 := h1.past
  refine (eat_reads _).bind fun paren r2 h2 => ?_
  have p2 := p1.trans h2.past
  cases paren with
  | none =>
    refine (within_reads (hsub.expression (by omega))).bind fun operand r3 h3 => ?_
    refine pure_reads ⟨(p2.trans h3.past).weaken (by omega), Node.located_sound ?_ ?_⟩
    · simpa using Span.join_stop_le h1.lawful.stop_le h3.sound.range_le
    · simpa using h3.sound
  | some first =>
    apply nest_bind_reads
    refine skipNewlines_reads.bind fun _ r3 h3 => ?_
    have p3 := p2.trans h3
    refine (within_reads (hsub.expression (by omega))).bind fun operand r4 h4 => ?_
    have p4 := p3.trans h4.past
    refine skipNewlines_reads.bind fun _ r5 h5 => ?_
    have p5 := p4.trans h5
    refine (expect_reads _).bind fun last r6 h6 => ?_
    apply nest_bind_reads
    refine pure_reads ⟨(p5.trans h6.past).weaken (by omega), Node.located_sound ?_ ?_⟩
    · simpa using Span.join_stop_le h1.lawful.stop_le h6.lawful.stop_le
    · simpa using h4.sound

theorem parenthesized_reads (room : 8 * tokens.length ≤ depth) :
    Reads n (parenthesized sub) tokens (NodeAfter n 1 tokens) := by
  refine next_reads.bind fun first r1 h1 => ?_
  have p1 := h1.past
  apply nest_bind_reads
  refine (hsub.statements (by omega)).bind fun body r2 h2 => ?_
  have p2 := p1.trans h2.past
  refine (expect_reads _).bind fun last r3 h3 => ?_
  apply nest_bind_reads
  refine pure_reads ⟨(p2.trans h3.past).weaken (by omega), Node.located_sound ?_ ?_⟩
  · simpa using Span.join_stop_le h1.lawful.stop_le h3.lawful.stop_le
  · simpa using h2.sound

theorem blockAfter_reads {call : Node} (hc : call.Sound n) (room : 8 * tokens.length ≤ depth) :
    Reads n (blockAfter sub call) tokens (NodeAfter n 0 tokens) := by
  refine books_looks.bind_reads fun book => ?_
  refine peekKind_looks.bind_reads fun kind => ?_
  dsimp only
  split
  · exact pure_reads ⟨.refl _, hc⟩
  · refine next_reads.bind fun first r1 h1 => ?_
    have p1 := h1.past
    apply nest_bind_reads
    refine keep_bind_reads (fun _ modest => modest) ?_
    refine blockParameters_reads.bind fun parameters r2 h2 => ?_
    have p2 := p1.trans h2.past
    refine keep_bind_reads (fun _ modest => modest_openBlock modest _) ?_
    refine (within_reads (hsub.statements (by omega))).bind fun body r3 h3 => ?_
    have p3 := p2.trans h3.past
    refine (expect_reads _).bind fun last r4 h4 => ?_
    have p4 := p3.trans h4.past
    refine closeNumbering_reads.bind fun numbering r5 h5 => ?_
    refine keep_bind_reads (fun _ modest => modest) ?_
    apply nest_bind_reads
    rw [h5.eq]
    refine pure_reads ⟨p4.weaken (by omega), ?_⟩
    apply closureNode_sound hc h2.sound h3.sound h5.used
    exact Span.join_stop_le hc.range_le h4.lawful.stop_le

theorem lambda_reads (room : 8 * tokens.length ≤ depth) :
    Reads n (lambda sub) tokens (NodeAfter n 1 tokens) := by
  refine next_reads.bind fun arrow r1 h1 => ?_
  have p1 := h1.past
  apply nest_bind_reads
  refine keep_bind_reads (fun _ modest => modest) ?_
  refine parenthesizedParameters_reads.bind fun parameters r2 h2 => ?_
  have p2 := p1.trans h2.past
  refine keep_bind_reads (fun _ modest => modest_openBlock modest _) ?_
  refine peekKind_looks.bind_reads fun kind => ?_
  dsimp only
  split
  case h_3 => exact unexpected_bind_reads
  all_goals
    refine (pure_reads (Q := fun _ rest => rest = r2) rfl).bind fun close r3 h3 => ?_
    subst h3
    refine next_reads.bind fun first r4 h4 => ?_
    have p4 := p2.trans h4.past
    apply nest_bind_reads
    apply nest_bind_reads
    refine (within_reads (hsub.statements (by omega))).bind fun body r5 h5 => ?_
    have p5 := p4.trans h5.past
    refine (expect_reads _).bind fun last r6 h6 => ?_
    have p6 := p5.trans h6.past
    apply nest_bind_reads
    refine closeNumbering_reads.bind fun numbering r7 h7 => ?_
    refine keep_bind_reads (fun _ modest => modest) ?_
    rw [h7.eq]
    refine pure_reads ⟨p6.weaken (by omega), ?_⟩
    apply closureNode_sound (leaf_sound _ h1.lawful.stop_le) h2.sound h5.sound h7.used
    exact Span.join_stop_le h1.lawful.stop_le h6.lawful.stop_le

theorem methodDefinition_reads (room : 8 * tokens.length ≤ depth) :
    Reads n (methodDefinition sub) tokens (NodeAfter n 1 tokens) := by
  refine next_reads.bind fun keyword r1 h1 => ?_
  have p1 := h1.past
  refine (expect_reads _).bind fun name r2 h2 => ?_
  have p2 := p1.trans h2.past
  refine Reads.bind (openBody_reads) fun _ r3 h3 => ?_
  subst h3
  refine parenthesizedParameters_reads.bind fun parameters r4 h4 => ?_
  have p4 := p2.trans h4.past
  refine (within_reads (hsub.statements (by omega))).bind fun body r5 h5 => ?_
  have p5 := p4.trans h5.past
  refine (expect_reads _).bind fun last r6 h6 => ?_
  refine Reads.bind (closeBody_reads) fun _ r7 h7 => ?_
  subst h7
  refine pure_reads ⟨(p5.trans h6.past).weaken (by omega), Node.located_sound ?_ ?_⟩
  · simpa using Span.join_stop_le h1.lawful.stop_le h6.lawful.stop_le
  · have text : IsName name.text.toList := h2.lawful.spells_as h2.kind_eq
    simpa using ⟨text, h4.sound, sequence_sound h5.sound⟩

theorem classDefinition_reads (room : 8 * tokens.length ≤ depth) :
    Reads n (classDefinition sub) tokens (NodeAfter n 1 tokens) := by
  refine next_reads.bind fun keyword r1 h1 => ?_
  have p1 := h1.past
  refine books_looks.bind_reads fun book => ?_
  refine ite_reads (fun _ => reject_bind_reads rfl rfl h1.lawful.stop_le) fun _ => ?_
  refine (expect_reads _).bind fun name r2 h2 => ?_
  have p2 := p1.trans h2.past
  refine Reads.bind (openBody_reads) fun _ r3 h3 => ?_
  subst h3
  refine (within_reads (hsub.statements (by omega))).bind fun body r4 h4 => ?_
  have p4 := p2.trans h4.past
  refine (expect_reads _).bind fun last r5 h5 => ?_
  refine Reads.bind (closeBody_reads) fun _ r6 h6 => ?_
  subst h6
  refine pure_reads ⟨(p4.trans h5.past).weaken (by omega), Node.located_sound ?_ ?_⟩
  · simpa using Span.join_stop_le h1.lawful.stop_le h5.lawful.stop_le
  · have name := constantNode_sound h2.lawful (h2.lawful.spells_as h2.kind_eq)
    simpa using ⟨name, sequence_sound h4.sound⟩

theorem argument_reads {first : Bool} (room : 8 * tokens.length + 3 ≤ depth) :
    Reads n (argument sub first) tokens (NodeAfter n 1 tokens) := by
  refine peekKind_looks.bind_reads fun kind => ?_
  dsimp only
  split
  · exact hsub.expression (by omega)
  · refine next_reads.bind fun operator r1 h1 => ?_
    have p1 := h1.past
    refine (hsub.operators (by omega)).bind fun operand r2 h2 => ?_
    have p2 := p1.trans h2.past
    have given : ∀ kind, (Node.located kind [.node operand]
        (some (operator.span.join operand.range)) [("operator", some operator.span)]).Sound n := by
      intro kind
      refine Node.located_sound ?_ ?_
      · simpa using Span.join_stop_le h1.lawful.stop_le h2.sound.range_le
      · simpa using h2.sound
    refine ite_reads (fun _ => ?_) fun _ => pure_reads ⟨p2.weaken (by omega), given _⟩
    have faithful : Faithful n (Reason.ambiguousPrefix.diagnostic
        (.ofList [("prefix", operator.text)]) operator.span) :=
      diagnostic_faithful rfl h1.lawful.stop_le
    refine emit_bind_reads ⟨⟨faithful.level, faithful.message, faithful.location_le, ?_⟩, rfl, rfl⟩
      (pure_reads ⟨p2.weaken (by omega), given _⟩)
    simpa using h2.sound.range_le

theorem arguments_reads {command : Bool} (room : 8 * tokens.length + 3 ≤ depth) :
    Reads n (arguments sub command) tokens (NodesAfter n 1 tokens) := by
  refine (argument_reads hsub (by omega)).bind fun first r1 h1 => ?_
  have p1 := h1.past
  refine (eat_reads _).bind fun comma r2 h2 => ?_
  have p2 := p1.trans h2.past
  cases comma with
  | none => exact pure_reads ⟨p2.weaken (by omega), by simpa using h1.sound⟩
  | some _ =>
    refine skipNewlines_reads.bind fun _ r3 h3 => ?_
    have p3 := p2.trans h3
    refine (hsub.arguments (by omega)).bind fun more r4 h4 => ?_
    refine pure_reads ⟨(p3.trans h4.past).weaken (by omega), ?_⟩
    exact List.forall_mem_cons.2 ⟨h1.sound, h4.sound⟩

/-- The arguments of a call, and what follows them. -/
structure ActualsAfter (n : Nat) (tokens : List Token) (actuals : Actuals) (rest : List Token) :
    Prop where
  past : Past 0 tokens rest
  sound : actuals.Sound n

theorem actuals_reads (room : 8 * tokens.length + 4 ≤ depth) :
    Reads n (actuals sub) tokens (ActualsAfter n tokens) := by
  refine (adjacent?_looks _).bind_reads fun paren => ?_
  refine ite_reads (fun _ => ?_) fun _ => ?_
  · refine next_reads.bind fun first r1 h1 => ?_
    have p1 := h1.past
    apply nest_bind_reads
    refine skipNewlines_reads.bind fun _ r2 h2 => ?_
    have p2 := p1.trans h2
    refine (at?_looks _).bind_reads fun empty => ?_
    refine ite_reads (fun _ => ?_) fun _ => ?_
    · refine (pure_reads (Q := NodesAfter n 0 r2) ⟨.refl _, by simp⟩).bind fun nodes r3 h3 => ?_
      refine (expect_reads _).bind fun last r4 h4 => ?_
      have p4 := (p2.trans h3.past).trans h4.past
      apply nest_bind_reads
      exact pure_reads ⟨p4.weaken (by omega), h3.sound, by simpa using h4.lawful.stop_le⟩
    · refine (hsub.arguments (by omega)).bind fun nodes r3 h3 => ?_
      refine skipNewlines_reads.bind fun _ r4 h4 => ?_
      have p4 := (p2.trans h3.past).trans h4
      refine (pure_reads (Q := NodesAfter n 0 r4) ⟨.refl _, h3.sound⟩).bind fun nodes r5 h5 => ?_
      refine (expect_reads _).bind fun last r6 h6 => ?_
      have p6 := (p4.trans h5.past).trans h6.past
      apply nest_bind_reads
      exact pure_reads ⟨p6.weaken (by omega), h5.sound, by simpa using h6.lawful.stop_le⟩
  · refine startsCommand?_looks.bind_reads fun command => ?_
    refine ite_reads (fun _ => ?_) fun _ => pure_reads ⟨.refl _, by simp, by simp⟩
    apply nest_bind_reads
    refine (hsub.arguments (by omega)).bind fun nodes r1 h1 => ?_
    apply nest_bind_reads
    refine pure_reads ⟨h1.past.weaken (by omega), h1.sound, fun span hs => ?_⟩
    obtain ⟨last, hl, rfl⟩ := Option.map_eq_some_iff.1 hs
    exact (h1.sound last (List.mem_of_getLast? hl)).range_le

theorem call_reads {receiver : Option Node} {dot : Option Token} {selector : Token}
    (hr : ∀ node ∈ receiver, node.Sound n) (lawful : selector.Lawful n)
    (kind : selector.kind = .identifier) (room : 8 * tokens.length + 4 ≤ depth) :
    Reads n (call sub receiver dot selector) tokens (NodeAfter n 0 tokens) := by
  refine books_looks.bind_reads fun book => ?_
  refine (actuals_reads hsub room).bind fun actuals r1 h1 => ?_
  have p1 := h1.past
  have name : IsName selector.text.toList := lawful.spells_as kind
  have node : (callNode receiver dot selector actuals).Sound n :=
    callNode_sound hr lawful name h1.sound
  have recorded : (if selector.text = probeName then
      (callNode receiver dot selector actuals).recording book.context
      else callNode receiver dot selector actuals).Sound n := by
    split
    · exact Node.recording_sound node _
    · exact node
  refine (blockAfter_reads hsub recorded (by omega)).mono fun node r2 h2 => ?_
  exact ⟨p1.trans h2.past, h2.sound⟩

theorem callsAfter_reads {receiver : Node} (hr : receiver.Sound n)
    (room : 8 * tokens.length ≤ depth) :
    Reads n (callsAfter sub receiver) tokens (NodeAfter n 0 tokens) := by
  refine (eat_reads _).bind fun dot r1 h1 => ?_
  have p1 := h1.past
  cases dot with
  | none => exact pure_reads ⟨p1, hr⟩
  | some dot =>
    refine (expect_reads _).bind fun selector r2 h2 => ?_
    have p2 := p1.trans h2.past
    have called : Reads n (call sub (some receiver) (some dot) selector) r2 (NodeAfter n 0 r2) :=
      call_reads hsub (by simpa using hr) h2.lawful h2.kind_eq (by omega)
    refine called.bind fun node r3 h3 => ?_
    have p3 := p2.trans h3.past
    refine (hsub.callsAfter h3.sound (by omega)).mono fun node r4 h4 => ?_
    exact ⟨(p3.trans h4.past).weaken (by omega), h4.sound⟩

theorem identifier_reads (kind : tokens.head?.map Token.kind = some .identifier)
    (room : 8 * tokens.length ≤ depth) :
    Reads n (identifier sub) tokens (NodeAfter n 1 tokens) := by
  refine next_reads.bind fun token r1 h1 => ?_
  have p1 := h1.past
  have named := h1.kind_eq kind
  have variable' : (variableNode token).Sound n :=
    variableNode_sound h1.lawful (h1.lawful.spells_as named)
  have called : Reads n (call sub none none token) r1 (NodeAfter n 1 tokens) := by
    refine (call_reads hsub (by simp) h1.lawful named (by omega)).mono fun node r2 h2 => ?_
    exact ⟨(p1.trans h2.past).weaken (by omega), h2.sound⟩
  refine (adjacent?_looks _).bind_reads fun paren => ?_
  refine ite_reads (fun _ => called) fun _ => ?_
  refine books_looks.bind_reads fun book => ?_
  refine features_looks.bind_reads fun features => ?_
  split
  · rename_i number ordinary use
    refine ite_reads (fun _ => reject_bind_reads rfl rfl h1.lawful.stop_le) fun _ => ?_
    refine keep_bind_reads (fun _ modest => modest_useNumber modest (numberedUse?_le use)) ?_
    exact pure_reads ⟨p1, variable'⟩
  · exact ite_reads (fun _ => pure_reads ⟨p1, variable'⟩) fun _ => called

theorem entry_reads {label : Token} (lawful : label.Lawful n) (kind : label.kind = .label)
    (room : 8 * tokens.length + 2 ≤ depth) :
    Reads n (entry sub label) tokens (NodeAfter n 0 tokens) := by
  have name := isName_of_label lawful kind
  have span := keySpan_stop_le lawful
  refine books_looks.bind_reads fun book => ?_
  dsimp only
  split
  · refine keep_bind_reads (fun _ modest => modest) ?_
    refine peekKind_looks.bind_reads fun kind => ?_
    split
    case h_4 =>
      refine (hsub.pattern room).bind fun value r1 h1 => ?_
      have key : (Node.located .sym [.sym (keyOf label)] (some (keySpan label))
          [("begin", none)]).Sound n :=
        Node.located_sound (by simpa using span) (by simpa using name)
      refine pure_reads ⟨h1.past.weaken (by omega), Node.located_sound ?_ ?_⟩
      · simpa using Span.join_stop_le lawful.stop_le h1.sound.range_le
      · simpa using ⟨key, h1.sound⟩
    all_goals exact bindVariable_reads name span
  · exact reject_bind_reads rfl rfl span

theorem entries_reads (room : 8 * tokens.length ≤ depth) :
    Reads n (entries sub) tokens (NodesAfter n 0 tokens) := by
  refine (eat_reads _).bind fun label r1 h1 => ?_
  cases label with
  | none => exact pure_reads ⟨h1.past, by simp⟩
  | some label =>
    have taken : TakenAs n _ tokens label r1 := h1
    have p1 := taken.past
    refine (entry_reads hsub taken.lawful taken.kind_eq (by omega)).bind fun first r2 h2 => ?_
    have p2 := p1.trans h2.past
    refine (eat_reads _).bind fun comma r3 h3 => ?_
    have p3 := p2.trans h3.past
    cases comma with
    | none => exact pure_reads ⟨p3.weaken (by omega), by simpa using h2.sound⟩
    | some _ =>
      refine skipNewlines_reads.bind fun _ r4 h4 => ?_
      have p4 := p3.trans h4
      refine (hsub.entries (by omega)).bind fun more r5 h5 => ?_
      refine pure_reads ⟨(p4.trans h5.past).weaken (by omega), ?_⟩
      exact List.forall_mem_cons.2 ⟨h2.sound, h5.sound⟩

theorem hashPattern_reads (room : 8 * tokens.length ≤ depth) :
    Reads n (hashPattern sub) tokens (NodeAfter n 1 tokens) := by
  refine next_reads.bind fun first r1 h1 => ?_
  have p1 := h1.past
  refine keep_bind_reads (fun _ modest => modest) ?_
  refine skipNewlines_reads.bind fun _ r2 h2 => ?_
  have p2 := p1.trans h2
  refine (hsub.entries (by omega)).bind fun entries r3 h3 => ?_
  have p3 := p2.trans h3.past
  refine skipNewlines_reads.bind fun _ r4 h4 => ?_
  have p4 := p3.trans h4
  refine (expect_reads _).bind fun last r5 h5 => ?_
  refine keep_bind_reads (fun _ modest => modest) ?_
  refine pure_reads ⟨(p4.trans h5.past).weaken (by omega), Node.located_sound ?_ ?_⟩
  · simpa using Span.join_stop_le h1.lawful.stop_le h5.lawful.stop_le
  · simpa using h3.sound

theorem pattern_reads (room : 8 * tokens.length + 1 ≤ depth) :
    Reads n (pattern sub) tokens (NodeAfter n 1 tokens) := by
  apply peekKind_bind_reads
  split
  case h_1 kind =>
    refine next_reads.bind fun token r1 h1 => ?_
    have p1 := h1.past
    have named := h1.kind_eq kind
    have bound : Reads n (bindVariable token.text token.span) r1 (NodeAfter n 0 r1) :=
      bindVariable_reads (h1.lawful.spells_as named) h1.lawful.stop_le
    refine bound.mono fun node r2 h2 => ?_
    exact ⟨(p1.trans h2.past).weaken (by omega), h2.sound⟩
  case h_2 => exact hashPattern_reads hsub (by omega)
  case h_11 => exact unexpected_reads
  all_goals exact hsub.unary room

theorem clause_reads (room : 8 * tokens.length ≤ depth) :
    Reads n (clause sub) tokens (NodeAfter n 1 tokens) := by
  refine next_reads.bind fun keyword r1 h1 => ?_
  have p1 := h1.past
  refine keep_bind_reads (fun _ modest => modest) ?_
  refine (within_reads (hsub.pattern (by omega))).bind fun pattern r2 h2 => ?_
  have p2 := p1.trans h2.past
  refine keep_bind_reads (fun _ modest => modest) ?_
  refine (eat_reads _).bind fun opener r3 h3 => ?_
  have p3 := p2.trans h3.past
  refine atTerminator?_looks.bind_reads fun terminated => ?_
  refine ite_reads (fun _ => unexpected_bind_reads) fun _ => ?_
  refine (hsub.statements (by omega)).bind fun body r4 h4 => ?_
  refine pure_reads ⟨(p3.trans h4.past).weaken (by omega), Node.located_sound ?_ ?_⟩
  · have opened : ((opener.map Token.span).getD pattern.range).stop ≤ n := by
      cases opener with
      | none => exact h2.sound.range_le
      | some token =>
        have taken : TakenAs n _ r2 token r3 := h3
        exact taken.lawful.stop_le
    have last : ((body.getLast?.map Node.range).getD
        ((opener.map Token.span).getD pattern.range)).stop ≤ n := by
      cases hl : body.getLast? with
      | none => exact opened
      | some node => exact (h4.sound node (List.mem_of_getLast? hl)).range_le
    simpa using Span.join_stop_le h1.lawful.stop_le last
  · simpa using ⟨h2.sound, sequence_sound h4.sound⟩

theorem clauses_reads (room : 8 * tokens.length ≤ depth) :
    Reads n (clauses sub) tokens (NodesAfter n 0 tokens) := by
  refine (at?_looks _).bind_reads fun more => ?_
  refine ite_reads (fun _ => ?_) fun _ => pure_reads ⟨.refl _, by simp⟩
  refine (clause_reads hsub room).bind fun first r1 h1 => ?_
  have p1 := h1.past
  refine (hsub.clauses (by omega)).bind fun more r2 h2 => ?_
  refine pure_reads ⟨(p1.trans h2.past).weaken (by omega), ?_⟩
  exact List.forall_mem_cons.2 ⟨h1.sound, h2.sound⟩

theorem caseMatch_reads (room : 8 * tokens.length ≤ depth) :
    Reads n (caseMatch sub) tokens (NodeAfter n 1 tokens) := by
  refine next_reads.bind fun keyword r1 h1 => ?_
  have p1 := h1.past
  refine (hsub.expression (by omega)).bind fun subject r2 h2 => ?_
  have p2 := p1.trans h2.past
  refine skipTerminators_reads.bind fun _ r3 h3 => ?_
  have p3 := p2.trans h3
  refine features_looks.bind_reads fun features => ?_
  refine (at?_looks _).bind_reads fun more => ?_
  refine ite_reads (fun _ => unexpected_bind_reads) fun _ => ?_
  refine (hsub.clauses (by omega)).bind fun clauses r4 h4 => ?_
  have p4 := p3.trans h4.past
  refine (eat_reads _).bind fun alternative r5 h5 => ?_
  have p5 := p4.trans h5.past
  have whole : ∀ {otherwise : List Node} {last : Token}, (∀ node ∈ otherwise, node.Sound n) →
      last.Lawful n → (Node.located .caseMatch
        (.node subject :: clauses.map .node ++ [.ofOption (sequence otherwise)])
        (some (keyword.span.join last.span))
        [("keyword", some keyword.span), ("else", alternative.map Token.span),
          ("end", some last.span)]).Sound n := by
    intro otherwise last body lawful
    refine Node.located_sound ?_ ?_
    · simpa using Span.join_stop_le h1.lawful.stop_le lawful.stop_le
    · have alternative := sequence_sound body
      simp only [List.mem_append, List.mem_cons, List.mem_map, List.not_mem_nil, or_false]
      rintro child ((rfl | ⟨clause, hc, rfl⟩) | rfl)
      · exact h2.sound
      · exact h4.sound clause hc
      · simpa using alternative
  dsimp only
  split
  · refine (hsub.statements (by omega)).bind fun otherwise r6 h6 => ?_
    refine (expect_reads _).bind fun last r7 h7 => ?_
    exact pure_reads ⟨((p5.trans h6.past).trans h7.past).weaken (by omega),
      whole h6.sound h7.lawful⟩
  · refine (pure_reads (Q := NodesAfter n 0 r5) ⟨.refl _, by simp⟩).bind fun otherwise r6 h6 => ?_
    refine (expect_reads _).bind fun last r7 h7 => ?_
    exact pure_reads ⟨((p5.trans h6.past).trans h7.past).weaken (by omega),
      whole h6.sound h7.lawful⟩

theorem primary_reads (room : 8 * tokens.length ≤ depth) :
    Reads n (primary sub) tokens (NodeAfter n 1 tokens) := by
  refine Reads.of_lawful fun lawful => peek_bind_reads ?_
  cases tokens with
  | nil => exact unexpected_reads
  | cons token rest =>
    have first := lawful token (.head _)
    have past : Past 1 (token :: rest) rest := .of_cons _ _
    have literal : ∀ node : Node, node.Sound n →
        Reads n (do advance; pure node) (token :: rest) (NodeAfter n 1 (token :: rest)) :=
      fun node sound => advance_bind_reads (pure_reads ⟨past, sound⟩)
    simp only [List.head?_cons]
    split
    case h_1 kind =>
      refine advance_bind_reads ((integerNode_reads first kind).mono fun node r1 h1 => ?_)
      exact ⟨past.trans h1.past, h1.sound⟩
    case h_2 => exact literal _ (stringNode_sound first)
    case h_3 kind => exact literal _ (symbolNode_sound first kind)
    case h_8 kind => exact literal _ (constantNode_sound first (first.spells_as kind))
    case h_9 kind =>
      have named : (token :: rest).head?.map Token.kind = some .identifier := by
        rw [List.head?_cons, Option.map_some, kind]
      exact identifier_reads hsub named room
    case h_10 => exact parenthesized_reads hsub room
    case h_11 =>
      refine features_looks.bind_reads fun features => ?_
      exact ite_reads (fun _ => lambda_reads hsub room) fun _ => unexpected_reads
    case h_12 => exact methodDefinition_reads hsub room
    case h_13 => exact classDefinition_reads hsub room
    case h_14 => exact whileLoop_reads hsub room
    case h_15 => exact definedCheck_reads hsub room
    case h_16 => exact caseMatch_reads hsub room
    case h_17 => exact unexpected_reads
    all_goals exact literal _ (leaf_sound _ first.stop_le)

theorem chain_reads (room : 8 * tokens.length ≤ depth) :
    Reads n (chain sub) tokens (NodeAfter n 1 tokens) := by
  refine (primary_reads hsub room).bind fun receiver r1 h1 => ?_
  have p1 := h1.past
  refine (hsub.callsAfter h1.sound (by omega)).mono fun node r2 h2 => ?_
  exact ⟨p1.trans h2.past, h2.sound⟩

theorem sign_reads {selector : String} {sign : Token} {rest : List Token}
    (name : IsName selector.toList) (lawful : sign.Lawful n)
    (room : 8 * (sign :: rest).length ≤ depth) :
    Reads n (do return signNode selector sign (← sub .unary)) rest
      (NodeAfter n 1 (sign :: rest)) := by
  have past : Past 1 (sign :: rest) rest := .of_cons _ _
  refine (hsub.unary (by omega)).bind fun operand r1 h1 => ?_
  refine pure_reads ⟨(past.trans h1.past).weaken (by omega), ?_⟩
  exact signNode_sound name lawful.stop_le h1.sound

theorem unary_reads (room : 8 * tokens.length ≤ depth) :
    Reads n (unary sub) tokens (NodeAfter n 1 tokens) := by
  refine Reads.of_lawful fun lawful => peek_bind_reads ?_
  cases tokens with
  | nil => exact unexpected_reads
  | cons sign rest =>
    have first := lawful sign (.head _)
    have minus : IsName "-@".toList := by decide
    have bang : IsName "!".toList := by decide
    simp only [List.head?_cons]
    split
    · refine advance_bind_reads (peek_bind_reads ?_)
      cases rest with
      | nil => exact sign_reads hsub minus first room
      | cons literal more =>
        refine ite_reads (fun adjacent => ?_) fun _ => sign_reads hsub minus first room
        have kind : literal.kind = .integer := by
          simp only [Bool.and_eq_true, decide_eq_true_eq] at adjacent
          exact adjacent.1
        have second := lawful literal (.tail _ (.head _))
        refine advance_bind_reads ((negativeNode_reads first second kind).mono ?_)
        intro node r1 h1
        have past := (Past.of_cons sign _).trans (Past.of_cons literal more)
        exact ⟨(past.trans h1.past).weaken (by omega), h1.sound⟩
    · exact advance_bind_reads (sign_reads hsub bang first room)
    · exact chain_reads hsub room

theorem assignment_reads (kind : tokens.head?.map Token.kind = some .identifier)
    (room : 8 * tokens.length ≤ depth) :
    Reads n (assignment sub) tokens (NodeAfter n 1 tokens) := by
  refine next_reads.bind fun name r1 h1 => ?_
  have p1 := h1.past
  have named := h1.kind_eq kind
  refine next_reads.bind fun operator r2 h2 => ?_
  have p2 := p1.trans h2.past
  refine skipNewlines_reads.bind fun _ r3 h3 => ?_
  have p3 := p2.trans h3
  refine keep_bind_reads (fun _ modest => modest_declare modest _) ?_
  refine (hsub.expression (by omega)).bind fun value r4 h4 => ?_
  refine pure_reads ⟨(p3.trans h4.past).weaken (by omega), Node.located_sound ?_ ?_⟩
  · simpa using Span.join_stop_le h1.lawful.stop_le h4.sound.range_le
  · have text : IsName name.text.toList := h1.lawful.spells_as named
    simpa using ⟨text, h4.sound⟩

theorem expression_reads (room : 8 * tokens.length + 2 ≤ depth) :
    Reads n (expression sub) tokens (NodeAfter n 1 tokens) := by
  refine at?_bind_reads (peekSecond_looks.bind_reads fun second => ?_)
  refine ite_reads (fun named => ?_) fun _ => hsub.operators room
  simp only [Bool.and_eq_true, beq_iff_eq] at named
  exact assignment_reads hsub named.1 (by omega)

theorem statements_reads {stops : List TokenKind} (room : 8 * tokens.length + 3 ≤ depth) :
    Reads n (statements sub stops) tokens (NodesAfter n 0 tokens) := by
  refine skipTerminators_reads.bind fun _ r1 h1 => ?_
  have p1 := h1
  refine peekKind_looks.bind_reads fun kind => ?_
  cases kind with
  | none => exact pure_reads ⟨p1, by simp⟩
  | some kind =>
    refine ite_reads (fun _ => pure_reads ⟨p1, by simp⟩) fun _ => ?_
    refine (hsub.expression (by omega)).bind fun first r2 h2 => ?_
    have p2 := p1.trans h2.past
    refine peekKind_looks.bind_reads fun kind => ?_
    split
    case h_4 =>
      refine ite_reads (fun _ => ?_) fun _ => unexpected_reads
      exact pure_reads ⟨p2.weaken (by omega), by simpa using h2.sound⟩
    all_goals
      refine (hsub.statements (by omega)).bind fun more r3 h3 => ?_
      refine pure_reads ⟨(p2.trans h3.past).weaken (by omega), ?_⟩
      exact List.forall_mem_cons.2 ⟨h2.sound, h3.sound⟩

theorem operatorsAfter_reads {power : Nat} {left : Node} (hl : left.Sound n)
    (room : 8 * tokens.length ≤ depth) :
    Reads n (operatorsAfter sub power left) tokens (NodeAfter n 0 tokens) := by
  refine Reads.of_lawful fun lawful => peek_bind_reads ?_
  cases tokens with
  | nil => exact pure_reads ⟨.refl _, hl⟩
  | cons operator rest =>
    have first := lawful operator (.head _)
    have p1 : Past 1 (operator :: rest) rest := .of_cons _ _
    simp only [List.head?_cons]
    split
    · exact pure_reads ⟨.refl _, hl⟩
    · rename_i tighter power_eq
      refine ite_reads (fun _ => pure_reads ⟨.refl _, hl⟩) fun _ => ?_
      refine advance_bind_reads (skipNewlines_reads.bind fun _ r2 h2 => ?_)
      have p2 := p1.trans h2
      refine (hsub.operators (by omega)).bind fun right r3 h3 => ?_
      have p3 := p2.trans h3.past
      have joined := operatorNode_sound hl h3.sound first power_eq
      refine (hsub.operatorsAfter joined (by omega)).mono fun node r4 h4 => ?_
      exact ⟨(p3.trans h4.past).weaken (by omega), h4.sound⟩

theorem operators_reads {power : Nat} (room : 8 * tokens.length + 1 ≤ depth) :
    Reads n (operators sub power) tokens (NodeAfter n 1 tokens) := by
  refine (hsub.unary room).bind fun left r1 h1 => ?_
  have p1 := h1.past
  refine (hsub.operatorsAfter h1.sound (by omega)).mono fun node r2 h2 => ?_
  exact ⟨p1.trans h2.past, h2.sound⟩

end Rules

/-- What a derivation reads and gives in any depth. -/
theorem derive_sound (n depth : Nat) : SoundTo n depth (derive depth) := by
  induction depth with
  | zero => constructor <;> intros <;> omega
  | succ depth ih =>
    exact {
      statements := fun room => statements_reads ih (by omega)
      expression := fun room => expression_reads ih (by omega)
      operators := fun room => operators_reads ih (by omega)
      operatorsAfter := fun left room => operatorsAfter_reads ih left (by omega)
      unary := fun room => unary_reads ih (by omega)
      callsAfter := fun receiver room => callsAfter_reads ih receiver (by omega)
      arguments := fun room => arguments_reads ih (by omega)
      pattern := fun room => pattern_reads ih (by omega)
      entries := fun room => entries_reads ih (by omega)
      clauses := fun room => clauses_reads ih (by omega) }

/-- A whole source has a sound tree or none. -/
theorem program_reads :
    Reads n (program tokens.length) tokens fun tree _ => ∀ node ∈ tree, node.Sound n := by
  refine keep_bind_reads (fun _ modest => modest) ?_
  have room : 8 * tokens.length + 4 ≤ depthFor tokens.length := by
    unfold depthFor
    omega
  refine ((derive_sound n _).statements room).bind fun body r1 h1 => ?_
  refine keep_bind_reads (fun _ modest => modest) ?_
  exact pure_reads (sequence_sound h1.sound)

end Conformance.Dialect.Grammar
