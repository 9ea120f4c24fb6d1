import Conformance.Proofs.Attachment

/-! States in another nesting. What decides where the word `do` opens a block is all that a nesting
decides, so that all but a `do` is read in the same way. Where a `do` would make a difference, the
nodes of a phrase tell whether there is one. -/

namespace Conformance.Dialect

/-! ### Nodes in a condition or in arguments -/

namespace Node

variable {source : String} {inside : Bool} {node below : Node}

/-- The children of a free node are free, each for where it stands. -/
theorem Free.child (free : node.Free source inside) {index : Nat}
    (here : node.allChildren[index]? = some (.node below)) :
    below.Free source (Edge.enter inside ⟨node, index⟩) := by
  intro indices edges target trail block
  refine free (index :: indices) (⟨node, index⟩ :: edges) target ?_ block
  unfold trail?
  simp [here, trail]

/-- What nothing delimits is in the same place as the whole, if that is in a condition or in
arguments. -/
theorem Free.bared (free : node.Free source true) (index : Nat)
    (here : node.allChildren[index]? = some (.node below))
    (bare : Edge.delimits ⟨node, index⟩ = false) : below.Free source true := by
  have entered := free.child here
  simpa [Edge.enter, bare] using entered

theorem Free.of_isPlain (free : node.Free source true) (plain : node.kind.isPlain = true) :
    ∀ child ∈ node.children, child.Free source true := by
  intro child mem
  obtain ⟨found, mem, isNode⟩ := List.mem_filterMap.1 mem
  obtain ⟨index, bound, here⟩ := List.mem_iff_getElem.1 mem
  cases found <;> cases isNode
  refine free.bared index (List.getElem?_eq_some_iff.2 ⟨bound, here⟩) ?_
  unfold Edge.delimits
  dsimp only
  generalize node.kind = kind at plain ⊢
  cases kind <;> first | rfl | cases plain

theorem Free.isDoBlock_eq_false (free : node.Free source true) :
    node.isDoBlock source = false :=
  Bool.eq_false_iff.2 fun block => nomatch free [] [] node rfl block

theorem Free.of_sequence {body : List Node}
    (free : ∀ node ∈ Grammar.sequence body, node.Free source true) :
    ∀ node ∈ body, node.Free source true := by
  match body with
  | [] => exact nofun
  | [node] => simpa [Grammar.sequence] using free
  | first :: second :: more =>
    intro child mem
    have whole := free _ rfl
    obtain ⟨index, bound, here⟩ := List.mem_iff_getElem.1 mem
    have below : ((first :: second :: more).map Child.node)[index]? = some (.node child) := by
      rw [List.getElem?_map, List.getElem?_eq_some_iff.2 ⟨bound, here⟩]
      rfl
    exact whole.bared index below rfl

theorem Free.of_ofOption (free : node.Free source true) {body : List Node} (index : Nat)
    (here : node.allChildren[index]? = some (.ofOption (Grammar.sequence body)))
    (bare : Edge.delimits ⟨node, index⟩ = false) : ∀ node ∈ body, node.Free source true := by
  refine .of_sequence fun child found => free.bared index ?_ bare
  rw [here, Option.mem_def.1 found]
  rfl

end Node

/-! ### States in another nesting -/

namespace ParseState

/-- A state in another nesting. -/
def under (n : Nesting) (s : ParseState) : ParseState := s.nested fun _ => n

variable {n : Nesting} {s : ParseState} {kind : TokenKind} {token : Token} {rest : List Token}

theorem Next.under (next : s.Next kind token rest) : (s.under n).Next kind token rest :=
  ⟨next.eq, next.kind_eq⟩

theorem Next.of_under (next : (s.under n).Next kind token rest) : s.Next kind token rest :=
  ⟨next.eq, next.kind_eq⟩

theorem Eats.under {found : Option Token} (eats : s.Eats kind found rest) :
    (s.under n).Eats kind found rest := by
  cases eats with
  | none absent => exact .none (s := s.under n) absent
  | some next => exact .some next.under

theorem adjacent_under : (s.under n).Adjacent kind ↔ s.Adjacent kind :=
  ⟨fun ⟨_, _, next, unspaced⟩ => ⟨_, _, next.of_under, unspaced⟩,
    fun ⟨_, _, next, unspaced⟩ => ⟨_, _, next.under, unspaced⟩⟩

theorem not_assigns_under (unassigned : ¬ s.Assigns) : ¬ (s.under n).Assigns :=
  fun ⟨_, _, _, next, assign⟩ => unassigned ⟨_, _, _, next.of_under, assign⟩

theorem under_declare (name : String) :
    (s.keeping (·.declare name)).under n = (s.under n).keeping (·.declare name) := by
  obtain ⟨rest, ⟨nesting, context, scopes, numbering, parameters, bound, keys⟩, emitted⟩ := s
  cases scopes <;> rfl

theorem under_nameParameter (name : String) :
    (s.keeping (·.nameParameter name)).under n = (s.under n).keeping (·.nameParameter name) := by
  obtain ⟨rest, ⟨nesting, context, scopes, numbering, parameters, bound, keys⟩, emitted⟩ := s
  cases scopes <;> rfl

theorem under_useNumber (number : Nat) :
    (s.keeping (·.useNumber number)).under n = (s.under n).keeping (·.useNumber number) := by
  obtain ⟨rest, ⟨nesting, context, scopes, numbering, parameters, bound, keys⟩, emitted⟩ := s
  obtain _ | ⟨_ | _, _⟩ := numbering <;> rfl

theorem under_reporting_if (reports : Bool) (d : Diagnostic) :
    (if reports then s.reporting d else s).under n =
      if reports then (s.under n).reporting d else s.under n := by
  cases reports <;> rfl

end ParseState

theorem Bookkeeping.Binds.under {name : String} {book after : Bookkeeping}
    (binds : Binds name book after) (n : Nesting) :
    Binds name { book with nesting := n } { after with nesting := n } := by
  obtain ⟨nesting, context, scopes, numbering, parameters, bound, keys⟩ := book
  cases binds with
  | free free => cases scopes <;> exact .free free
  | fresh strict enters => cases scopes <;> exact .fresh strict enters

namespace Grammar

variable {source : String} {features : Features} {s t : ParseState} {n : Nesting}

/-! ### Parameters -/

theorem Names.under {close : TokenKind} {seen : List String} {nodes : List Node}
    (h : Names close seen s nodes t) : Names close seen (s.under n) nodes (t.under n) := by
  induction h with
  | none closes => exact .none closes
  | last name fresh noComma =>
    rw [ParseState.under_nameParameter]
    exact .last name.under fresh noComma
  | more name fresh comma _ ih =>
    rw [ParseState.under_nameParameter] at ih
    exact .more name.under fresh comma.under ih

theorem ParameterList.under {close : TokenKind} {nodes : List Node}
    (h : ParameterList close s nodes t) :
    ParameterList close (s.under n) nodes (t.under n) := by
  cases h with
  | intro names => exact .intro (s := s.under n) names.under

theorem BlockParameters.under {parameters : Node × Bool} (h : BlockParameters s parameters t) :
    BlockParameters (s.under n) parameters (t.under n) := by
  cases h with
  | bars bars => exact .bars bars.under
  | none noBars noBar => exact .none (s := s.under n) noBars noBar
  | list first list last => exact .list first.under list.under last.under

theorem ParenthesizedParameters.under {parameters : Node × Bool}
    (h : ParenthesizedParameters s parameters t) :
    ParenthesizedParameters (s.under n) parameters (t.under n) := by
  cases h with
  | none absent => exact .none (s := s.under n) absent
  | list first list last =>
    exact .list (s := s.under n) first.under (list.under (n := n.openParen)) last.under

/-! ### Phrases -/

/-- The word `do` is written as such. -/
def SpellsDo (source : String) (tokens : List Token) : Prop :=
  ∀ token ∈ tokens, token.kind = .kwDo → token.span.slice source = "do"

theorem SpellsDo.on {k : Nat} {a b : List Token} (spelled : SpellsDo source a) (past : Past k a b) :
    SpellsDo source b := fun token mem => spelled token (past.2.mem mem)

/-- A block comes after a call. -/
def Phrase.Called : Phrase → Prop
  | .blockAfter target => target.kind = .send
  | _ => True

/-- The keywords that start what a keyword of its own ends. -/
def startsConstruct : TokenKind → Bool
  | .kwWhile | .kwCase | .kwDef | .kwClass => true
  | _ => false

/-- Whether a `do` after a phrase may open a block of a call in it. After what a keyword of its own
ends it may not, and after the arguments of a call it does not open one in them. -/
def Phrase.Open (s : ParseState) : Phrase → Prop
  | .actuals => False
  | .primary => s.kind?.any startsConstruct = false
  | _ => True

/-- The phrases that go on from others, and may go on no further. -/
def Phrase.GoesOn : Phrase → Prop
  | .of (.operatorsAfter _ _) | .of (.callsAfter _) | .of .clauses => True
  | _ => False

/-- When a phrase is read in another nesting as it is in its own, with `inside` for whether its own
is a condition or arguments: where only the other one is, it has no `do` block that nothing
delimits, and where only its own is, no `do` follows. -/
structure Phrase.Renests (source : String) (inside : Bool) (n : Nesting) (phrase : Phrase)
    (s : ParseState) (value : phrase.Result) (t : ParseState) : Prop where
  place : s.book.nesting.inside = inside
  spelled : SpellsDo source s.rest
  called : phrase.Called
  hides : n.inside = true → inside = false → phrase.Free source true value
  ends : phrase.Open s → n.inside = false → inside = true → t.kind? ≠ some .kwDo

variable {phrase : Phrase} {value : phrase.Result}

/-- Nothing is to be said where both are conditions or arguments, or neither is. -/
theorem Phrase.Renests.level (level : s.book.nesting.inside = n.inside)
    (spelled : SpellsDo source s.rest) (called : phrase.Called) :
    phrase.Renests source n.inside n s value t where
  place := level
  spelled
  called
  hides := fun new own => by simp [new] at own
  ends := fun _ new own => by simp [new] at own

/-- A part of a phrase that is read where the whole is: it has no more blocks than the whole, and a
`do` that follows it follows the whole. -/
theorem Phrase.Renests.part {k : Nat} {inner : Phrase} {given : inner.Result} {s' t' : ParseState}
    (fits : phrase.Renests source inside n s value t)
    (place : s'.book.nesting.inside = s.book.nesting.inside) (past : Past k s.rest s'.rest)
    (called : inner.Called)
    (free : phrase.Free source true value → inner.Free source true given)
    (ends : inner.Open s' → t'.kind? = some .kwDo → phrase.Open s ∧ t.kind? = some .kwDo) :
    inner.Renests source inside n s' given t' where
  place := place.trans fits.place
  spelled := fits.spelled.on past
  called
  hides := fun new own => free (fits.hides new own)
  ends := fun here new own word =>
    have whole := ends here word
    fits.ends whole.1 new own whole.2

/-- A `do` that no operator and no dot follows is what a phrase stops at. -/
theorem Derives.stuck (h : Derives features phrase s value t) (goesOn : phrase.GoesOn)
    (word : s.kind? = some .kwDo) : t.kind? = some .kwDo := by
  cases h with
  | noOperator | noCall => exact word
  | operator binds _ operator =>
    cases operator.kind?_eq.symm.trans word
    cases binds
  | dotCall dot => cases dot.kind?_eq.symm.trans word
  | noClauses => exact word
  | moreClauses first =>
    cases first with
    | clause keyword => cases keyword.kind?_eq.symm.trans word
  | _ => cases goesOn

theorem callee_free {context : Flags} {receiver : Option Node} {dot : Option Token}
    {selector : Token} {actuals : Actuals}
    (free : (recordedCall context receiver dot selector actuals).Free source true) :
    (∀ node ∈ receiver, node.Free source true) ∧
      ∀ node ∈ actuals.nodes, node.Free source actuals.parens.isNone := by
  rw [recordedCall_eq] at free
  refine ⟨fun node mem => Node.Free.bared free 0 (by rw [Option.mem_def.1 mem]; rfl) rfl,
    fun node mem => ?_⟩
  obtain ⟨index, bound, here⟩ := List.mem_iff_getElem.1 mem
  have argument : (actuals.nodes.map Child.node)[index]? = some (.node node) := by
    rw [List.getElem?_map, List.getElem?_eq_some_iff.2 ⟨bound, here⟩]
    rfl
  have entered : node.Free source (Edge.enter true ⟨_, index + 2⟩) :=
    Node.Free.child free argument
  rwa [Edge.enter_argument] at entered

theorem operands_free {left right : Node} {operator : Token}
    (free : (operatorNode left operator right).Free source true) :
    left.Free source true ∧ right.Free source true := by
  unfold operatorNode at free
  split at free
  · exact ⟨free.bared 0 rfl rfl, free.bared 1 rfl rfl⟩
  · exact ⟨free.bared 0 rfl rfl, free.bared 1 rfl rfl⟩
  · exact ⟨free.bared 0 rfl rfl, free.bared 2 rfl rfl⟩

theorem target_free {target parameters : Node} {numbering : Option Numbering} {body : List Node}
    {whole : Span} {first last : Token}
    (free : (closureNode target parameters numbering body whole first last).Free source true) :
    target.Free source true := by
  unfold closureNode at free
  dsimp only at free
  split at free
  all_goals exact free.bared 0 rfl rfl

/-- In a condition or in arguments the word `do` opens no block. -/
theorem opener_ne {target parameters : Node} {numbering : Option Numbering} {body : List Node}
    {whole : Span} {first last : Token} (called : target.kind = .send)
    (free : (closureNode target parameters numbering body whole first last).Free source true) :
    first.span.slice source ≠ "do" := by
  intro word
  have own := free.isDoBlock_eq_false
  unfold closureNode at own
  dsimp only at own
  split at own
  all_goals simp [Node.isDoBlock, Node.span?, Node.wholeField, Node.located,
    Node.kind, Node.allChildren, Child.node?, Location.field?, Node.location?, word] at own called
  all_goals exact own called

/-- Where a phrase is free, so is what it goes on from. -/
theorem Derives.given_free (h : Derives features phrase s value t)
    (free : phrase.Free source true value) : ∀ node ∈ phrase.given, node.Free source true := by
  induction h with
  | noOperator | noCall | noBlock => exact List.forall_mem_singleton.2 free
  | operator _ _ _ _ _ _ ih =>
    exact List.forall_mem_singleton.2 (operands_free (ih free _ (.head _))).1
  | dotCall _ _ _ _ ih1 ih2 => exact ih1 (ih2 free _ (.head _))
  | call _ _ _ ih =>
    have callee := (callee_free (ih free _ (.head _))).1
    exact fun node mem => callee node (Option.mem_toList.1 mem)
  | block => exact List.forall_mem_singleton.2 (target_free free)
  | _ => exact nofun

theorem clauses_free {keyword last : Token} {subject : Node} {clauses otherwise : List Node}
    {alternative : Option Token}
    (free : (caseNode keyword subject clauses alternative otherwise last).Free source true) :
    ∀ node ∈ clauses, node.Free source true := fun node mem =>
  free.of_isPlain rfl node (by simp [caseNode, mem])

theorem otherwise_free {keyword last : Token} {subject : Node} {clauses otherwise : List Node}
    {alternative : Option Token}
    (free : (caseNode keyword subject clauses alternative otherwise last).Free source true) :
    ∀ node ∈ otherwise, node.Free source true :=
  .of_sequence fun node found => free.of_isPlain rfl node (by
    simp [caseNode, Option.mem_def.1 found])

/-- A word that stands where terminators may be passed over. -/
theorem kind?_ne_of_pastTerminators {kind other : TokenKind}
    (word : s.pastTerminators.kind? = some kind) (ne : other ≠ kind)
    (visible : other ≠ .newline ∧ other ≠ .semicolon) : s.kind? ≠ some other := by
  intro here
  rw [ParseState.pastTerminators_eq (by simp [here, visible.1]) (by simp [here, visible.2]),
    here] at word
  exact ne (Option.some.inj word)

theorem kind?_ne_of_pastNewlines {kind other : TokenKind}
    (word : s.pastNewlines.kind? = some kind) (ne : other ≠ kind) (visible : other ≠ .newline) :
    s.kind? ≠ some other := by
  intro here
  rw [ParseState.pastNewlines_eq (by simp [here, visible]), here] at word
  exact ne (Option.some.inj word)

theorem signed_free {kind : TokenKind} {sign : NodeKind} {operand : Node} {whole : Option Span}
    {fields : List (String × Option Span)} (signs : argumentSign? (some kind) = some sign)
    (free : (Node.located sign [.node operand] whole fields).Free source true) :
    operand.Free source true := by
  refine free.of_isPlain ?_ operand (.head _)
  cases kind <;> cases signs <;> rfl

/-- What opens a clause is no `do`. -/
theorem kind?_ne_of_opened {opener : Option Token} {r : List Token}
    (eats : s.Eats .kwThen opener r) (opened : (s.leaving r).Opened opener) :
    s.kind? ≠ some .kwDo := by
  intro word
  cases eats with
  | some next => cases next.kind?_eq.symm.trans word
  | none =>
    obtain absent | newline | semicolon := opened
    · exact absent rfl
    · cases word.symm.trans newline
    · cases word.symm.trans semicolon

/-! ### The word `do` -/

/-- Where no block starts, none does in another nesting, if the next word is not one that may open a
block there only. -/
theorem blockClose?_under_eq_none (none : blockClose? s = none)
    (apart : n.inside = false → s.book.nesting.inside = true → s.kind? ≠ some .kwDo) :
    blockClose? (s.under n) = Option.none := by
  by_cases word : s.kind? = some .kwDo
  · unfold blockClose? at none ⊢
    rw [word] at none
    rw [show (s.under n).kind? = some .kwDo from word]
    dsimp only at none ⊢
    split at none
    · rename_i own
      exact if_pos (Bool.not_eq_false _ ▸ fun new => apart new own word)
    · cases none
  · unfold blockClose? at none ⊢
    rw [show (s.under n).kind? = s.kind? from rfl]
    split at none <;> simp_all

/-- Where a block starts, one does in another nesting, if the word `do` may open it there. -/
theorem blockClose?_under_eq_some {close : TokenKind} (closes : blockClose? s = some close)
    (opens : s.kind? = some .kwDo → s.book.nesting.inside = false → n.inside = false) :
    blockClose? (s.under n) = some close := by
  unfold blockClose? at closes ⊢
  rw [show (s.under n).kind? = s.kind? from rfl]
  split at closes
  · exact closes
  · rename_i word
    split at closes
    · cases closes
    · rename_i own
      have new := opens word (Bool.not_eq_true _ ▸ own)
      exact (if_neg (Bool.eq_false_iff.1 new)).trans closes
  · cases closes

theorem recordedCall_kind (context : Flags) (receiver : Option Node) (dot : Option Token)
    (selector : Token) (actuals : Actuals) :
    (recordedCall context receiver dot selector actuals).kind = .send := by
  rw [recordedCall_eq]
  rfl

end Grammar

end Conformance.Dialect
