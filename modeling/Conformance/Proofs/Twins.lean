import Conformance.Proofs.Nodes
import Mathlib.Data.List.Forall2

/-! Two runs of a step, from states that differ only in where tokens and diagnostics stand. `Twins`
says that both end in the same way. Every primitive step does, and steps after one another do if
each of them does. -/

namespace Conformance

/-! ### What is left without places -/

/-- A diagnostic without its places. -/
def Diagnostic.content (d : Diagnostic) : Level × String × Arguments × String :=
  (d.level, d.reason, d.arguments, d.message)

namespace Dialect

/-- A token without its place. -/
def Token.content (token : Token) : TokenKind × String × Bool :=
  (token.kind, token.text, token.spaced)


/-- Tokens that differ only in where they stand. -/
inductive Token.Alike : Token → Token → Prop where
  | intro (kind : TokenKind) (text : String) (spaced : Bool) (span span' : Span) :
      Token.Alike ⟨kind, span, text, spaced⟩ ⟨kind, span', text, spaced⟩

theorem Token.alike_of_content {token token' : Token} (h : token.content = token'.content) :
    token.Alike token' := by
  obtain ⟨kind, span, text, spaced⟩ := token
  obtain ⟨kind', span', text', spaced'⟩ := token'
  cases h
  exact .intro kind text spaced span span'

theorem tokens_alike {tokens tokens' : List Token}
    (h : tokens.map Token.content = tokens'.map Token.content) :
    List.Forall₂ Token.Alike tokens tokens' := by
  rw [← List.forall₂_eq_eq_eq, List.forall₂_map_left_iff, List.forall₂_map_right_iff] at h
  exact h.imp fun _ _ => Token.alike_of_content

namespace Node

mutual

/-- A tree without the places of its nodes; the flags that calls of the probe recorded are left. -/
def unplaced : Node → Node
  | .mk kind children _ context => .mk kind (unplacedChildren children) none context

def unplacedChildren : List Child → List Child
  | [] => []
  | child :: more => unplacedChild child :: unplacedChildren more

def unplacedChild : Child → Child
  | .node node => .node (unplaced node)
  | child => child

end

theorem unplacedChildren_eq (children : List Child) :
    unplacedChildren children = children.map unplacedChild := by
  induction children with
  | nil => rfl
  | cons child more ih => rw [unplacedChildren, ih, List.map_cons]

@[simp] theorem unplaced_mk (kind : NodeKind) (children : List Child)
    (location : Option Location) (context : Option Flags) :
    (mk kind children location context).unplaced =
      .mk kind (children.map unplacedChild) none context := by
  rw [unplaced, unplacedChildren_eq]

@[simp] theorem unplacedChild_node (node : Node) :
    unplacedChild (.node node) = .node node.unplaced := rfl

@[simp] theorem unplacedChild_sym (name : String) : unplacedChild (.sym name) = .sym name := rfl

@[simp] theorem unplacedChild_nil : unplacedChild .nil = .nil := rfl

@[simp] theorem unplacedChild_ofOption (found : Option Node) :
    unplacedChild (.ofOption found) = .ofOption (found.map unplaced) := by
  cases found <;> rfl

@[simp] theorem unplacedChild_comp_node :
    unplacedChild ∘ Child.node = Child.node ∘ unplaced := rfl

/-- Trees that differ only in where their nodes stand. -/
def Alike (node node' : Node) : Prop := node.unplaced = node'.unplaced

theorem located_alike {kind : NodeKind} {children children' : List Child}
    {whole whole' : Option Span} {fields fields' : List (String × Option Span)}
    (same : children.map unplacedChild = children'.map unplacedChild) :
    (located kind children whole fields).Alike (located kind children' whole' fields') := by
  rw [Alike, located, located, unplaced_mk, unplaced_mk, same]

end Node

/-- Lists of trees that differ only in where their nodes stand. -/
def NodesAlike (nodes nodes' : List Node) : Prop :=
  nodes.map Node.unplaced = nodes'.map Node.unplaced

theorem NodesAlike.cons {node node' : Node} {more more' : List Node} (first : node.Alike node')
    (others : NodesAlike more more') : NodesAlike (node :: more) (node' :: more') := by
  rw [NodesAlike, List.map_cons, List.map_cons, first, others]

/-- States that differ only in where tokens and diagnostics stand. -/
structure ParseState.Alike (s t : ParseState) : Prop where
  tokens : List.Forall₂ Token.Alike s.rest t.rest
  book : s.book = t.book
  emitted : s.emitted.map Diagnostic.content = t.emitted.map Diagnostic.content

namespace ParseState.Alike

variable {s t : ParseState}

theorem keeping (alike : s.Alike t) (change : Bookkeeping → Bookkeeping) :
    (s.keeping change).Alike (t.keeping change) :=
  ⟨alike.tokens, congrArg change alike.book, alike.emitted⟩

theorem leaving (alike : s.Alike t) {rest rest' : List Token}
    (tokens : List.Forall₂ Token.Alike rest rest') : (s.leaving rest).Alike (t.leaving rest') :=
  ⟨tokens, alike.book, alike.emitted⟩

theorem reporting (alike : s.Alike t) {d d' : Diagnostic} (same : d.content = d'.content) :
    (s.reporting d).Alike (t.reporting d') := by
  refine ⟨alike.tokens, alike.book, ?_⟩
  rw [reporting_emitted, reporting_emitted, List.map_append, List.map_append, alike.emitted,
    List.map_singleton, List.map_singleton, same]

theorem head (alike : s.Alike t) : Option.Rel Token.Alike s.rest.head? t.rest.head? := by
  have tokens := alike.tokens
  revert tokens
  generalize s.rest = tokens, t.rest = tokens'
  rintro (_ | ⟨first, -⟩)
  · exact .none
  · exact .some first

theorem tail (alike : s.Alike t) : List.Forall₂ Token.Alike s.rest.tail t.rest.tail := by
  have tokens := alike.tokens
  revert tokens
  generalize s.rest = tokens, t.rest = tokens'
  rintro (_ | ⟨-, others⟩)
  · exact .nil
  · exact others

theorem dropWhile (alike : s.Alike t) (p : TokenKind → Bool) :
    List.Forall₂ Token.Alike (s.rest.dropWhile fun token => p token.kind)
      (t.rest.dropWhile fun token => p token.kind) := by
  have tokens := alike.tokens
  generalize s.rest = tokens, t.rest = tokens' at tokens ⊢
  induction tokens with
  | nil => exact .nil
  | cons first others ih =>
    obtain ⟨kind, text, spaced, span, span'⟩ := first
    rw [List.dropWhile_cons, List.dropWhile_cons]
    dsimp only
    split
    · exact ih
    · exact .cons (.intro kind text spaced span span') others

end ParseState.Alike

/-! ### Steps -/

namespace Parse

variable {α β γ δ : Type}

/-- Two ends that differ only in places, with values that `R` relates. -/
inductive EndAlike (R : α → β → Prop) : EStateM.Result ParseFault ParseState α →
    EStateM.Result ParseFault ParseState β → Prop where
  | ok {value : α} {value' : β} {s t : ParseState} (related : R value value')
      (alike : s.Alike t) : EndAlike R (.ok value s) (.ok value' t)
  | error (fault : ParseFault) {s t : ParseState} (alike : s.Alike t) :
      EndAlike R (.error fault s) (.error fault t)

/-- From states that differ only in places, and with sources of any length, two steps end in the
same way. -/
def Twins (step : Parse α) (step' : Parse β) (R : α → β → Prop) : Prop :=
  ∀ (features : Features) (finish finish' : Span) (s t : ParseState), s.Alike t →
    EndAlike R (step ⟨features, finish⟩ s) (step' ⟨features, finish'⟩ t)

namespace Twins

variable {R : α → β → Prop} {S : γ → δ → Prop} {step : Parse α} {step' : Parse β}

theorem bind {next : α → Parse γ} {next' : β → Parse δ} (h : Twins step step' R)
    (hn : ∀ value value', R value value' → Twins (next value) (next' value') S) :
    Twins (step >>= next) (step' >>= next') S := by
  intro features finish finish' s t alike
  show EndAlike S
    (EStateM.bind (step ⟨features, finish⟩) (fun value => next value ⟨features, finish⟩) s)
    (EStateM.bind (step' ⟨features, finish'⟩) (fun value => next' value ⟨features, finish'⟩) t)
  unfold EStateM.bind
  have first := h features finish finish' s t alike
  generalize step ⟨features, finish⟩ s = found at first
  generalize step' ⟨features, finish'⟩ t = found' at first
  cases first with
  | ok related alike => exact hn _ _ related features finish finish' _ _ alike
  | error fault alike => exact .error fault alike

/-- After a step that gives nothing. -/
theorem seq {first first' : Parse Unit} {next : Parse α} {next' : Parse β}
    (h : Twins first first' fun _ _ => True) (hn : Twins next next' R) :
    Twins (first >>= fun _ => next) (first' >>= fun _ => next') R :=
  h.bind fun _ _ _ => hn

/-- After a step that gives the same to both. -/
theorem same {first first' : Parse γ} {next : γ → Parse α} {next' : γ → Parse β}
    (h : Twins first first' Eq) (hn : ∀ value, Twins (next value) (next' value) R) :
    Twins (first >>= next) (first' >>= next') R := by
  refine h.bind ?_
  rintro value _ rfl
  exact hn value

theorem pure {value : α} {value' : β} (related : R value value') :
    Twins (Pure.pure value) (Pure.pure value') R :=
  fun _ _ _ _ _ alike => .ok related alike

theorem throw (fault : ParseFault) :
    Twins (MonadExcept.throw fault : Parse α) (MonadExcept.throw fault : Parse β) R :=
  fun _ _ _ _ _ alike => .error fault alike

theorem ite {c : Prop} [Decidable c] {other : Parse α} {other' : Parse β}
    (h : c → Twins step step' R) (h' : ¬ c → Twins other other' R) :
    Twins (if c then step else other) (if c then step' else other') R := by
  split
  · exact h ‹c›
  · exact h' ‹¬ c›

end Twins

/-! ### Primitive steps -/

section Primitives

variable {R : α → β → Prop}

theorem get_twins : Twins get get ParseState.Alike := fun _ _ _ _ _ alike => .ok alike alike

theorem books_twins : Twins books books Eq := fun _ _ _ _ _ alike => .ok alike.book alike

theorem features_twins : Twins features features Eq := fun _ _ _ _ _ alike => .ok rfl alike

theorem keep_twins (change : Bookkeeping → Bookkeeping) :
    Twins (keep change) (keep change) fun _ _ => True :=
  fun _ _ _ _ _ alike => .ok trivial (alike.keeping change)

theorem nest_twins (change : Nesting → Nesting) :
    Twins (nest change) (nest change) fun _ _ => True := keep_twins _

theorem emit_twins {d d' : Diagnostic} (same : d.content = d'.content) :
    Twins (emit d) (emit d') fun _ _ => True :=
  fun _ _ _ _ _ alike => .ok trivial (alike.reporting same)

theorem reject_twins (reason : Reason) (arguments : Arguments) (location location' : Span) :
    Twins (reject reason arguments location : Parse α)
      (reject reason arguments location' : Parse β) R :=
  fun _ _ _ _ _ alike => .error _ (alike.reporting rfl)

/-- Nothing comes after a rejection. -/
theorem reject_bind_twins {next : γ → Parse α} {next' : δ → Parse β} (reason : Reason)
    (arguments : Arguments) (location location' : Span) :
    Twins (reject reason arguments location >>= next) (reject reason arguments location' >>= next')
      R :=
  Twins.bind (reject_twins reason arguments location location') fun _ _ (none : False) => none.elim

theorem peek_twins : Twins peek peek (Option.Rel Token.Alike) :=
  fun _ _ _ _ _ alike => .ok alike.head alike

theorem peekSecond_twins : Twins peekSecond peekSecond (Option.Rel Token.Alike) :=
  fun _ _ _ _ _ alike => .ok (ParseState.Alike.head (alike.leaving alike.tail)) alike

theorem peekKind_twins : Twins peekKind peekKind Eq := by
  refine peek_twins.bind ?_
  rintro _ _ (⟨⟨⟩⟩ | _)
  · exact .pure rfl
  · exact .pure rfl

theorem at?_twins (kind : TokenKind) : Twins (at? kind) (at? kind) Eq :=
  peekKind_twins.same fun _ => .pure rfl

theorem adjacent?_twins (kind : TokenKind) : Twins (adjacent? kind) (adjacent? kind) Eq := by
  refine peek_twins.bind ?_
  rintro _ _ (⟨⟨⟩⟩ | _)
  · exact .pure rfl
  · exact .pure rfl

theorem atTerminator?_twins : Twins atTerminator? atTerminator? Eq :=
  peekKind_twins.same fun _ => peekKind_twins.same fun _ => .pure rfl

theorem unexpected_twins : Twins (unexpected : Parse α) (unexpected : Parse β) R := by
  refine peek_twins.bind ?_
  rintro _ _ (⟨⟨⟩⟩ | _)
  · exact reject_twins _ _ _ _
  · exact fun _ _ _ _ _ alike => .error _ (alike.reporting rfl)

theorem unexpected_bind_twins {next : γ → Parse α} {next' : δ → Parse β} :
    Twins (unexpected >>= next) (unexpected >>= next') R :=
  Twins.bind unexpected_twins fun _ _ (none : False) => none.elim

theorem advance_twins : Twins advance advance fun _ _ => True :=
  fun _ _ _ _ _ alike => .ok trivial (alike.leaving alike.tail)

theorem next_twins : Twins next next Token.Alike := by
  refine peek_twins.bind ?_
  rintro _ _ (related | _)
  · exact advance_twins.seq (.pure related)
  · exact unexpected_twins

theorem eat_twins (kind : TokenKind) :
    Twins (eat kind) (eat kind) (Option.Rel Token.Alike) := by
  refine peek_twins.bind ?_
  rintro _ _ (⟨⟨⟩⟩ | _)
  · exact .ite (fun _ => advance_twins.seq (.pure (.some (.intro _ _ _ _ _))))
      fun _ => .pure .none
  · exact .pure .none

theorem expect_twins (kind : TokenKind) : Twins (expect kind) (expect kind) Token.Alike := by
  refine (eat_twins kind).bind ?_
  rintro _ _ (related | _)
  · exact .pure related
  · exact unexpected_twins

theorem skipWhile_twins (p : TokenKind → Bool) :
    Twins (skipWhile p) (skipWhile p) fun _ _ => True :=
  fun _ _ _ _ _ alike => .ok trivial (alike.leaving (alike.dropWhile p))

theorem skipNewlines_twins : Twins skipNewlines skipNewlines fun _ _ => True := skipWhile_twins _

theorem skipTerminators_twins : Twins skipTerminators skipTerminators fun _ _ => True :=
  skipWhile_twins _

theorem within_error {changes : List (Flag × Bool)} {step : Parse α} {setting : Setting}
    {s after : ParseState} {fault : ParseFault}
    (failed : step setting (s.flagged changes) = .error fault after) :
    within changes step setting s = .error fault (after.restoring s.book.context) := by
  have raw : step setting { s with
      book := { s.book with context := s.book.context.setAll changes } } = .error fault after :=
    failed
  unfold within
  dsimp only
  rw [raw]
  rfl

theorem Twins.within {step : Parse α} {step' : Parse β} (h : Twins step step' R)
    (changes : List (Flag × Bool)) : Twins (within changes step) (within changes step') R := by
  intro features finish finish' s t alike
  have same : t.book.context = s.book.context := congrArg Bookkeeping.context alike.book.symm
  have inside := h features finish finish' (s.flagged changes) (t.flagged changes)
    (alike.keeping fun book => { book with context := book.context.setAll changes })
  generalize found : step ⟨features, finish⟩ (s.flagged changes) = result at inside
  generalize found' : step' ⟨features, finish'⟩ (t.flagged changes) = result' at inside
  cases inside with
  | ok related alike =>
    have ended : Yields _ ⟨features, finish⟩ s _ _ := yields_within.2 ⟨_, found, rfl⟩
    have ended' : Yields _ ⟨features, finish'⟩ t _ _ := yields_within.2 ⟨_, found', rfl⟩
    rw [ended, ended', same]
    exact .ok related (alike.keeping _)
  | error fault alike =>
    rw [within_error found, within_error found', same]
    exact .error fault (alike.keeping _)

end Primitives

end Parse

end Dialect

end Conformance
