import Conformance.Proofs.Adequacy
import Conformance.Proofs.Spots
import Mathlib.Data.List.Count

/-! What is refused of the sources that the grammar allows. A parse that reports a repeated name, a
repeated key or a class in a method came to a place where a second name, a second key or a class is
to be read; one that reports a numbered parameter came to a place where it is to be read. -/

namespace Conformance.Dialect

/-- The reasons of the rules that a tree could break. -/
def staticReasons : List Reason := [.duplicateVariableName, .duplicatePatternKey, .classInDef]

/-- A diagnostic says that a tree would break a rule. -/
def StaticReport (d : Diagnostic) : Prop := ∃ reason ∈ staticReasons, d.reason = reason.code

/-- The reasons why a source that the grammar allows is rejected: its tree would break a rule, or
has a numbered parameter in a block that declares parameters. -/
def semanticReasons : List Reason := .ordinaryParamDefined :: staticReasons

/-- A diagnostic says that a source is rejected which the grammar allows. -/
def SemanticReport (d : Diagnostic) : Prop := ∃ reason ∈ semanticReasons, d.reason = reason.code

theorem StaticReport.semantic {d : Diagnostic} : StaticReport d → SemanticReport d
  | ⟨reason, mem, same⟩ => ⟨reason, List.mem_cons_of_mem _ mem, same⟩

theorem Reason.code_injective {reason other : Reason} (same : reason.code = other.code) :
    reason = other := by
  have found := congrArg ofCode? same
  rw [ofCode?_code, ofCode?_code] at found
  exact Option.some.inj found

theorem not_semanticReport {reason : Reason} (other : reason ∉ semanticReasons)
    (arguments : Arguments) (location : Span) :
    ¬ SemanticReport (reason.diagnostic arguments location) := by
  rintro ⟨found, mem, same⟩
  rw [Reason.code_injective same] at other
  exact other mem

namespace Grammar

/-! ### Refusals -/

def repeatedName (name : String) (span : Span) : Diagnostic :=
  Reason.diagnostic .duplicateVariableName (.ofList [("name", name)]) span

def repeatedKey (name : String) (span : Span) : Diagnostic :=
  Reason.diagnostic .duplicatePatternKey (.ofList [("name", name)]) span

def classInMethod (span : Span) : Diagnostic := Reason.diagnostic .classInDef .empty span

def ordinaryParameter (span : Span) : Diagnostic :=
  Reason.diagnostic .ordinaryParamDefined .empty span

/-- The names from the start of a list on, with a comma after each of them. -/
inductive NamesUpTo (start : List Token) : List Token → List Token → Prop where
  | start : NamesUpTo start [] start
  | more {names rest : List Token} {name comma : Token} :
      NamesUpTo start names (name :: comma :: rest) → name.kind = .identifier →
      comma.kind = .comma → NamesUpTo start (names ++ [name]) rest

/-- The list of parameters of the block, lambda literal or method that is to be read at a place. -/
inductive Spot.OpensList (features : Features) : Spot → List Token → Prop where
  | block {call : Node} {s : ParseState} {around : Around} {close : TokenKind} {first bar : Token}
      {list : List Token} : blockClose? s = some close → s.rest = first :: bar :: list →
      bar.kind = .pipe → OpensList features ⟨.blockAfter call, s, around⟩ list
  | lambda {s : ParseState} {around : Around} {arrow paren : Token} {list : List Token} :
      features.lambda = true → s.rest = arrow :: paren :: list → arrow.kind = .arrow →
      paren.kind = .lparen → OpensList features ⟨.primary, s, around⟩ list
  | method {s : ParseState} {around : Around} {keyword name paren : Token} {list : List Token} :
      s.rest = keyword :: name :: paren :: list → keyword.kind = .kwDef →
      name.kind = .identifier → paren.kind = .lparen →
      OpensList features ⟨.primary, s, around⟩ list

/-- What may not be read at a place, and its report: a name or a key that is there once, or a class
in the body of a method. -/
inductive Spot.Refuses (features : Features) : Spot → Diagnostic → Prop where
  | parameter {spot : Spot} {list names rest : List Token} {name : Token} :
      spot.OpensList features list → NamesUpTo list names (name :: rest) →
      name.kind = .identifier → isStrict name.text = true →
      (names.map Token.text).count name.text = 1 →
      Refuses features spot (repeatedName name.text name.span)
  | binding {s : ParseState} {around : Around} {name : Token} {r : List Token} :
      s.Next .identifier name r → isStrict name.text = true → around.names.count name.text = 1 →
      Refuses features ⟨.of .pattern, s, around⟩ (repeatedName name.text name.span)
  | label {s : ParseState} {around : Around} {label : Token} :
      (∃ kind ∈ s.kind?, kind ∈ [TokenKind.comma, .rbrace, .newline]) →
      isStrict (keyOf label) = true → around.names.count (keyOf label) = 1 →
      Refuses features ⟨.entry label, s, around⟩ (repeatedName (keyOf label) (keySpan label))
  | key {s : ParseState} {around : Around} {label : Token} :
      around.keys.count (keyOf label) = 1 →
      Refuses features ⟨.entry label, s, around⟩ (repeatedKey (keyOf label) (keySpan label))
  | classDefinition {s : ParseState} {around : Around} {keyword : Token} {r : List Token} :
      s.Next .kwClass keyword r → around.inMethod = true →
      Refuses features ⟨.primary, s, around⟩ (classInMethod keyword.span)

/-- What may not be read at a place where the grammar allows it, and its report: what breaks a rule,
or a numbered parameter in a body with parameters of its own. -/
inductive Spot.Rejects (features : Features) : Spot → Diagnostic → Prop where
  | rule {spot : Spot} {d : Diagnostic} : spot.Refuses features d → Rejects features spot d
  | numbered {s : ParseState} {around : Around} {name : Token} {r : List Token} {number : Nat} :
      s.Next .identifier name r → ¬ (s.leaving r).Adjacent .lparen →
      numberedUse? features s.book name.text = some (number, true) →
      Rejects features ⟨.primary, s, around⟩ (ordinaryParameter name.span)

/-- What a rejection of a source that the grammar allows comes from: a place that is reached from
`spot` rejects what is reported. -/
def Spot.Explains (features : Features) (spot : Spot) (fault : ParseFault) (after : ParseState) :
    Prop :=
  ∀ message, fault = .rejected message → ∃ before d, after.emitted = before ++ [d] ∧
    (SemanticReport d → ∃ place, Relation.ReflTransGen (Enters features) spot place ∧
      place.Rejects features d)

/-- All that a step rejects though the grammar allows it is rejected at a place that is reached from
`spot`. -/
def Spot.Blames (spot : Spot) {α : Type} (step : Parse α) (setting : Setting) (s : ParseState) :
    Prop :=
  Parse.Ends step setting s (fun _ _ => True) (spot.Explains setting.features)

/-- What is rejected at a place is rejected at one that leads to it. -/
theorem Spot.Blames.enter {setting : Setting} {s : ParseState} {outer inner : Spot} {α : Type}
    {step : Parse α} (h : inner.Blames step setting s)
    (enters : Enters setting.features outer inner) : outer.Blames step setting s := by
  refine Parse.Ends.mono h (fun _ _ _ => trivial) fun fault after explains message is => ?_
  obtain ⟨before, d, emitted, blamed⟩ := explains message is
  refine ⟨before, d, emitted, fun semantic => ?_⟩
  obtain ⟨place, reached, rejects⟩ := blamed semantic
  exact ⟨place, .head enters reached, rejects⟩

end Grammar

open Grammar

namespace Parse

variable {α β : Type} {setting : Setting} {s : ParseState} {spot : Spot}

/-! ### Steps that reject nothing that the grammar allows -/

theorem blames_of_yields {step : Parse α} {value : α} {t : ParseState}
    (yields : Yields step setting s value t) : spot.Blames step setting s := by
  unfold Spot.Blames Ends
  rw [yields]
  trivial

theorem blames_pure {value : α} : spot.Blames (pure value) setting s := blames_of_yields rfl

theorem blames_throw {fault : ParseFault} (other : ∀ message, fault ≠ .rejected message) :
    spot.Blames (throw fault : Parse α) setting s := fun message is => absurd is (other message)

theorem blames_reject {reason : Reason} {arguments : Arguments} {location : Span}
    (refused : reason ∈ semanticReasons →
      spot.Rejects setting.features (reason.diagnostic arguments location)) :
    spot.Blames (reject reason arguments location : Parse α) setting s := by
  rintro _ ⟨⟩
  refine ⟨_, _, rfl, fun semantic => ⟨spot, .refl, refused ?_⟩⟩
  by_contra other
  exact not_semanticReport other _ _ semantic

theorem blames_unexpected : spot.Blames (unexpected : Parse α) setting s := by
  refine ends_unexpected.2 ?_
  rintro _ ⟨⟩
  exact ⟨_, _, rfl, fun semantic => absurd semantic (not_semanticReport (by decide) _ _)⟩

theorem blames_next : spot.Blames next setting s := by
  refine ends_next.2 ?_
  cases s.rest with
  | nil => exact blames_unexpected
  | cons => trivial

theorem blames_eat (kind : TokenKind) : spot.Blames (eat kind) setting s := by
  refine (ends_eat kind).2 ?_
  cases s.rest with
  | nil => trivial
  | cons =>
    dsimp only
    split <;> trivial

/-! ### Steps after one another -/

section Bind

variable {next : α → Parse β}

theorem blames_bind {step : Parse α} (first : spot.Blames step setting s)
    (later : ∀ value t, Yields step setting s value t → spot.Blames (next value) setting t) :
    spot.Blames (step >>= next) setting s := by
  refine ends_bind.2 ?_
  unfold Spot.Blames Ends at first
  unfold Ends
  cases ended : step setting s with
  | ok value t => exact later value t ended
  | error fault t =>
    rw [ended] at first
    exact first

/-- Nothing comes after a rejection. -/
theorem blames_reject_bind {reason : Reason} {arguments : Arguments} {location : Span}
    (refused : reason ∈ semanticReasons →
      spot.Rejects setting.features (reason.diagnostic arguments location)) :
    spot.Blames (reject reason arguments location >>= next) setting s :=
  blames_bind (blames_reject refused) nofun

theorem blames_unless_unexpected {c : Prop} [Decidable c] {step : Parse β}
    (later : ¬ c → spot.Blames step setting s) :
    spot.Blames (if c then unexpected >>= next else step) setting s := by
  split
  · exact blames_bind blames_unexpected fun _ _ none => absurd none not_yields_unexpected
  · exact later ‹_›

theorem blames_unless_rejected {c : Prop} [Decidable c] {reason : Reason} {arguments : Arguments}
    {location : Span} {step : Parse β}
    (refused : c → reason ∈ semanticReasons →
      spot.Rejects setting.features (reason.diagnostic arguments location))
    (later : ¬ c → spot.Blames step setting s) :
    spot.Blames (if c then reject reason arguments location >>= next else step) setting s := by
  split
  · exact blames_reject_bind (refused ‹_›)
  · exact later ‹_›

theorem blames_within_bind {changes : List (Flag × Bool)} {step : Parse α}
    (inside : spot.Blames step setting (s.flagged changes))
    (later : ∀ value after, Yields step setting (s.flagged changes) value after →
      spot.Blames (next value) setting (after.restoring s.book.context)) :
    spot.Blames (within changes step >>= next) setting s := by
  refine blames_bind ((ends_within changes step).2 ?_) fun value t yields => ?_
  · exact Ends.mono inside (fun _ _ _ => trivial) fun _ _ explained => explained
  · obtain ⟨after, flagged, rfl⟩ := yields_within.1 yields
    exact later value after flagged

end Bind

section Tokens

variable {kind : TokenKind}

theorem blames_next_bind {after : Token → Parse β}
    (later : ∀ token rest, s.rest = token :: rest →
      spot.Blames (after token) setting (s.leaving rest)) :
    spot.Blames (next >>= after) setting s := by
  refine blames_bind blames_next fun token t read => ?_
  obtain ⟨rest, eq, rfl⟩ := yields_next.1 read
  exact later token rest eq

/-- The next token, whose kind is known. -/
theorem blames_next_bind_of_kind (first : s.kind? = some kind) {after : Token → Parse β}
    (later : ∀ token rest, s.Next kind token rest →
      spot.Blames (after token) setting (s.leaving rest)) :
    spot.Blames (next >>= after) setting s := by
  refine blames_next_bind fun token rest eq => later token rest ⟨eq, ?_⟩
  simpa [ParseState.kind?, eq] using first

theorem blames_eat_bind {after : Option Token → Parse β}
    (later : ∀ found rest, s.Eats kind found rest →
      spot.Blames (after found) setting (s.leaving rest)) :
    spot.Blames (eat kind >>= after) setting s := by
  refine blames_bind (blames_eat kind) fun found t read => ?_
  obtain ⟨rest, eats, rfl⟩ := yields_eat.1 read
  exact later found rest eats

theorem blames_expect_bind {after : Token → Parse β}
    (later : ∀ token rest, s.Next kind token rest →
      spot.Blames (after token) setting (s.leaving rest)) :
    spot.Blames (expect kind >>= after) setting s := by
  refine blames_bind ?_ fun token t read => ?_
  · refine blames_bind (blames_eat kind) fun found t _ => ?_
    cases found with
    | none => exact blames_unexpected
    | some token => exact blames_pure
  · obtain ⟨rest, next, rfl⟩ := yields_expect.1 read
    exact later token rest next

end Tokens

/-! ### Steps that look, or change something -/

section Looks

theorem blames_peek_bind {next : Option Token → Parse β} :
    spot.Blames (peek >>= next) setting s ↔ spot.Blames (next s.rest.head?) setting s := Iff.rfl

theorem blames_peekKind_bind {next : Option TokenKind → Parse β} :
    spot.Blames (peekKind >>= next) setting s ↔ spot.Blames (next s.kind?) setting s := Iff.rfl

theorem blames_peekSecond_bind {next : Option Token → Parse β} :
    spot.Blames (peekSecond >>= next) setting s ↔
      spot.Blames (next s.rest.tail.head?) setting s := Iff.rfl

theorem blames_at?_bind {kind : TokenKind} {next : Bool → Parse β} :
    spot.Blames (at? kind >>= next) setting s ↔
      spot.Blames (next (s.kind? == some kind)) setting s := Iff.rfl

theorem blames_adjacent?_bind {kind : TokenKind} {next : Bool → Parse β} :
    spot.Blames (adjacent? kind >>= next) setting s ↔
      spot.Blames (next (s.rest.head?.any fun token => token.kind == kind && !token.spaced))
        setting s := Iff.rfl

theorem blames_get_bind {next : ParseState → Parse β} :
    spot.Blames (get >>= next) setting s ↔ spot.Blames (next s) setting s := Iff.rfl

theorem blames_books_bind {next : Bookkeeping → Parse β} :
    spot.Blames (books >>= next) setting s ↔ spot.Blames (next s.book) setting s := Iff.rfl

theorem blames_features_bind {next : Features → Parse β} :
    spot.Blames (features >>= next) setting s ↔ spot.Blames (next setting.features) setting s :=
  Iff.rfl

theorem blames_keep_bind {change : Bookkeeping → Bookkeeping} {next : Unit → Parse β} :
    spot.Blames (keep change >>= next) setting s ↔
      spot.Blames (next ()) setting (s.keeping change) := Iff.rfl

theorem blames_nest_bind {change : Nesting → Nesting} {next : Unit → Parse β} :
    spot.Blames (nest change >>= next) setting s ↔
      spot.Blames (next ()) setting (s.nested change) := Iff.rfl

theorem blames_advance_bind {next : Unit → Parse β} :
    spot.Blames (advance >>= next) setting s ↔
      spot.Blames (next ()) setting (s.leaving s.rest.tail) := Iff.rfl

theorem blames_skipNewlines_bind {next : Unit → Parse β} :
    spot.Blames (skipNewlines >>= next) setting s ↔
      spot.Blames (next ()) setting s.pastNewlines := Iff.rfl

theorem blames_skipTerminators_bind {next : Unit → Parse β} :
    spot.Blames (skipTerminators >>= next) setting s ↔
      spot.Blames (next ()) setting s.pastTerminators := Iff.rfl

theorem blames_openBody_bind {next : Unit → Parse β} :
    spot.Blames (openBody >>= next) setting s ↔
      spot.Blames (next ()) setting
        (((s.nested .saveStacks).keeping (·.openScope false)).keeping (·.openNumbering .closed)) :=
  Iff.rfl

theorem blames_opened_bind {opener : Option Token} {step : Parse β}
    (later : s.Opened opener → spot.Blames step setting s) :
    spot.Blames
      (atTerminator? >>= fun closed =>
        if (opener.isNone && !closed) = true then unexpected >>= fun _ : Unit => step else step)
      setting s := by
  show spot.Blames (if (opener.isNone && !(s.kind? == some .newline ||
    s.kind? == some .semicolon)) = true then unexpected >>= fun _ : Unit => step else step)
    setting s
  refine blames_unless_unexpected fun closed => later ?_
  cases opener <;> simp_all [ParseState.Opened, Decidable.or_iff_not_imp_left]

end Looks

end Parse

end Conformance.Dialect
