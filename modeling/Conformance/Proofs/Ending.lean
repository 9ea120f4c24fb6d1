import Conformance.Dialect.Grammar.Call

/-! How a parsing step ends: `Ends` says it of one state, with a condition for a value and one for a
fault. Each primitive step has an equation, and a step after another ends as `ends_bind` says. -/

namespace Conformance.Dialect.Parse

variable {α β : Type}

/-- From `state`, a step ends in a value and a state that satisfy `Q`, or in a fault and a state
that satisfy `E`. -/
def Ends (step : Parse α) (setting : Setting) (state : ParseState)
    (Q : α → ParseState → Prop) (E : ParseFault → ParseState → Prop) : Prop :=
  match step setting state with
  | .ok value state => Q value state
  | .error fault state => E fault state

variable {setting : Setting} {state : ParseState} {Q : α → ParseState → Prop}
  {E : ParseFault → ParseState → Prop}

theorem ends_bind {step : Parse α} {next : α → Parse β} {Q : β → ParseState → Prop} :
    Ends (step >>= next) setting state Q E ↔
      Ends step setting state (fun value state => Ends (next value) setting state Q E) E := by
  show (match EStateM.bind (step setting) (fun value => next value setting) state with
    | .ok value state => Q value state
    | .error fault state => E fault state) ↔ _
  unfold EStateM.bind Ends
  cases step setting state with
  | ok value state => rfl
  | error fault state => rfl

theorem Ends.mono {step : Parse α} {Q' : α → ParseState → Prop}
    {E' : ParseFault → ParseState → Prop} (h : Ends step setting state Q E)
    (hQ : ∀ value state, Q value state → Q' value state)
    (hE : ∀ fault state, E fault state → E' fault state) :
    Ends step setting state Q' E' := by
  unfold Ends at h ⊢
  cases hr : step setting state with
  | ok value after =>
    rw [hr] at h
    exact hQ value after h
  | error fault after =>
    rw [hr] at h
    exact hE fault after h

/-- A step after another, from what the first one is known to end in. -/
theorem Ends.bind {step : Parse α} {next : α → Parse β} {Q : β → ParseState → Prop}
    {R : α → ParseState → Prop} (h : Ends step setting state R E)
    (hn : ∀ value state, R value state → Ends (next value) setting state Q E) :
    Ends (step >>= next) setting state Q E :=
  ends_bind.2 (h.mono hn fun _ _ hE => hE)

@[simp] theorem ends_pure (value : α) : Ends (pure value) setting state Q E ↔ Q value state :=
  Iff.rfl

@[simp] theorem ends_throw (fault : ParseFault) :
    Ends (throw fault : Parse α) setting state Q E ↔ E fault state := Iff.rfl

@[simp] theorem ends_get {Q : ParseState → ParseState → Prop} :
    Ends get setting state Q E ↔ Q state state := Iff.rfl

@[simp] theorem ends_keep (change : Bookkeeping → Bookkeeping) {Q : Unit → ParseState → Prop} :
    Ends (keep change) setting state Q E ↔ Q () { state with book := change state.book } := Iff.rfl

@[simp] theorem ends_nest (change : Nesting → Nesting) {Q : Unit → ParseState → Prop} :
    Ends (nest change) setting state Q E ↔
      Q () { state with
        book := { state.book with nesting := change state.book.nesting } } := Iff.rfl

@[simp] theorem ends_books {Q : Bookkeeping → ParseState → Prop} :
    Ends books setting state Q E ↔ Q state.book state := Iff.rfl

@[simp] theorem ends_features {Q : Features → ParseState → Prop} :
    Ends features setting state Q E ↔ Q setting.features state := Iff.rfl

@[simp] theorem ends_emit (diagnostic : Diagnostic) {Q : Unit → ParseState → Prop} :
    Ends (emit diagnostic) setting state Q E ↔
      Q () { state with emitted := state.emitted ++ [diagnostic] } := Iff.rfl

@[simp] theorem ends_reject (reason : Reason) (arguments : Arguments) (location : Span) :
    Ends (reject reason arguments location : Parse α) setting state Q E ↔
      E (.rejected (reason.diagnostic arguments location).message)
        { state with
          emitted := state.emitted ++ [reason.diagnostic arguments location] } := Iff.rfl

@[simp] theorem ends_peek {Q : Option Token → ParseState → Prop} :
    Ends peek setting state Q E ↔ Q state.rest.head? state := Iff.rfl

@[simp] theorem ends_peekKind {Q : Option TokenKind → ParseState → Prop} :
    Ends peekKind setting state Q E ↔ Q (state.rest.head?.map Token.kind) state := Iff.rfl

@[simp] theorem ends_peekSecond {Q : Option Token → ParseState → Prop} :
    Ends peekSecond setting state Q E ↔ Q state.rest.tail.head? state := Iff.rfl

@[simp] theorem ends_at? (kind : TokenKind) {Q : Bool → ParseState → Prop} :
    Ends (at? kind) setting state Q E ↔
      Q (state.rest.head?.map Token.kind == some kind) state := Iff.rfl

@[simp] theorem ends_adjacent? (kind : TokenKind) {Q : Bool → ParseState → Prop} :
    Ends (adjacent? kind) setting state Q E ↔
      Q (state.rest.head?.any fun token => token.kind == kind && !token.spaced) state := Iff.rfl

@[simp] theorem ends_advance {Q : Unit → ParseState → Prop} :
    Ends advance setting state Q E ↔ Q () { state with rest := state.rest.tail } := Iff.rfl

@[simp] theorem ends_skipWhile (p : TokenKind → Bool) {Q : Unit → ParseState → Prop} :
    Ends (skipWhile p) setting state Q E ↔
      Q () { state with rest := state.rest.dropWhile fun token => p token.kind } := Iff.rfl

/-- The name and the place of the next token in a report that it is unexpected. -/
def unexpectedHere (finish : Span) : List Token → String × Span
  | [] => ("$end", finish)
  | token :: _ => (token.kind.describe, token.span)

/-- The report that the next token is unexpected. -/
def unexpectedReport (finish : Span) (tokens : List Token) : Diagnostic :=
  Reason.unexpectedToken.diagnostic
    (.ofList [("token", (unexpectedHere finish tokens).1)]) (unexpectedHere finish tokens).2

@[simp] theorem ends_unexpected :
    Ends (unexpected : Parse α) setting state Q E ↔
      E (.rejected (unexpectedReport setting.finish state.rest).message)
        { state with
          emitted := state.emitted ++ [unexpectedReport setting.finish state.rest] } := by
  obtain ⟨rest, book, emitted⟩ := state
  cases rest with
  | nil => rfl
  | cons token rest => rfl

theorem ends_next {Q : Token → ParseState → Prop} :
    Ends next setting state Q E ↔
      match state.rest with
      | [] => Ends (unexpected : Parse Token) setting state Q E
      | token :: rest => Q token { state with rest } := by
  obtain ⟨rest, book, emitted⟩ := state
  cases rest with
  | nil => rfl
  | cons token rest => rfl

theorem ends_eat (kind : TokenKind) {Q : Option Token → ParseState → Prop} :
    Ends (eat kind) setting state Q E ↔
      match state.rest with
      | [] => Q none state
      | token :: rest =>
        if token.kind = kind then Q (some token) { state with rest } else Q none state := by
  obtain ⟨rest, book, emitted⟩ := state
  cases rest with
  | nil => rfl
  | cons token rest =>
    by_cases h : token.kind = kind
    · simp only [if_pos h]
      unfold eat
      rw [ends_bind]
      simp only [ends_peek, List.head?_cons, if_pos h]
      rfl
    · simp only [if_neg h]
      unfold eat
      rw [ends_bind]
      simp only [ends_peek, List.head?_cons, if_neg h]
      rfl

theorem ends_expect (kind : TokenKind) {Q : Token → ParseState → Prop} :
    Ends (expect kind) setting state Q E ↔
      Ends (eat kind) setting state
        (fun found state =>
          match found with
          | some token => Q token state
          | none => Ends (unexpected : Parse Token) setting state Q E) E := by
  unfold expect
  rw [ends_bind]
  constructor
  · intro h
    refine h.mono (fun found state hf => ?_) fun _ _ hE => hE
    cases found <;> exact hf
  · intro h
    refine h.mono (fun found state hf => ?_) fun _ _ hE => hE
    cases found <;> exact hf

/-- A step with flags changed ends as the step does, and then the flags are as before. -/
theorem ends_within (changes : List (Flag × Bool)) (step : Parse α) :
    Ends (within changes step) setting state Q E ↔
      Ends step setting
        { state with
          book := { state.book with context := state.book.context.setAll changes } }
        (fun value after =>
          Q value { after with book := { after.book with context := state.book.context } })
        (fun fault after =>
          E fault { after with book := { after.book with context := state.book.context } }) := by
  unfold Ends within
  simp only
  cases step setting
      { state with
        book := { state.book with context := state.book.context.setAll changes } } with
  | ok value after => rfl
  | error fault after => rfl

/-! ### Steps that only look -/

/-- A step that only looks: it changes nothing and has no fault. -/
def Looks (step : Parse α) : Prop :=
  ∀ setting state, Ends step setting state (fun _ after => after = state) fun _ _ => False

theorem peek_looks : Looks peek := fun _ _ => rfl

theorem peekKind_looks : Looks peekKind := fun _ _ => rfl

theorem peekSecond_looks : Looks peekSecond := fun _ _ => rfl

theorem at?_looks (kind : TokenKind) : Looks (at? kind) := fun _ _ => rfl

theorem adjacent?_looks (kind : TokenKind) : Looks (adjacent? kind) := fun _ _ => rfl

theorem atTerminator?_looks : Looks atTerminator? := fun _ _ => rfl

theorem get_looks : Looks (get : Parse ParseState) := fun _ _ => rfl

theorem features_looks : Looks features := fun _ _ => rfl

theorem books_looks : Looks books := fun _ _ => rfl

theorem startsCommand?_looks : Looks Grammar.startsCommand? := by
  intro setting state
  refine ends_bind.2 (ends_peek.2 ?_)
  cases state.rest.head? with
  | none => rfl
  | some token =>
    dsimp only
    split
    · rfl
    · split
      · rfl
      · split
        · rfl
        · split
          · rfl
          · rfl

end Conformance.Dialect.Parse
