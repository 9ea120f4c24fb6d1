import Conformance.Proofs.Ending

/-! The outline of what a parser keeps: the nesting, the flags, and the sizes of the other stacks.
`Leads` says to which outline a step leads from a given one, and `LeftOpen` how far the outline at a
fault may be from the one at the start of a construct. -/

namespace Conformance.Dialect

/-- The nesting and the flags, and how many entries the other stacks have. -/
structure Outline where
  nesting : Nesting
  context : Flags
  scopes : Nat
  numbering : Nat
  parameters : Nat
  patternVariables : Nat
  patternKeys : Nat

def Bookkeeping.outline (book : Bookkeeping) : Outline where
  nesting := book.nesting
  context := book.context
  scopes := book.scopes.length
  numbering := book.numbering.length
  parameters := book.parameters.length
  patternVariables := book.patternVariables.length
  patternKeys := book.patternKeys.length

namespace Bookkeeping

theorem outline_declare (book : Bookkeeping) (name : String) :
    (book.declare name).outline = book.outline := by
  unfold declare
  split
  · rfl
  · rename_i h
    simp [outline, h]

theorem outline_useNumber (book : Bookkeeping) (number : Nat) :
    (book.useNumber number).outline = book.outline := by
  unfold useNumber
  split
  · rename_i h
    simp [outline, h]
  · rfl

theorem outline_closeScope (book : Bookkeeping) :
    book.closeScope.outline = { book.outline with scopes := book.outline.scopes - 1 } := by
  simp [outline, closeScope]

theorem outline_closeNumbering (book : Bookkeeping) :
    book.closeNumbering.outline =
      { book.outline with numbering := book.outline.numbering - 1 } := by
  simp [outline, closeNumbering]

theorem length_enter? {name : String} {sets sets' : List (List String)}
    (h : enter? name sets = some sets') : sets'.length = sets.length := by
  unfold enter? at h
  split at h
  · cases h
    rfl
  · split at h
    · cases h
    · cases h
      rfl

/-- An outline shows nothing open exactly when the snapshot does. -/
theorem snapshot_eq_idle {book : Bookkeeping}
    (h : book.outline = empty.outline) : book.snapshot = .idle := by
  obtain ⟨nesting, context, scopes, numbering, parameters, names, keys⟩ := book
  simp only [outline, empty, Outline.mk.injEq, List.length_nil] at h
  obtain ⟨rfl, rfl, h1, h2, h3, h4, h5⟩ := h
  simp only [snapshot, h1, h2, h3, h4, h5]
  rfl

end Bookkeeping

/-- What an outline counts of the bodies that are open. -/
structure Depths where
  context : Flags
  conds : Nat
  cmdargs : Nat
  lambdas : Nat
  scopes : Nat
  numbering : Nat
  parameters : Nat

def Outline.depths (o : Outline) : Depths where
  context := o.context
  conds := o.nesting.condStack.length
  cmdargs := o.nesting.cmdargStack.length
  lambdas := o.nesting.lambdaStack.length
  scopes := o.scopes
  numbering := o.numbering
  parameters := o.parameters

/-- What a fault may leave open: some bodies, after them at most one lambda literal whose body has
not started and at most one list of parameters. Every body and such a lambda literal have a scope,
and all of them but perhaps the last have their use of numbered parameters. -/
structure LeftOpen (before after : Depths) : Prop where
  context : after.context = before.context
  bodies : before.conds ≤ after.conds
  saved : after.cmdargs + before.conds = before.cmdargs + after.conds
  scopes : after.conds + after.lambdas + before.scopes =
    before.conds + before.lambdas + after.scopes
  lambdas : before.lambdas ≤ after.lambdas ∧ after.lambdas ≤ before.lambdas + 1
  parameters : before.parameters ≤ after.parameters ∧ after.parameters ≤ before.parameters + 1
  numbering : after.numbering + before.scopes ≤ before.numbering + after.scopes ∧
    before.numbering + after.scopes ≤ after.numbering + before.scopes + 1

theorem LeftOpen.refl (d : Depths) : LeftOpen d d :=
  ⟨rfl, by omega, by omega, by omega, by omega, by omega, by omega⟩

theorem LeftOpen.of_context {before after : Depths} {context : Flags}
    (h : LeftOpen { before with context } after) :
    LeftOpen before { after with context := before.context } :=
  ⟨rfl, h.bodies, h.saved, h.scopes, h.lambdas, h.parameters, h.numbering⟩

namespace Depths

/-- A body whose use of numbered parameters is not settled has a scope and saved stacks. -/
def opening (d : Depths) : Depths :=
  { d with conds := d.conds + 1, cmdargs := d.cmdargs + 1, scopes := d.scopes + 1 }

def body (d : Depths) : Depths := { d.opening with numbering := d.numbering + 1 }

def literal (d : Depths) : Depths := { d with lambdas := d.lambdas + 1, scopes := d.scopes + 1 }

/-- A list of parameters that has not ended. -/
def list (d : Depths) : Depths := { d with parameters := d.parameters + 1 }

end Depths

theorem LeftOpen.opening (d : Depths) : LeftOpen d d.opening := by
  refine ⟨rfl, ?_, ?_, ?_, ?_, ?_, ?_⟩ <;> simp only [Depths.opening] <;> omega

theorem LeftOpen.body (d : Depths) : LeftOpen d d.body := by
  refine ⟨rfl, ?_, ?_, ?_, ?_, ?_, ?_⟩ <;> simp only [Depths.body, Depths.opening] <;> omega

theorem LeftOpen.literal (d : Depths) : LeftOpen d d.literal := by
  refine ⟨rfl, ?_, ?_, ?_, ?_, ?_, ?_⟩ <;> simp only [Depths.literal] <;> omega

/-- In a lambda literal that has settled its use of numbered parameters. -/
theorem LeftOpen.settled (d : Depths) :
    LeftOpen d { d.literal with numbering := d.numbering + 1 } := by
  refine ⟨rfl, ?_, ?_, ?_, ?_, ?_, ?_⟩ <;> simp only [Depths.literal] <;> omega

theorem LeftOpen.list {before after : Depths} (h : LeftOpen before after)
    (hp : after.parameters = before.parameters) : LeftOpen before after.list := by
  obtain ⟨h1, h2, h3, h4, h5, h6, h7⟩ := h
  exact ⟨h1, h2, h3, h4, h5, ⟨by simp only [Depths.list]; omega, by simp only [Depths.list]; omega⟩, h7⟩

/-- What a fault in a body leaves open is left open around the body. -/
theorem LeftOpen.of_body {before after : Depths} (h : LeftOpen before.body after) :
    LeftOpen before after := by
  obtain ⟨h1, h2, h3, h4, h5, h6, h7⟩ := h
  simp only [Depths.body, Depths.opening] at h2 h3 h4 h5 h6 h7
  exact ⟨h1, by omega, by omega, by omega, by omega, by omega, by omega⟩

namespace Parse

variable {α β : Type}

/-- From every state with the outline `before`, a step ends in one with the outline `after`, or in a
fault whose depths satisfy `E`. -/
def Leads (step : Parse α) (E : Depths → Prop) (before after : Outline) : Prop :=
  ∀ setting state, state.book.outline = before →
    Ends step setting state (fun _ state => state.book.outline = after)
      fun _ state => E state.book.outline.depths

variable {E : Depths → Prop} {a b c : Outline}

theorem Leads.bind {step : Parse α} {next : α → Parse β} (h : Leads step E a b)
    (hn : ∀ value, Leads (next value) E b c) : Leads (step >>= next) E a c :=
  fun setting state hs => (h setting state hs).bind fun value after ha => hn value setting after ha

theorem Leads.mono {step : Parse α} {F : Depths → Prop} (h : Leads step F a b)
    (hE : ∀ d, F d → E d) : Leads step E a b :=
  fun setting state hs => (h setting state hs).mono (fun _ _ ha => ha) fun _ _ => hE _

theorem pure_leads (value : α) : Leads (pure value) E a a := fun _ _ hs => hs

/-- A step that leaves the books alone. -/
def Quiet (step : Parse α) : Prop :=
  ∀ setting state, Ends step setting state (fun _ after => after.book = state.book)
    fun _ after => after.book = state.book

theorem Quiet.leads {step : Parse α} (h : Quiet step) (hE : E a.depths) : Leads step E a a := by
  intro setting state hs
  refine (h setting state).mono (fun _ after ha => ?_) fun _ after ha => ?_
  · rw [ha, hs]
  · rw [ha, hs]
    exact hE

theorem Quiet.bind_leads {step : Parse α} {next : α → Parse β} (h : Quiet step) (hE : E a.depths)
    (hn : ∀ value, Leads (next value) E a b) : Leads (step >>= next) E a b :=
  (h.leads hE).bind hn

theorem Looks.quiet {step : Parse α} (h : Looks step) : Quiet step := by
  intro setting state
  refine (h setting state).mono (fun _ after ha => ?_) fun _ _ ha => ha.elim
  rw [ha]

theorem advance_quiet : Quiet advance := fun _ _ => rfl

theorem skipNewlines_quiet : Quiet skipNewlines := fun _ _ => rfl

theorem skipTerminators_quiet : Quiet skipTerminators := fun _ _ => rfl

theorem emit_quiet (diagnostic : Diagnostic) : Quiet (emit diagnostic) := fun _ _ => rfl

theorem throw_quiet (fault : ParseFault) : Quiet (throw fault : Parse α) := fun _ _ => rfl

theorem next_quiet : Quiet next := by
  intro setting state
  rw [ends_next]
  cases state.rest with
  | nil => exact ends_unexpected.2 rfl
  | cons token rest => rfl

theorem eat_quiet (kind : TokenKind) : Quiet (eat kind) := by
  intro setting state
  rw [ends_eat]
  cases state.rest with
  | nil => rfl
  | cons token rest => simp

theorem expect_quiet (kind : TokenKind) : Quiet (expect kind) := by
  intro setting state
  rw [ends_expect]
  refine (eat_quiet kind setting state).mono (fun found after ha => ?_) fun _ _ ha => ha
  cases found with
  | none => exact ends_unexpected.2 ha
  | some token => exact ha

/-- A rejection leads anywhere, since nothing after it is reached. -/
theorem reject_bind_leads {reason : Reason} {arguments : Arguments} {location : Span}
    {next : β → Parse α} (hE : E a.depths) :
    Leads (reject reason arguments location >>= next) E a b := by
  intro setting state hs
  rw [ends_bind, ends_reject, hs]
  exact hE

theorem unexpected_leads (hE : E a.depths) : Leads (unexpected : Parse α) E a b := by
  intro setting state hs
  rw [ends_unexpected, hs]
  exact hE

theorem unexpected_bind_leads {next : β → Parse α} (hE : E a.depths) :
    Leads (unexpected >>= next) E a b := by
  intro setting state hs
  rw [ends_bind, ends_unexpected, hs]
  exact hE

theorem ite_leads {p : Prop} [Decidable p] {x y : Parse α} (hx : p → Leads x E a b)
    (hy : ¬p → Leads y E a b) : Leads (if p then x else y) E a b := by
  split
  · rename_i h
    exact hx h
  · rename_i h
    exact hy h

theorem keep_leads {change : Bookkeeping → Bookkeeping} (f : Outline → Outline)
    (h : ∀ book : Bookkeeping, (change book).outline = f book.outline) :
    Leads (keep change) E a (f a) := by
  intro setting state hs
  rw [ends_keep, h, hs]

theorem nest_leads (change : Nesting → Nesting) :
    Leads (nest change) E a { a with nesting := change a.nesting } :=
  keep_leads (fun o => { o with nesting := change o.nesting }) fun _ => rfl

theorem books_leads {next : Bookkeeping → Parse α}
    (h : ∀ book : Bookkeeping, book.outline = a → Leads (next book) E a b) :
    Leads (books >>= next) E a b :=
  fun setting state hs => ends_bind.2 (h state.book hs setting state hs)

/-- A step that leaves every outline as it was. -/
def Tidy (step : Parse α) : Prop := ∀ o : Outline, Leads step (LeftOpen o.depths) o o

theorem Quiet.tidy {step : Parse α} (h : Quiet step) : Tidy step :=
  fun o => h.leads (LeftOpen.refl o.depths)

theorem Tidy.leads {step : Parse α} (h : Tidy step) (hE : ∀ d, LeftOpen a.depths d → E d) :
    Leads step E a a := (h a).mono hE

theorem Tidy.bind_leads {step : Parse α} {next : α → Parse β} (h : Tidy step)
    (hE : ∀ d, LeftOpen a.depths d → E d) (hn : ∀ value, Leads (next value) E a b) :
    Leads (step >>= next) E a b := (h.leads hE).bind hn

theorem Tidy.bind {step : Parse α} {next : α → Parse β} (h : Tidy step)
    (hn : ∀ value, Tidy (next value)) : Tidy (step >>= next) :=
  fun o => (h o).bind fun value => hn value o

theorem within_leads {changes : List (Flag × Bool)} {step : Parse α} {F : Depths → Prop}
    (h : Leads step F { a with context := a.context.setAll changes }
      { a with context := a.context.setAll changes })
    (hE : ∀ d, F d → E { d with context := a.context }) : Leads (within changes step) E a a := by
  intro setting state hs
  subst hs
  rw [ends_within]
  refine (h setting _ rfl).mono (fun _ after ha => ?_) fun _ after ha => hE _ ha
  show ({ after.book.outline with context := _ } : Outline) = _
  rw [ha]
  rfl

end Parse

end Conformance.Dialect
