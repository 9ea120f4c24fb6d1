import Conformance.Proofs.Ending
import Conformance.Proofs.Sound

/-! What a step reads and what it reports. `Reads` says of a step, from every state with the given
tokens, that it ends either with a value and a rest of the tokens, having reported only warnings, or
in a rejection whose message is that of the last diagnostic. No other fault is left. -/

namespace Conformance.Dialect

/-- A diagnostic in a source of `n` characters has the level of its reason, and the message that the
catalog has for its reason and its arguments. -/
structure Faithful (n : Nat) (d : Diagnostic) : Prop where
  level : ∃ reason, Reason.ofCode? d.reason = some reason ∧ d.level = reason.level
  message : compileMessage? d.reason d.arguments = some d.message
  location_le : d.location.stop ≤ n
  highlights_le : ∀ span ∈ d.highlights, span.stop ≤ n

/-- A diagnostic that lets the parse go on. -/
structure Warning (n : Nat) (d : Diagnostic) : Prop extends Faithful n d where
  warning : d.level = .warning
  ambiguous : d.reason = Reason.ambiguousPrefix.code

/-- A parse that ends in a rejection has reported warnings, and last the error that it ends in. -/
inductive Rejection (n : Nat) : ParseFault → List Diagnostic → Prop where
  | intro {warnings : List Diagnostic} {last : Diagnostic} (warned : ∀ d ∈ warnings, Warning n d)
    (faithful : Faithful n last) (error : last.level = .error) :
    Rejection n (.rejected last.message) (warnings ++ [last])

theorem diagnostic_faithful {n : Nat} {reason : Reason} {arguments : Arguments} {location : Span}
    (renders : (reason.message? arguments).isSome) (h : location.stop ≤ n) :
    Faithful n (reason.diagnostic arguments location) := by
  obtain ⟨message, hm⟩ := Option.isSome_iff_exists.1 renders
  refine ⟨⟨reason, Reason.ofCode?_code reason, rfl⟩, ?_, h, by simp [Reason.diagnostic]⟩
  show (Reason.ofCode? reason.code).bind (·.message? arguments) =
    some ((reason.message? arguments).getD reason.template)
  rw [Reason.ofCode?_code, hm]
  exact hm

/-- The highest numbered parameter of every open body is one digit. -/
def Bookkeeping.Modest (book : Bookkeeping) : Prop :=
  ∀ highest ordinary, .body highest ordinary ∈ book.numbering → highest ≤ 9

/-- The tokens are those of a source of `n` characters, and only warnings have been reported. -/
structure ParseState.Sound (n : Nat) (state : ParseState) : Prop where
  tokens : ∀ token ∈ state.rest, token.Lawful n
  modest : state.book.Modest
  warned : ∀ d ∈ state.emitted, Warning n d

/-- What is left of some tokens after at least `k` of them. -/
@[reducible] def Past (k : Nat) (tokens rest : List Token) : Prop :=
  rest.length + k ≤ tokens.length ∧ rest <:+ tokens

namespace Past

variable {j k : Nat} {a b c : List Token}

theorem refl (tokens : List Token) : Past 0 tokens tokens := ⟨Nat.le_refl _, List.suffix_refl _⟩

theorem of_cons (token : Token) (rest : List Token) : Past 1 (token :: rest) rest :=
  ⟨Nat.le_refl _, List.suffix_cons _ _⟩

theorem trans (h1 : Past j a b) (h2 : Past k b c) : Past (j + k) a c :=
  ⟨by omega, h2.2.trans h1.2⟩

theorem weaken (h : Past k a b) (hj : j ≤ k) : Past j a b := ⟨by omega, h.2⟩

end Past

namespace Parse

variable {α β : Type} {n : Nat} {tokens : List Token}

/-- What a step does with `tokens` as the tokens that are left. -/
def Reads (n : Nat) (step : Parse α) (tokens : List Token) (Q : α → List Token → Prop) : Prop :=
  ∀ setting state, setting.finish.stop ≤ n → state.Sound n → state.rest = tokens →
    Ends step setting state (fun value after => after.Sound n ∧ Q value after.rest)
      fun fault after => Rejection n fault after.emitted

variable {Q : α → List Token → Prop}

theorem Reads.bind {step : Parse α} {next : α → Parse β} {Q : β → List Token → Prop}
    {R : α → List Token → Prop} (h : Reads n step tokens R)
    (hn : ∀ value rest, R value rest → Reads n (next value) rest Q) :
    Reads n (step >>= next) tokens Q := by
  intro setting state hf sound hs
  refine (h setting state hf sound hs).bind fun value after ha => ?_
  exact hn value after.rest ha.2 setting after hf ha.1 rfl

theorem Reads.mono {step : Parse α} {R : α → List Token → Prop} (h : Reads n step tokens R)
    (hR : ∀ value rest, R value rest → Q value rest) : Reads n step tokens Q :=
  fun setting state hf sound hs =>
    (h setting state hf sound hs).mono (fun _ _ ha => ⟨ha.1, hR _ _ ha.2⟩) fun _ _ ha => ha

theorem pure_reads {value : α} (h : Q value tokens) : Reads n (pure value) tokens Q := by
  intro setting state hf sound hs
  subst hs
  exact ⟨sound, h⟩

/-- A step may count on the tokens that are left. -/
theorem Reads.of_lawful {step : Parse α}
    (h : (∀ token ∈ tokens, token.Lawful n) → Reads n step tokens Q) : Reads n step tokens Q := by
  intro setting state hf sound hs
  subst hs
  exact h sound.tokens setting state hf sound rfl

/-! ### Rejections -/

/-- A rejection ends in any condition, since nothing after it is reached. -/
theorem reject_reads {reason : Reason} {arguments : Arguments} {location : Span}
    (renders : (reason.message? arguments).isSome) (error : reason.level = .error)
    (h : location.stop ≤ n) : Reads n (reject reason arguments location : Parse α) tokens Q := by
  intro setting state hf sound hs
  rw [ends_reject]
  exact .intro sound.warned (diagnostic_faithful renders h) error

theorem reject_bind_reads {reason : Reason} {arguments : Arguments} {location : Span}
    {next : β → Parse α} (renders : (reason.message? arguments).isSome)
    (error : reason.level = .error) (h : location.stop ≤ n) :
    Reads n (reject reason arguments location >>= next) tokens Q := by
  refine Reads.bind (R := fun _ _ => False) (reject_reads renders error h) fun _ _ none => ?_
  exact none.elim

theorem unexpected_reads : Reads n (unexpected : Parse α) tokens Q := by
  intro setting state hf sound hs
  rw [ends_unexpected]
  refine .intro sound.warned (diagnostic_faithful rfl ?_) rfl
  cases hr : state.rest with
  | nil => exact hf
  | cons token rest => exact (sound.tokens token (by rw [hr]; exact .head _)).stop_le

theorem unexpected_bind_reads {next : β → Parse α} : Reads n (unexpected >>= next) tokens Q := by
  refine Reads.bind (R := fun _ _ => False) unexpected_reads fun _ _ none => ?_
  exact none.elim

/-! ### Steps that read nothing -/

theorem Looks.bind_reads {step : Parse α} {next : α → Parse β} {Q : β → List Token → Prop}
    (h : Looks step) (hn : ∀ value, Reads n (next value) tokens Q) :
    Reads n (step >>= next) tokens Q := by
  intro setting state hf sound hs
  refine ends_bind.2 ((h setting state).mono (fun value after ha => ?_) fun _ _ ha => ha.elim)
  subst ha
  exact hn value setting after hf sound hs

theorem peek_bind_reads {next : Option Token → Parse α}
    (h : Reads n (next tokens.head?) tokens Q) : Reads n (peek >>= next) tokens Q := by
  intro setting state hf sound hs
  subst hs
  exact ends_bind.2 (h setting state hf sound rfl)

theorem peekKind_bind_reads {next : Option TokenKind → Parse α}
    (h : Reads n (next (tokens.head?.map Token.kind)) tokens Q) :
    Reads n (peekKind >>= next) tokens Q := by
  intro setting state hf sound hs
  subst hs
  exact ends_bind.2 (h setting state hf sound rfl)

theorem at?_bind_reads {kind : TokenKind} {next : Bool → Parse α}
    (h : Reads n (next (tokens.head?.map Token.kind == some kind)) tokens Q) :
    Reads n (at? kind >>= next) tokens Q := by
  intro setting state hf sound hs
  subst hs
  exact ends_bind.2 (h setting state hf sound rfl)

theorem get_bind_reads {next : ParseState → Parse α}
    (h : ∀ state : ParseState, state.rest = tokens → Reads n (next state) tokens Q) :
    Reads n (get >>= next) tokens Q :=
  fun setting state hf sound hs => ends_bind.2 (h state hs setting state hf sound hs)

theorem books_bind_reads {next : Bookkeeping → Parse α}
    (h : ∀ book : Bookkeeping, book.Modest → Reads n (next book) tokens Q) :
    Reads n (books >>= next) tokens Q :=
  fun setting state hf sound hs =>
    ends_bind.2 (h state.book sound.modest setting state hf sound hs)

theorem keep_bind_reads {change : Bookkeeping → Bookkeeping} {next : Unit → Parse α}
    (hc : ∀ book : Bookkeeping, book.Modest → (change book).Modest)
    (h : Reads n (next ()) tokens Q) : Reads n (keep change >>= next) tokens Q :=
  fun setting _ hf sound hs =>
    ends_bind.2 (h setting _ hf ⟨sound.tokens, hc _ sound.modest, sound.warned⟩ hs)

theorem nest_bind_reads {change : Nesting → Nesting} {next : Unit → Parse α}
    (h : Reads n (next ()) tokens Q) : Reads n (nest change >>= next) tokens Q :=
  keep_bind_reads (fun _ modest => modest) h

theorem emit_bind_reads {d : Diagnostic} {next : Unit → Parse α} (hd : Warning n d)
    (h : Reads n (next ()) tokens Q) : Reads n (emit d >>= next) tokens Q := by
  intro setting state hf sound hs
  refine ends_bind.2 (h setting _ hf ⟨sound.tokens, sound.modest, ?_⟩ hs)
  intro d' hd'
  obtain before | last := List.mem_append.1 hd'
  · exact sound.warned d' before
  · rw [List.mem_singleton.1 last]
    exact hd

/-- Flags that are changed for a step do not matter for what it reads. -/
theorem within_reads {changes : List (Flag × Bool)} {step : Parse α}
    (h : Reads n step tokens Q) : Reads n (within changes step) tokens Q := by
  intro setting state hf sound hs
  rw [ends_within]
  have changed : ParseState.Sound n
      { state with book := { state.book with context := state.book.context.setAll changes } } :=
    ⟨sound.tokens, sound.modest, sound.warned⟩
  refine (h setting _ hf changed hs).mono (fun value after ha => ?_) fun _ _ ha => ha
  exact ⟨⟨ha.1.tokens, ha.1.modest, ha.1.warned⟩, ha.2⟩

/-! ### Steps that read tokens -/

theorem ParseState.Sound.drop {state : ParseState} {rest : List Token} (h : state.Sound n)
    (hr : rest <:+ state.rest) : ({ state with rest } : ParseState).Sound n :=
  ⟨fun token ht => h.tokens token (hr.subset ht), h.modest, h.warned⟩

theorem advance_bind_reads {next : Unit → Parse α} {token : Token} {rest : List Token}
    (h : Reads n (next ()) rest Q) : Reads n (advance >>= next) (token :: rest) Q := by
  intro setting state hf sound hs
  refine ends_bind.2 (h setting _ hf (ParseState.Sound.drop sound (List.tail_suffix _)) ?_)
  show state.rest.tail = rest
  rw [hs, List.tail_cons]

/-- After the first of the tokens that are left. -/
theorem ParseState.Sound.rest {state : ParseState} {token : Token} {rest : List Token}
    (h : state.Sound n) (hs : state.rest = token :: rest) :
    token.Lawful n ∧ ({ state with rest } : ParseState).Sound n := by
  refine ⟨h.tokens token ?_, ParseState.Sound.drop h ?_⟩
  · rw [hs]
    exact .head _
  · rw [hs]
    exact List.suffix_cons _ _

/-- A token and what follows it. -/
structure Taken (n : Nat) (tokens : List Token) (token : Token) (rest : List Token) : Prop where
  eq : tokens = token :: rest
  lawful : token.Lawful n

theorem next_reads : Reads n next tokens (Taken n tokens) := by
  intro setting state hf sound hs
  rw [ends_next, hs]
  cases tokens with
  | nil => exact unexpected_reads setting state hf sound hs
  | cons token rest =>
    obtain ⟨lawful, after⟩ := ParseState.Sound.rest sound hs
    exact ⟨after, rfl, lawful⟩

/-- A token of a kind and what follows it. -/
structure TakenAs (n : Nat) (kind : TokenKind) (tokens : List Token) (token : Token)
    (rest : List Token) : Prop extends Taken n tokens token rest where
  kind_eq : token.kind = kind

/-- What `eat` gives: nothing, or the next token if it has the kind. -/
def Eaten (n : Nat) (kind : TokenKind) (tokens : List Token) (found : Option Token)
    (rest : List Token) : Prop :=
  match found with
  | none => rest = tokens
  | some token => TakenAs n kind tokens token rest

theorem eat_reads (kind : TokenKind) : Reads n (eat kind) tokens (Eaten n kind tokens) := by
  intro setting state hf sound hs
  rw [ends_eat, hs]
  cases tokens with
  | nil => exact ⟨sound, rfl⟩
  | cons token rest =>
    obtain ⟨lawful, after⟩ := ParseState.Sound.rest sound hs
    dsimp only
    split
    · rename_i hk
      exact ⟨after, ⟨rfl, lawful⟩, hk⟩
    · exact ⟨sound, rfl⟩

theorem expect_reads (kind : TokenKind) :
    Reads n (expect kind) tokens (TakenAs n kind tokens) := by
  intro setting state hf sound hs
  rw [ends_expect]
  refine (eat_reads kind setting state hf sound hs).mono (fun found after ha => ?_)
    fun _ _ ha => ha
  cases found with
  | none => exact unexpected_reads setting after hf ha.1 ha.2
  | some token => exact ha

theorem Taken.past {token : Token} {rest : List Token} (h : Taken n tokens token rest) :
    Past 1 tokens rest := by
  rw [h.eq]
  exact .of_cons _ _

theorem Taken.kind_eq {token : Token} {rest : List Token} {kind : TokenKind}
    (h : Taken n tokens token rest) (first : tokens.head?.map Token.kind = some kind) :
    token.kind = kind := by
  rw [h.eq] at first
  exact Option.some.inj first

theorem Eaten.past {kind : TokenKind} {found : Option Token} {rest : List Token}
    (h : Eaten n kind tokens found rest) : Past 0 tokens rest := by
  cases found with
  | none =>
    obtain rfl : rest = tokens := h
    exact .refl _
  | some token =>
    have taken : TakenAs n kind tokens token rest := h
    exact taken.past.weaken (Nat.zero_le _)

theorem skipWhile_reads (p : TokenKind → Bool) :
    Reads n (skipWhile p) tokens fun _ rest => Past 0 tokens rest := by
  intro setting state hf sound hs
  subst hs
  have suffix : (state.rest.dropWhile fun token => p token.kind) <:+ state.rest :=
    List.dropWhile_suffix _
  exact ⟨ParseState.Sound.drop sound suffix, suffix.length_le, suffix⟩

theorem skipNewlines_reads : Reads n skipNewlines tokens fun _ rest => Past 0 tokens rest :=
  skipWhile_reads _

theorem skipTerminators_reads :
    Reads n skipTerminators tokens fun _ rest => Past 0 tokens rest := skipWhile_reads _

theorem ite_reads {p : Prop} [Decidable p] {x y : Parse α} (hx : p → Reads n x tokens Q)
    (hy : ¬p → Reads n y tokens Q) : Reads n (if p then x else y) tokens Q := by
  split
  · rename_i h
    exact hx h
  · rename_i h
    exact hy h

end Parse

end Conformance.Dialect
