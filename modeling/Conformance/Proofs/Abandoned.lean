import Conformance.Proofs.Idle

/-! Parsers after a parse that rejected its source. A parse may be abandoned at any token, in any
nesting of blocks, lambda literals, methods and classes, and still the sizes of the stacks that it
leaves fit together. -/

namespace Conformance

/-- What a parse leaves that was abandoned in `k` constructs with a scope of their own: bodies, each
with its saved stacks, and at most one lambda literal whose body has not started. Only the innermost
construct may lack its use of numbered parameters, and at most one list of parameters has not
ended. -/
structure Snapshot.Abandoned (snapshot : Snapshot) (k : Nat) : Prop where
  scopes : snapshot.staticEnv = k + 1
  saved : snapshot.lexer.condStack = snapshot.lexer.cmdargStack
  bodies : snapshot.lexer.condStack + snapshot.lexer.lambdaStack = k
  lambdas : snapshot.lexer.lambdaStack ≤ 1
  parameters : snapshot.currentArgStack ≤ 1
  numbering : snapshot.maxNumparamStack = k ∨ snapshot.maxNumparamStack + 1 = k

namespace Dialect

/-- What a fault leaves open, seen from the start of the source. -/
theorem LeftOpen.abandoned {book : Bookkeeping}
    (left : LeftOpen Outline.begun.depths book.outline.depths) :
    book.snapshot.context = .clear ∧ ∃ k, book.snapshot.Abandoned k := by
  obtain ⟨context, -, saved, scopes, lambdas, parameters, numbering⟩ := left
  simp only [Outline.depths, Outline.begun, Bookkeeping.outline, Bookkeeping.empty,
    List.length_nil] at context saved scopes lambdas parameters numbering
  refine ⟨context, book.scopes.length - 1, ?_, ?_, ?_, ?_, ?_, ?_⟩ <;>
    simp only [Bookkeeping.snapshot, Nesting.snapshot] <;> omega

namespace Parser

theorem result_of_rejected {parser : Parser} {source : String} {failure : ParseFailure}
    (rejected : (parser.parse source).1 = .error failure) :
    ∃ fault, (parseSource parser.features parser.encoding source).result = .error fault := by
  have mapped : (parseSource parser.features parser.encoding source).result.mapError
    ParseFault.toFailure = .error failure := rejected
  cases result : (parseSource parser.features parser.encoding source).result with
  | ok tree =>
    rw [result] at mapped
    cases mapped
  | error fault => exact ⟨fault, rfl⟩

/-- Whatever a parser has parsed before, a rejected source leaves all flags clear. Either the source
has no tokens and nothing is open, or the stacks have the sizes of a parse that was abandoned in
some constructs. -/
theorem rejected_abandoned {parser : Parser} {source : String} {failure : ParseFailure}
    (rejected : (parser.parse source).1 = .error failure) :
    (parser.parse source).2.1.snapshot.context = .clear ∧
      ((∃ e, tokenize parser.encoding source = .error e) ∧
          (parser.parse source).2.1.snapshot = .idle ∨
        (∃ tokens, tokenize parser.encoding source = .ok tokens) ∧
          ∃ k, (parser.parse source).2.1.snapshot.Abandoned k) := by
  cases read : tokenize parser.encoding source with
  | error e =>
    have empty : (parser.parse source).2.1.book = .empty := (parseSource_unread read).2
    have idle : (parser.parse source).2.1.snapshot = .idle := congrArg Bookkeeping.snapshot empty
    exact ⟨congrArg Snapshot.context idle, .inl ⟨⟨e, rfl⟩, idle⟩⟩
  | ok tokens =>
    obtain ⟨fault, result⟩ := result_of_rejected rejected
    obtain ⟨tree, accepted, -⟩ | ⟨-, -, left⟩ := parseSource_ends read
    · cases result.symm.trans accepted
    · obtain ⟨context, k, abandoned⟩ := left.abandoned
      exact ⟨context, .inr ⟨⟨tokens, rfl⟩, k, abandoned⟩⟩

/-- Abandoned in the parameters of a lambda literal, in a block in a method: the method and the
block have saved stacks and their use of numbered parameters, the lambda literal has neither. -/
theorem rejected_abandoned_parameters :
    let parsed := Parser.newest.parse "def m\n foo \x7b ->(x, 1"
    (∃ failure, parsed.1 = .error failure) ∧
      parsed.2.1.snapshot.lexer.condStack = 2 ∧ parsed.2.1.snapshot.lexer.lambdaStack = 1 ∧
      parsed.2.1.snapshot.maxNumparamStack = 2 ∧ parsed.2.1.snapshot.currentArgStack = 1 ∧
      parsed.2.1.snapshot.context = .clear ∧ parsed.2.1.snapshot.Abandoned 3 := by
  intro parsed
  obtain ⟨saved, lambdas, numbering, parameters⟩ :
      parsed.2.1.snapshot.lexer.condStack = 2 ∧ parsed.2.1.snapshot.lexer.lambdaStack = 1 ∧
        parsed.2.1.snapshot.maxNumparamStack = 2 ∧ parsed.2.1.snapshot.currentArgStack = 1 := by
    decide +kernel
  have refused : parsed.1.toOption.isNone = true := by decide +kernel
  cases ended : parsed.1 with
  | ok tree =>
    rw [ended] at refused
    cases refused
  | error failure =>
    refine ⟨⟨failure, rfl⟩, saved, lambdas, numbering, parameters, ?_⟩
    obtain ⟨context, ⟨-, idle⟩ | ⟨-, k, abandoned⟩⟩ := rejected_abandoned ended
    · have none : parsed.2.1.snapshot.lexer.condStack = 0 := congrArg (·.lexer.condStack) idle
      omega
    · have bodies : parsed.2.1.snapshot.lexer.condStack +
        parsed.2.1.snapshot.lexer.lambdaStack = k := abandoned.bodies
      obtain rfl : k = 3 := by omega
      exact ⟨context, abandoned⟩

end Parser

end Dialect

end Conformance
