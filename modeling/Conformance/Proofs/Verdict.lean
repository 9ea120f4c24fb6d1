import Conformance.Proofs.Derivations
import Conformance.Proofs.Idle

/-! What a whole parse ends in: a sound tree and warnings, or a rejection that the last diagnostic
explains. The encoding of the source makes no difference. -/

namespace Conformance.Dialect

/-- The outcome of a parse of a source of `n` characters. -/
inductive Verdict (n : Nat) : Outcome → Prop where
  | accepted {tree : Option Node} {book : Bookkeeping} {emitted : List Diagnostic}
    (sound : ∀ node ∈ tree, node.Sound n) (warned : ∀ d ∈ emitted, Warning n d) :
    Verdict n ⟨.ok tree, book, emitted⟩
  | rejected {fault : ParseFault} {book : Bookkeeping} {emitted : List Diagnostic}
    (rejection : Rejection n fault emitted) : Verdict n ⟨.error fault, book, emitted⟩

/-- What a step reads from the tokens of a source decides the outcome. -/
theorem Outcome.ofStep_verdict {n : Nat} {features : Features} {tokens : List Token}
    {step : Parse (Option Node)}
    (lawful : ∀ token ∈ tokens, token.Lawful n)
    (h : Parse.Reads n step tokens fun tree _ => ∀ node ∈ tree, node.Sound n) :
    Verdict n (Outcome.ofStep features n tokens step) := by
  have start : ParseState.Sound n { rest := tokens } :=
    ⟨lawful, fun _ _ none => (List.not_mem_nil none).elim, by simp⟩
  have ends := h ⟨features, .ofLength n 0⟩ { rest := tokens } (Nat.le_refl n) start rfl
  obtain ⟨tree, state, ⟨after, sound⟩, eq⟩ | ⟨fault, state, rejection, eq⟩ :=
    Outcome.ofStep_ends features n tokens step ends
  · rw [eq]
    exact .accepted sound after.warned
  · rw [eq]
    exact .rejected rejection

theorem rejectLexError_reads {n : Nat} {tokens : List Token} {e : LexError}
    {Q : Option Node → List Token → Prop}
    (h : (∃ c span, e = .unexpectedChar c span ∧ span.stop ≤ n) ∨
      ∃ span, e = .unterminatedString span ∧ span.stop ≤ n) :
    Parse.Reads n (rejectLexError e) tokens Q := by
  obtain ⟨c, span, rfl, le⟩ | ⟨span, rfl, le⟩ := h
  · exact Parse.reject_reads rfl rfl le
  · exact Parse.reject_reads rfl rfl le

theorem parseSource_verdict (features : Features) (encoding : Encoding) (source : String) :
    Verdict source.toList.length (parseSource features encoding source) := by
  unfold parseSource
  rw [tokenize_eq]
  cases hp : placed source.toList with
  | ok tokens => exact Outcome.ofStep_verdict (placed_lawful hp) Grammar.program_reads
  | error e => exact Outcome.ofStep_verdict (by simp) (rejectLexError_reads (placed_error hp))

theorem parseSource_encoding (features : Features) (a b : Encoding) (source : String) :
    parseSource features a source = parseSource features b source := by
  unfold parseSource
  rw [tokenize_eq a, tokenize_eq b]

/-- Both encodings give the same result. -/
theorem Parser.parse_setEncoding (parser : Parser) (encoding : Encoding) (source : String) :
    ((parser.setEncoding encoding).parse source).1 = (parser.parse source).1 := by
  unfold Parser.parse Parser.setEncoding
  rw [parseSource_encoding parser.features encoding parser.encoding]

/-- Every place can be looked up: the bounds of a span start characters, the end after the start. -/
theorem tokenize_ne_misplaced (encoding : Encoding) (source : String) (start stop : Nat) :
    tokenize encoding source ≠ .error (.misplaced start stop) := by
  rw [tokenize_eq]
  intro h
  obtain ⟨c, span, eq, -⟩ | ⟨span, eq, -⟩ := placed_error h
  · cases eq
  · cases eq

/-- The encodings give the same tokens, or the same reason why there are none. No look-up of a place
fails in either, and so a parse differs in nothing but the encoding that the parser keeps. -/
theorem Parser.encodings_agree (parser : Parser) (source : String) :
    tokenize .utf8 source = tokenize .utf32 source ∧
      (∀ encoding start stop, tokenize encoding source ≠ .error (.misplaced start stop)) ∧
      let counted := (parser.setEncoding .utf8).parse source
      let listed := (parser.setEncoding .utf32).parse source
      counted.1 = listed.1 ∧ counted.2.1.setEncoding .utf32 = listed.2.1 ∧
        counted.2.1.snapshot = listed.2.1.snapshot ∧ counted.2.2 = listed.2.2 := by
  have same := parseSource_encoding parser.features .utf8 .utf32 source
  refine ⟨(tokenize_eq .utf8 source).trans (tokenize_eq .utf32 source).symm,
    fun encoding => tokenize_ne_misplaced encoding source, ?_⟩
  simp only [Parser.parse, Parser.setEncoding, Parser.snapshot, same, and_self]

theorem Parser.parse_sound {parser : Parser} {source : String} {tree : Option Node}
    (accepted : (parser.parse source).1 = .ok tree) :
    ∀ node ∈ tree, node.Sound source.toList.length := by
  have verdict := parseSource_verdict parser.features parser.encoding source
  unfold Parser.parse at accepted
  generalize parseSource parser.features parser.encoding source = outcome at verdict accepted
  cases verdict with
  | accepted sound _ =>
    cases accepted
    exact sound
  | rejected _ => cases accepted

theorem Parser.parse_rejects {parser : Parser} {source : String} {failure : ParseFailure}
    (rejected : (parser.parse source).1 = .error failure) :
    ∃ message, failure = .rejected message := by
  have verdict := parseSource_verdict parser.features parser.encoding source
  unfold Parser.parse at rejected
  generalize parseSource parser.features parser.encoding source = outcome at verdict rejected
  cases verdict with
  | accepted _ _ => cases rejected
  | rejected rejection =>
    cases rejection
    cases rejected
    exact ⟨_, rfl⟩

/-- How the result of a parse and the diagnostics that it reported go together. -/
inductive Agree : Except ParseFailure (Option Node) → List Diagnostic → Prop where
  | accepted {tree : Option Node} {reported : List Diagnostic}
    (warned : ∀ d ∈ reported, d.level = .warning ∧ d.reason = Reason.ambiguousPrefix.code) :
    Agree (.ok tree) reported
  | rejected {warnings : List Diagnostic} {last : Diagnostic}
    (warned : ∀ d ∈ warnings, d.level = .warning ∧ d.reason = Reason.ambiguousPrefix.code)
    (error : last.level = .error) :
    Agree (.error (.rejected last.message)) (warnings ++ [last])

/-- An accepted source has only warnings of ambiguous prefixes. A rejected one has after them one
error, whose message the result has; a parse fails in no other way. Every diagnostic has the level
of its reason and the message that the catalog gives for its arguments, and stands in the source. -/
theorem Parser.parse_agrees (parser : Parser) (source : String) :
    Agree (parser.parse source).1 (parser.parse source).2.2 ∧
      ∀ d ∈ (parser.parse source).2.2, Faithful source.toList.length d := by
  have verdict := parseSource_verdict parser.features parser.encoding source
  unfold Parser.parse
  generalize parseSource parser.features parser.encoding source = outcome at verdict ⊢
  cases verdict with
  | accepted sound warned =>
    refine ⟨.accepted fun d hd => ?_, fun d hd => (warned d hd).toFaithful⟩
    exact ⟨(warned d hd).warning, (warned d hd).ambiguous⟩
  | rejected rejection =>
    obtain ⟨warned, faithful, error⟩ := rejection
    refine ⟨.rejected (fun d hd => ?_) error, fun d hd => ?_⟩
    · exact ⟨(warned d hd).warning, (warned d hd).ambiguous⟩
    · obtain before | at_last := List.mem_append.1 hd
      · exact (warned d before).toFaithful
      · rw [List.mem_singleton.1 at_last]
        exact faithful

end Conformance.Dialect
