import Conformance.Dialect.Session
import Conformance.Proofs.Balance

/-! Parsers after a parse that accepted its source: they have nothing open, whatever they parsed
before. -/

namespace Conformance.Dialect

/-- How a step at the start of a source ends, from what it leads to. -/
theorem Outcome.ofStep_ends (features : Features) (finish : Nat) (tokens : List Token)
    (step : Parse (Option Node)) {Q : Option Node → ParseState → Prop}
    {E : ParseFault → ParseState → Prop}
    (h : Parse.Ends step ⟨features, .ofLength finish 0⟩ { rest := tokens } Q E) :
    (∃ tree state, Q tree state ∧
        Outcome.ofStep features finish tokens step = ⟨.ok tree, state.book, state.emitted⟩) ∨
      ∃ fault state, E fault state ∧
        Outcome.ofStep features finish tokens step =
          ⟨.error fault, state.book, state.emitted⟩ := by
  unfold Parse.Ends at h
  unfold Outcome.ofStep
  cases hr : step ⟨features, .ofLength finish 0⟩ { rest := tokens } with
  | ok tree state =>
    rw [hr] at h
    exact .inl ⟨tree, state, h, rfl⟩
  | error fault state =>
    rw [hr] at h
    exact .inr ⟨fault, state, h, rfl⟩

/-- The outline in a source whose parse has just begun. -/
def Outline.begun : Outline := { Bookkeeping.empty.outline with scopes := 1 }

section

variable {features : Features} {encoding : Encoding} {source : String}

/-- A source that has tokens leaves the outline as it was, or what a fault in its scope leaves. -/
theorem parseSource_ends {tokens : List Token} (read : tokenize encoding source = .ok tokens) :
    (∃ tree, (parseSource features encoding source).result = .ok tree ∧
        (parseSource features encoding source).book.outline = Bookkeeping.empty.outline) ∨
      ∃ fault, (parseSource features encoding source).result = .error fault ∧
        LeftOpen Outline.begun.depths
          (parseSource features encoding source).book.outline.depths := by
  unfold parseSource
  simp only [read]
  have ends := Grammar.program_leads tokens.length Bookkeeping.empty.outline
    ⟨features, .ofLength source.toList.length 0⟩ { rest := tokens } rfl
  obtain ⟨tree, state, same, eq⟩ | ⟨fault, state, left, eq⟩ :=
    Outcome.ofStep_ends features source.toList.length tokens _ ends
  · rw [eq]
    exact .inl ⟨tree, rfl, same⟩
  · rw [eq]
    exact .inr ⟨fault, rfl, left⟩

/-- A source that has no tokens is rejected before anything is opened. -/
theorem parseSource_unread {e : LexError} (unread : tokenize encoding source = .error e) :
    (∃ fault, (parseSource features encoding source).result = .error fault) ∧
      (parseSource features encoding source).book = .empty := by
  unfold parseSource
  simp only [unread]
  cases e <;> exact ⟨⟨_, rfl⟩, rfl⟩

theorem parseSource_snapshot {tree : Option Node}
    (accepted : (parseSource features encoding source).result = .ok tree) :
    (parseSource features encoding source).book.snapshot = .idle := by
  cases read : tokenize encoding source with
  | ok tokens =>
    obtain ⟨_, -, same⟩ | ⟨fault, rejected, -⟩ := parseSource_ends read
    · exact Bookkeeping.snapshot_eq_idle same
    · cases accepted.symm.trans rejected
  | error e =>
    obtain ⟨⟨fault, rejected⟩, -⟩ := parseSource_unread read
    cases accepted.symm.trans rejected

end

theorem Parser.parse_snapshot {parser : Parser} {source : String} {tree : Option Node}
    (h : (parser.parse source).1 = .ok tree) : (parser.parse source).2.1.snapshot = .idle := by
  refine parseSource_snapshot (show _ = Except.ok tree from ?_)
  have mapped : (parseSource parser.features parser.encoding source).result.mapError
    ParseFault.toFailure = .ok tree := h
  cases hp : (parseSource parser.features parser.encoding source).result with
  | ok found =>
    rw [hp] at mapped
    cases mapped
    rfl
  | error fault =>
    rw [hp] at mapped
    cases mapped

/-- The audit accepts a parser that has nothing open. -/
theorem audit_idle (version : Version) : Snapshot.idle.audit version = .ok () := rfl

/-- A parser of the newest revision. -/
def Parser.newest : Parser := { version := ⟨"3.2"⟩, features := ⟨true, true, true⟩ }

/-- A source whose tree passes a test is accepted. -/
theorem Parser.accepted_of_any {parser : Parser} {source : String} {p : Node → Bool}
    (found : (parser.parse source).1.toOption.join.any p = true) :
    ∃ tree, (parser.parse source).1 = .ok (some tree) ∧ p tree = true := by
  obtain ⟨tree, joined, passes⟩ := (Option.any_eq_true _ _).1 found
  refine ⟨tree, ?_, passes⟩
  cases ok : (parser.parse source).1 with
  | error fault =>
    rw [ok] at joined
    cases joined
  | ok root =>
    rw [ok] at joined
    exact congrArg Except.ok joined

namespace Session

/-- Whatever a parser was asked before, a source that it accepts leaves it with nothing open, so that
the audit accepts it. -/
theorem accepted_idle {parser : Parser} {history : List Request} {source : String}
    {tree : Option Node} {after : Session}
    (accepted : ((Session.mk parser []).serveAll history).parse source = (.ok tree, after)) :
    after.parser.snapshot = .idle ∧
      ∀ version, after.parser.snapshot.audit version = .ok () := by
  simp only [Session.parse, Prod.mk.injEq] at accepted
  obtain ⟨hr, rfl⟩ := accepted
  have idle := Parser.parse_snapshot hr
  refine ⟨idle, fun version => ?_⟩
  rw [idle]
  exact audit_idle version

/-- A parser that has rejected an open block accepts a block in another encoding. -/
theorem accepted_idle_block :
    let session := (Session.mk .newest []).serveAll [.parse "foo \x7b |x|", .encode .utf32]
    let parsed := session.parse "foo \x7b |x| bar x do x end \x7d"
    session.parser.snapshot ≠ .idle ∧ (∃ tree, parsed.1 = .ok tree) ∧
      parsed.2.parser.snapshot = .idle := by
  intro session parsed
  have open' : session.parser.snapshot ≠ .idle := by decide +kernel
  have accepted : parsed.1.toOption.isSome = true := by decide +kernel
  cases ok : parsed.1 with
  | error fault =>
    rw [ok] at accepted
    cases accepted
  | ok tree =>
    refine ⟨open', ⟨tree, rfl⟩, ?_⟩
    exact (accepted_idle (show parsed = (.ok tree, parsed.2) by rw [← ok])).1

end Session

end Conformance.Dialect
