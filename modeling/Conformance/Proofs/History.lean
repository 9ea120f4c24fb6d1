import Conformance.Proofs.Verdict
import Mathlib.Data.List.Induction

/-! Parsers that have been used: whatever a parser parsed before, in which encoding, and whether it
accepted that, it answers as if it were new. -/

namespace Conformance.Dialect

/-- Nothing is left of what an earlier parse left open, wherever it was abandoned. -/
theorem Bookkeeping.reset_eq (book : Bookkeeping) : book.reset = .empty := rfl

/-- Parsers of the same version, which may have parsed something else. -/
structure Parser.Alike (a b : Parser) : Prop where
  version_eq : a.version = b.version
  features_eq : a.features = b.features

namespace Parser

variable {a b : Parser}

theorem Alike.parse (alike : a.Alike b) (source : String) :
    a.Alike (b.parse source).2.1 := ⟨alike.version_eq, alike.features_eq⟩

theorem Alike.setEncoding (alike : a.Alike b) (encoding : Encoding) :
    a.Alike (b.setEncoding encoding) := ⟨alike.version_eq, alike.features_eq⟩

/-- Parsers of the same version give the same outcome: their books are closed before they read, and
the encoding, which they keep, makes no difference. -/
theorem Alike.outcome_eq (alike : a.Alike b) (source : String) :
    parseSource a.features a.encoding source a.book.reset =
      parseSource b.features b.encoding source b.book.reset := by
  rw [alike.features_eq, Bookkeeping.reset_eq]
  exact parseSource_encoding b.features a.encoding b.encoding source

theorem Alike.parse_eq (alike : a.Alike b) (source : String) :
    (a.parse source).1 = (b.parse source).1 ∧
      (a.parse source).2.1.book = (b.parse source).2.1.book ∧
      (a.parse source).2.2 = (b.parse source).2.2 := by
  have same := alike.outcome_eq source
  unfold Parser.parse
  dsimp only
  rw [same]
  exact ⟨rfl, rfl, rfl⟩

end Parser

/-- The source that a request asks to parse. -/
def Request.source? : Request → Option String
  | .parse source => some source
  | _ => none

namespace Session

/-- The sources that some requests ask to parse, after the last one to forget the diagnostics. -/
def sinceForgotten (history : List Request) : List String :=
  (history.reverse.takeWhile (· != .forget)).reverse.filterMap Request.source?

section Since

variable (history : List Request)

theorem sinceForgotten_parse (source : String) :
    sinceForgotten (history ++ [.parse source]) = sinceForgotten history ++ [source] := by
  simp [sinceForgotten, Request.source?]

theorem sinceForgotten_encode (encoding : Encoding) :
    sinceForgotten (history ++ [.encode encoding]) = sinceForgotten history := by
  simp [sinceForgotten, Request.source?]

theorem sinceForgotten_forget : sinceForgotten (history ++ [.forget]) = [] := by
  simp [sinceForgotten]

end Since

/-- A session of a parser like `fresh`, which has reported what `fresh` reports for some sources. -/
structure Follows (fresh : Parser) (sources : List String) (session : Session) : Prop where
  alike : fresh.Alike session.parser
  reported_eq : session.reported = sources.flatMap fun source => (fresh.parse source).2.2

variable {fresh : Parser} {history : List Request} {session : Session}

theorem serveAll_append (session : Session) (history more : List Request) :
    session.serveAll (history ++ more) = (session.serveAll history).serveAll more :=
  List.foldl_append

/-- One more request. -/
theorem Follows.serve (follows : Follows fresh (sinceForgotten history) session)
    (request : Request) :
    Follows fresh (sinceForgotten (history ++ [request])) (session.serve request) := by
  obtain ⟨alike, reported_eq⟩ := follows
  cases request with
  | parse source =>
    refine ⟨alike.parse source, ?_⟩
    obtain ⟨-, -, emitted⟩ := alike.parse_eq source
    show session.reported ++ (session.parser.parse source).2.2 = _
    rw [sinceForgotten_parse, List.flatMap_append, reported_eq, ← emitted]
    simp
  | encode encoding =>
    refine ⟨alike.setEncoding encoding, ?_⟩
    rw [sinceForgotten_encode]
    exact reported_eq
  | forget =>
    refine ⟨alike, ?_⟩
    rw [sinceForgotten_forget]
    rfl

/-- Any number of requests to a new parser. -/
theorem follows_serveAll (fresh : Parser) (history : List Request) :
    Follows fresh (sinceForgotten history) ((Session.mk fresh []).serveAll history) := by
  induction history using List.reverseRecOn with
  | nil => exact ⟨⟨rfl, rfl⟩, rfl⟩
  | append_singleton history request ih =>
    rw [serveAll_append]
    exact ih.serve request

/-- Whatever a parser was asked before, a parse gives what a new parser of its version gives for the
source: the same result, the same things left open, and the same diagnostics after the earlier ones.
These are what a new parser reports for the sources since they were last forgotten. -/
theorem history_irrelevant {version : Version} (created : Parser.create? version = some fresh)
    (history : List Request) (source : String) :
    let session := (Session.mk fresh []).serveAll history
    let parsed := session.parse source
    parsed.1 = (fresh.parse source).1 ∧
      parsed.2.parser.version = version ∧
      parsed.2.parser.snapshot = (fresh.parse source).2.1.snapshot ∧
      parsed.2.reported = session.reported ++ (fresh.parse source).2.2 ∧
      session.reported =
        (sinceForgotten history).flatMap fun source => (fresh.parse source).2.2 := by
  intro session parsed
  have follows : Follows fresh (sinceForgotten history) session := follows_serveAll fresh history
  obtain ⟨result_eq, book_eq, emitted_eq⟩ := follows.alike.parse_eq source
  obtain ⟨features, -, rfl⟩ := Option.map_eq_some_iff.1 created
  refine ⟨result_eq.symm, ?_, ?_, ?_, follows.reported_eq⟩
  · exact follows.alike.version_eq.symm
  · exact congrArg Bookkeeping.snapshot book_eq.symm
  · exact congrArg (session.reported ++ ·) emitted_eq.symm

/-- A parser that has rejected an open block, and has forgotten that, warns of a prefix. -/
theorem history_irrelevant_block :
    let session := (Session.mk .newest []).serveAll
      [.parse "foo \x7b |x|", .encode .utf32, .forget, .parse "foo *bar"]
    let parsed := session.parse "foo \x7b |x|"
    Parser.create? ⟨"3.2"⟩ = some .newest ∧
      parsed.1 = (Parser.newest.parse "foo \x7b |x|").1 ∧
      parsed.2.parser.snapshot = (Parser.newest.parse "foo \x7b |x|").2.1.snapshot ∧
      parsed.2.reported.length = 2 ∧
      session.reported = (Parser.newest.parse "foo *bar").2.2 := by
  intro session parsed
  have created : Parser.create? ⟨"3.2"⟩ = some .newest := rfl
  have two : parsed.2.reported.length = 2 := by decide +kernel
  obtain ⟨result_eq, -, snapshot_eq, -, reported_eq⟩ := history_irrelevant created
    [.parse "foo \x7b |x|", .encode .utf32, .forget, .parse "foo *bar"] "foo \x7b |x|"
  have since : sinceForgotten [.parse "foo \x7b |x|", .encode .utf32, .forget, .parse "foo *bar"] =
      ["foo *bar"] := by decide
  rw [since, List.flatMap_singleton] at reported_eq
  exact ⟨created, result_eq, snapshot_eq, two, reported_eq⟩

end Session

end Conformance.Dialect
