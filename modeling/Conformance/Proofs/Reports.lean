import Conformance.Proofs.Suites
import Conformance.Proofs.Verdict
import Mathlib.Data.List.Forall2
import Mathlib.Data.List.Nodup
import Mathlib.Data.List.Perm.Subperm

/-! Checks of what is reported. Such a check passes exactly when every targeted version reports what is
expected, and it fails in no way for which only a parser or its catalog could be to blame. -/

namespace Conformance

/-! ### Arguments as maps -/

namespace Arguments

theorem get?_eq_some {arguments : Arguments} {name value : String} :
    arguments.get? name = some value ↔ (name, value) ∈ arguments.entries := by
  obtain ⟨entries, distinct⟩ := arguments
  unfold get?
  dsimp only
  induction entries with
  | nil => simp
  | cons entry rest ih =>
    obtain ⟨fresh, distinct⟩ := List.nodup_cons.1 distinct
    by_cases here : entry.1 = name
    · have absent : (name, value) ∉ rest := fun mem => fresh (here ▸ List.mem_map_of_mem mem)
      rw [List.find?_cons_of_pos (by simpa using here), List.mem_cons, or_iff_left absent]
      constructor
      · intro found
        rw [← Option.some.inj found, ← here]
      · intro found
        rw [← found]
        rfl
    · have differs : (name, value) ≠ entry := fun same => here (by rw [← same])
      rw [List.find?_cons_of_neg (by simpa using here), List.mem_cons, or_iff_right differs]
      exact ih distinct

theorem nodup_entries (arguments : Arguments) : arguments.entries.Nodup :=
  List.Nodup.of_map Prod.fst arguments.distinct

/-- Arguments are the same exactly when they give every name the same value. -/
theorem same_iff {a b : Arguments} :
    a.same b = true ↔ ∀ name, a.get? name = b.get? name := by
  have agree : (∀ name, a.get? name = b.get? name) ↔ a.entries.Perm b.entries := by
    rw [List.perm_ext_iff_of_nodup a.nodup_entries b.nodup_entries]
    constructor
    · rintro equal ⟨name, value⟩
      rw [← get?_eq_some, ← get?_eq_some, equal]
    · intro equal name
      apply Option.ext
      intro value
      rw [get?_eq_some, get?_eq_some, equal]
  rw [agree]
  unfold same
  rw [Bool.and_eq_true, beq_iff_eq, List.all_eq_true]
  simp only [beq_iff_eq, get?_eq_some]
  constructor
  · rintro ⟨length, held⟩
    have subset : a.entries ⊆ b.entries := fun entry mem => held entry mem
    exact (List.Nodup.subperm a.nodup_entries subset).perm_of_length_le
      (Nat.le_of_eq length.symm)
  · intro perm
    exact ⟨perm.length_eq, fun entry mem => perm.subset mem⟩

end Arguments

/-- A diagnostic has the level, the reason and the arguments that are expected. -/
structure Diagnostic.Meets (actual : Diagnostic) (expected : ExpectedDiagnostic) : Prop where
  level : actual.level = expected.level
  reason : actual.reason = expected.reason
  arguments : ∀ name, actual.arguments.get? name = expected.arguments.get? name

/-- The number of the highlight that a marking means: the first one without a path, and otherwise the
one whose number is the only step of the path. -/
inductive Marking.Numbers (marking : Marking) : Nat → Prop where
  | first (path : marking.path = []) : marking.Numbers 0
  | nth {digits : String} {index : Nat} (path : marking.path = [⟨digits, 0⟩])
    (number : Text.word64? digits.toList = some index) : marking.Numbers index

/-- The range of a diagnostic that a marking selects. -/
inductive Diagnostic.Selects (d : Diagnostic) (marking : Marking) : Span → Prop where
  | location (field : marking.field = "location") : d.Selects marking d.location
  | highlight {index : Nat} {span : Span} (field : marking.field = "highlights")
    (numbers : marking.Numbers index) (held : d.highlights[index]? = some span) :
    d.Selects marking span

/-- A diagnostic has the range that a marking states. -/
def Diagnostic.Marked (d : Diagnostic) (marking : Marking) : Prop :=
  ∃ span, d.Selects marking span ∧ marking.range = some span

/-- A failure for which only a parser, or the catalog of its messages, could be to blame. -/
def Failure.OfParser : Failure → Prop
  | .unknownReason _ | .dirtyState _ _ | .parse _ _ | .mismatch _ (.message _ _ _) => True
  | _ => False

namespace Run

/-- A run that passes exactly when `p` holds, and of which no failure is one of the parser. -/
structure Decides (run : Run Unit) (p : Prop) : Prop where
  passes : ∀ state, run.result state = .ok () ↔ p
  fails : ∀ state failure, run.result state = .error failure → ¬ failure.OfParser

variable {run : Run Unit} {p q : Prop}

theorem Decides.congr (h : run.Decides p) (hpq : p ↔ q) : run.Decides q :=
  ⟨fun state => (h.passes state).trans hpq, h.fails⟩

/-- A run that ends as another one does from some state. -/
theorem Decides.of_result {model : Run Unit} (h : model.Decides p)
    (same : ∀ state, ∃ other, run.result state = model.result other) : run.Decides p := by
  constructor
  · intro state
    obtain ⟨other, ends⟩ := same state
    rw [ends]
    exact h.passes other
  · intro state failure failed
    obtain ⟨other, ends⟩ := same state
    exact h.fails other failure (ends ▸ failed)

theorem pure_decides : Decides (pure ()) True where
  passes _ := iff_of_true rfl trivial
  fails _ failure failed := by
    have passed : Except.ok () = Except.error failure := failed
    cases passed

theorem throw_decides {failure : Failure} (h : ¬ failure.OfParser) :
    Decides (throw failure) False := by
  constructor
  · intro state
    exact iff_of_false nofun id
  · intro state found failed
    cases failed
    exact h

theorem Decides.bind {next : Unit → Run Unit} (h : run.Decides p) (hn : (next ()).Decides q) :
    (run >>= next).Decides (p ∧ q) := by
  constructor
  · intro state
    rw [result_bind, ← h.passes state, ← hn.passes (state.after run)]
    cases run.result state with
    | ok value => exact (and_iff_right rfl).symm
    | error failure => exact iff_of_false nofun nofun
  · intro state failure failed
    rw [result_bind] at failed
    cases first : run.result state with
    | ok value =>
      rw [first] at failed
      exact hn.fails _ failure failed
    | error fault =>
      rw [first] at failed
      cases failed
      exact h.fails state failure first

theorem forM_decides {α : Type} {check : α → Run Unit} {p : α → Prop} {items : List α}
    (h : ∀ item ∈ items, (check item).Decides (p item)) :
    (items.forM check).Decides (∀ item ∈ items, p item) := by
  induction items with
  | nil => exact pure_decides.congr (by simp)
  | cons item items ih =>
    obtain ⟨first, others⟩ := List.forall_mem_cons.1 h
    exact (first.bind (ih others)).congr List.forall_mem_cons.symm

theorem ofExcept_bind_decides {α : Type} {result : Except Failure α} {next : α → Run Unit}
    {p : α → Prop} (hr : ∀ failure, result = .error failure → ¬ failure.OfParser)
    (hn : ∀ value, (next value).Decides (p value)) :
    (Run.ofExcept result >>= next).Decides (∃ value, result = .ok value ∧ p value) := by
  cases result with
  | ok value =>
    refine ((hn value).of_result fun state => ⟨state, rfl⟩).congr ?_
    simp
  | error failure =>
    refine ((throw_decides (hr failure rfl)).of_result fun state => ⟨state, rfl⟩).congr ?_
    simp

/-- A difference that is looked for before the rest of a run. -/
theorem unless_decides {condition : Prop} [Decidable condition] {version : Version}
    {difference : Mismatch} {next : Unit → Run Unit} (same : ¬ condition ↔ p)
    (h : ¬ (Failure.mismatch version difference).OfParser) (hn : p → (next ()).Decides q) :
    (if condition then mismatch version difference >>= next else next ()).Decides (p ∧ q) := by
  split
  · rename_i holds
    refine ((throw_decides h).of_result fun state => ⟨state, rfl⟩).congr ?_
    exact iff_of_false id fun both => same.2 both.1 holds
  · rename_i fails
    exact (hn (same.1 fails)).congr (and_iff_right (same.1 fails)).symm

end Run

/-! ### Blocks of markings -/

namespace Case

theorem readMarkings_failure {case : Case} {failure : Failure}
    (h : case.readMarkings = .error failure) : ¬ failure.OfParser := by
  unfold readMarkings at h
  split at h
  · cases h
  · cases h
    exact id

/-- A case may go without markings exactly when its block has nothing but empty lines. -/
theorem refuseMarkings_eq_ok {case : Case} {form : String} :
    case.refuseMarkings form = .ok () ↔ Marking.readBlock case.markings = ([], none) := by
  rw [← readMarkings_eq_ok]
  unfold refuseMarkings
  cases case.readMarkings with
  | error failure => exact iff_of_false nofun nofun
  | ok markings =>
    cases markings with
    | nil => exact iff_of_true rfl rfl
    | cons marking others => exact iff_of_false nofun nofun

theorem refuseMarkings_failure {case : Case} {form : String} {failure : Failure}
    (h : case.refuseMarkings form = .error failure) : ¬ failure.OfParser := by
  unfold refuseMarkings at h
  cases read : case.readMarkings with
  | error fault =>
    rw [read] at h
    cases h
    exact readMarkings_failure read
  | ok markings =>
    rw [read] at h
    cases markings with
    | nil => cases h
    | cons marking others =>
      cases h
      exact id

end Case

/-! ### Ranges of a diagnostic -/

theorem highlightIndex_eq_ok {marking : Marking} {index : Nat} :
    highlightIndex marking = .ok index ↔ marking.Numbers index := by
  constructor
  · intro found
    unfold highlightIndex at found
    split at found
    · rename_i path
      cases found
      exact .first path
    · rename_i digits path
      split at found
      · rename_i number
        cases found
        exact .nth path number
      · cases found
    · cases found
  · intro numbers
    unfold highlightIndex
    cases numbers with
    | first path => rw [path]
    | nth path number => simp only [path, number]

theorem highlightIndex_failure {marking : Marking} {failure : Failure}
    (h : highlightIndex marking = .error failure) : ¬ failure.OfParser := by
  unfold highlightIndex at h
  split at h
  · cases h
  · split at h
    · cases h
    · cases h
      exact id
  · cases h
    exact id

section Range

variable {version : Version} {d : Diagnostic} {marking : Marking}

theorem diagnosticRange_highlights (field : marking.field = "highlights") :
    diagnosticRange version d marking = (highlightIndex marking).bind fun index =>
      match d.highlights[index]? with
      | some span => .ok span
      | none => .error (.mismatch version (.noHighlight index d.highlights.length)) := by
  unfold diagnosticRange
  rw [if_neg (by rw [field]; decide), if_pos field]
  rfl

theorem diagnosticRange_unknown (location : marking.field ≠ "location")
    (highlights : marking.field ≠ "highlights") :
    diagnosticRange version d marking = .error (.unknownDiagnosticField marking.field) := by
  unfold diagnosticRange
  rw [if_neg location, if_neg highlights]

/-- A marking selects a range, or it is the marking or the count of the highlights that is wrong. -/
theorem diagnosticRange_total (version : Version) (d : Diagnostic) (marking : Marking) :
    (∃ span, diagnosticRange version d marking = .ok span ∧ d.Selects marking span) ∨
      ∃ failure, diagnosticRange version d marking = .error failure ∧ ¬ failure.OfParser := by
  by_cases location : marking.field = "location"
  · exact .inl ⟨d.location, if_pos location, .location location⟩
  · by_cases highlights : marking.field = "highlights"
    · rw [diagnosticRange_highlights highlights]
      cases numbered : highlightIndex marking with
      | error failure => exact .inr ⟨failure, rfl, highlightIndex_failure numbered⟩
      | ok index =>
        dsimp only [Except.bind]
        cases held : d.highlights[index]? with
        | none => exact .inr ⟨_, rfl, id⟩
        | some span =>
          have numbers := highlightIndex_eq_ok.1 numbered
          exact .inl ⟨span, rfl, .highlight highlights numbers held⟩
    · exact .inr ⟨_, diagnosticRange_unknown location highlights, id⟩

theorem diagnosticRange_eq_ok {span : Span} :
    diagnosticRange version d marking = .ok span ↔ d.Selects marking span := by
  constructor
  · intro found
    rcases diagnosticRange_total version d marking with
      ⟨other, same, selects⟩ | ⟨failure, failed, -⟩
    · rw [found] at same
      cases same
      exact selects
    · rw [found] at failed
      cases failed
  · intro selects
    cases selects with
    | location field => exact if_pos field
    | highlight field numbers held =>
      rw [diagnosticRange_highlights field, highlightIndex_eq_ok.2 numbers]
      dsimp only [Except.bind]
      rw [held]

theorem diagnosticRange_failure {failure : Failure}
    (h : diagnosticRange version d marking = .error failure) : ¬ failure.OfParser := by
  rcases diagnosticRange_total version d marking with
    ⟨span, found, -⟩ | ⟨other, failed, ours⟩
  · rw [h] at found
    cases found
  · rw [h] at failed
    cases failed
    exact ours

theorem compareRange_decides {actual : Option Span} :
    (compareRange version marking actual).Decides (marking.range = actual) := by
  unfold compareRange
  split
  · rename_i same
    exact Run.pure_decides.congr (iff_of_true trivial same)
  · rename_i differs
    exact (Run.throw_decides id).congr (iff_of_false id differs)

/-- What is asked of one marking of a diagnostic. -/
theorem markedRange_decides :
    (Run.ofExcept (diagnosticRange version d marking) >>= fun actual =>
      compareRange version marking (some actual)).Decides (d.Marked marking) := by
  refine (Run.ofExcept_bind_decides (fun _ => diagnosticRange_failure) fun actual =>
    compareRange_decides).congr ?_
  simp only [diagnosticRange_eq_ok]
  rfl

end Range

namespace Family

open Run (Decides pure_decides throw_decides forM_decides ofExcept_bind_decides unless_decides)

variable {Parser Node : Type} (family : Family Parser Node)

/-- The diagnostics of a family have the messages that it compiles for them, and the order of the
arguments of a message is of no account. -/
structure Catalogued : Prop where
  compiled : ∀ parser code, ∀ d ∈ (family.parse parser code).2.2,
    family.compile d.reason d.arguments = some d.message
  unordered : ∀ (reason : String) (a b : Arguments), (∀ name, a.get? name = b.get? name) →
    family.compile reason a = family.compile reason b

variable {family}

theorem Catalogued.compareDiagnostic_decides (catalogued : family.Catalogued) (version : Version)
    (index : Nat) {actual : Diagnostic} {expected : ExpectedDiagnostic}
    (compiled : family.compile actual.reason actual.arguments = some actual.message) :
    (family.compareDiagnostic version index actual expected).Decides (actual.Meets expected) := by
  have arguments : ¬ (!actual.arguments.same expected.arguments) = true ↔
      ∀ name, actual.arguments.get? name = expected.arguments.get? name := by
    rw [← Arguments.same_iff, Bool.not_eq_true', Bool.not_eq_false]
  have meets : actual.Meets expected ↔ actual.level = expected.level ∧
      actual.reason = expected.reason ∧
      (∀ name, actual.arguments.get? name = expected.arguments.get? name) ∧ True := by
    constructor
    · exact fun ⟨level, reason, arguments⟩ => ⟨level, reason, arguments, trivial⟩
    · exact fun ⟨level, reason, arguments, _⟩ => ⟨level, reason, arguments⟩
  refine Decides.congr ?_ meets.symm
  unfold compareDiagnostic
  apply unless_decides not_not id
  intro level
  apply unless_decides not_not id
  intro reason
  apply unless_decides arguments id
  intro same
  -- The message compiled for what is expected is the one that the diagnostic has.
  rw [← reason, ← catalogued.unordered _ _ _ same, compiled]
  dsimp only
  rw [if_neg (not_not.2 rfl)]
  exact pure_decides

theorem Catalogued.compareDiagnostics_decides (catalogued : family.Catalogued) (version : Version)
    (index : Nat) {emitted : List Diagnostic} {expected : List ExpectedDiagnostic}
    (compiled : ∀ d ∈ emitted, family.compile d.reason d.arguments = some d.message)
    (length : emitted.length = expected.length) :
    (family.compareDiagnostics version index emitted expected).Decides
      (List.Forall₂ Diagnostic.Meets emitted expected) := by
  induction emitted generalizing index expected with
  | nil =>
    cases expected with
    | nil => exact pure_decides.congr (by simp)
    | cons => cases length
  | cons actual others ih =>
    cases expected with
    | nil => cases length
    | cons first more =>
      obtain ⟨here, later⟩ := List.forall_mem_cons.1 compiled
      exact ((catalogued.compareDiagnostic_decides version index here).bind
        (ih (index + 1) later (Nat.succ.inj length))).congr List.forall₂_cons.symm

/-- The comparison of given diagnostics with the expected ones, and what is done after it. -/
def compareAll (family : Family Parser Node) (version : Version)
    (expected : List ExpectedDiagnostic) (code : String) (emitted : List Diagnostic)
    (next : Run Unit) : Run Unit := do
  if emitted.length ≠ expected.length then
    Run.mismatch version (.count code expected.length emitted)
  family.compareDiagnostics version 0 emitted expected
  next

theorem expectDiagnostics_result (version : Version) (expected : List ExpectedDiagnostic)
    (code : String) (next : List Diagnostic → Run Unit) (state : RunState) :
    (family.expectDiagnostics version expected code >>= next).result state =
      (family.compareAll version expected code state.diagnostics
        (next state.diagnostics)).result state := by
  unfold expectDiagnostics compareAll
  rw [bind_assoc, Run.result_bind]
  show Run.result (_ >>= next) state = _
  by_cases length : state.diagnostics.length = expected.length
  · rw [if_neg (not_not.2 length), if_neg (not_not.2 length), bind_assoc]
    rfl
  · rw [if_pos length, if_pos length]
    rfl

theorem Catalogued.compareAll_decides (catalogued : family.Catalogued) (version : Version)
    {expected : List ExpectedDiagnostic} (code : String) {emitted : List Diagnostic}
    (compiled : ∀ d ∈ emitted, family.compile d.reason d.arguments = some d.message)
    {next : Run Unit} {p : Prop} (h : next.Decides p) :
    (family.compareAll version expected code emitted next).Decides
      (List.Forall₂ Diagnostic.Meets emitted expected ∧ p) := by
  have decides : (family.compareAll version expected code emitted next).Decides
      (emitted.length = expected.length ∧
        List.Forall₂ Diagnostic.Meets emitted expected ∧ p) := by
    unfold compareAll
    apply unless_decides not_not id
    intro length
    exact (catalogued.compareDiagnostics_decides version 0 compiled length).bind h
  refine decides.congr (and_iff_right_of_imp ?_)
  exact fun both => both.1.length_eq

variable [Tree Node] {version : Version} {parser : Parser}

/-- A reliable parser puts what it reports of a snippet where nothing was reported. -/
theorem Reliable.parseTolerantly_shown {subject : Subject Parser}
    (reliable : family.Reliable subject.parser) (code : String) {state : RunState}
    (clear : state.diagnostics = []) :
    (family.parseTolerantly subject code).shown state =
      (.ok (), (family.parse subject.parser code).2.2) := by
  have read : (family.parseWith subject code).result state =
      .ok ((family.parse subject.parser code).1,
        { subject with parser := (family.parse subject.parser code).2.1 }) := rfl
  have left : (state.after (family.parseWith subject code)).diagnostics =
      (family.parse subject.parser code).2.2 := by
    show state.diagnostics ++ (family.parse subject.parser code).2.2 = _
    rw [clear, List.nil_append]
  unfold parseTolerantly
  rw [Run.shown_bind, read, ← left]
  dsimp only
  cases parsed : (family.parse subject.parser code).1 with
  | error failure =>
    obtain ⟨message, rfl⟩ := reliable.rejects parsed
    rfl
  | ok tree =>
    unfold audit
    dsimp only
    rw [reliable.clean parsed]
    rfl

/-- A visit compares what a new parser reports of a snippet, and then goes on with it. -/
theorem Catalogued.visit_decides (catalogued : family.Catalogued)
    (supported : version ∈ family.versions) (created : family.create version = some parser)
    (reliable : family.Reliable parser) {code : String} {expected : List ExpectedDiagnostic}
    {next : Subject Parser → List Diagnostic → Run Unit} {p : Prop}
    (h : (next ⟨version, .utf8, parser⟩ (family.parse parser code).2.2).Decides p) :
    (family.visit (fun subject =>
        family.checkDiagnostics expected code subject >>= next subject) version).Decides
      (List.Forall₂ Diagnostic.Meets (family.parse parser code).2.2 expected ∧ p) := by
  have compiled := catalogued.compiled parser code
  refine (catalogued.compareAll_decides version code compiled h).of_result fun state => ?_
  let subject : Subject Parser := ⟨version, .utf8, parser⟩
  let made : RunState := ⟨[], state.journal ++ [.create version]⟩
  have shown : (family.parseTolerantly subject code).shown made =
      (.ok (), (family.parse parser code).2.2) := Reliable.parseTolerantly_shown reliable code rfl
  obtain ⟨passed, left⟩ := Prod.mk.inj shown
  refine ⟨made.after (family.parseTolerantly subject code), ?_⟩
  calc (family.visit _ version).result state
      = (family.checkDiagnostics expected code subject >>= next subject).result made := by
        unfold Run.result
        rw [family.visit_eq supported created]
    _ = (family.expectDiagnostics version expected code >>= next subject).result
          (made.after (family.parseTolerantly subject code)) := by
        unfold checkDiagnostics
        rw [bind_assoc, Run.result_bind, passed]
        rfl
    _ = _ := by
        rw [expectDiagnostics_result, left]

variable {requested : List Version}

omit [Tree Node] in
theorem withVersions_decides {check : Subject Parser → Run Unit} {p : Version → Prop}
    (h : ∀ version ∈ family.versions, (family.visit check version).Decides (p version)) :
    (family.withVersions requested check).Decides
      (∀ version ∈ family.versions, version ∈ requested → p version) := by
  unfold withVersions
  refine (forM_decides fun version mem => h version (family.mem_targets.1 mem).1).congr ?_
  simp only [mem_targets, and_imp]

variable (dependable : family.Dependable) (catalogued : family.Catalogued)

include dependable catalogued

/-- The check of what every requested version reports. -/
theorem reports_decides (expected : List ExpectedDiagnostic) (code : String) :
    (family.withVersions requested fun subject =>
        discard (family.checkDiagnostics expected code subject)).Decides
      (∀ version ∈ family.versions, version ∈ requested → ∃ parser,
        family.create version = some parser ∧
          List.Forall₂ Diagnostic.Meets (family.parse parser code).2.2 expected) := by
  apply withVersions_decides
  intro version supported
  obtain ⟨parser, created⟩ := dependable.create version supported
  have reliable := dependable.reliable version parser created
  refine (catalogued.visit_decides supported created reliable pure_decides).congr ?_
  rw [created, and_true]
  simp

/-- The same check for one diagnostic, with the markings of it. -/
theorem marked_decides (expected : ExpectedDiagnostic) (code : String) (markings : List Marking) :
    (family.withVersions requested (family.checkRanges code expected markings)).Decides
      (∀ version ∈ family.versions, version ∈ requested → ∃ parser,
        family.create version = some parser ∧
          List.Forall₂ Diagnostic.Meets (family.parse parser code).2.2 [expected] ∧
            ∀ d ∈ (family.parse parser code).2.2, ∀ marking ∈ markings, d.Marked marking) := by
  apply withVersions_decides
  intro version supported
  obtain ⟨parser, created⟩ := dependable.create version supported
  have reliable := dependable.reliable version parser created
  refine (catalogued.visit_decides supported created reliable (forM_decides fun d _ =>
    forM_decides fun marking _ => markedRange_decides)).congr ?_
  rw [created]
  simp only [Option.some.injEq, exists_eq_left']
  apply and_congr_right
  intro meets
  -- There is one diagnostic, and so the first one is all of them.
  generalize (family.parse parser code).2.2 = emitted at meets ⊢
  cases meets with
  | cons _ rest =>
    cases rest
    rfl

/-- A check of diagnostics in a form that has no use for markings. -/
theorem unmarked_decides (form : String) (expected : List ExpectedDiagnostic) (case : Case) :
    (Run.ofExcept (case.refuseMarkings form) >>= fun _ =>
        family.withVersions (case.targets family.versions) fun subject =>
          discard (family.checkDiagnostics expected case.code subject)).Decides
      (Marking.readBlock case.markings = ([], none) ∧
        ∀ version ∈ family.versions, version ∈ case.targets family.versions → ∃ parser,
          family.create version = some parser ∧
            List.Forall₂ Diagnostic.Meets (family.parse parser case.code).2.2 expected) := by
  refine (ofExcept_bind_decides (fun _ => Case.refuseMarkings_failure) fun _ =>
    reports_decides dependable catalogued expected case.code).congr ?_
  constructor
  · rintro ⟨⟨⟩, refused, all⟩
    exact ⟨Case.refuseMarkings_eq_ok.1 refused, all⟩
  · rintro ⟨empty, all⟩
    exact ⟨(), Case.refuseMarkings_eq_ok.2 empty, all⟩

theorem assertDiagnoses_decides (expected : ExpectedDiagnostic) (case : Case) :
    (family.assertDiagnoses expected case).Decides
      (∃ markings, Marking.readBlock case.markings = (markings, none) ∧
        ∀ version ∈ family.versions, version ∈ case.targets family.versions → ∃ parser,
          family.create version = some parser ∧
            List.Forall₂ Diagnostic.Meets (family.parse parser case.code).2.2 [expected] ∧
              ∀ d ∈ (family.parse parser case.code).2.2, ∀ marking ∈ markings,
                d.Marked marking) := by
  unfold assertDiagnoses
  refine (ofExcept_bind_decides (fun _ => Case.readMarkings_failure) fun markings =>
    marked_decides dependable catalogued expected case.code markings).congr ?_
  simp only [Case.readMarkings_eq_ok]

end Family

namespace Dialect

theorem compileMessage?_congr (code : String) {a b : Arguments}
    (h : ∀ name, a.get? name = b.get? name) : compileMessage? code a = compileMessage? code b := by
  have render : MessagePart.render? a = MessagePart.render? b := by
    funext part
    cases part with
    | text piece => rfl
    | argument name => exact h name
  unfold compileMessage? Reason.message?
  rw [render]

theorem family_catalogued : family.Catalogued where
  compiled := fun parser code d mem => ((parser.parse_agrees code).2 d mem).message
  unordered := fun code _ _ same => compileMessage?_congr code same

/-- A check of several diagnostics passes exactly when the block has no markings and a new parser of
every targeted version reports as many, each in its place with the level, the reason and the arguments
that are expected. A check that nothing is reported is the one of no diagnostics. A check of one
diagnostic asks as well that every marking states the location of the diagnostic or the highlight that
it selects. These checks never fail as only a parser or its catalog could be to blame for. -/
theorem reports_decided (case : Case) :
    (∀ expected, (family.assertDiagnosesMany expected case).Decides
      (Marking.readBlock case.markings = ([], none) ∧
        ∀ version ∈ versions, version ∈ case.targets versions → ∃ parser,
          Parser.create? version = some parser ∧
            List.Forall₂ Diagnostic.Meets (parser.parse case.code).2.2 expected)) ∧
    (family.refuteDiagnoses case).Decides
      (Marking.readBlock case.markings = ([], none) ∧
        ∀ version ∈ versions, version ∈ case.targets versions → ∃ parser,
          Parser.create? version = some parser ∧ (parser.parse case.code).2.2 = []) ∧
    ∀ expected, (family.assertDiagnoses expected case).Decides
      (∃ markings, Marking.readBlock case.markings = (markings, none) ∧
        ∀ version ∈ versions, version ∈ case.targets versions → ∃ parser,
          Parser.create? version = some parser ∧
            List.Forall₂ Diagnostic.Meets (parser.parse case.code).2.2 [expected] ∧
              ∀ d ∈ (parser.parse case.code).2.2, ∀ marking ∈ markings, d.Marked marking) := by
  refine ⟨fun expected => ?_, ?_, fun expected => ?_⟩
  · exact Family.unmarked_decides family_dependable family_catalogued _ expected case
  · have decides := Family.unmarked_decides family_dependable family_catalogued
      "refute_diagnoses" [] case
    simp only [List.forall₂_nil_right_iff] at decides
    exact decides
  · exact Family.assertDiagnoses_decides family_dependable family_catalogued expected case

example : (family.assertDiagnoses ⟨.warning, "ambiguous_prefix", .ofList [("prefix", "*")]⟩
    { code := "foo *bar", markings := "    ^ location" }).result {} = .ok () := by
  decide +kernel

end Dialect

end Conformance
