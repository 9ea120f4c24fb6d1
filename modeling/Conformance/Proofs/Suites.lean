import Conformance.Proofs.Assertions
import Conformance.Proofs.Visits
import Mathlib.Data.List.Nodup

/-! Checks of several versions, and suites of checks. A check ends as the checks of its versions one by
one do, and so the order of the versions, and what other checks left behind, make no difference. -/

namespace Conformance

namespace Run

/-- A run that ends as another one does, and leaves the same where that one fails. -/
def EndsAs (run model : Run Unit) : Prop :=
  ∀ state, run.result state = model.result state ∧
    ∀ failure, model.result state = .error failure → state.after run = state.after model

section EndsAs

variable {run model : Run Unit}

theorem EndsAs.refl (run : Run Unit) : run.EndsAs run := fun _ => ⟨rfl, fun _ _ => rfl⟩

theorem EndsAs.passes {p : Prop} (h : run.EndsAs model) (passes : model.PassesIff p) :
    run.PassesIff p := by
  refine passesIff_iff.2 fun state => ?_
  rw [(h state).1]
  exact passesIff_iff.1 passes state

theorem EndsAs.constant (h : run.EndsAs model) (constant : model.Constant) : run.Constant := by
  obtain ⟨ending, ends⟩ := constant
  exact ⟨ending, fun state => (h state).1.trans (ends state)⟩

/-- More parts, which pass after what passes. -/
theorem EndsAs.of_bind {next : Unit → Run Unit}
    (passes : ∀ state, model.result state = .ok () →
      (next ()).result (state.after model) = .ok ()) : (model >>= next).EndsAs model := by
  intro state
  rw [result_bind, after_bind]
  cases ends : model.result state with
  | ok value => exact ⟨passes state ends, fun _ failed => by cases failed⟩
  | error failure => exact ⟨rfl, fun _ _ => rfl⟩

theorem EndsAs.bind_left {α : Type} {run : Run α} {next model : α → Run Unit}
    (h : ∀ value, (next value).EndsAs (model value)) : (run >>= next).EndsAs (run >>= model) := by
  intro state
  rw [result_bind, result_bind, after_bind, after_bind]
  cases run.result state with
  | ok value => exact h value _
  | error failure => exact ⟨rfl, fun _ _ => rfl⟩

end EndsAs

end Run

namespace Family

open Run (EndsAs Judges pure_judges throw_judges ofExcept_judges diagnostics_judges unless_judges
  forM_judges shown shown_bind)

variable {Parser Node : Type} (family : Family Parser Node)

/-! ### Checks of one version -/

/-- A check that lets a subject parse a snippet, and then gives a verdict on what was reported. -/
def Examines (code : String) (check : Subject Parser → Run Unit) : Prop :=
  ∀ subject, ∃ verdict, ∀ state, state.diagnostics = [] →
    (check subject).shown state = (verdict, (family.parse subject.parser code).2.2)

theorem parseWith_examines {subject : Subject Parser} {code : String}
    {next : Except ParseFailure (Option Node) × Subject Parser → Run Unit}
    (h : ∀ parsed, (next parsed).Judges) :
    ∃ verdict, ∀ state, state.diagnostics = [] →
      (family.parseWith subject code >>= next).shown state =
        (verdict, (family.parse subject.parser code).2.2) := by
  let emitted := (family.parse subject.parser code).2.2
  obtain ⟨verdict, judged⟩ := h ((family.parse subject.parser code).1,
    { subject with parser := (family.parse subject.parser code).2.1 })
  refine ⟨verdict emitted, fun state clear => ?_⟩
  have left : (state.after (family.parseWith subject code)).diagnostics = emitted := by
    show state.diagnostics ++ emitted = emitted
    rw [clear, List.nil_append]
  rw [shown_bind]
  exact (judged (state.after (family.parseWith subject code))).trans (by rw [left])

theorem compareRange_judges (version : Version) (marking : Marking) (actual : Option Span) :
    (compareRange version marking actual).Judges := by
  unfold compareRange
  split
  · exact pure_judges ()
  · exact throw_judges _

theorem compareDiagnostic_judges (version : Version) (index : Nat) (actual : Diagnostic)
    (expected : ExpectedDiagnostic) :
    (family.compareDiagnostic version index actual expected).Judges := by
  unfold compareDiagnostic
  apply unless_judges
  apply unless_judges
  apply unless_judges
  split
  · exact throw_judges _
  · split
    · exact throw_judges _
    · exact pure_judges ()

theorem compareDiagnostics_judges (version : Version) (index : Nat) (emitted : List Diagnostic)
    (expected : List ExpectedDiagnostic) :
    (family.compareDiagnostics version index emitted expected).Judges := by
  induction emitted generalizing index expected with
  | nil => exact pure_judges ()
  | cons actual others ih =>
    cases expected with
    | nil => exact pure_judges ()
    | cons first more =>
      exact (family.compareDiagnostic_judges version index actual first).bind fun _ =>
        ih (index + 1) more

theorem expectDiagnostics_judges (version : Version) (expected : List ExpectedDiagnostic)
    (code : String) : (family.expectDiagnostics version expected code).Judges := by
  unfold expectDiagnostics
  refine diagnostics_judges.bind fun emitted => unless_judges ?_
  exact (family.compareDiagnostics_judges version 0 emitted expected).bind fun _ =>
    pure_judges emitted

/-- The diagnostics of a subject are compared, and what is found is judged further. -/
theorem checkDiagnostics_examines {code : String} (expected : List ExpectedDiagnostic)
    {next : Subject Parser → List Diagnostic → Run Unit}
    (h : ∀ subject emitted, (next subject emitted).Judges) :
    family.Examines code fun subject =>
      family.checkDiagnostics expected code subject >>= next subject := by
  intro subject
  dsimp only
  unfold checkDiagnostics parseTolerantly
  rw [bind_assoc, bind_assoc]
  apply family.parseWith_examines
  intro parsed
  apply Judges.bind
  · rcases parsed with ⟨failure | tree, subject⟩
    · cases failure with
      | rejected message => exact pure_judges ()
      | internal message => exact throw_judges _
    · exact ofExcept_judges _
  · intro _
    exact (family.expectDiagnostics_judges _ expected code).bind (h subject)

/-- What a check of diagnostics is in one version. -/
def checkReports (code : String) (expected : List ExpectedDiagnostic) (subject : Subject Parser) :
    Run Unit :=
  discard (family.checkDiagnostics expected code subject)

theorem checkReports_examines (code : String) (expected : List ExpectedDiagnostic) :
    family.Examines code (family.checkReports code expected) :=
  family.checkDiagnostics_examines expected fun _ _ => pure_judges ()

/-- What a check of one diagnostic and its ranges is in one version. -/
def checkRanges (code : String) (expected : ExpectedDiagnostic) (markings : List Marking)
    (subject : Subject Parser) : Run Unit := do
  let emitted ← family.checkDiagnostics [expected] code subject
  emitted.head?.toList.forM fun diagnostic =>
    markings.forM fun marking => do
      let actual ← Run.ofExcept (diagnosticRange subject.version diagnostic marking)
      compareRange subject.version marking (some actual)

theorem checkRanges_examines (code : String) (expected : ExpectedDiagnostic)
    (markings : List Marking) :
    family.Examines code (family.checkRanges code expected markings) := by
  refine family.checkDiagnostics_examines [expected] fun subject emitted => ?_
  refine forM_judges (fun reported => forM_judges (fun marking => ?_) _) _
  exact (ofExcept_judges _).bind fun actual => compareRange_judges _ _ _

/-- A subject that parses a snippet in the language has its tree judged. -/
theorem parseStrictly_examines {code : String}
    {next : Option Node × Subject Parser → Run Unit} (h : ∀ parsed, (next parsed).Judges)
    {subject : Subject Parser} :
    ∃ verdict, ∀ state, state.diagnostics = [] →
      (family.parseStrictly subject code >>= next).shown state =
        (verdict, (family.parse subject.parser code).2.2) := by
  unfold parseStrictly
  rw [bind_assoc]
  apply family.parseWith_examines
  intro parsed
  apply Judges.bind
  · rcases parsed with ⟨failure | tree, subject⟩
    · exact throw_judges _
    · exact pure_judges _
  · exact h

variable [Tree Node]

omit family in
theorem checkMarking_judges (version : Version) (tree : Option Node) (marking : Marking) :
    (checkMarking version tree marking).Judges := by
  unfold checkMarking
  repeat' split
  all_goals first | exact throw_judges _ | exact compareRange_judges _ _ _

theorem checkParse_examines (code : String) (expected : Option Node) (markings : List Marking) :
    family.Examines code (family.checkParse expected code markings) := by
  intro subject
  unfold checkParse
  apply family.parseStrictly_examines
  rintro ⟨tree, subject⟩
  dsimp only
  split
  · exact (forM_judges (checkMarking_judges _ _) _).bind fun _ => ofExcept_judges _
  · exact throw_judges _

/-- What a check of flags is in one version. -/
def checkFlags (code : String) (expected : List Flag) (subject : Subject Parser) : Run Unit := do
  let (tree, subject) ← family.parseStrictly subject code
  match recordedFlags tree with
  | [actual] =>
    if actual ≠ Flags.ofList expected then
      Run.mismatch subject.version (.context code (Flags.ofList expected) actual)
    family.audit subject
  | probes => throw (.fixture (.probeCount code probes.length))

theorem checkFlags_examines (code : String) (expected : List Flag) :
    family.Examines code (family.checkFlags code expected) := by
  intro subject
  unfold checkFlags
  apply family.parseStrictly_examines
  rintro ⟨tree, subject⟩
  dsimp only
  split
  · apply unless_judges
    exact ofExcept_judges _
  · exact throw_judges _

/-! ### Checks of several versions -/

variable {family}

omit [Tree Node] in
/-- Every version that a family supports can be visited, and this always ends in the same way. -/
theorem Examines.visit_settles {code : String} {check : Subject Parser → Run Unit}
    (examines : family.Examines code check) {version : Version} {parser : Parser}
    (supported : version ∈ family.versions) (created : family.create version = some parser) :
    ∃ verdict, (family.visit check version).Settles (verdict, (family.parse parser code).2.2) := by
  obtain ⟨verdict, shows⟩ := examines ⟨version, .utf8, parser⟩
  refine ⟨verdict, fun state => ?_⟩
  rw [← shows ⟨[], state.journal ++ [.create version]⟩ rfl]
  unfold shown Run.result RunState.after
  rw [family.visit_eq supported created]

/-- What is checked in the other encoding, and in the other versions, adds nothing to a check of
trees. -/
theorem Dependable.checkParse_endsAs (dependable : family.Dependable) (expected : Option Node)
    (code : String) (markings : List Marking) (requested : List Version) :
    (do
      family.withVersions requested (family.checkParse expected code markings)
      family.withVersions requested fun subject =>
        family.checkParse expected code markings (family.reencode subject .utf32)
      family.withVersions (family.versionsExcept requested) fun subject =>
        family.parseTolerantly subject code).EndsAs
      (family.withVersions requested (family.checkParse expected code markings)) := by
  apply EndsAs.of_bind
  intro state passed
  have counted := dependable.counted_passes expected code markings requested
  have again := (dependable.listed_passes expected code markings requested).bind fun _ =>
    dependable.tolerant_passes code (family.versionsExcept requested)
  exact (Run.passesIff_iff.1 again _).2 ⟨(Run.passesIff_iff.1 counted state).1 passed, trivial⟩

omit [Tree Node] in
/-- A form of check that reads the block of markings before it checks the versions. -/
theorem endsAs_of_reading {α : Type} [Inhabited α] {code : String} (read : Except Failure α)
    {check : α → Subject Parser → Run Unit} {run : List Version → Run Unit}
    (examines : ∀ value, family.Examines code (check value))
    (begins : ∀ requested, (run requested).EndsAs
      (Run.ofExcept read >>= fun value => family.withVersions requested (check value))) :
    ∃ block check, family.Examines code check ∧ ∀ requested,
      (run requested).EndsAs
        (Run.ofExcept (α := Unit) block >>= fun _ => family.withVersions requested check) := by
  cases read with
  | error failure => exact ⟨.error failure, check default, examines _, begins⟩
  | ok value => exact ⟨.ok (), check value, examines value, begins⟩

/-- Every form of check ends as the visits of its versions do, after the block of markings has been
read. -/
theorem Dependable.assert_endsAs (dependable : family.Dependable) (case : Case)
    (assertion : Assertion Node) :
    ∃ block check, family.Examines case.code check ∧ ∀ requested,
      (family.assert (case.targeting requested) assertion).EndsAs
        (Run.ofExcept (α := Unit) block >>= fun _ => family.withVersions requested check) := by
  cases assertion with
  | parses tree =>
    apply endsAs_of_reading case.readMarkings (family.checkParse_examines case.code tree)
    exact fun requested => EndsAs.bind_left fun markings =>
      dependable.checkParse_endsAs tree case.code markings requested
  | diagnoses diagnostic =>
    exact endsAs_of_reading case.readMarkings
      (family.checkRanges_examines case.code diagnostic) fun requested => .refl _
  | diagnosesMany diagnostics =>
    exact ⟨case.refuseMarkings "assert_diagnoses_many", _,
      family.checkReports_examines case.code diagnostics, fun requested => .refl _⟩
  | clean =>
    exact ⟨case.refuseMarkings "refute_diagnoses", _,
      family.checkReports_examines case.code [], fun requested => .refl _⟩
  | context flags =>
    exact ⟨case.refuseMarkings "assert_context", _,
      family.checkFlags_examines case.code flags, fun requested => .refl _⟩

/-! ### What a check ends in -/

/-- A form of check in account: what the block of markings comes to, and the verdict on each
version. -/
structure Account (family : Family Parser Node) (case : Case) (assertion : Assertion Node)
    (block : Except Failure Unit) (verdict : Version → Except Failure Unit) : Prop where
  passes : ∀ requested,
    (family.assert (case.targeting requested) assertion).PassesIff
      (block = .ok () ∧ ∀ version ∈ family.targets requested, verdict version = .ok ())
  constant : ∀ requested, (family.assert (case.targeting requested) assertion).Constant
  /-- A failure is that of the block, which comes before everything else, or that of the first version
  that fails, of which the diagnostics are left. -/
  fails : ∀ requested state failure,
    (family.assert (case.targeting requested) assertion).result state = .error failure →
      block = .error failure ∧
        state.after (family.assert (case.targeting requested) assertion) = state ∨
      block = .ok () ∧ ∃ earlier version later parser,
        family.targets requested = earlier ++ version :: later ∧
        (∀ other ∈ earlier, verdict other = .ok ()) ∧ verdict version = .error failure ∧
        family.create version = some parser ∧
        (state.after (family.assert (case.targeting requested) assertion)).diagnostics =
          (family.parse parser case.code).2.2

omit [Tree Node] in
/-- The visits of all versions settle, each with the diagnostics that a new parser reports. -/
theorem Examines.visits_settle {code : String} {check : Subject Parser → Run Unit}
    (examines : family.Examines code check)
    (create : ∀ version ∈ family.versions, ∃ parser, family.create version = some parser) :
    ∃ verdict : Version → Except Failure Unit, ∀ version ∈ family.versions, ∃ parser,
      family.create version = some parser ∧
        (family.visit check version).Settles
          (verdict version, (family.parse parser code).2.2) := by
  have each : ∀ version, ∃ verdict : Except Failure Unit, version ∈ family.versions → ∃ parser,
      family.create version = some parser ∧
        (family.visit check version).Settles (verdict, (family.parse parser code).2.2) := by
    intro version
    by_cases supported : version ∈ family.versions
    · obtain ⟨parser, created⟩ := create version supported
      obtain ⟨verdict, settles⟩ := examines.visit_settles supported created
      exact ⟨verdict, fun _ => ⟨parser, created, settles⟩⟩
    · exact ⟨.ok (), fun mem => (supported mem).elim⟩
  exact Classical.skolem.1 each

/-- Every form of check can be accounted for. -/
theorem Dependable.account (dependable : family.Dependable) (case : Case)
    (assertion : Assertion Node) : ∃ block verdict, family.Account case assertion block verdict := by
  obtain ⟨block, check, examines, endsAs⟩ := dependable.assert_endsAs case assertion
  obtain ⟨verdict, settles⟩ := examines.visits_settle dependable.create
  have visits_settle : ∀ requested, ∀ version ∈ family.targets requested, ∃ ending,
      (family.visit check version).Settles ending := by
    intro requested version targeted
    obtain ⟨_, -, settled⟩ := settles version (family.mem_targets.1 targeted).1
    exact ⟨_, settled⟩
  refine ⟨block, verdict, fun requested => ?_, fun requested => ?_, ?_⟩
  · refine (endsAs requested).passes ((Run.ofExcept_bind_passes (p := fun _ =>
      ∀ version ∈ family.targets requested, verdict version = .ok ()) fun _ => ?_).congr ?_)
    · refine Run.forM_passes fun version targeted => ?_
      obtain ⟨_, -, settled⟩ := settles version (family.mem_targets.1 targeted).1
      exact settled.passes
    · exact ⟨fun ⟨(), read, all⟩ => ⟨read, all⟩, fun ⟨read, all⟩ => ⟨(), read, all⟩⟩
  · refine (endsAs requested).constant ((Run.ofExcept_constant block).bind fun _ => ?_)
    refine Run.forM_constant fun version targeted => ?_
    obtain ⟨ending, settled⟩ := visits_settle requested version targeted
    exact settled.constant
  · intro requested state failure failed
    obtain ⟨same, leaves⟩ := endsAs requested state
    rw [same] at failed
    rw [leaves failure failed]
    cases block with
    | error fault =>
      cases failed
      exact .inl ⟨rfl, rfl⟩
    | ok value =>
      obtain ⟨earlier, version, later, split, passed, fails⟩ :=
        Run.forM_error (visits_settle requested) failed
      have supported : ∀ other ∈ earlier ++ version :: later, other ∈ family.versions :=
        fun other mem => (family.mem_targets.1 (split ▸ mem)).1
      obtain ⟨parser, created, settled⟩ := settles version (supported version (by simp))
      obtain ⟨failing, left⟩ := Prod.mk.inj (settled.unique fails)
      refine .inr ⟨rfl, earlier, version, later, parser, split, ?_, failing, created, left.symm⟩
      intro other mem
      obtain ⟨_, -, settled⟩ := settles other (supported other (by simp [mem]))
      exact (Run.passesIff_iff.1 settled.passes {}).1 ((Run.passesIff_iff.1 (passed other mem) {}).2 trivial)

/-! ### Sets of versions -/

section Sets

variable {a b : List Version}
  (same : ∀ version ∈ family.versions, version ∈ a ↔ version ∈ b)

include same

omit [Tree Node] in
theorem targets_congr : family.targets a = family.targets b := by
  apply List.filter_congr
  intro version supported
  rw [Bool.eq_iff_iff, List.contains_iff_mem, List.contains_iff_mem]
  exact same version supported

omit [Tree Node] in
theorem versionsExcept_congr : family.versionsExcept a = family.versionsExcept b := by
  apply List.filter_congr
  intro version supported
  rw [Bool.eq_iff_iff, Bool.not_eq_true', Bool.not_eq_true', ← Bool.not_eq_true,
    ← Bool.not_eq_true, List.contains_iff_mem, List.contains_iff_mem]
  exact not_congr (same version supported)

/-- Only the supported versions that are named count. -/
theorem assert_congr (case : Case) (assertion : Assertion Node) :
    family.assert (case.targeting a) assertion = family.assert (case.targeting b) assertion := by
  -- The versions of a case are all that differs, and every form asks for them in the same two ways.
  cases assertion <;>
    simp only [assert, assertParses, assertDiagnoses, assertDiagnosesMany, refuteDiagnoses,
      assertContext, Case.targeting, Case.targets, Case.readMarkings, Case.refuseMarkings,
      Option.getD_some, withVersions, targets_congr same, versionsExcept_congr same]

end Sets

/-- All versions are checked where a case names none. -/
theorem assert_targets (case : Case) (assertion : Assertion Node) :
    family.assert (case.targeting (case.targets family.versions)) assertion =
      family.assert case assertion := by
  cases assertion <;>
    simp only [assert, assertParses, assertDiagnoses, assertDiagnosesMany, refuteDiagnoses,
      assertContext, Case.targeting, Case.targets, Case.readMarkings, Case.refuseMarkings,
      Option.getD_some]

omit [Tree Node] in
theorem targets_singleton (ordered : family.versions.Nodup) {version : Version}
    (supported : version ∈ family.versions) : family.targets [version] = [version] := by
  have only : [version].contains = (· == version) := by
    funext other
    rw [Bool.eq_iff_iff, List.contains_iff_mem, List.mem_singleton, beq_iff_eq]
  unfold targets
  rw [only, List.filter_beq, List.count_eq_one_of_mem ordered supported]
  rfl

/-- What a check of one version comes to, from the account of it. -/
theorem Account.result_singleton {case : Case} {assertion : Assertion Node}
    {block : Except Failure Unit} {verdict : Version → Except Failure Unit}
    (account : family.Account case assertion block verdict) (read : block = .ok ())
    {version : Version} (alone : family.targets [version] = [version]) (state : RunState) :
    (family.assert (case.targeting [version]) assertion).result state = verdict version := by
  have passes := Run.passesIff_iff.1 (account.passes [version]) state
  rw [alone, List.forall_mem_singleton] at passes
  cases ends : (family.assert (case.targeting [version]) assertion).result state with
  | ok value => exact ((passes.1 ends).2).symm
  | error failure =>
    obtain ⟨refused, -⟩ | ⟨-, earlier, failing, later, _, split, -, fails, -⟩ :=
      account.fails [version] state failure ends
    · rw [read] at refused
      cases refused
    · have mem : failing ∈ family.targets [version] := split ▸ by simp
      rw [alone, List.mem_singleton] at mem
      rw [← fails, mem]

end Family

namespace Dialect

/-- The versions of a check count as a set: lists with the same supported versions give the same
run, and a check of two lists together passes exactly when it passes for each of them. -/
theorem versions_as_set (case : Case) (assertion : Assertion Node) :
    (∀ a b : List Version, (∀ version ∈ versions, version ∈ a ↔ version ∈ b) →
      family.assert (case.targeting a) assertion = family.assert (case.targeting b) assertion) ∧
    ∀ (a b : List Version) (state : RunState),
      (family.assert (case.targeting (a ++ b)) assertion).result state = .ok () ↔
        (family.assert (case.targeting a) assertion).result state = .ok () ∧
          (family.assert (case.targeting b) assertion).result state = .ok () := by
  refine ⟨fun a b same => Family.assert_congr same case assertion, fun a b state => ?_⟩
  obtain ⟨block, verdict, account⟩ := family_dependable.account case assertion
  have passes := fun requested => Run.passesIff_iff.1 (account.passes requested) state
  rw [passes, passes, passes]
  have union : ∀ version, version ∈ family.targets (a ++ b) ↔
      version ∈ family.targets a ∨ version ∈ family.targets b := by
    intro version
    simp only [Family.mem_targets, List.mem_append, and_or_left]
  simp only [union, or_imp, forall_and]
  exact and_and_left

/-- An order of their own, a repetition and an unknown name are of no account. -/
theorem versions_as_set_disordered :
    let case : Case := { code := "foo *bar" }
    let listed : List Version := [⟨"3.2"⟩, ⟨"9.9"⟩, ⟨"1.8"⟩, ⟨"3.2"⟩]
    let ordered : List Version := [⟨"1.8"⟩, ⟨"3.2"⟩]
    (∀ version ∈ versions, version ∈ listed ↔ version ∈ ordered) ∧
      family.assert (case.targeting listed) .clean =
        family.assert (case.targeting ordered) .clean := by
  intro case listed ordered
  have same : ∀ version ∈ versions, version ∈ listed ↔ version ∈ ordered := by decide
  exact ⟨same, (versions_as_set case .clean).1 listed ordered same⟩

/-- In a suite of checks each one ends as it does on its own. Where it fails in the versions, the
failure is that of the first targeted version that fails on its own, and the diagnostics that a new
parser of this version reports are left. -/
theorem failure_attributed (suite : List (Case × Assertion Node)) (case : Case)
    (assertion : Assertion Node) :
    let before := family.runSuite {} suite
    let run := family.assert case assertion
    run.result before = run.result {} ∧
      ∀ failure, run.result before = .error failure →
        (before.after run).journal ≠ before.journal →
        ∃ earlier version later parser,
          family.targets (case.targets versions) = earlier ++ version :: later ∧
          (∀ other ∈ earlier,
            (family.assert (case.targeting [other]) assertion).result {} = .ok ()) ∧
          (family.assert (case.targeting [version]) assertion).result {} = .error failure ∧
          Parser.create? version = some parser ∧
          (before.after run).diagnostics = (parser.parse case.code).2.2 := by
  intro before run
  obtain ⟨block, verdict, account⟩ := family_dependable.account case assertion
  have same : family.assert (case.targeting (case.targets versions)) assertion = run :=
    Family.assert_targets case assertion
  have constant := account.constant (case.targets versions)
  have fails := account.fails (case.targets versions) before
  rw [same] at constant fails
  constructor
  · obtain ⟨ending, ends⟩ := constant
    rw [ends, ends]
  · intro failure failed visited
    obtain ⟨-, unchanged⟩ | ⟨read, earlier, version, later, parser, split, passed, fails, created,
      left⟩ := fails failure failed
    · exact (visited (congrArg RunState.journal unchanged)).elim
    · have alone : ∀ other ∈ earlier ++ version :: later, ∀ state,
          (family.assert (case.targeting [other]) assertion).result state = verdict other := by
        intro other mem
        have supported := (family.mem_targets.1 (split ▸ mem)).1
        exact account.result_singleton read (Family.targets_singleton (by decide) supported)
      refine ⟨earlier, version, later, parser, split, fun other mem => ?_, ?_, created, left⟩
      · rw [alone other (by simp [mem]), passed other mem]
      · rw [alone version (by simp), fails]

/-- A check that failed before in the newest version only does not keep the oldest one, which has no
lambda literals, from being the first to fail. -/
theorem failure_attributed_lambda :
    let suite : List (Case × Assertion Node) :=
      [({ code := "foo *bar", versions := some [⟨"3.2"⟩] }, .clean)]
    let case : Case := { code := "->\x7b 1 \x7d", versions := some [⟨"3.2"⟩, ⟨"1.8"⟩] }
    let before := family.runSuite {} suite
    let run := family.assert case .clean
    let reported : Diagnostic :=
      { level := .error, reason := "unexpected_token", arguments := .ofList [("token", "tLAMBDA")],
        message := "unexpected token tLAMBDA", location := .ofLength 0 2 }
    let failure := Failure.mismatch ⟨"1.8"⟩ (.count case.code 0 [reported])
    before.diagnostics ≠ [] ∧ run.result before = .error failure ∧
      (before.after run).journal ≠ before.journal ∧ run.result {} = .error failure ∧
      ∃ earlier version later parser,
        family.targets (case.targets versions) = earlier ++ version :: later ∧
        (∀ other ∈ earlier, (family.assert (case.targeting [other]) .clean).result {} = .ok ()) ∧
        (family.assert (case.targeting [version]) .clean).result {} = .error failure ∧
        Parser.create? version = some parser ∧
        (before.after run).diagnostics = (parser.parse case.code).2.2 := by
  intro suite case before run reported failure
  have left : before.diagnostics ≠ [] := by decide +kernel
  have failed : run.result before = .error failure := by decide +kernel
  have visited : (before.after run).journal ≠ before.journal := by decide +kernel
  obtain ⟨alone, attributed⟩ := failure_attributed suite case .clean
  exact ⟨left, failed, visited, alone.symm.trans failed,
    attributed failure failed visited⟩

end Dialect

end Conformance
