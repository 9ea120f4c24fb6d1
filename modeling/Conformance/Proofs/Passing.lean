import Conformance.Harness.Assertion

/-! When a run passes. What a run keeps does not decide it for the checks of trees, so that a run of
several parts passes exactly when each of them does. -/

namespace Conformance

namespace Run

variable {α : Type}

theorem bind_ok {β : Type} {run : Run α} {state after : RunState} {value : α}
    (first : run state = .ok value after) (next : α → Run β) :
    (run >>= next) state = next value after := by
  show EStateM.bind run next state = _
  unfold EStateM.bind
  rw [first]

theorem bind_error {β : Type} {run : Run α} {state after : RunState} {failure : Failure}
    (first : run state = .error failure after) (next : α → Run β) :
    (run >>= next) state = .error failure after := by
  show EStateM.bind run next state = _
  unfold EStateM.bind
  rw [first]

/-- From every state, a run passes exactly when `p` holds. -/
def PassesIff (run : Run α) (p : Prop) : Prop :=
  ∀ state, (∃ value after, run state = .ok value after) ↔ p

theorem PassesIff.congr {run : Run α} {p q : Prop} (h : run.PassesIff p) (hpq : p ↔ q) :
    run.PassesIff q := fun state => (h state).trans hpq

theorem pure_passes (value : α) : PassesIff (pure value) True :=
  fun state => iff_of_true ⟨value, state, rfl⟩ trivial

theorem throw_passes (failure : Failure) : PassesIff (throw failure : Run α) False := by
  intro state
  refine iff_of_false ?_ id
  rintro ⟨value, after, h⟩
  cases h

theorem throw_bind_passes {β : Type} (failure : Failure) (next : α → Run β) :
    PassesIff (throw failure >>= next) False := by
  intro state
  refine iff_of_false ?_ id
  rintro ⟨value, after, h⟩
  cases h

theorem PassesIff.bind {β : Type} {run : Run α} {next : α → Run β} {p q : Prop}
    (h : run.PassesIff p) (hn : ∀ value, (next value).PassesIff q) :
    (run >>= next).PassesIff (p ∧ q) := by
  intro state
  rw [← h state]
  cases first : run state with
  | ok value after =>
    rw [bind_ok first]
    constructor
    · intro passes
      exact ⟨⟨value, after, rfl⟩, (hn value after).1 passes⟩
    · rintro ⟨-, hq⟩
      exact (hn value after).2 hq
  | error failure after =>
    rw [bind_error first]
    constructor
    · rintro ⟨_, _, none⟩
      cases none
    · rintro ⟨⟨_, _, none⟩, -⟩
      cases none

/-- A step that passes from every state with one value. -/
theorem bind_passes {β : Type} {run : Run α} {next : α → Run β} {value : α} {p : Prop}
    (h : ∀ state, ∃ after, run state = .ok value after) (hn : (next value).PassesIff p) :
    (run >>= next).PassesIff p := by
  intro state
  obtain ⟨after, first⟩ := h state
  rw [bind_ok first]
  exact hn after

theorem ofExcept_bind_passes {β : Type} {result : Except Failure α} {next : α → Run β}
    {p : α → Prop} (hn : ∀ value, (next value).PassesIff (p value)) :
    (ofExcept result >>= next).PassesIff (∃ value, result = .ok value ∧ p value) := by
  cases result with
  | ok value =>
    refine bind_passes (fun state => ⟨state, rfl⟩) ((hn value).congr ?_)
    constructor
    · exact fun hp => ⟨value, rfl, hp⟩
    · rintro ⟨found, same, hp⟩
      cases same
      exact hp
  | error failure =>
    refine (throw_bind_passes failure next).congr ?_
    simp

theorem forM_passes {check : α → Run Unit} {p : α → Prop} {items : List α}
    (h : ∀ item ∈ items, (check item).PassesIff (p item)) :
    (items.forM check).PassesIff (∀ item ∈ items, p item) := by
  induction items with
  | nil => exact (pure_passes ()).congr (by simp)
  | cons item items ih =>
    obtain ⟨first, others⟩ := List.forall_mem_cons.1 h
    show (check item >>= fun _ => items.forM check).PassesIff _
    exact (first.bind fun _ => ih others).congr List.forall_mem_cons.symm

theorem ofExcept_passes {result : Except Failure α} :
    (ofExcept result).PassesIff (∃ value, result = .ok value) := by
  cases result with
  | ok value => exact (pure_passes value).congr (by simp)
  | error failure => exact (throw_passes failure).congr (by simp)

end Run

namespace Case

/-- A case has markings exactly when its whole block can be decoded. -/
theorem readMarkings_eq_ok {case : Case} {markings : List Marking} :
    case.readMarkings = .ok markings ↔ Marking.readBlock case.markings = (markings, none) := by
  unfold readMarkings
  split
  · rename_i found hb
    rw [hb, Except.ok.injEq, Prod.mk.injEq]
    exact ⟨fun h => ⟨h, rfl⟩, fun h => h.1⟩
  · rename_i line hb
    rw [hb]
    simp

end Case

/-- A node of a tree has the range that a marking states. -/
def Marking.Holds {Node : Type} [Tree Node] (tree : Option Node) (marking : Marking) : Prop :=
  ∃ node location, (tree.bind fun root => Tree.resolve root marking.path) = some node ∧
    Tree.location? node = some location ∧ location.field? marking.field = some marking.range

namespace Family

open Run

variable {Parser Node : Type} [Tree Node] (family : Family Parser Node)

/-- A parser accepts a snippet with a tree in which the markings hold. -/
structure Accepts (parser : Parser) (code : String) (expected : Option Node)
    (markings : List Marking) (tree : Option Node) : Prop where
  result : (family.parse parser code).1 = .ok tree
  same : sameTree tree expected = true
  markings : ∀ marking ∈ markings, marking.Holds tree

theorem accepts_congr {p q : Parser} {code : String}
    (h : (family.parse p code).1 = (family.parse q code).1) (expected : Option Node)
    (markings : List Marking) (tree : Option Node) :
    family.Accepts p code expected markings tree ↔
      family.Accepts q code expected markings tree := by
  constructor
  · exact fun accepts => ⟨h ▸ accepts.result, accepts.same, accepts.markings⟩
  · exact fun accepts => ⟨h ▸ accepts.result, accepts.same, accepts.markings⟩

/-- Every location that markings may lead to is frozen. -/
def Frozen (tree : Option Node) : Prop :=
  ∀ path node location, (tree.bind fun root => Tree.resolve root path) = some node →
    Tree.location? node = some location → location.frozen = true

theorem compareRange_passes (version : Version) (marking : Marking) (actual : Option Span) :
    (compareRange version marking actual).PassesIff (marking.range = actual) := by
  unfold compareRange
  split
  · rename_i h
    exact (pure_passes ()).congr (iff_of_true trivial h)
  · rename_i h
    exact (throw_passes _).congr (iff_of_false id h)

theorem checkMarking_passes {tree : Option Node} (frozen : Frozen tree) (version : Version)
    (marking : Marking) : (checkMarking version tree marking).PassesIff (marking.Holds tree) := by
  unfold checkMarking Marking.Holds
  cases hn : tree.bind fun root => Tree.resolve root marking.path with
  | none => exact (throw_passes _).congr (by simp)
  | some node =>
    dsimp only
    cases hl : Tree.location? node with
    | none => exact (throw_passes _).congr (by simp [hl])
    | some location =>
      dsimp only
      rw [if_pos (frozen _ _ _ hn hl)]
      cases hf : location.field? marking.field with
      | none => exact (throw_passes _).congr (by simp [hl, hf])
      | some actual =>
        refine (compareRange_passes version marking actual).congr ?_
        simp [hl, hf, eq_comm]

/-- A parser that fails only by rejecting, and that has nothing open and all locations frozen after
a snippet that it accepts. -/
structure Reliable (parser : Parser) : Prop where
  frozen : ∀ {code tree}, (family.parse parser code).1 = .ok tree → Frozen tree
  clean : ∀ {code tree}, (family.parse parser code).1 = .ok tree → ∀ version,
    (family.snapshot (family.parse parser code).2.1).audit version = .ok ()
  rejects : ∀ {code failure}, (family.parse parser code).1 = .error failure →
    ∃ message, failure = .rejected message

omit [Tree Node] in
theorem parseWith_bind_passes {α : Type} {subject : Subject Parser} {code : String} {p : Prop}
    {next : Except ParseFailure (Option Node) × Subject Parser → Run α}
    (h : (next ((family.parse subject.parser code).1,
      { subject with parser := (family.parse subject.parser code).2.1 })).PassesIff p) :
    (family.parseWith subject code >>= next).PassesIff p :=
  bind_passes (fun _ => ⟨_, rfl⟩) h

omit [Tree Node] in
theorem audit_passes {subject : Subject Parser}
    (clean : (family.snapshot subject.parser).audit subject.version = .ok ()) :
    (family.audit subject).PassesIff True := by
  refine ofExcept_passes.congr (iff_of_true ?_ trivial)
  exact ⟨(), clean⟩

theorem checkParse_passes {subject : Subject Parser} (reliable : family.Reliable subject.parser)
    (expected : Option Node) (code : String) (markings : List Marking) :
    (family.checkParse expected code markings subject).PassesIff
      (∃ tree, family.Accepts subject.parser code expected markings tree) := by
  unfold checkParse parseStrictly
  rw [bind_assoc]
  apply family.parseWith_bind_passes
  cases hr : (family.parse subject.parser code).1 with
  | error failure =>
    refine (throw_bind_passes _ _).congr (iff_of_false id ?_)
    rintro ⟨tree, accepts⟩
    rw [accepts.result] at hr
    cases hr
  | ok tree =>
    apply bind_passes (fun state => ⟨state, rfl⟩)
    dsimp only
    split
    · rename_i same
      refine ((forM_passes fun marking _ =>
        checkMarking_passes (reliable.frozen hr) _ marking).bind fun _ =>
          family.audit_passes (reliable.clean hr _)).congr ?_
      constructor
      · rintro ⟨holds, -⟩
        exact ⟨tree, hr, same, holds⟩
      · rintro ⟨found, accepts⟩
        have eq : found = tree := by
          have both := accepts.result
          rw [hr] at both
          cases both
          rfl
        rw [← eq]
        exact ⟨accepts.markings, trivial⟩
    · rename_i differs
      refine (throw_passes _).congr (iff_of_false id ?_)
      rintro ⟨found, accepts⟩
      have both := accepts.result
      rw [hr] at both
      cases both
      exact differs accepts.same

theorem parseTolerantly_passes {subject : Subject Parser}
    (reliable : family.Reliable subject.parser) (code : String) :
    (family.parseTolerantly subject code).PassesIff True := by
  unfold parseTolerantly
  apply family.parseWith_bind_passes
  cases hr : (family.parse subject.parser code).1 with
  | error failure =>
    obtain ⟨message, rfl⟩ := reliable.rejects hr
    exact pure_passes ()
  | ok tree => exact family.audit_passes (reliable.clean hr _)

omit [Tree Node] in
/-- A visit makes a new parser, and nothing that was reported before is left. -/
theorem visit_eq {α : Type} {check : Subject Parser → Run α} {version : Version} {parser : Parser}
    (supported : version ∈ family.versions) (created : family.create version = some parser)
    (state : RunState) :
    family.visit check version state =
      check ⟨version, .utf8, parser⟩ ⟨[], state.journal ++ [.create version]⟩ := by
  have made : family.parserFor version ⟨[], state.journal⟩ =
      .ok ⟨version, .utf8, parser⟩ ⟨[], state.journal ++ [.create version]⟩ := by
    unfold parserFor
    rw [if_pos (List.contains_iff_mem.2 supported), created]
    rfl
  show (family.parserFor version >>= check) ⟨[], state.journal⟩ = _
  rw [Run.bind_ok made]

omit [Tree Node] in
theorem visit_passes {check : Subject Parser → Run Unit} {version : Version} {parser : Parser}
    {p : Prop} (supported : version ∈ family.versions) (created : family.create version = some parser)
    (h : (check ⟨version, .utf8, parser⟩).PassesIff p) :
    (family.visit check version).PassesIff p := by
  intro state
  rw [family.visit_eq supported created]
  exact h _

omit [Tree Node] in
theorem mem_targets {requested : List Version} {version : Version} :
    version ∈ family.targets requested ↔ version ∈ family.versions ∧ version ∈ requested := by
  unfold targets
  rw [List.mem_filter, List.contains_iff_mem]

omit [Tree Node] in
theorem withVersions_passes {check : Subject Parser → Run Unit} {requested : List Version}
    {p : Version → Prop}
    (h : ∀ version ∈ family.versions, (family.visit check version).PassesIff (p version)) :
    (family.withVersions requested check).PassesIff
      (∀ version ∈ family.versions, version ∈ requested → p version) := by
  unfold withVersions
  refine (forM_passes fun version hv => h version (family.mem_targets.1 hv).1).congr ?_
  simp only [mem_targets, and_imp]

/-- A subject that is changed before its check gives the same answer as the new parser of its
version if it parses as that parser does. -/
theorem visit_checkParse_passes {switch : Subject Parser → Subject Parser} {version : Version}
    {parser : Parser} (supported : version ∈ family.versions)
    (created : family.create version = some parser)
    (reliable : family.Reliable (switch ⟨version, .utf8, parser⟩).parser) {code : String}
    (same : (family.parse (switch ⟨version, .utf8, parser⟩).parser code).1 =
      (family.parse parser code).1) (expected : Option Node) (markings : List Marking) :
    (family.visit (fun subject => family.checkParse expected code markings (switch subject))
        version).PassesIff
      (∃ parser tree, family.create version = some parser ∧
        family.Accepts parser code expected markings tree) := by
  refine (family.visit_passes supported created
    (family.checkParse_passes reliable expected code markings)).congr ?_
  apply Iff.trans (exists_congr (family.accepts_congr same expected markings))
  rw [created]
  simp

/-- The parsers of every version are reliable in either encoding, which makes no difference. -/
structure Dependable : Prop where
  create : ∀ version ∈ family.versions, ∃ parser, family.create version = some parser
  reliable : ∀ version parser, family.create version = some parser → family.Reliable parser
  reencoded : ∀ version parser, family.create version = some parser →
    family.Reliable (family.setEncoding .utf32 parser)
  encoding : ∀ parser code,
    (family.parse (family.setEncoding .utf32 parser) code).1 = (family.parse parser code).1

variable {family}

section Passes

variable (dependable : family.Dependable) (expected : Option Node) (code : String)
  (markings : List Marking) (requested : List Version)

include dependable

/-- The check of the trees, with the parsers of the requested versions as they are made. -/
theorem Dependable.counted_passes :
    (family.withVersions requested (family.checkParse expected code markings)).PassesIff
      (∀ version ∈ family.versions, version ∈ requested → ∃ parser tree,
        family.create version = some parser ∧
          family.Accepts parser code expected markings tree) := by
  apply family.withVersions_passes
  intro version supported
  obtain ⟨parser, created⟩ := dependable.create version supported
  have reliable := dependable.reliable version parser created
  exact family.visit_checkParse_passes supported created reliable rfl _ _

/-- The same check in the other encoding. -/
theorem Dependable.listed_passes :
    (family.withVersions requested fun subject =>
        family.checkParse expected code markings (family.reencode subject .utf32)).PassesIff
      (∀ version ∈ family.versions, version ∈ requested → ∃ parser tree,
        family.create version = some parser ∧
          family.Accepts parser code expected markings tree) := by
  apply family.withVersions_passes
  intro version supported
  obtain ⟨parser, created⟩ := dependable.create version supported
  have reliable := dependable.reencoded version parser created
  have same := dependable.encoding parser code
  exact family.visit_checkParse_passes supported created reliable same _ _

theorem Dependable.tolerant_passes :
    (family.withVersions requested fun subject =>
      family.parseTolerantly subject code).PassesIff True := by
  refine (family.withVersions_passes (p := fun _ => True) fun version supported => ?_).congr ?_
  · obtain ⟨parser, created⟩ := dependable.create version supported
    have reliable := dependable.reliable version parser created
    exact family.visit_passes supported created (family.parseTolerantly_passes reliable code)
  · simp

end Passes

/-- Checking the trees of a snippet passes exactly when the markings can be read and the parsers of
the targeted versions accept the snippet. -/
theorem Dependable.assertParses_passes (dependable : family.Dependable) (expected : Option Node)
    (case : Case) :
    (family.assertParses expected case).PassesIff
      (∃ markings, Marking.readBlock case.markings = (markings, none) ∧
        ∀ version ∈ family.versions, version ∈ case.targets family.versions →
          ∃ parser tree, family.create version = some parser ∧
            family.Accepts parser case.code expected markings tree) := by
  unfold assertParses
  refine (ofExcept_bind_passes fun markings =>
    (dependable.counted_passes expected case.code markings _).bind fun _ =>
      (dependable.listed_passes expected case.code markings _).bind fun _ =>
        dependable.tolerant_passes case.code _).congr ?_
  simp only [Case.readMarkings_eq_ok, and_true, and_self]

end Family

end Conformance
