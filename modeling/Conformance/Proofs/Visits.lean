import Conformance.Harness.Suite
import Conformance.Proofs.Passing

/-! What shows of a run: how it ends, and the diagnostics that it leaves. A visit of a version forgets
what earlier ones left, and so it always ends in the same way; a run of visits ends with the first
that fails. -/

namespace Conformance

namespace Run

variable {α β : Type}

/-- What shows of the end of a run: how it ends, and the diagnostics that it leaves. -/
def shown (run : Run α) (state : RunState) : Except Failure α × List Diagnostic :=
  (run.result state, (state.after run).diagnostics)

theorem result_bind (run : Run α) (next : α → Run β) (state : RunState) :
    (run >>= next).result state =
      (run.result state).bind fun value => (next value).result (state.after run) := by
  unfold result RunState.after
  cases first : run state with
  | ok value after =>
    rw [bind_ok first]
    rfl
  | error failure after =>
    rw [bind_error first]
    rfl

theorem after_bind (run : Run α) (next : α → Run β) (state : RunState) :
    state.after (run >>= next) =
      match run.result state with
      | .ok value => (state.after run).after (next value)
      | .error _ => state.after run := by
  unfold result RunState.after
  cases first : run state with
  | ok value after => rw [bind_ok first]
  | error failure after => rw [bind_error first]

theorem shown_bind (run : Run α) (next : α → Run β) (state : RunState) :
    (run >>= next).shown state =
      match run.result state with
      | .ok value => (next value).shown (state.after run)
      | .error failure => (.error failure, (state.after run).diagnostics) := by
  unfold shown
  rw [result_bind, after_bind]
  cases run.result state <;> rfl

theorem passesIff_iff {run : Run Unit} {p : Prop} :
    run.PassesIff p ↔ ∀ state, run.result state = .ok () ↔ p := by
  apply forall_congr'
  intro state
  unfold result
  cases run state with
  | ok value after => simp
  | error failure after => simp

/-! ### Verdicts -/

/-- A run that ends in a verdict on the diagnostics so far, and leaves them as they are. -/
def Judges (run : Run α) : Prop :=
  ∃ verdict : List Diagnostic → Except Failure α,
    ∀ state, run.shown state = (verdict state.diagnostics, state.diagnostics)

theorem pure_judges (value : α) : Judges (pure value) := ⟨fun _ => .ok value, fun _ => rfl⟩

theorem throw_judges (failure : Failure) : Judges (throw failure : Run α) :=
  ⟨fun _ => .error failure, fun _ => rfl⟩

theorem ofExcept_judges (result : Except Failure α) : Judges (ofExcept result) :=
  ⟨fun _ => result, fun _ => by cases result <;> rfl⟩

theorem diagnostics_judges : Judges diagnostics := ⟨.ok, fun _ => rfl⟩

theorem Judges.bind {run : Run α} {next : α → Run β} (h : run.Judges)
    (hn : ∀ value, (next value).Judges) : (run >>= next).Judges := by
  obtain ⟨verdict, judged⟩ := h
  obtain ⟨verdicts, judges⟩ := Classical.skolem.1 hn
  refine ⟨fun reported => (verdict reported).bind fun value => verdicts value reported, ?_⟩
  intro state
  have left : (state.after run).diagnostics = state.diagnostics :=
    congrArg Prod.snd (judged state)
  have ends : run.result state = verdict state.diagnostics := congrArg Prod.fst (judged state)
  rw [shown_bind, ends]
  dsimp only
  cases verdict state.diagnostics with
  | ok value =>
    dsimp only
    rw [judges value, left]
    rfl
  | error failure =>
    dsimp only
    rw [left]
    rfl

theorem forM_judges {check : α → Run Unit} (h : ∀ item, (check item).Judges) (items : List α) :
    (items.forM check).Judges := by
  induction items with
  | nil => exact pure_judges ()
  | cons item items ih => exact (h item).bind fun _ => ih

/-- A difference that is found ends the run. -/
theorem unless_judges {condition : Prop} [Decidable condition] {version : Version}
    {difference : Mismatch} {next : Unit → Run β} (h : (next ()).Judges) :
    (if condition then mismatch version difference >>= next else next ()).Judges := by
  split
  · exact ⟨fun _ => .error (.mismatch version difference), fun _ => rfl⟩
  · exact h

/-! ### Runs that ignore what was kept before -/

/-- A run of which the same shows from every state. -/
def Settles (run : Run Unit) (ending : Except Failure Unit × List Diagnostic) : Prop :=
  ∀ state, run.shown state = ending

/-- A run that ends in the same way from every state. -/
def Constant (run : Run α) : Prop := ∃ ending, ∀ state, run.result state = ending

theorem Settles.passes {run : Run Unit} {ending : Except Failure Unit × List Diagnostic}
    (h : run.Settles ending) : run.PassesIff (ending.1 = .ok ()) := by
  refine passesIff_iff.2 fun state => ?_
  rw [show run.result state = ending.1 from congrArg Prod.fst (h state)]

theorem Settles.constant {run : Run Unit} {ending : Except Failure Unit × List Diagnostic}
    (h : run.Settles ending) : run.Constant :=
  ⟨ending.1, fun state => congrArg Prod.fst (h state)⟩

theorem ofExcept_constant (result : Except Failure α) : Constant (ofExcept result) :=
  ⟨result, fun _ => by cases result <;> rfl⟩

theorem Constant.bind {run : Run α} {next : α → Run β} (h : run.Constant)
    (hn : ∀ value, (next value).Constant) : (run >>= next).Constant := by
  obtain ⟨ending, ends⟩ := h
  obtain ⟨endings, ended⟩ := Classical.skolem.1 hn
  refine ⟨ending.bind endings, fun state => ?_⟩
  rw [result_bind, ends state]
  cases ending with
  | ok value => exact ended value _
  | error failure => rfl

theorem forM_constant {check : α → Run Unit} {items : List α}
    (h : ∀ item ∈ items, (check item).Constant) : (items.forM check).Constant := by
  induction items with
  | nil => exact ⟨.ok (), fun _ => rfl⟩
  | cons item items ih =>
    obtain ⟨first, others⟩ := List.forall_mem_cons.1 h
    exact first.bind fun _ => ih others

theorem Settles.unique {run : Run Unit} {a b : Except Failure Unit × List Diagnostic}
    (ha : run.Settles a) (hb : run.Settles b) : a = b := (ha {}).symm.trans (hb {})

/-- Where every part of a run settles, the whole fails as the first part that fails. -/
theorem forM_error {check : α → Run Unit} {items : List α}
    (settles : ∀ item ∈ items, ∃ ending, (check item).Settles ending) {state : RunState}
    {failure : Failure} (failed : (items.forM check).result state = .error failure) :
    ∃ earlier item later, items = earlier ++ item :: later ∧
      (∀ other ∈ earlier, (check other).PassesIff True) ∧
      (check item).Settles (.error failure, (state.after (items.forM check)).diagnostics) := by
  induction items generalizing state with
  | nil => cases failed
  | cons item items ih =>
    obtain ⟨⟨ending, first⟩, others⟩ := List.forall_mem_cons.1 settles
    have shows := first state
    have ends := result_bind (check item) (fun _ => items.forM check) state
    have leaves := after_bind (check item) (fun _ => items.forM check) state
    cases here : (check item).result state with
    | error fault =>
      rw [here] at ends leaves
      obtain rfl : failure = fault := Except.error.inj (failed.symm.trans ends)
      refine ⟨[], item, items, rfl, nofun, ?_⟩
      have left : state.after ((item :: items).forM check) = state.after (check item) := leaves
      rwa [left, ← here, show ((check item).result state, _) = ending from shows]
    | ok value =>
      rw [here] at ends leaves
      obtain ⟨earlier, found, later, rfl, passed, fails⟩ := ih others (ends.symm.trans failed)
      refine ⟨item :: earlier, found, later, rfl, List.forall_mem_cons.2 ⟨?_, passed⟩, ?_⟩
      · have ok : ending.1 = .ok () := (congrArg Prod.fst shows).symm.trans here
        exact first.passes.congr (iff_of_true ok trivial)
      · have left : state.after ((item :: (earlier ++ found :: later)).forM check) =
            (state.after (check item)).after ((earlier ++ found :: later).forM check) := leaves
        rwa [left]

end Run

end Conformance
