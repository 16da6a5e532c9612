import Falkr.Lib.Returning
import Falkr.Testkit.Runner

/-!
# Executable — whether a scenario can be run today

The question is answered twice.  The scenario compares the highest phase among the kinds it finds
in the catalog, and the runner looks at the operations one by one.  A kind that is not in the
catalog counts for the runner only (`answersAgree_iff`).
-/

namespace Falkr

open Lib

namespace Phase

variable {phase other : Phase} {phases : List Phase}

theorem isDelivered_max :
    (phase.max other).isDelivered = true ↔
      phase.isDelivered = true ∧ other.isDelivered = true := by
  simp only [isDelivered, decide_eq_true_eq]
  unfold max
  split_ifs with h
  · exact ⟨fun hother => ⟨h.le.trans hother, hother⟩, fun hboth => hboth.2⟩
  · exact ⟨fun hphase => ⟨hphase, (not_lt.1 h).trans hphase⟩, fun hboth => hboth.1⟩

/-- The highest of the phases is delivered exactly when they all are. -/
theorem isDelivered_foldl_max :
    (phases.foldl max phase).isDelivered = true ↔
      phase.isDelivered = true ∧ ∀ p ∈ phases, p.isDelivered = true := by
  induction phases generalizing phase with
  | nil => simp
  | cons first rest ih =>
      rw [List.foldl_cons, ih, isDelivered_max, List.forall_mem_cons, and_assoc]

end Phase

namespace Scenario

variable {self : Scenario}

/-- Every operation that is in the catalog is delivered. -/
def KnownDelivered (self : Scenario) : Prop :=
  ∀ op ∈ self.operations, ∀ spec, Catalog.spec op.kind = some spec →
    spec.phase.isDelivered = true

theorem isDelivered_requiredPhase :
    self.requiredPhase.isDelivered = true ↔ self.KnownDelivered := by
  have hall : self.KnownDelivered ↔ ∀ p ∈ (self.operations.filterMap fun op =>
      Catalog.spec op.kind).map OperationSpec.phase, p.isDelivered = true := by
    unfold KnownDelivered
    simp only [List.mem_map, List.mem_filterMap]
    constructor
    · rintro h p ⟨spec, ⟨op, hop, hspec⟩, rfl⟩
      exact h op hop spec hspec
    · intro h op hop spec hspec
      exact h spec.phase ⟨spec, ⟨op, hop, hspec⟩, rfl⟩
  rw [hall]
  unfold requiredPhase
  split
  · rename_i hnone
    rw [hnone]
    exact iff_of_true rfl (by simp)
  · rename_i first rest hsome
    rw [hsome, Phase.isDelivered_foldl_max, List.forall_mem_cons]

theorem isExecutable_iff :
    self.isExecutable = true ↔ self.metadata.status ≠ .blocked ∧ self.KnownDelivered := by
  rw [isExecutable, decide_eq_true_iff, isDelivered_requiredPhase]

end Scenario

namespace Runner

theorem deliverable_iff {op : Operation} :
    deliverable op = true ↔ ∃ spec, Catalog.spec op.kind = some spec ∧
      spec.phase.isDelivered = true := by
  unfold deliverable
  cases Catalog.spec op.kind <;> simp

/-- The runner and the scenario judge the operations alike exactly when no kind is unknown or a
known one is not delivered. -/
theorem deliverable_iff_knownDelivered {scenario : Scenario} :
    ((∀ op ∈ scenario.operations, deliverable op = true) ↔ scenario.KnownDelivered) ↔
      (∀ op ∈ scenario.operations, (Catalog.spec op.kind).isSome = true) ∨
        ¬ scenario.KnownDelivered := by
  have hmono : (∀ op ∈ scenario.operations, deliverable op = true) →
      scenario.KnownDelivered := by
    intro hall op hop spec hspec
    rcases deliverable_iff.1 (hall op hop) with ⟨found, hfound, hdelivered⟩
    rw [hspec] at hfound
    cases hfound
    exact hdelivered
  constructor
  · intro hsame
    by_cases hknown : scenario.KnownDelivered
    · refine Or.inl fun op hop => ?_
      rcases deliverable_iff.1 (hsame.2 hknown op hop) with ⟨spec, hspec, -⟩
      exact Option.isSome_iff_exists.2 ⟨spec, hspec⟩
    · exact Or.inr hknown
  · rintro (hcatalogued | hnot)
    · refine ⟨hmono, fun hknown op hop => ?_⟩
      rcases Option.isSome_iff_exists.1 (hcatalogued op hop) with ⟨spec, hspec⟩
      exact deliverable_iff.2 ⟨spec, hspec, hknown op hop spec hspec⟩
    · exact ⟨hmono, fun hknown => absurd hknown hnot⟩

section Model

variable {m : Type → Type} {α : Type} [Amount m α] [Monad m] {lib : Externals α}
  {runner : Runner} {scenario : Scenario} {draws : Draws}

/-- The run was put off: the scenario is blocked or deferred. -/
def Postponed (outcome : m (Except (RunError α) (RunOutcome α))) : Prop :=
  (∃ reason, outcome = pure (.ok (.blocked reason))) ∨
    ∃ phase kinds, outcome = pure (.ok (.deferred phase kinds))

/-- The scenario is executable exactly when its run is not put off, and what it waits for is a
phase that is not delivered. -/
structure AnswersAgree (lib : Externals α) (runner : Runner) (scenario : Scenario) (draws : Draws) :
    Prop where
  isExecutable_iff : scenario.isExecutable = true ↔ ¬ Postponed (runner.run lib scenario draws)
  phase_undelivered : ∀ phase kinds,
    runner.run lib scenario draws = pure (.ok (.deferred phase kinds)) → phase.isDelivered = false

variable [Returning m]

/-- What the runner executes is not put off, however it ends. -/
theorem not_postponed_of_deliverable (hstatus : scenario.metadata.status ≠ .blocked)
    (hall : ∀ op ∈ scenario.operations, deliverable op = true) :
    ¬ Postponed (runner.run lib scenario draws) := by
  have hexecuted : ∀ outcome : RunOutcome α,
      runner.run lib scenario draws = pure (.ok outcome) → ∃ run, outcome = .executed run := by
    intro outcome hrun
    rw [run_of_deliverable hstatus hall] at hrun
    rcases Returning.bind_eq_pure hrun with ⟨result, -, hresult⟩
    cases result with
    | error e => cases Returning.pure_inj hresult
    | ok run =>
        cases Returning.pure_inj hresult
        exact ⟨run, rfl⟩
  rintro (⟨reason, h⟩ | ⟨phase, kinds, h⟩)
  · rcases hexecuted _ h with ⟨run, hrun⟩
    cases hrun
  · rcases hexecuted _ h with ⟨run, hrun⟩
    cases hrun

/-- A scenario is put off exactly when it is blocked or one of its operations cannot be run. -/
theorem postponed_run_iff :
    Postponed (runner.run lib scenario draws) ↔ scenario.metadata.status = .blocked ∨
      ¬ ∀ op ∈ scenario.operations, deliverable op = true := by
  constructor
  · intro hpostponed
    by_contra hneither
    rcases not_or.1 hneither with ⟨hstatus, hall⟩
    exact not_postponed_of_deliverable hstatus (not_not.1 hall) hpostponed
  · intro h
    by_cases hstatus : scenario.metadata.status = .blocked
    · exact Or.inl ⟨_, run_of_blocked hstatus⟩
    · exact Or.inr ⟨_, run_of_undeliverable hstatus (h.resolve_left hstatus)⟩

/-- The phase that a deferred scenario waits for is the highest of the known ones. -/
theorem phase_of_deferred {phase : Phase} {kinds : List String}
    (h : runner.run lib scenario draws = pure (.ok (.deferred phase kinds))) :
    scenario.metadata.status ≠ .blocked ∧ phase = scenario.requiredPhase := by
  have hpostponed : Postponed (runner.run lib scenario draws) := Or.inr ⟨phase, kinds, h⟩
  have hstatus : scenario.metadata.status ≠ .blocked := by
    intro hblocked
    rw [run_of_blocked hblocked] at h
    cases Returning.pure_inj (m := m) h
  refine ⟨hstatus, ?_⟩
  have hrequired : ∃ kinds, runner.run lib scenario draws =
      pure (.ok (.deferred scenario.requiredPhase kinds)) :=
    run_of_undeliverable hstatus ((postponed_run_iff.1 hpostponed).resolve_left hstatus)
  rcases hrequired with ⟨kinds', hrun⟩
  rw [hrun] at h
  cases Returning.pure_inj (m := m) h
  rfl

/-- Both answers, on the operations. -/
theorem answersAgree_iff_deliverable :
    AnswersAgree lib runner scenario draws ↔ scenario.metadata.status = .blocked ∨
      ((∀ op ∈ scenario.operations, deliverable op = true) ↔ scenario.KnownDelivered) := by
  constructor
  · intro hagree
    by_cases hstatus : scenario.metadata.status = .blocked
    · exact Or.inl hstatus
    · have hiff := hagree.isExecutable_iff
      rw [Scenario.isExecutable_iff, postponed_run_iff, not_or, not_not] at hiff
      simp only [hstatus, not_false_eq_true, ne_eq, true_and] at hiff
      exact Or.inr hiff.symm
  · intro h
    constructor
    · rw [Scenario.isExecutable_iff, postponed_run_iff, not_or, not_not]
      exact and_congr_right fun hstatus => (h.resolve_left hstatus).symm
    · intro phase kinds hrun
      rcases phase_of_deferred hrun with ⟨hstatus, rfl⟩
      have hpostponed := postponed_run_iff.1 (Or.inr ⟨_, kinds, hrun⟩)
      have hknown := (not_congr (h.resolve_left hstatus)).1 (hpostponed.resolve_left hstatus)
      rw [← Scenario.isDelivered_requiredPhase, Bool.not_eq_true] at hknown
      exact hknown

end Model

/-- The answers agree exactly when the scenario is blocked, every kind is in the catalog, or one
that is there is not delivered. -/
theorem answersAgree_iff (lib : Externals Decimal) (runner : Runner) (scenario : Scenario)
    (draws : Draws) :
    AnswersAgree lib runner scenario draws ↔ scenario.metadata.status = .blocked ∨
      (∀ op ∈ scenario.operations, (Catalog.spec op.kind).isSome = true) ∨
        ∃ op ∈ scenario.operations, ∃ spec, Catalog.spec op.kind = some spec ∧
          spec.phase.isDelivered = false := by
  have hnot : ¬ scenario.KnownDelivered ↔ ∃ op ∈ scenario.operations, ∃ spec,
      Catalog.spec op.kind = some spec ∧ spec.phase.isDelivered = false := by
    unfold Scenario.KnownDelivered
    push Not
    simp only [Bool.not_eq_true]
  rw [answersAgree_iff_deliverable, deliverable_iff_knownDelivered, hnot]

/-- A scenario whose one operation is of a kind with two letters transposed. -/
def misspelt : Scenario :=
  cashSale [{ kind := "conusme_credits", params := .empty }] "0" "0"

/-- The scenario calls itself executable, and the runner defers it to a delivered phase. -/
theorem not_answersAgree_misspelt :
    misspelt.isExecutable = true ∧
      Runner.run decimalExternals { chart := smallChart } misspelt countingDraws =
        some (.ok (.deferred .p02 ["conusme_credits"])) ∧
      Phase.p02.isDelivered = true ∧
      ¬ AnswersAgree decimalExternals { chart := smallChart } misspelt countingDraws := by
  have hrun : Runner.run decimalExternals { chart := smallChart } misspelt countingDraws =
      some (.ok (.deferred .p02 ["conusme_credits"])) := rfl
  refine ⟨by decide +kernel, hrun, rfl, fun hagree => ?_⟩
  cases hagree.phase_undelivered _ _ hrun

end Runner

end Falkr
