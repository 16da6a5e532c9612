import Falkr.Infra.RunStore

/-!
# RunTenancy — whose experiment a run belongs to

Row-level security keeps every statement of the store within one tenant, but the foreign key of
`runs` refers to the id of an experiment alone and is checked over the rows of all tenants.  Nothing
else relates a run to its experiment, so runs stay with their tenant's experiments, and tenants stay
out of each other's way, exactly as long as every new run names an experiment that its own tenant has
stored (`tenantsApart_iff`).
-/

namespace Falkr

open Lib

/-! ## Histories -/

inductive GraphCall
  | upsertExperiment (experiment : Experiment) (env : GraphEnv)
  | upsertRun (run : Run) (env : GraphEnv)

namespace GraphStore

/-- The tenant has stored an experiment under the id. -/
def Holds (self : GraphStore) (tenantId : TenantId) (id : ExperimentId) : Prop :=
  ∃ experiment ∈ self.experiments, experiment.id = id ∧ experiment.tenantId = tenantId

def after (self : GraphStore) : GraphCall → GraphStore
  | .upsertExperiment experiment env => (Falkr.upsertExperiment self experiment env).1
  | .upsertRun run env => (Falkr.upsertRun self run env).1

/-- Every stored run refers to an experiment of its own tenant. -/
def RunsInTenant (self : GraphStore) : Prop :=
  ∀ row ∈ self.runs, self.Holds row.tenantId row.experimentId

/-- The stores differ in experiments of other tenants only. -/
structure SameBesides (tenantId : TenantId) (store store' : GraphStore) : Prop where
  runs : store.runs = store'.runs
  experiments : ∀ experiment : Experiment, experiment.tenantId = tenantId →
    (experiment ∈ store.experiments ↔ experiment ∈ store'.experiments)

end GraphStore

/-- The store after a history. -/
def afterAll (calls : List GraphCall) : GraphStore :=
  calls.foldl GraphStore.after GraphStore.empty

/-- At every point of the history the stored runs refer to their own tenants' experiments, and
whether a tenant's `upsert_run` succeeds does not depend on the experiments of others. -/
def TenantsApart (calls : List GraphCall) : Prop :=
  (∀ older newer, calls = older ++ newer → (afterAll older).RunsInTenant) ∧
    ∀ older run env newer, calls = older ++ .upsertRun run env :: newer →
      ∀ others, GraphStore.SameBesides run.tenantId (afterAll older) (afterAll others) →
        ((upsertRun (afterAll older) run env).2.isOk ↔
          (upsertRun (afterAll others) run env).2.isOk)

/-- The insert gets as far as its foreign key. -/
def ReachesForeignKey (store : GraphStore) (run : Run) (env : GraphEnv) : Prop :=
  env.Quiet ∧ (∃ row, encodeRun run = .ok row) ∧ findIdentity run.identity store.runs = none ∧
    ∀ other ∈ store.runs, other.id ≠ run.id

/-- Every run that is new names an experiment that its tenant has stored. -/
def NamesOwnExperiments (calls : List GraphCall) : Prop :=
  ∀ older run env newer, calls = older ++ .upsertRun run env :: newer →
    ReachesForeignKey (afterAll older) run env →
      (afterAll older).Holds run.tenantId run.experimentId

/-! ## When an upsert succeeds -/

/-- The call finds its run, and looks its id up if there is nothing to write. -/
def FindsRun (store : GraphStore) (run : Run) (env : GraphEnv) : Prop :=
  env.Quiet ∧ ∃ row, encodeRun run = .ok row ∧ ∃ existing,
    findIdentity run.identity store.runs = some existing ∧
      (existing.progress = row.progress → env.selectError = none)

theorem isOk_upsertRun_iff (store : GraphStore) (run : Run) (env : GraphEnv) :
    (upsertRun store run env).2.isOk ↔
      FindsRun store run env ∨
        ReachesForeignKey store run env ∧ store.HasExperiment run.experimentId := by
  have hok : (upsertRun store run env).2.isOk ↔
      ∃ store' outcome, upsertRunTx store run env = .ok (store', outcome) := by
    rcases upsertRun_cases store run env with ⟨e, htx, hcall⟩ | ⟨store', outcome, htx, hcall⟩
    · simp [htx, hcall, Except.isOk, Except.toBool]
    · simp [htx, hcall, Except.isOk, Except.toBool]
  rw [hok]
  constructor
  · rintro ⟨store', outcome, htx⟩
    rcases upsertRunTx_eq_ok.1 htx with ⟨henv, row, runs, returned, hrow, hinsert, houtcome, -⟩
    rcases identity_of_encodeRun hrow with ⟨hidentity, hid, -, hexperiment⟩
    rcases insertRun_cases hinsert with ⟨existing, hfind, -, rfl, rfl⟩ |
      ⟨existing, hfind, hprogress, rfl, rfl⟩ | ⟨hfind, hnew, hexp, rfl, rfl⟩
    · refine Or.inl ⟨henv, row, hrow, existing, hidentity ▸ hfind, fun _ => ?_⟩
      rcases bind_eq_ok houtcome with ⟨_, hselect, -⟩
      exact raise_eq_ok.1 hselect
    · exact Or.inl ⟨henv, row, hrow, existing, hidentity ▸ hfind, fun h => absurd h hprogress⟩
    · exact Or.inr ⟨⟨henv, ⟨row, hrow⟩, hidentity ▸ hfind, hid ▸ hnew⟩, hexperiment ▸ hexp⟩
  · rintro (⟨henv, row, hrow, existing, hfind, hselect⟩ | ⟨⟨henv, ⟨row, hrow⟩, hfind, hnew⟩, hexp⟩)
    · rcases identity_of_encodeRun hrow with ⟨hidentity, -, -, -⟩
      rw [← hidentity] at hfind
      have hinsert := insertRun_of_findIdentity hfind
      by_cases hsame : existing.progress = row.progress
      · have houtcome : runOutcome env run store.runs none = .ok (.unchanged existing.id) := by
          rw [hidentity] at hfind
          simp [runOutcome, hselect hsame, raise, selectRunId, hfind, Except.mapError, bind,
            Except.bind]
        rw [if_pos hsame] at hinsert
        exact ⟨_, _, upsertRunTx_eq_ok.2 ⟨henv, row, _, _, hrow, hinsert, houtcome, rfl⟩⟩
      · rw [if_neg hsame] at hinsert
        exact ⟨_, _, upsertRunTx_eq_ok.2 ⟨henv, row, _, _, hrow, hinsert, rfl, rfl⟩⟩
    · rcases identity_of_encodeRun hrow with ⟨hidentity, hid, -, hexperiment⟩
      have hinsert := insertRun_of_new (hidentity ▸ hfind) (hid ▸ hnew) (hexperiment ▸ hexp)
      exact ⟨_, _, upsertRunTx_eq_ok.2 ⟨henv, row, _, _, hrow, hinsert, rfl, rfl⟩⟩

/-- Where the foreign key is not reached, experiments play no part. -/
theorem findsRun_congr {store store' : GraphStore} (h : store.runs = store'.runs) (run : Run)
    (env : GraphEnv) : FindsRun store run env ↔ FindsRun store' run env := by
  simp only [FindsRun, h]

theorem reachesForeignKey_congr {store store' : GraphStore} (h : store.runs = store'.runs)
    (run : Run) (env : GraphEnv) :
    ReachesForeignKey store run env ↔ ReachesForeignKey store' run env := by
  simp only [ReachesForeignKey, h]

theorem GraphStore.Holds.hasExperiment {store : GraphStore} {tenantId : TenantId}
    {id : ExperimentId} (h : store.Holds tenantId id) : store.HasExperiment id := by
  rcases h with ⟨experiment, hmem, hid, -⟩
  exact ⟨experiment, hmem, hid⟩

theorem GraphStore.SameBesides.holds {tenantId : TenantId} {store store' : GraphStore}
    {id : ExperimentId} (h : SameBesides tenantId store store') (hholds : store.Holds tenantId id) :
    store'.Holds tenantId id := by
  rcases hholds with ⟨experiment, hmem, hid, htenant⟩
  exact ⟨experiment, (h.experiments experiment htenant).1 hmem, hid, htenant⟩

/-! ## What a call writes -/

theorem runs_upsertExperiment (store : GraphStore) (experiment : Experiment) (env : GraphEnv) :
    (upsertExperiment store experiment env).1.runs = store.runs := by
  rcases upsertExperiment_cases store experiment env with h | ⟨experiments, -, h⟩ <;> rw [h]

/-- An experiment that is stored stays with its tenant. -/
theorem holds_upsertExperiment {store : GraphStore} {tenantId : TenantId} {id : ExperimentId}
    (h : store.Holds tenantId id) (experiment : Experiment) (env : GraphEnv) :
    (upsertExperiment store experiment env).1.Holds tenantId id := by
  rcases h with ⟨held, hmem, hid, htenant⟩
  rcases upsertExperiment_cases store experiment env with hsame | ⟨experiments, hinsert, hcall⟩
  · rw [hsame]
    exact ⟨held, hmem, hid, htenant⟩
  · rw [hcall]
    rcases insertExperiment_cases hinsert with ⟨existing, -, -, -, rfl⟩ | ⟨-, rfl⟩
    · refine ⟨_, List.mem_map.2 ⟨held, hmem, rfl⟩, ?_, ?_⟩
      · split_ifs <;> exact hid
      · split_ifs <;> exact htenant
    · exact ⟨held, List.mem_append_left _ hmem, hid, htenant⟩

/-- A call of `upsert_run` leaves the experiments alone, and every run it leaves behind was there, was
there with an older progress, or is new and got past the foreign key. -/
theorem runs_upsertRun (store : GraphStore) (run : Run) (env : GraphEnv) :
    (upsertRun store run env).1.experiments = store.experiments ∧
      ∀ row ∈ (upsertRun store run env).1.runs,
        (∃ old ∈ store.runs, old.tenantId = row.tenantId ∧ old.experimentId = row.experimentId) ∨
          ReachesForeignKey store run env ∧ row.tenantId = run.tenantId ∧
            row.experimentId = run.experimentId := by
  rcases upsertRun_cases store run env with ⟨e, -, hcall⟩ | ⟨store', outcome, htx, hcall⟩
  · rw [hcall]
    exact ⟨rfl, fun row hrow => Or.inl ⟨row, hrow, rfl, rfl⟩⟩
  · rcases upsertRunTx_eq_ok.1 htx with ⟨henv, bound, runs, returned, hbound, hinsert, -, rfl⟩
    rw [hcall]
    refine ⟨rfl, fun row hrow => ?_⟩
    rcases insertRun_cases hinsert with ⟨existing, -, -, rfl, -⟩ | ⟨existing, -, -, rfl, -⟩ |
      ⟨hfind, hnew, -, rfl, -⟩
    · exact Or.inl ⟨row, hrow, rfl, rfl⟩
    · rcases List.mem_map.1 hrow with ⟨old, hold, rfl⟩
      refine Or.inl ⟨old, hold, ?_, ?_⟩ <;> split_ifs <;> rfl
    · rcases List.mem_append.1 hrow with hrow | hrow
      · exact Or.inl ⟨row, hrow, rfl, rfl⟩
      · rcases identity_of_encodeRun hbound with ⟨hidentity, hid, htenant, hexperiment⟩
        cases List.mem_singleton.1 hrow
        exact Or.inr ⟨⟨henv, ⟨_, hbound⟩, hidentity ▸ hfind, hid ▸ hnew⟩, htenant, hexperiment⟩

/-- One call keeps runs with their own tenants' experiments, if a new run names one. -/
theorem GraphStore.RunsInTenant.after {store : GraphStore} (h : store.RunsInTenant)
    (call : GraphCall)
    (hcall : ∀ run env, call = .upsertRun run env → ReachesForeignKey store run env →
      store.Holds run.tenantId run.experimentId) : (store.after call).RunsInTenant := by
  intro row hrow
  cases call with
  | upsertExperiment experiment env =>
      have hold : row ∈ store.runs := by
        simpa [GraphStore.after, runs_upsertExperiment] using hrow
      exact holds_upsertExperiment (h row hold) experiment env
  | upsertRun run env =>
      rcases runs_upsertRun store run env with ⟨hexperiments, hruns⟩
      have hkept : ∀ tenantId id, store.Holds tenantId id →
          (store.after (.upsertRun run env)).Holds tenantId id := by
        rintro tenantId id ⟨experiment, hmem, hid, htenant⟩
        exact ⟨experiment, by simpa [GraphStore.after, hexperiments] using hmem, hid, htenant⟩
      rcases hruns row hrow with ⟨old, hold, htenant, hid⟩ | ⟨hreaches, htenant, hid⟩
      · rw [← htenant, ← hid]
        exact hkept _ _ (h old hold)
      · rw [htenant, hid]
        exact hkept _ _ (hcall run env rfl hreaches)

/-! ## Runs and tenants -/

theorem afterAll_append (older newer : List GraphCall) :
    afterAll (older ++ newer) = newer.foldl GraphStore.after (afterAll older) :=
  List.foldl_append

theorem runsInTenant_of_namesOwnExperiments {calls : List GraphCall}
    (h : NamesOwnExperiments calls) : (afterAll calls).RunsInTenant := by
  induction calls using List.reverseRecOn with
  | nil =>
      intro row hrow
      cases hrow
  | append_singleton older call ih =>
      have hold : NamesOwnExperiments older := by
        rintro before run env later rfl hreaches
        exact h before run env (later ++ [call]) (by simp) hreaches
      rw [afterAll_append]
      refine (ih hold).after call ?_
      rintro run env rfl hreaches
      exact h older run env [] rfl hreaches

/-- Some other tenant. -/
theorem exists_other_tenant (tenantId : TenantId) : ∃ other : TenantId, other ≠ tenantId := by
  by_cases h : tenantId = ⟨0⟩
  · exact ⟨⟨1⟩, by rw [h]; decide⟩
  · exact ⟨⟨0⟩, Ne.symm h⟩

/-- Adding an experiment under an id that nobody holds changes nothing else. -/
theorem sameBesides_upsertExperiment {store : GraphStore} {tenantId other : TenantId}
    (hother : other ≠ tenantId) {id : ExperimentId} (hnone : ¬store.HasExperiment id) :
    let added := (upsertExperiment store ⟨id, other, ⟨0⟩, ""⟩ .ok).1
    GraphStore.SameBesides tenantId store added ∧ added.HasExperiment id := by
  have hfind : store.experiments.find? (fun existing => existing.id = id) = none := by
    refine List.find?_eq_none.2 fun existing hmem => ?_
    intro heq
    exact hnone ⟨existing, hmem, by simpa using heq⟩
  have hadded : (upsertExperiment store ⟨id, other, ⟨0⟩, ""⟩ .ok).1 =
      { store with experiments := store.experiments ++ [⟨id, other, ⟨0⟩, ""⟩] } := by
    simp [upsertExperiment, upsertExperimentTx, insertExperiment, hfind, GraphEnv.ok, raise, textOk,
      Except.mapError, bind, Except.bind]
  simp only [hadded]
  refine ⟨⟨rfl, fun experiment htenant => ?_⟩, ⟨id, other, ⟨0⟩, ""⟩, by simp, rfl⟩
  have hne : experiment ≠ ⟨id, other, ⟨0⟩, ""⟩ := by
    rintro rfl
    exact hother htenant
  simp [hne]

theorem ReachesForeignKey.not_findsRun {store : GraphStore} {run : Run} {env : GraphEnv}
    (h : ReachesForeignKey store run env) : ¬FindsRun store run env := by
  rcases h with ⟨-, -, hnone, -⟩
  rintro ⟨-, row, -, existing, hfind, -⟩
  rw [hnone] at hfind
  cases hfind

/-- A run that got past the foreign key is stored, and with its own tenant's experiment if all are. -/
theorem holds_of_inserted {store : GraphStore} {run : Run} {env : GraphEnv}
    (hreaches : ReachesForeignKey store run env) (hany : store.HasExperiment run.experimentId)
    (hruns : (upsertRun store run env).1.RunsInTenant) :
    store.Holds run.tenantId run.experimentId := by
  have hok := (isOk_upsertRun_iff store run env).2 (Or.inr ⟨hreaches, hany⟩)
  rcases upsertRun_cases store run env with ⟨e, -, hcall⟩ | ⟨store', outcome, htx, hcall⟩
  · simp [hcall, Except.isOk, Except.toBool] at hok
  · rcases upsertRunTx_eq_ok.1 htx with ⟨-, row, runs, returned, hrow, hinsert, -, rfl⟩
    rcases identity_of_encodeRun hrow with ⟨hidentity, -, htenant, hexperiment⟩
    have hnone := hreaches.2.2.1
    rw [← hidentity] at hnone
    rcases insertRun_cases hinsert with ⟨existing, hfind, -⟩ | ⟨existing, hfind, -⟩ |
      ⟨-, -, -, rfl, -⟩
    · rw [hnone] at hfind
      cases hfind
    · rw [hnone] at hfind
      cases hfind
    · rw [hcall] at hruns
      have hholds := hruns row (by simp)
      rwa [htenant, hexperiment] at hholds

/-- A history keeps tenants apart exactly if every new run names an experiment of its own
tenant. -/
theorem tenantsApart_iff (calls : List GraphCall) :
    TenantsApart calls ↔ NamesOwnExperiments calls := by
  constructor
  · rintro ⟨hruns, hsuccess⟩ older run env newer heq hreaches
    by_contra hforeign
    by_cases hany : (afterAll older).HasExperiment run.experimentId
    · -- Somebody else's experiment lets the run in.
      have hlast : afterAll (older ++ [.upsertRun run env]) =
          (upsertRun (afterAll older) run env).1 := by
        rw [afterAll_append]
        rfl
      have hstored := hruns (older ++ [.upsertRun run env]) newer (by simp [heq])
      rw [hlast] at hstored
      exact hforeign (holds_of_inserted hreaches hany hstored)
    · -- Nobody's experiment keeps the run out, and somebody else's would let it in.
      rcases exists_other_tenant run.tenantId with ⟨other, hother⟩
      rcases sameBesides_upsertExperiment hother hany with ⟨hsame, hadded⟩
      let others := older ++ [.upsertExperiment ⟨run.experimentId, other, ⟨0⟩, ""⟩ .ok]
      have hothers : afterAll others =
          (upsertExperiment (afterAll older) ⟨run.experimentId, other, ⟨0⟩, ""⟩ .ok).1 := by
        rw [afterAll_append]
        rfl
      rw [← hothers] at hsame hadded
      have hiff := hsuccess older run env newer heq others hsame
      have hin : (upsertRun (afterAll others) run env).2.isOk := by
        rw [isOk_upsertRun_iff]
        exact Or.inr ⟨(reachesForeignKey_congr hsame.runs run env).1 hreaches, hadded⟩
      rcases (isOk_upsertRun_iff _ run env).1 (hiff.2 hin) with hfinds | ⟨-, hexp⟩
      · exact hreaches.not_findsRun hfinds
      · exact hany hexp
  · intro h
    constructor
    · rintro older newer rfl
      refine runsInTenant_of_namesOwnExperiments ?_
      rintro before run env later rfl hreaches
      exact h before run env (later ++ newer) (by simp) hreaches
    · intro older run env newer heq others hsame
      rw [isOk_upsertRun_iff, isOk_upsertRun_iff, findsRun_congr hsame.runs,
        reachesForeignKey_congr hsame.runs]
      refine or_congr Iff.rfl (and_congr_right fun hreaches => ?_)
      -- The run's own experiment is in both stores.
      have hown := h older run env newer heq ((reachesForeignKey_congr hsame.runs run env).2 hreaches)
      exact iff_of_true hown.hasExperiment (hsame.holds hown).hasExperiment

/-! ## Another tenant's experiment -/

/-- A run of tenant 2 that names an experiment of tenant 1. -/
def borrowedRun : Run where
  id := ⟨10⟩
  tenantId := ⟨2⟩
  experimentId := ⟨5⟩
  externalRef := { source := .wandb, externalId := "acme-ai/llm-pretrain/abc123" }
  status := .running
  startedAt := ⟨0⟩
  endedAt := none
  attributedCost := ⟨0, .usd⟩
  functionCode := .rnD
  capitalizationStatus := .pendingReview

def borrowedExperiment : List GraphCall :=
  [.upsertExperiment { id := ⟨5⟩, tenantId := ⟨1⟩, projectId := ⟨3⟩, name := "pretraining" } .ok,
    .upsertRun borrowedRun .ok]

theorem not_tenantsApart_borrowedExperiment : ¬TenantsApart borrowedExperiment := by
  rintro ⟨hruns, -⟩
  have hstored : (afterAll borrowedExperiment).runs = [borrowedRun.row 0] := by decide +kernel
  have hexperiments : (afterAll borrowedExperiment).experiments =
      [{ id := ⟨5⟩, tenantId := ⟨1⟩, projectId := ⟨3⟩, name := "pretraining" }] := by
    decide +kernel
  rcases hruns borrowedExperiment [] (by simp) (borrowedRun.row 0) (by simp [hstored]) with
    ⟨experiment, hmem, -, htenant⟩
  rw [hexperiments, List.mem_singleton] at hmem
  rw [hmem] at htenant
  exact absurd htenant (by decide)

end Falkr
