import Falkr.Infra.ResearchGraph
import Falkr.Lib.Returning
import Falkr.ResearchGraph.Entities

/-!
# RunStore — the store of experiments and runs

`experiments` and `runs` are lists of committed rows of all tenants.  A call runs in one transaction
under its tenant's row-level security; unique indexes and foreign keys range over all rows.
-/

namespace Falkr

open Lib

/-- A row of `runs`, with what an upsert writes.  Times are microseconds since 2000-01-01. -/
structure StoredRun extends RunRow where
  experimentId : ExperimentId
  externalSource : String
  externalId : String
  status : String
  startedAt : Int
  endedAt : Option Int
  functionCode : String
  capitalizationStatus : String
  deriving DecidableEq

namespace StoredRun

/-- The columns of `runs_external_identity`. -/
def identity (self : StoredRun) : TenantId × String × String :=
  (self.tenantId, self.externalSource, self.externalId)

/-- The columns that `DO UPDATE SET` writes and its `WHERE` compares. -/
def progress (self : StoredRun) : String × Int × Option Int × String × String :=
  (self.status, self.startedAt, self.endedAt, self.functionCode, self.capitalizationStatus)

/-- `DO UPDATE SET`. -/
def setProgress (self excluded : StoredRun) : StoredRun :=
  { self with
    status := excluded.status
    startedAt := excluded.startedAt
    endedAt := excluded.endedAt
    functionCode := excluded.functionCode
    capitalizationStatus := excluded.capitalizationStatus }

@[simp] theorem identity_setProgress (self excluded : StoredRun) :
    (self.setProgress excluded).identity = self.identity := rfl

@[simp] theorem progress_setProgress (self excluded : StoredRun) :
    (self.setProgress excluded).progress = excluded.progress := rfl

end StoredRun

structure GraphStore where
  experiments : List Experiment
  runs : List StoredRun

def GraphStore.empty : GraphStore where
  experiments := []
  runs := []

/-- What a run is known by to its tracker. -/
def Run.identity (self : Run) : TenantId × String × String :=
  (self.tenantId, self.externalRef.source.asStr, self.externalRef.externalId)

/-! ## Statements -/

/-- The row that `upsert_run` binds, with the cost as its column takes it. -/
def Run.row (self : Run) (attributedCost : ℚ) : StoredRun where
  id := self.id
  tenantId := self.tenantId
  experimentId := self.experimentId
  externalSource := self.externalRef.source.asStr
  externalId := self.externalRef.externalId
  status := self.status.asStr
  startedAt := toMicros self.startedAt
  endedAt := self.endedAt.map toMicros
  attributedCost := attributedCost
  attributedCostCurrency := self.attributedCost.currency.code
  functionCode := self.functionCode.asStr
  capitalizationStatus := self.capitalizationStatus.asStr

@[simp] theorem identity_row (run : Run) (attributedCost : ℚ) :
    (run.row attributedCost).identity = run.identity := rfl

/-- The run ends before it starts, which `runs_end_after_start` refuses. -/
def Run.EndsBeforeStart (self : Run) : Prop :=
  ∃ endedAt, self.endedAt = some endedAt ∧ toMicros endedAt < toMicros self.startedAt

instance (run : Run) : Decidable run.EndsBeforeStart :=
  match h : run.endedAt with
  | none => .isFalse fun ⟨_, hsome, _⟩ => by simp [h] at hsome
  | some endedAt =>
      decidable_of_iff (toMicros endedAt < toMicros run.startedAt)
        ⟨fun hlt => ⟨endedAt, h, hlt⟩, fun ⟨_, hsome, hlt⟩ => by
          cases h.symm.trans hsome
          exact hlt⟩

/-- The row of a run, as the column types and `runs_end_after_start` admit it.  The other check
constraints hold of every run. -/
def encodeRun (run : Run) : Except String StoredRun :=
  if textOk run.externalRef.externalId = false then
    .error "invalid byte sequence for encoding \"UTF8\": 0x00"
  else
    match toNumeric run.attributedCost.amount with
    | none => .error "numeric field overflow"
    | some attributedCost =>
        if run.EndsBeforeStart then .error "runs_end_after_start"
        else .ok (run.row attributedCost)

/-- The row under an external identity. -/
def findIdentity (identity : TenantId × String × String) (runs : List StoredRun) :
    Option StoredRun :=
  runs.find? fun row => row.identity = identity

/-- The foreign key of `runs` refers to the id of an experiment, whoever's it is. -/
def GraphStore.HasExperiment (self : GraphStore) (id : ExperimentId) : Prop :=
  ∃ experiment ∈ self.experiments, experiment.id = id

instance (store : GraphStore) (id : ExperimentId) : Decidable (store.HasExperiment id) :=
  inferInstanceAs (Decidable (∃ experiment ∈ store.experiments, experiment.id = id))

def updateProgress (row : StoredRun) (runs : List StoredRun) : List StoredRun :=
  runs.map fun existing =>
    if existing.identity = row.identity then existing.setProgress row else existing

/-- `INSERT INTO runs … ON CONFLICT (tenant_id, external_source, external_id) DO UPDATE … WHERE …
IS DISTINCT FROM … RETURNING id, (xmax = 0)`: the rows afterwards, and the row returned, if any. -/
def insertRun (store : GraphStore) (row : StoredRun) :
    Except String (List StoredRun × Option (RunId × Bool)) :=
  match findIdentity row.identity store.runs with
  | some existing =>
      -- `IS DISTINCT FROM` fails, so no row is written and none returned.
      if existing.progress = row.progress then .ok (store.runs, none)
      else .ok (updateProgress row store.runs, some (existing.id, false))
  | none =>
      if ∃ other ∈ store.runs, other.id = row.id then
        .error "duplicate key value violates unique constraint \"runs_pkey\""
      else if store.HasExperiment row.experimentId then
        .ok (store.runs ++ [row], some (row.id, true))
      else .error "insert or update on table \"runs\" violates foreign key constraint"

/-- `SELECT id FROM runs WHERE external_source = $1 AND external_id = $2`. -/
def selectRunId (run : Run) (runs : List StoredRun) : Except String RunId :=
  match findIdentity run.identity runs with
  | some row => .ok row.id
  | none => .error "no rows returned by a query that expected to return at least one row"

/-- `INSERT INTO experiments … ON CONFLICT (id) DO UPDATE SET name = EXCLUDED.name`.  The row in
conflict must be visible to the tenant. -/
def insertExperiment (store : GraphStore) (experiment : Experiment) :
    Except String (List Experiment) :=
  if textOk experiment.name = false then
    .error "invalid byte sequence for encoding \"UTF8\": 0x00"
  else
    match store.experiments.find? fun existing => existing.id = experiment.id with
    | some existing =>
        if existing.tenantId = experiment.tenantId then
          .ok (store.experiments.map fun e =>
            if e.id = experiment.id then { e with name := experiment.name } else e)
        else
          .error "new row violates row-level security policy (USING expression) for table"
    | none => .ok (store.experiments ++ [experiment])

/-! ## The store -/

/-- The errors of the connection and of statements that a call meets. -/
structure GraphEnv where
  beginError : Option String
  insertError : Option String
  selectError : Option String
  commitError : Option String

/-- A call on which no statement fails. -/
def GraphEnv.ok : GraphEnv where
  beginError := none
  insertError := none
  selectError := none
  commitError := none

/-- `?` on a statement that may fail. -/
def raise (error : Option String) : Except ResearchStoreError Unit :=
  match error with
  | some e => .error (.backend e)
  | none => .ok ()

/-- What the statement's row says happened; without one, the row's id is looked up. -/
def runOutcome (env : GraphEnv) (run : Run) (runs : List StoredRun) :
    Option (RunId × Bool) → Except ResearchStoreError RunUpsert
  | some (id, true) => .ok (.inserted id)
  | some (id, false) => .ok (.updated id)
  | none => do
      raise env.selectError
      let existing ← (selectRunId run runs).mapError .backend
      .ok (.unchanged existing)

/-- The transaction of `upsert_run`. -/
def upsertRunTx (store : GraphStore) (run : Run) (env : GraphEnv) :
    Except ResearchStoreError (GraphStore × RunUpsert) := do
  raise env.beginError
  raise env.insertError
  let row ← (encodeRun run).mapError .backend
  let (runs, returned) ← (insertRun store row).mapError .backend
  let outcome ← runOutcome env run runs returned
  raise env.commitError
  .ok ({ store with runs := runs }, outcome)

/-- Upserts a run, keyed on its tenant and its external reference. -/
def upsertRun (store : GraphStore) (run : Run) (env : GraphEnv) :
    GraphStore × Except ResearchStoreError RunUpsert :=
  match upsertRunTx store run env with
  | .ok (store, outcome) => (store, .ok outcome)
  | .error e => (store, .error e)

/-- The transaction of `upsert_experiment`. -/
def upsertExperimentTx (store : GraphStore) (experiment : Experiment) (env : GraphEnv) :
    Except ResearchStoreError GraphStore := do
  raise env.beginError
  raise env.insertError
  let experiments ← (insertExperiment store experiment).mapError .backend
  raise env.commitError
  .ok { store with experiments := experiments }

def upsertExperiment (store : GraphStore) (experiment : Experiment) (env : GraphEnv) :
    GraphStore × Except ResearchStoreError Unit :=
  match upsertExperimentTx store experiment env with
  | .ok store => (store, .ok ())
  | .error e => (store, .error e)

/-! ## What the statements do -/

theorem encodeRun_eq_ok {run : Run} {row : StoredRun} :
    encodeRun run = .ok row ↔
      textOk run.externalRef.externalId = true ∧ ¬run.EndsBeforeStart ∧
        ∃ attributedCost, toNumeric run.attributedCost.amount = some attributedCost ∧
          row = run.row attributedCost := by
  by_cases htext : textOk run.externalRef.externalId = true
  · cases hcost : toNumeric run.attributedCost.amount with
    | none => simp [encodeRun, htext, hcost]
    | some attributedCost =>
        by_cases hends : run.EndsBeforeStart
        · simp [encodeRun, htext, hcost, hends]
        · simp [encodeRun, htext, hcost, hends, eq_comm]
  · simp [encodeRun, htext]

theorem identity_of_encodeRun {run : Run} {row : StoredRun} (h : encodeRun run = .ok row) :
    row.identity = run.identity ∧ row.id = run.id ∧ row.tenantId = run.tenantId ∧
      row.experimentId = run.experimentId := by
  rcases encodeRun_eq_ok.1 h with ⟨-, -, attributedCost, -, rfl⟩
  exact ⟨rfl, rfl, rfl, rfl⟩

/-- The insert finds the row up to date, brings it up to date, or puts it there. -/
theorem insertRun_cases {store : GraphStore} {row : StoredRun} {runs : List StoredRun}
    {returned : Option (RunId × Bool)} (h : insertRun store row = .ok (runs, returned)) :
    (∃ existing, findIdentity row.identity store.runs = some existing ∧
        existing.progress = row.progress ∧ runs = store.runs ∧ returned = none) ∨
      (∃ existing, findIdentity row.identity store.runs = some existing ∧
        existing.progress ≠ row.progress ∧ runs = updateProgress row store.runs ∧
          returned = some (existing.id, false)) ∨
      (findIdentity row.identity store.runs = none ∧ (∀ other ∈ store.runs, other.id ≠ row.id) ∧
        store.HasExperiment row.experimentId ∧ runs = store.runs ++ [row] ∧
          returned = some (row.id, true)) := by
  cases hfind : findIdentity row.identity store.runs with
  | some existing =>
      by_cases hsame : existing.progress = row.progress
      · have hpair : store.runs = runs ∧ none = returned := by
          simpa [insertRun, hfind, hsame] using h
        exact Or.inl ⟨existing, rfl, hsame, hpair.1.symm, hpair.2.symm⟩
      · have hpair : updateProgress row store.runs = runs ∧
            some (existing.id, false) = returned := by
          simpa [insertRun, hfind, hsame] using h
        exact Or.inr (Or.inl ⟨existing, rfl, hsame, hpair.1.symm, hpair.2.symm⟩)
  | none =>
      by_cases hid : ∃ other ∈ store.runs, other.id = row.id
      · simp [insertRun, hfind, hid] at h
      · by_cases hexp : store.HasExperiment row.experimentId
        · have hpair : store.runs ++ [row] = runs ∧ some (row.id, true) = returned := by
            simpa [insertRun, hfind, hid, hexp] using h
          refine Or.inr (Or.inr ⟨rfl, ?_, hexp, hpair.1.symm, hpair.2.symm⟩)
          intro other hmem heq
          exact hid ⟨other, hmem, heq⟩
        · simp [insertRun, hfind, hid, hexp] at h

/-- A row that is there is left as it is or brought up to date. -/
theorem insertRun_of_findIdentity {store : GraphStore} {row existing : StoredRun}
    (h : findIdentity row.identity store.runs = some existing) :
    insertRun store row =
      if existing.progress = row.progress then .ok (store.runs, none)
      else .ok (updateProgress row store.runs, some (existing.id, false)) := by
  simp only [insertRun, h]

/-- A new row is put there if its id is new as well and its experiment is known. -/
theorem insertRun_of_new {store : GraphStore} {row : StoredRun}
    (h : findIdentity row.identity store.runs = none)
    (hid : ∀ other ∈ store.runs, other.id ≠ row.id) (hexp : store.HasExperiment row.experimentId) :
    insertRun store row = .ok (store.runs ++ [row], some (row.id, true)) := by
  have hnone : ¬∃ other ∈ store.runs, other.id = row.id := by
    rintro ⟨other, hmem, heq⟩
    exact hid other hmem heq
  simp only [insertRun, h, if_neg hnone, if_pos hexp]

theorem findIdentity_updateProgress (identity : TenantId × String × String) (row : StoredRun)
    (runs : List StoredRun) :
    findIdentity identity (updateProgress row runs) =
      (findIdentity identity runs).map fun existing =>
        if identity = row.identity then existing.setProgress row else existing := by
  induction runs with
  | nil => rfl
  | cons first rest ih =>
      simp only [findIdentity, updateProgress] at ih ⊢
      -- `setProgress` keeps the identity, so the row found is found at the same place.
      by_cases hfirst : first.identity = identity
      · subst hfirst
        by_cases hsame : first.identity = row.identity <;> simp [hsame]
      · have hkept : (if first.identity = row.identity then first.setProgress row
            else first).identity ≠ identity := by
          split_ifs <;> exact hfirst
        rw [List.map_cons, List.find?_cons_of_neg (by simpa using hkept), ih,
          List.find?_cons_of_neg (by simpa using hfirst)]

theorem findIdentity_append (identity : TenantId × String × String) (runs : List StoredRun)
    (row : StoredRun) :
    findIdentity identity (runs ++ [row]) =
      (findIdentity identity runs).or (if row.identity = identity then some row else none) := by
  by_cases h : row.identity = identity <;> simp [findIdentity, List.find?_append, h]

/-- After the insert the row under the identity carries what was delivered. -/
theorem findIdentity_insertRun {store : GraphStore} {row : StoredRun} {runs : List StoredRun}
    {returned : Option (RunId × Bool)} (h : insertRun store row = .ok (runs, returned)) :
    ∃ stored, findIdentity row.identity runs = some stored ∧ stored.progress = row.progress := by
  rcases insertRun_cases h with ⟨existing, hfind, hsame, rfl, -⟩ | ⟨existing, hfind, -, rfl, -⟩ |
    ⟨hfind, -, -, rfl, -⟩
  · exact ⟨existing, hfind, hsame⟩
  · exact ⟨existing.setProgress row, by simp [findIdentity_updateProgress, hfind], rfl⟩
  · exact ⟨row, by simp [findIdentity_append, hfind], rfl⟩

/-! ## What a call does -/

@[simp] theorem raise_eq_ok {error : Option String} {u : Unit} :
    raise error = .ok u ↔ error = none := by
  cases error <;> simp [raise]

/-- No statement of an upsert fails but for the values it is given. -/
def GraphEnv.Quiet (self : GraphEnv) : Prop :=
  self.beginError = none ∧ self.insertError = none ∧ self.commitError = none

theorem upsertRunTx_eq_ok {store store' : GraphStore} {run : Run} {env : GraphEnv}
    {outcome : RunUpsert} :
    upsertRunTx store run env = .ok (store', outcome) ↔
      env.Quiet ∧ ∃ row runs returned, encodeRun run = .ok row ∧
        insertRun store row = .ok (runs, returned) ∧
        runOutcome env run runs returned = .ok outcome ∧
        store' = { store with runs := runs } := by
  constructor
  · intro h
    rcases bind_eq_ok h with ⟨_, hbegin, h⟩
    rcases bind_eq_ok h with ⟨_, hinsert, h⟩
    rcases bind_eq_ok h with ⟨row, hrow, h⟩
    rcases bind_eq_ok h with ⟨⟨runs, returned⟩, hruns, h⟩
    rcases bind_eq_ok h with ⟨outcome', houtcome, h⟩
    rcases bind_eq_ok h with ⟨_, hcommit, h⟩
    cases h
    exact ⟨⟨raise_eq_ok.1 hbegin, raise_eq_ok.1 hinsert, raise_eq_ok.1 hcommit⟩, row, runs, returned,
      mapError_eq_ok.1 hrow, mapError_eq_ok.1 hruns, houtcome, rfl⟩
  · rintro ⟨⟨hbegin, hinsert, hcommit⟩, row, runs, returned, hrow, hruns, houtcome, rfl⟩
    simp [upsertRunTx, hbegin, hinsert, hcommit, hrow, hruns, houtcome, raise, Except.mapError, bind,
      Except.bind]

/-- A call that fails changes nothing; one that succeeds leaves what its transaction wrote. -/
theorem upsertRun_cases (store : GraphStore) (run : Run) (env : GraphEnv) :
    (∃ e, upsertRunTx store run env = .error e ∧ upsertRun store run env = (store, .error e)) ∨
      ∃ store' outcome, upsertRunTx store run env = .ok (store', outcome) ∧
        upsertRun store run env = (store', .ok outcome) := by
  cases htx : upsertRunTx store run env with
  | error e => exact Or.inl ⟨e, rfl, by simp [upsertRun, htx]⟩
  | ok pair => exact Or.inr ⟨pair.1, pair.2, rfl, by simp [upsertRun, htx]⟩

/-- The insert renames an experiment of the tenant's own or adds one under a new id. -/
theorem insertExperiment_cases {store : GraphStore} {experiment : Experiment}
    {experiments : List Experiment} (h : insertExperiment store experiment = .ok experiments) :
    (∃ existing ∈ store.experiments, existing.id = experiment.id ∧
        existing.tenantId = experiment.tenantId ∧
        experiments = store.experiments.map fun e =>
          if e.id = experiment.id then { e with name := experiment.name } else e) ∨
      (∀ existing ∈ store.experiments, existing.id ≠ experiment.id) ∧
        experiments = store.experiments ++ [experiment] := by
  by_cases htext : textOk experiment.name = false
  · simp [insertExperiment, htext] at h
  · cases hfind : store.experiments.find? fun existing => existing.id = experiment.id with
    | none =>
        have heq : store.experiments ++ [experiment] = experiments := by
          simpa [insertExperiment, htext, hfind] using h
        exact Or.inr ⟨by simpa using hfind, heq.symm⟩
    | some existing =>
        by_cases htenant : existing.tenantId = experiment.tenantId
        · have hid : existing.id = experiment.id := by simpa using List.find?_some hfind
          have heq : (store.experiments.map fun e =>
              if e.id = experiment.id then { e with name := experiment.name } else e) =
                experiments := by
            simpa [insertExperiment, htext, hfind, htenant] using h
          exact Or.inl ⟨existing, List.mem_of_find?_eq_some hfind, hid, htenant, heq.symm⟩
        · simp [insertExperiment, htext, hfind, htenant] at h

theorem upsertExperiment_cases (store : GraphStore) (experiment : Experiment) (env : GraphEnv) :
    (upsertExperiment store experiment env).1 = store ∨
      ∃ experiments, insertExperiment store experiment = .ok experiments ∧
        (upsertExperiment store experiment env).1 = { store with experiments := experiments } := by
  cases htx : upsertExperimentTx store experiment env with
  | error e => exact Or.inl (by simp [upsertExperiment, htx])
  | ok store' =>
      have hcall : (upsertExperiment store experiment env).1 = store' := by
        simp [upsertExperiment, htx]
      rcases bind_eq_ok htx with ⟨_, -, htx⟩
      rcases bind_eq_ok htx with ⟨_, -, htx⟩
      rcases bind_eq_ok htx with ⟨experiments, hinsert, htx⟩
      rcases bind_eq_ok htx with ⟨_, -, htx⟩
      cases htx
      exact Or.inr ⟨experiments, mapError_eq_ok.1 hinsert, hcall⟩

end Falkr
