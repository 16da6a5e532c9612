import Falkr.Api.Service
import Falkr.Infra.LedgerIsolation
import Falkr.Lib.Lists

/-!
# Isolation — what a tenant sees of the service

The primary keys and the foreign key of runs range over the rows of all tenants, so whether a
tenant's write goes through may depend on the others.  Nothing else does: what a tenant's requests
are answered, and what its writes return, depends on its own part of the service and on the results
of its own writes (`tenant_sees_own_part`).
-/

namespace Falkr

open Lib

/-! ## A tenant's own part -/

def ownCosts (tenantId : TenantId) (costs : List CostRow) : List CostRow :=
  costs.filter fun row => row.dims.tenantId = tenantId

def ownRuns (tenantId : TenantId) (runs : List StoredRun) : List StoredRun :=
  runs.filter fun row => row.tenantId = tenantId

/-- The tenant's own rows.  No request reads an experiment. -/
def Database.own {J : Type} (tenantId : TenantId) (self : Database J) : Database J where
  costs := ownCosts tenantId self.costs
  graph := { experiments := [], runs := ownRuns tenantId self.graph.runs }
  ledger := visible tenantId self.ledger

/-- The tenant's own rows and the requests that it has in flight. -/
def Service.own {J : Type} (tenantId : TenantId) (self : Service J) : Service J where
  db := self.db.own tenantId
  inFlight := self.inFlight.filter fun entry => entry.tenantId = tenantId

/-- Whose call it is.  A request without a valid credential is nobody's. -/
def ServiceCall.tenantId (resolve : String → Option TenantContext) : ServiceCall → Option TenantId
  | .request _ httpRequest _ _ =>
      (fromRequestParts resolve httpRequest.headers).toOption.map TenantContext.tenantId
  | .resume tenantId _ _ => some tenantId
  | .persist tenantId _ _ _ => some tenantId
  | .upsertCosts events _ => events.head?.map fun event => event.dims.tenantId
  | .upsertExperiment experiment _ => some experiment.tenantId
  | .upsertRun run _ => some run.tenantId

section Reads

variable {J : Type} {libs : ApiLibraries J} {tenantId : TenantId}

theorem findRun_own (db : Database J) (runId : RunId) (env : ReadEnv) :
    findRun libs.decodeNumeric (db.own tenantId).graph tenantId runId env =
      findRun libs.decodeNumeric db.graph tenantId runId env := by
  have hfind : (ownRuns tenantId db.graph.runs).find? (fun row =>
      row.id = runId ∧ row.tenantId = tenantId) =
        db.graph.runs.find? fun row => row.id = runId ∧ row.tenantId = tenantId := by
    apply find?_filter_of_imp
    intro row hrow
    simp only [Bool.decide_and, Bool.and_eq_true, decide_eq_true_eq] at hrow ⊢
    exact hrow.2
  exact congrArg (readRun libs.decodeNumeric env) hfind

theorem requireRun_own (db : Database J) {ctx : TenantContext} (runId : RunId)
    (env : ReadEnv) :
    requireRun libs (db.own ctx.tenantId) ctx runId env = requireRun libs db ctx runId env := by
  unfold requireRun
  rw [findRun_own]

theorem getCoverage_own (db : Database J) {ctx : TenantContext} (since : Option DateTimeUtc)
    (now : DateTimeUtc) (env : ReadEnv) :
    getCoverage (db.own ctx.tenantId) ctx since now env = getCoverage db ctx since now env := by
  -- The statement has the tenant in its own filter, so other tenants' rows make no difference.
  have hrows : ∀ time, ingestedSince ctx.tenantId time (ownCosts ctx.tenantId db.costs) =
      ingestedSince ctx.tenantId time db.costs := by
    intro time
    apply filter_filter_of_imp
    intro row hrow
    simp only [Bool.decide_and, Bool.and_eq_true, decide_eq_true_eq] at hrow ⊢
    exact hrow.1
  have hcoverage : ∀ time, attributionCoverage (ownCosts ctx.tenantId db.costs) ctx.tenantId time env =
      attributionCoverage db.costs ctx.tenantId time env := by
    intro time
    unfold attributionCoverage
    rw [hrows]
  unfold getCoverage
  simp only [Database.own, hcoverage]

theorem balanceLoad_own (db : Database J) {ctx : TenantContext} (aggregateId : Uuid)
    (env : ReadEnv) :
    balanceLoad libs (db.own ctx.tenantId) ctx aggregateId env =
      balanceLoad libs db ctx aggregateId env := by
  unfold balanceLoad
  simp only [Database.own, load_visible]

theorem balanceCount_own (db : Database J) (aggregateId : Uuid)
    (state : AggregateState (LedgerState Decimal)) (env : ReadEnv) :
    balanceCount libs (db.own tenantId) tenantId aggregateId state env =
      balanceCount libs db tenantId aggregateId state env := by
  have hselect : selectStream tenantId aggregateId (visible tenantId db.ledger) =
      selectStream tenantId aggregateId db.ledger := by
    unfold selectStream visible
    rw [filter_filter_of_imp]
    intro row hrow
    simp only [Bool.decide_and, Bool.and_eq_true, decide_eq_true_eq] at hrow ⊢
    exact hrow.1
  unfold balanceCount eventCount byAggregateId
  simp only [Database.own, hselect]

theorem serve_own {resolve : String → Option TenantContext} {request : HttpRequest}
    {ctx : TenantContext} (hctx : fromRequestParts resolve request.headers = .ok ctx)
    (db : Database J) (now : DateTimeUtc) (env : ReadEnv) :
    serve libs resolve (db.own ctx.tenantId) request now env =
      serve libs resolve db request now env := by
  have hhandle : ∀ route, handle libs (db.own ctx.tenantId) ctx request.query now env route =
      handle libs db ctx request.query now env route := by
    intro route
    cases route with
    | health => rfl
    | run | runCost => simp only [handle, requireRun_own]
    | coverage => simp only [handle, getCoverage_own]
    | balance => simp only [handle, balanceLoad_own]
  unfold serve
  rw [hctx]
  cases matchPath request.path with
  | none => rfl
  | some route => cases route <;> simp only [hhandle]

/-! ## Refreshing -/

theorem refreshedCost_own (decodeNumeric : ℚ → Except String ℚ) (runId : RunId)
    (runs : List StoredRun) (costs : List CostRow) :
    refreshedCost decodeNumeric tenantId runId (ownRuns tenantId runs) (ownCosts tenantId costs) =
      refreshedCost decodeNumeric tenantId runId runs costs := by
  have hrun : selectRun tenantId runId ((ownRuns tenantId runs).map StoredRun.toRunRow) =
      selectRun tenantId runId (runs.map StoredRun.toRunRow) := by
    unfold selectRun ownRuns
    rw [List.find?_map, List.find?_map, find?_filter_of_imp]
    intro row hrow
    simp only [Function.comp_apply, Bool.decide_and, Bool.and_eq_true, decide_eq_true_eq] at hrow ⊢
    exact hrow.2
  have hcurrency := readCurrency_congr (congrArg (Option.map RunRow.attributedCostCurrency) hrun)
  -- Both reads of a refresh, of the run and of its charges, are for the tenant.
  have hcosts : ∀ currencyRaw, costsOf tenantId runId currencyRaw (ownCosts tenantId costs) =
      costsOf tenantId runId currencyRaw costs := by
    intro currencyRaw
    unfold costsOf ownCosts
    apply filter_filter_of_imp
    intro row hrow
    simp only [Bool.decide_and, Bool.and_eq_true, decide_eq_true_eq] at hrow ⊢
    exact hrow.1
  unfold refreshedCost readAttributed sumEffectiveCost
  simp only [hcurrency, hcosts]

theorem tenantId_setStoredCost (tenantId : TenantId) (runId : RunId) (cost : ℚ) (row : StoredRun) :
    (setStoredCost tenantId runId cost row).tenantId = row.tenantId := by
  unfold setStoredCost
  split_ifs <;> rfl

theorem ownRuns_setStoredCost (tenantId' : TenantId) (runId : RunId) (cost : ℚ)
    (runs : List StoredRun) :
    ownRuns tenantId (runs.map (setStoredCost tenantId' runId cost)) =
      (ownRuns tenantId runs).map (setStoredCost tenantId' runId cost) :=
  filter_map_of_kept (fun row => by simp only [tenantId_setStoredCost]) runs

/-- A refresh for another tenant leaves the tenant's runs as they are. -/
theorem ownRuns_setStoredCost_other {tenantId' : TenantId} (hne : tenantId' ≠ tenantId)
    (runId : RunId) (cost : ℚ) (runs : List StoredRun) :
    ownRuns tenantId (runs.map (setStoredCost tenantId' runId cost)) = ownRuns tenantId runs := by
  have hself : ∀ row ∈ ownRuns tenantId runs, setStoredCost tenantId' runId cost row = row := by
    intro row hmem
    have htenant : row.tenantId = tenantId := by simpa using List.of_mem_filter hmem
    exact if_neg fun h => hne (h.2.symm.trans htenant)
  rw [ownRuns_setStoredCost, List.map_congr_left hself, List.map_id']

theorem own_refresh (db : Database J) (runId : RunId) (env : ReadEnv) :
    ((refresh libs db tenantId runId env).1.own tenantId,
        (refresh libs db tenantId runId env).2) =
      refresh libs (db.own tenantId) tenantId runId env := by
  unfold refresh
  cases env.failure with
  | some e => rfl
  | none =>
      have hown : refreshedCost libs.decodeNumeric tenantId runId (db.own tenantId).graph.runs
          (db.own tenantId).costs =
            refreshedCost libs.decodeNumeric tenantId runId db.graph.runs db.costs :=
        refreshedCost_own libs.decodeNumeric runId db.graph.runs db.costs
      simp only [refreshRun_eq, hown]
      cases refreshedCost libs.decodeNumeric tenantId runId db.graph.runs db.costs with
      | error e => rfl
      | ok refreshed => simp only [Database.own, ownRuns_setStoredCost]

theorem own_refresh_other {tenantId' : TenantId} (hne : tenantId' ≠ tenantId) (db : Database J)
    (runId : RunId) (env : ReadEnv) :
    (refresh libs db tenantId' runId env).1.own tenantId = db.own tenantId := by
  unfold refresh
  cases env.failure with
  | some e => rfl
  | none =>
      simp only [refreshRun_eq]
      cases refreshedCost libs.decodeNumeric tenantId' runId db.graph.runs db.costs with
      | error e => rfl
      | ok refreshed => simp only [Database.own, ownRuns_setStoredCost_other hne]

theorem own_finish {pending : Pending} (h : pending.tenantId = tenantId) (db : Database J)
    (env : ReadEnv) :
    ((finish libs db env pending).1.own tenantId, (finish libs db env pending).2) =
      finish libs (db.own tenantId) env pending := by
  subst h
  cases pending with
  | runCost tenantId runId =>
      simp only [finish, Pending.tenantId, ← own_refresh db runId env]
  | balance tenantId aggregateId state => simp only [finish, Pending.tenantId, balanceCount_own]

theorem own_finish_other {pending : Pending} (h : pending.tenantId ≠ tenantId) (db : Database J)
    (env : ReadEnv) : (finish libs db env pending).1.own tenantId = db.own tenantId := by
  cases pending with
  | runCost tenantId' runId => exact own_refresh_other h db runId env
  | balance tenantId' aggregateId state => rfl

end Reads

/-! ## Writing -/

section Writes

variable {tenantId : TenantId}

theorem tenantId_of_identity_eq {row row' : CostRow} (h : row.identity = row'.identity) :
    row.dims.tenantId = row'.dims.tenantId :=
  congrArg Prod.fst h

theorem ownCosts_restate (table : List CostRow) (row : CostRow) :
    ownCosts tenantId (restate table row) = restate (ownCosts tenantId table) row := by
  apply filter_map_of_kept
  intro existing
  rw [tenantId_of_identity_eq (identity_restated row existing)]

/-- An upsert does to the tenant's rows what it would do to them alone. -/
theorem upsertRow_own {table table' : List CostRow} {row : CostRow} {result : UpsertResult}
    (hrow : row.dims.tenantId = tenantId) (h : upsertRow table row = .ok (table', result)) :
    upsertRow (ownCosts tenantId table) row = .ok (ownCosts tenantId table', result) := by
  -- The identity begins with the tenant, so a conflicting row is one of its own.
  have hfind : findRow row.identity (ownCosts tenantId table) = findRow row.identity table := by
    apply find?_filter_of_imp
    intro existing hsame
    rw [decide_eq_true_eq] at hsame ⊢
    exact (tenantId_of_identity_eq hsame).trans hrow
  rcases upsertRow_cases h with ⟨existing, hexisting, hhash, rfl, rfl⟩ |
    ⟨existing, hexisting, hhash, rfl, rfl⟩ | ⟨hnone, hnew, rfl, rfl⟩
  · rw [upsertRow_of_findRow (hfind.trans hexisting), if_pos hhash]
  · rw [upsertRow_of_findRow (hfind.trans hexisting), if_neg hhash, ownCosts_restate]
  -- An id that is new among all rows is new among the tenant's.
  · have hid : ¬∃ other ∈ ownCosts tenantId table, other.id = row.id := by
      rintro ⟨other, hmem, heq⟩
      exact hnew other (List.mem_of_mem_filter hmem) heq
    have hnone' : (ownCosts tenantId table).find? (fun existing =>
        existing.identity = row.identity) = none := hfind.trans hnone
    have happend : ownCosts tenantId (table ++ [row]) = ownCosts tenantId table ++ [row] := by
      simp [ownCosts, hrow]
    simp [upsertRow, hnone', hid, happend]

theorem upsertRow_other {table table' : List CostRow} {row : CostRow} {result : UpsertResult}
    (hrow : row.dims.tenantId ≠ tenantId) (h : upsertRow table row = .ok (table', result)) :
    ownCosts tenantId table' = ownCosts tenantId table := by
  rcases upsertRow_cases h with ⟨-, -, -, rfl, -⟩ | ⟨-, -, -, rfl, -⟩ | ⟨-, -, rfl, -⟩
  · rfl
  · have hself : ∀ existing ∈ ownCosts tenantId table,
        (if existing.identity = row.identity then { row with id := existing.id } else existing) =
          existing := by
      intro existing hmem
      have htenant : existing.dims.tenantId = tenantId := by simpa using List.of_mem_filter hmem
      exact if_neg fun hsame => hrow ((tenantId_of_identity_eq hsame).symm.trans htenant)
    rw [ownCosts_restate, restate, List.map_congr_left hself, List.map_id']
  · simp [ownCosts, hrow]

theorem tenantId_of_encodeEvent {event : CostEvent} {row : CostRow}
    (h : encodeEvent event = .ok row) : row.dims.tenantId = event.dims.tenantId :=
  congrArg Prod.fst (identity_of_encodeEvent h).1

theorem upsertEvents_own {env : UpsertEnv} :
    ∀ {events : List CostEvent} {pass : Nat} {table table' : List CostRow}
      {outcome outcome' : UpsertOutcome}, (∀ event ∈ events, event.dims.tenantId = tenantId) →
      upsertEvents env events pass table outcome = .ok (table', outcome') →
      upsertEvents env events pass (ownCosts tenantId table) outcome =
        .ok (ownCosts tenantId table', outcome') := by
  intro events
  induction events with
  | nil =>
      intro pass table table' outcome outcome' _ h
      cases h
      rfl
  | cons event rest ih =>
      intro pass table table' outcome outcome' hevents h
      rcases List.forall_mem_cons.1 hevents with ⟨hevent, hrest⟩
      rcases upsertEvents_cons_eq_ok.1 h with ⟨hquiet, row, table₁, step, hencode, hrow, htail⟩
      have htenant := (tenantId_of_encodeEvent hencode).trans hevent
      exact upsertEvents_cons_eq_ok.2
        ⟨hquiet, row, _, step, hencode, upsertRow_own htenant hrow, ih hrest htail⟩

theorem upsertEvents_other {env : UpsertEnv} :
    ∀ {events : List CostEvent} {pass : Nat} {table table' : List CostRow}
      {outcome outcome' : UpsertOutcome}, (∀ event ∈ events, event.dims.tenantId ≠ tenantId) →
      upsertEvents env events pass table outcome = .ok (table', outcome') →
      ownCosts tenantId table' = ownCosts tenantId table := by
  intro events
  induction events with
  | nil =>
      intro pass table table' outcome outcome' _ h
      cases h
      rfl
  | cons event rest ih =>
      intro pass table table' outcome outcome' hevents h
      rcases List.forall_mem_cons.1 hevents with ⟨hevent, hrest⟩
      rcases upsertEvents_cons_eq_ok.1 h with ⟨-, row, table₁, step, hencode, hrow, htail⟩
      have htenant : row.dims.tenantId ≠ tenantId := tenantId_of_encodeEvent hencode ▸ hevent
      exact (ih hrest htail).trans (upsertRow_other htenant hrow)

theorem tenantId_of_oneTenant {events : List CostEvent} (hone : OneTenant events)
    {tenantId' : TenantId} (hhead : events.head?.map (fun event => event.dims.tenantId) =
      some tenantId') : ∀ event ∈ events, event.dims.tenantId = tenantId' := by
  cases events with
  | nil => cases hhead
  | cons first rest =>
      intro event hmem
      exact (hone event hmem first (by simp)).trans (Option.some.inj hhead)

/-- What a batch of the tenant's leaves of its own rows follows from them and from what it returns. -/
theorem ownCosts_upsert {events : List CostEvent} {env : UpsertEnv} {costs costs' : List CostRow}
    (hhead : events.head?.map (fun event => event.dims.tenantId) = some tenantId)
    (hown : ownCosts tenantId costs = ownCosts tenantId costs')
    (hresult : (upsert costs events env).2 = (upsert costs' events env).2) :
    ownCosts tenantId (upsert costs events env).1 =
      ownCosts tenantId (upsert costs' events env).1 := by
  rcases upsert_cases costs events env with ⟨table, outcome, hcall, hone, hloop⟩ | ⟨e, hcall⟩
  · rcases upsert_cases costs' events env with ⟨table', outcome', hcall', -, hloop'⟩ | ⟨e, hcall'⟩
    · have hevents := tenantId_of_oneTenant hone hhead
      -- Both loops went through, and over the same own rows they go the same way.
      have hloops := (upsertEvents_own hevents hloop).symm.trans
        ((congrArg (fun own => upsertEvents env events 0 own UpsertOutcome.default) hown).trans
          (upsertEvents_own hevents hloop'))
      rw [hcall, hcall']
      exact congrArg Prod.fst (Except.ok.inj hloops)
    · simp [hcall, hcall'] at hresult
  · rcases upsert_cases costs' events env with ⟨table', outcome', hcall', -, -⟩ | ⟨e', hcall'⟩
    · simp [hcall, hcall'] at hresult
    · rw [hcall, hcall']
      exact hown

theorem ownCosts_upsert_other {events : List CostEvent} {env : UpsertEnv} {costs : List CostRow}
    (hhead : events.head?.map (fun event => event.dims.tenantId) ≠ some tenantId) :
    ownCosts tenantId (upsert costs events env).1 = ownCosts tenantId costs := by
  rcases upsert_cases costs events env with ⟨table, outcome, hcall, hone, hloop⟩ | ⟨e, hcall⟩
  · rw [hcall]
    apply upsertEvents_other _ hloop
    intro event hmem htenant
    cases events with
    | nil => cases hmem
    | cons first rest =>
        exact hhead (congrArg some ((hone first (by simp) event hmem).trans htenant))
  · rw [hcall]

/-- The rows after an insert that goes through. -/
def insertedRuns (row : StoredRun) (runs : List StoredRun) : List StoredRun :=
  match findIdentity row.identity runs with
  | some existing => if existing.progress = row.progress then runs else updateProgress row runs
  | none => runs ++ [row]

theorem insertRun_eq_inserted {store : GraphStore} {row : StoredRun} {runs : List StoredRun}
    {returned : Option (RunId × Bool)} (h : insertRun store row = .ok (runs, returned)) :
    runs = insertedRuns row store.runs := by
  rcases insertRun_cases h with ⟨existing, hfind, hprogress, rfl, -⟩ |
    ⟨existing, hfind, hprogress, rfl, -⟩ | ⟨hfind, -, -, rfl, -⟩ <;>
    simp [insertedRuns, *]

theorem runTenant_of_identity_eq {row row' : StoredRun} (h : row.identity = row'.identity) :
    row.tenantId = row'.tenantId :=
  congrArg Prod.fst h

theorem ownRuns_updateProgress (row : StoredRun) (runs : List StoredRun) :
    ownRuns tenantId (updateProgress row runs) = updateProgress row (ownRuns tenantId runs) := by
  apply filter_map_of_kept
  intro existing
  split_ifs <;> rfl

theorem ownRuns_inserted {row : StoredRun} (hrow : row.tenantId = tenantId)
    (runs : List StoredRun) :
    ownRuns tenantId (insertedRuns row runs) = insertedRuns row (ownRuns tenantId runs) := by
  have hfind : findIdentity row.identity (ownRuns tenantId runs) =
      findIdentity row.identity runs := by
    apply find?_filter_of_imp
    intro existing hsame
    rw [decide_eq_true_eq] at hsame ⊢
    exact (runTenant_of_identity_eq hsame).trans hrow
  unfold insertedRuns
  rw [hfind]
  cases findIdentity row.identity runs with
  | some existing =>
      by_cases hsame : existing.progress = row.progress
      · simp only [hsame, if_true]
      · simp only [hsame, if_false, ownRuns_updateProgress]
  | none => simp [ownRuns, hrow]

theorem ownRuns_inserted_other {row : StoredRun} (hrow : row.tenantId ≠ tenantId)
    (runs : List StoredRun) : ownRuns tenantId (insertedRuns row runs) = ownRuns tenantId runs := by
  unfold insertedRuns
  cases findIdentity row.identity runs with
  | some existing =>
      have hself : ∀ existing ∈ ownRuns tenantId runs,
          (if existing.identity = row.identity then existing.setProgress row else existing) =
            existing := by
        intro existing hmem
        have htenant : existing.tenantId = tenantId := by simpa using List.of_mem_filter hmem
        exact if_neg fun hsame => hrow ((runTenant_of_identity_eq hsame).symm.trans htenant)
      by_cases hsame : existing.progress = row.progress
      · simp only [hsame, if_true]
      · simp only [hsame, if_false, ownRuns_updateProgress]
        rw [updateProgress, List.map_congr_left hself, List.map_id']
  | none => simp [ownRuns, hrow]

/-- What a run of the tenant's leaves of its own runs follows from them and from what it returns. -/
theorem ownRuns_upsertRun {run : Run} {env : GraphEnv} {store store' : GraphStore}
    (hrun : run.tenantId = tenantId)
    (hown : ownRuns tenantId store.runs = ownRuns tenantId store'.runs)
    (hresult : (upsertRun store run env).2 = (upsertRun store' run env).2) :
    ownRuns tenantId (upsertRun store run env).1.runs =
      ownRuns tenantId (upsertRun store' run env).1.runs := by
  rcases upsertRun_cases store run env with ⟨e, -, hcall⟩ | ⟨after, outcome, htx, hcall⟩
  · rcases upsertRun_cases store' run env with ⟨e', -, hcall'⟩ | ⟨after', outcome', -, hcall'⟩
    · rw [hcall, hcall']
      exact hown
    · simp [hcall, hcall'] at hresult
  · rcases upsertRun_cases store' run env with ⟨e', -, hcall'⟩ | ⟨after', outcome', htx', hcall'⟩
    · simp [hcall, hcall'] at hresult
    · rcases upsertRunTx_eq_ok.1 htx with ⟨-, row, runs, returned, hrow, hinsert, -, rfl⟩
      rcases upsertRunTx_eq_ok.1 htx' with ⟨-, row', runs', returned', hrow', hinsert', -, rfl⟩
      -- Both calls encoded the same run.
      cases Except.ok.inj (hrow.symm.trans hrow')
      have htenant : row.tenantId = tenantId := (identity_of_encodeRun hrow).2.2.1.trans hrun
      rw [hcall, hcall']
      simp only [insertRun_eq_inserted hinsert, insertRun_eq_inserted hinsert',
        ownRuns_inserted htenant, hown]

theorem ownRuns_upsertRun_other {run : Run} {env : GraphEnv} {store : GraphStore}
    (hrun : run.tenantId ≠ tenantId) :
    ownRuns tenantId (upsertRun store run env).1.runs = ownRuns tenantId store.runs := by
  rcases upsertRun_cases store run env with ⟨e, -, hcall⟩ | ⟨after, outcome, htx, hcall⟩
  · rw [hcall]
  · rcases upsertRunTx_eq_ok.1 htx with ⟨-, row, runs, returned, hrow, hinsert, -, rfl⟩
    have htenant : row.tenantId ≠ tenantId := (identity_of_encodeRun hrow).2.2.1 ▸ hrun
    rw [hcall, insertRun_eq_inserted hinsert]
    exact ownRuns_inserted_other htenant store.runs

/-- What an append of the tenant's leaves of its own events follows from them and from what it
returns. -/
theorem visible_persist {J : Type} {codec : Codec (LedgerEvent Decimal) J}
    {state : AggregateState (LedgerState Decimal)} {events : List (LedgerEvent Decimal)}
    {env : PersistEnv} {table table' : List (LedgerRow J)}
    (hown : visible tenantId table = visible tenantId table')
    (hresult : (persist codec tenantId table state events env).2.2 =
      (persist codec tenantId table' state events env).2.2) :
    visible tenantId (persist codec tenantId table state events env).1 =
      visible tenantId (persist codec tenantId table' state events env).1 := by
  -- An append is a call on the store of the ledger, where this has been shown.
  have hsame : (perform (m := Option) codec table (.persist tenantId state events env)).2 =
      (perform (m := Option) codec table' (.persist tenantId state events env)).2 :=
    congrArg StoreResult.persisted hresult
  have hcall : (StoreCall.persist tenantId state events env).tenantId = tenantId := rfl
  exact perform_next (m := Option) hcall hown ((perform_result_iff hcall hown).1 hsame)

end Writes

/-! ## Turns -/

section Turns

variable {J : Type} (libs : ApiLibraries J) (resolve : String → Option TenantContext)
  (tenantId : TenantId)

/-- What a write returned; a request says nothing here. -/
def writeResult (service : Service J) (call : ServiceCall) : Option ServiceResult :=
  if call.IsWrite then some (service.call libs resolve call).2 else none

variable {libs resolve tenantId}

theorem own_eq_iff {service service' : Service J} :
    service.own tenantId = service'.own tenantId ↔
      ownCosts tenantId service.db.costs = ownCosts tenantId service'.db.costs ∧
        ownRuns tenantId service.db.graph.runs = ownRuns tenantId service'.db.graph.runs ∧
        visible tenantId service.db.ledger = visible tenantId service'.db.ledger ∧
        (service.inFlight.filter fun entry => entry.tenantId = tenantId) =
          service'.inFlight.filter fun entry => entry.tenantId = tenantId := by
  simp only [Service.own, Database.own, Service.mk.injEq, Database.mk.injEq, GraphStore.mk.injEq,
    true_and, and_assoc]

theorem own_call_other (service : Service J) (call : ServiceCall)
    (hcall : call.tenantId resolve ≠ some tenantId) :
    (service.call libs resolve call).1.own tenantId = service.own tenantId := by
  cases call with
  | request id httpRequest now env =>
      -- A request of someone else's leaves an entry of someone else's in flight, if any.
      have hallowed : (serve libs resolve service.db httpRequest now env).Allowed libs resolve
          httpRequest :=
        serve_allowed now
      cases hserve : serve libs resolve service.db httpRequest now env with
      | answered response => rw [Service.call_request_of_answered hserve]
      | waiting pending =>
          rw [hserve] at hallowed
          rcases hallowed with ⟨ctx, hctx, htenant, -⟩
          have hother : pending.tenantId ≠ tenantId := by
            rintro heq
            apply hcall
            simp [ServiceCall.tenantId, hctx, Except.toOption, htenant, heq]
          rw [Service.call_request_of_waiting hserve]
          simp [Service.own, InFlight.tenantId, hother]
  | resume tenantId' id env =>
      have hother : tenantId' ≠ tenantId := fun heq => hcall (congrArg some heq)
      cases hfind : service.inFlight.find? fun entry =>
          entry.tenantId = tenantId' ∧ entry.id = id with
      | none => rw [Service.call_resume_of_none hfind]
      | some entry =>
          have hentry : entry.tenantId = tenantId' ∧ entry.id = id := by
            simpa using List.find?_some hfind
          have hpending : entry.pending.tenantId ≠ tenantId :=
            fun heq => hother (hentry.1.symm.trans heq)
          rw [Service.call_resume_of_some hfind]
          simp only [Service.own, own_finish_other hpending]
          congr 1
          apply filter_eraseP_of_not
          intro entry hmatch
          simp only [Bool.decide_and, Bool.and_eq_true, decide_eq_true_eq] at hmatch
          simpa [hmatch.1] using hother
  | persist tenantId' state events env =>
      have hother : tenantId' ≠ tenantId := fun heq => hcall (congrArg some heq)
      have hledger : visible tenantId (persist libs.codec tenantId' service.db.ledger state events
          env).1 = visible tenantId service.db.ledger := by
        rcases persist_table libs.codec tenantId' state events env service.db.ledger with
          ⟨rows, htable, hrows⟩
        rw [htable, visible_append, visible_of_foreign hother hrows, List.append_nil]
      simp only [Service.call, Service.own, Database.own, hledger]
  | upsertCosts events env =>
      simp only [Service.call, Service.own, Database.own, ownCosts_upsert_other hcall]
  | upsertExperiment experiment env =>
      simp only [Service.call, Service.own, Database.own, runs_upsertExperiment]
  | upsertRun run env =>
      have hrun : run.tenantId ≠ tenantId := fun heq => hcall (congrArg some heq)
      simp only [Service.call, Service.own, Database.own, ownRuns_upsertRun_other hrun]

/-- A request of the tenant's runs over the tenant's own part. -/
theorem call_own_of_request {service service' : Service J} {call : ServiceCall}
    (hcall : call.tenantId resolve = some tenantId) (hwrite : call.IsWrite = false)
    (hown : service.own tenantId = service'.own tenantId) :
    (service.call libs resolve call).2 = (service'.call libs resolve call).2 ∧
      (service.call libs resolve call).1.own tenantId =
        (service'.call libs resolve call).1.own tenantId := by
  have hdb : service.db.own tenantId = service'.db.own tenantId := congrArg Service.db hown
  have hflight : (service.inFlight.filter fun entry => entry.tenantId = tenantId) =
      service'.inFlight.filter fun entry => entry.tenantId = tenantId :=
    congrArg Service.inFlight hown
  cases call with
  | request id httpRequest now env =>
      have hserve : serve libs resolve service.db httpRequest now env =
          serve libs resolve service'.db httpRequest now env := by
        cases hctx : fromRequestParts resolve httpRequest.headers with
        | error e => simp [ServiceCall.tenantId, hctx, Except.toOption] at hcall
        | ok ctx =>
            have htenant : ctx.tenantId = tenantId := by
              simpa [ServiceCall.tenantId, hctx, Except.toOption] using hcall
            subst htenant
            rw [← serve_own hctx service.db, hdb, serve_own hctx]
      cases hprogress : serve libs resolve service'.db httpRequest now env with
      | answered response =>
          rw [Service.call_request_of_answered (hserve.trans hprogress),
            Service.call_request_of_answered hprogress]
          exact ⟨rfl, hown⟩
      | waiting pending =>
          rw [Service.call_request_of_waiting (hserve.trans hprogress),
            Service.call_request_of_waiting hprogress]
          exact ⟨rfl, by simp only [Service.own, hdb, List.filter_append, hflight]⟩
  | resume tenantId' id env =>
      have htenant : tenantId' = tenantId := Option.some.inj hcall
      subst htenant
      -- The entry that is resumed is the tenant's own, so others in flight are passed over.
      have hmine : ∀ entry : InFlight,
          decide (entry.tenantId = tenantId' ∧ entry.id = id) = true →
            decide (entry.tenantId = tenantId') = true := by
        intro entry hentry
        simp only [Bool.decide_and, Bool.and_eq_true] at hentry
        exact hentry.1
      have hfind : (service.inFlight.find? fun entry =>
          entry.tenantId = tenantId' ∧ entry.id = id) =
            service'.inFlight.find? fun entry => entry.tenantId = tenantId' ∧ entry.id = id := by
        rw [← find?_filter_of_imp hmine service.inFlight, hflight, find?_filter_of_imp hmine]
      cases hfound : service'.inFlight.find? fun entry =>
          entry.tenantId = tenantId' ∧ entry.id = id with
      | none =>
          rw [Service.call_resume_of_none (hfind.trans hfound), Service.call_resume_of_none hfound]
          exact ⟨rfl, hown⟩
      | some entry =>
          have hentry : entry.tenantId = tenantId' ∧ entry.id = id := by
            simpa using List.find?_some hfound
          have hfinish : ((finish libs service.db env entry.pending).1.own tenantId',
              (finish libs service.db env entry.pending).2) =
                finish libs (service.db.own tenantId') env entry.pending :=
            own_finish hentry.1 service.db env
          rw [hdb, ← own_finish hentry.1 service'.db env, Prod.mk.injEq] at hfinish
          rw [Service.call_resume_of_some (hfind.trans hfound),
            Service.call_resume_of_some hfound]
          refine ⟨by rw [hfinish.2], ?_⟩
          simp only [Service.own, hfinish.1, filter_eraseP_of_imp hmine, hflight]
  -- Writes are not requests: their results may depend on the other tenants' keys.
  | persist | upsertCosts | upsertExperiment | upsertRun => cases hwrite

/-- What a write of the tenant's leaves follows from the tenant's own part and from its result. -/
theorem call_own_of_write {service service' : Service J} {call : ServiceCall}
    (hcall : call.tenantId resolve = some tenantId) (hwrite : call.IsWrite = true)
    (hown : service.own tenantId = service'.own tenantId)
    (hresult : (service.call libs resolve call).2 = (service'.call libs resolve call).2) :
    (service.call libs resolve call).1.own tenantId =
      (service'.call libs resolve call).1.own tenantId := by
  rw [own_eq_iff] at hown ⊢
  rcases hown with ⟨hcosts, hruns, hledger, hflight⟩
  cases call with
  | request | resume => cases hwrite
  | persist tenantId' state events env =>
      have htenant : tenantId' = tenantId := Option.some.inj hcall
      subst htenant
      exact ⟨hcosts, hruns, visible_persist hledger (ServiceResult.persisted.inj hresult), hflight⟩
  | upsertCosts events env =>
      exact ⟨ownCosts_upsert hcall hcosts (ServiceResult.upserted.inj hresult), hruns, hledger,
        hflight⟩
  | upsertExperiment experiment env =>
      refine ⟨hcosts, ?_, hledger, hflight⟩
      simp only [Service.call, runs_upsertExperiment, hruns]
  | upsertRun run env =>
      have hrun : run.tenantId = tenantId := Option.some.inj hcall
      exact ⟨hcosts, ownRuns_upsertRun hrun hruns (ServiceResult.run.inj hresult), hledger, hflight⟩

variable (libs resolve tenantId)

/-- What one tenant's calls return depends on its own part and on the results of its writes. -/
theorem serviceUnwinding : Unwinding (Service.call libs resolve)
    (fun call => call.tenantId resolve = some tenantId) (Service.own tenantId)
    (writeResult libs resolve) where
  other := own_call_other
  result_iff := by
    intro service service' call hcall hown
    cases hwrite : call.IsWrite with
    | false =>
        simp only [writeResult, hwrite, Bool.false_eq_true, if_false, iff_true]
        exact (call_own_of_request hcall hwrite hown).1
    | true => simp only [writeResult, hwrite, if_true, Option.some.injEq]
  next := by
    intro service service' call hcall hown hleak
    cases hwrite : call.IsWrite with
    | false => exact (call_own_of_request hcall hwrite hown).2
    | true =>
        simp only [writeResult, hwrite, if_true, Option.some.injEq] at hleak
        exact call_own_of_write hcall hwrite hown hleak

/-- What a tenant's calls return in a history. -/
def tenantAnswers (service : Service J) (calls : List ServiceCall) : List ServiceResult :=
  view (Service.call libs resolve) (fun call => call.tenantId resolve = some tenantId) service calls

/-- What its writes among them return. -/
def tenantWrites (service : Service J) (calls : List ServiceCall) : List (Option ServiceResult) :=
  leaks (Service.call libs resolve) (fun call => call.tenantId resolve = some tenantId)
    (writeResult libs resolve) service calls

variable {libs resolve tenantId}

/-- Two services that agree on a tenant's own part, and two histories with the same calls of the
tenant's and any of others: the tenant is answered the same exactly if its own writes return the
same. -/
theorem tenant_sees_own_part {service service' : Service J} {calls calls' : List ServiceCall}
    (hown : service.own tenantId = service'.own tenantId)
    (hcalls : calls.filter (fun call => call.tenantId resolve = some tenantId) =
      calls'.filter fun call => call.tenantId resolve = some tenantId) :
    tenantAnswers libs resolve tenantId service calls =
        tenantAnswers libs resolve tenantId service' calls' ↔
      tenantWrites libs resolve tenantId service calls =
        tenantWrites libs resolve tenantId service' calls' :=
  (serviceUnwinding libs resolve tenantId).view_eq_iff _ calls calls' service service' hown hcalls rfl

end Turns

/-! ## Two callers -/

def twoKeys : StaticTokenResolver :=
  (StaticTokenResolver.new.withToken "key-one" ⟨1⟩ [.read]).withToken "key-two" ⟨2⟩ [.read]

def readingLibraries : ApiLibraries (LedgerEvent Decimal) where
  pathUuid := fun segment =>
    match Uuid.read segment with
    | some id => .ok id
    | none => .error "Invalid URL"
  queryTime := fun _ => .ok none
  decodeNumeric := .ok
  codec := Codec.plain

def runningRun (tenantId : TenantId) (id : RunId) : Run where
  id := id
  tenantId := tenantId
  experimentId := ⟨5⟩
  externalRef := { source := .wandb, externalId := "pretraining" }
  status := .running
  startedAt := ⟨0⟩
  endedAt := none
  attributedCost := ⟨0, .usd⟩
  functionCode := .rnD
  capitalizationStatus := .pendingReview

/-- A service that stores the runs, under an experiment of the second tenant's. -/
def serviceOf (runs : List Run) : Service (LedgerEvent Decimal) where
  db :=
    { costs := []
      graph :=
        { experiments :=
            [{ id := ⟨5⟩, tenantId := ⟨2⟩, projectId := ⟨3⟩, name := "pretraining" }]
          runs := runs.map fun run => run.row 0 }
      ledger := [] }
  inFlight := []

/-- The first tenant asks what its run cost, and names the second in a header of its own. -/
def askFirst : ServiceCall :=
  .request 0
    { method := .get
      path := ["v1", "runs", (7 : Uuid).hyphenated, "cost"]
      query := ""
      headers := [("x-tenant-id", bytesOf (2 : Uuid).hyphenated),
        ("authorization", bytesOf "Bearer key-one")] }
    ⟨0⟩ .ok

def resumeFirst : ServiceCall :=
  .resume ⟨1⟩ 0 .ok

def storeSecond : ServiceCall :=
  .upsertRun (runningRun ⟨2⟩ ⟨8⟩) .ok

theorem tenantId_askFirst : askFirst.tenantId twoKeys.resolve = some ⟨1⟩ := by
  decide +kernel

theorem tenant_sees_own_part_askFirst :
    tenantAnswers readingLibraries twoKeys.resolve ⟨1⟩ (serviceOf [runningRun ⟨1⟩ ⟨7⟩])
          [askFirst, storeSecond, resumeFirst] =
        tenantAnswers readingLibraries twoKeys.resolve ⟨1⟩
          (serviceOf [runningRun ⟨1⟩ ⟨7⟩, runningRun ⟨2⟩ ⟨9⟩]) [askFirst, resumeFirst] ∧
      (tenantAnswers readingLibraries twoKeys.resolve ⟨1⟩ (serviceOf [runningRun ⟨1⟩ ⟨7⟩])
          [askFirst, storeSecond, resumeFirst]).map ServiceResult.response =
        [none, some { status := 200, body := .runCost ⟨7, 0, "USD"⟩ }] := by
  have hresume : resumeFirst.tenantId twoKeys.resolve = some ⟨1⟩ := rfl
  have hstore : storeSecond.tenantId twoKeys.resolve ≠ some ⟨1⟩ := by decide
  refine ⟨(tenant_sees_own_part ?_ ?_).2 ?_, by decide +kernel⟩
  · rfl
  · simp [tenantId_askFirst, hresume, hstore]
  · simp [tenantWrites, leaks, writeResult, hstore, askFirst, resumeFirst, ServiceCall.IsWrite]

end Falkr
