import Falkr.Infra.CostCoverage
import Falkr.Infra.RunReads
import Falkr.Lib.Lists

/-!
# CostPartition — whose cost each charge is

`refresh_attributed_cost` sums the charges of one run in the run's currency.  Over all runs of a
tenant the sums neither count a charge twice nor leave one out: after a refresh of each, the stored
costs in a currency and the charges in it that belong to no such run make up what the tenant was
charged (`refreshed_costs_partition`).
-/

namespace Falkr

open Lib

/-! ## Refreshing every run -/

/-- Refreshes of a tenant's runs, one after the other. -/
def refreshRuns (decodeNumeric : ℚ → Except String ℚ) (tenantId : TenantId) (ids : List RunId)
    (store : GraphStore) (costs : List CostRow) : GraphStore :=
  ids.foldl (fun store id => (refreshRun decodeNumeric store tenantId id costs).1) store

/-- What the rows cost. -/
def costOf (rows : List CostRow) : ℚ :=
  (rows.map CostRow.effectiveCost).sum

/-- What a tenant was charged in a currency. -/
def tenantCharges (tenantId : TenantId) (currency : String) (costs : List CostRow) : List CostRow :=
  costs.filter fun row => row.dims.tenantId = tenantId ∧ row.currency = currency

/-- The tenant's runs whose costs are kept in a currency. -/
def runsIn (tenantId : TenantId) (currency : String) (runs : List StoredRun) : List StoredRun :=
  runs.filter fun run => run.tenantId = tenantId ∧ run.attributedCostCurrency = currency

/-- The charges that belong to none of the runs. -/
def unattributed (runs : List StoredRun) (charges : List CostRow) : List CostRow :=
  charges.filter fun row =>
    ¬∃ id ∈ runs.map fun run : StoredRun => run.id, row.dims.runId = some id

/-- The charges of a run in its currency. -/
def runCharges (run : StoredRun) (costs : List CostRow) : List CostRow :=
  costsOf run.tenantId run.id run.attributedCostCurrency costs

/-- The runs with their costs as the charges are. -/
def attributeRow (tenantId : TenantId) (ids : List RunId) (costs : List CostRow) (row : StoredRun) :
    StoredRun :=
  if row.id ∈ ids ∧ row.tenantId = tenantId then
    { row with attributedCost := costOf (runCharges row costs) }
  else row

section Attribution

variable {tenantId : TenantId} {ids : List RunId} {costs : List CostRow} {row : StoredRun}

theorem attributeRow_of_mem (hid : row.id ∈ ids) (htenant : row.tenantId = tenantId) :
    attributeRow tenantId ids costs row =
      { row with attributedCost := costOf (runCharges row costs) } :=
  if_pos ⟨hid, htenant⟩

theorem attributeRow_of_not (h : ¬(row.id ∈ ids ∧ row.tenantId = tenantId)) :
    attributeRow tenantId ids costs row = row :=
  if_neg h

theorem id_attributeRow : (attributeRow tenantId ids costs row).id = row.id := by
  unfold attributeRow
  split_ifs <;> rfl

theorem tenantId_attributeRow : (attributeRow tenantId ids costs row).tenantId = row.tenantId := by
  unfold attributeRow
  split_ifs <;> rfl

theorem currency_attributeRow :
    (attributeRow tenantId ids costs row).attributedCostCurrency = row.attributedCostCurrency := by
  unfold attributeRow
  split_ifs <;> rfl

theorem runCharges_attributeRow :
    runCharges (attributeRow tenantId ids costs row) costs = runCharges row costs := by
  simp only [runCharges, id_attributeRow, tenantId_attributeRow, currency_attributeRow]

/-- What one refresh wrote another one does not read. -/
theorem attributeRow_attributeRow (id : RunId) :
    attributeRow tenantId ids costs (attributeRow tenantId [id] costs row) =
      attributeRow tenantId (id :: ids) costs row := by
  by_cases htenant : row.tenantId = tenantId
  -- The refreshed run is taken up by the later ones only if its id comes again.
  · by_cases hid : row.id = id
    · have hfirst : row.id ∈ [id] := List.mem_singleton.2 hid
      have hboth : row.id ∈ id :: ids := hid ▸ List.mem_cons_self
      rw [attributeRow_of_mem hboth htenant, attributeRow_of_mem hfirst htenant]
      unfold attributeRow
      split_ifs <;> rfl
    · have hfirst : ¬(row.id ∈ [id] ∧ row.tenantId = tenantId) := by simp [hid]
      have hmem : row.id ∈ id :: ids ↔ row.id ∈ ids := by simp [hid]
      rw [attributeRow_of_not hfirst]
      unfold attributeRow
      simp only [hmem]
  · have hnot : ∀ ids' : List RunId, ¬(row.id ∈ ids' ∧ row.tenantId = tenantId) :=
      fun _ h => htenant h.2
    rw [attributeRow_of_not (hnot [id]), attributeRow_of_not (hnot ids), attributeRow_of_not (hnot _)]

end Attribution

section Refreshing

variable {decodeNumeric : ℚ → Except String ℚ} {tenantId : TenantId} {costs : List CostRow}

/-- Every run of the tenant has a cost that can be read, summed and stored. -/
structure Refreshable (decodeNumeric : ℚ → Except String ℚ) (tenantId : TenantId)
    (costs : List CostRow) (runs : List StoredRun) : Prop where
  ids : (runs.map fun run => run.id).Nodup
  currency : ∀ run ∈ runs, ∃ currency, Currency.fromCode run.attributedCostCurrency = some currency
  keeps : ∀ run ∈ runs, run.tenantId = tenantId → Keeps decodeNumeric (costOf (runCharges run costs))

theorem Refreshable.attributeRow {runs : List StoredRun} {ids : List RunId}
    (h : Refreshable decodeNumeric tenantId costs runs) :
    Refreshable decodeNumeric tenantId costs (runs.map (attributeRow tenantId ids costs)) where
  ids := by
    simpa only [List.map_map, Function.comp_def, id_attributeRow] using h.ids
  currency := by
    intro run hrun
    rcases List.mem_map.1 hrun with ⟨row, hrow, rfl⟩
    rw [currency_attributeRow]
    exact h.currency row hrow
  keeps := by
    intro run hrun htenant
    rcases List.mem_map.1 hrun with ⟨row, hrow, rfl⟩
    rw [tenantId_attributeRow] at htenant
    rw [runCharges_attributeRow]
    exact h.keeps row hrow htenant

theorem sumEffectiveCost_getD {run : StoredRun}
    (h : Keeps decodeNumeric (costOf (runCharges run costs))) :
    ∃ total, sumEffectiveCost decodeNumeric run.tenantId run.id run.attributedCostCurrency costs =
        .ok total ∧ total.getD 0 = costOf (runCharges run costs) := by
  unfold sumEffectiveCost
  unfold runCharges at h ⊢
  -- The sum over no charge is NULL, which is read as zero.
  cases hrows : costsOf run.tenantId run.id run.attributedCostCurrency costs with
  | nil => exact ⟨none, rfl, rfl⟩
  | cons row rows =>
      rw [hrows] at h
      refine ⟨some (costOf (row :: rows)), ?_, rfl⟩
      have hdecode : decodeNumeric ((row :: rows).map CostRow.effectiveCost).sum =
          .ok (costOf (row :: rows)) := h.1
      simp only [hdecode]

/-- A refresh of a run that is there sums what the run was charged. -/
theorem refreshedCost_of_mem {runs : List StoredRun} {run : StoredRun}
    (h : Refreshable decodeNumeric tenantId costs runs) (hrun : run ∈ runs)
    (htenant : run.tenantId = tenantId) :
    ∃ currency, refreshedCost decodeNumeric tenantId run.id runs costs =
      .ok ({ amount := costOf (runCharges run costs), currency := currency },
        costOf (runCharges run costs)) := by
  rcases h.currency run hrun with ⟨currency, hcurrency⟩
  rcases sumEffectiveCost_getD (h.keeps run hrun htenant) with ⟨total, hsum, htotal⟩
  -- The id is unique, so the row that is selected is that of the run.
  have hselect : selectRun tenantId run.id (runs.map StoredRun.toRunRow) = some run.toRunRow := by
    unfold selectRun
    rw [List.find?_map]
    cases hfind : runs.find? ((fun row : RunRow => decide (row.id = run.id ∧ row.tenantId = tenantId)) ∘
        StoredRun.toRunRow) with
    | none =>
        have hno := List.find?_eq_none.1 hfind run hrun
        simp [htenant] at hno
    | some other =>
        have hother : other.id = run.id ∧ other.tenantId = tenantId := by
          simpa using List.find?_some hfind
        have hsame : other = run :=
          List.inj_on_of_nodup_map h.ids (List.mem_of_find?_eq_some hfind) hrun hother.1
        rw [hsame, Option.map_some]
  have hread : readCurrency tenantId run.id (runs.map StoredRun.toRunRow) =
      .ok (run.attributedCostCurrency, currency) := by
    simp only [readCurrency, hselect, hcurrency]
  have hattributed : readAttributed decodeNumeric tenantId run.id run.attributedCostCurrency currency
      costs = .ok { amount := costOf (runCharges run costs), currency := currency } := by
    rw [← htenant]
    simp only [readAttributed, hsum, htotal]
  refine ⟨currency, ?_⟩
  have hbind : bindCost { amount := costOf (runCharges run costs), currency := currency } =
      .ok (costOf (runCharges run costs)) := by
    simp only [bindCost, (h.keeps run hrun htenant).2]
  simp [refreshedCost, hread, hattributed, hbind, bind, Except.bind, pure, Except.pure]

/-- One refresh brings the run's cost up to date, and no other run's. -/
theorem runs_refreshRun {store : GraphStore} (id : RunId)
    (h : Refreshable decodeNumeric tenantId costs store.runs) :
    (refreshRun decodeNumeric store tenantId id costs).1.runs =
      store.runs.map (attributeRow tenantId [id] costs) := by
  rw [refreshRun_eq]
  -- Under an id that the tenant does not have there is no row to write to.
  by_cases hrun : ∃ run ∈ store.runs, run.id = id ∧ run.tenantId = tenantId
  · rcases hrun with ⟨run, hrun, rfl, htenant⟩
    rcases refreshedCost_of_mem h hrun htenant with ⟨currency, hcost⟩
    rw [hcost]
    apply List.map_congr_left
    intro row hrow
    by_cases hsame : row.id = run.id
    · have heq : row = run := List.inj_on_of_nodup_map h.ids hrow hrun hsame
      subst heq
      rw [attributeRow_of_mem (List.mem_singleton_self _) htenant, setStoredCost, if_pos ⟨rfl, htenant⟩]
    · have hnot : ¬(row.id ∈ [run.id] ∧ row.tenantId = tenantId) := by simp [hsame]
      rw [attributeRow_of_not hnot, setStoredCost, if_neg fun h => hsame h.1]
  · have hself : ∀ row ∈ store.runs, attributeRow tenantId [id] costs row = row := by
      intro row hrow
      apply attributeRow_of_not
      rintro ⟨hid, htenant⟩
      exact hrun ⟨row, hrow, List.mem_singleton.1 hid, htenant⟩
    rw [List.map_congr_left hself, List.map_id']
    cases hcost : refreshedCost decodeNumeric tenantId id store.runs costs with
    | error e => rfl
    | ok refreshed =>
        have hset : ∀ row ∈ store.runs, setStoredCost tenantId id refreshed.2 row = row := by
          intro row hrow
          rw [setStoredCost, if_neg fun h => hrun ⟨row, hrow, h⟩]
        exact (List.map_congr_left hset).trans (List.map_id' _)

/-- In whatever order the runs are refreshed, and however often. -/
theorem runs_refreshRuns (ids : List RunId) (store : GraphStore)
    (h : Refreshable decodeNumeric tenantId costs store.runs) :
    (refreshRuns decodeNumeric tenantId ids store costs).runs =
      store.runs.map (attributeRow tenantId ids costs) := by
  induction ids generalizing store with
  | nil =>
      have hself : ∀ row ∈ store.runs, attributeRow tenantId [] costs row = row :=
        fun row _ => attributeRow_of_not (by simp)
      rw [List.map_congr_left hself, List.map_id']
      rfl
  | cons id ids ih =>
      have hfirst := runs_refreshRun id h
      have hruns : (refreshRuns decodeNumeric tenantId (id :: ids) store costs).runs =
          (refreshRuns decodeNumeric tenantId ids
            (refreshRun decodeNumeric store tenantId id costs).1 costs).runs := rfl
      -- The refreshed store can be refreshed again: neither ids nor currencies have changed.
      rw [hruns, ih _ (hfirst ▸ h.attributeRow), hfirst, List.map_map]
      exact List.map_congr_left fun row _ => attributeRow_attributeRow id

end Refreshing

/-! ## Histories -/

section Histories

variable {decodeNumeric : ℚ → Except String ℚ}

/-- The column holds the code of a currency. -/
def CurrenciesRead (runs : List StoredRun) : Prop :=
  ∀ run ∈ runs, ∃ currency, Currency.fromCode run.attributedCostCurrency = some currency

theorem CurrenciesRead.map {runs : List StoredRun} {f : StoredRun → StoredRun}
    (h : CurrenciesRead runs)
    (hf : ∀ run, (f run).attributedCostCurrency = run.attributedCostCurrency) :
    CurrenciesRead (runs.map f) := by
  intro run hrun
  rcases List.mem_map.1 hrun with ⟨row, hrow, rfl⟩
  rw [hf]
  exact h row hrow

theorem CurrenciesRead.insertRun {store : GraphStore} {run : Run} {cost : ℚ}
    {runs : List StoredRun} {returned : Option (RunId × Bool)} (h : CurrenciesRead store.runs)
    (hinsert : Falkr.insertRun store (run.row cost) = .ok (runs, returned)) :
    CurrenciesRead runs := by
  rcases insertRun_cases hinsert with ⟨-, -, -, rfl, -⟩ | ⟨-, -, -, rfl, -⟩ | ⟨-, -, -, rfl, -⟩
  · exact h
  · apply h.map
    intro existing
    split_ifs <;> rfl
  · intro stored hstored
    rcases List.mem_append.1 hstored with hold | hnew
    · exact h stored hold
    · rw [List.mem_singleton.1 hnew]
      exact ⟨run.attributedCost.currency, Currency.fromCode_code _⟩

theorem CurrenciesRead.call {history : RunHistory} (h : CurrenciesRead history.store.runs)
    (call : RunCall) : CurrenciesRead (history.call decodeNumeric call).store.runs := by
  cases call with
  | upsertExperiment experiment env =>
      rcases upsertExperiment_cases history.store experiment env with hcall | ⟨_, -, hcall⟩ <;>
        simp only [RunHistory.call, hcall] <;> exact h
  | upsertRun run env =>
      rcases upsertRun_cases history.store run env with ⟨e, -, hcall⟩ | ⟨store', outcome, htx, hcall⟩
      · simp only [RunHistory.call, hcall]
        exact h
      · rcases upsertRunTx_eq_ok.1 htx with ⟨-, row, runs, returned, hrow, hinsert, -, rfl⟩
        rcases encodeRun_eq_ok.1 hrow with ⟨-, -, cost, hcost, rfl⟩
        simp only [RunHistory.call, hcall, hcost]
        exact h.insertRun hinsert
  | refresh tenantId runId costEvents =>
      have hrefreshed : CurrenciesRead
          (refreshRun decodeNumeric history.store tenantId runId costEvents).1.runs := by
        rw [refreshRun_eq]
        cases refreshedCost decodeNumeric tenantId runId history.store.runs costEvents with
        | error e => exact h
        | ok refreshed =>
            apply h.map
            intro run
            unfold setStoredCost
            split_ifs <;> rfl
      simp only [RunHistory.call]
      rcases hcall : refreshRun decodeNumeric history.store tenantId runId costEvents with
        ⟨store, e | attributed⟩
      · rw [hcall] at hrefreshed
        exact hrefreshed
      · rw [hcall] at hrefreshed
        cases hcost : toNumeric attributed.amount <;> simp only [hcost] <;> exact hrefreshed

theorem currenciesRead_after (calls : List RunCall) :
    CurrenciesRead (RunHistory.after decodeNumeric calls).store.runs := by
  induction calls using List.reverseRecOn with
  | nil => exact fun _ hrun => absurd hrun List.not_mem_nil
  | append_singleton calls call ih =>
      rw [RunHistory.after, List.foldl_append]
      exact ih.call call

/-! ## The partition -/

/-- What a run was charged is what was charged in its currency under its id. -/
theorem runCharges_eq {tenantId : TenantId} {currency : String} {run : StoredRun}
    (htenant : run.tenantId = tenantId) (hcurrency : run.attributedCostCurrency = currency)
    (costs : List CostRow) :
    runCharges run costs =
      (tenantCharges tenantId currency costs).filter fun row => row.dims.runId = some run.id := by
  subst htenant hcurrency
  rw [runCharges, costsOf, tenantCharges, List.filter_filter]
  apply List.filter_congr
  intro row _
  simp only [decide_eq_decide, ← Bool.decide_and]
  tauto

/-- Of the runs that were refreshed, the stored costs and the charges of no run add up to what the
tenant was charged. -/
theorem costOf_partition {tenantId : TenantId} {currency : String} {costs : List CostRow}
    {runs : List StoredRun} (hids : (runs.map fun run => run.id).Nodup)
    (hcosts : ∀ run ∈ runs, run.tenantId = tenantId →
      run.attributedCost = costOf (runCharges run costs)) :
    ((runsIn tenantId currency runs).map fun run => run.attributedCost).sum +
        costOf (unattributed (runsIn tenantId currency runs)
          (tenantCharges tenantId currency costs)) =
      costOf (tenantCharges tenantId currency costs) := by
  -- The stored costs are sums over the charges by run id, which partition the charges.
  have hstored : ((runsIn tenantId currency runs).map fun run => run.attributedCost) =
      ((runsIn tenantId currency runs).map fun run => run.id).map fun id =>
        costOf ((tenantCharges tenantId currency costs).filter fun row =>
          row.dims.runId = some id) := by
    rw [List.map_map]
    apply List.map_congr_left
    intro run hrun
    rcases List.mem_filter.1 hrun with ⟨hmem, hmatch⟩
    have hrun : run.tenantId = tenantId ∧ run.attributedCostCurrency = currency := by
      simpa using hmatch
    rw [hcosts run hmem hrun.1, runCharges_eq hrun.1 hrun.2]
    rfl
  have hnodup : ((runsIn tenantId currency runs).map fun run => run.id).Nodup :=
    hids.sublist (List.filter_sublist.map _)
  rw [hstored]
  exact sum_by_key hnodup (fun row : CostRow => row.dims.runId) CostRow.effectiveCost _

/-- After any history of upserts and refreshes, of any tenants: once every run of a tenant is
refreshed, in any order and any number of times, each cost of the tenant is stored with exactly one
run of its currency or belongs to none, and the other tenants' runs are as they were. -/
theorem refreshed_costs_partition (decodeNumeric : ℚ → Except String ℚ) (calls : List RunCall)
    (tenantId : TenantId) (ids : List RunId) (costs : List CostRow)
    (hids : ∀ run ∈ (RunHistory.after decodeNumeric calls).store.runs,
      run.tenantId = tenantId → run.id ∈ ids)
    (hkeeps : ∀ run ∈ (RunHistory.after decodeNumeric calls).store.runs,
      run.tenantId = tenantId → Keeps decodeNumeric (costOf (runCharges run costs))) :
    let store := (RunHistory.after decodeNumeric calls).store
    let refreshed := (refreshRuns decodeNumeric tenantId ids store costs).runs
    (refreshed.filter fun run => run.tenantId ≠ tenantId) =
        (store.runs.filter fun run => run.tenantId ≠ tenantId) ∧
      ∀ currency,
        ((runsIn tenantId currency refreshed).map fun run => run.attributedCost).sum +
            costOf (unattributed (runsIn tenantId currency refreshed)
              (tenantCharges tenantId currency costs)) =
          costOf (tenantCharges tenantId currency costs) := by
  intro store refreshed
  have hkept : Refreshable decodeNumeric tenantId costs store.runs :=
    ⟨(RunHistory.kept_after calls).ids, currenciesRead_after calls, hkeeps⟩
  have hruns : refreshed = store.runs.map (attributeRow tenantId ids costs) :=
    runs_refreshRuns ids store hkept
  constructor
  · rw [hruns, filter_map_of_kept fun run => by rw [tenantId_attributeRow]]
    have hself : ∀ run ∈ store.runs.filter fun run => run.tenantId ≠ tenantId,
        attributeRow tenantId ids costs run = run := by
      intro run hrun
      have hother : run.tenantId ≠ tenantId := by simpa using (List.mem_filter.1 hrun).2
      exact attributeRow_of_not fun h => hother h.2
    rw [List.map_congr_left hself, List.map_id']
  · intro currency
    apply costOf_partition
    · rw [hruns]
      exact hkept.attributeRow.ids
    · intro run hrun htenant
      rw [hruns] at hrun
      rcases List.mem_map.1 hrun with ⟨row, hrow, rfl⟩
      rw [tenantId_attributeRow] at htenant
      -- Every run of the tenant was among those refreshed.
      rw [runCharges_attributeRow, attributeRow_of_mem (hids row hrow htenant) htenant]

end Histories

/-! ## Two runs -/

def twoRun (id : RunId) (externalId : String) : Run where
  id := id
  tenantId := ⟨1⟩
  experimentId := ⟨2⟩
  externalRef := { source := .wandb, externalId := externalId }
  status := .finished
  startedAt := ⟨0⟩
  endedAt := none
  attributedCost := ⟨0, .usd⟩
  functionCode := .rnD
  capitalizationStatus := .pendingReview

def twoRuns : List RunCall :=
  [.upsertExperiment { id := ⟨2⟩, tenantId := ⟨1⟩, projectId := ⟨3⟩, name := "pretraining" } .ok,
    .upsertRun (twoRun ⟨10⟩ "a") .ok, .upsertRun (twoRun ⟨11⟩ "b") .ok]

/-- A charge of each run, and one whose line names no run. -/
def threeCharges : List CostRow :=
  boundRows [lateLine ⟨20⟩ (some ⟨10⟩) "a", lateLine ⟨21⟩ (some ⟨11⟩) "b", lateLine ⟨22⟩ none "c"]

theorem refreshed_costs_partition_twoRuns :
    let refreshed := (refreshRuns .ok ⟨1⟩ [⟨11⟩, ⟨10⟩]
      (RunHistory.after .ok twoRuns).store threeCharges).runs
    (refreshed.map fun run => run.attributedCost) = [10, 10] ∧
      ((runsIn ⟨1⟩ "USD" refreshed).map fun run => run.attributedCost).sum +
          costOf (unattributed (runsIn ⟨1⟩ "USD" refreshed) (tenantCharges ⟨1⟩ "USD" threeCharges)) =
        costOf (tenantCharges ⟨1⟩ "USD" threeCharges) := by
  intro refreshed
  have hruns : (RunHistory.after .ok twoRuns).store.runs =
      [(twoRun ⟨10⟩ "a").row 0, (twoRun ⟨11⟩ "b").row 0] := by
    decide +kernel
  refine ⟨by decide +kernel, (refreshed_costs_partition .ok twoRuns ⟨1⟩ [⟨11⟩, ⟨10⟩] threeCharges
    ?_ ?_).2 "USD"⟩
  · rw [hruns]
    decide +kernel
  · rw [hruns]
    decide +kernel

end Falkr
