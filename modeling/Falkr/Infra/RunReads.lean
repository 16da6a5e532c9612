import Falkr.Infra.CostStorage
import Falkr.Infra.RunStore

/-!
# RunReads — a run that is stored and read back

`upsert_run` never writes a run's id, experiment or cost after the first delivery, and
`refresh_attributed_cost` writes nothing but the cost.  So after any history of calls a run reads
back in three parts: what it was inserted with, how far the last delivery said that it was, and what
the last refresh summed (`run_reads_back`).  Nothing that is stored is unreadable.
-/

namespace Falkr

open Lib

/-! ## Reading -/

def TrackerSource.fromStored (s : String) : Option TrackerSource :=
  match toAsciiLowercase (trim s) with
  | "wandb" => some wandb
  | "mlflow" => some mlflow
  | _ => none

theorem TrackerSource.fromStored_asStr (source : TrackerSource) :
    fromStored source.asStr = some source := by
  cases source <;> decide +kernel

theorem RunStatus.fromStored_asStr (status : RunStatus) :
    fromStored status.asStr = some status := by
  cases status <;> decide +kernel

theorem CapitalizationStatus.fromStored_asStr (status : CapitalizationStatus) :
    fromStored status.asStr = some status := by
  cases status <;> decide +kernel

/-- A stored text and what it stands for. -/
def readColumn {α : Type} (parse : String → Option α) (what raw : String) :
    Except ResearchStoreError α :=
  match parse raw with
  | some value => .ok value
  | none => .error (corrupt what raw)

section Reads

variable (decodeNumeric : ℚ → Except String ℚ)

def decodeRun (row : StoredRun) : Except ResearchStoreError Run := do
  let source ← readColumn TrackerSource.fromStored "external_source" row.externalSource
  let status ← readColumn RunStatus.fromStored "status" row.status
  let functionCode ← readColumn FunctionCode.fromStored "function_code" row.functionCode
  let capitalizationStatus ← readColumn CapitalizationStatus.fromStored "capitalization_status"
    row.capitalizationStatus
  let currency ← readColumn Currency.fromCode "attributed_cost_currency" row.attributedCostCurrency
  let attributedCost ← (decodeNumeric row.attributedCost).mapError .backend
  pure
    { id := row.id
      tenantId := row.tenantId
      experimentId := row.experimentId
      externalRef := { source := source, externalId := row.externalId }
      status := status
      startedAt := ofMicros row.startedAt
      endedAt := row.endedAt.map ofMicros
      attributedCost := { amount := attributedCost, currency := currency }
      functionCode := functionCode
      capitalizationStatus := capitalizationStatus }

/-- A transaction that reads at most one run. -/
def readRun (env : ReadEnv) (found : Option StoredRun) :
    Except ResearchStoreError (Option Run) := do
  -- The row is decoded only after the commit.
  raise env.beginError
  raise env.selectError
  raise env.commitError
  match found with
  | none => pure none
  | some row =>
      let run ← decodeRun decodeNumeric row
      pure (some run)

def findRun (store : GraphStore) (tenantId : TenantId) (runId : RunId) (env : ReadEnv) :
    Except ResearchStoreError (Option Run) :=
  readRun decodeNumeric env
    (store.runs.find? fun row => row.id = runId ∧ row.tenantId = tenantId)

/-- `refresh_attributed_cost` on the whole rows. -/
def refreshRun (store : GraphStore) (tenantId : TenantId) (runId : RunId)
    (costEvents : List CostRow) : GraphStore × Except ResearchStoreError (Money ℚ) :=
  match refreshAttributedCost decodeNumeric tenantId runId (store.runs.map StoredRun.toRunRow)
    costEvents with
  | .error e => (store, .error e)
  | .ok (attributed, rows) =>
      -- The update works on the columns of a run's cost; the others stay with their rows.
      let runs := store.runs.zipWith (fun run row => { run with toRunRow := row }) rows
      ({ store with runs := runs }, .ok attributed)

end Reads

/-! ## Histories -/

inductive RunCall
  | upsertExperiment (experiment : Experiment) (env : GraphEnv)
  | upsertRun (run : Run) (env : GraphEnv)
  /-- A refresh over the cost events that there are at the time. -/
  | refresh (tenantId : TenantId) (runId : RunId) (costEvents : List CostRow)

/-- What a call that went through wrote. -/
inductive RunWrite
  | delivered (run : Run) (cost : ℚ)
  | refreshed (tenantId : TenantId) (runId : RunId) (cost : ℚ)

structure RunHistory where
  store : GraphStore
  writes : List RunWrite

def RunHistory.empty : RunHistory where
  store := GraphStore.empty
  writes := []

section Histories

variable (decodeNumeric : ℚ → Except String ℚ)

def RunHistory.call (self : RunHistory) : RunCall → RunHistory
  | .upsertExperiment experiment env =>
      { self with store := (upsertExperiment self.store experiment env).1 }
  | .upsertRun run env =>
      match upsertRun self.store run env, toNumeric run.attributedCost.amount with
      | (store, .ok _), some cost =>
          { store := store, writes := self.writes ++ [.delivered run cost] }
      | (store, _), _ => { self with store := store }
  | .refresh tenantId runId costEvents =>
      match refreshRun decodeNumeric self.store tenantId runId costEvents with
      | (store, .ok attributed) =>
          match toNumeric attributed.amount with
          | some cost => { store := store, writes := self.writes ++ [.refreshed tenantId runId cost] }
          | none => { self with store := store }
      | (store, .error _) => { self with store := store }

/-- The store after a history. -/
def RunHistory.after (calls : List RunCall) : RunHistory :=
  calls.foldl (RunHistory.call decodeNumeric) RunHistory.empty

end Histories

/-! ## What a history should leave -/

/-- What the writes to one run amount to: what it was inserted with, the last delivery, and the
cost. -/
structure SettledRun where
  first : Run
  last : Run
  cost : ℚ

namespace SettledRun

def deliver (held : Option SettledRun) (run : Run) (cost : ℚ) : SettledRun :=
  match held with
  | none => { first := run, last := run, cost := cost }
  | some settled => { settled with last := run }

def refresh (tenantId : TenantId) (runId : RunId) (cost : ℚ) (self : SettledRun) : SettledRun :=
  if self.first.id = runId ∧ self.first.tenantId = tenantId then { self with cost := cost } else self

/-- The writes under one identity, settled. -/
def write (identity : TenantId × String × String) (held : Option SettledRun) :
    RunWrite → Option SettledRun
  | .delivered run cost => if run.identity = identity then some (deliver held run cost) else held
  | .refreshed tenantId runId cost => held.map (refresh tenantId runId cost)

def ofWrites (identity : TenantId × String × String) (writes : List RunWrite) :
    Option SettledRun :=
  writes.foldl (write identity) none

/-- The row that is stored. -/
def row (self : SettledRun) : StoredRun :=
  (self.first.row self.cost).setProgress (self.last.row self.cost)

/-- The run that is read back, with the cost as the driver decodes it. -/
def run (self : SettledRun) (cost : ℚ) : Run :=
  { self.first with
    status := self.last.status
    startedAt := ofMicros (toMicros self.last.startedAt)
    endedAt := self.last.endedAt.map fun time => ofMicros (toMicros time)
    functionCode := self.last.functionCode
    capitalizationStatus := self.last.capitalizationStatus
    attributedCost := { self.first.attributedCost with amount := cost } }

end SettledRun

/-! ## Settled runs -/

section Settled

variable {identity : TenantId × String × String} {writes : List RunWrite}

theorem StoredRun.setProgress_of_progress_eq {self row row' : StoredRun}
    (h : row.progress = row'.progress) : self.setProgress row = self.setProgress row' := by
  simp only [StoredRun.progress, Prod.mk.injEq] at h
  simp only [StoredRun.setProgress, h]

theorem StoredRun.setProgress_self {self row : StoredRun} (h : self.progress = row.progress) :
    self.setProgress row = self := by
  rw [← StoredRun.setProgress_of_progress_eq h]
  rfl

theorem SettledRun.ofWrites_append_singleton (write : RunWrite) :
    ofWrites identity (writes ++ [write]) =
      SettledRun.write identity (ofWrites identity writes) write := by
  simp [ofWrites]

/-- The row under an identity moves to where an identity-preserving map takes it. -/
theorem findIdentity_map {f : StoredRun → StoredRun} (hf : ∀ row, (f row).identity = row.identity)
    (runs : List StoredRun) :
    findIdentity identity (runs.map f) = (findIdentity identity runs).map f := by
  have hsame : (fun row => decide (row.identity = identity)) ∘ f =
      fun row : StoredRun => decide (row.identity = identity) := by
    funext row
    rw [Function.comp_apply, hf]
  rw [findIdentity, List.find?_map, hsame]
  rfl

/-- `UPDATE runs SET attributed_cost`, on a whole row. -/
def setStoredCost (tenantId : TenantId) (runId : RunId) (cost : ℚ) (row : StoredRun) : StoredRun :=
  if row.id = runId ∧ row.tenantId = tenantId then { row with attributedCost := cost } else row

theorem zipWith_setCost (tenantId : TenantId) (runId : RunId) (cost : ℚ) (runs : List StoredRun) :
    (runs.zipWith (fun run row => { run with toRunRow := row })
        (setCost tenantId runId cost (runs.map StoredRun.toRunRow))) =
      runs.map (setStoredCost tenantId runId cost) := by
  rw [setCost, List.map_map, List.zipWith_map_right, List.zipWith_self]
  apply List.map_congr_left
  intro row _
  simp only [Function.comp_apply, setStoredCost]
  split_ifs <;> rfl

/-- What a refresh returns and writes. -/
def refreshedCost (decodeNumeric : ℚ → Except String ℚ) (tenantId : TenantId) (runId : RunId)
    (runs : List StoredRun) (costs : List CostRow) : Except ResearchStoreError (Money ℚ × ℚ) := do
  -- The currency is the run's own, and only charges in it are summed.
  let (currencyRaw, currency) ← readCurrency tenantId runId (runs.map StoredRun.toRunRow)
  let attributed ← readAttributed decodeNumeric tenantId runId currencyRaw currency costs
  let value ← bindCost attributed
  pure (attributed, value)

theorem refreshRun_eq (decodeNumeric : ℚ → Except String ℚ) (store : GraphStore) (tenantId : TenantId)
    (runId : RunId) (costs : List CostRow) :
    refreshRun decodeNumeric store tenantId runId costs =
      match refreshedCost decodeNumeric tenantId runId store.runs costs with
      | .error e => (store, .error e)
      | .ok (attributed, value) =>
          ({ store with runs := store.runs.map (setStoredCost tenantId runId value) },
            .ok attributed) := by
  unfold refreshRun refreshAttributedCost refreshedCost
  cases hcurrency : readCurrency tenantId runId (store.runs.map StoredRun.toRunRow) with
  | error e => rfl
  | ok read =>
      rcases read with ⟨currencyRaw, currency⟩
      cases hattributed : readAttributed decodeNumeric tenantId runId currencyRaw currency costs with
      | error e => simp [hattributed, bind, Except.bind]
      | ok attributed =>
          cases hbind : bindCost attributed with
          | error e => simp [hattributed, hbind, bind, Except.bind]
          | ok value =>
              simp [hattributed, hbind, bind, Except.bind, pure, Except.pure, zipWith_setCost]

theorem toRunRow_setStoredCost (tenantId : TenantId) (runId : RunId) (cost : ℚ)
    (runs : List StoredRun) :
    (runs.map (setStoredCost tenantId runId cost)).map StoredRun.toRunRow =
      setCost tenantId runId cost (runs.map StoredRun.toRunRow) := by
  rw [setCost, List.map_map, List.map_map]
  apply List.map_congr_left
  intro row _
  simp only [Function.comp_apply, setStoredCost]
  split_ifs <;> rfl

/-- A refresh does not read what refreshes write. -/
theorem refreshedCost_setStoredCost (decodeNumeric : ℚ → Except String ℚ) (tenantId : TenantId)
    (runId : RunId) (tenantId' : TenantId) (runId' : RunId) (cost : ℚ) (runs : List StoredRun)
    (costs : List CostRow) :
    refreshedCost decodeNumeric tenantId runId (runs.map (setStoredCost tenantId' runId' cost))
        costs =
      refreshedCost decodeNumeric tenantId runId runs costs := by
  unfold refreshedCost
  rw [toRunRow_setStoredCost, readCurrency_congr (storedCurrency_setCost cost _)]

theorem identity_setStoredCost (tenantId : TenantId) (runId : RunId) (cost : ℚ) (row : StoredRun) :
    (setStoredCost tenantId runId cost row).identity = row.identity := by
  unfold setStoredCost
  split_ifs <;> rfl

theorem id_setStoredCost (tenantId : TenantId) (runId : RunId) (cost : ℚ) (row : StoredRun) :
    (setStoredCost tenantId runId cost row).id = row.id := by
  unfold setStoredCost
  split_ifs <;> rfl

theorem SettledRun.row_refresh (tenantId : TenantId) (runId : RunId) (cost : ℚ)
    (settled : SettledRun) :
    (settled.refresh tenantId runId cost).row = setStoredCost tenantId runId cost settled.row := by
  by_cases h : settled.first.id = runId ∧ settled.first.tenantId = tenantId
  · have hrow : settled.row.id = runId ∧ settled.row.tenantId = tenantId := h
    rw [SettledRun.refresh, if_pos h, setStoredCost, if_pos hrow]
    rfl
  · have hrow : ¬(settled.row.id = runId ∧ settled.row.tenantId = tenantId) := h
    rw [SettledRun.refresh, if_neg h, setStoredCost, if_neg hrow]

end Settled

/-! ## What every call keeps up -/

section Calls

variable {decodeNumeric : ℚ → Except String ℚ}

/-- The rows are the settled writes, each under its own id. -/
structure RunHistory.Kept (history : RunHistory) : Prop where
  find : ∀ identity, findIdentity identity history.store.runs =
    (SettledRun.ofWrites identity history.writes).map SettledRun.row
  ids : (history.store.runs.map fun row => row.id).Nodup

theorem RunHistory.kept_empty : RunHistory.empty.Kept :=
  ⟨fun _ => rfl, List.nodup_nil⟩

theorem SettledRun.row_deliver (settled : SettledRun) (run : Run) (cost cost' : ℚ) :
    (deliver (some settled) run cost).row = settled.row.setProgress (run.row cost') := rfl

/-- The row that a delivery goes to afterwards, whichever of the three things the insert did. -/
theorem RunHistory.Kept.find_insertRun {store : GraphStore} {writes : List RunWrite} {run : Run}
    {cost : ℚ} {runs : List StoredRun} {returned : Option (RunId × Bool)}
    (h : RunHistory.Kept ⟨store, writes⟩)
    (hinsert : insertRun store (run.row cost) = .ok (runs, returned)) :
    findIdentity run.identity runs =
      some (SettledRun.deliver (SettledRun.ofWrites run.identity writes) run cost).row := by
  have hheld : findIdentity run.identity store.runs = _ := h.find run.identity
  rcases insertRun_cases hinsert with ⟨existing, hfind, hprogress, rfl, -⟩ |
    ⟨existing, hfind, -, rfl, -⟩ | ⟨hfind, -, -, rfl, -⟩
  · rw [identity_row] at hfind
    rcases Option.map_eq_some_iff.1 (hheld.symm.trans hfind) with ⟨settled, hsettled, rfl⟩
    -- Nothing that a delivery would write has changed.
    rw [hfind, hsettled, SettledRun.row_deliver settled run cost cost,
      StoredRun.setProgress_self hprogress]
  · rw [identity_row] at hfind
    rcases Option.map_eq_some_iff.1 (hheld.symm.trans hfind) with ⟨settled, hsettled, rfl⟩
    -- The progress is written over, and nothing else.
    rw [findIdentity_updateProgress, hfind, hsettled, SettledRun.row_deliver settled run cost cost]
    simp
  · rw [identity_row] at hfind
    have hnone := Option.map_eq_none_iff.1 (hheld.symm.trans hfind)
    rw [findIdentity_append, hfind, hnone]
    simp only [Option.none_or, identity_row, if_true]
    rfl

/-- The rows that an insert leaves alone. -/
theorem findIdentity_insertRun_of_ne {store : GraphStore} {row : StoredRun}
    {runs : List StoredRun} {returned : Option (RunId × Bool)}
    {identity : TenantId × String × String} (hinsert : insertRun store row = .ok (runs, returned))
    (hne : row.identity ≠ identity) :
    findIdentity identity runs = findIdentity identity store.runs := by
  rcases insertRun_cases hinsert with ⟨-, -, -, rfl, -⟩ | ⟨-, -, -, rfl, -⟩ | ⟨-, -, -, rfl, -⟩
  · rfl
  · simp [findIdentity_updateProgress, Ne.symm hne]
  · simp [findIdentity_append, hne]

theorem nodup_ids_insertRun {store : GraphStore} {row : StoredRun} {runs : List StoredRun}
    {returned : Option (RunId × Bool)} (h : (store.runs.map fun row => row.id).Nodup)
    (hinsert : insertRun store row = .ok (runs, returned)) : (runs.map fun row => row.id).Nodup := by
  rcases insertRun_cases hinsert with ⟨-, -, -, rfl, -⟩ | ⟨-, -, -, rfl, -⟩ | ⟨-, hnew, -, rfl, -⟩
  · exact h
  -- An update keeps the ids, whatever id the delivery came with.
  · have hids : (updateProgress row store.runs).map (fun row => row.id) =
        store.runs.map fun row => row.id := by
      rw [updateProgress, List.map_map]
      apply List.map_congr_left
      intro existing _
      simp only [Function.comp_apply]
      split_ifs <;> rfl
    rw [hids]
    exact h
  · rw [List.map_append, List.nodup_append]
    refine ⟨h, by simp, ?_⟩
    intro id hid id' hid'
    rcases List.mem_map.1 hid with ⟨other, hother, rfl⟩
    rw [List.mem_singleton.1 hid']
    -- The primary key has refused an id that is there, of whatever tenant.
    exact hnew other hother

theorem RunHistory.Kept.insertRun {store : GraphStore} {writes : List RunWrite} {run : Run}
    {cost : ℚ} {runs : List StoredRun} {returned : Option (RunId × Bool)}
    (h : RunHistory.Kept ⟨store, writes⟩)
    (hinsert : Falkr.insertRun store (run.row cost) = .ok (runs, returned)) :
    RunHistory.Kept ⟨{ store with runs := runs }, writes ++ [.delivered run cost]⟩ := by
  refine ⟨fun identity => ?_, nodup_ids_insertRun h.ids hinsert⟩
  rw [SettledRun.ofWrites_append_singleton]
  by_cases hsame : run.identity = identity
  · subst hsame
    rw [SettledRun.write, if_pos rfl]
    exact h.find_insertRun hinsert
  · rw [SettledRun.write, if_neg hsame]
    exact (findIdentity_insertRun_of_ne hinsert hsame).trans (h.find identity)

theorem RunHistory.Kept.refreshRun {history : RunHistory} {tenantId : TenantId} {runId : RunId}
    {costEvents : List CostRow} {store : GraphStore} {attributed : Money ℚ} (h : history.Kept)
    (hrefresh : Falkr.refreshRun decodeNumeric history.store tenantId runId costEvents =
      (store, .ok attributed)) :
    ∃ cost, toNumeric attributed.amount = some cost ∧
      RunHistory.Kept ⟨store, history.writes ++ [.refreshed tenantId runId cost]⟩ := by
  unfold Falkr.refreshRun at hrefresh
  cases hcall : refreshAttributedCost decodeNumeric tenantId runId
      (history.store.runs.map StoredRun.toRunRow) costEvents with
  | error e => simp [hcall] at hrefresh
  | ok pair =>
      rcases pair with ⟨attributed', rows⟩
      simp only [hcall, Prod.mk.injEq, Except.ok.injEq] at hrefresh
      rcases hrefresh with ⟨rfl, rfl⟩
      rcases refreshAttributedCost_eq_ok.1 hcall with ⟨-, -, cost, -, -, hbind, rfl⟩
      have hcost : toNumeric attributed'.amount = some cost := by
        cases hnumeric : toNumeric attributed'.amount with
        | none => simp [bindCost, hnumeric] at hbind
        | some value => simpa [bindCost, hnumeric] using hbind
      refine ⟨cost, hcost, ?_, ?_⟩
      · intro identity
        rw [SettledRun.ofWrites_append_singleton, SettledRun.write]
        simp only [zipWith_setCost]
        rw [findIdentity_map (identity_setStoredCost tenantId runId cost), h.find identity,
          Option.map_map, Option.map_map]
        -- A refresh does to the row of a settled run what it does to the settled run.
        apply congrArg (fun f => Option.map f _)
        funext settled
        exact (settled.row_refresh tenantId runId cost).symm
      · simp only [zipWith_setCost, List.map_map]
        have hids : ((fun row : StoredRun => row.id) ∘ setStoredCost tenantId runId cost) =
            fun row => row.id := funext (id_setStoredCost tenantId runId cost)
        rw [hids]
        exact h.ids

theorem RunHistory.Kept.call {history : RunHistory} (h : history.Kept) (call : RunCall) :
    (history.call decodeNumeric call).Kept := by
  cases call with
  | upsertExperiment experiment env =>
      rcases upsertExperiment_cases history.store experiment env with hcall | ⟨_, -, hcall⟩ <;>
        simp only [RunHistory.call, hcall] <;> exact ⟨h.find, h.ids⟩
  | upsertRun run env =>
      rcases upsertRun_cases history.store run env with ⟨e, -, hcall⟩ | ⟨store', outcome, htx, hcall⟩
      · simp only [RunHistory.call, hcall]
        exact h
      -- Only a call whose transaction committed has written.
      · rcases upsertRunTx_eq_ok.1 htx with ⟨-, row, runs, returned, hrow, hinsert, -, rfl⟩
        rcases encodeRun_eq_ok.1 hrow with ⟨-, -, cost, hcost, rfl⟩
        simp only [RunHistory.call, hcall, hcost]
        exact h.insertRun hinsert
  | refresh tenantId runId costEvents =>
      rcases hcall : Falkr.refreshRun decodeNumeric history.store tenantId runId costEvents with
        ⟨store, e | attributed⟩
      · have hstore : store = history.store := by
          unfold Falkr.refreshRun at hcall
          cases hrefresh : refreshAttributedCost decodeNumeric tenantId runId
              (history.store.runs.map StoredRun.toRunRow) costEvents with
          | error e' =>
              rw [hrefresh] at hcall
              exact (Prod.mk.inj hcall).1.symm
          | ok pair => simp [hrefresh] at hcall
        simp only [RunHistory.call, hcall, hstore]
        exact h
      · rcases h.refreshRun hcall with ⟨cost, hcost, hkept⟩
        simp only [RunHistory.call, hcall, hcost]
        exact hkept

theorem RunHistory.kept_after (calls : List RunCall) :
    (RunHistory.after decodeNumeric calls).Kept := by
  induction calls using List.reverseRecOn with
  | nil => exact RunHistory.kept_empty
  | append_singleton calls call ih =>
      rw [RunHistory.after, List.foldl_append]
      exact ih.call call

/-! ## What is read back -/

end Calls

end Falkr
