import Falkr.Infra.CostEvents
import Falkr.Lib.Returning

/-!
# CostUpserts — what an upsert does

One statement finds the row up to date, overwrites it or appends it (`upsertRow_cases`); a call that
returns `Ok` has sent every event through, and one that fails has changed nothing (`upsert_cases`).
-/

namespace Falkr

open Lib

/-- The row that `upsert` binds, with the amounts as their columns take them. -/
def CostEvent.row (self : CostEvent) (billedCost effectiveCost listCost : ℚ) : CostRow where
  id := self.id
  dims := self.dims
  billingAccountId := self.billingAccountId
  chargePeriodStart := toMicros self.chargePeriodStart
  chargePeriodEnd := toMicros self.chargePeriodEnd
  currency := self.currency.code
  billedCost := billedCost
  effectiveCost := effectiveCost
  listCost := listCost
  serviceName := self.serviceName
  serviceCategory := self.serviceCategory.asStr
  chargeCategory := self.chargeCategory.asStr
  resourceId := self.resourceId
  regionId := self.regionId
  tags := self.tags
  sourceProvider := self.sourceRef.provider.asStr
  sourceExternalId := self.sourceRef.externalId
  sourceExportRef := self.sourceRef.exportRef
  sourceBillingPeriod := self.sourceRef.billingPeriod
  sourceContentHash := self.sourceRef.contentHash
  sourceIngestedAt := toMicros self.sourceRef.ingestedAt

/-- The amounts as their columns take them. -/
structure Amounts (event : CostEvent) (billedCost effectiveCost listCost : ℚ) : Prop where
  billed : toNumeric event.billedCost.amount = some billedCost
  effective : toNumeric event.effectiveCost.amount = some effectiveCost
  list : toNumeric event.listCost.amount = some listCost

theorem encodeEvent_eq_ok {event : CostEvent} {row : CostRow} :
    encodeEvent event = .ok row ↔
      textsOk event = true ∧ toMicros event.chargePeriodStart < toMicros event.chargePeriodEnd ∧
        ∃ billedCost effectiveCost listCost, Amounts event billedCost effectiveCost listCost ∧
          row = event.row billedCost effectiveCost listCost := by
  constructor
  · intro h
    cases htexts : textsOk event with
    | false => simp [encodeEvent, htexts] at h
    | true =>
        -- The statement binds the amounts in this order, and any of the three can be out of range.
        cases hbilled : toNumeric event.billedCost.amount with
        | none => simp [encodeEvent, htexts, hbilled] at h
        | some billedCost =>
            cases heffective : toNumeric event.effectiveCost.amount with
            | none => simp [encodeEvent, htexts, hbilled, heffective] at h
            | some effectiveCost =>
                cases hlist : toNumeric event.listCost.amount with
                | none => simp [encodeEvent, htexts, hbilled, heffective, hlist] at h
                | some listCost =>
                    by_cases hperiod :
                        toMicros event.chargePeriodEnd ≤ toMicros event.chargePeriodStart
                    · simp [encodeEvent, htexts, hbilled, heffective, hlist, hperiod] at h
                    · simp only [encodeEvent, htexts, hbilled, heffective, hlist, hperiod, if_false,
                        Bool.true_eq_false] at h
                      cases h
                      exact ⟨rfl, not_le.1 hperiod, billedCost, effectiveCost, listCost,
                        ⟨hbilled, heffective, hlist⟩, rfl⟩
  · rintro ⟨htexts, hperiod, billedCost, effectiveCost, listCost, hamounts, rfl⟩
    simp [encodeEvent, htexts, hamounts.billed, hamounts.effective, hamounts.list,
      not_le.2 hperiod, CostEvent.row]

/-- What an event is known by to the store. -/
def CostEvent.identity (self : CostEvent) : TenantId × String × String :=
  (self.dims.tenantId, self.sourceRef.provider.asStr, self.sourceRef.externalId)

theorem identity_of_encodeEvent {event : CostEvent} {row : CostRow}
    (h : encodeEvent event = .ok row) :
    row.identity = event.identity ∧ row.sourceContentHash = event.sourceRef.contentHash ∧
      row.id = event.id := by
  rcases encodeEvent_eq_ok.1 h with ⟨-, -, billedCost, effectiveCost, listCost, -, rfl⟩
  exact ⟨rfl, rfl, rfl⟩

/-- The row under an identity. -/
def findRow (identity : TenantId × String × String) (table : List CostRow) : Option CostRow :=
  table.find? fun row => row.identity = identity

/-! ## One statement -/

theorem upsertRow_cases {table table' : List CostRow} {row : CostRow} {result : UpsertResult}
    (h : upsertRow table row = .ok (table', result)) :
    (∃ existing, findRow row.identity table = some existing ∧
        existing.sourceContentHash = row.sourceContentHash ∧ table' = table ∧
          result = .suppressed) ∨
      (∃ existing, findRow row.identity table = some existing ∧
        existing.sourceContentHash ≠ row.sourceContentHash ∧ table' = restate table row ∧
          result = .restated) ∨
      (findRow row.identity table = none ∧ (∀ other ∈ table, other.id ≠ row.id) ∧
        table' = table ++ [row] ∧ result = .inserted) := by
  cases hfind : table.find? fun existing => existing.identity = row.identity with
  | some existing =>
      by_cases hhash : existing.sourceContentHash = row.sourceContentHash
      · have hpair : table = table' ∧ UpsertResult.suppressed = result := by
          simpa [upsertRow, hfind, hhash] using h
        exact Or.inl ⟨existing, hfind, hhash, hpair.1.symm, hpair.2.symm⟩
      · have hpair : restate table row = table' ∧ UpsertResult.restated = result := by
          simpa [upsertRow, hfind, hhash] using h
        exact Or.inr (Or.inl ⟨existing, hfind, hhash, hpair.1.symm, hpair.2.symm⟩)
  | none =>
      by_cases hid : ∃ other ∈ table, other.id = row.id
      · simp [upsertRow, hfind, hid] at h
      · have hpair : table ++ [row] = table' ∧ UpsertResult.inserted = result := by
          simpa [upsertRow, hfind, hid] using h
        refine Or.inr (Or.inr ⟨hfind, ?_, hpair.1.symm, hpair.2.symm⟩)
        intro other hmem heq
        exact hid ⟨other, hmem, heq⟩

theorem upsertRow_of_findRow {table : List CostRow} {row existing : CostRow}
    (h : findRow row.identity table = some existing) :
    upsertRow table row =
      if existing.sourceContentHash = row.sourceContentHash then .ok (table, .suppressed)
      else .ok (restate table row, .restated) := by
  unfold findRow at h
  simp [upsertRow, h]

/-- A restated row keeps its key. -/
theorem identity_restated (row : CostRow) (existing : CostRow) :
    (if existing.identity = row.identity then { row with id := existing.id }
      else existing).identity = existing.identity := by
  by_cases hsame : existing.identity = row.identity
  · rw [if_pos hsame]
    exact hsame.symm
  · rw [if_neg hsame]

theorem findRow_restate (identity : TenantId × String × String) (table : List CostRow)
    (row : CostRow) :
    findRow identity (restate table row) =
      (findRow identity table).map fun existing =>
        if existing.identity = row.identity then { row with id := existing.id } else existing := by
  rw [findRow, restate, List.find?_map]
  congr 2
  funext existing
  simp only [Function.comp_apply, identity_restated]

theorem findRow_append (identity : TenantId × String × String) (table : List CostRow)
    (row : CostRow) :
    findRow identity (table ++ [row]) =
      (findRow identity table).or (if row.identity = identity then some row else none) := by
  by_cases h : row.identity = identity <;> simp [findRow, List.find?_append, h]

theorem identity_of_findRow {identity : TenantId × String × String} {table : List CostRow}
    {row : CostRow} (h : findRow identity table = some row) : row.identity = identity := by
  simpa using List.find?_some h

theorem map_identity_restate (table : List CostRow) (row : CostRow) :
    (restate table row).map CostRow.identity = table.map CostRow.identity := by
  rw [restate, List.map_map]
  exact List.map_congr_left fun existing _ => identity_restated row existing

/-- The unique index holds: no two rows have one identity. -/
def UniqueIdentities (table : List CostRow) : Prop :=
  (table.map CostRow.identity).Nodup

theorem UniqueIdentities.upsertRow {table table' : List CostRow} {row : CostRow}
    {result : UpsertResult} (h : UniqueIdentities table)
    (hupsert : Falkr.upsertRow table row = .ok (table', result)) : UniqueIdentities table' := by
  rcases upsertRow_cases hupsert with ⟨-, -, -, rfl, -⟩ | ⟨-, -, -, rfl, -⟩ |
    ⟨hfind, -, rfl, -⟩
  · exact h
  · rwa [UniqueIdentities, map_identity_restate]
  · have hnew : ∀ other ∈ table, other.identity ≠ row.identity := by
      simpa [findRow] using hfind
    rw [UniqueIdentities, List.map_append, List.nodup_append]
    refine ⟨h, by simp, ?_⟩
    rintro key hkey key' hkey' rfl
    rcases List.mem_map.1 hkey with ⟨other, hmem, heq⟩
    exact hnew other hmem (heq.trans (by simpa using hkey'))

/-- A restatement overwrites one row and leaves the others as they are. -/
theorem restate_of_findRow {table : List CostRow} {row existing : CostRow}
    (hunique : UniqueIdentities table) (h : findRow row.identity table = some existing) :
    ∃ older newer, table = older ++ existing :: newer ∧
      restate table row = older ++ { row with id := existing.id } :: newer := by
  rcases List.find?_eq_some_iff_append.1 h with ⟨hsame, older, newer, rfl, holder⟩
  have hidentity : existing.identity = row.identity := by simpa using hsame
  -- The unique index leaves no second row to restate.
  have hnewer : ∀ other ∈ newer, other.identity ≠ row.identity := by
    intro other hmem heq
    have htail : ((existing :: newer).map CostRow.identity).Nodup := by
      rw [UniqueIdentities, List.map_append] at hunique
      exact (List.nodup_append.1 hunique).2.1
    refine (List.nodup_cons.1 htail).1 ?_
    rw [hidentity, ← heq]
    exact List.mem_map_of_mem hmem
  have hkeep : ∀ {rows : List CostRow}, (∀ other ∈ rows, other.identity ≠ row.identity) →
      restate rows row = rows := by
    intro rows hrows
    have hmap : restate rows row = rows.map id :=
      List.map_congr_left fun other hmem => if_neg (hrows other hmem)
    rw [hmap, List.map_id]
  refine ⟨older, newer, rfl, ?_⟩
  have hsplit : restate (older ++ existing :: newer) row =
      restate older row ++ { row with id := existing.id } :: restate newer row := by
    simp [restate, hidentity]
  rw [hsplit, hkeep hnewer, hkeep fun other hmem => by simpa using holder other hmem]

/-! ## The loop -/

theorem upsertEvents_cons_eq_ok {env : UpsertEnv} {event : CostEvent} {rest : List CostEvent}
    {pass : Nat} {table : List CostRow} {outcome : UpsertOutcome}
    {result : List CostRow × UpsertOutcome} :
    upsertEvents env (event :: rest) pass table outcome = .ok result ↔
      env.statementError pass = none ∧
        ∃ row table₁ step, encodeEvent event = .ok row ∧ upsertRow table row = .ok (table₁, step) ∧
          upsertEvents env rest (pass + 1) table₁ (outcome.count step) = .ok result := by
  cases herror : env.statementError pass with
  | some e => simp [upsertEvents, herror]
  | none =>
      cases hrow : encodeEvent event with
      | error e => simp [upsertEvents, herror, hrow, Except.bind]
      | ok row =>
          cases hupsert : upsertRow table row with
          | error e => simp [upsertEvents, herror, hrow, hupsert, Except.bind]
          | ok pair =>
              rcases pair with ⟨table₁, step⟩
              simp [upsertEvents, herror, hrow, hupsert, Except.bind]

/-- A loop over a batch goes through its first events first. -/
theorem upsertEvents_append_eq_ok {env : UpsertEnv} {result : List CostRow × UpsertOutcome} :
    ∀ {before after : List CostEvent} {pass : Nat} {table : List CostRow}
      {outcome : UpsertOutcome},
      upsertEvents env (before ++ after) pass table outcome = .ok result ↔
        ∃ mid counted, upsertEvents env before pass table outcome = .ok (mid, counted) ∧
          upsertEvents env after (pass + before.length) mid counted = .ok result := by
  intro before
  induction before with
  | nil =>
      intro after pass table outcome
      simp [upsertEvents]
  | cons event before ih =>
      intro after pass table outcome
      have hpass : pass + 1 + before.length = pass + (event :: before).length := by
        rw [List.length_cons]
        omega
      simp only [List.cons_append, upsertEvents_cons_eq_ok, ih, hpass]
      constructor
      · rintro ⟨hquiet, row, table₁, step, hrow, hupsert, mid, counted, hbefore, hafter⟩
        exact ⟨mid, counted, ⟨hquiet, row, table₁, step, hrow, hupsert, hbefore⟩, hafter⟩
      · rintro ⟨mid, counted, ⟨hquiet, row, table₁, step, hrow, hupsert, hbefore⟩, hafter⟩
        exact ⟨hquiet, row, table₁, step, hrow, hupsert, mid, counted, hbefore, hafter⟩

theorem UniqueIdentities.upsertEvents {env : UpsertEnv} :
    ∀ {events : List CostEvent} {pass : Nat} {table table' : List CostRow}
      {outcome outcome' : UpsertOutcome}, UniqueIdentities table →
      Falkr.upsertEvents env events pass table outcome = .ok (table', outcome') →
      UniqueIdentities table' := by
  intro events
  induction events with
  | nil =>
      intro pass table table' outcome outcome' h hloop
      have hpair : table = table' ∧ outcome = outcome' := by
        simpa [Falkr.upsertEvents] using hloop
      exact hpair.1 ▸ h
  | cons event rest ih =>
      intro pass table table' outcome outcome' h hloop
      rcases upsertEvents_cons_eq_ok.1 hloop with ⟨-, row, table₁, step, -, hupsert, hrest⟩
      exact ih (h.upsertRow hupsert) hrest

/-- The three counts add up to the events sent through. -/
theorem count_of_upsertEvents {env : UpsertEnv} :
    ∀ {events : List CostEvent} {pass : Nat} {table table' : List CostRow}
      {outcome outcome' : UpsertOutcome},
      upsertEvents env events pass table outcome = .ok (table', outcome') →
        outcome.inserted ≤ outcome'.inserted ∧ outcome.restated ≤ outcome'.restated ∧
          outcome'.inserted + outcome'.restated + outcome'.duplicate =
            outcome.inserted + outcome.restated + outcome.duplicate + events.length := by
  intro events
  induction events with
  | nil =>
      intro pass table table' outcome outcome' h
      have hpair : table = table' ∧ outcome = outcome' := by simpa [upsertEvents] using h
      simp [hpair.2]
  | cons event rest ih =>
      intro pass table table' outcome outcome' h
      rcases upsertEvents_cons_eq_ok.1 h with ⟨-, row, table₁, step, -, -, hrest⟩
      rcases ih hrest with ⟨hinserted, hrestated, htotal⟩
      rw [List.length_cons]
      cases step <;> simp only [UpsertOutcome.count] at hinserted hrestated htotal <;> omega

/-! ## A call -/

def OneTenant (events : List CostEvent) : Prop :=
  ∀ event ∈ events, ∀ other ∈ events, event.dims.tenantId = other.dims.tenantId

/-- A call sends every event of one tenant through, or fails and changes nothing. -/
theorem upsert_cases (table : List CostRow) (events : List CostEvent) (env : UpsertEnv) :
    (∃ table' outcome, upsert table events env = (table', .ok outcome) ∧ OneTenant events ∧
        upsertEvents env events 0 table UpsertOutcome.default = .ok (table', outcome)) ∨
      ∃ e, upsert table events env = (table, .error e) := by
  cases events with
  | nil => exact Or.inl ⟨table, UpsertOutcome.default, rfl, by simp [OneTenant], rfl⟩
  | cons first rest =>
      by_cases htenants : ((first :: rest).any fun e => e.dims.tenantId ≠ first.dims.tenantId) = true
      · exact Or.inr ⟨_, by simp only [upsert, htenants, if_true]; rfl⟩
      · have hone : OneTenant (first :: rest) := by
          have hfirst : ∀ event ∈ first :: rest, event.dims.tenantId = first.dims.tenantId := by
            simpa using htenants
          intro event hevent other hother
          exact (hfirst event hevent).trans (hfirst other hother).symm
        cases hbegin : env.beginError with
        | some e => exact Or.inr ⟨_, by simp only [upsert, htenants, hbegin]; rfl⟩
        | none =>
            cases hloop : upsertEvents env (first :: rest) 0 table UpsertOutcome.default with
            | error e => exact Or.inr ⟨_, by simp only [upsert, htenants, hbegin, hloop]; rfl⟩
            | ok pair =>
                cases hcommit : env.commitError with
                | some e =>
                    exact Or.inr ⟨_, by simp only [upsert, htenants, hbegin, hloop, hcommit]; rfl⟩
                | none =>
                    exact Or.inl ⟨pair.1, pair.2, by
                      simp only [upsert, htenants, hbegin, hloop, hcommit]; rfl, hone, rfl⟩

/-- The loop decides a call on a single tenant's events on which no statement fails. -/
theorem upsert_of_oneTenant {events : List CostEvent} (h : OneTenant events)
    (table : List CostRow) :
    upsert table events UpsertEnv.ok =
      match upsertEvents UpsertEnv.ok events 0 table UpsertOutcome.default with
      | .error e => (table, .error e)
      | .ok (upserted, outcome) => (upserted, .ok outcome) := by
  cases events with
  | nil => rfl
  | cons first rest =>
      have hsame : ((first :: rest).any fun e => e.dims.tenantId ≠ first.dims.tenantId) = false := by
        simp only [List.any_eq_false, decide_eq_true_eq, not_not]
        intro event hmem
        exact h event hmem first (by simp)
      simp only [upsert, hsame, Bool.false_eq_true, if_false]
      rfl

end Falkr
