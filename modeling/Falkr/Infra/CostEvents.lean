import Falkr.CostSpine.Event
import Mathlib.Algebra.Order.Floor.Ring
import Mathlib.Data.Rat.Floor

/-!
# CostEvents — the store of normalized cost events

`cost_events` is a list of committed rows.  What the database does to a bound value is written out
where an event is encoded: times are kept to the microsecond, amounts go into `NUMERIC(38, 12)`, and
no text may contain U+0000.
-/

namespace Falkr

open Lib

inductive StoreError
  | backend (detail : String)
  | missingTenantContext
  deriving DecidableEq

/-- What an idempotent upsert actually did. -/
structure UpsertOutcome where
  inserted : Nat
  restated : Nat
  duplicate : Nat
  deriving DecidableEq

def UpsertOutcome.default : UpsertOutcome where
  inserted := 0
  restated := 0
  duplicate := 0

/-- A row of `cost_events`.  Times are microseconds since 2000-01-01. -/
structure CostRow where
  id : CostEventId
  dims : Dimensions
  billingAccountId : String
  chargePeriodStart : Int
  chargePeriodEnd : Int
  currency : String
  billedCost : ℚ
  effectiveCost : ℚ
  listCost : ℚ
  serviceName : String
  serviceCategory : String
  chargeCategory : String
  resourceId : Option String
  regionId : Option String
  tags : Json
  sourceProvider : String
  sourceExternalId : String
  sourceExportRef : String
  sourceBillingPeriod : String
  sourceContentHash : String
  sourceIngestedAt : Int

/-- The columns of `cost_events_source_identity`. -/
def CostRow.identity (self : CostRow) : TenantId × String × String :=
  (self.dims.tenantId, self.sourceProvider, self.sourceExternalId)

/-! ## Encoding -/

/-- A bound timestamp: microseconds since 2000-01-01, cut off. -/
def toMicros (time : DateTimeUtc) : Int :=
  (time.nanos - 946684800000000000).tdiv 1000

/-- `NUMERIC(38, 12)`: rounds half away from zero, and refuses what needs more than 26 digits before
the point. -/
def toNumeric (amount : ℚ) : Option ℚ :=
  let scaled := ⌊|amount| * 10 ^ 12 + 1 / 2⌋
  if scaled < 10 ^ 38 then some ((if amount < 0 then -scaled else scaled) / 10 ^ 12) else none

/-- A `TEXT` value. -/
def textOk (s : String) : Bool :=
  s.toList.all fun c => c ≠ Char.ofNat 0

/-- The texts that an event is stored with. -/
def textsOk (event : CostEvent) : Bool :=
  [event.billingAccountId, event.serviceName, event.resourceId.getD "", event.regionId.getD "",
    event.sourceRef.externalId, event.sourceRef.exportRef, event.sourceRef.billingPeriod,
    event.sourceRef.contentHash].all textOk && event.tags.allTexts textOk

/-- The row that `upsert` binds, as the column types and `cost_events_period_is_positive` admit it.
The other check constraints hold of every event. -/
def encodeEvent (event : CostEvent) : Except String CostRow :=
  if textsOk event = false then .error "invalid byte sequence for encoding \"UTF8\": 0x00"
  else
    match toNumeric event.billedCost.amount, toNumeric event.effectiveCost.amount,
      toNumeric event.listCost.amount with
    | some billedCost, some effectiveCost, some listCost =>
        if toMicros event.chargePeriodEnd ≤ toMicros event.chargePeriodStart then
          .error "cost_events_period_is_positive"
        else
          .ok
            { id := event.id
              dims := event.dims
              billingAccountId := event.billingAccountId
              chargePeriodStart := toMicros event.chargePeriodStart
              chargePeriodEnd := toMicros event.chargePeriodEnd
              currency := event.currency.code
              billedCost := billedCost
              effectiveCost := effectiveCost
              listCost := listCost
              serviceName := event.serviceName
              serviceCategory := event.serviceCategory.asStr
              chargeCategory := event.chargeCategory.asStr
              resourceId := event.resourceId
              regionId := event.regionId
              tags := event.tags
              sourceProvider := event.sourceRef.provider.asStr
              sourceExternalId := event.sourceRef.externalId
              sourceExportRef := event.sourceRef.exportRef
              sourceBillingPeriod := event.sourceRef.billingPeriod
              sourceContentHash := event.sourceRef.contentHash
              sourceIngestedAt := toMicros event.sourceRef.ingestedAt }
    | _, _, _ => .error "numeric field overflow"

/-! ## The statement -/

/-- What the statement returns: nothing, or whether the row was inserted. -/
inductive UpsertResult
  | inserted
  | restated
  | suppressed
  deriving DecidableEq

/-- `DO UPDATE SET`: writes every column but the key and the id. -/
def restate (table : List CostRow) (row : CostRow) : List CostRow :=
  table.map fun existing =>
    if existing.identity = row.identity then { row with id := existing.id } else existing

/-- `INSERT … ON CONFLICT (tenant_id, source_provider, source_external_id) DO UPDATE … WHERE
source_content_hash IS DISTINCT FROM EXCLUDED.source_content_hash`. -/
def upsertRow (table : List CostRow) (row : CostRow) :
    Except String (List CostRow × UpsertResult) :=
  match table.find? fun existing => existing.identity = row.identity with
  | some existing =>
      if existing.sourceContentHash = row.sourceContentHash then .ok (table, .suppressed)
      else .ok (restate table row, .restated)
  | none =>
      -- The conflict clause names the source identity, so the primary key still raises.
      if ∃ other ∈ table, other.id = row.id then .error "duplicate key value"
      else .ok (table ++ [row], .inserted)

/-! ## The store -/

/-- The errors of the connection and of statements that a call meets. -/
structure UpsertEnv where
  beginError : Option String
  statementError : Nat → Option String
  commitError : Option String

/-- A call on which no statement fails. -/
def UpsertEnv.ok : UpsertEnv where
  beginError := none
  statementError := fun _ => none
  commitError := none

def UpsertOutcome.count (self : UpsertOutcome) : UpsertResult → UpsertOutcome
  | .inserted => { self with inserted := self.inserted + 1 }
  | .restated => { self with restated := self.restated + 1 }
  | .suppressed => { self with duplicate := self.duplicate + 1 }

/-- The loop in `upsert`, inside its transaction. -/
def upsertEvents (env : UpsertEnv) :
    List CostEvent → Nat → List CostRow → UpsertOutcome →
      Except StoreError (List CostRow × UpsertOutcome)
  | [], _, table, outcome => .ok (table, outcome)
  | event :: rest, pass, table, outcome =>
      match env.statementError pass with
      | some e => .error (.backend e)
      | none =>
          match (encodeEvent event).bind (upsertRow table) with
          | .error e => .error (.backend e)
          | .ok (table, result) => upsertEvents env rest (pass + 1) table (outcome.count result)

/-- Idempotent batch upsert: the table after the call, and what it returns. -/
def upsert (table : List CostRow) (events : List CostEvent) (env : UpsertEnv) :
    List CostRow × Except StoreError UpsertOutcome :=
  match events with
  | [] => (table, .ok UpsertOutcome.default)
  | first :: _ =>
      -- The transaction is opened for the tenant of the first event.
      let tenantId := first.dims.tenantId
      if events.any fun e => e.dims.tenantId ≠ tenantId then
        (table, .error (.backend "batch spans multiple tenants; upsert one tenant at a time"))
      else
        match env.beginError with
        | some e => (table, .error (.backend e))
        | none =>
            match upsertEvents env events 0 table UpsertOutcome.default with
            | .error e => (table, .error e)
            | .ok (upserted, outcome) =>
                match env.commitError with
                | some e => (table, .error (.backend e))
                | none => (upserted, .ok outcome)

end Falkr
