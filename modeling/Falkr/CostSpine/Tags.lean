import Falkr.Core.Dimensions
import Falkr.Lib.Json

/-!
# Tags — tag-based attribution

Which tag key carries which dimension is configuration.  The parser of UUIDs is an argument.
-/

namespace Falkr

open Lib

/-- Which tag keys carry which dimensions, in priority order. -/
structure TagAttributionRules where
  projectKeys : List String
  runKeys : List String
  teamKeys : List String
  customerKeys : List String
  modelKeys : List String
  datasetKeys : List String
  commitmentKeys : List String
  workloadKeys : List String

def TagAttributionRules.default : TagAttributionRules where
  projectKeys := ["falkr:project", "project", "project_id"]
  runKeys := ["falkr:run", "run", "run_id", "wandb_run_id", "mlflow_run_id"]
  teamKeys := ["falkr:team", "team", "team_id", "cost-center"]
  customerKeys := ["falkr:customer", "customer", "customer_id"]
  modelKeys := ["falkr:model", "model", "model_id"]
  datasetKeys := ["falkr:dataset", "dataset", "dataset_id"]
  commitmentKeys := ["falkr:commitment", "commitment_id"]
  workloadKeys := ["falkr:workload", "workload", "workload_type", "purpose"]

/-- What cannot be derived from tags. -/
structure AttributionContext where
  tenantId : TenantId
  providerId : ProviderId
  defaultProjectId : Option ProjectId
  defaultTeamId : Option TeamId

inductive AttributionError
  | missingRequiredDimension (dimension : String)
  | unparseableTag (key value expected : String)
  | tagsNotAnObject
  | telemetryUnavailable
  deriving DecidableEq

/-- How a workload's purpose maps to a function code. -/
def functionCodeFor (workload : Option String) (runAttributed : Bool) : FunctionCode :=
  match workload.map fun s => toAsciiLowercase (trim s) with
  | some "inference" | some "serving" | some "production" | some "prod" | some "api" => .cogs
  | some "training" | some "train" | some "experiment" | some "eval" | some "finetune"
  | some "fine-tune" => .rnD
  | some "internal" | some "tooling" | some "platform" | some "ci" => .opEx
  | _ => if runAttributed then .rnD else .opEx

/-- The first candidate key that holds a text that is not blank, with the text trimmed. -/
def lookupTag (map : List (String × Json)) (candidates : List String) :
    Option (String × String) :=
  candidates.findSome? fun k =>
    match ((SortedMap.lookup k map).bind Json.asStr).map trim with
    | none => none
    | some v => if v.isEmpty then none else some (k, v)

def parseId (parseUuid : String → Option Uuid) (found : Option (String × String))
    (what : String) : Except AttributionError (Option Uuid) :=
  match found with
  | none => .ok none
  | some (key, value) =>
      match parseUuid value with
      | some id => .ok (some id)
      | none => .error (.unparseableTag key value what)

/-- A required dimension: what a tag says, or else the default. -/
def required {kind : IdKind} (found : Option Uuid) (fallback : Option (DomainId kind))
    (dimension : String) : Except AttributionError (DomainId kind) :=
  match (found.map DomainId.mk).or fallback with
  | some id => .ok id
  | none => .error (.missingRequiredDimension dimension)

/-- `attribute`: reads a `Dimensions` out of a provider tag map. -/
def attributeTags (parseUuid : String → Option Uuid) (tags : Json) (rules : TagAttributionRules)
    (ctx : AttributionContext) : Except AttributionError Dimensions :=
  match tags.asObject with
  | none => .error .tagsNotAnObject
  | some map => do
      let project ← parseId parseUuid (lookupTag map rules.projectKeys) "project id"
      let projectId ← required project ctx.defaultProjectId "project_id"
      let team ← parseId parseUuid (lookupTag map rules.teamKeys) "team id"
      let teamId ← required team ctx.defaultTeamId "team_id"
      let runId ← parseId parseUuid (lookupTag map rules.runKeys) "run id"
      let customerId ← parseId parseUuid (lookupTag map rules.customerKeys) "customer id"
      let modelId ← parseId parseUuid (lookupTag map rules.modelKeys) "model id"
      let datasetId ← parseId parseUuid (lookupTag map rules.datasetKeys) "dataset id"
      let commitmentId ← parseId parseUuid (lookupTag map rules.commitmentKeys) "commitment id"
      -- The workload is not kept; it only decides the function code.
      let workload := (lookupTag map rules.workloadKeys).map Prod.snd
      let functionCode := functionCodeFor workload runId.isSome
      let dims := Dimensions.new ctx.tenantId projectId teamId ctx.providerId functionCode
      let dims := runId.elim dims fun id => dims.withRun ⟨id⟩
      let dims := customerId.elim dims fun id => dims.withCustomer ⟨id⟩
      let dims := modelId.elim dims fun id => dims.withModel ⟨id⟩
      let dims := datasetId.elim dims fun id => dims.withDataset ⟨id⟩
      let dims := commitmentId.elim dims fun id => dims.withCommitment ⟨id⟩
      pure dims

end Falkr
