import Falkr.Core.Dimensions
import Falkr.Core.Money

/-!
# Entities — experiments and runs

The part of the research object graph that the trackers are ingested into.
-/

namespace Falkr

/-- Which experiment tracker a record came from. -/
inductive TrackerSource
  | wandb
  | mlflow
  deriving DecidableEq, Repr

def TrackerSource.asStr : TrackerSource → String
  | wandb => "wandb"
  | mlflow => "mlflow"

/-- The ingestion idempotency key: what a tracker calls a run. -/
structure ExternalRef where
  source : TrackerSource
  externalId : String
  deriving DecidableEq, Repr

inductive RunStatus
  | running
  | finished
  | failed
  | crashed
  | killed
  deriving DecidableEq, Repr

namespace RunStatus

def asStr : RunStatus → String
  | running => "running"
  | finished => "finished"
  | failed => "failed"
  | crashed => "crashed"
  | killed => "killed"

def fromStored (s : String) : Option RunStatus :=
  match Lib.toAsciiLowercase (Lib.trim s) with
  | "running" => some running
  | "finished" => some finished
  | "failed" => some failed
  | "crashed" => some crashed
  | "killed" => some killed
  | _ => none

/-- Whether the run has stopped, by any route. -/
def isTerminal : RunStatus → Bool
  | running => false
  | _ => true

theorem asStr_injective : Function.Injective asStr := by
  intro a b h
  cases a <;> cases b <;> first | rfl | (revert h; decide)

end RunStatus

structure Experiment where
  id : ExperimentId
  tenantId : TenantId
  projectId : ProjectId
  name : String
  deriving DecidableEq, Repr

/-- A single training or evaluation run.  The attributed cost is a projection, never authored. -/
structure Run where
  id : RunId
  tenantId : TenantId
  experimentId : ExperimentId
  externalRef : ExternalRef
  status : RunStatus
  startedAt : DateTimeUtc
  endedAt : Option DateTimeUtc
  attributedCost : Money ℚ
  functionCode : FunctionCode
  capitalizationStatus : CapitalizationStatus
  deriving DecidableEq

/-- What an idempotent run upsert did. -/
inductive RunUpsert
  | inserted (id : RunId)
  | updated (id : RunId)
  | unchanged (id : RunId)
  deriving DecidableEq, Repr

namespace RunUpsert

def runId : RunUpsert → RunId
  | inserted id => id
  | updated id => id
  | unchanged id => id

/-- Whether this upsert created a new run. -/
def isNew : RunUpsert → Bool
  | inserted _ => true
  | _ => false

end RunUpsert

end Falkr
