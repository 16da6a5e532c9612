import Falkr.Core.Ids
import Falkr.Lib.Text

/-!
# Dimensions — the dimensional spine

Every transaction carries its dimensions from the moment it is written.  An absent optional
dimension means "not applicable".
-/

namespace Falkr

/-- Where a cost lands in the income statement. -/
inductive FunctionCode
  | cogs
  | rnD
  | opEx
  deriving DecidableEq, Repr

namespace FunctionCode

def asStr : FunctionCode → String
  | cogs => "COGS"
  | rnD => "RND"
  | opEx => "OPEX"

/-- Parses what `asStr` writes. -/
def fromStored (s : String) : Option FunctionCode :=
  match Lib.toAsciiUppercase (Lib.trim s) with
  | "COGS" => some cogs
  | "RND" => some rnD
  | "OPEX" => some opEx
  | _ => none

theorem fromStored_asStr (code : FunctionCode) : fromStored code.asStr = some code := by
  cases code <;> decide +kernel

end FunctionCode

/-- Whether a run's cost is expensed as incurred or capitalized as an asset. -/
inductive CapitalizationStatus
  | expensed
  | capitalized
  | pendingReview
  deriving DecidableEq, Repr

namespace CapitalizationStatus

def asStr : CapitalizationStatus → String
  | expensed => "EXPENSED"
  | capitalized => "CAPITALIZED"
  | pendingReview => "PENDING_REVIEW"

def fromStored (s : String) : Option CapitalizationStatus :=
  match Lib.toAsciiUppercase (Lib.trim s) with
  | "EXPENSED" => some expensed
  | "CAPITALIZED" => some capitalized
  | "PENDING_REVIEW" => some pendingReview
  | _ => none

end CapitalizationStatus

structure Dimensions where
  tenantId : TenantId
  projectId : ProjectId
  runId : Option RunId
  teamId : TeamId
  customerId : Option CustomerId
  modelId : Option ModelId
  datasetId : Option DatasetId
  providerId : ProviderId
  functionCode : FunctionCode
  commitmentId : Option CommitmentId
  deriving DecidableEq, Repr

namespace Dimensions

/-- The five dimensions that are never optional; the others start absent. -/
def new (tenantId : TenantId) (projectId : ProjectId) (teamId : TeamId) (providerId : ProviderId)
    (functionCode : FunctionCode) : Dimensions where
  tenantId := tenantId
  projectId := projectId
  runId := none
  teamId := teamId
  customerId := none
  modelId := none
  datasetId := none
  providerId := providerId
  functionCode := functionCode
  commitmentId := none

def withRun (self : Dimensions) (runId : RunId) : Dimensions :=
  { self with runId := some runId }

def withCustomer (self : Dimensions) (customerId : CustomerId) : Dimensions :=
  { self with customerId := some customerId }

def withModel (self : Dimensions) (modelId : ModelId) : Dimensions :=
  { self with modelId := some modelId }

def withDataset (self : Dimensions) (datasetId : DatasetId) : Dimensions :=
  { self with datasetId := some datasetId }

def withCommitment (self : Dimensions) (commitmentId : CommitmentId) : Dimensions :=
  { self with commitmentId := some commitmentId }

end Dimensions

end Falkr
