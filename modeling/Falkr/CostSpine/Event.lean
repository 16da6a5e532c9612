import Falkr.Core.Dimensions
import Falkr.Core.Money
import Falkr.Lib.Json

/-!
# Event — the FOCUS-shaped cost record

Amounts are the exact values of their decimals.
-/

namespace Falkr

open Lib

/-- Which provider a cost record came from. -/
inductive ProviderKind
  | aws
  | gcp
  | azure
  | coreWeave
  | oci
  | internal
  deriving DecidableEq, Repr

def ProviderKind.asStr : ProviderKind → String
  | aws => "aws"
  | gcp => "gcp"
  | azure => "azure"
  | coreWeave => "coreweave"
  | oci => "oci"
  | internal => "internal"

/-- Parses what `asStr` writes. -/
def ProviderKind.fromStored (s : String) : Option ProviderKind :=
  match toAsciiLowercase (trim s) with
  | "aws" => some aws
  | "gcp" => some gcp
  | "azure" => some azure
  | "coreweave" => some coreWeave
  | "oci" => some oci
  | "internal" => some internal
  | _ => none

theorem ProviderKind.fromStored_asStr (provider : ProviderKind) :
    fromStored provider.asStr = some provider := by
  cases provider <;> decide +kernel

theorem ProviderKind.asStr_injective : Function.Injective ProviderKind.asStr := by
  intro a b h
  cases a <;> cases b <;> first | rfl | (revert h; decide)

/-- FOCUS `ChargeCategory`. -/
inductive ChargeCategory
  | usage
  | purchase
  | tax
  | credit
  | adjustment
  deriving DecidableEq, Repr

def ChargeCategory.asStr : ChargeCategory → String
  | usage => "usage"
  | purchase => "purchase"
  | tax => "tax"
  | credit => "credit"
  | adjustment => "adjustment"

def ChargeCategory.fromStored (s : String) : Option ChargeCategory :=
  match toAsciiLowercase (trim s) with
  | "usage" => some usage
  | "purchase" => some purchase
  | "tax" => some tax
  | "credit" => some credit
  | "adjustment" => some adjustment
  | _ => none

theorem ChargeCategory.fromStored_asStr (category : ChargeCategory) :
    fromStored category.asStr = some category := by
  cases category <;> decide +kernel

/-- FOCUS `ServiceCategory`. -/
inductive ServiceCategory
  | aiAndMachineLearning
  | analytics
  | businessApplications
  | compute
  | databases
  | developerTools
  | identity
  | integration
  | internetOfThings
  | managementAndGovernance
  | media
  | migration
  | mobile
  | multicloud
  | networking
  | security
  | storage
  | web
  | other
  deriving DecidableEq, Repr

namespace ServiceCategory

def asStr : ServiceCategory → String
  | aiAndMachineLearning => "ai_and_machine_learning"
  | analytics => "analytics"
  | businessApplications => "business_applications"
  | compute => "compute"
  | databases => "databases"
  | developerTools => "developer_tools"
  | identity => "identity"
  | integration => "integration"
  | internetOfThings => "internet_of_things"
  | managementAndGovernance => "management_and_governance"
  | media => "media"
  | migration => "migration"
  | mobile => "mobile"
  | multicloud => "multicloud"
  | networking => "networking"
  | security => "security"
  | storage => "storage"
  | web => "web"
  | other => "other"

def candidates : List ServiceCategory :=
  [aiAndMachineLearning, analytics, businessApplications, compute, databases, developerTools,
    identity, integration, internetOfThings, managementAndGovernance, media, migration, mobile,
    multicloud, networking, security, storage, web, other]

/-- The candidate that is written so; unlike the other two, in this very spelling. -/
def fromStored (s : String) : Option ServiceCategory :=
  candidates.find? fun c => c.asStr == trim s

theorem fromStored_asStr (category : ServiceCategory) :
    fromStored category.asStr = some category := by
  cases category <;> decide +kernel

/-- Parses the FOCUS spec's human-readable value; an unrecognized one is `other`. -/
def fromFocusValue (value : String) : ServiceCategory :=
  match toAsciiLowercase (trim value) with
  | "ai and machine learning" => aiAndMachineLearning
  | "analytics" => analytics
  | "business applications" => businessApplications
  | "compute" => compute
  | "databases" => databases
  | "developer tools" => developerTools
  | "identity" => identity
  | "integration" => integration
  | "internet of things" => internetOfThings
  | "management and governance" => managementAndGovernance
  | "media" => media
  | "migration" => migration
  | "mobile" => mobile
  | "multicloud" => multicloud
  | "networking" => networking
  | "security" => security
  | "storage" => storage
  | "web" => web
  | _ => other

end ServiceCategory

/-- Provenance back to the raw provider invoice line, and the idempotency key. -/
structure SourceRef where
  provider : ProviderKind
  externalId : String
  exportRef : String
  billingPeriod : String
  /-- Hash of the raw row as delivered. -/
  contentHash : String
  ingestedAt : DateTimeUtc

/-- A single normalized cost record. -/
structure CostEvent where
  id : CostEventId
  billingAccountId : String
  chargePeriodStart : DateTimeUtc
  chargePeriodEnd : DateTimeUtc
  billedCost : Money ℚ
  effectiveCost : Money ℚ
  listCost : Money ℚ
  serviceName : String
  serviceCategory : ServiceCategory
  chargeCategory : ChargeCategory
  resourceId : Option String
  regionId : Option String
  tags : Json
  dims : Dimensions
  sourceRef : SourceRef

inductive CostEventError
  | mixedCurrency (billed effective list : Currency)
  | invalidChargePeriod (start stop : DateTimeUtc)
  deriving DecidableEq

namespace CostEvent

/-- Builds a cost event, rejecting mixed currencies and a non-positive charge period.  The
identifier is the first argument. -/
def new (id : CostEventId) (billingAccountId : String)
    (chargePeriodStart chargePeriodEnd : DateTimeUtc)
    (billedCost effectiveCost listCost : Money ℚ) (serviceName : String)
    (serviceCategory : ServiceCategory) (chargeCategory : ChargeCategory)
    (resourceId regionId : Option String) (tags : Json) (dims : Dimensions)
    (sourceRef : SourceRef) : Except CostEventError CostEvent :=
  let currency := billedCost.currency
  if effectiveCost.currency ≠ currency ∨ listCost.currency ≠ currency then
    .error (.mixedCurrency currency effectiveCost.currency listCost.currency)
  else if chargePeriodEnd.nanos ≤ chargePeriodStart.nanos then
    .error (.invalidChargePeriod chargePeriodStart chargePeriodEnd)
  else
    .ok
      { id := id
        billingAccountId := billingAccountId
        chargePeriodStart := chargePeriodStart
        chargePeriodEnd := chargePeriodEnd
        billedCost := billedCost
        effectiveCost := effectiveCost
        listCost := listCost
        serviceName := serviceName
        serviceCategory := serviceCategory
        chargeCategory := chargeCategory
        resourceId := resourceId
        regionId := regionId
        tags := tags
        dims := dims
        sourceRef := sourceRef }

/-- The single currency shared by all three amounts. -/
def currency (self : CostEvent) : Currency :=
  self.billedCost.currency

end CostEvent

end Falkr
