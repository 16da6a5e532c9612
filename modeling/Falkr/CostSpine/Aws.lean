import Falkr.CostSpine.Event
import Falkr.CostSpine.Tags

/-!
# Aws — the connector over FOCUS exports

What the connector takes from third-party crates is the `Libraries` argument.
-/

namespace Falkr

open Lib

/-- What is called here of `sha2`, `rust_decimal`, `chrono`, `uuid` and `serde_json`. -/
structure Libraries where
  /-- The hexadecimal SHA-256 digest of a text's UTF-8 bytes. -/
  sha256 : String → String
  /-- The value of `str::parse::<Decimal>`. -/
  parseDecimal : String → Option ℚ
  parseFromRfc3339 : String → Option DateTimeUtc
  parseUuid : String → Option Uuid
  jsonFromStr : String → Option Json
  jsonToString : Json → String

/-- A provider row as delivered. -/
structure RawCostRecord where
  provider : ProviderKind
  exportRef : String
  billingPeriod : String
  row : Json

inductive NormalizeError
  | missingColumn (column : String)
  | unparseableValue (column value : String)
  | attribution (error : AttributionError)
  | costEvent (error : CostEventError)
  deriving DecidableEq

structure AwsFocusConnector where
  rules : TagAttributionRules
  ctx : AttributionContext
  /-- Used when a row omits its currency. -/
  defaultCurrency : Currency

/-- A delivered export file, read as CSV. -/
structure FocusExport where
  key : String
  billingPeriod : String
  headers : List String
  records : List (List String)

/-- The part of `fetch_since` that makes one record: header and value pairs, the last one winning
where a header occurs twice. -/
def FocusExport.rawRecord (self : FocusExport) (record : List String) : RawCostRecord where
  provider := .aws
  exportRef := self.key
  billingPeriod := self.billingPeriod
  row := .object (Json.extend []
    ((self.headers.zip record).map fun cell => (cell.1, .string cell.2)))

/-- The records of one export. -/
def FocusExport.rawRecords (self : FocusExport) : List RawCostRecord :=
  self.records.map self.rawRecord

/-! ## Columns -/

def field (row : Json) (name : String) : Except NormalizeError String :=
  match (row.get name).bind Json.asStr with
  | some value => .ok value
  | none => .error (.missingColumn name)

def optionalField (row : Json) (name : String) : Option String :=
  match ((row.get name).bind Json.asStr).map trim with
  | some value => if value.isEmpty then none else some value
  | none => none

def parseDecimal (libs : Libraries) (value column : String) : Except NormalizeError ℚ :=
  match libs.parseDecimal (trim value) with
  | some amount => .ok amount
  | none => .error (.unparseableValue column value)

def parseTimestamp (libs : Libraries) (value column : String) :
    Except NormalizeError DateTimeUtc :=
  match libs.parseFromRfc3339 (trim value) with
  | some time => .ok time
  | none => .error (.unparseableValue column value)

def parseCurrency (code : Option String) (fallback : Currency) : Currency :=
  match code.map fun s => toAsciiUppercase (trim s) with
  | some "USD" => .usd
  | some "EUR" => .eur
  | some "GBP" => .gbp
  | some "JPY" => .jpy
  | some "CHF" => .chf
  | some "CAD" => .cad
  | some "AUD" => .aud
  | some "SEK" => .sek
  | some "NOK" => .nok
  | some "DKK" => .dkk
  | some "SGD" => .sgd
  | some "INR" => .inr
  | _ => fallback

def parseChargeCategory (value : String) : Except NormalizeError ChargeCategory :=
  match toAsciiLowercase (trim value) with
  | "usage" => .ok .usage
  | "purchase" => .ok .purchase
  | "tax" => .ok .tax
  | "credit" => .ok .credit
  | "adjustment" => .ok .adjustment
  | _ => .error (.unparseableValue "ChargeCategory" value)

/-! ## Tags, identity and content -/

/-- What `strip_prefix` leaves. -/
def stripPrefix (pre s : String) : Option String :=
  if pre.toList.isPrefixOf s.toList then some (String.ofList (s.toList.drop pre.length)) else none

/-- Collects tags from both shapes: a `Tags` column that holds a JSON object, and flattened
`resourceTags/user:<key>` columns. -/
def collectTags (libs : Libraries) (row : Json) : Json :=
  let out : List (String × Json) :=
    match row.get "Tags" with
    | some (.object map) => Json.extend [] map
    | some (.string s) =>
        if (trim s).isEmpty then []
        else
          match libs.jsonFromStr s with
          | some (.object map) => Json.extend [] map
          | _ => []
    | _ => []
  match row.asObject with
  | none => .object out
  | some map =>
      .object (map.foldl
        (fun out cell =>
          match stripPrefix "resourceTags/user:" cell.1, cell.2 with
          | some stripped, .string s =>
              if (trim s).isEmpty then out else SortedMap.insertEntry stripped cell.2 out
          | _, _ => out)
        out)

/-- The columns whose values, after the billing period, make up a row's identity. -/
def identityColumns : List String :=
  ["BillingAccountId", "ChargePeriodStart", "ChargePeriodEnd", "ServiceName", "ChargeCategory",
    "ResourceId", "RegionId"]

/-- The text that `derive_external_id` hashes. -/
def identityText (row : Json) (billingPeriod : String) : String :=
  identityColumns.foldl
    (fun text name => text ++ "\x1f" ++ (optionalField row name).getD "") billingPeriod

/-- Stable identity for a FOCUS row. -/
def deriveExternalId (libs : Libraries) (row : Json) (billingPeriod : String) : String :=
  libs.sha256 (identityText row billingPeriod)

/-- Hash of the row's content, used to tell a restatement from a duplicate. -/
def contentHash (libs : Libraries) (row : Json) : String :=
  libs.sha256 (libs.jsonToString row)

/-! ## Normalizing -/

def money (libs : Libraries) (row : Json) (currency : Currency) (name : String) :
    Except NormalizeError (Money ℚ) := do
  let value ← field row name
  let amount ← parseDecimal libs value name
  pure { amount := amount, currency := currency }

/-- Maps one raw provider row onto the normalized FOCUS shape.  The clock and the new event's
identifier are arguments. -/
def normalize (libs : Libraries) (self : AwsFocusConnector) (raw : RawCostRecord)
    (now : DateTimeUtc) (newId : CostEventId) : Except NormalizeError CostEvent := do
  let row := raw.row
  -- The order is that of the source: the first step that fails is the one reported.
  let currency := parseCurrency (optionalField row "BillingCurrency") self.defaultCurrency
  let tags := collectTags libs row
  let dims ← (attributeTags libs.parseUuid tags self.rules self.ctx).mapError .attribution
  let sourceRef : SourceRef :=
    { provider := .aws
      externalId := deriveExternalId libs row raw.billingPeriod
      exportRef := raw.exportRef
      billingPeriod := raw.billingPeriod
      contentHash := contentHash libs row
      ingestedAt := now }
  let billingAccountId ← field row "BillingAccountId"
  let startText ← field row "ChargePeriodStart"
  let start ← parseTimestamp libs startText "ChargePeriodStart"
  let stopText ← field row "ChargePeriodEnd"
  let stop ← parseTimestamp libs stopText "ChargePeriodEnd"
  let billed ← money libs row currency "BilledCost"
  let effective ← money libs row currency "EffectiveCost"
  let list ← money libs row currency "ListCost"
  let serviceName ← field row "ServiceName"
  let category ← field row "ChargeCategory"
  let chargeCategory ← parseChargeCategory category
  (CostEvent.new newId billingAccountId start stop billed effective list serviceName
    (ServiceCategory.fromFocusValue ((optionalField row "ServiceCategory").getD "Other"))
    chargeCategory (optionalField row "ResourceId") (optionalField row "RegionId") tags dims
    sourceRef).mapError .costEvent

end Falkr
