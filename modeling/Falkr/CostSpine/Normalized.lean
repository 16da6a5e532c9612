import Falkr.CostSpine.Aws
import Falkr.Lib.Returning

/-!
# Normalized — what an event keeps of its row

`normalize` succeeds through a dozen steps that can fail.  `NormalizedFrom` collects what a row and
the event made of it have in common.
-/

namespace Falkr

open Lib

variable {libs : Libraries} {connector : AwsFocusConnector}

section Attribution

variable {parseUuid : String → Option Uuid} {map : List (String × Json)}
  {rules : TagAttributionRules} {ctx : AttributionContext} {dims : Dimensions}

/-- The tags and the defaults that make up the dimensions. -/
structure AttributedFrom (parseUuid : String → Option Uuid) (map : List (String × Json))
    (rules : TagAttributionRules) (ctx : AttributionContext) (dims : Dimensions) : Prop where
  tenant : dims.tenantId = ctx.tenantId
  project : ∃ found, parseId parseUuid (lookupTag map rules.projectKeys) "project id" = .ok found ∧
    required found ctx.defaultProjectId "project_id" = .ok dims.projectId
  team : ∃ found, parseId parseUuid (lookupTag map rules.teamKeys) "team id" = .ok found ∧
    required found ctx.defaultTeamId "team_id" = .ok dims.teamId
  run : ∃ found, parseId parseUuid (lookupTag map rules.runKeys) "run id" = .ok found ∧
    dims.runId = found.map DomainId.mk
  customer : ∃ found, parseId parseUuid (lookupTag map rules.customerKeys) "customer id" =
    .ok found ∧ dims.customerId = found.map DomainId.mk
  model : ∃ found, parseId parseUuid (lookupTag map rules.modelKeys) "model id" = .ok found ∧
    dims.modelId = found.map DomainId.mk
  dataset : ∃ found, parseId parseUuid (lookupTag map rules.datasetKeys) "dataset id" =
    .ok found ∧ dims.datasetId = found.map DomainId.mk
  commitment : ∃ found, parseId parseUuid (lookupTag map rules.commitmentKeys) "commitment id" =
    .ok found ∧ dims.commitmentId = found.map DomainId.mk

theorem attributedFrom_of_attributeTags
    (h : attributeTags parseUuid (.object map) rules ctx = .ok dims) :
    AttributedFrom parseUuid map rules ctx dims := by
  simp only [attributeTags, Json.asObject] at h
  rcases bind_eq_ok h with ⟨project, hproject, h⟩
  rcases bind_eq_ok h with ⟨projectId, hprojectId, h⟩
  rcases bind_eq_ok h with ⟨team, hteam, h⟩
  rcases bind_eq_ok h with ⟨teamId, hteamId, h⟩
  rcases bind_eq_ok h with ⟨runId, hrun, h⟩
  rcases bind_eq_ok h with ⟨customerId, hcustomer, h⟩
  rcases bind_eq_ok h with ⟨modelId, hmodel, h⟩
  rcases bind_eq_ok h with ⟨datasetId, hdataset, h⟩
  rcases bind_eq_ok h with ⟨commitmentId, hcommitment, h⟩
  have hdims : dims = {
      tenantId := ctx.tenantId
      projectId := projectId
      runId := runId.map DomainId.mk
      teamId := teamId
      customerId := customerId.map DomainId.mk
      modelId := modelId.map DomainId.mk
      datasetId := datasetId.map DomainId.mk
      providerId := ctx.providerId
      functionCode :=
        functionCodeFor ((lookupTag map rules.workloadKeys).map Prod.snd) runId.isSome
      commitmentId := commitmentId.map DomainId.mk } := by
    cases h
    -- Each optional dimension is set in a step of its own.
    cases runId <;> cases customerId <;> cases modelId <;> cases datasetId <;>
      cases commitmentId <;> rfl
  subst hdims
  exact
    { tenant := rfl
      project := ⟨project, hproject, hprojectId⟩
      team := ⟨team, hteam, hteamId⟩
      run := ⟨runId, hrun, rfl⟩
      customer := ⟨customerId, hcustomer, rfl⟩
      model := ⟨modelId, hmodel, rfl⟩
      dataset := ⟨datasetId, hdataset, rfl⟩
      commitment := ⟨commitmentId, hcommitment, rfl⟩ }

theorem tenantId_of_attributeTags {tags : Json}
    (h : attributeTags parseUuid tags rules ctx = .ok dims) : dims.tenantId = ctx.tenantId := by
  cases tags with
  | object map => exact (attributedFrom_of_attributeTags h).tenant
  | _ => cases h

end Attribution

/-- The currency a row is read in. -/
def rowCurrency (connector : AwsFocusConnector) (raw : RawCostRecord) : Currency :=
  parseCurrency (optionalField raw.row "BillingCurrency") connector.defaultCurrency

/-- The amount in a row's `EffectiveCost` column. -/
def rowEffectiveCost (libs : Libraries) (raw : RawCostRecord) : Option ℚ :=
  match field raw.row "EffectiveCost" with
  | .ok value => libs.parseDecimal (trim value)
  | .error _ => none

theorem money_eq_ok {row : Json} {currency : Currency} {name : String} {m : Money ℚ}
    (h : money libs row currency name = .ok m) :
    m.currency = currency ∧
      ∃ value, field row name = .ok value ∧ libs.parseDecimal (trim value) = some m.amount := by
  rcases bind_eq_ok h with ⟨value, hvalue, h⟩
  rcases bind_eq_ok h with ⟨amount, hamount, h⟩
  cases h
  refine ⟨rfl, value, hvalue, ?_⟩
  cases hparse : libs.parseDecimal (trim value) with
  | none => simp [parseDecimal, hparse] at hamount
  | some amount' => simpa [parseDecimal, hparse] using hamount

theorem new_eq_ok {id : CostEventId} {account : String} {start stop : DateTimeUtc}
    {billed effective list : Money ℚ} {service : String} {serviceCategory : ServiceCategory}
    {chargeCategory : ChargeCategory} {resourceId regionId : Option String} {tags : Json}
    {dims : Dimensions} {sourceRef : SourceRef} {event : CostEvent}
    (h : CostEvent.new id account start stop billed effective list service serviceCategory
      chargeCategory resourceId regionId tags dims sourceRef = .ok event) :
    event = ⟨id, account, start, stop, billed, effective, list, service, serviceCategory,
      chargeCategory, resourceId, regionId, tags, dims, sourceRef⟩ := by
  unfold CostEvent.new at h
  by_cases hmixed : effective.currency ≠ billed.currency ∨ list.currency ≠ billed.currency
  · simp [hmixed] at h
  · by_cases hperiod : stop.nanos ≤ start.nanos
    · simp [hmixed, hperiod] at h
    · simp only [hmixed, hperiod, if_false] at h
      exact (Except.ok.inj h).symm

/-- The cells of a row that make up an event. -/
structure ReadFrom (libs : Libraries) (connector : AwsFocusConnector) (raw : RawCostRecord)
    (event : CostEvent) : Prop where
  dims : attributeTags libs.parseUuid (collectTags libs raw.row) connector.rules connector.ctx =
    .ok event.dims
  account : field raw.row "BillingAccountId" = .ok event.billingAccountId
  start : ∃ text, field raw.row "ChargePeriodStart" = .ok text ∧
    parseTimestamp libs text "ChargePeriodStart" = .ok event.chargePeriodStart
  stop : ∃ text, field raw.row "ChargePeriodEnd" = .ok text ∧
    parseTimestamp libs text "ChargePeriodEnd" = .ok event.chargePeriodEnd
  billed : money libs raw.row (rowCurrency connector raw) "BilledCost" = .ok event.billedCost
  effective : money libs raw.row (rowCurrency connector raw) "EffectiveCost" =
    .ok event.effectiveCost
  list : money libs raw.row (rowCurrency connector raw) "ListCost" = .ok event.listCost
  service : field raw.row "ServiceName" = .ok event.serviceName
  category : ∃ text, field raw.row "ChargeCategory" = .ok text ∧
    parseChargeCategory text = .ok event.chargeCategory
  resource : event.resourceId = optionalField raw.row "ResourceId"
  region : event.regionId = optionalField raw.row "RegionId"
  provider : event.sourceRef.provider = .aws
  externalId : event.sourceRef.externalId = deriveExternalId libs raw.row raw.billingPeriod
  contentHash : event.sourceRef.contentHash = contentHash libs raw.row
  billingPeriod : event.sourceRef.billingPeriod = raw.billingPeriod

theorem readFrom_of_normalize {raw : RawCostRecord} {now : DateTimeUtc} {newId : CostEventId}
    {event : CostEvent} (h : normalize libs connector raw now newId = .ok event) :
    ReadFrom libs connector raw event := by
  unfold normalize at h
  rcases bind_eq_ok h with ⟨dims, hdims, h⟩
  rcases bind_eq_ok h with ⟨account, haccount, h⟩
  rcases bind_eq_ok h with ⟨startText, hstartText, h⟩
  rcases bind_eq_ok h with ⟨start, hstart, h⟩
  rcases bind_eq_ok h with ⟨stopText, hstopText, h⟩
  rcases bind_eq_ok h with ⟨stop, hstop, h⟩
  rcases bind_eq_ok h with ⟨billed, hbilled, h⟩
  rcases bind_eq_ok h with ⟨effective, heffective, h⟩
  rcases bind_eq_ok h with ⟨list, hlist, h⟩
  rcases bind_eq_ok h with ⟨service, hservice, h⟩
  rcases bind_eq_ok h with ⟨category, hcategory, h⟩
  rcases bind_eq_ok h with ⟨chargeCategory, hcharge, h⟩
  rcases new_eq_ok (mapError_eq_ok.1 h) with rfl
  exact
    { dims := mapError_eq_ok.1 hdims
      account := haccount
      start := ⟨startText, hstartText, hstart⟩
      stop := ⟨stopText, hstopText, hstop⟩
      billed := hbilled
      effective := heffective
      list := hlist
      service := hservice
      category := ⟨category, hcategory, hcharge⟩
      resource := rfl
      region := rfl
      provider := rfl
      externalId := rfl
      contentHash := rfl
      billingPeriod := rfl }

/-- An event that a row normalizes to. -/
structure NormalizedFrom (libs : Libraries) (connector : AwsFocusConnector) (raw : RawCostRecord)
    (event : CostEvent) : Prop where
  tenantId : event.dims.tenantId = connector.ctx.tenantId
  provider : event.sourceRef.provider = .aws
  externalId : event.sourceRef.externalId = deriveExternalId libs raw.row raw.billingPeriod
  contentHash : event.sourceRef.contentHash = contentHash libs raw.row
  currency : event.currency = rowCurrency connector raw
  effectiveCost : rowEffectiveCost libs raw = some event.effectiveCost.amount

theorem normalizedFrom_of_normalize {raw : RawCostRecord} {now : DateTimeUtc}
    {newId : CostEventId} {event : CostEvent}
    (h : normalize libs connector raw now newId = .ok event) :
    NormalizedFrom libs connector raw event := by
  have hread := readFrom_of_normalize h
  rcases money_eq_ok hread.effective with ⟨-, value, hfield, hparse⟩
  exact
    { tenantId := tenantId_of_attributeTags hread.dims
      provider := hread.provider
      externalId := hread.externalId
      contentHash := hread.contentHash
      currency := (money_eq_ok hread.billed).1
      effectiveCost := by simp [rowEffectiveCost, hfield, hparse] }

/-- The three amounts of an event are read from their columns. -/
theorem money_of_normalize {raw : RawCostRecord} {now : DateTimeUtc} {newId : CostEventId}
    {event : CostEvent} (h : normalize libs connector raw now newId = .ok event) :
    money libs raw.row (rowCurrency connector raw) "BilledCost" = .ok event.billedCost ∧
      money libs raw.row (rowCurrency connector raw) "EffectiveCost" = .ok event.effectiveCost ∧
      money libs raw.row (rowCurrency connector raw) "ListCost" = .ok event.listCost :=
  have hread := readFrom_of_normalize h
  ⟨hread.billed, hread.effective, hread.list⟩

theorem currency_of_normalize {raw : RawCostRecord} {now : DateTimeUtc} {newId : CostEventId}
    {event : CostEvent} (h : normalize libs connector raw now newId = .ok event) :
    event.currency = rowCurrency connector raw :=
  (money_eq_ok (money_of_normalize h).1).1

/-- The three amounts of an event are read from cells, in one currency. -/
theorem amounts_of_normalize {raw : RawCostRecord} {now : DateTimeUtc} {newId : CostEventId}
    {event : CostEvent} (h : normalize libs connector raw now newId = .ok event) :
    ∀ amount ∈ [event.billedCost, event.effectiveCost, event.listCost],
      amount.currency = event.currency ∧ ∃ text, libs.parseDecimal text = some amount.amount := by
  rcases money_of_normalize h with ⟨hbilled, heffective, hlist⟩
  have hread : ∀ {name : String} {amount : Money ℚ},
      money libs raw.row (rowCurrency connector raw) name = .ok amount →
      amount.currency = event.currency ∧ ∃ text, libs.parseDecimal text = some amount.amount := by
    intro name amount hamount
    rcases money_eq_ok hamount with ⟨hcurrency, value, -, hparse⟩
    exact ⟨hcurrency.trans (currency_of_normalize h).symm, _, hparse⟩
  simp only [List.forall_mem_cons, List.not_mem_nil, false_imp_iff, implies_true, and_true]
  exact ⟨hread hbilled, hread heffective, hread hlist⟩

end Falkr
