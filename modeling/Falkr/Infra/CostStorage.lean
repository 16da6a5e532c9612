import Falkr.CostSpine.Normalized
import Falkr.Infra.CostIngestion
import Falkr.Infra.CostUpserts
import Falkr.Infra.LedgerStore

/-!
# CostStorage — an event that is stored and read back

The columns keep an event's times to the microsecond and its amounts to twelve decimals, and a JSONB
column keeps numbers as numerics.  Everything else comes back as it went in: the codes parse, the
optional dimensions return where they were, and the three amounts share one currency
(`found_iff`).

How the driver reads a `NUMERIC` into a decimal, and how a number of a JSONB value is written when
it is read back, are arguments.
-/

namespace Falkr

open Lib

/-! ## Reading -/

/-- A timestamp column, read: nanoseconds since 1970-01-01. -/
def ofMicros (micros : Int) : DateTimeUtc :=
  ⟨micros * 1000 + 946684800000000000⟩

section Decode

variable (decodeNumeric : ℚ → Except String ℚ) (numberBack : String → String)

def badColumn (what value : String) : StoreError :=
  .backend ("stored " ++ what ++ " is not a recognized value: " ++ value)

def readMoney (currency : Currency) (column : ℚ) : Except StoreError (Money ℚ) :=
  match decodeNumeric column with
  | .ok amount => .ok { amount := amount, currency := currency }
  | .error e => .error (.backend e)

/-- A stored code and what it stands for. -/
def readCode {α : Type} (parse : String → Option α) (what raw : String) : Except StoreError α :=
  match parse raw with
  | some value => .ok value
  | none => .error (badColumn what raw)

/-- `if let Some(id) = … { dims = dims.with_…(id) }`. -/
def withOptional {α : Type} (attach : Dimensions → α → Dimensions) (id : Option α)
    (dims : Dimensions) : Dimensions :=
  match id with
  | some id => attach dims id
  | none => dims

def decodeDims (row : CostRow) (functionCode : FunctionCode) : Dimensions :=
  let dims := Dimensions.new row.dims.tenantId row.dims.projectId row.dims.teamId
    row.dims.providerId functionCode
  let dims := withOptional Dimensions.withRun row.dims.runId dims
  let dims := withOptional Dimensions.withCustomer row.dims.customerId dims
  let dims := withOptional Dimensions.withModel row.dims.modelId dims
  let dims := withOptional Dimensions.withDataset row.dims.datasetId dims
  withOptional Dimensions.withCommitment row.dims.commitmentId dims

/-- `decode_event`: rebuilds the event of a row, under the stored id. -/
def decodeEvent (row : CostRow) : Except StoreError CostEvent := do
  let currency ← readCode Currency.fromCode "currency" row.currency
  -- The column `function_code` holds the code's text.
  let functionCode ← readCode FunctionCode.fromStored "function_code" row.dims.functionCode.asStr
  let provider ← readCode ProviderKind.fromStored "source_provider" row.sourceProvider
  let chargeCategory ← readCode ChargeCategory.fromStored "charge_category" row.chargeCategory
  let serviceCategory ← readCode ServiceCategory.fromStored "service_category" row.serviceCategory
  let billedCost ← readMoney decodeNumeric currency row.billedCost
  let effectiveCost ← readMoney decodeNumeric currency row.effectiveCost
  let listCost ← readMoney decodeNumeric currency row.listCost
  pure
    { id := row.id
      billingAccountId := row.billingAccountId
      chargePeriodStart := ofMicros row.chargePeriodStart
      chargePeriodEnd := ofMicros row.chargePeriodEnd
      billedCost := billedCost
      effectiveCost := effectiveCost
      listCost := listCost
      serviceName := row.serviceName
      serviceCategory := serviceCategory
      chargeCategory := chargeCategory
      resourceId := row.resourceId
      regionId := row.regionId
      tags := row.tags.mapNumbers numberBack
      dims := decodeDims row functionCode
      sourceRef :=
        { provider := provider
          externalId := row.sourceExternalId
          exportRef := row.sourceExportRef
          billingPeriod := row.sourceBillingPeriod
          contentHash := row.sourceContentHash
          ingestedAt := ofMicros row.sourceIngestedAt } }

/-- `find_by_external_id`, under the tenant's row-level security. -/
def findByExternalId (table : List CostRow) (tenantId : TenantId) (provider : ProviderKind)
    (externalId : String) (env : ReadEnv) : Except StoreError (Option CostEvent) :=
  match env.beginError with
  | some e => .error (.backend e)
  | none =>
      match env.selectError with
      | some e => .error (.backend e)
      | none =>
          match env.commitError with
          | some e => .error (.backend e)
          | none =>
              match findRow (tenantId, provider.asStr, externalId) table with
              | none => .ok none
              | some row => (decodeEvent decodeNumeric numberBack row).map some

end Decode

/-! ## Columns -/

/-- The event with its times cut to the microsecond. -/
def CostEvent.atMicros (self : CostEvent) : CostEvent :=
  { self with
    chargePeriodStart := ofMicros (toMicros self.chargePeriodStart)
    chargePeriodEnd := ofMicros (toMicros self.chargePeriodEnd)
    sourceRef :=
      { self.sourceRef with ingestedAt := ofMicros (toMicros self.sourceRef.ingestedAt) } }

/-- An amount of at most twelve decimals. -/
def WithinScale (amount : ℚ) : Prop :=
  ∃ k : ℤ, amount = k / 10 ^ 12

/-- A column takes an amount as a whole number of its smallest units, at most half a unit away. -/
theorem exists_units_of_toNumeric {amount value : ℚ} (h : toNumeric amount = some value) :
    ∃ n : ℤ, 0 ≤ n ∧ (n : ℚ) ≤ |amount| * 10 ^ 12 + 1 / 2 ∧ n < 10 ^ 38 ∧
      value = (if amount < 0 then -n else n : ℤ) / 10 ^ 12 := by
  refine ⟨⌊|amount| * 10 ^ 12 + 1 / 2⌋, Int.floor_nonneg.2 (by positivity), Int.floor_le _, ?_⟩
  unfold toNumeric at h
  generalize ⌊|amount| * 10 ^ 12 + 1 / 2⌋ = n at h ⊢
  by_cases hlt : n < 10 ^ 38
  · rw [if_pos hlt, Option.some.injEq] at h
    exact ⟨hlt, h.symm⟩
  · rw [if_neg hlt] at h
    cases h

/-- Among the amounts that it takes, a column keeps those of at most twelve decimals and no
others. -/
theorem toNumeric_eq_self_iff {amount value : ℚ} (h : toNumeric amount = some value) :
    value = amount ↔ WithinScale amount := by
  constructor
  · rintro rfl
    rcases exists_units_of_toNumeric h with ⟨n, -, -, -, hvalue⟩
    exact ⟨_, hvalue⟩
  · rintro ⟨k, rfl⟩
    have hbound : |k| < 10 ^ 38 := by
      by_contra hlarge
      simp only [toNumeric, round_units, if_neg hlarge] at h
      cases h
    have hlt : |(k : ℚ) / 10 ^ 12| < 10 ^ 26 := by
      have hcast : ((|k| : ℤ) : ℚ) < ((10 ^ 38 : ℤ) : ℚ) := by exact_mod_cast hbound
      rw [← abs_units] at hcast
      push_cast at hcast
      linarith
    rw [toNumeric_of_withinPrecision ⟨⟨k, rfl⟩, hlt⟩, Option.some.injEq] at h
    exact h.symm

/-- What a column makes of a decimal is one again. -/
theorem exists_decimal_of_toNumeric {d : Decimal} {value : ℚ}
    (h : toNumeric d.toRat = some value) : ∃ d' : Decimal, d'.toRat = value := by
  by_cases hscale : d.scale ≤ 12
  · have hwithin : WithinScale d.toRat := by
      refine ⟨d.mantissa * 10 ^ (12 - d.scale), ?_⟩
      have hpow : (10 : ℚ) ^ 12 = 10 ^ d.scale * 10 ^ (12 - d.scale) := by
        rw [← pow_add, Nat.add_sub_cancel' hscale]
      rw [Decimal.toRat, hpow]
      push_cast
      field_simp
    exact ⟨d, ((toNumeric_eq_self_iff h).2 hwithin).symm⟩
  -- With more decimals than the column has, the value is read at the scale of the column.
  · rcases exists_units_of_toNumeric h with ⟨n, hnonneg, hle, -, hvalue⟩
    -- At least one digit is dropped, so the rounded mantissa is no larger than the decimal's.
    have hdropped : |d.toRat| * 10 ^ 12 ≤ (d.mantissa.natAbs : ℚ) / 10 := by
      have hpow : (10 : ℚ) ^ 13 ≤ 10 ^ d.scale := pow_le_pow_right₀ (by norm_num) (by omega)
      have hmantissa : (0 : ℚ) ≤ d.mantissa.natAbs := Nat.cast_nonneg _
      have habs : |d.toRat| = (d.mantissa.natAbs : ℚ) / 10 ^ d.scale := by
        rw [Decimal.toRat, abs_div, abs_of_pos d.pow_scale_pos, Nat.cast_natAbs, Int.cast_abs]
      rw [habs, div_mul_eq_mul_div, div_le_div_iff₀ d.pow_scale_pos (by norm_num)]
      nlinarith
    have hmantissa : 10 * n ≤ (d.mantissa.natAbs : ℤ) + 5 := by
      have hcast : ((10 * n : ℤ) : ℚ) ≤ (((d.mantissa.natAbs : ℤ) + 5 : ℤ) : ℚ) := by
        simp only [Int.cast_mul, Int.cast_add, Int.cast_natCast, Int.cast_ofNat]
        linarith
      exact_mod_cast hcast
    have hbound := d.mantissa_lt
    have hlt : (if d.toRat < 0 then -n else n : ℤ).natAbs < Decimal.mantissaBound := by
      split_ifs <;> omega
    exact ⟨⟨_, 12, hlt, by decide⟩, hvalue.symm⟩

/-! ## Round trip -/

section RoundTrip

variable {decodeNumeric : ℚ → Except String ℚ} {numberBack : String → String}

/-- The optional dimensions come back where they were. -/
theorem decodeDims_eq (row : CostRow) : decodeDims row row.dims.functionCode = row.dims := by
  rcases hdims : row.dims with ⟨tenantId, projectId, runId, teamId, customerId, modelId, datasetId,
    providerId, functionCode, commitmentId⟩
  -- The reader sets each optional dimension only if its column is not NULL.
  cases runId <;> cases customerId <;> cases modelId <;> cases datasetId <;> cases commitmentId <;>
    simp [decodeDims, hdims, withOptional, Dimensions.new, Dimensions.withRun,
      Dimensions.withCustomer, Dimensions.withModel, Dimensions.withDataset,
      Dimensions.withCommitment]

/-- A row is read as its event, with what became of the amounts and of the numbers in the tags. -/
theorem decodeEvent_row (event : CostEvent) {billed effective list : ℚ}
    (hbilled : decodeNumeric billed = .ok billed)
    (heffective : decodeNumeric effective = .ok effective) (hlist : decodeNumeric list = .ok list) :
    decodeEvent decodeNumeric numberBack (event.row billed effective list) =
      .ok
        { event.atMicros with
          billedCost := { amount := billed, currency := event.currency }
          effectiveCost := { amount := effective, currency := event.currency }
          listCost := { amount := list, currency := event.currency }
          tags := event.tags.mapNumbers numberBack } := by
  have hcurrency : Currency.fromCode (event.row billed effective list).currency =
      some event.currency := Currency.fromCode_code event.currency
  have hprovider : ProviderKind.fromStored (event.row billed effective list).sourceProvider =
      some event.sourceRef.provider := ProviderKind.fromStored_asStr _
  have hcharge : ChargeCategory.fromStored (event.row billed effective list).chargeCategory =
      some event.chargeCategory := ChargeCategory.fromStored_asStr _
  have hservice : ServiceCategory.fromStored (event.row billed effective list).serviceCategory =
      some event.serviceCategory := ServiceCategory.fromStored_asStr _
  have hmoney : ∀ {amount : ℚ}, decodeNumeric amount = .ok amount →
      readMoney decodeNumeric event.currency amount =
        .ok { amount := amount, currency := event.currency } := by
    intro amount hamount
    rw [readMoney, hamount]
  simp only [decodeEvent, readCode, hcurrency, FunctionCode.fromStored_asStr, hprovider, hcharge,
    hservice, bind, Except.bind, decodeDims_eq]
  rw [show (event.row billed effective list).billedCost = billed from rfl, hmoney hbilled,
    show (event.row billed effective list).effectiveCost = effective from rfl, hmoney heffective,
    show (event.row billed effective list).listCost = list from rfl, hmoney hlist]
  rfl

/-- What is read is the event exactly if amounts and tags are. -/
theorem decoded_eq_iff {event : CostEvent} {billed effective list : ℚ} {tags : Json}
    (heffective : event.effectiveCost.currency = event.currency)
    (hlist : event.listCost.currency = event.currency) :
    { event.atMicros with
        billedCost := { amount := billed, currency := event.currency }
        effectiveCost := { amount := effective, currency := event.currency }
        listCost := { amount := list, currency := event.currency }
        tags := tags } = event.atMicros ↔
      billed = event.billedCost.amount ∧ effective = event.effectiveCost.amount ∧
        list = event.listCost.amount ∧ tags = event.tags := by
  constructor
  · intro h
    exact ⟨congrArg (fun e : CostEvent => e.billedCost.amount) h,
      congrArg (fun e : CostEvent => e.effectiveCost.amount) h,
      congrArg (fun e : CostEvent => e.listCost.amount) h, congrArg CostEvent.tags h⟩
  · rintro ⟨rfl, rfl, rfl, rfl⟩
    -- One column holds the currency of all three amounts.
    have hsecond : (⟨event.effectiveCost.amount, event.currency⟩ : Money ℚ) =
        event.effectiveCost := by rw [← heffective]
    have hthird : (⟨event.listCost.amount, event.currency⟩ : Money ℚ) = event.listCost := by
      rw [← hlist]
    rw [hsecond, hthird]
    rfl

/-- The three amounts have at most twelve decimals. -/
def KeepsAmounts (event : CostEvent) : Prop :=
  ∀ amount ∈ [event.billedCost, event.effectiveCost, event.listCost], WithinScale amount.amount

/-- An upsert of one event into an empty store puts its row there. -/
theorem upsert_one {event : CostEvent} {env : UpsertEnv} {outcome : UpsertOutcome}
    (h : (upsert [] [event] env).2 = .ok outcome) :
    ∃ row, encodeEvent event = .ok row ∧ (upsert [] [event] env).1 = [row] := by
  rcases upsert_cases [] [event] env with ⟨table, outcome', hcall, -, hloop⟩ | ⟨e, hcall⟩
  · rcases upsertEvents_cons_eq_ok.1 hloop with ⟨-, row, table₁, step, hrow, hstep, hdone⟩
    have hpair : table₁ = table ∧ UpsertOutcome.default.count step = outcome' := by
      simpa [upsertEvents] using hdone
    refine ⟨row, hrow, ?_⟩
    rw [hcall]
    rcases upsertRow_cases hstep with ⟨existing, hfind, -⟩ | ⟨existing, hfind, -⟩ | ⟨-, -, htable, -⟩
    · cases hfind
    · cases hfind
    · exact hpair.1 ▸ htable
  · rw [hcall] at h
    cases h

/-- An event is found again as it was stored exactly if its amounts have at most twelve decimals and
the numbers in its tags are written as a JSONB column writes them. -/
theorem found_iff {libs : Libraries} {connector : AwsFocusConnector} {raw : RawCostRecord}
    {now : DateTimeUtc} {newId : CostEventId} {event : CostEvent}
    (hparse : ∀ text amount, libs.parseDecimal text = some amount →
      ∃ d : Decimal, d.toRat = amount)
    (hdecode : ∀ d : Decimal, decodeNumeric d.toRat = .ok d.toRat)
    (hevent : normalize libs connector raw now newId = .ok event) {env : UpsertEnv}
    {outcome : UpsertOutcome} (hupsert : (upsert [] [event] env).2 = .ok outcome) :
    findByExternalId decodeNumeric numberBack (upsert [] [event] env).1 event.dims.tenantId
        event.sourceRef.provider event.sourceRef.externalId ReadEnv.ok =
          .ok (some event.atMicros) ↔
      KeepsAmounts event ∧ event.tags.AllNumbers fun text => numberBack text = text := by
  rcases upsert_one hupsert with ⟨row, hrow, htable⟩
  rcases encodeEvent_eq_ok.1 hrow with ⟨-, -, billed, effective, list, hamounts, rfl⟩
  have hcells := amounts_of_normalize hevent
  simp only [List.forall_mem_cons, List.not_mem_nil, false_imp_iff, implies_true, and_true] at hcells
  rcases hcells with ⟨⟨-, text, htext⟩, ⟨heffective, text', htext'⟩, hlist, text'', htext''⟩
  -- What the columns hold are decimals, so they are read exactly.
  have hread : ∀ {text : String} {amount value : ℚ}, libs.parseDecimal text = some amount →
      toNumeric amount = some value → decodeNumeric value = .ok value := by
    intro text amount value hcell hvalue
    rcases hparse text amount hcell with ⟨d, rfl⟩
    rcases exists_decimal_of_toNumeric hvalue with ⟨d', rfl⟩
    exact hdecode d'
  have hfind : findRow (event.dims.tenantId, event.sourceRef.provider.asStr,
      event.sourceRef.externalId) [event.row billed effective list] =
        some (event.row billed effective list) := by
    simp [findRow, CostRow.identity, CostEvent.row]
  have hfound : findByExternalId decodeNumeric numberBack [event.row billed effective list]
      event.dims.tenantId event.sourceRef.provider event.sourceRef.externalId ReadEnv.ok =
        (decodeEvent decodeNumeric numberBack (event.row billed effective list)).map some := by
    simp [findByExternalId, ReadEnv.ok, hfind]
  rw [htable, hfound, decodeEvent_row event (hread htext hamounts.billed)
    (hread htext' hamounts.effective) (hread htext'' hamounts.list)]
  simp only [Except.map, Except.ok.injEq, Option.some.injEq]
  rw [decoded_eq_iff heffective hlist, toNumeric_eq_self_iff hamounts.billed,
    toNumeric_eq_self_iff hamounts.effective, toNumeric_eq_self_iff hamounts.list,
    Json.mapNumbers_eq_iff]
  simp [KeepsAmounts, and_assoc]

end RoundTrip

/-! ## Half a unit -/

/-- A line at a price per token. -/
def tokenText : String :=
  "\x7b\"BilledCost\":\"0.0000000000005\",\"BillingAccountId\":\"111122223333\"," ++
    "\"ChargeCategory\":\"Usage\",\"ChargePeriodEnd\":\"2026-08-01T01:00:00Z\"," ++
    "\"ChargePeriodStart\":\"2026-08-01T00:00:00Z\",\"EffectiveCost\":\"0.0000000000005\"," ++
    "\"ListCost\":\"0.0000000000005\",\"ResourceId\":\"i-1\",\"ServiceName\":\"Amazon EC2\"," ++
    "\"SkuId\":\"Tokens\"\x7d"

/-- The libraries on the texts of two lines. -/
def tokenLibraries : Libraries :=
  { sampleLibraries with
    sha256 := fun text =>
      if text = tokenText then
        "9a3e88530bdd12a9451ad235643e8a5cc1c89d7dae80377d23edca5bdd728092"
      else sampleLibraries.sha256 text
    parseDecimal := fun text => [("0.0000000000005", (5 / 10 ^ 13 : ℚ)), ("10.00", 10)].lookup text }

def normalizeToken (cost skuId : String) : Except NormalizeError CostEvent :=
  normalize tokenLibraries sampleConnector ((twoLineExport "i-1").rawRecord (line cost "i-1" skuId))
    ⟨0⟩ ⟨1⟩

def tokenEvent : CostEvent :=
  (normalizeToken "0.0000000000005" "Tokens").toOption.get (by decide +kernel)

def boxEvent : CostEvent :=
  (normalizeToken "10.00" "BoxUsage").toOption.get (by decide +kernel)

/-- Half of the smallest unit of a column is rounded up to one. -/
theorem not_found_tokenEvent :
    normalizeToken "0.0000000000005" "Tokens" = .ok tokenEvent ∧
      (upsert [] [tokenEvent] .ok).2 = .ok { inserted := 1, restated := 0, duplicate := 0 } ∧
      tokenEvent.billedCost.amount = 5 / 10 ^ 13 ∧
      (findByExternalId .ok id (upsert [] [tokenEvent] .ok).1 tokenEvent.dims.tenantId
        tokenEvent.sourceRef.provider tokenEvent.sourceRef.externalId .ok).map
          (Option.map fun found => found.billedCost.amount) = .ok (some (1 / 10 ^ 12)) ∧
      findByExternalId .ok id (upsert [] [tokenEvent] .ok).1 tokenEvent.dims.tenantId
        tokenEvent.sourceRef.provider tokenEvent.sourceRef.externalId .ok ≠
          .ok (some tokenEvent.atMicros) := by
  have hamount : tokenEvent.billedCost.amount = 5 / 10 ^ 13 := by decide +kernel
  have hread : (findByExternalId .ok id (upsert [] [tokenEvent] .ok).1 tokenEvent.dims.tenantId
      tokenEvent.sourceRef.provider tokenEvent.sourceRef.externalId .ok).map
        (Option.map fun found => found.billedCost.amount) = .ok (some (1 / 10 ^ 12)) := by
    decide +kernel
  refine ⟨eq_ok_get _, by decide +kernel, hamount, hread, ?_⟩
  intro hfound
  rw [hfound] at hread
  have hsame : (5 / 10 ^ 13 : ℚ) = 1 / 10 ^ 12 := by
    rw [← hamount]
    exact Option.some.inj (Except.ok.inj hread)
  norm_num at hsame

/-- The texts of the sample lines are decimals. -/
theorem exists_decimal_of_tokenLibraries (text : String) (amount : ℚ)
    (h : tokenLibraries.parseDecimal text = some amount) : ∃ d : Decimal, d.toRat = amount := by
  by_cases htoken : text = "0.0000000000005"
  · cases htoken
    cases (Option.some.inj h : (5 / 10 ^ 13 : ℚ) = amount)
    exact ⟨⟨5, 13, by decide, by decide⟩, by norm_num [Decimal.toRat]⟩
  · by_cases hbox : text = "10.00"
    · cases hbox
      cases (Option.some.inj h : (10 : ℚ) = amount)
      exact ⟨⟨10, 0, by decide, by decide⟩, by norm_num [Decimal.toRat]⟩
    · simp [tokenLibraries, List.lookup_cons, beq_false_of_ne htoken, beq_false_of_ne hbox] at h

theorem found_boxEvent :
    findByExternalId .ok id (upsert [] [boxEvent] .ok).1 boxEvent.dims.tenantId
      boxEvent.sourceRef.provider boxEvent.sourceRef.externalId .ok =
        .ok (some boxEvent.atMicros) := by
  have hnormalize : normalizeToken "10.00" "BoxUsage" = .ok boxEvent := eq_ok_get _
  have hstored : (upsert [] [boxEvent] .ok).2 =
      .ok { inserted := 1, restated := 0, duplicate := 0 } := by
    decide +kernel
  have hamounts : ∀ amount ∈ [boxEvent.billedCost, boxEvent.effectiveCost, boxEvent.listCost],
      amount.amount = 10 := by
    decide +kernel
  refine (found_iff exists_decimal_of_tokenLibraries (fun _ => rfl) hnormalize
    hstored).2 ⟨?_, Json.allNumbers_of_forall (fun _ => rfl) _⟩
  intro amount hmem
  exact ⟨10 * 10 ^ 12, by rw [hamounts amount hmem]; norm_num⟩

end Falkr
