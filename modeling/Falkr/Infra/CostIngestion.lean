import Falkr.CostSpine.Normalized
import Falkr.Infra.CostUpserts
import Mathlib.Data.Set.Function

/-!
# CostIngestion — one export, from its rows to the store

The rows of an export are normalized one by one and upserted in one call.  The upsert key is a hash
of eight values of a row only (`identityText`), so two rows that agree in these are one event to the
store, and the second is taken for a restatement of the first.
-/

namespace Falkr

open Lib

/-! ## Storing one event -/

/-- An amount that `NUMERIC(38, 12)` keeps as it is. -/
def WithinPrecision (amount : ℚ) : Prop :=
  (∃ k : ℤ, amount = k / 10 ^ 12) ∧ |amount| < 10 ^ 26

theorem abs_units (k : ℤ) : |(k : ℚ) / 10 ^ 12| * 10 ^ 12 = ((|k| : ℤ) : ℚ) := by
  rw [abs_div, abs_of_pos (by positivity : (0 : ℚ) < 10 ^ 12), div_mul_cancel₀ _ (by positivity),
    ← Int.cast_abs]

/-- A whole number of units is rounded to itself. -/
theorem round_units (k : ℤ) : ⌊|(k : ℚ) / 10 ^ 12| * 10 ^ 12 + 1 / 2⌋ = |k| := by
  rw [abs_units, Int.floor_eq_iff]
  constructor <;> linarith

theorem toNumeric_of_withinPrecision {amount : ℚ} (h : WithinPrecision amount) :
    toNumeric amount = some amount := by
  rcases h with ⟨⟨k, rfl⟩, hlt⟩
  have hbound : |k| < 10 ^ 38 := by
    have hcast : ((|k| : ℤ) : ℚ) < ((10 ^ 38 : ℤ) : ℚ) := by
      rw [← abs_units]
      push_cast
      linarith
    exact_mod_cast hcast
  -- Rounding is of the absolute value, so the sign is put back by cases.
  simp only [toNumeric, round_units, if_pos hbound]
  by_cases hneg : (k : ℚ) / 10 ^ 12 < 0
  · have hk : (k : ℚ) < 0 := by
      by_contra hk
      exact absurd hneg (not_lt.2 (div_nonneg (not_lt.1 hk) (by positivity)))
    have habs : |k| = -k := abs_of_neg (by exact_mod_cast hk)
    simp [hneg, habs]
  · have hk : (0 : ℚ) ≤ k := by
      by_contra hk
      exact hneg (div_neg_of_neg_of_pos (not_le.1 hk) (by positivity))
    have habs : |k| = k := abs_of_nonneg (by exact_mod_cast hk)
    simp [hneg, habs]

/-- The three amounts of an event are within the column precision. -/
def AmountsWithin (event : CostEvent) : Prop :=
  WithinPrecision event.billedCost.amount ∧ WithinPrecision event.effectiveCost.amount ∧
    WithinPrecision event.listCost.amount

/-- The columns take the event: no text of it contains U+0000, and its period is still positive at
the microsecond. -/
def Storable (event : CostEvent) : Prop :=
  textsOk event = true ∧ toMicros event.chargePeriodStart < toMicros event.chargePeriodEnd

instance (event : CostEvent) : Decidable (Storable event) :=
  inferInstanceAs (Decidable (_ ∧ _))

/-- What a row keeps of the event it was bound from. -/
structure EncodedFrom (event : CostEvent) (row : CostRow) : Prop where
  id : row.id = event.id
  identity : row.identity =
    (event.dims.tenantId, event.sourceRef.provider.asStr, event.sourceRef.externalId)
  contentHash : row.sourceContentHash = event.sourceRef.contentHash
  currency : row.currency = event.currency.code
  effectiveCost : row.effectiveCost = event.effectiveCost.amount

/-- Within the precision the columns take the amounts as they are. -/
theorem AmountsWithin.amounts {event : CostEvent} (h : AmountsWithin event) :
    Amounts event event.billedCost.amount event.effectiveCost.amount event.listCost.amount where
  billed := toNumeric_of_withinPrecision h.1
  effective := toNumeric_of_withinPrecision h.2.1
  list := toNumeric_of_withinPrecision h.2.2

theorem encodeEvent_iff {event : CostEvent} (h : AmountsWithin event) :
    Storable event ↔ ∃ row, encodeEvent event = .ok row := by
  constructor
  · rintro ⟨htexts, hperiod⟩
    exact ⟨_, encodeEvent_eq_ok.2 ⟨htexts, hperiod, _, _, _, h.amounts, rfl⟩⟩
  · rintro ⟨row, hrow⟩
    rcases encodeEvent_eq_ok.1 hrow with ⟨htexts, hperiod, -⟩
    exact ⟨htexts, hperiod⟩

theorem encodedFrom_of_encodeEvent {event : CostEvent} {row : CostRow} (h : AmountsWithin event)
    (hrow : encodeEvent event = .ok row) : EncodedFrom event row := by
  rcases encodeEvent_eq_ok.1 hrow with ⟨-, -, billed, effective, list, hamounts, rfl⟩
  have hkept : effective = event.effectiveCost.amount :=
    Option.some.inj (hamounts.effective.symm.trans h.amounts.effective)
  exact ⟨rfl, rfl, rfl, rfl, hkept⟩

/-! ## The loop -/

/-- The rows of one tenant. -/
def storedOf (tenantId : TenantId) (table : List CostRow) : List CostRow :=
  table.filter fun row => row.dims.tenantId = tenantId

theorem upsertRow_of_new {table : List CostRow} {row : CostRow}
    (hidentity : ∀ other ∈ table, other.identity ≠ row.identity)
    (hid : ∀ other ∈ table, other.id ≠ row.id) :
    upsertRow table row = .ok (table ++ [row], .inserted) := by
  have hfind : (table.find? fun existing => existing.identity = row.identity) = none := by
    simpa using hidentity
  have hfresh : ¬∃ other ∈ table, other.id = row.id := by simpa using hid
  simp [upsertRow, hfind, hfresh]

/-- Rows that may be appended: neither key nor id occurs in the table or twice. -/
structure Fresh (table rows : List CostRow) : Prop where
  identity : ∀ other ∈ table, ∀ row ∈ rows, other.identity ≠ row.identity
  identity_nodup : (rows.map CostRow.identity).Nodup
  id : ∀ other ∈ table, ∀ row ∈ rows, other.id ≠ row.id
  id_nodup : (rows.map CostRow.id).Nodup

theorem Fresh.tail {table rows : List CostRow} {row : CostRow}
    (h : Fresh table (row :: rows)) : Fresh (table ++ [row]) rows where
  identity := by
    intro other hother later hlater
    rcases List.mem_append.1 hother with hmem | hmem
    · exact h.identity other hmem later (List.mem_cons_of_mem _ hlater)
    · rw [List.mem_singleton.1 hmem]
      intro heq
      exact (List.nodup_cons.1 h.identity_nodup).1 (heq ▸ List.mem_map_of_mem hlater)
  identity_nodup := (List.nodup_cons.1 h.identity_nodup).2
  id := by
    intro other hother later hlater
    rcases List.mem_append.1 hother with hmem | hmem
    · exact h.id other hmem later (List.mem_cons_of_mem _ hlater)
    · rw [List.mem_singleton.1 hmem]
      intro heq
      exact (List.nodup_cons.1 h.id_nodup).1 (heq ▸ List.mem_map_of_mem hlater)
  id_nodup := (List.nodup_cons.1 h.id_nodup).2

/-- Events under new keys are appended one by one. -/
theorem upsertEvents_of_fresh {events : List CostEvent} {rows : List CostRow}
    (h : List.Forall₂ (fun event row => encodeEvent event = .ok row) events rows) :
    ∀ (pass : Nat) (table : List CostRow) (outcome : UpsertOutcome), Fresh table rows →
      ∃ outcome', upsertEvents UpsertEnv.ok events pass table outcome =
        .ok (table ++ rows, outcome') := by
  induction h with
  | nil =>
      intro pass table outcome _
      exact ⟨outcome, by simp [upsertEvents]⟩
  | @cons event row events rows hrow _ ih =>
      intro pass table outcome hfresh
      have hnew : upsertRow table row = .ok (table ++ [row], .inserted) :=
        upsertRow_of_new (fun other hmem => hfresh.identity other hmem row (by simp))
          fun other hmem => hfresh.id other hmem row (by simp)
      rcases ih (pass + 1) (table ++ [row]) (outcome.count .inserted) hfresh.tail with
        ⟨outcome', hloop⟩
      refine ⟨outcome', ?_⟩
      have hsplit : table ++ row :: rows = (table ++ [row]) ++ rows := by simp
      rw [hsplit, ← hloop]
      simp [upsertEvents, UpsertEnv.ok, hrow, Except.bind, hnew]

/-- A loop that ends has encoded every event. -/
theorem encodes_of_upsertEvents :
    ∀ {events : List CostEvent} {pass : Nat} {table : List CostRow} {outcome : UpsertOutcome}
      {result : List CostRow × UpsertOutcome},
      upsertEvents UpsertEnv.ok events pass table outcome = .ok result →
      ∀ event ∈ events, ∃ row, encodeEvent event = .ok row := by
  intro events
  induction events with
  | nil => simp
  | cons event events ih =>
      intro pass table outcome result h
      rcases upsertEvents_cons_eq_ok.1 h with ⟨-, row, table₁, step, hrow, -, hrest⟩
      exact List.forall_mem_cons.2 ⟨⟨row, hrow⟩, ih hrest⟩

theorem map_identity_storedOf (tenantId : TenantId) (table : List CostRow) :
    (storedOf tenantId table).map CostRow.identity =
      (table.map CostRow.identity).filter fun key => key.1 = tenantId := by
  rw [storedOf, List.filter_map]
  rfl

/-- The statement leaves the unique index in order. -/
theorem nodup_identity_of_upsertRow {table table' : List CostRow} {row : CostRow}
    {result : UpsertResult} {tenantId : TenantId}
    (hnodup : ((storedOf tenantId table).map CostRow.identity).Nodup)
    (h : upsertRow table row = .ok (table', result)) :
    ((storedOf tenantId table').map CostRow.identity).Nodup := by
  rw [map_identity_storedOf] at *
  rcases upsertRow_cases h with ⟨-, -, -, rfl, -⟩ | ⟨-, -, -, rfl, -⟩ | ⟨hfind, -, rfl, -⟩
  · exact hnodup
  · rwa [map_identity_restate]
  · have hnew : ∀ other ∈ table, other.identity ≠ row.identity := by simpa [findRow] using hfind
    rw [List.map_append, List.filter_append, List.nodup_append]
    refine ⟨hnodup, List.Nodup.filter _ (by simp), ?_⟩
    intro key hkey key' hkey' heq
    rcases List.mem_map.1 (List.mem_of_mem_filter hkey) with ⟨other, hmem, rfl⟩
    have hrow : key' = row.identity := by simpa using List.mem_of_mem_filter hkey'
    exact hnew other hmem (heq.trans hrow)

theorem nodup_identity_of_upsertEvents (tenantId : TenantId) :
    ∀ {events : List CostEvent} {pass : Nat} {table table' : List CostRow}
      {outcome outcome' : UpsertOutcome},
      ((storedOf tenantId table).map CostRow.identity).Nodup →
      upsertEvents UpsertEnv.ok events pass table outcome = .ok (table', outcome') →
      ((storedOf tenantId table').map CostRow.identity).Nodup := by
  intro events
  induction events with
  | nil =>
      intro pass table table' outcome outcome' hnodup h
      have hpair : table = table' ∧ outcome = outcome' := by simpa [upsertEvents] using h
      exact hpair.1 ▸ hnodup
  | cons event events ih =>
      intro pass table table' outcome outcome' hnodup h
      rcases upsertEvents_cons_eq_ok.1 h with ⟨-, row, table₁, step, -, hupsert, hrest⟩
      exact ih (nodup_identity_of_upsertRow hnodup hupsert) hrest

/-! ## One export -/

section Ingest

variable (libs : Libraries) (connector : AwsFocusConnector)

/-- A stored row that carries what an export row says. -/
structure Carries (raw : RawCostRecord) (row : CostRow) : Prop where
  provider : row.sourceProvider = ProviderKind.aws.asStr
  externalId : row.sourceExternalId = deriveExternalId libs raw.row raw.billingPeriod
  contentHash : row.sourceContentHash = contentHash libs raw.row
  currency : row.currency = (rowCurrency connector raw).code
  effectiveCost : rowEffectiveCost libs raw = some row.effectiveCost

/-- The sum of the `EffectiveCost` column over the rows in a currency. -/
def exportTotal (currency : Currency) (raws : List RawCostRecord) : ℚ :=
  ((raws.filter fun raw => rowCurrency connector raw = currency).map
    fun raw => (rowEffectiveCost libs raw).getD 0).sum

/-- `SUM(effective_cost)` over the rows in a currency. -/
def storedTotal (currency : Currency) (rows : List CostRow) : ℚ :=
  ((rows.filter fun row => row.currency = currency.code).map CostRow.effectiveCost).sum

/-- The upsert leaves exactly one stored row for each row of the export, and the totals agree. -/
def Ingested (delivered : FocusExport) (events : List CostEvent) (table : List CostRow) : Prop :=
  (∃ outcome, (upsert table events UpsertEnv.ok).2 = .ok outcome) ∧
    List.Forall₂ (Carries libs connector) delivered.rawRecords
      (storedOf connector.ctx.tenantId (upsert table events UpsertEnv.ok).1) ∧
    ∀ currency,
      storedTotal currency (storedOf connector.ctx.tenantId (upsert table events UpsertEnv.ok).1) =
        exportTotal libs connector currency delivered.rawRecords

variable {libs connector}

theorem carries_of_encoded {raw : RawCostRecord} {event : CostEvent} {row : CostRow}
    (hevent : NormalizedFrom libs connector raw event) (hrow : EncodedFrom event row) :
    Carries libs connector raw row := by
  have hidentity := hrow.identity
  simp only [CostRow.identity, Prod.mk.injEq] at hidentity
  exact
    { provider := by rw [hidentity.2.1, hevent.provider]
      externalId := by rw [hidentity.2.2, hevent.externalId]
      contentHash := by rw [hrow.contentHash, hevent.contentHash]
      currency := by rw [hrow.currency, hevent.currency]
      effectiveCost := by rw [hevent.effectiveCost, hrow.effectiveCost] }

theorem storedTotal_of_carries {raws : List RawCostRecord} {rows : List CostRow}
    (h : List.Forall₂ (Carries libs connector) raws rows) (currency : Currency) :
    storedTotal currency rows = exportTotal libs connector currency raws := by
  induction h with
  | nil => rfl
  | @cons raw row raws rows hrow _ ih =>
      have hsame : row.currency = currency.code ↔ rowCurrency connector raw = currency := by
        rw [hrow.currency]
        exact Currency.code_injective.eq_iff
      simp only [storedTotal, exportTotal] at ih ⊢
      by_cases hcurrency : rowCurrency connector raw = currency
      · simp [hsame.2 hcurrency, hcurrency, hrow.effectiveCost, ih]
      · simp [mt hsame.1 hcurrency, hcurrency, ih]

/-- What is assumed of an export, its events and the store. -/
structure Ingest (libs : Libraries) (connector : AwsFocusConnector) (delivered : FocusExport)
    (events : List CostEvent) (table : List CostRow) : Prop where
  /-- Every row normalizes, whatever the clock and the new identifier. -/
  normalized : List.Forall₂
    (fun raw event => ∃ now newId, normalize libs connector raw now newId = .ok event)
    delivered.rawRecords events
  /-- The store holds no cost events of the tenant. -/
  empty : ∀ row ∈ table, row.dims.tenantId ≠ connector.ctx.tenantId
  /-- The new identifiers are fresh. -/
  id_nodup : (events.map CostEvent.id).Nodup
  id_new : ∀ row ∈ table, ∀ event ∈ events, row.id ≠ event.id
  amounts : ∀ event ∈ events, AmountsWithin event
  /-- SHA-256 does not collide on the identities. -/
  collisionFree : Set.InjOn libs.sha256
    {text | ∃ raw ∈ delivered.rawRecords, text = identityText raw.row raw.billingPeriod}

theorem Ingest.normalizedFrom {delivered : FocusExport} {events : List CostEvent}
    {table : List CostRow} (h : Ingest libs connector delivered events table) :
    List.Forall₂ (NormalizedFrom libs connector) delivered.rawRecords events :=
  h.normalized.imp fun _ _ ⟨_, _, hnormalize⟩ => normalizedFrom_of_normalize hnormalize

theorem Ingest.tenantId {delivered : FocusExport} {events : List CostEvent} {table : List CostRow}
    (h : Ingest libs connector delivered events table) :
    ∀ event ∈ events, event.dims.tenantId = connector.ctx.tenantId := by
  have hnormalized := h.normalizedFrom
  clear h
  generalize delivered.rawRecords = raws at hnormalized
  intro event hmem
  induction hnormalized with
  | nil => simp at hmem
  | @cons raw event' raws events hevent _ ih =>
      rcases List.mem_cons.1 hmem with rfl | hmem
      · exact hevent.tenantId
      · exact ih hmem

theorem Ingest.oneTenant {delivered : FocusExport} {events : List CostEvent} {table : List CostRow}
    (h : Ingest libs connector delivered events table) : OneTenant events :=
  fun event hevent other hother => (h.tenantId event hevent).trans (h.tenantId other hother).symm

/-- The keys of the stored rows are the hashes of the identities. -/
theorem externalIds_of_carries {raws : List RawCostRecord} {rows : List CostRow}
    (h : List.Forall₂ (Carries libs connector) raws rows) :
    rows.map CostRow.sourceExternalId =
      (raws.map fun raw => identityText raw.row raw.billingPeriod).map libs.sha256 := by
  induction h with
  | nil => rfl
  | @cons raw row raws rows hrow _ ih =>
      simp only [List.map_cons, ih, hrow.externalId]
      rfl

theorem identities_of_carries {tenantId : TenantId} {raws : List RawCostRecord}
    {rows : List CostRow} (h : List.Forall₂ (Carries libs connector) raws rows)
    (htenant : ∀ row ∈ rows, row.dims.tenantId = tenantId) :
    rows.map CostRow.identity = (rows.map CostRow.sourceExternalId).map
      fun externalId => (tenantId, ProviderKind.aws.asStr, externalId) := by
  induction h with
  | nil => rfl
  | @cons raw row raws rows hrow _ ih =>
      rcases List.forall_mem_cons.1 htenant with ⟨hfirst, hrest⟩
      simp [ih hrest, CostRow.identity, hfirst, hrow.provider]

theorem exists_forall₂ {α β : Type} {R : α → β → Prop} :
    ∀ {as : List α}, (∀ a ∈ as, ∃ b, R a b) → ∃ bs, List.Forall₂ R as bs := by
  intro as
  induction as with
  | nil => exact fun _ => ⟨[], List.Forall₂.nil⟩
  | cons a as ih =>
      intro h
      rcases List.forall_mem_cons.1 h with ⟨⟨b, hb⟩, hrest⟩
      rcases ih hrest with ⟨bs, hbs⟩
      exact ⟨b :: bs, List.Forall₂.cons hb hbs⟩

theorem carries_of_forall₂ {raws : List RawCostRecord} {events : List CostEvent}
    (hevents : List.Forall₂ (NormalizedFrom libs connector) raws events) :
    ∀ {rows : List CostRow}, List.Forall₂ EncodedFrom events rows →
      List.Forall₂ (Carries libs connector) raws rows := by
  induction hevents with
  | nil =>
      intro rows h
      cases h
      exact List.Forall₂.nil
  | cons hevent _ ih =>
      intro rows h
      cases h with
      | cons hrow hrest => exact List.Forall₂.cons (carries_of_encoded hevent hrow) (ih hrest)

/-- The rows of an export's events may be appended. -/
theorem Ingest.fresh {delivered : FocusExport} {events : List CostEvent} {table rows : List CostRow}
    (h : Ingest libs connector delivered events table)
    (hrows : List.Forall₂ EncodedFrom events rows)
    (hnodup : (delivered.rawRecords.map
      fun raw => identityText raw.row raw.billingPeriod).Nodup) :
    Fresh table rows ∧ ∀ row ∈ rows, row.dims.tenantId = connector.ctx.tenantId := by
  have hids : rows.map CostRow.id = events.map CostEvent.id := by
    clear h
    induction hrows with
    | nil => rfl
    | cons hrow _ ih => simp [hrow.id, ih]
  have htenant : ∀ row ∈ rows, row.dims.tenantId = connector.ctx.tenantId := by
    have htenants := h.tenantId
    clear h hids
    induction hrows with
    | nil => simp
    | @cons event row events rows hrow _ ih =>
        rcases List.forall_mem_cons.1 htenants with ⟨hfirst, hrest⟩
        refine List.forall_mem_cons.2 ⟨?_, ih hrest⟩
        exact (congrArg Prod.fst hrow.identity).trans hfirst
  have hcarries := carries_of_forall₂ h.normalizedFrom hrows
  have hexternal : (rows.map CostRow.sourceExternalId).Nodup := by
    rw [externalIds_of_carries hcarries]
    refine hnodup.map_on ?_
    intro text htext text' htext' heq
    rcases List.mem_map.1 htext with ⟨raw, hraw, hrawtext⟩
    rcases List.mem_map.1 htext' with ⟨raw', hraw', hrawtext'⟩
    -- Different texts have different digests, as far as this export is concerned.
    exact h.collisionFree ⟨raw, hraw, hrawtext.symm⟩ ⟨raw', hraw', hrawtext'.symm⟩ heq
  refine ⟨?_, htenant⟩
  exact
    { identity := by
        intro other hother row hrow heq
        exact h.empty other hother ((congrArg Prod.fst heq).trans (htenant row hrow))
      identity_nodup := by
        rw [identities_of_carries hcarries htenant]
        exact hexternal.map fun a b heq => congrArg (fun key => key.2.2) heq
      id := by
        intro other hother row hrow heq
        have hmem : row.id ∈ events.map CostEvent.id := hids ▸ List.mem_map_of_mem hrow
        rcases List.mem_map.1 hmem with ⟨event, hevent, hid⟩
        exact h.id_new other hother event hevent (heq.trans hid.symm)
      id_nodup := hids ▸ h.id_nodup }

/-- Every row of an export is stored as one row, and the totals agree, exactly if the columns take
every event and no two rows have the same identity text. -/
theorem ingested_iff {delivered : FocusExport} {events : List CostEvent} {table : List CostRow}
    (h : Ingest libs connector delivered events table) :
    Ingested libs connector delivered events table ↔
      (∀ event ∈ events, Storable event) ∧
        (delivered.rawRecords.map fun raw => identityText raw.row raw.billingPeriod).Nodup := by
  have hempty : storedOf connector.ctx.tenantId table = [] := by
    simpa [storedOf, List.filter_eq_nil_iff] using h.empty
  rw [Ingested, upsert_of_oneTenant h.oneTenant]
  constructor
  · rintro ⟨⟨outcome, hok⟩, hcarries, -⟩
    cases hloop : upsertEvents UpsertEnv.ok events 0 table UpsertOutcome.default with
    | error e => simp [hloop] at hok
    | ok result =>
        rw [hloop] at hcarries
        refine ⟨fun event hmem =>
          (encodeEvent_iff (h.amounts event hmem)).2 (encodes_of_upsertEvents hloop event hmem), ?_⟩
        -- The unique index keeps the hashes apart, and so the hashed texts.
        have hnodup := nodup_identity_of_upsertEvents connector.ctx.tenantId (by simp [hempty]) hloop
        have htenant : ∀ row ∈ storedOf connector.ctx.tenantId result.1,
            row.dims.tenantId = connector.ctx.tenantId := by simp [storedOf]
        rw [identities_of_carries hcarries htenant, externalIds_of_carries hcarries] at hnodup
        exact (hnodup.of_map _).of_map _
  · rintro ⟨hstorable, hnodup⟩
    have hencode : ∀ event ∈ events, ∃ row, encodeEvent event = .ok row ∧ EncodedFrom event row := by
      intro event hmem
      rcases (encodeEvent_iff (h.amounts event hmem)).1 (hstorable event hmem) with ⟨row, hrow⟩
      exact ⟨row, hrow, encodedFrom_of_encodeEvent (h.amounts event hmem) hrow⟩
    -- The rows are appended one by one: none of them meets a row of its identity.
    rcases exists_forall₂ hencode with ⟨rows, hrows⟩
    have hencoded : List.Forall₂ EncodedFrom events rows := hrows.imp fun _ _ hrow => hrow.2
    rcases h.fresh hencoded hnodup with ⟨hfresh, htenant⟩
    rcases upsertEvents_of_fresh (hrows.imp fun _ _ hrow => hrow.1) 0 table UpsertOutcome.default
      hfresh with ⟨outcome, hloop⟩
    have hcarries := carries_of_forall₂ h.normalizedFrom hencoded
    have hstored : storedOf connector.ctx.tenantId (table ++ rows) = rows := by
      rw [storedOf, List.filter_append, ← storedOf, hempty, List.nil_append,
        List.filter_eq_self.2 fun row hrow => by simpa using htenant row hrow]
    rw [hloop]
    simp only [hstored]
    exact ⟨⟨outcome, rfl⟩, hcarries, storedTotal_of_carries hcarries⟩

end Ingest

/-! ## Two lines on one resource -/

section TwoLines

/-- The digests of the texts that are hashed below. -/
def sampleDigests : List (String × String) :=
  [("2026-08\x1f111122223333\x1f2026-08-01T00:00:00Z\x1f2026-08-01T01:00:00Z\x1fAmazon EC2" ++
      "\x1fUsage\x1fi-1\x1f",
    "cda782f3afb9a652f6ab958ec67136f2479f4e89b01d2697ccdcb80c96f6a37e"),
  ("2026-08\x1f111122223333\x1f2026-08-01T00:00:00Z\x1f2026-08-01T01:00:00Z\x1fAmazon EC2" ++
      "\x1fUsage\x1fi-2\x1f",
    "c1938e85bb5b70f5dab6787c590bbedf3a5f965d8ebd89d2e5f9d25b9e2f2149"),
  ("\x7b\"BilledCost\":\"10.00\",\"BillingAccountId\":\"111122223333\"," ++
      "\"ChargeCategory\":\"Usage\",\"ChargePeriodEnd\":\"2026-08-01T01:00:00Z\"," ++
      "\"ChargePeriodStart\":\"2026-08-01T00:00:00Z\",\"EffectiveCost\":\"10.00\"," ++
      "\"ListCost\":\"10.00\",\"ResourceId\":\"i-1\",\"ServiceName\":\"Amazon EC2\"," ++
      "\"SkuId\":\"BoxUsage\"\x7d",
    "cf088dabb5c5a75e58a9b402cfd45b91d5e8d3491a3097183ceda124062882a6"),
  ("\x7b\"BilledCost\":\"5.00\",\"BillingAccountId\":\"111122223333\"," ++
      "\"ChargeCategory\":\"Usage\",\"ChargePeriodEnd\":\"2026-08-01T01:00:00Z\"," ++
      "\"ChargePeriodStart\":\"2026-08-01T00:00:00Z\",\"EffectiveCost\":\"5.00\"," ++
      "\"ListCost\":\"5.00\",\"ResourceId\":\"i-1\",\"ServiceName\":\"Amazon EC2\"," ++
      "\"SkuId\":\"EBSOptimized\"\x7d",
    "26637d5adf31907eab269f8adc320a55cfb37d4826118ad10def0dd2fa8217af"),
  ("\x7b\"BilledCost\":\"5.00\",\"BillingAccountId\":\"111122223333\"," ++
      "\"ChargeCategory\":\"Usage\",\"ChargePeriodEnd\":\"2026-08-01T01:00:00Z\"," ++
      "\"ChargePeriodStart\":\"2026-08-01T00:00:00Z\",\"EffectiveCost\":\"5.00\"," ++
      "\"ListCost\":\"5.00\",\"ResourceId\":\"i-2\",\"ServiceName\":\"Amazon EC2\"," ++
      "\"SkuId\":\"EBSOptimized\"\x7d",
    "cbde208e4b43c6a85a8b20c0f40050c8f74849eaa5defdce2b271dbcf3e4a754")]

/-- A JSON text between quotation marks; nothing below needs an escape. -/
def quoted (s : String) : String :=
  "\"" ++ s ++ "\""

/-- The compact text of an object of strings. -/
def flatText (row : Json) : String :=
  let fields := (row.asObject.getD []).map fun field =>
    quoted field.1 ++ ":" ++ quoted ((field.2.asStr).getD "")
  "\x7b" ++ String.intercalate "," fields ++ "\x7d"

/-- The libraries on the texts of the lines below. -/
def sampleLibraries : Libraries where
  sha256 := fun text => (sampleDigests.lookup text).getD ""
  parseDecimal := fun text => [("10.00", (10 : ℚ)), ("5.00", 5)].lookup text
  parseFromRfc3339 := fun text =>
    [("2026-08-01T00:00:00Z", DateTimeUtc.mk 1785542400000000000),
      ("2026-08-01T01:00:00Z", DateTimeUtc.mk 1785546000000000000)].lookup text
  parseUuid := fun _ => none
  jsonFromStr := fun _ => none
  jsonToString := flatText

def sampleConnector : AwsFocusConnector where
  rules := TagAttributionRules.default
  ctx :=
    { tenantId := ⟨1⟩
      providerId := ⟨2⟩
      defaultProjectId := some ⟨3⟩
      defaultTeamId := some ⟨4⟩ }
  defaultCurrency := .usd

/-- A line for an hour of one service. -/
def line (cost resourceId skuId : String) : List String :=
  ["111122223333", "2026-08-01T00:00:00Z", "2026-08-01T01:00:00Z", cost, cost, cost, "Amazon EC2",
    "Usage", resourceId, skuId]

/-- The lines of an export, with the identifiers that their events get. -/
def twoLines (resourceId : String) : List (List String × CostEventId) :=
  [(line "10.00" "i-1" "BoxUsage", ⟨1⟩), (line "5.00" resourceId "EBSOptimized", ⟨2⟩)]

def twoLineExport (resourceId : String) : FocusExport where
  key := "2026-08.csv"
  billingPeriod := "2026-08"
  headers := ["BillingAccountId", "ChargePeriodStart", "ChargePeriodEnd", "BilledCost",
    "EffectiveCost", "ListCost", "ServiceName", "ChargeCategory", "ResourceId", "SkuId"]
  records := (twoLines resourceId).map Prod.fst

def normalizeLine (resourceId : String) (entry : List String × CostEventId) :
    Except NormalizeError CostEvent :=
  normalize sampleLibraries sampleConnector ((twoLineExport resourceId).rawRecord entry.1) ⟨0⟩
    entry.2

def lineEvents (resourceId : String) : List CostEvent :=
  (twoLines resourceId).filterMap fun entry => (normalizeLine resourceId entry).toOption

theorem forall₂_filterMap_toOption {ε α β : Type} {f : α → Except ε β} :
    ∀ {as : List α}, (∀ a ∈ as, (f a).isOk = true) →
      List.Forall₂ (fun a b => f a = .ok b) as (as.filterMap fun a => (f a).toOption) := by
  intro as
  induction as with
  | nil => exact fun _ => List.Forall₂.nil
  | cons a as ih =>
      intro h
      rcases List.forall_mem_cons.1 h with ⟨hfirst, hrest⟩
      cases ha : f a with
      | error e => simp [ha, Except.isOk, Except.toBool] at hfirst
      | ok b =>
          have hb : (f a).toOption = some b := by rw [ha]; rfl
          simp only [List.filterMap_cons, hb]
          exact List.Forall₂.cons ha (ih hrest)

theorem withinPrecision_of_mem {amount : ℚ} (h : amount ∈ [(10 : ℚ), 5]) :
    WithinPrecision amount := by
  simp only [List.mem_cons, List.not_mem_nil, or_false] at h
  rcases h with rfl | rfl
  · exact ⟨⟨10 * 10 ^ 12, by norm_num⟩, by norm_num⟩
  · exact ⟨⟨5 * 10 ^ 12, by norm_num⟩, by norm_num⟩

theorem ingest_twoLines {resourceId : String} (h : resourceId ∈ ["i-1", "i-2"]) :
    Ingest sampleLibraries sampleConnector (twoLineExport resourceId) (lineEvents resourceId) [] where
  normalized := by
    have hok : ∀ resourceId ∈ ["i-1", "i-2"], ∀ entry ∈ twoLines resourceId,
        (normalizeLine resourceId entry).isOk = true := by decide +kernel
    rw [FocusExport.rawRecords, twoLineExport, List.map_map, List.forall₂_map_left_iff]
    exact (forall₂_filterMap_toOption (hok resourceId h)).imp fun entry event heq =>
      ⟨_, _, heq⟩
  empty := by simp
  id_nodup := by
    have hids : ∀ resourceId ∈ ["i-1", "i-2"], ((lineEvents resourceId).map CostEvent.id).Nodup := by
      decide +kernel
    exact hids resourceId h
  id_new := by simp
  amounts := by
    have hamounts : ∀ resourceId ∈ ["i-1", "i-2"], ∀ event ∈ lineEvents resourceId,
        event.billedCost.amount ∈ [(10 : ℚ), 5] ∧ event.effectiveCost.amount ∈ [(10 : ℚ), 5] ∧
          event.listCost.amount ∈ [(10 : ℚ), 5] := by decide +kernel
    intro event hevent
    rcases hamounts resourceId h event hevent with ⟨hbilled, heffective, hlist⟩
    exact ⟨withinPrecision_of_mem hbilled, withinPrecision_of_mem heffective,
      withinPrecision_of_mem hlist⟩
  collisionFree := by
    have hdigests : ∀ resourceId ∈ ["i-1", "i-2"], ∀ raw ∈ (twoLineExport resourceId).rawRecords,
        ∀ raw' ∈ (twoLineExport resourceId).rawRecords,
          sampleLibraries.sha256 (identityText raw.row raw.billingPeriod) =
            sampleLibraries.sha256 (identityText raw'.row raw'.billingPeriod) →
          identityText raw.row raw.billingPeriod = identityText raw'.row raw'.billingPeriod := by
      decide +kernel
    rintro _ ⟨raw, hraw, rfl⟩ _ ⟨raw', hraw', rfl⟩ heq
    exact hdigests resourceId h raw hraw raw' hraw' heq

/-- Two lines that differ in cost and SKU only end as one row, and 10 USD of 15 are gone. -/
theorem not_ingested_oneResource :
    (twoLineExport "i-1").records.Nodup ∧
      Ingest sampleLibraries sampleConnector (twoLineExport "i-1") (lineEvents "i-1") [] ∧
      (upsert [] (lineEvents "i-1") UpsertEnv.ok).2 =
        .ok { inserted := 1, restated := 1, duplicate := 0 } ∧
      exportTotal sampleLibraries sampleConnector .usd (twoLineExport "i-1").rawRecords = 15 ∧
      storedTotal .usd (storedOf ⟨1⟩ (upsert [] (lineEvents "i-1") UpsertEnv.ok).1) = 5 ∧
      ¬Ingested sampleLibraries sampleConnector (twoLineExport "i-1") (lineEvents "i-1") [] := by
  have hvalues : (upsert [] (lineEvents "i-1") UpsertEnv.ok).2 =
        .ok { inserted := 1, restated := 1, duplicate := 0 } ∧
      exportTotal sampleLibraries sampleConnector .usd (twoLineExport "i-1").rawRecords = 15 ∧
      storedTotal .usd (storedOf ⟨1⟩ (upsert [] (lineEvents "i-1") UpsertEnv.ok).1) = 5 := by
    decide +kernel
  rcases hvalues with ⟨houtcome, hexport, hstored⟩
  refine ⟨by decide +kernel, ingest_twoLines (by simp), houtcome, hexport, hstored, ?_⟩
  rintro ⟨-, -, heq⟩
  have husd := heq .usd
  rw [hexport] at husd
  exact absurd (hstored.symm.trans husd) (by norm_num)

theorem ingested_twoResources :
    Ingested sampleLibraries sampleConnector (twoLineExport "i-2") (lineEvents "i-2") [] :=
  (ingested_iff (ingest_twoLines (by simp))).2 ⟨by decide +kernel, by decide +kernel⟩

end TwoLines

end Falkr
