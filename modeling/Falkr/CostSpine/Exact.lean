import Falkr.CostSpine.Normalized
import Falkr.Core.Numeral
import Falkr.Core.Texts

/-!
# Exact — when an event says what its row says

An event is `ReadExactly` from its row when its currency is the one the row states, and its amounts
are the numbers written in their cells.  The connector replaces a currency that it does not know by
the default, and rounds a number that no decimal stands for; on all other rows it reads exactly
(`readExactly_iff`).
-/

namespace Falkr

open Lib

/-! ## What a row says -/

/-- What a row states about its currency: nothing where the cell is missing or blank, else the
currency that the cell names, if it names one. -/
def statedCurrency (row : Json) : Option (Option Currency) :=
  match row.get "BillingCurrency" with
  | none => none
  | some (.string code) =>
      if (trim code).isEmpty then none else some (Currency.fromCode (trim code))
  | some _ => some none

/-- The number written in a cell. -/
def cellNumber (row : Json) (name : String) : Option ℚ :=
  ((row.get name).bind Json.asStr).bind fun text => written (trim text)

/-- The amount columns with the amounts read from them. -/
def amountColumns (event : CostEvent) : List (String × Money ℚ) :=
  [("BilledCost", event.billedCost), ("EffectiveCost", event.effectiveCost),
    ("ListCost", event.listCost)]

structure ReadExactly (connector : AwsFocusConnector) (row : Json) (event : CostEvent) : Prop where
  stated : ∀ currency, statedCurrency row = some currency → currency = some event.currency
  unstated : statedCurrency row = none → event.currency = connector.defaultCurrency
  amounts : ∀ column ∈ amountColumns event,
    column.2.currency = event.currency ∧ cellNumber row column.1 = some column.2.amount

/-- Currency and amounts can be said by an event. -/
structure Expressible (row : Json) : Prop where
  currency : statedCurrency row ≠ some none
  amounts : ∀ name ∈ ["BilledCost", "EffectiveCost", "ListCost"],
    ∃ q, cellNumber row name = some q ∧ Decimal.Representable q

/-! ## What the connector reads -/

/-- The connector's own table of currencies is that of `fromCode`, but for the fallback. -/
theorem parseCurrency_some (code : String) (fallback : Currency) :
    parseCurrency (some code) fallback = (Currency.fromCode code).getD fallback := by
  simp only [parseCurrency, Currency.fromCode, Option.map_some]
  generalize toAsciiUppercase (trim code) = upper
  split <;> first | rfl | (split <;> simp_all)

variable {libs : Libraries} {connector : AwsFocusConnector}

theorem rowCurrency_eq (connector : AwsFocusConnector) (raw : RawCostRecord) :
    rowCurrency connector raw =
      ((statedCurrency raw.row).getD none).getD connector.defaultCurrency := by
  have hnone : parseCurrency none connector.defaultCurrency = connector.defaultCurrency := rfl
  unfold rowCurrency optionalField statedCurrency
  cases hcell : raw.row.get "BillingCurrency" with
  | none => simp [hnone]
  | some cell =>
      cases cell with
      | string code =>
          -- A blank cell is a missing one to `optional_field`.
          by_cases hblank : (trim code).isEmpty
          · simp [Json.asStr, hblank, hnone]
          · simp [Json.asStr, hblank, parseCurrency_some]
      | null => simp [Json.asStr, hnone]
      | bool b => simp [Json.asStr, hnone]
      | number text => simp [Json.asStr, hnone]
      | array items => simp [Json.asStr, hnone]
      | object map => simp [Json.asStr, hnone]

theorem cellNumber_eq_iff (hreader : DecimalReader libs.parseDecimal) {row : Json}
    {currency : Currency} {name : String} {m : Money ℚ}
    (h : money libs row currency name = .ok m) :
    cellNumber row name = some m.amount ↔
      ∃ q, cellNumber row name = some q ∧ Decimal.Representable q := by
  rcases money_eq_ok h with ⟨-, text, hfield, hparse⟩
  have hcell : (row.get name).bind Json.asStr = some text := by
    unfold field at hfield
    split at hfield
    · rename_i value hvalue
      cases hfield
      exact hvalue
    · cases hfield
  simp only [cellNumber, hcell, Option.bind_some]
  exact hreader.written_eq_iff hparse

/-- An event says what its row says exactly when the row says something an event can say. -/
theorem readExactly_iff (hreader : DecimalReader libs.parseDecimal) {raw : RawCostRecord}
    {now : DateTimeUtc} {newId : CostEventId} {event : CostEvent}
    (h : normalize libs connector raw now newId = .ok event) :
    ReadExactly connector raw.row event ↔ Expressible raw.row := by
  rcases money_of_normalize h with ⟨hbilled, heffective, hlist⟩
  have hcurrency : event.currency =
      ((statedCurrency raw.row).getD none).getD connector.defaultCurrency :=
    (currency_of_normalize h).trans (rowCurrency_eq connector raw)
  have hsame : ∀ amount ∈ [event.billedCost, event.effectiveCost, event.listCost],
      amount.currency = event.currency := fun amount hmem => (amounts_of_normalize h amount hmem).1
  constructor
  · intro hread
    refine ⟨?_, ?_⟩
    · intro hstated
      cases hread.stated none hstated
    · have hamount : ∀ column ∈ amountColumns event, cellNumber raw.row column.1 =
          some column.2.amount := fun column hmem => (hread.amounts column hmem).2
      simp only [amountColumns, List.forall_mem_cons, List.not_mem_nil, false_imp_iff,
        implies_true, and_true] at hamount ⊢
      exact ⟨(cellNumber_eq_iff hreader hbilled).1 hamount.1,
        (cellNumber_eq_iff hreader heffective).1 hamount.2.1,
        (cellNumber_eq_iff hreader hlist).1 hamount.2.2⟩
  · intro hrow
    have hnumbers := hrow.amounts
    simp only [List.forall_mem_cons, List.not_mem_nil, false_imp_iff, implies_true, and_true]
      at hnumbers hsame
    refine ⟨?_, ?_, ?_⟩
    · rintro (_ | currency) hstated
      · exact absurd hstated hrow.currency
      · rw [hcurrency, hstated]
        rfl
    · intro hstated
      rw [hcurrency, hstated]
      rfl
    · simp only [amountColumns, List.forall_mem_cons, List.not_mem_nil, false_imp_iff,
        implies_true, and_true]
      exact ⟨⟨hsame.1, (cellNumber_eq_iff hreader hbilled).2 hnumbers.1⟩,
        ⟨hsame.2.1, (cellNumber_eq_iff hreader heffective).2 hnumbers.2.1⟩,
        hsame.2.2, (cellNumber_eq_iff hreader hlist).2 hnumbers.2.2⟩

/-! ## Two rows -/

/-- Libraries whose reader rounds to the nearest decimal. -/
def roundingLibraries : Libraries where
  sha256 := fun text => text
  parseDecimal := Decimal.readNearest
  parseFromRfc3339 := DateTimeUtc.read
  parseUuid := Uuid.read
  jsonFromStr := fun _ => none
  jsonToString := fun _ => ""

def dollarConnector : AwsFocusConnector where
  rules := TagAttributionRules.default
  ctx :=
    { tenantId := ⟨1⟩
      providerId := ⟨2⟩
      defaultProjectId := some ⟨3⟩
      defaultTeamId := some ⟨4⟩ }
  defaultCurrency := .usd

/-- A line for an hour of one service. -/
def chargeRow (currency cost : String) : RawCostRecord where
  provider := .aws
  exportRef := "2026-08.csv"
  billingPeriod := "2026-08"
  row := .object (Json.extend []
    [("BillingAccountId", .string "111122223333"), ("BillingCurrency", .string currency),
      ("ChargePeriodStart", .string "2026-08-01T00:00:00Z"),
      ("ChargePeriodEnd", .string "2026-08-01T01:00:00Z"), ("BilledCost", .string cost),
      ("EffectiveCost", .string cost), ("ListCost", .string cost),
      ("ServiceName", .string "Amazon EC2"), ("ChargeCategory", .string "Usage")])

def chargeEvent (currency cost : String) : Except NormalizeError CostEvent :=
  normalize roundingLibraries dollarConnector (chargeRow currency cost) ⟨0⟩ ⟨1⟩

theorem exists_chargeEvent {currency cost : String} {amount : Money ℚ}
    (h : (chargeEvent currency cost).toOption.map CostEvent.billedCost = some amount) :
    ∃ event, chargeEvent currency cost = .ok event ∧ event.billedCost = amount := by
  cases hevent : chargeEvent currency cost with
  | error e => simp [hevent, Except.toOption] at h
  | ok event => exact ⟨event, rfl, by simpa [hevent, Except.toOption] using h⟩

theorem readExactly_euros :
    ∃ event, chargeEvent "eur " "10.00" = .ok event ∧
      (ReadExactly dollarConnector (chargeRow "eur " "10.00").row event ↔
        Expressible (chargeRow "eur " "10.00").row) := by
  have hamount : (chargeEvent "eur " "10.00").toOption.map CostEvent.billedCost =
      some { amount := 10, currency := .eur } := by
    decide +kernel
  rcases exists_chargeEvent hamount with ⟨event, hevent, -⟩
  exact ⟨event, hevent, readExactly_iff Decimal.decimalReader_readNearest hevent⟩

/-- Nine units of the twenty-ninth digit, which rounds up to one of the twenty-eighth. -/
def tinyCost : String :=
  "0.00000000000000000000000000009"

/-- Ten reais become ten dollars, and a cost becomes another one. -/
theorem normalize_not_readExactly :
    (∃ event, chargeEvent "BRL" "10.00" = .ok event ∧
        event.billedCost = { amount := 10, currency := .usd } ∧
        ¬ReadExactly dollarConnector (chargeRow "BRL" "10.00").row event) ∧
      ∃ event, chargeEvent "EUR" tinyCost = .ok event ∧
        event.billedCost = { amount := 1 / 10 ^ 28, currency := .eur } ∧
        ¬ReadExactly dollarConnector (chargeRow "EUR" tinyCost).row event := by
  have hreais : (chargeEvent "BRL" "10.00").toOption.map CostEvent.billedCost =
      some { amount := 10, currency := .usd } := by
    decide +kernel
  have htiny : (chargeEvent "EUR" tinyCost).toOption.map CostEvent.billedCost =
      some { amount := 1 / 10 ^ 28, currency := .eur } := by
    decide +kernel
  have hcell : cellNumber (chargeRow "EUR" tinyCost).row "BilledCost" ≠ some (1 / 10 ^ 28) := by
    decide +kernel
  rcases exists_chargeEvent hreais with ⟨reais, hok, hamount⟩
  rcases exists_chargeEvent htiny with ⟨tiny, hok', hamount'⟩
  refine ⟨⟨reais, hok, hamount, ?_⟩, ⟨tiny, hok', hamount', ?_⟩⟩
  · intro hread
    cases hread.stated none (by decide +kernel)
  · intro hread
    have hread' := (hread.amounts ("BilledCost", tiny.billedCost) List.mem_cons_self).2
    rw [hamount'] at hread'
    exact hcell hread'

end Falkr
