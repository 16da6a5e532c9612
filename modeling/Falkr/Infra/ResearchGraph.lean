import Falkr.Infra.CostEvents

/-!
# ResearchGraph — what a run costs

Of a row of `runs` there is what `refresh_attributed_cost` reads and writes.  The statements of its
transaction are functions of their own, under the tenant's row-level security; how the driver reads
a `NUMERIC` into a decimal is an argument.
-/

namespace Falkr

inductive ResearchStoreError
  | backend (detail : String)
  | unknownExperiment (id : String)
  deriving DecidableEq

def corrupt (what value : String) : ResearchStoreError :=
  .backend ("stored " ++ what ++ " is not a recognized value: " ++ value)

/-- A row of `runs`. -/
structure RunRow where
  id : RunId
  tenantId : TenantId
  attributedCost : ℚ
  attributedCostCurrency : String
  deriving DecidableEq

section Statements

variable (decodeNumeric : ℚ → Except String ℚ) (tenantId : TenantId) (runId : RunId)

/-- The row that `WHERE id = $1` finds. -/
def selectRun (runs : List RunRow) : Option RunRow :=
  runs.find? fun row => row.id = runId ∧ row.tenantId = tenantId

/-- `SELECT attributed_cost_currency FROM runs`: the stored code and the currency it stands for. -/
def readCurrency (runs : List RunRow) : Except ResearchStoreError (String × Currency) :=
  match selectRun tenantId runId runs with
  | none => .error (.backend ("run " ++ runId.asUuid.hyphenated ++ " not found"))
  | some row =>
      match Currency.fromCode row.attributedCostCurrency with
      | none => .error (corrupt "attributed_cost_currency" row.attributedCostCurrency)
      | some currency => .ok (row.attributedCostCurrency, currency)

/-- The cost events of a run in one currency. -/
def costsOf (currencyRaw : String) (costEvents : List CostRow) : List CostRow :=
  costEvents.filter fun row =>
    row.dims.tenantId = tenantId ∧ row.dims.runId = some runId ∧ row.currency = currencyRaw

/-- `SELECT SUM(effective_cost) FROM cost_events`, which is `NULL` over no rows. -/
def sumEffectiveCost (currencyRaw : String) (costEvents : List CostRow) :
    Except ResearchStoreError (Option ℚ) :=
  match costsOf tenantId runId currencyRaw costEvents with
  | [] => .ok none
  | rows =>
      match decodeNumeric (rows.map CostRow.effectiveCost).sum with
      | .error e => .error (.backend e)
      | .ok total => .ok (some total)

/-- The cost that the sum amounts to. -/
def readAttributed (currencyRaw : String) (currency : Currency) (costEvents : List CostRow) :
    Except ResearchStoreError (Money ℚ) :=
  match sumEffectiveCost decodeNumeric tenantId runId currencyRaw costEvents with
  | .error e => .error e
  | .ok total => .ok { amount := total.getD 0, currency := currency }

/-- The value that `attributed_cost` takes. -/
def bindCost (attributed : Money ℚ) : Except ResearchStoreError ℚ :=
  match toNumeric attributed.amount with
  | none => .error (.backend "numeric field overflow")
  | some value => .ok value

/-- What the column takes of the sum of some costs, by way of the driver's decimal.  Over no costs
the sum is `NULL`, and 0 is taken. -/
def TakesSum (costs : List ℚ) (value : ℚ) : Prop :=
  match costs with
  | [] => value = 0
  | _ => ∃ total, decodeNumeric costs.sum = .ok total ∧ toNumeric total = some value

/-- The driver and the column keep an amount as it is. -/
def Keeps (amount : ℚ) : Prop :=
  decodeNumeric amount = .ok amount ∧ toNumeric amount = some amount

instance (amount : ℚ) : Decidable (Keeps decodeNumeric amount) :=
  inferInstanceAs (Decidable (_ ∧ _))

/-- `UPDATE runs SET attributed_cost = $1 WHERE id = $2`. -/
def setCost (value : ℚ) (runs : List RunRow) : List RunRow :=
  runs.map fun row =>
    if row.id = runId ∧ row.tenantId = tenantId then { row with attributedCost := value } else row

/-- Recomputes cost-per-run from the cost spine, with nothing between the statements: what is
returned, and `runs` afterwards. -/
def refreshAttributedCost (runs : List RunRow) (costEvents : List CostRow) :
    Except ResearchStoreError (Money ℚ × List RunRow) :=
  match readCurrency tenantId runId runs with
  | .error e => .error e
  | .ok (currencyRaw, currency) =>
      match readAttributed decodeNumeric tenantId runId currencyRaw currency costEvents with
      | .error e => .error e
      | .ok attributed =>
          match bindCost attributed with
          | .error e => .error e
          | .ok value => .ok (attributed, setCost tenantId runId value runs)

end Statements

variable {tenantId tenantId' : TenantId} {runId runId' : RunId}

theorem bindCost_eq_ok {attributed : Money ℚ} {value : ℚ} :
    bindCost attributed = .ok value ↔ toNumeric attributed.amount = some value := by
  cases hnumeric : toNumeric attributed.amount <;> simp [bindCost, hnumeric]

/-- The total that the `SUM` gives, and what the column takes of it. -/
theorem takesSum_iff {decodeNumeric : ℚ → Except String ℚ} {currencyRaw : String}
    (currency : Currency) {costEvents : List CostRow} {value : ℚ} :
    TakesSum decodeNumeric ((costsOf tenantId runId currencyRaw costEvents).map
        CostRow.effectiveCost) value ↔
      ∃ attributed, readAttributed decodeNumeric tenantId runId currencyRaw currency costEvents =
        .ok attributed ∧ bindCost attributed = .ok value := by
  simp only [readAttributed, sumEffectiveCost, bindCost_eq_ok]
  cases costsOf tenantId runId currencyRaw costEvents with
  | nil =>
      have hzero : toNumeric 0 = some 0 := by decide +kernel
      simp [TakesSum, hzero, eq_comm]
  | cons row rows =>
      simp only [TakesSum, List.map_cons]
      cases decodeNumeric (row.effectiveCost :: rows.map CostRow.effectiveCost).sum with
      | error e => simp
      | ok total => simp

/-- A sum that is kept is taken as it is. -/
theorem Keeps.takesSum {decodeNumeric : ℚ → Except String ℚ} {costs : List ℚ}
    (h : Keeps decodeNumeric costs.sum) : TakesSum decodeNumeric costs costs.sum := by
  cases costs with
  | nil => rfl
  | cons cost costs => exact ⟨_, h⟩

theorem Keeps.eq_of_takesSum {decodeNumeric : ℚ → Except String ℚ} {costs : List ℚ} {value : ℚ}
    (h : Keeps decodeNumeric costs.sum) (htakes : TakesSum decodeNumeric costs value) :
    value = costs.sum := by
  cases costs with
  | nil => exact htakes
  | cons cost costs =>
      rcases htakes with ⟨total, htotal, hvalue⟩
      cases h.1.symm.trans htotal
      exact Option.some.inj (hvalue.symm.trans h.2)

/-! ## Frame lemmas -/

theorem selectRun_setCost (value : ℚ) (runs : List RunRow) :
    selectRun tenantId runId (setCost tenantId' runId' value runs) =
      (selectRun tenantId runId runs).map fun row =>
        if runId = runId' ∧ tenantId = tenantId' then { row with attributedCost := value }
        else row := by
  induction runs with
  | nil => rfl
  | cons row runs ih =>
      have hcons : setCost tenantId' runId' value (row :: runs) =
          (if row.id = runId' ∧ row.tenantId = tenantId' then { row with attributedCost := value }
            else row) :: setCost tenantId' runId' value runs := rfl
      rw [hcons]
      simp only [selectRun] at ih ⊢
      by_cases hrow : row.id = runId ∧ row.tenantId = tenantId
      · rcases hrow with ⟨rfl, rfl⟩
        by_cases hsame : row.id = runId' ∧ row.tenantId = tenantId' <;> simp [hsame]
      · have hkept : ¬((if row.id = runId' ∧ row.tenantId = tenantId' then
            { row with attributedCost := value } else row).id = runId ∧
            (if row.id = runId' ∧ row.tenantId = tenantId' then
              { row with attributedCost := value } else row).tenantId = tenantId) := by
          split_ifs <;> exact hrow
        rw [List.find?_cons_of_neg (by simpa using hkept), ih,
          List.find?_cons_of_neg (by simpa using hrow)]

/-- The currency that a run is stored with. -/
def storedCurrency (tenantId : TenantId) (runId : RunId) (runs : List RunRow) : Option String :=
  (selectRun tenantId runId runs).map RunRow.attributedCostCurrency

/-- What a refresh reads of `runs` is the currency. -/
theorem readCurrency_congr {runs runs' : List RunRow}
    (h : storedCurrency tenantId runId runs = storedCurrency tenantId runId runs') :
    readCurrency tenantId runId runs = readCurrency tenantId runId runs' := by
  simp only [storedCurrency] at h
  cases hrun : selectRun tenantId runId runs with
  | none =>
      have hrun' : selectRun tenantId runId runs' = none := by simpa [hrun] using h.symm
      simp [readCurrency, hrun, hrun']
  | some row =>
      rcases Option.map_eq_some_iff.1 (h.symm.trans (by rw [hrun, Option.map_some])) with
        ⟨row', hrun', hcurrency⟩
      simp [readCurrency, hrun, hrun', hcurrency]

/-- Nothing that a refresh writes changes the currency. -/
@[simp] theorem storedCurrency_setCost (value : ℚ) (runs : List RunRow) :
    storedCurrency tenantId runId (setCost tenantId' runId' value runs) =
      storedCurrency tenantId runId runs := by
  simp only [storedCurrency, selectRun_setCost]
  cases selectRun tenantId runId runs with
  | none => rfl
  | some row =>
      by_cases hsame : runId = runId' ∧ tenantId = tenantId' <;> simp [hsame]

theorem storedCurrency_of_readCurrency {runs : List RunRow} {currencyRaw : String}
    {currency : Currency} (h : readCurrency tenantId runId runs = .ok (currencyRaw, currency)) :
    storedCurrency tenantId runId runs = some currencyRaw := by
  cases hrun : selectRun tenantId runId runs with
  | none => simp [readCurrency, hrun] at h
  | some row =>
      cases hcode : Currency.fromCode row.attributedCostCurrency with
      | none => simp [readCurrency, hrun, hcode] at h
      | some code =>
          have hpair : row.attributedCostCurrency = currencyRaw ∧ code = currency := by
            simpa [readCurrency, hrun, hcode] using h
          simp [storedCurrency, hrun, hpair.1]

/-- A refresh that succeeds has gone through its three statements. -/
theorem refreshAttributedCost_eq_ok {decodeNumeric : ℚ → Except String ℚ} {runs runs' : List RunRow}
    {costEvents : List CostRow} {attributed : Money ℚ} :
    refreshAttributedCost decodeNumeric tenantId runId runs costEvents = .ok (attributed, runs') ↔
      ∃ currencyRaw currency value,
        readCurrency tenantId runId runs = .ok (currencyRaw, currency) ∧
        readAttributed decodeNumeric tenantId runId currencyRaw currency costEvents =
          .ok attributed ∧
        bindCost attributed = .ok value ∧ runs' = setCost tenantId runId value runs := by
  constructor
  · intro h
    cases hcurrency : readCurrency tenantId runId runs with
    | error e => simp [refreshAttributedCost, hcurrency] at h
    | ok read =>
        rcases read with ⟨currencyRaw, currency⟩
        cases hsum : readAttributed decodeNumeric tenantId runId currencyRaw currency
            costEvents with
        | error e => simp [refreshAttributedCost, hcurrency, hsum] at h
        | ok total =>
            cases hbind : bindCost total with
            | error e => simp [refreshAttributedCost, hcurrency, hsum, hbind] at h
            | ok value =>
                have hpair : total = attributed ∧ setCost tenantId runId value runs = runs' := by
                  simpa [refreshAttributedCost, hcurrency, hsum, hbind] using h
                rcases hpair with ⟨rfl, rfl⟩
                exact ⟨currencyRaw, currency, value, rfl, hsum, hbind, rfl⟩
  · rintro ⟨currencyRaw, currency, value, hcurrency, hsum, hbind, rfl⟩
    simp [refreshAttributedCost, hcurrency, hsum, hbind]

end Falkr
