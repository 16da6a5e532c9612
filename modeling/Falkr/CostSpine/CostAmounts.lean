import Falkr.CostSpine.Pricing
import Mathlib.Algebra.BigOperators.Group.List.Basic
import Mathlib.Tactic.Linarith

/-!
# The three cost measures of a priced line

`compute` accepts a line exactly when its quantities, its list price and its discount rates are in
range, and its answer is then a closed form of the inputs.  The committed unit price is in no check.
-/

namespace Falkr

namespace PricingInputs

/-! ## The closed form -/

/-- What `compute` checks. -/
structure Accepted (inputs : PricingInputs) : Prop where
  quantity : 0 ≤ inputs.quantity
  price : 0 ≤ inputs.listUnitPrice
  rates : ∀ d ∈ inputs.discounts, 0 ≤ d.rate ∧ d.rate ≤ 1
  covered : ∀ c ∈ inputs.commitment, 0 ≤ c.coveredQuantity

/-- The quantity the commitment absorbs. -/
def coveredQty (inputs : PricingInputs) : ℚ :=
  inputs.commitment.elim 0 fun c => min c.coveredQuantity inputs.quantity

/-- What the covered quantity costs. -/
def coveredCost (inputs : PricingInputs) : ℚ :=
  inputs.commitment.elim 0 fun c => min c.coveredQuantity inputs.quantity * c.committedUnitPrice

/-- What the rest of the line costs. -/
def onDemandCost (inputs : PricingInputs) : ℚ :=
  (inputs.quantity - inputs.coveredQty) * (inputs.listUnitPrice * inputs.retained)

def isPrepaid (inputs : PricingInputs) : Bool :=
  inputs.commitment.elim false (·.prepaid)

/-- The amounts of a line that is accepted. -/
def amounts (inputs : PricingInputs) : CostAmounts where
  listCost := ⟨inputs.listUnitPrice * inputs.quantity, inputs.currency⟩
  billedCost :=
    ⟨inputs.onDemandCost + if inputs.isPrepaid then 0 else inputs.coveredCost, inputs.currency⟩
  effectiveCost := ⟨inputs.onDemandCost + inputs.coveredCost, inputs.currency⟩

theorem coverage_of_covered {inputs : PricingInputs}
    (h : ∀ c ∈ inputs.commitment, 0 ≤ c.coveredQuantity) :
    ∃ price, inputs.coverage = .ok (inputs.coveredQty, price, inputs.isPrepaid) ∧
      inputs.coveredQty * price = inputs.coveredCost := by
  cases hc : inputs.commitment with
  | none => exact ⟨0, by simp [coverage, coveredQty, coveredCost, isPrepaid, hc]⟩
  | some c =>
      have hnot : ¬ c.coveredQuantity < 0 := not_lt.2 (h c hc)
      exact ⟨c.committedUnitPrice, by
        simp [coverage, coveredQty, coveredCost, isPrepaid, hc, hnot]⟩

theorem coverage_ok {inputs : PricingInputs} {r : ℚ × ℚ × Bool} (h : inputs.coverage = .ok r) :
    ∀ c ∈ inputs.commitment, 0 ≤ c.coveredQuantity := by
  intro c hc
  by_contra hneg
  simp [coverage, Option.mem_def.1 hc, not_le.1 hneg] at h

theorem find?_rate_none {inputs : PricingInputs} :
    (inputs.discounts.find? fun d => d.rate < 0 ∨ 1 < d.rate) = none ↔
      ∀ d ∈ inputs.discounts, 0 ≤ d.rate ∧ d.rate ≤ 1 := by
  simp

theorem compute_of_accepted {inputs : PricingInputs} (h : Accepted inputs) :
    inputs.compute = .ok inputs.amounts := by
  rcases coverage_of_covered h.covered with ⟨price, hcov, hprice⟩
  have hq : ¬ inputs.quantity < 0 := not_lt.2 h.quantity
  have hp : ¬ inputs.listUnitPrice < 0 := not_lt.2 h.price
  simp only [compute, hq, hp, if_false, find?_rate_none.2 h.rates, hcov]
  cases hpre : inputs.isPrepaid <;>
    simp [Money.checkedAdd, Money.sameCurrency, amounts, onDemandCost, hpre, hprice,
      Except.mapError, bind, Except.bind, pure, Id.run]

theorem accepted_of_compute {inputs : PricingInputs} {a : CostAmounts}
    (h : inputs.compute = .ok a) : Accepted inputs := by
  unfold compute at h
  split at h
  · cases h
  next hq =>
  split at h
  · cases h
  next hp =>
  split at h
  · cases h
  next hrates =>
  refine ⟨not_lt.1 hq, not_lt.1 hp, find?_rate_none.1 hrates, ?_⟩
  cases hcov : inputs.coverage with
  | error e => simp [hcov, bind, Except.bind] at h
  | ok r => exact coverage_ok hcov

/-- A line is priced exactly when it is accepted, and then at the closed form. -/
theorem compute_eq_ok_iff {inputs : PricingInputs} {a : CostAmounts} :
    inputs.compute = .ok a ↔ Accepted inputs ∧ a = inputs.amounts := by
  constructor
  · intro h
    have hacc := accepted_of_compute h
    exact ⟨hacc, Except.ok.inj (h.symm.trans (compute_of_accepted hacc))⟩
  · rintro ⟨hacc, rfl⟩
    exact compute_of_accepted hacc

/-! ## The retained fraction of the price -/

theorem retained_eq_prod (inputs : PricingInputs) :
    inputs.retained = (inputs.discounts.map fun d => 1 - d.rate).prod := by
  rw [retained, List.prod_eq_foldl, List.foldl_map]

theorem retained_perm {inputs : PricingInputs} {ds : List Discount}
    (h : ds.Perm inputs.discounts) :
    retained { inputs with discounts := ds } = inputs.retained := by
  simp only [retained_eq_prod]
  exact (h.map _).prod_eq

theorem retained_cons (inputs : PricingInputs) (d : Discount) :
    retained { inputs with discounts := d :: inputs.discounts } =
      (1 - d.rate) * inputs.retained := by
  simp [retained_eq_prod]

/-- The discounts never turn a price around, and never raise it. -/
theorem retained_mem_unit {inputs : PricingInputs}
    (h : ∀ d ∈ inputs.discounts, 0 ≤ d.rate ∧ d.rate ≤ 1) :
    0 ≤ inputs.retained ∧ inputs.retained ≤ 1 := by
  rw [retained_eq_prod]
  generalize inputs.discounts = ds at h
  induction ds with
  | nil => simp
  | cons d ds ih =>
      rcases ih fun d hd => h d (List.mem_cons_of_mem _ hd) with ⟨hnonneg, hle⟩
      rcases h d List.mem_cons_self with ⟨hd0, hd1⟩
      rw [List.map_cons, List.prod_cons]
      exact ⟨mul_nonneg (by linarith) hnonneg,
        mul_le_one₀ (by linarith) hnonneg hle⟩

/-! ## Signs and the bound by the list cost -/

namespace Accepted

variable {inputs : PricingInputs}

theorem retained_nonneg (h : Accepted inputs) : 0 ≤ inputs.retained :=
  (retained_mem_unit h.rates).1

theorem retained_le_one (h : Accepted inputs) : inputs.retained ≤ 1 :=
  (retained_mem_unit h.rates).2

theorem coveredQty_le (h : Accepted inputs) : inputs.coveredQty ≤ inputs.quantity := by
  cases hc : inputs.commitment with
  | none => simpa [coveredQty, hc] using h.quantity
  | some c => simp [coveredQty, hc]

theorem onDemandCost_nonneg (h : Accepted inputs) : 0 ≤ inputs.onDemandCost :=
  mul_nonneg (sub_nonneg.2 h.coveredQty_le) (mul_nonneg h.price h.retained_nonneg)

theorem onDemandCost_le (h : Accepted inputs) :
    inputs.onDemandCost ≤ (inputs.quantity - inputs.coveredQty) * inputs.listUnitPrice := by
  refine mul_le_mul_of_nonneg_left ?_ (sub_nonneg.2 h.coveredQty_le)
  exact mul_le_of_le_one_right h.price h.retained_le_one

/-- A covered quantity priced at no more than list costs no more than at list. -/
theorem coveredCost_le (h : Accepted inputs)
    (hprice : ∀ c ∈ inputs.commitment, c.committedUnitPrice ≤ inputs.listUnitPrice) :
    inputs.coveredCost ≤ inputs.coveredQty * inputs.listUnitPrice := by
  cases hc : inputs.commitment with
  | none => simp [coveredCost, coveredQty, hc]
  | some c =>
      have hnonneg : 0 ≤ min c.coveredQuantity inputs.quantity :=
        le_min (h.covered c hc) h.quantity
      simpa [coveredCost, coveredQty, hc] using
        mul_le_mul_of_nonneg_left (hprice c hc) hnonneg

/-- Only the covered part can make the effective cost exceed the list cost. -/
theorem effectiveCost_le_listCost (h : Accepted inputs)
    (hprice : ∀ c ∈ inputs.commitment, c.committedUnitPrice ≤ inputs.listUnitPrice) :
    inputs.amounts.effectiveCost.amount ≤ inputs.amounts.listCost.amount := by
  calc inputs.onDemandCost + inputs.coveredCost
      ≤ (inputs.quantity - inputs.coveredQty) * inputs.listUnitPrice +
          inputs.coveredQty * inputs.listUnitPrice :=
        add_le_add h.onDemandCost_le (h.coveredCost_le hprice)
    _ = inputs.listUnitPrice * inputs.quantity := by ring

end Accepted

/-- The billed cost is the effective cost, less the covered part when it was paid up front. -/
theorem effectiveCost_sub_billedCost (inputs : PricingInputs) :
    inputs.amounts.effectiveCost.amount - inputs.amounts.billedCost.amount =
      if inputs.isPrepaid then inputs.coveredCost else 0 := by
  cases hpre : inputs.isPrepaid <;> simp [amounts, hpre]

/-- What a reader of the three amounts counts on. -/
structure Bounded (inputs : PricingInputs) (a : CostAmounts) : Prop where
  list : 0 ≤ a.listCost.amount
  billed : 0 ≤ a.billedCost.amount
  effective : 0 ≤ a.effectiveCost.amount
  effective_le :
    (∀ c ∈ inputs.commitment, c.committedUnitPrice ≤ inputs.listUnitPrice) →
      a.effectiveCost.amount ≤ a.listCost.amount

/-- A commitment that pays the customer does not pay more, over the quantity it absorbs, than the
rest of the line costs. -/
def CreditCovered (inputs : PricingInputs) : Prop :=
  ∀ c ∈ inputs.commitment,
    min c.coveredQuantity inputs.quantity * -c.committedUnitPrice ≤
      (inputs.quantity - min c.coveredQuantity inputs.quantity) *
        (inputs.listUnitPrice * inputs.retained)

/-- The credit is covered exactly when the effective cost is no credit. -/
theorem creditCovered_iff {inputs : PricingInputs} (h : Accepted inputs) :
    CreditCovered inputs ↔ 0 ≤ inputs.onDemandCost + inputs.coveredCost := by
  cases hc : inputs.commitment with
  | none =>
      have hcov : inputs.coveredCost = 0 := by simp [coveredCost, hc]
      simpa [CreditCovered, hc, hcov] using h.onDemandCost_nonneg
  | some c =>
      simp [CreditCovered, onDemandCost, coveredCost, coveredQty, hc]
      constructor <;> intro hle <;> linarith

/-- No check looks at the committed unit price, so the amounts are in bounds exactly when the
credit a negative one gives is covered. -/
theorem compute_bounded_iff {inputs : PricingInputs} {a : CostAmounts}
    (h : inputs.compute = .ok a) : Bounded inputs a ↔ CreditCovered inputs := by
  rcases compute_eq_ok_iff.1 h with ⟨hacc, rfl⟩
  rw [creditCovered_iff hacc]
  constructor
  · intro hbounded
    exact hbounded.effective
  · intro heffective
    have honDemand := hacc.onDemandCost_nonneg
    refine ⟨mul_nonneg hacc.price hacc.quantity, ?_, heffective, hacc.effectiveCost_le_listCost⟩
    -- A prepaid line is billed for its uncovered part alone, any other for all of it.
    cases hpre : inputs.isPrepaid
    · simpa [amounts, hpre] using heffective
    · simpa [amounts, hpre] using honDemand

/-- Half of ten units is covered by a commitment at a unit price of minus twenty. -/
def paidToRun : PricingInputs where
  listUnitPrice := 10
  quantity := 10
  currency := .usd
  discounts := []
  commitment := some { coveredQuantity := 5, committedUnitPrice := -20, prepaid := false }

theorem compute_not_bounded :
    ∃ a, paidToRun.compute = .ok a ∧ a.effectiveCost = ⟨-50, .usd⟩ ∧ ¬ Bounded paidToRun a := by
  refine ⟨_, rfl, by decide +kernel, ?_⟩
  intro hbounded
  exact absurd hbounded.effective (by decide +kernel)

theorem compute_bounded_prepaid :
    Bounded { paidToRun with commitment := some ⟨5, 4, true⟩ }
      { listCost := ⟨100, .usd⟩, billedCost := ⟨50, .usd⟩, effectiveCost := ⟨70, .usd⟩ } :=
  (compute_bounded_iff (by decide +kernel)).2 (by
    intro c hc
    rcases Option.some.inj hc with rfl
    decide +kernel)

/-! ## Relations between two lines -/

/-- The same line with other discounts. -/
def withDiscounts (inputs : PricingInputs) (ds : List Discount) : PricingInputs :=
  { inputs with discounts := ds }

/-- The same line with another covered quantity. -/
def withCovered (inputs : PricingInputs) (x : ℚ) : PricingInputs :=
  { inputs with commitment := inputs.commitment.map fun c => { c with coveredQuantity := x } }

/-- How the amounts `a` of a line move with its discounts and its coverage. -/
structure Related (inputs : PricingInputs) (a : CostAmounts) : Prop where
  permuted : ∀ ds, ds.Perm inputs.discounts → (inputs.withDiscounts ds).compute = .ok a
  discounted : ∀ d ds, 0 ≤ d.rate → d.rate ≤ 1 → ds.Perm (d :: inputs.discounts) →
    ∃ b, (inputs.withDiscounts ds).compute = .ok b ∧ b.listCost = a.listCost ∧
      b.billedCost.amount ≤ a.billedCost.amount ∧
      b.effectiveCost.amount ≤ a.effectiveCost.amount
  amortised : ∀ c ∈ inputs.commitment, a.effectiveCost.amount - a.billedCost.amount =
    if c.prepaid then min c.coveredQuantity inputs.quantity * c.committedUnitPrice else 0
  unamortised : inputs.commitment = none → a.effectiveCost = a.billedCost
  capped : ∀ x, inputs.quantity ≤ x →
    (inputs.withCovered x).compute = (inputs.withCovered inputs.quantity).compute
  raised : ∀ c ∈ inputs.commitment, inputs.quantity ≤ c.coveredQuantity →
    ∀ x, inputs.quantity ≤ x → (inputs.withCovered x).compute = .ok a

section Related

variable {inputs : PricingInputs}

theorem accepted_withDiscounts (h : Accepted inputs) {ds : List Discount}
    (hrates : ∀ d ∈ ds, 0 ≤ d.rate ∧ d.rate ≤ 1) : Accepted (inputs.withDiscounts ds) where
  quantity := h.quantity
  price := h.price
  rates := hrates
  covered := h.covered

theorem amounts_of_perm {ds : List Discount} (h : ds.Perm inputs.discounts) :
    (inputs.withDiscounts ds).amounts = inputs.amounts := by
  have hretained : (inputs.withDiscounts ds).retained = inputs.retained := retained_perm h
  have honDemand : (inputs.withDiscounts ds).onDemandCost = inputs.onDemandCost :=
    congrArg (fun r => (inputs.quantity - inputs.coveredQty) * (inputs.listUnitPrice * r))
      hretained
  unfold amounts
  rw [honDemand]
  rfl

/-- A further discount leaves the uncovered part no dearer. -/
theorem onDemandCost_discounted (h : Accepted inputs) {d : Discount} (h0 : 0 ≤ d.rate)
    {ds : List Discount} (hds : ds.Perm (d :: inputs.discounts)) :
    (inputs.withDiscounts ds).onDemandCost ≤ inputs.onDemandCost := by
  have hretained : (inputs.withDiscounts ds).retained = (1 - d.rate) * inputs.retained :=
    (retained_perm (show ds.Perm (inputs.withDiscounts (d :: inputs.discounts)).discounts
      from hds)).trans (retained_cons inputs d)
  have hle : (inputs.withDiscounts ds).retained ≤ inputs.retained := by
    rw [hretained]
    exact mul_le_of_le_one_left h.retained_nonneg (by linarith)
  exact mul_le_mul_of_nonneg_left (mul_le_mul_of_nonneg_left hle h.price)
    (sub_nonneg.2 h.coveredQty_le)

theorem accepted_withCovered (h : Accepted inputs) {x : ℚ} (hx : inputs.quantity ≤ x) :
    Accepted (inputs.withCovered x) where
  quantity := h.quantity
  price := h.price
  rates := h.rates
  covered := by
    intro c hc
    rcases Option.map_eq_some_iff.1 hc with ⟨c₀, -, rfl⟩
    exact h.quantity.trans hx

/-- A coverage of the whole quantity is the same whatever it is capped from. -/
theorem amounts_withCovered (inputs : PricingInputs) {x y : ℚ} (hx : inputs.quantity ≤ x)
    (hy : inputs.quantity ≤ y) :
    (inputs.withCovered x).amounts = (inputs.withCovered y).amounts := by
  cases hc : inputs.commitment <;>
    simp [amounts, onDemandCost, coveredCost, coveredQty, isPrepaid, retained, withCovered, hc,
      min_eq_right hx, min_eq_right hy]

/-- Two accepted amounts of coverage past the quantity give one answer. -/
theorem compute_withCovered (h : Accepted inputs) {x y : ℚ} (hx : inputs.quantity ≤ x)
    (hy : inputs.quantity ≤ y) :
    (inputs.withCovered x).compute = (inputs.withCovered y).compute := by
  rw [compute_of_accepted (accepted_withCovered h hx),
    compute_of_accepted (accepted_withCovered h hy), amounts_withCovered inputs hx hy]

theorem withCovered_self {c : CommitmentCoverage} (hc : inputs.commitment = some c) :
    inputs.withCovered c.coveredQuantity = inputs := by
  cases inputs
  simp_all [withCovered]

end Related

/-- The order of the discounts does not matter, one more never raises a cost, only the covered
part separates billed from effective, and coverage past the quantity is coverage of the quantity. -/
theorem compute_related {inputs : PricingInputs} {a : CostAmounts}
    (h : inputs.compute = .ok a) : Related inputs a := by
  have hacc := accepted_of_compute h
  rcases Except.ok.inj (h.symm.trans (compute_of_accepted hacc)) with rfl
  constructor
  case permuted =>
    intro ds hds
    rw [compute_of_accepted (accepted_withDiscounts hacc fun d hd => hacc.rates d (hds.subset hd)),
      amounts_of_perm hds]
  case discounted =>
    intro d ds h0 h1 hds
    have hrates : ∀ e ∈ ds, 0 ≤ e.rate ∧ e.rate ≤ 1 := by
      intro e he
      rcases List.mem_cons.1 (hds.subset he) with rfl | he
      · exact ⟨h0, h1⟩
      · exact hacc.rates e he
    have hle := onDemandCost_discounted hacc h0 hds
    exact ⟨_, compute_of_accepted (accepted_withDiscounts hacc hrates), rfl,
      add_le_add_left hle _, add_le_add_left hle _⟩
  case amortised =>
    intro c hc
    rw [effectiveCost_sub_billedCost]
    simp [isPrepaid, coveredCost, Option.mem_def.1 hc]
  case unamortised =>
    intro hc
    simp [amounts, isPrepaid, coveredCost, hc]
  case capped =>
    intro x hx
    exact compute_withCovered hacc hx le_rfl
  case raised =>
    intro c hc hle x hx
    rw [compute_withCovered hacc hx hle, withCovered_self hc]
    exact h

theorem compute_related_prepaid :
    Related { paidToRun with commitment := some ⟨5, 4, true⟩ }
      { listCost := ⟨100, .usd⟩, billedCost := ⟨50, .usd⟩, effectiveCost := ⟨70, .usd⟩ } :=
  compute_related (by decide +kernel)

end PricingInputs

end Falkr
