import Falkr.Core.Money
import Falkr.Lib.LargestRemainder

/-!
# Pricing — the three cost measures of a line, and cost apportionment

Amounts are exact rationals.
-/

namespace Falkr

open Lib

inductive PricingError
  | discountRateOutOfRange (rate : ℚ)
  | negativeQuantity (quantity : ℚ)
  | negativeUnitPrice (price : ℚ)
  | negativeCoverage (quantity : ℚ)
  | noWeights
  | invalidWeights
  | currency (mismatch : CurrencyMismatch)
  deriving DecidableEq

/-- A reduction applied to the list unit price; its rate is a fraction in `[0, 1]`. -/
inductive Discount
  | negotiated (rate : ℚ)
  | volume (rate : ℚ)
  deriving DecidableEq

def Discount.rate : Discount → ℚ
  | negotiated rate => rate
  | volume rate => rate

/-- The portion of a line item covered by an existing commitment. -/
structure CommitmentCoverage where
  coveredQuantity : ℚ
  committedUnitPrice : ℚ
  prepaid : Bool
  deriving DecidableEq

structure PricingInputs where
  listUnitPrice : ℚ
  quantity : ℚ
  currency : Currency
  discounts : List Discount
  commitment : Option CommitmentCoverage
  deriving DecidableEq

/-- The three FOCUS cost measures for one line. -/
structure CostAmounts where
  listCost : Money ℚ
  billedCost : Money ℚ
  effectiveCost : Money ℚ
  deriving DecidableEq

namespace PricingInputs

/-- What is left of the list price after every discount. -/
def retained (inputs : PricingInputs) : ℚ :=
  inputs.discounts.foldl (fun acc d => acc * (1 - d.rate)) 1

/-- The covered quantity, its price, and whether it was paid up front. -/
def coverage (inputs : PricingInputs) : Except PricingError (ℚ × ℚ × Bool) :=
  match inputs.commitment with
  | some c =>
      if c.coveredQuantity < 0 then .error (.negativeCoverage c.coveredQuantity)
      else .ok (min c.coveredQuantity inputs.quantity, c.committedUnitPrice, c.prepaid)
  | none => .ok (0, 0, false)

/-- Computes the three FOCUS cost measures. -/
def compute (inputs : PricingInputs) : Except PricingError CostAmounts :=
  if inputs.quantity < 0 then .error (.negativeQuantity inputs.quantity)
  else if inputs.listUnitPrice < 0 then .error (.negativeUnitPrice inputs.listUnitPrice)
  else
    match inputs.discounts.find? fun d => d.rate < 0 ∨ 1 < d.rate with
    | some d => .error (.discountRateOutOfRange d.rate)
    | none => do
        let discountedUnitPrice := inputs.listUnitPrice * inputs.retained
        let (coveredQty, committedPrice, prepaid) ← inputs.coverage
        let onDemandQty := inputs.quantity - coveredQty
        let listCost : Money ℚ := ⟨inputs.listUnitPrice * inputs.quantity, inputs.currency⟩
        let onDemandCost : Money ℚ := ⟨onDemandQty * discountedUnitPrice, inputs.currency⟩
        let coveredCost : Money ℚ := ⟨coveredQty * committedPrice, inputs.currency⟩
        let billedCost ←
          if prepaid then .ok onDemandCost
          else (onDemandCost.checkedAdd coveredCost).run.mapError .currency
        let effectiveCost ← (onDemandCost.checkedAdd coveredCost).run.mapError .currency
        .ok { listCost, billedCost, effectiveCost }

end PricingInputs

/-- The loop in `apportion`: one step for each target, as long as a whole step is left. -/
def topUp (step : ℚ) : List (Nat × ℚ) → List ℚ → ℚ → List ℚ × ℚ
  | [], floored, leftover => (floored, leftover)
  | (target, _) :: rest, floored, leftover =>
      if step ≤ leftover then
        topUp step rest (floored.modify target (· + step)) (leftover - step)
      else (floored, leftover)

/-- Splits `total` across `weights`, preserving the total exactly. -/
def apportion (total : Money ℚ) (weights : List ℚ) (dp : Nat) :
    Except PricingError (List (Money ℚ)) :=
  if weights.isEmpty then .error .noWeights
  else if weights.any fun w => w < 0 then .error .invalidWeights
  else
    let weightSum := weights.sum
    if weightSum ≤ 0 then .error .invalidWeights
    else
      let currency := total.currency
      let amount := total.amount
      -- The power of ten is a 64-bit one.
      let step : ℚ := 1 / ((10 ^ dp % 2 ^ 64 : Nat) : ℚ)
      let exact := weights.map fun w => amount * w / weightSum
      let floored := exact.map (roundDpToZero dp)
      let remainders := exact.mapIdx fun i x => (i, x - roundDpToZero dp x)
      let leftover := amount - floored.sum
      let remainders := remainders.insertionSort fun a b => b.2 < a.2 ∨ b.2 = a.2 ∧ a.1 ≤ b.1
      let (floored, leftover) := topUp step remainders floored leftover
      let floored :=
        if leftover = 0 then floored
        else
          match remainders with
          | [] => floored
          | (target, _) :: _ => floored.modify target (· + leftover)
      .ok (floored.map fun a => { amount := a, currency := currency })

end Falkr
