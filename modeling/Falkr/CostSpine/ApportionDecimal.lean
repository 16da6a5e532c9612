import Falkr.Core.Arithmetic
import Falkr.CostSpine.Pricing

/-!
# ApportionDecimal — apportionment with machine numbers

`apportion` as it runs: on decimals, whose operators panic when the result does not fit, with a step
that comes from a 64-bit power of ten.  A panic is `none`.
-/

namespace Falkr

open Lib Decimal

/-- `10_u64.pow(dp)`.  A power that does not fit panics in a build with overflow checks, and wraps
around in one without. -/
def powTen (overflowChecks : Bool) (dp : Nat) : Option (Fin (2 ^ 64)) :=
  if h : 10 ^ dp < 2 ^ 64 then some ⟨10 ^ dp, h⟩
  else if overflowChecks then none
  else some ⟨10 ^ dp % 2 ^ 64, Nat.mod_lt _ (by decide)⟩

/-- `Decimal::from` on 64 bits. -/
def decimalOfU64 (n : Fin (2 ^ 64)) : Decimal :=
  ofInt n.val (lt_trans n.isLt (by decide))

/-- One minor unit at the requested precision. -/
def unitStep (overflowChecks : Bool) (dp : Nat) : Option Decimal := do
  let power ← powTen overflowChecks dp
  div one (decimalOfU64 power)

/-- One pass of the first loop: the share cut off at `dp`, and what was cut off. -/
def cutShare (amount weightSum : Decimal) (dp : Nat) (w : Decimal) :
    Option (Decimal × Decimal) := do
  let product ← mul amount w
  let exact ← div product weightSum
  let down := roundToZero dp exact
  let remainder ← sub exact down
  pure (down, remainder)

/-- The remainders with their indices, the largest first and ties by index. -/
def sortedRemainders (parts : List (Decimal × Decimal)) : List (Nat × Decimal) :=
  (parts.mapIdx fun i part => (i, part.2)).insertionSort fun a b =>
    b.2.toRat < a.2.toRat ∨ b.2.toRat = a.2.toRat ∧ a.1 ≤ b.1

/-- `floored[target] += amount`. -/
def addAt (target : Nat) (amount : Decimal) (floored : List Decimal) : Option (List Decimal) := do
  let part ← floored[target]?
  let part ← add part amount
  pure (floored.set target part)

/-- The second loop: one step for each target, as long as a whole step is left. -/
def topUpDecimal (step : Decimal) :
    List (Nat × Decimal) → List Decimal → Decimal → Option (List Decimal × Decimal)
  | [], floored, leftover => some (floored, leftover)
  | (target, _) :: rest, floored, leftover =>
      if step.toRat ≤ leftover.toRat then do
        let floored ← addAt target step floored
        let leftover ← sub leftover step
        topUpDecimal step rest floored leftover
      else some (floored, leftover)

/-- The two loops, once the weights are checked and the step is known; a residue lands on the
largest remainder. -/
def spread (amount : Decimal) (weights : List Decimal) (weightSum step : Decimal) (dp : Nat) :
    Option (List Decimal) := do
  let parts ← weights.mapM (cutShare amount weightSum dp)
  let floored := parts.map Prod.fst
  let distributed ← Decimal.sum floored
  let leftover ← sub amount distributed
  let remainders := sortedRemainders parts
  let (floored, leftover) ← topUpDecimal step remainders floored leftover
  if leftover.mantissa = 0 then pure floored
  else
    match remainders with
    | [] => none
    | (target, _) :: _ => addAt target leftover floored

/-- Splits `total` across `weights`, preserving the total exactly. -/
def apportionDecimal (overflowChecks : Bool) (total : Money Decimal) (weights : List Decimal)
    (dp : Nat) : Option (Except PricingError (List (Money Decimal))) :=
  if weights.isEmpty then some (.error .noWeights)
  else if weights.any fun w => w.mantissa < 0 then some (.error .invalidWeights)
  else do
    let weightSum ← Decimal.sum weights
    if weightSum.mantissa ≤ 0 then pure (.error .invalidWeights)
    else do
      let step ← unitStep overflowChecks dp
      let shares ← spread total.amount weights weightSum step dp
      pure (.ok (shares.map fun a => { amount := a, currency := total.currency }))

/-! ## What is asked of a call -/

/-- A slice of decimals: it has at most `isize::MAX` bytes, and each of them takes sixteen. -/
structure DecimalSlice where
  items : List Decimal
  length_lt : items.length < 2 ^ 59

/-- The weights that pass the checks, with their sum. -/
structure WeightsPass (weights : List Decimal) (weightSum : Decimal) : Prop where
  ne_nil : weights ≠ []
  nonneg : ∀ w ∈ weights, 0 ≤ w.mantissa
  sum_eq : Decimal.sum weights = some weightSum
  pos : 0 < weightSum.mantissa

/-- The call returns, and the step that it builds, if it comes to that, is one unit. -/
def ApportionReturns (overflowChecks : Bool) (total : Money Decimal) (weights : List Decimal)
    (dp : Nat) : Prop :=
  (apportionDecimal overflowChecks total weights dp).isSome ∧
    ∀ weightSum, WeightsPass weights weightSum →
      (unitStep overflowChecks dp).map toRat = some (1 / 10 ^ dp)

/-- The total is a few units for each weight away from the largest decimal. -/
def KeepsDistance (amount : Decimal) (weights : List Decimal) : Prop :=
  |amount.toRat| + 32 * (weights.length + 1) ≤ mantissaBound

/-- The shares stay in range once the products are rounded, and so do the running sums of what the
shares are cut off at. -/
structure SharesFit (amount : Decimal) (weights : List Decimal) (weightSum : Decimal) (dp : Nat) :
    Prop where
  shares : ∀ w ∈ weights, ∀ product, mul amount w = some product →
    Fits (product.toRat / weightSum.toRat)
  sums : ∀ parts, weights.mapM (cutShare amount weightSum dp) = some parts →
    RunningFits Amount.zero (parts.map Prod.fst)

/-- No weights, a negative one, none that is positive, or numbers that fit: the sum of the weights,
the power of ten, the products, and, of a total at the edge of the range, the rounded shares. -/
def InRange (amount : Decimal) (weights : List Decimal) (dp : Nat) : Prop :=
  weights = [] ∨ (∃ w ∈ weights, w.mantissa < 0) ∨
    RunningFits Amount.zero weights ∧
      ((∀ w ∈ weights, w.mantissa = 0) ∨
        dp ≤ 19 ∧ (∀ w ∈ weights, Fits (amount.toRat * w.toRat)) ∧
          (KeepsDistance amount weights ∨
            ∀ weightSum, Decimal.sum weights = some weightSum →
              SharesFit amount weights weightSum dp))

end Falkr
