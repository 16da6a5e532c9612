import Falkr.Lib.LargestRemainder

/-!
# Allocation — the reference allocation rule

Amounts are exact rationals, so the checked operations never overflow.
-/

namespace Falkr

open Lib

inductive AllocationError
  | noWeights
  | negativeWeight (weight : ℚ)
  | zeroWeight
  | overflow
  | scaleTooLarge (scale : Nat)
  deriving DecidableEq

/-- The loop in `allocate`.  The first argument counts the passes until `cursor` exceeds twice the
number of remainders. -/
def handOut (remainders : List (ℚ × Nat)) (step : ℚ) :
    Nat → Nat → List ℚ → ℚ → Except AllocationError (List ℚ)
  | 0, _, parts, leftover => if leftover = 0 then .ok parts else .error .overflow
  | passes + 1, cursor, parts, leftover =>
      if leftover = 0 then .ok parts
      else
        -- `remainders` is not empty here: without weights `allocate` has returned before.
        let index := (remainders.getD (cursor % remainders.length) (0, 0)).2
        handOut remainders step passes (cursor + 1) (parts.modify index (· + step))
          (leftover - step)

/-- Splits `total` across `weights`, at `scale` decimal places. -/
def allocate (total : ℚ) (weights : List ℚ) (scale : Nat) : Except AllocationError (List ℚ) :=
  if weights.isEmpty then .error .noWeights
  else if 28 < scale then .error (.scaleTooLarge scale)
  else
    match weights.find? fun weight => weight < 0 with
    | some weight => .error (.negativeWeight weight)
    | none =>
        let weightTotal := weights.sum
        if weightTotal = 0 then .error .zeroWeight
        else
          let exact := weights.map fun weight => total * weight / weightTotal
          let parts := exact.map (roundDpToZero scale)
          let remainders := exact.mapIdx fun index x => (|x - roundDpToZero scale x|, index)
          let leftover := total - parts.sum
          if leftover = 0 then .ok parts
          else
            let unit : ℚ := 1 / 10 ^ scale
            let step := if leftover < 0 then -unit else unit
            let remainders :=
              remainders.insertionSort fun a b => b.1 < a.1 ∨ b.1 = a.1 ∧ a.2 ≤ b.2
            handOut remainders step (2 * remainders.length) 0 parts leftover

end Falkr
