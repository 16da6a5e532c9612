import Falkr.Core.Arithmetic

/-!
# RunningSums — sums that are kept where an addition overflows

Some loops leave an amount out when adding it overflows.  The total they come to and what they
`lost` make up the exact total (`toRat_add_lost`).  Nothing is lost where each running sum is one
that a decimal stands for (`lost_eq_zero`), as it is where the amounts are few and of one scale
(`runningExact_of_bound`).
-/

namespace Falkr
namespace Decimal

/-- Adds the amounts one after the other, leaving out those whose addition overflows. -/
def sumSkipping (start : Decimal) (amounts : List Decimal) : Decimal :=
  amounts.foldl (fun sum amount => (add sum amount).getD sum) start

/-- What these additions lose: an amount that is left out, or what rounding drops. -/
def lost : Decimal → List Decimal → ℚ
  | _, [] => 0
  | start, amount :: rest =>
      match add start amount with
      | none => amount.toRat + lost start rest
      | some sum => start.toRat + amount.toRat - sum.toRat + lost sum rest

section Cons

variable {start amount sum : Decimal} {rest : List Decimal}

theorem sumSkipping_cons (start amount : Decimal) (rest : List Decimal) :
    sumSkipping start (amount :: rest) = sumSkipping ((add start amount).getD start) rest := rfl

theorem sumSkipping_append_singleton (start amount : Decimal) (amounts : List Decimal) :
    sumSkipping start (amounts ++ [amount]) =
      (add (sumSkipping start amounts) amount).getD (sumSkipping start amounts) := by
  simp [sumSkipping]

theorem lost_cons_of_none (h : add start amount = none) :
    lost start (amount :: rest) = amount.toRat + lost start rest := by
  rw [lost, h]

theorem lost_cons_of_some (h : add start amount = some sum) :
    lost start (amount :: rest) = start.toRat + amount.toRat - sum.toRat + lost sum rest := by
  rw [lost, h]

end Cons

/-- The exact total is the total of the additions and what they lost. -/
theorem toRat_add_lost (amounts : List Decimal) (start : Decimal) :
    start.toRat + (amounts.map toRat).sum =
      (sumSkipping start amounts).toRat + lost start amounts := by
  induction amounts generalizing start with
  | nil => simp [sumSkipping, lost]
  | cons amount rest ih =>
      rw [List.map_cons, List.sum_cons, sumSkipping_cons]
      cases hadd : add start amount with
      | none =>
          rw [lost_cons_of_none hadd, Option.getD_none]
          calc start.toRat + (amount.toRat + (rest.map toRat).sum)
              = amount.toRat + (start.toRat + (rest.map toRat).sum) := by ring
            _ = amount.toRat + ((sumSkipping start rest).toRat + lost start rest) := by
                rw [ih start]
            _ = (sumSkipping start rest).toRat + (amount.toRat + lost start rest) := by ring
      | some sum =>
          rw [lost_cons_of_some hadd, Option.getD_some]
          calc start.toRat + (amount.toRat + (rest.map toRat).sum)
              = start.toRat + amount.toRat - sum.toRat + (sum.toRat + (rest.map toRat).sum) := by
                ring
            _ = start.toRat + amount.toRat - sum.toRat +
                  ((sumSkipping sum rest).toRat + lost sum rest) := by rw [ih sum]
            _ = (sumSkipping sum rest).toRat +
                  (start.toRat + amount.toRat - sum.toRat + lost sum rest) := by ring

/-- Additions that never overflow leave nothing out. -/
theorem foldlM_add_eq_some {amounts : List Decimal} {start : Decimal}
    (h : RunningFits start amounts) :
    amounts.foldlM Amount.add start = some (sumSkipping start amounts) := by
  induction amounts generalizing start with
  | nil => rfl
  | cons amount rest ih =>
      rcases exists_add_iff.2 h.1 with ⟨sum, hadd⟩
      have hadd' : (Amount.add start amount : Option Decimal) = some sum := hadd
      rw [List.foldlM_cons, hadd', sumSkipping_cons, hadd]
      exact ih (h.2 sum hadd)

/-! ## Sums that are exact -/

theorem fits_of_representable {q : ℚ} (h : Representable q) : Fits q := by
  rcases h with ⟨exact, rfl⟩
  exact fits_toRat exact

theorem runningFits_of_runningExact {amounts : List Decimal} {start : Decimal}
    (h : RunningExact start.toRat amounts) : RunningFits start amounts := by
  induction amounts generalizing start with
  | nil => trivial
  | cons amount rest ih =>
      refine ⟨fits_of_representable h.1, fun sum hadd => ih ?_⟩
      rw [(toRat_add_iff hadd).2 h.1]
      exact h.2

theorem lost_eq_dropped {amounts : List Decimal} {start : Decimal}
    (h : RunningFits start amounts) : lost start amounts = dropped start amounts := by
  induction amounts generalizing start with
  | nil => rfl
  | cons amount rest ih =>
      rcases exists_add_iff.2 h.1 with ⟨sum, hadd⟩
      rw [lost_cons_of_some hadd, ih (h.2 sum hadd), dropped, hadd]

/-- Additions whose exact sums are all representable lose nothing. -/
theorem lost_eq_zero {amounts : List Decimal} {start : Decimal}
    (h : RunningExact start.toRat amounts) : lost start amounts = 0 := by
  rw [lost_eq_dropped (runningFits_of_runningExact h)]
  exact dropped_eq_zero amounts start h

theorem toRat_sumSkipping {amounts : List Decimal} {start : Decimal}
    (h : RunningExact start.toRat amounts) :
    (sumSkipping start amounts).toRat = start.toRat + (amounts.map toRat).sum := by
  rw [toRat_add_lost, lost_eq_zero h, add_zero]

/-- Few enough amounts of one scale never fill the mantissa. -/
theorem runningExact_of_bound {amounts : List Decimal} {scale bound : Nat}
    (hscale : scale ≤ maxScale) (hamounts : ∀ a ∈ amounts, a.scale = scale ∧
      a.mantissa.natAbs ≤ bound) {k : Int}
    (hbound : k.natAbs + amounts.length * bound < mantissaBound) :
    RunningExact (k / 10 ^ scale) amounts := by
  induction amounts generalizing k with
  | nil => trivial
  | cons amount rest ih =>
      rcases List.forall_mem_cons.1 hamounts with ⟨⟨hamount, hmantissa⟩, hrest⟩
      have hsum : (k / 10 ^ scale : ℚ) + amount.toRat =
          ((k + amount.mantissa : Int) : ℚ) / 10 ^ scale := by
        rw [toRat, hamount, ← add_div, Int.cast_add]
      have hlength : (amount :: rest).length * bound = rest.length * bound + bound := by
        rw [List.length_cons, Nat.succ_mul]
      have habs := Int.natAbs_add_le k amount.mantissa
      unfold RunningExact
      rw [hsum]
      exact ⟨⟨⟨k + amount.mantissa, scale, by omega, hscale⟩, rfl⟩, ih hrest (by omega)⟩

end Decimal
end Falkr
