import Mathlib.Tactic.Ring

/-!
# Calendar — days and civil dates

Days are counted from 1970-01-01 in the proleptic Gregorian calendar.  A year is taken to begin in
March, so that the leap day is its last day, and four hundred years are one era of 146097 days.
The count can be told from the date (`daysFromCivil_civilFromDays`).
-/

namespace Falkr
namespace Lib

structure CivilDate where
  year : Int
  month : Nat
  day : Nat
  deriving DecidableEq, Repr

/-! ## Inside an era -/

/-- The year of the era on whose days a day of the era falls. -/
def yearOfEra (dayOfEra : Nat) : Nat :=
  let century := min (dayOfEra / 36524) 3
  let dayOfCentury := dayOfEra - 36524 * century
  100 * century + 4 * (dayOfCentury / 1461) + min (dayOfCentury % 1461 / 365) 3

def daysBeforeYear (year : Nat) : Nat :=
  365 * year + year / 4 - year / 100

theorem yearOfEra_spec (dayOfEra : Nat) (h : dayOfEra < 146097) :
    yearOfEra dayOfEra < 400 ∧ daysBeforeYear (yearOfEra dayOfEra) ≤ dayOfEra ∧
      dayOfEra ≤ daysBeforeYear (yearOfEra dayOfEra) + 365 := by
  simp only [yearOfEra]
  have hcentury : min (dayOfEra / 36524) 3 ≤ 3 ∧ 36524 * min (dayOfEra / 36524) 3 ≤ dayOfEra ∧
      dayOfEra ≤ 36524 * min (dayOfEra / 36524) 3 + 36524 := by omega
  generalize min (dayOfEra / 36524) 3 = century at hcentury ⊢
  -- The last century of an era and the last year of four are a day longer than the others.
  have hquad : (dayOfEra - 36524 * century) / 1461 ≤ 24 := by omega
  have hsplit := Nat.div_add_mod (dayOfEra - 36524 * century) 1461
  have hrest := Nat.mod_lt (dayOfEra - 36524 * century) (by omega : 0 < 1461)
  generalize (dayOfEra - 36524 * century) / 1461 = quad at hquad hsplit ⊢
  generalize (dayOfEra - 36524 * century) % 1461 = rest at hrest hsplit ⊢
  have hyear : min (rest / 365) 3 ≤ 3 ∧ 365 * min (rest / 365) 3 ≤ rest ∧
      rest ≤ 365 * min (rest / 365) 3 + 365 := by omega
  generalize min (rest / 365) 3 = year at hyear ⊢
  have hdays : daysBeforeYear (100 * century + 4 * quad + year) =
      36524 * century + 1461 * quad + 365 * year := by
    unfold daysBeforeYear
    omega
  omega

/-- The days of a year before its month, counted from March. -/
def daysBeforeMonth (month : Nat) : Nat :=
  (153 * month + 2) / 5

def monthOfYear (dayOfYear : Nat) : Nat :=
  (5 * dayOfYear + 2) / 153

theorem monthOfYear_spec (dayOfYear : Nat) (h : dayOfYear ≤ 365) :
    monthOfYear dayOfYear < 12 ∧ daysBeforeMonth (monthOfYear dayOfYear) ≤ dayOfYear ∧
      dayOfYear ≤ daysBeforeMonth (monthOfYear dayOfYear) + 30 := by
  unfold monthOfYear daysBeforeMonth
  omega

/-! ## Dates -/

/-- The date of a day. -/
def civilFromDays (days : Int) : CivilDate :=
  let era := (days + 719468) / 146097
  let dayOfEra := ((days + 719468) % 146097).toNat
  let dayOfYear := dayOfEra - daysBeforeYear (yearOfEra dayOfEra)
  let month := monthOfYear dayOfYear
  -- January and February belong to the next year.
  { year := era * 400 + yearOfEra dayOfEra + if month < 10 then 0 else 1
    month := if month < 10 then month + 3 else month - 9
    day := dayOfYear - daysBeforeMonth month + 1 }

/-- The day of a date. -/
def daysFromCivil (date : CivilDate) : Int :=
  let year := if date.month ≤ 2 then date.year - 1 else date.year
  let month := if date.month ≤ 2 then date.month + 9 else date.month - 3
  let dayOfYear := daysBeforeMonth month + date.day - 1
  year / 400 * 146097 + (daysBeforeYear (year % 400).toNat + dayOfYear : Nat) - 719468

theorem daysFromCivil_civilFromDays (days : Int) : daysFromCivil (civilFromDays days) = days := by
  have hsplit := Int.mul_ediv_add_emod (days + 719468) 146097
  have hnonneg := Int.emod_nonneg (days + 719468) (by omega : (146097 : Int) ≠ 0)
  have hlt := Int.emod_lt_of_pos (days + 719468) (by omega : (0 : Int) < 146097)
  simp only [civilFromDays]
  generalize (days + 719468) / 146097 = era at hsplit ⊢
  generalize (days + 719468) % 146097 = rest at hsplit hnonneg hlt ⊢
  rcases yearOfEra_spec rest.toNat (by omega) with ⟨hyear, hbefore, hafter⟩
  generalize yearOfEra rest.toNat = year at hyear hbefore hafter ⊢
  rcases monthOfYear_spec (rest.toNat - daysBeforeYear year) (by omega) with
    ⟨hmonth, hfirst, hlast⟩
  generalize monthOfYear (rest.toNat - daysBeforeYear year) = month at hmonth hfirst hlast ⊢
  by_cases hspring : month < 10
  · have hlate : ¬month + 3 ≤ 2 := by omega
    have hera : (era * 400 + year + 0) / 400 = era := by omega
    have hrest : ((era * 400 + year + 0) % 400).toNat = year := by omega
    simp only [daysFromCivil, hspring, if_true, hlate, if_false, hera, hrest, Nat.add_sub_cancel]
    clear hera hrest
    omega
  · have hearly : month - 9 ≤ 2 := by omega
    have hera : (era * 400 + year + 1 - 1) / 400 = era := by omega
    have hrest : ((era * 400 + year + 1 - 1) % 400).toNat = year := by omega
    have hback : month - 9 + 9 = month := by omega
    simp only [daysFromCivil, hspring, if_false, hearly, if_true, hera, hrest, hback]
    clear hera hrest
    omega

example : civilFromDays 20673 = { year := 2026, month := 8, day := 8 } := by decide

end Lib
end Falkr
