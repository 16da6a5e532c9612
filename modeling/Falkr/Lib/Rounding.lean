import Mathlib.Data.Int.Order.Basic
import Mathlib.Data.Rat.Cast.Order
import Mathlib.Algebra.Order.Field.Basic
import Mathlib.Tactic.Linarith
import Mathlib.Tactic.NormNum
import Mathlib.Tactic.FieldSimp
import Mathlib.Tactic.Ring
import Mathlib.Tactic.Push

/-!
# Rounding — integer division that rounds half to even

`divHalfEven n d` is the integer nearest to `n / d`, the even one of the two when `n / d` lies
halfway between them.  The facts a fixed-width decimal needs of it are the distance to the exact
quotient and when the rounded quotient stays below an even bound.
-/

namespace Falkr
namespace Lib

/-- The integer nearest to `n / d`, a tie going to the even neighbour. -/
def divHalfEven (n : Int) (d : Nat) : Int :=
  let quotient := n / d
  let remainder := n % d
  if 2 * remainder < d then quotient
  else if d < 2 * remainder then quotient + 1
  else if quotient % 2 = 0 then quotient
  else quotient + 1

theorem divHalfEven_cases (n : Int) (d : Nat) :
    (divHalfEven n d = n / d ∧ (2 * (n % d) < d ∨ 2 * (n % d) = d ∧ n / d % 2 = 0)) ∨
      (divHalfEven n d = n / d + 1 ∧ (d < 2 * (n % d) ∨ 2 * (n % d) = d ∧ n / d % 2 ≠ 0)) := by
  unfold divHalfEven
  by_cases hlt : 2 * (n % (d : Int)) < d
  · simp [hlt]
  · by_cases hgt : (d : Int) < 2 * (n % d)
    · simp [hlt, hgt]
    · have heq : 2 * (n % (d : Int)) = d := le_antisymm (not_lt.1 hgt) (not_lt.1 hlt)
      by_cases heven : n / (d : Int) % 2 = 0 <;> simp [heq, heven]

/-- A quotient that comes out even is not rounded. -/
theorem divHalfEven_mul (q : Int) {d : Nat} (hd : 0 < d) : divHalfEven (q * d) d = q := by
  have hd' : (d : Int) ≠ 0 := by omega
  have hquotient : q * (d : Int) / d = q := Int.mul_ediv_cancel q hd'
  have hremainder : q * (d : Int) % d = 0 := Int.mul_emod_left q d
  simp [divHalfEven, hquotient, hremainder, hd]

/-- A rounded quotient stays below an even bound exactly when the exact quotient stays below it by
more than one half: at one half the tie goes to the bound itself. -/
theorem divHalfEven_lt_iff (n : Int) {d : Nat} (hd : 0 < d) (b : Int) :
    divHalfEven n d < 2 * b ↔ 2 * n < (4 * b - 1) * d := by
  have hdiv : (d : Int) * (n / d) + n % d = n := Int.mul_ediv_add_emod n d
  have hnonneg : 0 ≤ n % (d : Int) := Int.emod_nonneg n (by omega)
  have hmod : n % (d : Int) < d := Int.emod_lt_of_pos n (by omega)
  have hpos : (0 : Int) < d := by omega
  constructor
  · intro hlt
    rcases divHalfEven_cases n d with ⟨h, hr⟩ | ⟨h, hr⟩
    · rw [h] at hlt
      rcases hr with hr | ⟨hr, heven⟩
      · have hq : n / (d : Int) ≤ 2 * b - 1 := by omega
        have hmul : (d : Int) * (n / d) ≤ d * (2 * b - 1) := mul_le_mul_of_nonneg_left hq hpos.le
        linarith
      · have hq : n / (d : Int) ≤ 2 * b - 2 := by omega
        have hmul : (d : Int) * (n / d) ≤ d * (2 * b - 2) := mul_le_mul_of_nonneg_left hq hpos.le
        linarith
    · rw [h] at hlt
      have hq : n / (d : Int) ≤ 2 * b - 2 := by omega
      have hmul : (d : Int) * (n / d) ≤ d * (2 * b - 2) := mul_le_mul_of_nonneg_left hq hpos.le
      linarith
  · intro hlt
    have hq : n / (d : Int) < 2 * b := by
      by_contra hge
      have hmul : (d : Int) * (2 * b) ≤ d * (n / d) :=
        mul_le_mul_of_nonneg_left (not_lt.1 hge) hpos.le
      linarith
    rcases divHalfEven_cases n d with ⟨h, -⟩ | ⟨h, hr⟩
    · omega
    · -- Rounding up reaches the bound only from its predecessor, which is odd.
      by_contra hge
      have hqe : n / (d : Int) = 2 * b - 1 := by omega
      have hsum : (d : Int) * (2 * b - 1) + n % d = n := hqe ▸ hdiv
      have hge' : (d : Int) ≤ 2 * (n % d) := by omega
      linarith

theorem divHalfEven_neg (n : Int) {d : Nat} (hd : 0 < d) :
    divHalfEven (-n) d = -divHalfEven n d := by
  have hpos : (0 : Int) < d := by omega
  have hdiv : (d : Int) * (n / d) + n % d = n := Int.mul_ediv_add_emod n d
  have hnonneg : 0 ≤ n % (d : Int) := Int.emod_nonneg n (by omega)
  have hmod : n % (d : Int) < d := Int.emod_lt_of_pos n hpos
  -- Negation turns a remainder into its complement, unless there is none.
  by_cases hzero : n % (d : Int) = 0
  · obtain ⟨hq, hr⟩ : -n / (d : Int) = -(n / d) ∧ -n % (d : Int) = 0 := by
      refine (Int.ediv_emod_unique hpos).2 ⟨?_, le_rfl, hpos⟩
      linarith
    simp [divHalfEven, hzero, hr, hq, hd]
  · obtain ⟨hq, hr⟩ : -n / (d : Int) = -(n / d) - 1 ∧ -n % (d : Int) = d - n % d := by
      refine (Int.ediv_emod_unique hpos).2 ⟨?_, by omega, by omega⟩
      linarith
    unfold divHalfEven
    simp only [hq, hr]
    split_ifs <;> omega

/-- The rounded quotient is smaller than an even bound in magnitude exactly when the exact
quotient is, by more than one half. -/
theorem natAbs_divHalfEven_lt_iff (n : Int) {d : Nat} (hd : 0 < d) (b : Nat) :
    (divHalfEven n d).natAbs < 2 * b ↔ 2 * n.natAbs < (4 * b - 1) * d := by
  have hpos := divHalfEven_lt_iff n hd b
  have hneg := divHalfEven_lt_iff (-n) hd b
  rw [divHalfEven_neg n hd] at hneg
  have hsplit : (divHalfEven n d).natAbs < 2 * b ↔
      divHalfEven n d < 2 * (b : Int) ∧ -divHalfEven n d < 2 * (b : Int) := by
    omega
  rw [hsplit, hpos, hneg]
  rcases Nat.eq_zero_or_pos b with rfl | hb
  · constructor
    · rintro ⟨h1, h2⟩
      push_cast at h1 h2
      omega
    · intro h
      simp at h
  · have hcast : ((4 * b - 1 : Nat) : Int) = 4 * (b : Int) - 1 := by omega
    have habs : 2 * n.natAbs < (4 * b - 1) * d ↔
        2 * n < (4 * (b : Int) - 1) * d ∧ 2 * -n < (4 * (b : Int) - 1) * d := by
      rw [← hcast]
      zify
      rw [← Int.natCast_natAbs]
      generalize ((4 * b - 1 : Nat) : Int) * d = m
      omega
    exact habs.symm

/-- Rounding moves a quotient by one half at most. -/
theorem abs_divHalfEven_sub_le (n : Int) {d : Nat} (hd : 0 < d) :
    |(divHalfEven n d : ℚ) - n / d| ≤ 1 / 2 := by
  have hpos : (0 : ℚ) < d := by exact_mod_cast hd
  have hdiv : (d : Int) * (n / d) + n % d = n := Int.mul_ediv_add_emod n d
  have hnonneg : 0 ≤ n % (d : Int) := Int.emod_nonneg n (by omega)
  have hmod : n % (d : Int) < d := Int.emod_lt_of_pos n (by omega)
  have hclose : 2 * (divHalfEven n d * d - n) ≤ d ∧ -(d : Int) ≤ 2 * (divHalfEven n d * d - n) := by
    have hdiv' : n / (d : Int) * d = n - n % d := by
      rw [mul_comm]
      omega
    rcases divHalfEven_cases n d with ⟨h, hr⟩ | ⟨h, hr⟩
    · rw [h, hdiv']
      omega
    · rw [h, add_mul, hdiv']
      omega
  have hlow : -(d : ℚ) ≤ 2 * (divHalfEven n d * d - n) := by exact_mod_cast hclose.2
  have hhigh : 2 * ((divHalfEven n d : ℚ) * d - n) ≤ d := by exact_mod_cast hclose.1
  have heq : (divHalfEven n d : ℚ) - n / d = (divHalfEven n d * d - n) / d := by field_simp
  rw [heq, abs_div, abs_of_pos hpos, div_le_iff₀ hpos, abs_le]
  constructor
  · linarith
  · linarith

/-- A common factor does not change how a quotient is rounded. -/
theorem divHalfEven_mul_right (n : Int) {d c : Nat} (hc : 0 < c) :
    divHalfEven (n * c) (d * c) = divHalfEven n d := by
  have hpos : (0 : Int) < c := by omega
  have hquotient : n * (c : Int) / ((d * c : Nat) : Int) = n / d := by
    push_cast
    exact Int.mul_ediv_mul_of_pos_left n d hpos
  have hremainder : n * (c : Int) % ((d * c : Nat) : Int) = n % d * c := by
    push_cast
    rw [mul_comm n, mul_comm (d : Int), Int.mul_emod_mul_of_pos _ _ hpos, mul_comm]
  have hlt : ∀ x y : Int, x * c < y * c ↔ x < y := fun x y =>
    ⟨fun h => lt_of_mul_lt_mul_right h hpos.le, fun h => mul_lt_mul_of_pos_right h hpos⟩
  simp only [divHalfEven, hquotient, hremainder]
  push_cast
  simp only [← mul_assoc, hlt]

end Lib
end Falkr
