import Falkr.Lib.Rounding
import Mathlib.Data.Rat.Defs
import Mathlib.Data.Rat.Cast.Order
import Mathlib.Tactic.FieldSimp
import Mathlib.Tactic.Positivity

/-!
# Decimal — the amounts money is counted in

The code that adds amounts is written once, over `Amount m α`: amounts of type `α` whose addition
runs in the monad `m`.  It has two readings:

- `Amount Id ℚ`, exact rationals, whose addition always returns;
- `Amount Option Decimal`, the machine decimal, whose `+` panics when the sum does not fit.  A
  panic is `none`.
-/

namespace Falkr

/-- What the ledger asks of its number type. -/
class Amount (m : outParam (Type → Type)) (α : Type) where
  zero : α
  neg : α → α
  /-- The `+` operator. -/
  add : α → α → m α
  /-- The `==` operator. -/
  eq : α → α → Bool

instance : Amount Id ℚ where
  zero := 0
  neg := fun a => -a
  add := fun a b => pure (a + b)
  eq := fun a b => decide (a = b)

section Exact

@[simp] theorem amount_zero_rat : (Amount.zero : ℚ) = 0 := rfl

@[simp] theorem amount_neg_rat (a : ℚ) : Amount.neg a = -a := rfl

@[simp] theorem amount_add_rat (a b : ℚ) : (Amount.add a b : Id ℚ) = pure (a + b) := rfl

@[simp] theorem amount_eq_rat (a b : ℚ) : Amount.eq a b = decide (a = b) := rfl

end Exact

/-! ## The machine decimal -/

/-- The largest scale a decimal carries. -/
def Decimal.maxScale : Nat := 28

/-- The mantissa is a signed 96-bit magnitude. -/
def Decimal.mantissaBound : Nat := 2 ^ 96

/-- `mantissa / 10 ^ scale`. -/
structure Decimal where
  mantissa : Int
  scale : Nat
  mantissa_lt : mantissa.natAbs < Decimal.mantissaBound
  scale_le : scale ≤ Decimal.maxScale
  deriving DecidableEq, Repr

namespace Decimal

/-- The number a decimal stands for. -/
def toRat (d : Decimal) : ℚ :=
  d.mantissa / 10 ^ d.scale

/-- `Decimal::from`: a whole number. -/
def ofInt (n : Int) (h : n.natAbs < mantissaBound) : Decimal where
  mantissa := n
  scale := 0
  mantissa_lt := h
  scale_le := by decide

theorem natAbs_one_lt : Int.natAbs 1 < mantissaBound := by
  decide

/-- `Decimal::ONE`. -/
def one : Decimal := ofInt 1 natAbs_one_lt

/-- `Decimal::MAX`. -/
def max : Decimal := ofInt 79228162514264337593543950335 (by decide)

/-- `n / 10 ^ (scale + dropped)` at the largest scale up to `scale` at which the rounded mantissa
fits, `dropped` digits having been given up already. -/
def fit (n : Int) : (scale : Nat) → scale ≤ maxScale → (dropped : Nat) → Option Decimal
  | 0, hs, dropped =>
      if h : (Lib.divHalfEven n (10 ^ dropped)).natAbs < mantissaBound then
        some ⟨Lib.divHalfEven n (10 ^ dropped), 0, h, hs⟩
      else none
  | scale + 1, hs, dropped =>
      if h : (Lib.divHalfEven n (10 ^ dropped)).natAbs < mantissaBound then
        some ⟨Lib.divHalfEven n (10 ^ dropped), scale + 1, h, hs⟩
      else fit n scale (Nat.le_of_succ_le hs) (dropped + 1)

/-- The numerator of the exact sum over the larger of the two scales. -/
def sumNumerator (a b : Decimal) : Int :=
  let scale := Nat.max a.scale b.scale
  a.mantissa * 10 ^ (scale - a.scale) + b.mantissa * 10 ^ (scale - b.scale)

/-- The `+` operator.  Next to a zero the other operand comes back as it is; else the sum is exact
when it fits at the larger of the two scales, and rounded half to even at the largest scale at which
it fits when it does not; `none` is the panic on overflow. -/
def add (a b : Decimal) : Option Decimal :=
  if a.mantissa = 0 then some b
  else if b.mantissa = 0 then some a
  else
    fit (sumNumerator a b) (Nat.max a.scale b.scale) (Nat.max_le.2 ⟨a.scale_le, b.scale_le⟩) 0

def neg (a : Decimal) : Decimal where
  mantissa := -a.mantissa
  scale := a.scale
  mantissa_lt := by simpa using a.mantissa_lt
  scale_le := a.scale_le

/-- The `==` operator compares values: `1.0 == 1.00`. -/
def eq (a b : Decimal) : Bool :=
  a.mantissa * 10 ^ b.scale == b.mantissa * 10 ^ a.scale

instance : Amount Option Decimal where
  zero := ofInt 0 (by decide)
  neg := neg
  add := add
  eq := eq

/-! ## What the operators compute -/

theorem pow_scale_pos (d : Decimal) : (0 : ℚ) < 10 ^ d.scale := by
  positivity

@[simp] theorem toRat_zero : (Amount.zero : Decimal).toRat = 0 := by
  simp [Amount.zero, ofInt, toRat]

@[simp] theorem toRat_neg (a : Decimal) : (Amount.neg a).toRat = -a.toRat := by
  simp [Amount.neg, neg, toRat, neg_div]

theorem eq_iff (a b : Decimal) : Amount.eq a b = true ↔ a.toRat = b.toRat := by
  have ha := (pow_scale_pos a).ne'
  have hb := (pow_scale_pos b).ne'
  simp only [Amount.eq, eq, beq_iff_eq, toRat, div_eq_div_iff ha hb]
  norm_cast

/-- A sum does not overflow while its magnitude stays below the bound by more than one half. -/
def Fits (q : ℚ) : Prop :=
  |q| < mantissaBound - 1 / 2

instance (q : ℚ) : Decidable (Fits q) :=
  inferInstanceAs (Decidable (_ < _))

theorem abs_mantissa_le (a : Decimal) : |(a.mantissa : ℚ)| ≤ mantissaBound - 1 := by
  have hlt : a.mantissa.natAbs + 1 ≤ mantissaBound := a.mantissa_lt
  rw [← Int.cast_abs, ← Nat.cast_natAbs, le_sub_iff_add_le]
  exact_mod_cast hlt

theorem fits_toRat (a : Decimal) : Fits a.toRat := by
  have hmantissa := abs_mantissa_le a
  have hle : |a.toRat| ≤ |(a.mantissa : ℚ)| := by
    rw [toRat, abs_div, abs_of_pos (pow_scale_pos a)]
    exact div_le_self (abs_nonneg _) (one_le_pow₀ (by norm_num))
  unfold Fits
  linarith

/-- A rounded quotient fits the mantissa exactly when the quotient does not overflow. -/
theorem natAbs_divHalfEven_lt_iff_fits (n : Int) {d : Nat} (hd : 0 < d) :
    (Lib.divHalfEven n d).natAbs < mantissaBound ↔ Fits (n / d) := by
  have hpos : (0 : ℚ) < d := by exact_mod_cast hd
  have hbound : mantissaBound = 2 * 2 ^ 95 := by decide
  have habs : |(n : ℚ)| = (n.natAbs : ℚ) := by rw [Nat.cast_natAbs, Int.cast_abs]
  have hfits : Fits (n / d) ↔ 2 * (n.natAbs : ℚ) < (4 * 2 ^ 95 - 1 : Nat) * d := by
    unfold Fits
    rw [abs_div, abs_of_pos hpos, div_lt_iff₀ hpos, habs, hbound]
    push_cast
    constructor <;> intro h <;> linarith
  rw [hfits, hbound, Lib.natAbs_divHalfEven_lt_iff n hd (2 ^ 95)]
  exact_mod_cast Iff.rfl

theorem natAbs_divHalfEven_lt_mantissaBound_iff (n : Int) (dropped : Nat) :
    (Lib.divHalfEven n (10 ^ dropped)).natAbs < mantissaBound ↔ Fits (n / 10 ^ dropped) := by
  have hfits := natAbs_divHalfEven_lt_iff_fits n (show 0 < 10 ^ dropped by positivity)
  rwa [Nat.cast_pow, Nat.cast_ofNat] at hfits

theorem fits_div_ten {q : ℚ} (h : Fits q) : Fits (q / 10) := by
  unfold Fits at *
  rw [abs_div, abs_of_pos (by norm_num : (0 : ℚ) < 10)]
  have hnonneg := abs_nonneg q
  linarith

/-- A value is representable, after rounding, exactly when its rounding to a whole number is. -/
theorem fit_isSome_iff (n : Int) :
    ∀ (scale : Nat) (hs : scale ≤ maxScale) (dropped : Nat),
      (fit n scale hs dropped).isSome ↔ Fits (n / 10 ^ (scale + dropped))
  | 0, hs, dropped => by
      rw [Nat.zero_add, ← natAbs_divHalfEven_lt_mantissaBound_iff]
      unfold fit
      split_ifs with h <;> simp [h]
  | scale + 1, hs, dropped => by
      have ih := fit_isSome_iff n scale (Nat.le_of_succ_le hs) (dropped + 1)
      have hexp : scale + 1 + dropped = scale + (dropped + 1) := by omega
      unfold fit
      split_ifs with h
      · rw [natAbs_divHalfEven_lt_mantissaBound_iff] at h
        simp only [Option.isSome_some, true_iff]
        have hall : ∀ k, Fits ((n : ℚ) / 10 ^ (k + dropped)) := by
          intro k
          induction k with
          | zero => simpa using h
          | succ k ihk =>
              have hdiv := fits_div_ten ihk
              rwa [div_div, ← pow_succ, ← Nat.succ_eq_add_one, ← Nat.succ_add] at hdiv
        exact hall (scale + 1)
      · rw [hexp]
        exact ih

theorem toRat_add_toRat (a b : Decimal) :
    a.toRat + b.toRat = sumNumerator a b / 10 ^ Nat.max a.scale b.scale := by
  have ha : (10 : ℚ) ^ Nat.max a.scale b.scale =
      10 ^ (Nat.max a.scale b.scale - a.scale) * 10 ^ a.scale := by
    rw [← pow_add, Nat.sub_add_cancel (Nat.le_max_left _ _)]
  have hb : (10 : ℚ) ^ Nat.max a.scale b.scale =
      10 ^ (Nat.max a.scale b.scale - b.scale) * 10 ^ b.scale := by
    rw [← pow_add, Nat.sub_add_cancel (Nat.le_max_right _ _)]
  have hmax : (0 : ℚ) < 10 ^ Nat.max a.scale b.scale := by positivity
  have hpa := pow_scale_pos a
  have hpb := pow_scale_pos b
  rw [eq_div_iff hmax.ne', add_mul]
  nth_rewrite 1 [ha]
  nth_rewrite 1 [hb]
  unfold toRat sumNumerator
  push_cast
  field_simp

theorem toRat_of_mantissa_eq_zero {a : Decimal} (h : a.mantissa = 0) : a.toRat = 0 := by
  simp [toRat, h]

/-- A sum is exact where an operand is zero, and elsewhere the search for a scale finds it. -/
theorem add_cases {a b sum : Decimal} (h : add a b = some sum) :
    sum.toRat = a.toRat + b.toRat ∨
      fit (sumNumerator a b) (Nat.max a.scale b.scale) (Nat.max_le.2 ⟨a.scale_le, b.scale_le⟩) 0 =
        some sum := by
  unfold add at h
  split_ifs at h with ha hb
  · cases h
    rw [toRat_of_mantissa_eq_zero ha, zero_add]
    exact Or.inl rfl
  · cases h
    rw [toRat_of_mantissa_eq_zero hb, add_zero]
    exact Or.inl rfl
  · exact Or.inr h

/-- `+` returns exactly when the exact sum, rounded to a whole number, fits the mantissa. -/
theorem add_isSome_iff (a b : Decimal) :
    (Amount.add a b : Option Decimal).isSome ↔ Fits (a.toRat + b.toRat) := by
  show (add a b).isSome ↔ _
  unfold add
  split_ifs with ha hb
  · rw [toRat_of_mantissa_eq_zero ha, zero_add]
    exact iff_of_true rfl (fits_toRat b)
  · rw [toRat_of_mantissa_eq_zero hb, add_zero]
    exact iff_of_true rfl (fits_toRat a)
  · rw [toRat_add_toRat]
    exact fit_isSome_iff _ _ _ 0

end Decimal

end Falkr
