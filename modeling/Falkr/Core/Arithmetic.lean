import Falkr.Core.Representable
import Falkr.Lib.LargestRemainder

/-!
# Arithmetic — products, quotients and differences of decimals

The other operators of the machine decimal.  Each computes the exact result, rounds it half to even
at the largest scale at which it fits, and panics when there is none.  What rounding changes is
little (`Rounds`): one half at most, and otherwise a small part of the number, or of its last digit.
-/

namespace Falkr
namespace Decimal

/-- `n / d` at the largest scale up to `scale` at which the rounded mantissa fits. -/
def fitQuotient (n : Int) (d : Nat) : (scale : Nat) → scale ≤ maxScale → Option Decimal
  | 0, hs =>
      if h : (Lib.divHalfEven (n * 10 ^ 0) d).natAbs < mantissaBound then
        some ⟨Lib.divHalfEven (n * 10 ^ 0) d, 0, h, hs⟩
      else none
  | scale + 1, hs =>
      if h : (Lib.divHalfEven (n * 10 ^ (scale + 1)) d).natAbs < mantissaBound then
        some ⟨Lib.divHalfEven (n * 10 ^ (scale + 1)) d, scale + 1, h, hs⟩
      else fitQuotient n d scale (Nat.le_of_succ_le hs)

/-- The `-` operator. -/
def sub (a b : Decimal) : Option Decimal :=
  add a (neg b)

/-- The `*` operator: exact when the product fits at the sum of the two scales. -/
def mul (a b : Decimal) : Option Decimal :=
  fitQuotient (a.mantissa * b.mantissa) (10 ^ (a.scale + b.scale))
    (Nat.min (a.scale + b.scale) maxScale) (Nat.min_le_right _ _)

theorem natAbs_div_ten_lt {m : Int} (h : m.natAbs < mantissaBound) :
    (m / 10).natAbs < mantissaBound := by
  omega

/-- Drops trailing zeros, down to a scale. -/
def dropZeros (low : Nat) (m : Int) (hm : m.natAbs < mantissaBound) :
    (scale : Nat) → scale ≤ maxScale → Decimal
  | 0, hs => ⟨m, 0, hm, hs⟩
  | scale + 1, hs =>
      if low ≤ scale ∧ m % 10 = 0 then
        dropZeros low (m / 10) (natAbs_div_ten_lt hm) scale (Nat.le_of_succ_le hs)
      else ⟨m, scale + 1, hm, hs⟩

/-- The `/` operator; `none` is also the panic on a division by zero.  The quotient has no more
digits than it needs, or than the scales ask for. -/
def div (a b : Decimal) : Option Decimal :=
  if b.mantissa = 0 then none
  else
    (fitQuotient (a.mantissa * b.mantissa.sign * 10 ^ b.scale)
        (b.mantissa.natAbs * 10 ^ a.scale) maxScale le_rfl).map fun quotient =>
      dropZeros (a.scale - b.scale) quotient.mantissa quotient.mantissa_lt quotient.scale
        quotient.scale_le

theorem natAbs_tdiv_lt (a : Decimal) (d : Nat) : (a.mantissa.tdiv d).natAbs < mantissaBound :=
  lt_of_le_of_lt (by rw [Int.natAbs_tdiv]; exact Nat.div_le_self _ _) a.mantissa_lt

/-- `round_dp_with_strategy` with the strategy `ToZero`. -/
def roundToZero (dp : Nat) (a : Decimal) : Decimal :=
  if h : a.scale ≤ dp then a
  else
    ⟨a.mantissa.tdiv (10 ^ (a.scale - dp) : Nat), dp, natAbs_tdiv_lt a _,
      (Nat.le_of_not_le h).trans a.scale_le⟩

/-- `sum` of an iterator. -/
def sum (amounts : List Decimal) : Option Decimal :=
  amounts.foldlM Amount.add Amount.zero

/-! ## When they return -/

section Fit

variable {n : Int} {d : Nat}

theorem fits_of_fits_mul_pow {q : ℚ} {scale : Nat} (h : Fits (q * 10 ^ scale)) : Fits q := by
  induction scale with
  | zero => simpa using h
  | succ scale ih =>
      refine ih ?_
      have hdiv := fits_div_ten h
      rwa [pow_succ, ← mul_assoc, mul_div_assoc, div_self (by norm_num), mul_one] at hdiv

theorem fits_mantissa_iff (hd : 0 < d) (scale : Nat) :
    (Lib.divHalfEven (n * 10 ^ scale) d).natAbs < mantissaBound ↔
      Fits ((n / d : ℚ) * 10 ^ scale) := by
  rw [natAbs_divHalfEven_lt_iff_fits _ hd]
  push_cast
  rw [mul_div_right_comm]

theorem fitQuotient_isSome_iff (hd : 0 < d) :
    ∀ (scale : Nat) (hs : scale ≤ maxScale), (fitQuotient n d scale hs).isSome ↔ Fits (n / d : ℚ)
  | 0, hs => by
      have hfits := fits_mantissa_iff (n := n) hd 0
      rw [pow_zero, pow_zero, mul_one, mul_one] at hfits
      unfold fitQuotient
      simp only [pow_zero, mul_one]
      split_ifs with h
      · simpa using hfits.1 h
      · simpa using fun hq => h (hfits.2 hq)
  | scale + 1, hs => by
      unfold fitQuotient
      split_ifs with h
      · simpa using fits_of_fits_mul_pow ((fits_mantissa_iff hd _).1 h)
      · exact fitQuotient_isSome_iff hd scale (Nat.le_of_succ_le hs)

/-- A result has the largest scale, or the one above would have been too large. -/
theorem fitQuotient_eq_some (hd : 0 < d) :
    ∀ {scale : Nat} {hs : scale ≤ maxScale} {r : Decimal}, fitQuotient n d scale hs = some r →
      r.mantissa = Lib.divHalfEven (n * 10 ^ r.scale) d ∧
        (r.scale = scale ∨ ¬Fits ((n / d : ℚ) * 10 ^ (r.scale + 1)))
  | 0, hs, r, h => by
      unfold fitQuotient at h
      split_ifs at h
      cases h
      exact ⟨rfl, Or.inl rfl⟩
  | scale + 1, hs, r, h => by
      unfold fitQuotient at h
      split_ifs at h with hfits
      · cases h
        exact ⟨rfl, Or.inl rfl⟩
      · rcases fitQuotient_eq_some hd h with ⟨hmantissa, hscale | hscale⟩
        · refine ⟨hmantissa, Or.inr ?_⟩
          rw [hscale, ← fits_mantissa_iff hd]
          exact hfits
        · exact ⟨hmantissa, Or.inr hscale⟩

/-- The sum is rounded like a quotient. -/
theorem fit_eq_fitQuotient (n : Int) :
    ∀ (scale : Nat) (hs : scale ≤ maxScale) (dropped : Nat),
      fit n scale hs dropped = fitQuotient n (10 ^ (scale + dropped)) scale hs := by
  have hround : ∀ scale dropped : Nat, Lib.divHalfEven (n * 10 ^ scale) (10 ^ (scale + dropped)) =
      Lib.divHalfEven n (10 ^ dropped) := by
    intro scale dropped
    have hcommon := Lib.divHalfEven_mul_right n (d := 10 ^ dropped) (c := 10 ^ scale)
      (by positivity)
    rw [← hcommon, pow_add, mul_comm (10 ^ scale)]
    push_cast
    rfl
  intro scale
  induction scale with
  | zero =>
      intro hs dropped
      unfold fit fitQuotient
      simp only [hround]
  | succ scale ih =>
      intro hs dropped
      have hexp : scale + 1 + dropped = scale + (dropped + 1) := by omega
      unfold fit fitQuotient
      simp only [hround, ih]
      simp only [hexp]

end Fit

theorem toRat_nonneg {a : Decimal} (h : 0 ≤ a.mantissa) : 0 ≤ a.toRat :=
  div_nonneg (by exact_mod_cast h) (pow_scale_pos a).le

theorem toRat_pos {a : Decimal} (h : 0 < a.mantissa) : 0 < a.toRat :=
  div_pos (by exact_mod_cast h) (pow_scale_pos a)

theorem toRat_eq_zero_iff {a : Decimal} : a.toRat = 0 ↔ a.mantissa = 0 := by
  rw [toRat, div_eq_zero_iff, or_iff_left (pow_scale_pos a).ne', Int.cast_eq_zero]

/-! ## What rounding changes -/

/-- More than half of the last digit of a full mantissa, compared with the number. -/
def roundoff : ℚ := 1 / 2 ^ 93

/-- Half of the last digit that there is. -/
def halfDigit : ℚ := 1 / (2 * 10 ^ maxScale)

theorem roundoff_nonneg : 0 ≤ roundoff := by
  unfold roundoff
  positivity

/-- A decimal that a number is rounded to: it is close, and no other lies between the two. -/
structure Rounds (q : ℚ) (r : Decimal) : Prop where
  half : |r.toRat - q| ≤ 1 / 2
  close : |r.toRat - q| ≤ |q| * roundoff + halfDigit
  ge : ∀ c : Decimal, c.toRat ≤ q → c.toRat ≤ r.toRat
  le : ∀ c : Decimal, q ≤ c.toRat → r.toRat ≤ c.toRat

theorem Rounds.nonneg {q : ℚ} {r : Decimal} (h : Rounds q r) (hq : 0 ≤ q) : 0 ≤ r.toRat := by
  simpa using h.ge Amount.zero (by simpa using hq)

theorem Rounds.nonpos {q : ℚ} {r : Decimal} (h : Rounds q r) (hq : q ≤ 0) : r.toRat ≤ 0 := by
  simpa using h.le Amount.zero (by simpa using hq)

theorem Rounds.exact (r : Decimal) : Rounds r.toRat r where
  half := by simp
  close := by
    rw [sub_self, abs_zero]
    exact add_nonneg (mul_nonneg (abs_nonneg _) roundoff_nonneg) (by unfold halfDigit; positivity)
  ge := fun _ hc => hc
  le := fun _ hc => hc

/-- A decimal is rounded to itself. -/
theorem Rounds.toRat_eq {q : ℚ} {r c : Decimal} (h : Rounds q r) (hc : c.toRat = q) :
    r.toRat = q :=
  le_antisymm (hc ▸ h.le c hc.ge) (hc ▸ h.ge c hc.le)

theorem toRat_neg_eq (a : Decimal) : (neg a).toRat = -a.toRat :=
  toRat_neg a

theorem Rounds.neg {q : ℚ} {r : Decimal} (h : Rounds q r) : Rounds (-q) (neg r) := by
  have hoff : |(Decimal.neg r).toRat - -q| = |r.toRat - q| := by
    rw [toRat_neg_eq, neg_sub_neg, abs_sub_comm]
  refine ⟨hoff ▸ h.half, by rw [hoff, abs_neg]; exact h.close, fun c hc => ?_, fun c hc => ?_⟩
  · have hle := h.le (Decimal.neg c) (by rw [toRat_neg_eq]; linarith)
    rw [toRat_neg_eq] at hle ⊢
    linarith
  · have hge := h.ge (Decimal.neg c) (by rw [toRat_neg_eq]; linarith)
    rw [toRat_neg_eq] at hge ⊢
    linarith

theorem Rounds.abs_toRat_le {q : ℚ} {r : Decimal} (h : Rounds q r) : |r.toRat| ≤ |q| + 1 / 2 := by
  have htriangle := abs_sub_abs_le_abs_sub r.toRat q
  linarith [h.half]

section Rounding

variable {n : Int} {d : Nat} {scale : Nat} {hs : scale ≤ maxScale} {r : Decimal}

theorem toRat_fitQuotient (hd : 0 < d) (h : fitQuotient n d scale hs = some r) :
    r.toRat = Lib.divHalfEven (n * 10 ^ r.scale) d / 10 ^ r.scale := by
  rw [toRat, (fitQuotient_eq_some hd h).1]

/-- One half of the last digit. -/
theorem abs_toRat_fitQuotient_sub_le (hd : 0 < d) (h : fitQuotient n d scale hs = some r) :
    |r.toRat - n / d| ≤ 1 / 2 / 10 ^ r.scale := by
  have hpow : (0 : ℚ) < 10 ^ r.scale := pow_scale_pos r
  have hround := Lib.abs_divHalfEven_sub_le (n * 10 ^ r.scale) hd
  have heq : r.toRat - n / d =
      (Lib.divHalfEven (n * 10 ^ r.scale) d - ((n * 10 ^ r.scale : Int) : ℚ) / d) /
        10 ^ r.scale := by
    rw [toRat_fitQuotient hd h]
    push_cast
    field_simp
  rw [heq, abs_div, abs_of_pos hpow]
  exact div_le_div_of_nonneg_right hround hpow.le

/-- A result that gave up a digit has a full mantissa. -/
theorem last_digit_le {q : ℚ} {scale : Nat} (h : ¬Fits (q * 10 ^ (scale + 1))) :
    1 / 2 / 10 ^ scale ≤ |q| * roundoff := by
  have hpow : (0 : ℚ) < 10 ^ scale := by positivity
  have hbig : (mantissaBound : ℚ) - 1 / 2 ≤ |q| * 10 ^ (scale + 1) := by
    have hge := not_lt.1 h
    rwa [abs_mul, abs_of_pos (by positivity : (0 : ℚ) < 10 ^ (scale + 1))] at hge
  rw [div_le_iff₀ hpow, roundoff]
  rw [pow_succ, mantissaBound] at hbig
  push_cast at hbig
  linarith

theorem abs_sub_le_roundoff_or (hd : 0 < d) (h : fitQuotient n d scale hs = some r) :
    |r.toRat - n / d| ≤ |(n / d : ℚ)| * roundoff ∨ r.scale = scale := by
  rcases (fitQuotient_eq_some hd h).2 with hscale | hbig
  · exact Or.inr hscale
  · exact Or.inl ((abs_toRat_fitQuotient_sub_le hd h).trans (last_digit_le hbig))

/-- At a scale at which the number is whole it is not rounded. -/
theorem toRat_fitQuotient_of_whole (hd : 0 < d) (h : fitQuotient n d scale hs = some r)
    (hscale : r.scale = scale) {k : Int} (hk : n * 10 ^ scale = k * d) : r.toRat = n / d := by
  have hd' : (d : ℚ) ≠ 0 := by exact_mod_cast hd.ne'
  have hpow : (10 : ℚ) ^ scale ≠ 0 := by positivity
  have hk' : (n : ℚ) * 10 ^ scale = k * d := by exact_mod_cast hk
  rw [toRat_fitQuotient hd h, hscale, hk, Lib.divHalfEven_mul k hd, div_eq_div_iff hpow hd', hk']

/-- A number that is whole at the scale the search starts from loses a part of its size only. -/
theorem abs_sub_le_roundoff (hd : 0 < d) (h : fitQuotient n d scale hs = some r) {k : Int}
    (hk : n * 10 ^ scale = k * d) : |r.toRat - n / d| ≤ |(n / d : ℚ)| * roundoff := by
  rcases abs_sub_le_roundoff_or hd h with hclose | hscale
  · exact hclose
  · rw [toRat_fitQuotient_of_whole hd h hscale hk, sub_self, abs_zero]
    exact mul_nonneg (abs_nonneg _) (by unfold roundoff; positivity)

/-- A decimal is whole at a scale, or it has more digits and ends before the range does. -/
theorem whole_or_digits (c : Decimal) (scale : Nat) :
    (∃ k : Int, c.toRat * 10 ^ scale = k) ∨
      scale < c.scale ∧ |c.toRat * 10 ^ (scale + 1)| ≤ mantissaBound - 1 := by
  have hpow := pow_scale_pos c
  rcases Nat.lt_or_ge scale c.scale with hlt | hge
  · refine Or.inr ⟨hlt, ?_⟩
    refine le_trans ?_ (abs_mantissa_le c)
    rw [toRat, div_mul_eq_mul_div, abs_div, abs_mul, abs_of_pos hpow,
      abs_of_pos (by positivity : (0 : ℚ) < 10 ^ (scale + 1)), div_le_iff₀ hpow]
    exact mul_le_mul_of_nonneg_left (pow_le_pow_right₀ (by norm_num) hlt) (abs_nonneg _)
  · refine Or.inl ⟨c.mantissa * 10 ^ (scale - c.scale), ?_⟩
    rw [toRat, div_mul_eq_mul_div, div_eq_iff hpow.ne', ← Nat.sub_add_cancel hge, pow_add]
    push_cast
    rw [Nat.add_sub_cancel]
    ring

/-- Rounding to whole numbers does not pass a whole number, and at the edge of the range it does
not pass what a digit more could say. -/
theorem le_of_abs_sub_le_half {x y : ℚ} {m : Int} (hm : |(m : ℚ) - x| ≤ 1 / 2) (hy : y ≤ x)
    (h : (∃ k : Int, y = k) ∨
      |y * 10| ≤ mantissaBound - 1 ∧ (mantissaBound : ℚ) - 1 / 2 ≤ |x * 10|) : y ≤ m := by
  have hhalf := abs_le.1 hm
  rcases h with ⟨k, rfl⟩ | ⟨hsmall, hlarge⟩
  · have hlt : (k : ℚ) < m + 1 := by linarith
    have hint : k < m + 1 := by exact_mod_cast hlt
    exact_mod_cast Int.lt_add_one_iff.1 hint
  · unfold mantissaBound at hsmall hlarge
    push_cast at hsmall hlarge
    have hsmall := abs_le.1 hsmall
    have hpos : 0 ≤ x * 10 := by
      by_contra hneg
      rw [abs_of_neg (not_le.1 hneg)] at hlarge
      linarith
    rw [abs_of_nonneg hpos] at hlarge
    -- The bound is six more than a multiple of ten, so its tenth is rounded up.
    have hlt : ((2 ^ 96 + 4) / 10 - 1 : Int) < m := by
      have hlt : (((2 ^ 96 + 4) / 10 - 1 : Int) : ℚ) < m := by
        norm_num
        linarith
      exact_mod_cast hlt
    have hle : ((2 ^ 96 + 4) / 10 : Int) ≤ m := by omega
    have hcast : (((2 ^ 96 + 4) / 10 : Int) : ℚ) ≤ m := by exact_mod_cast hle
    norm_num at hcast
    linarith

/-- No decimal lies between a number and what it is rounded to. -/
theorem fitQuotient_between (hd : 0 < d) (h : fitQuotient n d scale hs = some r)
    (hstart : scale = maxScale ∨ ∃ k : Int, n * 10 ^ scale = k * d) (c : Decimal) :
    (c.toRat ≤ n / d → c.toRat ≤ r.toRat) ∧ (n / d ≤ c.toRat → r.toRat ≤ c.toRat) := by
  have hpow := pow_scale_pos r
  have hround := Lib.abs_divHalfEven_sub_le (n * 10 ^ r.scale) hd
  have hx : ((n * 10 ^ r.scale : Int) : ℚ) / d = n / d * 10 ^ r.scale := by
    push_cast
    rw [mul_div_right_comm]
  rw [hx, ← (fitQuotient_eq_some hd h).1] at hround
  have hmantissa : (r.mantissa : ℚ) = r.toRat * 10 ^ r.scale := by
    rw [toRat, div_mul_cancel₀ _ hpow.ne']
  have hcases : r.toRat = n / d ∨ (∃ k : Int, c.toRat * 10 ^ r.scale = k) ∨
      |c.toRat * 10 ^ r.scale * 10| ≤ mantissaBound - 1 ∧
        (mantissaBound : ℚ) - 1 / 2 ≤ |(n / d : ℚ) * 10 ^ r.scale * 10| := by
    rcases whole_or_digits c r.scale with hwhole | ⟨hlt, hsmall⟩
    · exact Or.inr (Or.inl hwhole)
    · rcases (fitQuotient_eq_some hd h).2 with hscale | hbig
      · rcases hstart with rfl | ⟨k, hk⟩
        · exact absurd c.scale_le (by omega)
        · exact Or.inl (toRat_fitQuotient_of_whole hd h hscale hk)
      · rw [mul_assoc, ← pow_succ]
        refine Or.inr (Or.inr ⟨hsmall, ?_⟩)
        rw [mul_assoc, ← pow_succ]
        exact not_lt.1 hbig
  rcases hcases with hexact | hcases
  · rw [hexact]
    exact ⟨id, id⟩
  · constructor
    · intro hle
      have hscaled := le_of_abs_sub_le_half hround (mul_le_mul_of_nonneg_right hle hpow.le) hcases
      rw [hmantissa] at hscaled
      exact le_of_mul_le_mul_right hscaled hpow
    · intro hle
      -- The other way round, with all signs changed.
      have hneg : |((-r.mantissa : Int) : ℚ) - -(n / d * 10 ^ r.scale)| ≤ 1 / 2 := by
        rw [Int.cast_neg, neg_sub_neg, abs_sub_comm]
        exact hround
      have hscaled := le_of_abs_sub_le_half hneg
        (neg_le_neg (mul_le_mul_of_nonneg_right hle hpow.le)) (by
          rcases hcases with ⟨k, hk⟩ | ⟨hsmall, hlarge⟩
          · exact Or.inl ⟨-k, by rw [hk, Int.cast_neg]⟩
          · rw [neg_mul, abs_neg, neg_mul, abs_neg]
            exact Or.inr ⟨hsmall, hlarge⟩)
      rw [Int.cast_neg, hmantissa] at hscaled
      exact le_of_mul_le_mul_right (neg_le_neg_iff.1 hscaled) hpow

theorem rounds_fitQuotient (hd : 0 < d) (h : fitQuotient n d scale hs = some r)
    (hstart : scale = maxScale ∨ ∃ k : Int, n * 10 ^ scale = k * d) : Rounds (n / d) r := by
  have hlast := abs_toRat_fitQuotient_sub_le hd h
  have hhalf : (0 : ℚ) ≤ halfDigit := by unfold halfDigit; positivity
  have hsize : 0 ≤ |(n / d : ℚ)| * roundoff :=
    mul_nonneg (abs_nonneg _) (by unfold roundoff; positivity)
  refine ⟨?_, ?_, fun c => (fitQuotient_between hd h hstart c).1,
    fun c => (fitQuotient_between hd h hstart c).2⟩
  · refine hlast.trans (div_le_self (by norm_num) ?_)
    exact one_le_pow₀ (by norm_num)
  · rcases hstart with rfl | ⟨k, hk⟩
    · rcases abs_sub_le_roundoff_or hd h with hclose | hscale
      · linarith
      · rw [hscale, div_div] at hlast
        have hlast' : |r.toRat - n / d| ≤ halfDigit := hlast
        linarith
    · linarith [abs_sub_le_roundoff hd h hk]

end Rounding

/-- The smallest decimal above zero. -/
theorem le_toRat_of_pos {a : Decimal} (h : 0 < a.toRat) : 2 * halfDigit ≤ a.toRat := by
  have hpow := pow_scale_pos a
  have hmantissa : (1 : ℚ) ≤ a.mantissa := by
    have hpos : (0 : ℚ) < a.mantissa := by
      by_contra hle
      exact absurd h (not_lt.2 (div_nonpos_of_nonpos_of_nonneg (not_lt.1 hle) hpow.le))
    exact_mod_cast hpos
  have hscale : (10 : ℚ) ^ a.scale ≤ 10 ^ maxScale := pow_le_pow_right₀ (by norm_num) a.scale_le
  have hdigit : 2 * halfDigit = 1 / 10 ^ maxScale := by
    unfold halfDigit
    field_simp
  rw [hdigit, toRat]
  exact div_le_div₀ (by linarith) hmantissa hpow hscale

/-! ## The operators -/

section Operators

variable {a b r : Decimal}

theorem toRat_mul_toRat (a b : Decimal) :
    a.toRat * b.toRat =
      ((a.mantissa * b.mantissa : Int) : ℚ) / ((10 ^ (a.scale + b.scale) : Nat) : ℚ) := by
  unfold toRat
  push_cast
  rw [div_mul_div_comm, pow_add]

theorem toRat_div_toRat (a : Decimal) (hb : b.mantissa ≠ 0) :
    a.toRat / b.toRat = ((a.mantissa * b.mantissa.sign * 10 ^ b.scale : Int) : ℚ) /
      ((b.mantissa.natAbs * 10 ^ a.scale : Nat) : ℚ) := by
  have hsign : ((b.mantissa.sign : ℤ) : ℚ) * b.mantissa = (b.mantissa.natAbs : ℚ) := by
    rw [← Int.cast_mul, Int.sign_mul_self_eq_natAbs, Int.cast_natCast]
  have hnat : (b.mantissa.natAbs : ℚ) ≠ 0 := by exact_mod_cast Int.natAbs_ne_zero.2 hb
  have hint : (b.mantissa : ℚ) ≠ 0 := by exact_mod_cast hb
  have ha := (pow_scale_pos a).ne'
  have hpow := (pow_scale_pos b).ne'
  unfold toRat
  push_cast
  rw [div_div_div_eq, div_eq_div_iff (mul_ne_zero ha hint) (mul_ne_zero hnat ha), ← hsign]
  ring

theorem mantissa_ne_zero (h : b.toRat ≠ 0) : b.mantissa ≠ 0 := by
  intro hzero
  exact h (by simp [toRat, hzero])

theorem mul_isSome_iff (a b : Decimal) : (mul a b).isSome ↔ Fits (a.toRat * b.toRat) := by
  rw [toRat_mul_toRat]
  exact fitQuotient_isSome_iff (by positivity) _ _

theorem rounds_mul (h : mul a b = some r) : Rounds (a.toRat * b.toRat) r := by
  rw [toRat_mul_toRat]
  refine rounds_fitQuotient (by positivity) h ?_
  -- The product is whole at the sum of the scales, unless that is too large.
  rcases Nat.le_total (a.scale + b.scale) maxScale with hle | hge
  · refine Or.inr ⟨a.mantissa * b.mantissa, ?_⟩
    rw [show Nat.min (a.scale + b.scale) maxScale = a.scale + b.scale from Nat.min_eq_left hle]
    push_cast
    rfl
  · exact Or.inl (Nat.min_eq_right hge)

theorem toRat_dropZeros (low : Nat) :
    ∀ (m : Int) (hm : m.natAbs < mantissaBound) (scale : Nat) (hs : scale ≤ maxScale),
      (dropZeros low m hm scale hs).toRat = m / 10 ^ scale
  | m, hm, 0, hs => rfl
  | m, hm, scale + 1, hs => by
      unfold dropZeros
      split_ifs with hzero
      · have hten : m / 10 * 10 = m := Int.ediv_mul_cancel (Int.dvd_of_emod_eq_zero hzero.2)
        have hcast : ((m / 10 : Int) : ℚ) * 10 = m := by exact_mod_cast hten
        rw [toRat_dropZeros, ← hcast, pow_succ, mul_div_mul_right _ _ (by norm_num)]
      · rfl

theorem div_eq_some (hb : b.toRat ≠ 0) (h : div a b = some r) :
    ∃ quotient, fitQuotient (a.mantissa * b.mantissa.sign * 10 ^ b.scale)
        (b.mantissa.natAbs * 10 ^ a.scale) maxScale le_rfl = some quotient ∧
      r.toRat = quotient.toRat := by
  rw [div, if_neg (mantissa_ne_zero hb)] at h
  rcases Option.map_eq_some_iff.1 h with ⟨quotient, hquotient, rfl⟩
  exact ⟨quotient, hquotient, toRat_dropZeros _ _ _ _ _⟩

theorem div_isSome_iff (a : Decimal) (hb : b.toRat ≠ 0) :
    (div a b).isSome ↔ Fits (a.toRat / b.toRat) := by
  have hmantissa := mantissa_ne_zero hb
  have hpos : 0 < b.mantissa.natAbs * 10 ^ a.scale :=
    Nat.mul_pos (Int.natAbs_pos.2 hmantissa) (by positivity)
  rw [div, if_neg hmantissa, toRat_div_toRat a hmantissa, ← fitQuotient_isSome_iff hpos _ le_rfl]
  simp

theorem rounds_div (hb : b.toRat ≠ 0) (h : div a b = some r) : Rounds (a.toRat / b.toRat) r := by
  have hmantissa := mantissa_ne_zero hb
  have hpos : 0 < b.mantissa.natAbs * 10 ^ a.scale :=
    Nat.mul_pos (Int.natAbs_pos.2 hmantissa) (by positivity)
  rcases div_eq_some hb h with ⟨quotient, hquotient, hr⟩
  have hrounds := rounds_fitQuotient hpos hquotient (Or.inl rfl)
  rw [toRat_div_toRat a hmantissa]
  exact ⟨hr ▸ hrounds.half, hr ▸ hrounds.close, hr ▸ hrounds.ge, hr ▸ hrounds.le⟩

/-- A sum is whole at the larger of the scales. -/
theorem abs_add_sub_le (h : add a b = some r) :
    |r.toRat - (a.toRat + b.toRat)| ≤ |a.toRat + b.toRat| * roundoff := by
  rcases add_cases h with hsum | hfit
  · rw [hsum, sub_self, abs_zero]
    exact mul_nonneg (abs_nonneg _) roundoff_nonneg
  · rw [fit_eq_fitQuotient _ _ _ 0] at hfit
    have hwhole : sumNumerator a b * 10 ^ Nat.max a.scale b.scale =
        sumNumerator a b * ((10 ^ (Nat.max a.scale b.scale + 0) : Nat) : Int) := by
      push_cast
      rfl
    have hclose := abs_sub_le_roundoff (by positivity) hfit hwhole
    rw [toRat_add_toRat]
    push_cast at hclose
    exact hclose

theorem rounds_add (h : add a b = some r) : Rounds (a.toRat + b.toRat) r := by
  rcases add_cases h with hsum | hfit
  · rw [← hsum]
    exact .exact r
  · rw [fit_eq_fitQuotient _ _ _ 0] at hfit
    have hrounds := rounds_fitQuotient (by positivity) hfit
      (Or.inr ⟨sumNumerator a b, by push_cast; rfl⟩)
    rw [toRat_add_toRat]
    push_cast at hrounds
    exact hrounds

theorem sub_isSome_iff (a b : Decimal) : (sub a b).isSome ↔ Fits (a.toRat - b.toRat) := by
  have hadd := add_isSome_iff a (neg b)
  rwa [toRat_neg_eq, ← sub_eq_add_neg] at hadd

theorem rounds_sub (h : sub a b = some r) : Rounds (a.toRat - b.toRat) r := by
  have hadd := rounds_add h
  rwa [toRat_neg_eq, ← sub_eq_add_neg] at hadd

/-- The value that is left is the number cut off at whole units. -/
theorem toRat_roundToZero (dp : Nat) (a : Decimal) :
    (roundToZero dp a).toRat = Lib.roundDpToZero dp a.toRat := by
  have hunit : (0 : ℚ) < 1 / 10 ^ dp := by positivity
  unfold roundToZero Lib.roundDpToZero
  split_ifs with hle
  · have hwhole : a.toRat = (a.mantissa * 10 ^ (dp - a.scale) : Int) * (1 / 10 ^ dp) := by
      have hpow : (10 : ℚ) ^ dp = 10 ^ (dp - a.scale) * 10 ^ a.scale := by
        rw [← pow_add, Nat.sub_add_cancel hle]
      have ha := (pow_scale_pos a).ne'
      rw [toRat, hpow]
      push_cast
      field_simp
    rw [hwhole, Lib.truncTo_mul hunit]
  · have hpow : (10 : ℚ) ^ a.scale = 10 ^ (a.scale - dp) * 10 ^ dp := by
      rw [← pow_add, Nat.sub_add_cancel (Nat.le_of_not_le hle)]
    have hdiv : ∀ m : Int, (m : ℚ) / 10 ^ a.scale / (1 / 10 ^ dp) =
        (m : ℚ) / ((10 ^ (a.scale - dp) : Nat) : ℚ) := by
      intro m
      rw [hpow]
      push_cast
      field_simp
    have hneg : a.toRat < 0 ↔ a.mantissa < 0 := by
      rw [toRat, div_neg_iff]
      have hpos := pow_scale_pos a
      constructor
      · rintro (⟨-, h⟩ | ⟨h, -⟩)
        · exact absurd h (not_lt.2 hpos.le)
        · exact_mod_cast h
      · intro h
        exact Or.inr ⟨by exact_mod_cast h, hpos⟩
    show ((a.mantissa.tdiv ((10 ^ (a.scale - dp) : Nat) : Int) : Int) : ℚ) / 10 ^ dp = _
    unfold Lib.truncTo
    simp only [hneg]
    split_ifs with hm
    · have htdiv : a.mantissa.tdiv (10 ^ (a.scale - dp) : Nat) =
          -(-a.mantissa / (10 ^ (a.scale - dp) : Nat)) := by
        rw [← Int.tdiv_eq_ediv_of_nonneg (by omega), Int.neg_tdiv, neg_neg]
      rw [toRat, ← neg_div, ← Int.cast_neg, hdiv, Rat.floor_intCast_div_natCast, htdiv]
      push_cast
      ring
    · have htdiv := Int.tdiv_eq_ediv_of_nonneg (b := ((10 ^ (a.scale - dp) : Nat) : Int))
        (not_lt.1 hm)
      rw [toRat, hdiv, Rat.floor_intCast_div_natCast, htdiv]
      ring

/-- What is left has the sign of the whole. -/
theorem roundToZero_of_nonneg (dp : Nat) (ha : 0 ≤ a.toRat) :
    0 ≤ (roundToZero dp a).toRat ∧ (roundToZero dp a).toRat ≤ a.toRat := by
  have hunit : (0 : ℚ) < 1 / 10 ^ dp := by positivity
  rw [toRat_roundToZero]
  exact ⟨Lib.truncTo_nonneg hunit ha, sub_nonneg.1 (Lib.cut_of_nonneg hunit ha).1⟩

theorem roundToZero_of_nonpos (dp : Nat) (ha : a.toRat ≤ 0) :
    (roundToZero dp a).toRat ≤ 0 ∧ a.toRat ≤ (roundToZero dp a).toRat := by
  have hunit : (0 : ℚ) < 1 / 10 ^ dp := by positivity
  rw [toRat_roundToZero]
  exact ⟨Lib.truncTo_nonpos hunit ha, sub_nonpos.1 (Lib.cut_of_nonpos hunit ha).1⟩

/-- What is cut off is smaller than a unit, and no larger than the number. -/
theorem abs_sub_roundToZero_le (dp : Nat) (a : Decimal) :
    |a.toRat - (roundToZero dp a).toRat| ≤ 1 ∧
      |a.toRat - (roundToZero dp a).toRat| ≤ |a.toRat| := by
  have hunit : (0 : ℚ) < 1 / 10 ^ dp := by positivity
  have hone : (1 : ℚ) / 10 ^ dp ≤ 1 := div_le_self zero_le_one (one_le_pow₀ (by norm_num))
  rcases le_total 0 a.toRat with hnonneg | hnonpos
  · rcases roundToZero_of_nonneg dp hnonneg with ⟨hlow, hhigh⟩
    have hcut := (Lib.cut_of_nonneg hunit hnonneg).2
    rw [abs_of_nonneg hnonneg, abs_of_nonneg (sub_nonneg.2 hhigh)]
    refine ⟨?_, by linarith⟩
    rw [toRat_roundToZero, Lib.roundDpToZero]
    linarith
  · rcases roundToZero_of_nonpos dp hnonpos with ⟨hhigh, hlow⟩
    have hcut := (Lib.cut_of_nonpos hunit hnonpos).2
    rw [abs_of_nonpos hnonpos, abs_of_nonpos (sub_nonpos.2 hlow)]
    refine ⟨?_, by linarith⟩
    rw [toRat_roundToZero, Lib.roundDpToZero]
    linarith

end Operators

/-! ## Whole numbers -/

/-- A decimal in the upper nine tenths of the range has no digits after the point. -/
theorem whole_of_large {a : Decimal} (h : (mantissaBound : ℚ) / 10 ≤ |a.toRat|) :
    ∃ k : Int, a.toRat = k := by
  rcases whole_or_digits a 0 with ⟨k, hk⟩ | ⟨-, hsmall⟩
  · exact ⟨k, by rwa [pow_zero, mul_one] at hk⟩
  · rw [zero_add, pow_one, abs_mul, abs_of_pos (by norm_num : (0 : ℚ) < 10)] at hsmall
    linarith

theorem exists_ofInt {k : Int} (h : |(k : ℚ)| < mantissaBound) : ∃ c : Decimal, c.toRat = k := by
  have hlt : k.natAbs < mantissaBound := by
    rw [← Int.cast_abs, ← Nat.cast_natAbs] at h
    exact_mod_cast h
  exact ⟨ofInt k hlt, by simp [ofInt, toRat]⟩

/-! ## Sums -/

/-- A sum of numbers that are not negative is as large as each of them. -/
theorem le_foldlM_add :
    ∀ (amounts : List Decimal) {start total : Decimal}, 0 ≤ start.toRat →
      (∀ a ∈ amounts, 0 ≤ a.toRat) → amounts.foldlM Amount.add start = some total →
      start.toRat ≤ total.toRat ∧ ∀ a ∈ amounts, a.toRat ≤ total.toRat
  | [], start, total, _, _, h => by
      cases h
      simp
  | amount :: rest, start, total, hstart, hamounts, h => by
      rcases List.forall_mem_cons.1 hamounts with ⟨hamount, hrest⟩
      rw [List.foldlM_cons] at h
      rcases Option.bind_eq_some_iff.1 h with ⟨sum, hsum, htotal⟩
      have hrounds : Rounds (start.toRat + amount.toRat) sum := rounds_add hsum
      rcases le_foldlM_add rest (hrounds.nonneg (add_nonneg hstart hamount)) hrest htotal with
        ⟨hle, hlater⟩
      refine ⟨(hrounds.ge start (by linarith)).trans hle, List.forall_mem_cons.2 ⟨?_, hlater⟩⟩
      exact (hrounds.ge amount (by linarith)).trans hle

theorem foldlM_add_le :
    ∀ (amounts : List Decimal) {start total : Decimal}, start.toRat ≤ 0 →
      (∀ a ∈ amounts, a.toRat ≤ 0) → amounts.foldlM Amount.add start = some total →
      total.toRat ≤ start.toRat ∧ ∀ a ∈ amounts, total.toRat ≤ a.toRat
  | [], start, total, _, _, h => by
      cases h
      simp
  | amount :: rest, start, total, hstart, hamounts, h => by
      rcases List.forall_mem_cons.1 hamounts with ⟨hamount, hrest⟩
      rw [List.foldlM_cons] at h
      rcases Option.bind_eq_some_iff.1 h with ⟨sum, hsum, htotal⟩
      have hrounds : Rounds (start.toRat + amount.toRat) sum := rounds_add hsum
      rcases foldlM_add_le rest (hrounds.nonpos (add_nonpos hstart hamount)) hrest htotal with
        ⟨hle, hlater⟩
      refine ⟨hle.trans (hrounds.le start (by linarith)), List.forall_mem_cons.2 ⟨?_, hlater⟩⟩
      exact hle.trans (hrounds.le amount (by linarith))

/-- Each addition is off by one half at most. -/
theorem abs_foldlM_add_sub_le :
    ∀ (amounts : List Decimal) {start total : Decimal},
      amounts.foldlM Amount.add start = some total →
      |total.toRat - (start.toRat + (amounts.map toRat).sum)| ≤ amounts.length / 2
  | [], start, total, h => by
      cases h
      simp
  | amount :: rest, start, total, h => by
      rw [List.foldlM_cons] at h
      rcases Option.bind_eq_some_iff.1 h with ⟨sum, hsum, htotal⟩
      have hrounds : Rounds (start.toRat + amount.toRat) sum := rounds_add hsum
      have hhalf := abs_le.1 hrounds.half
      have hoff := abs_le.1 (abs_foldlM_add_sub_le rest htotal)
      simp only [List.map_cons, List.sum_cons, List.length_cons]
      push_cast
      rw [abs_le]
      constructor
      · linarith [hhalf.1, hoff.1]
      · linarith [hhalf.2, hoff.2]

/-- Additions that stay away from the bound by one half for each of them fit. -/
theorem runningFits_of_room :
    ∀ (amounts : List Decimal) (start : Decimal),
      |start.toRat| + (amounts.map fun a => |a.toRat|).sum + amounts.length / 2 <
        mantissaBound - 1 / 2 → RunningFits start amounts
  | [], _, _ => trivial
  | amount :: rest, start, hroom => by
      simp only [List.map_cons, List.sum_cons, List.length_cons] at hroom
      push_cast at hroom
      have hrest : 0 ≤ (rest.map fun a => |a.toRat|).sum :=
        List.sum_nonneg fun x hx => by
          rcases List.mem_map.1 hx with ⟨a, -, rfl⟩
          exact abs_nonneg _
      have hlength : (0 : ℚ) ≤ rest.length := Nat.cast_nonneg _
      have htriangle := abs_add_le start.toRat amount.toRat
      constructor
      · unfold Fits
        linarith
      · intro sum hsum
        have hsize := (rounds_add hsum).abs_toRat_le
        exact runningFits_of_room rest sum (by linarith)

/-- A sum of numbers that are not negative gains and loses little of its size. -/
theorem foldlM_add_bounds :
    ∀ (amounts : List Decimal) {start total : Decimal}, 0 ≤ start.toRat →
      (∀ a ∈ amounts, 0 ≤ a.toRat) → amounts.length * roundoff ≤ 1 →
      amounts.foldlM Amount.add start = some total →
      (1 - amounts.length * roundoff) * (start.toRat + (amounts.map toRat).sum) ≤ total.toRat ∧
        (1 - amounts.length * roundoff) * total.toRat ≤ start.toRat + (amounts.map toRat).sum
  | [], start, total, _, _, _, h => by
      cases h
      simp
  | amount :: rest, start, total, hstart, hamounts, hlength, h => by
      rcases List.forall_mem_cons.1 hamounts with ⟨hamount, hrest⟩
      rw [List.foldlM_cons] at h
      rcases Option.bind_eq_some_iff.1 h with ⟨sum, hsum, htotal⟩
      have hroundoff : 0 < roundoff := by unfold roundoff; positivity
      have hsum0 : 0 ≤ (rest.map toRat).sum := List.sum_nonneg fun x hx => by
        rcases List.mem_map.1 hx with ⟨a, ha, rfl⟩
        exact hrest a ha
      have hexact : 0 ≤ start.toRat + amount.toRat := add_nonneg hstart hamount
      have hpositive : 0 ≤ sum.toRat := (rounds_add hsum).nonneg hexact
      have hclose := abs_le.1 (abs_add_sub_le hsum)
      rw [abs_of_nonneg hexact] at hclose
      have hpart : 0 ≤ roundoff * (rest.map toRat).sum := mul_nonneg hroundoff.le hsum0
      have hsquare : 0 ≤ (rest.length : ℚ) * roundoff * roundoff := by positivity
      simp only [List.length_cons, List.map_cons, List.sum_cons] at hlength ⊢
      push_cast at hlength ⊢
      have hmore : 0 ≤ 1 - (rest.length : ℚ) * roundoff := by linarith
      rcases foldlM_add_bounds rest hpositive hrest (by linarith) htotal with ⟨hlow, hhigh⟩
      have htotal0 : 0 ≤ total.toRat :=
        hpositive.trans (le_foldlM_add rest hpositive hrest htotal).1
      -- Each addition costs one part of what has been added up.
      have hfactor : 1 - ((rest.length : ℚ) + 1) * roundoff ≤
          (1 - rest.length * roundoff) * (1 - roundoff) := by
        linarith
      constructor
      · calc (1 - ((rest.length : ℚ) + 1) * roundoff) *
              (start.toRat + (amount.toRat + (rest.map toRat).sum))
            ≤ (1 - rest.length * roundoff) * (1 - roundoff) *
                (start.toRat + (amount.toRat + (rest.map toRat).sum)) :=
              mul_le_mul_of_nonneg_right hfactor (by linarith)
          _ = (1 - rest.length * roundoff) * ((1 - roundoff) *
                (start.toRat + (amount.toRat + (rest.map toRat).sum))) := by ring
          _ ≤ (1 - rest.length * roundoff) * (sum.toRat + (rest.map toRat).sum) :=
              mul_le_mul_of_nonneg_left (by linarith) hmore
          _ ≤ total.toRat := hlow
      · have hunit : 0 ≤ 1 - roundoff := by unfold roundoff; norm_num
        have hless : (1 - roundoff) * sum.toRat ≤ start.toRat + amount.toRat := by
          have hbelow : sum.toRat ≤ (1 + roundoff) * (start.toRat + amount.toRat) := by linarith
          have hscaled := mul_le_mul_of_nonneg_left hbelow hunit
          have hlost : 0 ≤ roundoff * roundoff * (start.toRat + amount.toRat) := by positivity
          linarith
        calc (1 - ((rest.length : ℚ) + 1) * roundoff) * total.toRat
            ≤ (1 - rest.length * roundoff) * (1 - roundoff) * total.toRat :=
              mul_le_mul_of_nonneg_right hfactor htotal0
          _ = (1 - roundoff) * ((1 - rest.length * roundoff) * total.toRat) := by ring
          _ ≤ (1 - roundoff) * (sum.toRat + (rest.map toRat).sum) :=
              mul_le_mul_of_nonneg_left hhigh hunit
          _ ≤ start.toRat + (amount.toRat + (rest.map toRat).sum) := by linarith

end Decimal
end Falkr
