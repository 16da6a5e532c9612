import Falkr.CostSpine.ApportionDecimal
import Falkr.Lib.Lists

/-!
# ApportionRange — when apportionment with machine numbers returns

The power of ten fits up to nineteen places, and from twenty on the step is wrong or there is none.
What is left are the decimals.  Once the weights can be added up and the products fit, the shares of
a total that `KeepsDistance` from the edge of the range never get there (`sharesFit_of_distance`).
Of any other total they may, but as long as they do not, neither does what follows: no part comes so
close to the edge that a step or the residue would lead over it (`spread_isSome_iff`).
-/

namespace Falkr

open Lib Decimal

/-! ## The step -/

theorem unitStep_of_le (overflowChecks : Bool) {dp : Nat} (hdp : dp ≤ 19) :
    (unitStep overflowChecks dp).map toRat = some (1 / 10 ^ dp) := by
  have hall : ∀ checks : Bool, ∀ dp < 20, (unitStep checks dp).map toRat = some (1 / 10 ^ dp) := by
    decide +kernel
  exact hall overflowChecks dp (by omega)

/-- The power wraps around, to nothing from sixty-four places on. -/
theorem le_of_unitStep {overflowChecks : Bool} {dp : Nat}
    (h : (unitStep overflowChecks dp).map toRat = some (1 / 10 ^ dp)) : dp ≤ 19 := by
  by_contra hgt
  have hpow : ¬10 ^ dp < 2 ^ 64 := by
    have hle : 10 ^ 20 ≤ 10 ^ dp := Nat.pow_le_pow_right (by norm_num) (by omega)
    have hbig : 2 ^ 64 ≤ 10 ^ 20 := by norm_num
    omega
  cases overflowChecks with
  | true =>
      have hnone : powTen true dp = none := by rw [powTen, dif_neg hpow, if_pos rfl]
      simp [unitStep, hnone] at h
  | false =>
      by_cases hlt : dp < 64
      · have hwrong : ∀ dp < 64, 19 < dp →
            (unitStep false dp).map toRat ≠ some (1 / 10 ^ dp) := by
          decide +kernel
        exact hwrong dp hlt (by omega) h
      · have hzero : 10 ^ dp % 2 ^ 64 = 0 := by
          have hten : 10 ^ dp = 2 ^ dp * 5 ^ dp := by rw [← Nat.mul_pow]
          rw [hten]
          exact Nat.mod_eq_zero_of_dvd ((pow_dvd_pow 2 (by omega)).mul_right _)
        have hpower : powTen false dp = some 0 := by
          rw [powTen, dif_neg hpow, if_neg (by decide)]
          exact congrArg some (Fin.ext hzero)
        simp [unitStep, hpower, div, decimalOfU64, ofInt] at h

/-! ## One share -/

section Share

variable {amount weightSum w : Decimal} {dp : Nat}

theorem abs_mul_roundoff_le (a : Decimal) : |a.toRat| * roundoff ≤ 8 := by
  have hfits := fits_toRat a
  unfold Fits mantissaBound at hfits
  push_cast at hfits
  unfold roundoff
  linarith

/-- A product is off by a few units of its weight. -/
theorem abs_product_sub_le (hw : 0 ≤ w.toRat) {product : Decimal}
    (h : mul amount w = some product) :
    |product.toRat - amount.toRat * w.toRat| ≤ 17 / 2 * w.toRat := by
  have hrounds := rounds_mul h
  rcases hw.eq_or_lt with hzero | hpos
  · have hexact := hrounds.toRat_eq (c := Amount.zero) (by simp [← hzero])
    simp [hexact, ← hzero]
  · have hclose := hrounds.close
    have hpart := mul_le_mul_of_nonneg_right (abs_mul_roundoff_le amount) hw
    have hdigit := le_toRat_of_pos hpos
    rw [abs_mul, abs_of_pos hpos] at hclose
    linarith

theorem abs_share_sub_le (hw : 0 ≤ w.toRat) (hsum : 0 < weightSum.toRat) {product : Decimal}
    (h : mul amount w = some product) :
    |product.toRat / weightSum.toRat - amount.toRat * (w.toRat / weightSum.toRat)| ≤
      17 / 2 * (w.toRat / weightSum.toRat) := by
  rw [← mul_div_assoc, ← sub_div, abs_div, abs_of_pos hsum, ← mul_div_assoc]
  exact div_le_div_of_nonneg_right (abs_product_sub_le hw h) hsum.le

/-- A share needs its product and its quotient; what is cut off is smaller than both. -/
theorem cutShare_isSome_iff (hsum : weightSum.toRat ≠ 0) :
    (cutShare amount weightSum dp w).isSome ↔
      Fits (amount.toRat * w.toRat) ∧
        ∀ product, mul amount w = some product → Fits (product.toRat / weightSum.toRat) := by
  rw [← mul_isSome_iff]
  cases hmul : mul amount w with
  | none => simp [cutShare, hmul]
  | some product =>
      have hdivide := div_isSome_iff product hsum
      cases hdiv : div product weightSum with
      | none => simpa [cutShare, hmul, hdiv] using hdivide
      | some exact =>
          have hcut : (sub exact (roundToZero dp exact)).isSome := by
            rw [sub_isSome_iff]
            exact lt_of_le_of_lt (abs_sub_roundToZero_le dp exact).2 (fits_toRat exact)
          rcases Option.isSome_iff_exists.1 hcut with ⟨remainder, hsub⟩
          simpa [cutShare, hmul, hdiv, hsub] using hdivide

/-- A share has the sign of the total and, cut off, is near what its weight asks for. -/
theorem cutShare_near (hw : 0 ≤ w.toRat) (hsum : 0 < weightSum.toRat) {part : Decimal × Decimal}
    (h : cutShare amount weightSum dp w = some part) :
    |part.1.toRat - amount.toRat * (w.toRat / weightSum.toRat)| ≤
        17 / 2 * (w.toRat / weightSum.toRat) + 3 / 2 ∧
      (0 ≤ amount.toRat → 0 ≤ part.1.toRat) ∧ (amount.toRat ≤ 0 → part.1.toRat ≤ 0) := by
  rcases Option.bind_eq_some_iff.1 h with ⟨product, hmul, h⟩
  rcases Option.bind_eq_some_iff.1 h with ⟨exact, hdiv, h⟩
  rcases Option.bind_eq_some_iff.1 h with ⟨remainder, -, hpart⟩
  cases hpart
  have hproduct := rounds_mul hmul
  have hexact := rounds_div hsum.ne' hdiv
  refine ⟨?_, ?_, ?_⟩
  · have hshare := abs_le.1 (abs_share_sub_le hw hsum hmul)
    have hhalf := abs_le.1 hexact.half
    have hcut := abs_le.1 (abs_sub_roundToZero_le dp exact).1
    rw [abs_le]
    constructor
    · linarith
    · linarith
  · intro hamount
    have hnonneg := hproduct.nonneg (mul_nonneg hamount hw)
    exact (roundToZero_of_nonneg dp (hexact.nonneg (div_nonneg hnonneg hsum.le))).1
  · intro hamount
    have hnonpos := hproduct.nonpos (mul_nonpos_of_nonpos_of_nonneg hamount hw)
    exact (roundToZero_of_nonpos dp
      (hexact.nonpos (div_nonpos_of_nonpos_of_nonneg hnonpos hsum.le))).1

end Share

/-! ## All shares -/

section Shares

variable {amount weightSum : Decimal} {weights : List Decimal} {dp : Nat}

theorem toRat_nonneg_of_pass (hpass : WeightsPass weights weightSum) :
    ∀ w ∈ weights, 0 ≤ w.toRat :=
  fun w hw => toRat_nonneg (hpass.nonneg w hw)

/-- Adding up the weights changes what they ask for by little. -/
theorem abs_sum_div_sub_one_le (hpass : WeightsPass weights weightSum)
    (hlength : weights.length < 2 ^ 59) :
    |(weights.map toRat).sum / weightSum.toRat - 1| ≤ 2 * weights.length * roundoff := by
  have hsum := toRat_pos hpass.pos
  have hcount : (weights.length : ℚ) ≤ 2 ^ 59 := by exact_mod_cast hlength.le
  have hcount0 : (0 : ℚ) ≤ weights.length := Nat.cast_nonneg _
  have hpart : (weights.length : ℚ) * roundoff ≤ 1 / 2 := by
    unfold roundoff
    linarith
  have hpart0 : 0 ≤ (weights.length : ℚ) * roundoff := by unfold roundoff; positivity
  rcases foldlM_add_bounds weights (by simp) (toRat_nonneg_of_pass hpass) (by linarith)
    hpass.sum_eq with ⟨hlow, hhigh⟩
  rw [toRat_zero, zero_add] at hlow hhigh
  rw [div_sub_one hsum.ne', abs_div, abs_of_pos hsum, div_le_iff₀ hsum, abs_le]
  have htwice : (weights.map toRat).sum ≤ 2 * weightSum.toRat := by
    have hsum0 : 0 ≤ (weights.map toRat).sum := List.sum_nonneg fun x hx => by
      rcases List.mem_map.1 hx with ⟨w, hw, rfl⟩
      exact toRat_nonneg_of_pass hpass w hw
    have hhalf := mul_le_mul_of_nonneg_right hpart hsum0
    linarith
  have hmore := mul_le_mul_of_nonneg_left htwice hpart0
  have hless := mul_nonneg hpart0 hsum.le
  constructor
  · linarith
  · linarith

/-- The parts of a total: of its sign, and together near the total. -/
structure Parts (amount : Decimal) (count : Nat) (parts : List (Decimal × Decimal)) : Prop where
  length_eq : parts.length = count
  near : |(parts.map fun part => part.1.toRat).sum - amount.toRat| ≤ 18 * ((count : ℚ) + 1)
  nonneg : 0 ≤ amount.toRat → ∀ part ∈ parts.map Prod.fst, 0 ≤ part.toRat
  nonpos : amount.toRat ≤ 0 → ∀ part ∈ parts.map Prod.fst, part.toRat ≤ 0

theorem cutShares_near (hsum : 0 < weightSum.toRat) :
    ∀ {ws : List Decimal} {parts : List (Decimal × Decimal)}, (∀ w ∈ ws, 0 ≤ w.toRat) →
      ws.mapM (cutShare amount weightSum dp) = some parts →
      parts.length = ws.length ∧
        |(parts.map fun part => part.1.toRat).sum -
            amount.toRat * ((ws.map toRat).sum / weightSum.toRat)| ≤
          17 / 2 * ((ws.map toRat).sum / weightSum.toRat) + 3 / 2 * ws.length ∧
        ∀ part ∈ parts.map Prod.fst,
          (0 ≤ amount.toRat → 0 ≤ part.toRat) ∧ (amount.toRat ≤ 0 → part.toRat ≤ 0)
  | [], parts, _, h => by
      cases h
      simp
  | w :: ws, parts, hnonneg, h => by
      rcases List.forall_mem_cons.1 hnonneg with ⟨hw, hnonneg⟩
      rw [List.mapM_cons] at h
      rcases Option.bind_eq_some_iff.1 h with ⟨part, hpart, h⟩
      rcases Option.bind_eq_some_iff.1 h with ⟨later, hlater, h⟩
      cases h
      rcases cutShare_near hw hsum hpart with ⟨hnear, hsign⟩
      rcases cutShares_near hsum hnonneg hlater with ⟨hlength, hrest, hsigns⟩
      refine ⟨by simp [hlength], ?_, List.forall_mem_cons.2 ⟨hsign, hsigns⟩⟩
      have hnear := abs_le.1 hnear
      have hrest := abs_le.1 hrest
      simp only [List.map_cons, List.sum_cons, List.length_cons]
      push_cast
      rw [add_div, abs_le]
      constructor
      · linarith
      · linarith

theorem parts_of_cutShares (hpass : WeightsPass weights weightSum)
    (hlength : weights.length < 2 ^ 59) {parts : List (Decimal × Decimal)}
    (h : weights.mapM (cutShare amount weightSum dp) = some parts) :
    Parts amount weights.length parts := by
  rcases cutShares_near (toRat_pos hpass.pos) (toRat_nonneg_of_pass hpass) h with
    ⟨hcount, hnear, hsign⟩
  refine ⟨hcount, ?_, fun hamount part hpart => (hsign part hpart).1 hamount,
    fun hamount part hpart => (hsign part hpart).2 hamount⟩
  have hratio := abs_sum_div_sub_one_le hpass hlength
  have hlost : |amount.toRat * ((weights.map toRat).sum / weightSum.toRat) - amount.toRat| ≤
      16 * weights.length := by
    have hscaled := mul_le_mul_of_nonneg_left hratio (abs_nonneg amount.toRat)
    have hroundoff := mul_le_mul_of_nonneg_left (abs_mul_roundoff_le amount)
      (by positivity : (0 : ℚ) ≤ 2 * weights.length)
    rw [← abs_mul, mul_sub, mul_one] at hscaled
    linarith
  have hcount : (weights.length : ℚ) ≤ 2 ^ 59 := by exact_mod_cast hlength.le
  have hsmall : 2 * (weights.length : ℚ) * roundoff ≤ 1 / 17 := by
    unfold roundoff
    linarith
  have hratio := abs_le.1 hratio
  have hnear := abs_le.1 hnear
  have hlost := abs_le.1 hlost
  rw [abs_le]
  constructor
  · linarith
  · linarith

/-- Numbers of one sign have no sum smaller than they are. -/
theorem sum_map_abs {xs : List ℚ} (h : (∀ x ∈ xs, 0 ≤ x) ∨ ∀ x ∈ xs, x ≤ 0) :
    (xs.map fun x => |x|).sum = |xs.sum| := by
  rcases h with hnonneg | hnonpos
  · rw [List.map_congr_left fun x hx => abs_of_nonneg (hnonneg x hx), List.map_id',
      abs_of_nonneg (List.sum_nonneg hnonneg)]
  · have hneg : 0 ≤ (xs.map fun x => -x).sum := List.sum_nonneg
      (List.forall_mem_map.2 fun x hx => neg_nonneg.2 (hnonpos x hx))
    rw [List.map_congr_left fun x hx => abs_of_nonpos (hnonpos x hx)]
    rw [← List.sum_neg] at hneg ⊢
    rw [abs_of_nonpos (neg_nonneg.1 hneg)]

/-- A total that keeps its distance has shares that fit, and sums of them that do. -/
theorem sharesFit_of_distance (hpass : WeightsPass weights weightSum)
    (hlength : weights.length < 2 ^ 59) (hdistance : KeepsDistance amount weights) (dp : Nat) :
    SharesFit amount weights weightSum dp := by
  have hsum := toRat_pos hpass.pos
  have hcount0 : (0 : ℚ) ≤ weights.length := Nat.cast_nonneg _
  unfold KeepsDistance at hdistance
  constructor
  · intro w hw product hproduct
    have hw0 := toRat_nonneg_of_pass hpass w hw
    have hshare := abs_share_sub_le hw0 hsum hproduct
    -- No weight asks for more than all of them.
    have hle : w.toRat / weightSum.toRat ≤ 1 + 2 * weights.length * roundoff := by
      have hone : w.toRat ≤ (weights.map toRat).sum :=
        List.single_le_sum (by simpa using toRat_nonneg_of_pass hpass) _ (List.mem_map_of_mem hw)
      have hratio := (abs_le.1 (abs_sum_div_sub_one_le hpass hlength)).2
      linarith [div_le_div_of_nonneg_right hone hsum.le]
    have hscaled := mul_le_mul_of_nonneg_left hle (abs_nonneg amount.toRat)
    have hroundoff := mul_le_mul_of_nonneg_left (abs_mul_roundoff_le amount)
      (by positivity : (0 : ℚ) ≤ 2 * weights.length)
    have htriangle := abs_sub_abs_le_abs_sub (product.toRat / weightSum.toRat)
      (amount.toRat * (w.toRat / weightSum.toRat))
    rw [abs_mul, abs_of_nonneg (div_nonneg hw0 hsum.le)] at htriangle
    have hsmall : 17 * (weights.length * roundoff) ≤ (weights.length : ℚ) := by
      unfold roundoff
      linarith
    unfold Fits
    linarith
  · intro parts hparts
    have hbounded := parts_of_cutShares hpass hlength hparts
    have hcount : (parts.length : ℚ) = weights.length := by rw [hbounded.length_eq]
    have hsize : (parts.map fun part => |part.1.toRat|).sum =
        |(parts.map fun part => part.1.toRat).sum| := by
      rw [← sum_map_abs, List.map_map]
      · rfl
      · rcases le_total 0 amount.toRat with hamount | hamount
        · exact Or.inl (List.forall_mem_map.2 fun part hpart =>
            hbounded.nonneg hamount _ (List.mem_map_of_mem hpart))
        · exact Or.inr (List.forall_mem_map.2 fun part hpart =>
            hbounded.nonpos hamount _ (List.mem_map_of_mem hpart))
    have htriangle := abs_sub_abs_le_abs_sub (parts.map fun part => part.1.toRat).sum amount.toRat
    refine runningFits_of_room _ _ ?_
    simp only [toRat_zero, abs_zero, List.map_map, Function.comp_def, List.length_map, hcount,
      hsize]
    linarith [hbounded.near]

end Shares

/-! ## What is left over -/

section Leftover

variable {amount distributed leftover part step : Decimal} {dp : Nat}

/-- What a part at the upper edge and a positive rest come to is no more than the total. -/
theorem rest_above (hrounds : Rounds (amount.toRat - distributed.toRat) leftover)
    (hpart : part.toRat ≤ distributed.toRat) (hlarge : (mantissaBound : ℚ) / 10 ≤ part.toRat)
    (hleft : 0 < leftover.toRat) :
    ∃ k rest : Int, part.toRat = k ∧ leftover.toRat = rest ∧ k + rest < mantissaBound := by
  have hmore : distributed.toRat < amount.toRat := by
    by_contra hle
    exact absurd (hrounds.nonpos (sub_nonpos.2 (not_lt.1 hle))) (not_le.2 hleft)
  have hbound : (0 : ℚ) < mantissaBound / 10 := by unfold mantissaBound; norm_num
  -- All three are whole numbers, so the difference is exact.
  have hwhole : ∀ a : Decimal, part.toRat ≤ a.toRat → ∃ k : Int, a.toRat = k := fun a ha =>
    whole_of_large (by rw [abs_of_pos (by linarith)]; exact hlarge.trans ha)
  rcases hwhole part le_rfl with ⟨k, hk⟩
  rcases hwhole distributed hpart with ⟨j, hj⟩
  rcases hwhole amount (hpart.trans hmore.le) with ⟨m, hm⟩
  have hfits := (abs_lt.1 (fits_toRat amount)).2
  have hexact : leftover.toRat = ((m - j : Int) : ℚ) := by
    have hsize : |((m - j : Int) : ℚ)| < mantissaBound := by
      push_cast
      rw [← hm, ← hj, abs_of_pos (sub_pos.2 hmore)]
      linarith
    rcases exists_ofInt hsize with ⟨c, hc⟩
    rw [hrounds.toRat_eq (c := c) (by rw [hc, hm, hj]; push_cast; rfl), hm, hj]
    push_cast
    rfl
  refine ⟨k, m - j, hk, hexact, ?_⟩
  have hsum : ((k + (m - j) : Int) : ℚ) < mantissaBound := by
    push_cast
    rw [← hk, ← hm, ← hj]
    linarith
  exact_mod_cast hsum

theorem rest_below (hrounds : Rounds (amount.toRat - distributed.toRat) leftover)
    (hpart : distributed.toRat ≤ part.toRat) (hlarge : part.toRat ≤ -((mantissaBound : ℚ) / 10))
    (hleft : leftover.toRat < 0) :
    ∃ k rest : Int, part.toRat = k ∧ leftover.toRat = rest ∧ -(mantissaBound : Int) < k + rest := by
  have hneg : Rounds ((neg amount).toRat - (neg distributed).toRat) (neg leftover) := by
    rw [toRat_neg_eq, toRat_neg_eq, neg_sub_neg, ← neg_sub]
    exact hrounds.neg
  have hpart' : (neg part).toRat ≤ (neg distributed).toRat := by
    rwa [toRat_neg_eq, toRat_neg_eq, neg_le_neg_iff]
  rcases rest_above hneg hpart' (by rw [toRat_neg_eq]; linarith)
    (by rw [toRat_neg_eq]; linarith) with ⟨k, rest, hk, hrest, hlt⟩
  rw [toRat_neg_eq] at hk hrest
  refine ⟨-k, -rest, ?_, ?_, by omega⟩
  · rw [Int.cast_neg, ← hk, neg_neg]
  · rw [Int.cast_neg, ← hrest, neg_neg]

/-- A part of a total, and what all parts leave over of it. -/
structure LeavesRoom (part leftover : Decimal) : Prop where
  small : |leftover.toRat| ≤ mantissaBound / 20
  above : (mantissaBound : ℚ) * (9 / 10) ≤ part.toRat → 0 < leftover.toRat →
    ∃ k rest : Int, part.toRat = k ∧ leftover.toRat = rest ∧ k + rest < mantissaBound
  below : part.toRat ≤ -((mantissaBound : ℚ) * (9 / 10)) → leftover.toRat < 0 →
    ∃ k rest : Int, part.toRat = k ∧ leftover.toRat = rest ∧ -(mantissaBound : Int) < k + rest

/-- The rest of the total fits where it lands. -/
theorem LeavesRoom.fits_add (h : LeavesRoom part leftover) : Fits (part.toRat + leftover.toRat) := by
  have hpart := abs_lt.1 (fits_toRat part)
  have hsmall := abs_le.1 h.small
  have hbound : (40 : ℚ) ≤ mantissaBound := by unfold mantissaBound; norm_num
  unfold Fits
  rw [abs_lt]
  rcases le_or_gt ((mantissaBound : ℚ) * (9 / 10)) part.toRat with habove | habove
  · refine ⟨by linarith, ?_⟩
    rcases le_or_gt leftover.toRat 0 with hleft | hleft
    · linarith
    · rcases h.above habove hleft with ⟨k, rest, hk, hrest, hlt⟩
      have hle : ((k + rest : Int) : ℚ) ≤ ((mantissaBound - 1 : Int) : ℚ) := by
        exact_mod_cast Int.le_sub_one_of_lt hlt
      push_cast at hle
      linarith
  · refine ⟨?_, by linarith⟩
    rcases le_or_gt part.toRat (-((mantissaBound : ℚ) * (9 / 10))) with hbelow | hbelow
    · rcases le_or_gt 0 leftover.toRat with hleft | hleft
      · linarith
      · rcases h.below hbelow hleft with ⟨k, rest, hk, hrest, hlt⟩
        have hle : ((-mantissaBound + 1 : Int) : ℚ) ≤ ((k + rest : Int) : ℚ) := by
          exact_mod_cast Int.add_one_le_of_lt hlt
        push_cast at hle
        linarith
    · linarith

/-- There is room for a step, as long as something is left. -/
theorem LeavesRoom.fits_step (h : LeavesRoom part leftover) (hleft : 0 < leftover.toRat)
    (hstep : 0 ≤ step.toRat) (hone : step.toRat ≤ 1) : Fits (part.toRat + step.toRat) := by
  have hpart := abs_lt.1 (fits_toRat part)
  have hbound : (40 : ℚ) ≤ mantissaBound := by unfold mantissaBound; norm_num
  unfold Fits
  rw [abs_lt]
  refine ⟨by linarith, ?_⟩
  rcases le_or_gt ((mantissaBound : ℚ) * (9 / 10)) part.toRat with habove | habove
  · rcases h.above habove hleft with ⟨k, rest, hk, hrest, hlt⟩
    have hrest0 : (0 : Int) < rest := by
      rw [hrest] at hleft
      exact_mod_cast hleft
    have hle : (k : ℚ) ≤ ((mantissaBound - 2 : Int) : ℚ) := by
      exact_mod_cast (show k ≤ (mantissaBound : Int) - 2 by omega)
    push_cast at hle
    linarith
  · linarith

/-- After a step there is room for what the steps leave over. -/
theorem LeavesRoom.fits_after_step (h : LeavesRoom part leftover) (hle : step.toRat ≤ leftover.toRat)
    (hstep : step.toRat = 1 / 10 ^ dp) {part' less leftover' : Decimal}
    (hpart' : Rounds (part.toRat + step.toRat) part')
    (hless : Rounds (leftover.toRat - step.toRat) less) (hnonneg : 0 ≤ leftover'.toRat)
    (hmore : leftover'.toRat ≤ less.toRat) : Fits (part'.toRat + leftover'.toRat) := by
  have hpart := abs_lt.1 (fits_toRat part)
  have hsmall := (abs_le.1 h.small).2
  have hbound : (40 : ℚ) ≤ mantissaBound := by unfold mantissaBound; norm_num
  have hpos : 0 < step.toRat := by rw [hstep]; positivity
  have hgrow := hpart'.ge part (by linarith)
  have hshrink := hless.le leftover (by linarith)
  have hhalf := (abs_le.1 hpart'.half).2
  have hone : step.toRat ≤ 1 := by
    rw [hstep]
    exact div_le_self zero_le_one (one_le_pow₀ (by norm_num))
  unfold Fits
  rw [abs_lt]
  refine ⟨by linarith, ?_⟩
  rcases le_or_gt ((mantissaBound : ℚ) * (9 / 10)) part.toRat with habove | habove
  · rcases h.above habove (hpos.trans_le hle) with ⟨k, rest, hk, hrest, hlt⟩
    have htotal : ((k + rest : Int) : ℚ) ≤ ((mantissaBound - 1 : Int) : ℚ) := by
      exact_mod_cast Int.le_sub_one_of_lt hlt
    push_cast at htotal
    suffices hsum : part'.toRat + less.toRat ≤ k + rest by linarith
    cases dp with
    | zero =>
        -- A whole step goes from one to the other.
        rw [pow_zero, div_one] at hstep
        rw [hstep, hrest] at hle
        have hnext : |((k + 1 : Int) : ℚ)| < mantissaBound := by
          push_cast
          rw [abs_lt]
          constructor
          · linarith
          · linarith
        have hprev : |((rest - 1 : Int) : ℚ)| < mantissaBound := by
          push_cast
          rw [abs_lt]
          constructor
          · linarith
          · linarith
        rcases exists_ofInt hnext with ⟨next, hnext⟩
        rcases exists_ofInt hprev with ⟨prev, hprev⟩
        rw [hpart'.toRat_eq (c := next) (by rw [hnext, hk, hstep]; push_cast; rfl),
          hless.toRat_eq (c := prev) (by rw [hprev, hrest, hstep]; push_cast; rfl)]
        linarith
    | succ dp =>
        -- The part is too large for a digit after the point, and the step is lost on it.
        have htenth : step.toRat ≤ 1 / 10 := by
          rw [hstep, pow_succ]
          exact div_le_div_of_nonneg_left zero_le_one (by norm_num)
            (le_mul_of_one_le_left (by norm_num) (one_le_pow₀ (by norm_num)))
        rcases whole_of_large (a := part') (by
          rw [abs_of_pos (by linarith)]
          linarith) with ⟨k', hk'⟩
        have hlt : (k' : ℚ) < ((k + 1 : Int) : ℚ) := by
          push_cast
          linarith
        have hsame : (k' : ℚ) ≤ k := by
          exact_mod_cast Int.lt_add_one_iff.1 (by exact_mod_cast hlt)
        linarith
  · linarith

end Leftover

/-! ## The second loop -/

section Loop

variable {step : Decimal}

theorem exists_addAt {floored : List Decimal} {target : Nat} {part x : Decimal}
    (hpart : floored[target]? = some part) (hfits : Fits (part.toRat + x.toRat)) :
    ∃ sum, addAt target x floored = some (floored.set target sum) ∧
      Rounds (part.toRat + x.toRat) sum := by
  rcases exists_add_iff.2 hfits with ⟨sum, hadd⟩
  exact ⟨sum, by simp [addAt, hpart, hadd], rounds_add hadd⟩

theorem exists_sub {a b : Decimal} (hb : 0 ≤ b.toRat) (hle : b.toRat ≤ a.toRat) :
    ∃ less, sub a b = some less ∧ Rounds (a.toRat - b.toRat) less := by
  have hfits : Fits (a.toRat - b.toRat) := by
    have ha := abs_lt.1 (fits_toRat a)
    unfold Fits
    rw [abs_lt]
    constructor
    · linarith
    · linarith
  rcases Option.isSome_iff_exists.1 ((sub_isSome_iff a b).2 hfits) with ⟨less, hsub⟩
  exact ⟨less, hsub, rounds_sub hsub⟩

/-- Each target gets one step at most, so it is enough that there is room for one. -/
theorem exists_topUp (hstep : 0 ≤ step.toRat) :
    ∀ (remainders : List (Nat × Decimal)) (floored : List Decimal) (leftover : Decimal),
      (remainders.map Prod.fst).Nodup →
      (step.toRat ≤ leftover.toRat → ∀ target ∈ remainders.map Prod.fst,
        ∃ part, floored[target]? = some part ∧ Fits (part.toRat + step.toRat)) →
      ∃ floored' leftover',
        topUpDecimal step remainders floored leftover = some (floored', leftover') ∧
        (0 ≤ leftover.toRat → 0 ≤ leftover'.toRat) ∧ leftover'.toRat ≤ leftover.toRat ∧
        ∀ i ∉ remainders.map Prod.fst, floored'[i]? = floored[i]?
  | [], floored, leftover, _, _ => ⟨floored, leftover, rfl, id, le_rfl, fun _ _ => rfl⟩
  | (target, remainder) :: rest, floored, leftover, hnodup, hroom => by
      by_cases hle : step.toRat ≤ leftover.toRat
      · rcases List.nodup_cons.1 hnodup with ⟨hfresh, hnodup⟩
        rcases List.forall_mem_cons.1 (hroom hle) with ⟨⟨part, hpart, hfits⟩, hroom⟩
        rcases exists_addAt hpart hfits with ⟨sum, hadd, -⟩
        rcases exists_sub hstep hle with ⟨less, hsub, hless⟩
        rcases exists_topUp hstep rest (floored.set target sum) less hnodup (by
          intro _ later hlater
          have hne : target ≠ later := fun heq => hfresh (heq ▸ hlater)
          simpa [hne] using hroom later hlater) with
          ⟨floored', leftover', htopUp, hnonneg, hmore, hframe⟩
        refine ⟨floored', leftover', by simp [topUpDecimal, hle, hadd, hsub, htopUp], ?_, ?_, ?_⟩
        · intro _
          exact hnonneg (hless.nonneg (sub_nonneg.2 hle))
        · exact hmore.trans (hless.le leftover (by linarith))
        · intro i hi
          have hne : target ≠ i := fun heq => hi (by simp [heq])
          have hlater : i ∉ rest.map Prod.fst := fun hmem => hi (List.mem_cons_of_mem _ hmem)
          rw [hframe i hlater, List.getElem?_set_ne hne]
      · exact ⟨floored, leftover, by simp [topUpDecimal, hle], id, le_rfl, fun _ _ => rfl⟩

theorem map_fst_sortedRemainders_perm (parts : List (Decimal × Decimal)) :
    ((sortedRemainders parts).map Prod.fst).Perm (List.range parts.length) := by
  have hperm : (sortedRemainders parts).Perm (parts.mapIdx fun i part => (i, part.2)) :=
    List.perm_insertionSort _ _
  refine (hperm.map Prod.fst).trans (List.Perm.of_eq ?_)
  refine List.ext_getElem (by simp) fun i hi hi' => ?_
  simp

end Loop

/-! ## The spread -/

section Spread

variable {amount weightSum step : Decimal} {weights : List Decimal} {dp : Nat}

/-- What the first loop leaves over, beside each of its parts. -/
theorem exists_leftover (hlength : weights.length < 2 ^ 59) {parts : List (Decimal × Decimal)}
    (hparts : Parts amount weights.length parts) {distributed : Decimal}
    (hdistributed : Decimal.sum (parts.map Prod.fst) = some distributed) :
    ∃ leftover, sub amount distributed = some leftover ∧
      ∀ part ∈ parts.map Prod.fst, LeavesRoom part leftover := by
  have hcount : ((parts.length : Nat) : ℚ) = weights.length := by rw [hparts.length_eq]
  have hclose := abs_le.1 (abs_foldlM_add_sub_le _ hdistributed)
  have hnear := abs_le.1 hparts.near
  have hmany : (weights.length : ℚ) ≤ 2 ^ 59 := by exact_mod_cast hlength.le
  simp only [toRat_zero, zero_add, List.map_map, Function.comp_def, List.length_map, hcount]
    at hclose
  have hsize : |amount.toRat - distributed.toRat| ≤ mantissaBound / 20 - 1 / 2 := by
    unfold mantissaBound
    push_cast
    rw [abs_le]
    constructor
    · linarith
    · linarith
  have hbound : (40 : ℚ) ≤ mantissaBound := by unfold mantissaBound; norm_num
  have hfits : Fits (amount.toRat - distributed.toRat) := by
    unfold Fits
    linarith
  rcases Option.isSome_iff_exists.1 ((sub_isSome_iff _ _).2 hfits) with ⟨leftover, hsub⟩
  have hrounds := rounds_sub hsub
  refine ⟨leftover, hsub, fun part hpart => ⟨?_, ?_, ?_⟩⟩
  · linarith [hrounds.abs_toRat_le]
  · intro hlarge hleft
    refine rest_above hrounds ?_ (by linarith) hleft
    -- A part below zero belongs to a total below zero.
    have hamount : 0 ≤ amount.toRat := by
      by_contra hneg
      linarith [hparts.nonpos (not_le.1 hneg).le part hpart]
    exact (le_foldlM_add _ (by simp) (hparts.nonneg hamount) hdistributed).2 part hpart
  · intro hlarge hleft
    refine rest_below hrounds ?_ (by linarith) hleft
    have hamount : amount.toRat ≤ 0 := by
      by_contra hpos
      linarith [hparts.nonneg (not_le.1 hpos).le part hpart]
    exact (foldlM_add_le _ (by simp) (hparts.nonpos hamount) hdistributed).2 part hpart

/-- The steps and the residue fit beside whatever the first loop leaves. -/
theorem exists_spread (hstep : step.toRat = 1 / 10 ^ dp) {floored : List Decimal}
    {leftover : Decimal} (hleaves : ∀ part ∈ floored, LeavesRoom part leftover)
    {first : Nat × Decimal} {later : List (Nat × Decimal)}
    (hnodup : ((first :: later).map Prod.fst).Nodup)
    (htargets : ∀ target ∈ (first :: later).map Prod.fst, target < floored.length) :
    ∃ floored' leftover' shares,
      topUpDecimal step (first :: later) floored leftover = some (floored', leftover') ∧
        addAt first.1 leftover' floored' = some shares := by
  have hpos : 0 < step.toRat := by rw [hstep]; positivity
  have hone : step.toRat ≤ 1 := by
    rw [hstep]
    exact div_le_self zero_le_one (one_le_pow₀ (by norm_num))
  have hparts : ∀ target ∈ (first :: later).map Prod.fst,
      ∃ part, floored[target]? = some part ∧ LeavesRoom part leftover := by
    intro target htarget
    have hlt := htargets target htarget
    exact ⟨_, List.getElem?_eq_getElem hlt, hleaves _ (List.getElem_mem hlt)⟩
  rcases hparts first.1 (by simp) with ⟨part, hpart, hleft⟩
  by_cases hle : step.toRat ≤ leftover.toRat
  · rcases List.nodup_cons.1 hnodup with ⟨hfresh, hnodup⟩
    have hroom := fun h : LeavesRoom part leftover => h.fits_step (hpos.trans_le hle) hpos.le hone
    rcases exists_addAt hpart (hroom hleft) with ⟨sum, hadd, hsum⟩
    rcases exists_sub hpos.le hle with ⟨less, hsub, hless⟩
    rcases exists_topUp hpos.le later (floored.set first.1 sum) less hnodup (by
      intro _ target htarget
      have hne : first.1 ≠ target := fun heq => hfresh (heq ▸ htarget)
      rcases hparts target (List.mem_cons_of_mem _ htarget) with ⟨other, hother, hleaves⟩
      exact ⟨other, by rwa [List.getElem?_set_ne hne],
        hleaves.fits_step (hpos.trans_le hle) hpos.le hone⟩) with
      ⟨floored', leftover', htopUp, hnonneg, hmore, hframe⟩
    have hlast : floored'[first.1]? = some sum := by
      rw [hframe _ hfresh, List.getElem?_set_self (htargets _ (by simp))]
    rcases exists_addAt hlast (hleft.fits_after_step hle hstep hsum hless
      (hnonneg (hless.nonneg (sub_nonneg.2 hle))) hmore) with ⟨last, hresidue, -⟩
    exact ⟨floored', leftover', _, by simp [topUpDecimal, hle, hadd, hsub, htopUp], hresidue⟩
  · rcases exists_addAt hpart hleft.fits_add with ⟨last, hresidue, -⟩
    exact ⟨floored, leftover, _, by simp [topUpDecimal, hle], hresidue⟩

/-- The spread returns exactly when the products and the shares fit. -/
theorem spread_isSome_iff (hpass : WeightsPass weights weightSum)
    (hlength : weights.length < 2 ^ 59) (hstep : step.toRat = 1 / 10 ^ dp) :
    (spread amount weights weightSum step dp).isSome ↔
      (∀ w ∈ weights, Fits (amount.toRat * w.toRat)) ∧ SharesFit amount weights weightSum dp := by
  have hsum := (toRat_pos hpass.pos).ne'
  constructor
  · intro hsome
    rcases Option.isSome_iff_exists.1 hsome with ⟨shares, hshares⟩
    rcases Option.bind_eq_some_iff.1 hshares with ⟨parts, hparts, hshares⟩
    rcases Option.bind_eq_some_iff.1 hshares with ⟨distributed, hdistributed, -⟩
    have hall := (mapM_isSome_iff _ weights).1 (Option.isSome_iff_exists.2 ⟨parts, hparts⟩)
    have hcut := fun w hw => (cutShare_isSome_iff hsum).1 (hall w hw)
    refine ⟨fun w hw => (hcut w hw).1, fun w hw => (hcut w hw).2, ?_⟩
    intro parts' hparts'
    rcases Option.some.inj (hparts.symm.trans hparts') with rfl
    rw [← foldlM_add_isSome_iff]
    exact Option.isSome_iff_exists.2 ⟨distributed, hdistributed⟩
  · rintro ⟨hproducts, hfit⟩
    have hcut : ∀ w ∈ weights, (cutShare amount weightSum dp w).isSome := fun w hw =>
      (cutShare_isSome_iff hsum).2 ⟨hproducts w hw, hfit.shares w hw⟩
    rcases Option.isSome_iff_exists.1 ((mapM_isSome_iff _ weights).2 hcut) with ⟨parts, hparts⟩
    have hbounded := parts_of_cutShares hpass hlength hparts
    rcases Option.isSome_iff_exists.1 ((foldlM_add_isSome_iff _ _).2 (hfit.sums parts hparts)) with
      ⟨distributed, hdistributed⟩
    have hdistributed : Decimal.sum (parts.map Prod.fst) = some distributed := hdistributed
    rcases exists_leftover hlength hbounded hdistributed with ⟨leftover, hsub, hleaves⟩
    have hperm := map_fst_sortedRemainders_perm parts
    cases horder : sortedRemainders parts with
    | nil =>
        have hnil := hperm.length_eq
        simp [horder, hbounded.length_eq, hpass.ne_nil, eq_comm] at hnil
    | cons first later =>
        rw [horder] at hperm
        rcases exists_spread hstep hleaves (hperm.nodup_iff.2 List.nodup_range) (by
          intro target htarget
          simpa using hperm.mem_iff.1 htarget) with ⟨floored', leftover', shares, htopUp, hresidue⟩
        by_cases hzero : leftover'.mantissa = 0
        · simp [spread, hparts, hdistributed, hsub, horder, htopUp, hzero]
        · simp [spread, hparts, hdistributed, hsub, horder, htopUp, hzero, hresidue]

end Spread

/-! ## The answer -/

section Answer

variable {overflowChecks : Bool} {total : Money Decimal} {weights : List Decimal} {dp : Nat}

/-- Weights that are not negative add up to nothing only if there is nothing to add. -/
theorem sum_nonpos_iff {weightSum : Decimal} (hnonneg : ∀ w ∈ weights, 0 ≤ w.mantissa)
    (hsum : Decimal.sum weights = some weightSum) :
    weightSum.mantissa ≤ 0 ↔ ∀ w ∈ weights, w.mantissa = 0 := by
  constructor
  · intro hle w hw
    have hgrow := le_foldlM_add _ (by simp) (fun w hw => toRat_nonneg (hnonneg w hw)) hsum
    by_contra hne
    have hpos := toRat_pos (lt_of_le_of_ne (hnonneg w hw) (Ne.symm hne))
    exact absurd (hpos.trans_le (hgrow.2 w hw)) (not_lt.2
      (div_nonpos_of_nonpos_of_nonneg (by exact_mod_cast hle) (pow_scale_pos weightSum).le))
  · intro hzero
    have hall : ∀ w ∈ weights, w.toRat = 0 := fun w hw => toRat_eq_zero_iff.2 (hzero w hw)
    have hlow := (le_foldlM_add _ (by simp) (fun w hw => (hall w hw).ge) hsum).1
    have hhigh := (foldlM_add_le _ (by simp) (fun w hw => (hall w hw).le) hsum).1
    exact (toRat_eq_zero_iff.1 (le_antisymm (by simpa using hhigh) (by simpa using hlow))).le

/-- What a call on weights that pass comes to. -/
theorem apportionDecimal_of_pass {weightSum : Decimal} (hpass : WeightsPass weights weightSum) :
    apportionDecimal overflowChecks total weights dp = (do
      let step ← unitStep overflowChecks dp
      let shares ← spread total.amount weights weightSum step dp
      pure (.ok (shares.map fun a => { amount := a, currency := total.currency }))) := by
  have hempty : weights.isEmpty = false := by simpa using hpass.ne_nil
  have hany : (weights.any fun w => w.mantissa < 0) = false := by
    simpa using hpass.nonneg
  simp [apportionDecimal, hempty, hany, hpass.sum_eq, hpass.pos]

/-- On weights that pass, a call returns exactly when the power, the products and the shares fit. -/
theorem apportionReturns_of_pass {weightSum : Decimal} (hpass : WeightsPass weights weightSum)
    (hlength : weights.length < 2 ^ 59) :
    ApportionReturns overflowChecks total weights dp ↔
      dp ≤ 19 ∧ (∀ w ∈ weights, Fits (total.amount.toRat * w.toRat)) ∧
        SharesFit total.amount weights weightSum dp := by
  constructor
  · rintro ⟨hsome, hstep⟩
    rw [apportionDecimal_of_pass hpass] at hsome
    rcases Option.isSome_iff_exists.1 hsome with ⟨answer, hanswer⟩
    rcases Option.bind_eq_some_iff.1 hanswer with ⟨step, hunit, hanswer⟩
    rcases Option.bind_eq_some_iff.1 hanswer with ⟨shares, hshares, -⟩
    have hvalue := hstep weightSum hpass
    have hspread : (spread total.amount weights weightSum step dp).isSome := by simp [hshares]
    refine ⟨le_of_unitStep hvalue, (spread_isSome_iff hpass hlength ?_).1 hspread⟩
    rw [hunit] at hvalue
    exact Option.some.inj hvalue
  · rintro ⟨hdp, hfit⟩
    have hunit := unitStep_of_le overflowChecks hdp
    rcases Option.map_eq_some_iff.1 hunit with ⟨step, hstep, hvalue⟩
    rcases Option.isSome_iff_exists.1 ((spread_isSome_iff hpass hlength hvalue).2 hfit) with
      ⟨shares, hshares⟩
    refine ⟨?_, fun _ _ => hunit⟩
    rw [apportionDecimal_of_pass hpass, hstep]
    simp [hshares]

/-- Whatever the build, a call returns with an exact step exactly when its numbers are in range. -/
theorem apportionReturns_iff (overflowChecks : Bool) (total : Money Decimal)
    (weights : DecimalSlice) (dp : Nat) :
    ApportionReturns overflowChecks total weights.items dp ↔
      InRange total.amount weights.items dp := by
  rcases weights with ⟨weights, hlength⟩
  show ApportionReturns overflowChecks total weights dp ↔ InRange total.amount weights dp
  by_cases hnil : weights = []
  · refine iff_of_true ⟨by simp [apportionDecimal, hnil], ?_⟩ (Or.inl hnil)
    intro weightSum hpass
    exact absurd hnil hpass.ne_nil
  by_cases hneg : ∃ w ∈ weights, w.mantissa < 0
  · refine iff_of_true ⟨?_, ?_⟩ (Or.inr (Or.inl hneg))
    · have hany : (weights.any fun w => w.mantissa < 0) = true := by simpa using hneg
      simp [apportionDecimal, hnil, hany]
    · intro weightSum hpass
      rcases hneg with ⟨w, hw, hlt⟩
      exact absurd (hpass.nonneg w hw) (not_le.2 hlt)
  have hnonneg : ∀ w ∈ weights, 0 ≤ w.mantissa := by simpa using hneg
  have hany : (weights.any fun w => w.mantissa < 0) = false := by simpa using hnonneg
  rw [InRange, or_iff_right hnil, or_iff_right hneg, ← foldlM_add_isSome_iff]
  cases hsum : Decimal.sum weights with
  | none =>
      have hfold : weights.foldlM Amount.add Amount.zero = none := hsum
      refine iff_of_false ?_ (by simp [hfold])
      rintro ⟨hsome, -⟩
      simp [apportionDecimal, hnil, hany, hsum] at hsome
  | some weightSum =>
      have hfold : weights.foldlM Amount.add Amount.zero = some weightSum := hsum
      rw [← sum_nonpos_iff hnonneg hsum]
      by_cases hpos : 0 < weightSum.mantissa
      · have hpass : WeightsPass weights weightSum := ⟨hnil, hnonneg, hsum, hpos⟩
        have hdistance : KeepsDistance total.amount weights →
            SharesFit total.amount weights weightSum dp :=
          fun h => sharesFit_of_distance hpass hlength h dp
        rw [apportionReturns_of_pass hpass hlength, or_iff_right (not_le.2 hpos), hfold]
        simpa [hsum] using fun _ _ => hdistance
      · refine iff_of_true ⟨?_, ?_⟩ ⟨by simp [hfold], Or.inl (not_lt.1 hpos)⟩
        · simp [apportionDecimal, hnil, hany, hsum, not_lt.1 hpos]
        · intro weightSum' hpass
          rcases Option.some.inj (hsum.symm.trans hpass.sum_eq) with rfl
          exact absurd hpass.pos hpos

end Answer

def inDollars (amount : Decimal) : Money Decimal where
  amount := amount
  currency := .usd

def decimalTwo : Decimal := ofInt 2 (by decide)

/-- At twenty places the power panics or wraps around, at sixty-four it has wrapped around to zero.
Twice the largest decimal is none, and neither are its two rounded halves together. -/
theorem apportionDecimal_panics :
    (apportionDecimal true (inDollars Decimal.one) [Decimal.one] 20).isNone ∧
      ¬ApportionReturns false (inDollars Decimal.one) [Decimal.one] 20 ∧
      (unitStep false 20).map toRat = some (643808907 / (5 * 10 ^ 27)) ∧
      (apportionDecimal false (inDollars Decimal.one) [Decimal.one] 64).isNone ∧
      (apportionDecimal false (inDollars Decimal.max) [decimalTwo] 2).isNone ∧
      (apportionDecimal false (inDollars Decimal.max) [Decimal.one, Decimal.one] 0).isNone := by
  refine ⟨by decide +kernel, ?_, by decide +kernel, by decide +kernel, by decide +kernel,
    by decide +kernel⟩
  rintro ⟨-, hstep⟩
  have hpass : WeightsPass [Decimal.one] Decimal.one :=
    ⟨by decide, by decide +kernel, by decide +kernel, by decide⟩
  have hvalue := hstep Decimal.one hpass
  revert hvalue
  decide +kernel

end Falkr
