import Falkr.CostSpine.Apportion
import Falkr.Testkit.AllocationSpec

/-!
# AllocationMatch — `apportion` against the reference rule

Both cut every exact share off at a whole number of units and give out what is left over.  For a
charge they do it in the same order.  For a credit the cuts are negative: `apportion` puts everything
that is left over on the share that was cut off least, while `allocate` gives it out unit by unit
from the share that was cut off most.
-/

namespace Falkr

open Lib

section Rules

variable (total : ℚ) (weights : List ℚ) (dp : Nat)

/-- What both rules are called with here. -/
structure Splittable : Prop where
  dp_le : dp ≤ 19
  whole : ∃ k : ℤ, total = k * (1 / 10 ^ dp)
  weights_ne_nil : weights ≠ []
  nonneg : ∀ w ∈ weights, 0 ≤ w
  sum_pos : 0 < weights.sum

variable {total weights dp}

theorem Splittable.valid (h : Splittable total weights dp) : ValidWeights weights :=
  ⟨h.weights_ne_nil, h.nonneg, h.sum_pos⟩

theorem Splittable.scale_le (h : Splittable total weights dp) : dp ≤ 28 :=
  h.dp_le.trans (by norm_num)

/-! ## When they agree -/

/-- What is cut off a share. -/
def cutOff (dp : Nat) (x : ℚ) : ℚ :=
  |x - roundDpToZero dp x|

/-- The two rules give the same parts. -/
def Agree (total : Money ℚ) (weights : List ℚ) (dp : Nat) : Prop :=
  ∃ parts, allocate total.amount weights dp = .ok parts ∧
    apportion total weights dp =
      .ok (parts.map fun a => { amount := a, currency := total.currency })

theorem agree_iff {total : Money ℚ} {parts parts' : List ℚ}
    (hallocate : allocate total.amount weights dp = .ok parts)
    (happortion : apportion total weights dp =
      .ok (parts'.map fun a => { amount := a, currency := total.currency })) :
    Agree total weights dp ↔ parts = parts' := by
  have hinj : Function.Injective fun a : ℚ =>
      ({ amount := a, currency := total.currency } : Money ℚ) := fun a b h => congrArg Money.amount h
  constructor
  · rintro ⟨parts'', hall, happ⟩
    have heq : parts = parts'' := by simpa [hallocate] using hall
    rw [happortion, Except.ok.injEq] at happ
    exact heq.trans (List.map_injective_iff.2 hinj happ).symm
  · rintro rfl
    exact ⟨parts, hallocate, happortion⟩

theorem agree_of_nonneg {total : Money ℚ} (h : Splittable total.amount weights dp)
    (htotal : 0 ≤ total.amount) : Agree total weights dp := by
  rcases exists_units_of_nonneg h.valid h.whole htotal with ⟨n, hsum, hn⟩
  rcases hardestCut_cuts total.amount dp h.valid with ⟨first, later, hfirst⟩
  have habs : (cuts total.amount weights dp).map (fun cut => |cut|) =
      cuts total.amount weights dp := by
    refine (List.map_congr_left fun cut hcut => ?_).trans (List.map_id _)
    exact abs_of_nonneg (cuts_of_nonneg h.valid htotal cut hcut).1
  have happortion := apportion_of_nonneg h.valid h.dp_le le_rfl (unit_pos dp) (by simpa using hsum)
    hn.le hfirst
  rw [agree_iff (allocate_of_units h.valid h.scale_le (Or.inl rfl) hsum hn) happortion, habs,
    modify_add_zero]

/-- A credit with a unit left over: the rules agree if it is one unit and was cut off all shares
alike. -/
theorem agree_iff_of_nonpos {total : Money ℚ} (h : Splittable total.amount weights dp)
    (htotal : total.amount ≤ 0) {n : Nat}
    (hsum : (cuts total.amount weights dp).sum = n * -(1 / 10 ^ dp)) (hn : n < weights.length) :
    Agree total weights dp ↔
      n = 0 ∨ n = 1 ∧ ∃ cut, ∀ other ∈ cuts total.amount weights dp, other = cut := by
  have hunit := unit_pos dp
  have habs : (cuts total.amount weights dp).map (fun cut => |cut|) =
      (cuts total.amount weights dp).map fun cut => -cut :=
    List.map_congr_left fun cut hcut => abs_of_nonpos (cuts_of_nonpos h.valid htotal cut hcut).1
  have hle : (cuts total.amount weights dp).sum ≤ 0 := by
    rw [hsum]
    have hnonneg : (0 : ℚ) ≤ n := Nat.cast_nonneg n
    nlinarith
  rcases hardestCut_cuts total.amount dp h.valid with ⟨first, later, hfirst⟩
  rw [agree_iff (allocate_of_units h.valid h.scale_le (Or.inr rfl) hsum hn)
    (apportion_of_nonpos h.valid h.dp_le hle hfirst), habs]
  constructor
  · intro heq
    cases n with
    | zero => exact Or.inl rfl
    | succ n =>
        -- The position that `allocate` starts with gets a unit from it, and everything or nothing
        -- from `apportion`.
        cases hlast : hardestCut ((cuts total.amount weights dp).map fun cut => -cut) with
        | nil =>
            have hlength := length_hardestCut ((cuts total.amount weights dp).map fun cut => -cut)
            simp [hlast, eq_comm, cuts_ne_nil h.valid] at hlength
        | cons first' later' =>
            rcases head_hardestCut hlast with ⟨cut, hcut, -⟩
            have hnodup : ((first' :: later').take (n + 1)).Nodup :=
              (List.take_sublist _ _).nodup (hlast ▸ nodup_hardestCut _)
            have hpart : ∃ part, (flooredShares total.amount weights dp)[first']? = some part := by
              have hlt : first' < (flooredShares total.amount weights dp).length := by
                have hlt := (List.getElem?_eq_some_iff.1 hcut).1
                simpa [flooredShares, cuts] using hlt
              exact ⟨_, List.getElem?_eq_getElem hlt⟩
            rcases hpart with ⟨part, hpart⟩
            have hat := congrArg (fun parts => parts[first']?) heq
            simp only [hlast, getElem?_bump _ _ hnodup, List.getElem?_modify, hpart] at hat
            by_cases hsame : first = first'
            · subst hsame
              have hone : -(1 / 10 ^ dp) = ((n + 1 : Nat) : ℚ) * -(1 / 10 ^ dp) := by
                rw [← hsum]
                simpa using hat
              have hn1 : ((n + 1 : Nat) : ℚ) = 1 := by
                have hne : -(1 / (10 : ℚ) ^ dp) ≠ 0 := neg_ne_zero.2 hunit.ne'
                exact (mul_eq_right₀ hne).1 hone.symm
              exact Or.inr ⟨by exact_mod_cast hn1, const_of_head_eq hfirst hlast⟩
            · simp [hsame] at hat
  · rintro (rfl | ⟨rfl, cut, hconst⟩)
    · have hzero : (cuts total.amount weights dp).sum = 0 := by simpa using hsum
      rw [hzero, modify_add_zero]
      rfl
    · have hconst' : ∀ other ∈ (cuts total.amount weights dp).map fun cut => -cut,
          other = -cut := by
        intro other hother
        rcases List.mem_map.1 hother with ⟨cut', hcut', rfl⟩
        rw [hconst cut' hcut']
      have hlast : hardestCut ((cuts total.amount weights dp).map fun cut => -cut) =
          first :: later := by
        rw [hardestCut_of_const hconst', List.length_map, ← hardestCut_of_const hconst, hfirst]
      simp [hlast, hsum]

theorem forall_cutOff_iff (P : ℚ → Prop) :
    (∀ x ∈ exactShares total weights, P (cutOff dp x)) ↔
      ∀ cut ∈ cuts total weights dp, P |cut| := by
  simp [cuts, cutOff]

/-- A credit leaves nothing over exactly if nothing is cut off. -/
theorem units_eq_zero_iff (h : Splittable total weights dp) (htotal : total ≤ 0) {n : Nat}
    (hsum : (cuts total weights dp).sum = n * -(1 / 10 ^ dp)) :
    n = 0 ↔ ∀ cut ∈ cuts total weights dp, |cut| = 0 := by
  have hunit := unit_pos dp
  simp only [abs_eq_zero]
  rw [← sum_cuts_eq_zero_iff h.valid htotal, hsum, mul_eq_zero]
  simp

/-- A credit leaves one unit over that was cut off all shares alike exactly if an equal fraction of
the unit is cut off every share. -/
theorem units_eq_one_iff (h : Splittable total weights dp) (htotal : total ≤ 0) {n : Nat}
    (hsum : (cuts total weights dp).sum = n * -(1 / 10 ^ dp)) :
    (n = 1 ∧ ∃ cut, ∀ other ∈ cuts total weights dp, other = cut) ↔
      ∀ cut ∈ cuts total weights dp, |cut| = 1 / 10 ^ dp / (weights.length : ℚ) := by
  have hunit := unit_pos dp
  have hlength : (0 : ℚ) < weights.length := by
    exact_mod_cast List.length_pos_iff.2 h.weights_ne_nil
  have hconst : ∀ cut, (∀ other ∈ cuts total weights dp, other = cut) →
      (cuts total weights dp).sum = weights.length * cut := by
    intro cut hcut
    rw [List.sum_eq_card_nsmul _ cut hcut, length_cuts, nsmul_eq_mul]
  constructor
  · rintro ⟨rfl, cut, hcut⟩ other hother
    have hvalue : cut = -(1 / 10 ^ dp / (weights.length : ℚ)) := by
      have hone : (weights.length : ℚ) * cut = -(1 / 10 ^ dp) := by
        rw [← hconst cut hcut, hsum]
        simp
      field_simp at hone ⊢
      linarith
    rw [hcut other hother, hvalue, abs_neg, abs_of_pos (div_pos hunit hlength)]
  · intro hall
    have hcut : ∀ other ∈ cuts total weights dp,
        other = -(1 / 10 ^ dp / (weights.length : ℚ)) := by
      intro other hother
      have habs := hall other hother
      rw [abs_of_nonpos (cuts_of_nonpos h.valid htotal other hother).1] at habs
      linarith
    refine ⟨?_, _, hcut⟩
    have hone : (n : ℚ) * -(1 / 10 ^ dp) = -(1 / 10 ^ dp) := by
      rw [← hsum, hconst _ hcut]
      field_simp
    have hn : (n : ℚ) = 1 := (mul_eq_right₀ (neg_ne_zero.2 hunit.ne')).1 hone
    exact_mod_cast hn

/-- The two rules agree exactly on charges, on credits whose exact shares are whole numbers of
units, and on credits of which an equal fraction of one unit is cut off every share. -/
theorem apportion_eq_allocate_iff {total : Money ℚ} (h : Splittable total.amount weights dp) :
    Agree total weights dp ↔
      0 ≤ total.amount ∨
        (∀ x ∈ exactShares total.amount weights, cutOff dp x = 0) ∨
        ∀ x ∈ exactShares total.amount weights,
          cutOff dp x = 1 / 10 ^ dp / (weights.length : ℚ) := by
  by_cases htotal : 0 ≤ total.amount
  · simp [agree_of_nonneg h htotal, htotal]
  · have hneg : total.amount ≤ 0 := le_of_not_ge htotal
    rcases exists_units_of_nonpos h.valid h.whole hneg with ⟨n, hsum, hn⟩
    rw [forall_cutOff_iff fun cut => cut = 0,
      forall_cutOff_iff fun cut => cut = 1 / 10 ^ dp / (weights.length : ℚ),
      ← units_eq_zero_iff h hneg hsum, ← units_eq_one_iff h hneg hsum,
      agree_iff_of_nonpos h hneg hsum hn]
    simp [htotal]

end Rules

/-! ## Two credits -/

theorem agree_hundredDollarCredit :
    Agree { amount := -100, currency := .usd } [1, 1, 1] 2 := by
  have h : Splittable (-100) [1, 1, 1] 2 :=
    { dp_le := by decide
      whole := ⟨-10000, by norm_num⟩
      weights_ne_nil := by decide
      nonneg := by decide +kernel
      sum_pos := by decide +kernel }
  exact (apportion_eq_allocate_iff h).2 (Or.inr (Or.inr (by decide +kernel)))

theorem not_agree_twoCentCredit :
    Splittable (-2 / 100) [1, 1, 1] 2 ∧
      allocate (-2 / 100) [1, 1, 1] 2 = .ok [-1 / 100, -1 / 100, 0] ∧
      apportion { amount := -2 / 100, currency := .usd } [1, 1, 1] 2 =
        .ok ([-2 / 100, 0, 0].map fun a => { amount := a, currency := .usd }) ∧
      ¬Agree { amount := -2 / 100, currency := .usd } [1, 1, 1] 2 := by
  have hallocate : allocate (-2 / 100) [1, 1, 1] 2 = .ok [-1 / 100, -1 / 100, 0] := by
    decide +kernel
  have happortion : apportion { amount := -2 / 100, currency := .usd } [1, 1, 1] 2 =
      .ok ([-2 / 100, 0, 0].map fun a => { amount := a, currency := .usd }) := by
    decide +kernel
  refine ⟨?_, hallocate, happortion, ?_⟩
  · exact
      { dp_le := by decide
        whole := ⟨-2, by norm_num⟩
        weights_ne_nil := by decide
        nonneg := by decide +kernel
        sum_pos := by decide +kernel }
  · rw [agree_iff hallocate happortion]
    decide +kernel

end Falkr
