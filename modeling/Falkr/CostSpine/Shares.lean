import Falkr.Lib.LargestRemainder

/-!
# Shares — what apportionment by weight cuts off

The exact shares of a total add up to it.  Each is cut off at a whole number of units, and what the
cuts add up to is left over.  The cuts have the sign of the total.
-/

namespace Falkr

open Lib

/-- The weights that a total can be split by. -/
structure ValidWeights (weights : List ℚ) : Prop where
  ne_nil : weights ≠ []
  nonneg : ∀ w ∈ weights, 0 ≤ w
  sum_pos : 0 < weights.sum

section Spread

variable (total : ℚ) (weights : List ℚ) (dp : Nat)

def exactShares : List ℚ :=
  weights.map fun w => total * w / weights.sum

/-- What is cut off from each share, with its sign. -/
def cuts : List ℚ :=
  (exactShares total weights).map fun x => x - roundDpToZero dp x

def flooredShares : List ℚ :=
  (exactShares total weights).map (roundDpToZero dp)

variable {total weights dp}

theorem isEmpty_of_valid (h : ValidWeights weights) : weights.isEmpty = false := by
  simpa using h.ne_nil

/-! ## The cuts -/

theorem unit_pos (dp : Nat) : (0 : ℚ) < 1 / 10 ^ dp := by
  positivity

theorem sum_exactShares (h : ValidWeights weights) :
    (exactShares total weights).sum = total := by
  have hsum : ∀ (ws : List ℚ) (s : ℚ),
      (ws.map fun w => total * w / s).sum = total * ws.sum / s := by
    intro ws s
    induction ws with
    | nil => simp
    | cons w ws ih =>
        rw [List.map_cons, List.sum_cons, ih, List.sum_cons]
        ring
  have hne := h.sum_pos.ne'
  rw [exactShares, hsum]
  field_simp

theorem sum_cuts (h : ValidWeights weights) :
    (cuts total weights dp).sum = total - (flooredShares total weights dp).sum := by
  have hsum : ∀ xs : List ℚ, (xs.map fun x => x - roundDpToZero dp x).sum =
      xs.sum - (xs.map (roundDpToZero dp)).sum := by
    intro xs
    induction xs with
    | nil => simp
    | cons x xs ih =>
        simp only [List.map_cons, List.sum_cons, ih]
        ring
  rw [cuts, hsum, sum_exactShares h, flooredShares]

variable (total weights dp) in
/-- The floored shares add up to a whole number of units. -/
theorem exists_sum_flooredShares :
    ∃ k : ℤ, (flooredShares total weights dp).sum = k * (1 / 10 ^ dp) := by
  unfold flooredShares
  induction exactShares total weights with
  | nil => exact ⟨0, by simp⟩
  | cons x xs ih =>
      rcases ih with ⟨k, hk⟩
      rcases exists_truncTo (1 / 10 ^ dp) x with ⟨j, hj⟩
      refine ⟨j + k, ?_⟩
      rw [List.map_cons, List.sum_cons, hk, roundDpToZero, hj]
      push_cast
      ring

theorem exists_sum_cuts (h : ValidWeights weights)
    (hwhole : ∃ k : ℤ, total = k * (1 / 10 ^ dp)) :
    ∃ k : ℤ, (cuts total weights dp).sum = k * (1 / 10 ^ dp) := by
  rcases hwhole with ⟨k, hk⟩
  rcases exists_sum_flooredShares total weights dp with ⟨j, hj⟩
  refine ⟨k - j, ?_⟩
  rw [sum_cuts h, hj, hk]
  push_cast
  ring

theorem exactShares_nonneg (h : ValidWeights weights) (htotal : 0 ≤ total) :
    ∀ x ∈ exactShares total weights, 0 ≤ x := by
  intro x hx
  rcases List.mem_map.1 hx with ⟨w, hw, rfl⟩
  exact div_nonneg (mul_nonneg htotal (h.nonneg w hw)) h.sum_pos.le

theorem exactShares_nonpos (h : ValidWeights weights) (htotal : total ≤ 0) :
    ∀ x ∈ exactShares total weights, x ≤ 0 := by
  intro x hx
  rcases List.mem_map.1 hx with ⟨w, hw, rfl⟩
  exact div_nonpos_of_nonpos_of_nonneg (mul_nonpos_of_nonpos_of_nonneg htotal (h.nonneg w hw))
    h.sum_pos.le

variable (total weights dp) in
theorem length_cuts : (cuts total weights dp).length = weights.length := by
  simp [cuts, exactShares]

theorem cuts_ne_nil (h : ValidWeights weights) : cuts total weights dp ≠ [] := by
  simpa [cuts, exactShares] using h.ne_nil

/-! ## The opposite total -/

variable (total weights) in
theorem exactShares_neg :
    exactShares (-total) weights = (exactShares total weights).map fun x => -x := by
  simp only [exactShares, List.map_map]
  refine List.map_congr_left fun w _ => ?_
  simp only [Function.comp_apply]
  ring

variable (total weights dp) in
theorem flooredShares_neg :
    flooredShares (-total) weights dp = (flooredShares total weights dp).map fun x => -x := by
  simp [flooredShares, exactShares_neg, roundDpToZero, truncTo_neg]

variable (total weights dp) in
theorem cuts_neg : cuts (-total) weights dp = (cuts total weights dp).map fun cut => -cut := by
  simp only [cuts, exactShares_neg, List.map_map]
  refine List.map_congr_left fun x _ => ?_
  simp only [Function.comp_apply, roundDpToZero, truncTo_neg]
  ring

/-! ## One position -/

variable (total) in
theorem getElem?_exactShares {i : Nat} {w : ℚ} (h : weights[i]? = some w) :
    (exactShares total weights)[i]? = some (total * w / weights.sum) := by
  simp [exactShares, h]

theorem getElem?_flooredShares (total : ℚ) (weights : List ℚ) (dp i : Nat) :
    (flooredShares total weights dp)[i]? =
      (exactShares total weights)[i]?.map (roundDpToZero dp) := by
  simp [flooredShares]

theorem getElem?_cuts (total : ℚ) (weights : List ℚ) (dp i : Nat) :
    (cuts total weights dp)[i]? =
      (exactShares total weights)[i]?.map fun x => x - roundDpToZero dp x := by
  simp [cuts]

/-! ## Signs and sizes -/

/-- The cuts of a charge. -/
theorem cuts_of_nonneg (h : ValidWeights weights) (htotal : 0 ≤ total) :
    ∀ cut ∈ cuts total weights dp, 0 ≤ cut ∧ cut < 1 / 10 ^ dp := by
  intro cut hcut
  rcases List.mem_map.1 hcut with ⟨x, hx, rfl⟩
  exact cut_of_nonneg (unit_pos dp) (exactShares_nonneg h htotal x hx)

/-- The cuts of a credit. -/
theorem cuts_of_nonpos (h : ValidWeights weights) (htotal : total ≤ 0) :
    ∀ cut ∈ cuts total weights dp, cut ≤ 0 ∧ -(1 / 10 ^ dp) < cut := by
  intro cut hcut
  rcases List.mem_map.1 hcut with ⟨x, hx, rfl⟩
  exact cut_of_nonpos (unit_pos dp) (exactShares_nonpos h htotal x hx)

/-- The units that are left over of a charge. -/
theorem exists_units_of_nonneg (h : ValidWeights weights)
    (hwhole : ∃ k : ℤ, total = k * (1 / 10 ^ dp)) (htotal : 0 ≤ total) :
    ∃ n : Nat, (cuts total weights dp).sum = n * (1 / 10 ^ dp) ∧ n < weights.length := by
  rcases exists_sum_cuts h hwhole with ⟨k, hk⟩
  rw [← length_cuts total weights dp]
  exact exists_units (unit_pos dp) (cuts_ne_nil h)
    (fun cut hcut => (cuts_of_nonneg h htotal cut hcut).1)
    (fun cut hcut => (cuts_of_nonneg h htotal cut hcut).2) hk

/-- The units that are left over of a credit. -/
theorem exists_units_of_nonpos (h : ValidWeights weights)
    (hwhole : ∃ k : ℤ, total = k * (1 / 10 ^ dp)) (htotal : total ≤ 0) :
    ∃ n : Nat, (cuts total weights dp).sum = n * -(1 / 10 ^ dp) ∧ n < weights.length := by
  rcases exists_sum_cuts h hwhole with ⟨k, hk⟩
  have hneg : ∀ cut ∈ (cuts total weights dp).map fun cut => -cut,
      0 ≤ cut ∧ cut < 1 / 10 ^ dp := by
    intro cut hcut
    rcases List.mem_map.1 hcut with ⟨cut', hcut', rfl⟩
    have hbounds := cuts_of_nonpos h htotal cut' hcut'
    exact ⟨by linarith [hbounds.1], by linarith [hbounds.2]⟩
  have hsum : ((cuts total weights dp).map fun cut => -cut).sum = (-k : ℤ) * (1 / 10 ^ dp) := by
    rw [← List.sum_neg, hk]
    push_cast
    ring
  rcases exists_units (unit_pos dp) (by simpa using cuts_ne_nil h)
    (fun cut hcut => (hneg cut hcut).1) (fun cut hcut => (hneg cut hcut).2) hsum with ⟨n, hn, hlt⟩
  refine ⟨n, ?_, by simpa [length_cuts] using hlt⟩
  rw [← List.sum_neg] at hn
  linarith


/-- A credit leaves nothing over exactly if nothing is cut off. -/
theorem sum_cuts_eq_zero_iff (h : ValidWeights weights) (htotal : total ≤ 0) :
    (cuts total weights dp).sum = 0 ↔ ∀ cut ∈ cuts total weights dp, cut = 0 := by
  constructor
  · intro hsum cut hcut
    have hneg : ((cuts total weights dp).map fun cut => -cut).sum = 0 := by
      rw [← List.sum_neg, hsum, neg_zero]
    have hnonneg : ∀ cut ∈ (cuts total weights dp).map fun cut => -cut, 0 ≤ cut := by
      intro other hother
      rcases List.mem_map.1 hother with ⟨cut', hcut', rfl⟩
      exact neg_nonneg.2 (cuts_of_nonpos h htotal cut' hcut').1
    have hcut0 := List.all_zero_of_le_zero_le_of_sum_eq_zero hnonneg hneg
      (List.mem_map_of_mem hcut)
    simpa using hcut0
  · exact List.sum_eq_zero

variable (total dp) in
theorem hardestCut_cuts (h : ValidWeights weights) :
    ∃ first later, hardestCut (cuts total weights dp) = first :: later := by
  cases horder : hardestCut (cuts total weights dp) with
  | nil =>
      have hlength := length_hardestCut (cuts total weights dp)
      simp [horder, eq_comm, cuts_ne_nil h] at hlength
  | cons first later => exact ⟨first, later, rfl⟩

end Spread

end Falkr
