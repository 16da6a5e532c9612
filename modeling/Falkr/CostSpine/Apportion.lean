import Falkr.CostSpine.Pricing
import Falkr.CostSpine.Shares

/-!
# Apportion — what `apportion` returns

The shares add up to the total whatever its sign and precision.  Of a charge, those cut off hardest
get one unit each.  Of a credit the cuts are negative, so the loop that hands out units never runs,
and all that is left over goes to the share that was cut off least.
-/

namespace Falkr

open Lib

/-! ## The loop -/

/-- What the loop hands out leaves what is left over. -/
theorem topUp_conserves (step : ℚ) :
    ∀ (remainders : List (Nat × ℚ)) (floored : List ℚ) (leftover : ℚ),
      (∀ remainder ∈ remainders, remainder.1 < floored.length) →
        (topUp step remainders floored leftover).1.length = floored.length ∧
          (topUp step remainders floored leftover).1.sum +
              (topUp step remainders floored leftover).2 =
            floored.sum + leftover := by
  intro remainders
  induction remainders with
  | nil =>
      intro floored leftover _
      exact ⟨rfl, rfl⟩
  | cons remainder rest ih =>
      intro floored leftover htargets
      rcases List.forall_mem_cons.1 htargets with ⟨htarget, hrest⟩
      by_cases hle : step ≤ leftover
      · have hrec := ih (floored.modify remainder.1 (· + step)) (leftover - step)
          (by simpa using hrest)
        rw [sum_modify_add _ _ _ htarget, List.length_modify] at hrec
        rw [topUp, if_pos hle]
        exact ⟨hrec.1, by linarith [hrec.2]⟩
      · rw [topUp, if_neg hle]
        exact ⟨rfl, rfl⟩

/-- A unit each, as long as there are whole ones. -/
theorem topUp_eq {step rest : ℚ} (hrest : 0 ≤ rest) (hlt : rest < step) :
    ∀ (remainders : List (Nat × ℚ)) (n : Nat) (floored : List ℚ), n ≤ remainders.length →
      topUp step remainders floored (n * step + rest) =
        (bump step ((remainders.map Prod.fst).take n) floored, rest) := by
  intro remainders
  induction remainders with
  | nil =>
      intro n floored hn
      have hzero : n = 0 := by simpa using hn
      simp [topUp, hzero]
  | cons remainder later ih =>
      intro n floored hn
      cases n with
      | zero => simp [topUp, hlt]
      | succ n =>
          have hle : step ≤ (n + 1 : Nat) * step + rest := by
            push_cast
            nlinarith [(Nat.cast_nonneg n : (0 : ℚ) ≤ n)]
          have hleft : ((n + 1 : Nat) : ℚ) * step + rest - step = n * step + rest := by
            push_cast
            ring
          rw [topUp, if_pos hle, hleft, ih n _ (by simpa using hn)]
          simp

/-- Less than a step is not given out. -/
theorem topUp_of_lt {step leftover : ℚ} (h : leftover < step) (remainders : List (Nat × ℚ))
    (floored : List ℚ) : topUp step remainders floored leftover = (floored, leftover) := by
  cases remainders with
  | nil => rfl
  | cons remainder rest => simp [topUp, h]

/-! ## The answer -/

section Answer

variable {total : ℚ} {weights : List ℚ} {dp : Nat}

/-- The order of `apportion`: that of the signed cuts. -/
def signedOrder (total : ℚ) (weights : List ℚ) (dp : Nat) : List (Nat × ℚ) :=
  ((cuts total weights dp).zipIdx.insertionSort HarderCut).map Prod.swap

variable (total weights dp) in
theorem map_fst_signedOrder :
    (signedOrder total weights dp).map Prod.fst = hardestCut (cuts total weights dp) := by
  simp [signedOrder, hardestCut]

theorem length_signedOrder : (signedOrder total weights dp).length = weights.length := by
  simp [signedOrder, cuts, exactShares]

variable (total weights dp) in
theorem signedOrder_eq :
    ((exactShares total weights).mapIdx fun i x => (i, x - roundDpToZero dp x)).insertionSort
        (fun a b => b.2 < a.2 ∨ b.2 = a.2 ∧ a.1 ≤ b.1) = signedOrder total weights dp := by
  rw [signedOrder, List.map_insertionSort HarderCut
    (fun a b => b.2 < a.2 ∨ b.2 = a.2 ∧ a.1 ≤ b.1) Prod.swap _ (fun _ _ _ _ => Iff.rfl)]
  congr 1
  simp [cuts, List.mapIdx_eq_zipIdx_map, List.zipIdx_map, Function.comp_def]

theorem apportion_step (hdp : dp ≤ 19) :
    (1 : ℚ) / ((10 ^ dp % 2 ^ 64 : Nat) : ℚ) = 1 / 10 ^ dp := by
  have hlt : 10 ^ dp < 2 ^ 64 :=
    lt_of_le_of_lt (Nat.pow_le_pow_right (by norm_num) hdp) (by norm_num)
  rw [Nat.mod_eq_of_lt hlt]
  push_cast
  rfl

theorem apportion_of_topUp {total : Money ℚ} (h : ValidWeights weights) (hdp : dp ≤ 19)
    {first : Nat} {later : List Nat}
    (hfirst : hardestCut (cuts total.amount weights dp) = first :: later)
    {floored : List ℚ} {leftover : ℚ}
    (htopUp : topUp (1 / 10 ^ dp) (signedOrder total.amount weights dp)
      (flooredShares total.amount weights dp) (cuts total.amount weights dp).sum =
        (floored, leftover)) :
    apportion total weights dp = .ok ((floored.modify first (· + leftover)).map
      fun a => { amount := a, currency := total.currency }) := by
  have hnonneg : (weights.any fun w => w < 0) = false := by
    simpa using h.nonneg
  have hleft : total.amount - ((exactShares total.amount weights).map (roundDpToZero dp)).sum =
      (cuts total.amount weights dp).sum := (sum_cuts h).symm
  simp only [apportion, isEmpty_of_valid h, hnonneg, not_le.2 h.sum_pos, apportion_step hdp,
    if_false, Bool.false_eq_true]
  have horder := signedOrder_eq total.amount weights dp
  simp only [flooredShares, exactShares] at hleft horder htopUp
  simp only [hleft, horder, htopUp]
  have hmap := map_fst_signedOrder total.amount weights dp
  rw [hfirst] at hmap
  cases hsigned : signedOrder total.amount weights dp with
  | nil => simp [hsigned] at hmap
  | cons pair rest =>
      have htarget : pair.1 = first := by
        rw [hsigned] at hmap
        exact (List.cons.inj hmap).1
      by_cases hzero : leftover = 0
      · rw [if_pos hzero, hzero, modify_add_zero]
      · simp [hzero, htarget]

theorem topUp_of_nonneg {n : Nat} {rest : ℚ} (hrest : 0 ≤ rest) (hlt : rest < 1 / 10 ^ dp)
    (hsum : (cuts total weights dp).sum = n * (1 / 10 ^ dp) + rest) (hn : n ≤ weights.length) :
    topUp (1 / 10 ^ dp) (signedOrder total weights dp) (flooredShares total weights dp)
        (cuts total weights dp).sum =
      (bump (1 / 10 ^ dp) ((hardestCut (cuts total weights dp)).take n)
        (flooredShares total weights dp), rest) := by
  have htopUp := topUp_eq hrest hlt (signedOrder total weights dp) n
    (flooredShares total weights dp) (by rw [length_signedOrder]; exact hn)
  rw [← hsum, map_fst_signedOrder] at htopUp
  exact htopUp

/-- A charge: one unit each for those cut off hardest, and what is less than a unit for the first of
them. -/
theorem apportion_of_nonneg {total : Money ℚ} (h : ValidWeights weights) (hdp : dp ≤ 19) {n : Nat}
    {rest : ℚ} (hrest : 0 ≤ rest) (hlt : rest < 1 / 10 ^ dp)
    (hsum : (cuts total.amount weights dp).sum = n * (1 / 10 ^ dp) + rest)
    (hn : n ≤ weights.length) {first : Nat} {later : List Nat}
    (hfirst : hardestCut (cuts total.amount weights dp) = first :: later) :
    apportion total weights dp = .ok (((bump (1 / 10 ^ dp)
      ((hardestCut (cuts total.amount weights dp)).take n)
      (flooredShares total.amount weights dp)).modify first (· + rest)).map
        fun a => { amount := a, currency := total.currency }) :=
  apportion_of_topUp h hdp hfirst (topUp_of_nonneg hrest hlt hsum hn)

/-- A credit: everything that is left over for the one cut off least. -/
theorem apportion_of_nonpos {total : Money ℚ} (h : ValidWeights weights) (hdp : dp ≤ 19)
    (hsum : (cuts total.amount weights dp).sum ≤ 0) {first : Nat} {later : List Nat}
    (hfirst : hardestCut (cuts total.amount weights dp) = first :: later) :
    apportion total weights dp = .ok (((flooredShares total.amount weights dp).modify first
      (· + (cuts total.amount weights dp).sum)).map
        fun a => { amount := a, currency := total.currency }) :=
  apportion_of_topUp h hdp hfirst
    (topUp_of_lt (lt_of_le_of_lt hsum (unit_pos dp)) (signedOrder total.amount weights dp)
      (flooredShares total.amount weights dp))

/-! ## The sum -/

/-- The shares of a total: as many as the weights, in its currency, and all of it. -/
structure Conserved (total : Money ℚ) (weights : List ℚ) (shares : List (Money ℚ)) : Prop where
  count : shares.length = weights.length
  currency : ∀ share ∈ shares, share.currency = total.currency
  sum : (shares.map Money.amount).sum = total.amount

/-- Handing out units and placing the residue make up for what was cut off. -/
theorem sum_topUp (h : ValidWeights weights) {first : Nat} {later : List Nat}
    (hfirst : hardestCut (cuts total weights dp) = first :: later) {floored : List ℚ}
    {leftover : ℚ}
    (htopUp : topUp (1 / 10 ^ dp) (signedOrder total weights dp) (flooredShares total weights dp)
      (cuts total weights dp).sum = (floored, leftover)) :
    floored.length = weights.length ∧ (floored.modify first (· + leftover)).sum = total := by
  have hlength : (flooredShares total weights dp).length = weights.length := by
    simp [flooredShares, exactShares]
  have hbound : ∀ i ∈ hardestCut (cuts total weights dp), i < weights.length := by
    intro i hi
    rw [← length_cuts total weights dp]
    exact lt_of_mem_hardestCut hi
  have hkept := topUp_conserves (1 / 10 ^ dp) (signedOrder total weights dp)
    (flooredShares total weights dp) (cuts total weights dp).sum (by
      intro remainder hremainder
      rw [hlength]
      refine hbound _ ?_
      rw [← map_fst_signedOrder]
      exact List.mem_map_of_mem hremainder)
  rw [htopUp, hlength] at hkept
  have hlt : first < floored.length := hkept.1 ▸ hbound first (by simp [hfirst])
  have hcuts : (cuts total weights dp).sum = total - (flooredShares total weights dp).sum :=
    sum_cuts h
  refine ⟨hkept.1, ?_⟩
  calc (floored.modify first (· + leftover)).sum
      = floored.sum + leftover := sum_modify_add _ _ _ hlt
    _ = (flooredShares total weights dp).sum + (cuts total weights dp).sum := hkept.2
    _ = total := by rw [hcuts]; ring

/-- Cutting off, handing out units and placing the residue leave the sum what it was. -/
theorem apportion_conserves {total : Money ℚ} (h : ValidWeights weights) (hdp : dp ≤ 19) :
    ∃ shares, apportion total weights dp = .ok shares ∧ Conserved total weights shares := by
  rcases hardestCut_cuts total.amount dp h with ⟨first, later, hfirst⟩
  rcases hresult : topUp (1 / 10 ^ dp) (signedOrder total.amount weights dp)
    (flooredShares total.amount weights dp) (cuts total.amount weights dp).sum with
    ⟨floored, leftover⟩
  rcases sum_topUp h hfirst hresult with ⟨hlength, hsum⟩
  refine ⟨_, apportion_of_topUp h hdp hfirst hresult, ?_, ?_, ?_⟩
  · simpa using hlength
  · intro share hshare
    rcases List.mem_map.1 hshare with ⟨a, -, rfl⟩
    rfl
  · simpa only [List.map_map, Function.comp_def, List.map_id'] using hsum

/-- A credit of half a cent more than ten dollars, in whole cents. -/
theorem apportion_conserves_credit :
    ∃ shares, apportion { amount := -10005 / 1000, currency := .usd } [2, 1, 0] 2 = .ok shares ∧
      Conserved { amount := -10005 / 1000, currency := .usd } [2, 1, 0] shares :=
  apportion_conserves ⟨by decide, by decide +kernel, by decide +kernel⟩ (by decide)

/-! ## Signs and idle workloads -/

/-- A workload without weight gets nothing, and none gets a share of the other sign. -/
structure Fair (total : Money ℚ) (weights : List ℚ) (shares : List (Money ℚ)) : Prop where
  idle : ∀ i : Nat, weights[i]? = some 0 → ∃ share, shares[i]? = some share ∧ share.amount = 0
  charge : 0 ≤ total.amount → ∀ share ∈ shares, 0 ≤ share.amount
  credit : total.amount ≤ 0 → ∀ share ∈ shares, share.amount ≤ 0

/-- Every share is a whole number of units, or ahead of each idle workload there is one that is. -/
def CreditSpared (total : ℚ) (weights : List ℚ) (dp : Nat) : Prop :=
  (∀ x ∈ exactShares total weights, roundDpToZero dp x = x) ∨
    ∀ i : Nat, weights[i]? = some 0 →
      ∃ j < i, ∃ x, (exactShares total weights)[j]? = some x ∧ roundDpToZero dp x = x

variable (total dp) in
/-- An idle workload has no exact share, and nothing is cut off from it. -/
theorem idle_parts {i : Nat} (hi : weights[i]? = some 0) :
    (exactShares total weights)[i]? = some 0 ∧ (flooredShares total weights dp)[i]? = some 0 ∧
      (cuts total weights dp)[i]? = some 0 := by
  have hexact : (exactShares total weights)[i]? = some 0 := by
    simpa using getElem?_exactShares total hi
  rw [getElem?_flooredShares, getElem?_cuts, hexact]
  simp [roundDpToZero_zero]

/-- The floored shares with a step for some and something more for one. -/
theorem forall_modify_bump {P : ℚ → Prop} (hadd : ∀ a b, P a → P b → P (a + b)) (hzero : P 0)
    {floored : List ℚ} (hfloored : ∀ a ∈ floored, P a) {step rest : ℚ} (hstep : P step)
    (hrest : P rest) {targets : List Nat} (hnodup : targets.Nodup) (first : Nat) :
    ∀ a ∈ (bump step targets floored).modify first (· + rest), P a := by
  intro a ha
  rcases List.mem_iff_getElem?.1 ha with ⟨i, hi⟩
  rw [getElem?_modify_bump step rest hnodup] at hi
  rcases Option.map_eq_some_iff.1 hi with ⟨part, hpart, rfl⟩
  refine hadd _ _ (hadd _ _ (hfloored _ (List.mem_of_getElem? hpart)) ?_) ?_
  · split
    · exact hstep
    · exact hzero
  · split
    · exact hrest
    · exact hzero

theorem flooredShares_nonneg (h : ValidWeights weights) (htotal : 0 ≤ total) :
    ∀ a ∈ flooredShares total weights dp, 0 ≤ a := by
  intro a ha
  rcases List.mem_map.1 ha with ⟨x, hx, rfl⟩
  exact truncTo_nonneg (unit_pos dp) (exactShares_nonneg h htotal x hx)

theorem flooredShares_nonpos (h : ValidWeights weights) (htotal : total ≤ 0) :
    ∀ a ∈ flooredShares total weights dp, a ≤ 0 := by
  intro a ha
  rcases List.mem_map.1 ha with ⟨x, hx, rfl⟩
  exact truncTo_nonpos (unit_pos dp) (exactShares_nonpos h htotal x hx)

variable (dp) in
/-- What is left over of a charge: whole units, fewer than there are shares, and a rest. -/
theorem exists_units_rest (h : ValidWeights weights) (htotal : 0 ≤ total) :
    ∃ (n : Nat) (rest : ℚ), (cuts total weights dp).sum = n * (1 / 10 ^ dp) + rest ∧ 0 ≤ rest ∧
      rest < 1 / 10 ^ dp ∧ n ≤ weights.length := by
  have hunit := unit_pos dp
  have hcuts : ∀ cut ∈ cuts total weights dp, 0 ≤ cut ∧ cut < 1 / 10 ^ dp :=
    cuts_of_nonneg h htotal
  have hsum : 0 ≤ (cuts total weights dp).sum :=
    List.sum_nonneg fun cut hcut => (hcuts cut hcut).1
  have hlt := sum_lt_of_forall_lt (cuts_ne_nil h) fun cut hcut => (hcuts cut hcut).2
  rw [length_cuts] at hlt
  have hrest := cut_of_nonneg hunit hsum
  rcases exists_truncTo (1 / 10 ^ dp) (cuts total weights dp).sum with ⟨k, hk⟩
  have hk0 : 0 ≤ k := by
    have hnonneg := truncTo_nonneg hunit hsum
    rw [hk] at hnonneg
    exact_mod_cast nonneg_of_mul_nonneg_left hnonneg hunit
  lift k to Nat using hk0
  rw [hk] at hrest
  refine ⟨k, _, (add_sub_cancel _ _).symm, by simpa using hrest.1, by simpa using hrest.2, ?_⟩
  have hle : (k : ℚ) * (1 / 10 ^ dp) < weights.length * (1 / 10 ^ dp) := by
    have hdiff := hrest.1
    push_cast at hdiff
    linarith
  exact_mod_cast (lt_of_mul_lt_mul_right hle hunit.le).le

/-- A share in the answer, from its position. -/
theorem getElem?_answer {total : Money ℚ} {amounts : List ℚ} {i : Nat} {a : ℚ}
    (hi : amounts[i]? = some a) :
    ((amounts.map fun a => ({ amount := a, currency := total.currency } : Money ℚ))[i]?) =
      some { amount := a, currency := total.currency } := by
  simp [hi]

theorem forall_answer {total : Money ℚ} {amounts : List ℚ} {P : ℚ → Prop}
    (h : ∀ a ∈ amounts, P a) :
    ∀ share ∈ amounts.map fun a => ({ amount := a, currency := total.currency } : Money ℚ),
      P share.amount := by
  intro share hshare
  rcases List.mem_map.1 hshare with ⟨a, ha, rfl⟩
  exact h a ha

theorem fair_of_nonneg {total : Money ℚ} (h : ValidWeights weights) (hdp : dp ≤ 19)
    (htotal : 0 ≤ total.amount) :
    ∃ shares, apportion total weights dp = .ok shares ∧ Fair total weights shares := by
  rcases exists_units_rest dp h htotal with ⟨n, rest, hsum, hrest, hlt, hn⟩
  rcases hardestCut_cuts total.amount dp h with ⟨first, later, hfirst⟩
  have hcuts : ∀ cut ∈ cuts total.amount weights dp, 0 ≤ cut ∧ cut < 1 / 10 ^ dp :=
    cuts_of_nonneg h htotal
  have hnodup : ((hardestCut (cuts total.amount weights dp)).take n).Nodup :=
    (List.take_sublist _ _).nodup (nodup_hardestCut _)
  have hfloored : ∀ a ∈ flooredShares total.amount weights dp, 0 ≤ a :=
    flooredShares_nonneg h htotal
  have hnonneg := forall_modify_bump (P := fun a => 0 ≤ a) (fun a b => add_nonneg) le_rfl hfloored
    (unit_pos dp).le hrest hnodup first
  refine ⟨_, apportion_of_nonneg h hdp hrest hlt hsum hn hfirst, ?_, ?_, ?_⟩
  case refine_1 =>
    intro i hi
    rcases idle_parts total.amount dp hi with ⟨-, hfloored, hcut⟩
    -- Units go to shares that something was cut off from.
    have hnot : i ∉ (hardestCut (cuts total.amount weights dp)).take n := by
      intro hmem
      exact (pos_of_mem_take_hardestCut (fun cut hcut => (hcuts cut hcut).1)
        (fun cut hcut => (hcuts cut hcut).2) (by linarith) hcut hmem).false
    -- If nothing was cut off from the first, nothing was cut off at all.
    have hrest0 : first = i → rest = 0 := by
      rintro rfl
      rcases head_hardestCut hfirst with ⟨cut, hcut', hmost⟩
      obtain rfl : cut = 0 := Option.some.inj (hcut'.symm.trans hcut)
      have hle : (cuts total.amount weights dp).sum ≤ 0 :=
        (List.sum_le_card_nsmul _ 0 hmost).trans (nsmul_zero _).le
      have hunits : 0 ≤ (n : ℚ) * (1 / 10 ^ dp) := by positivity
      linarith
    refine ⟨_, getElem?_answer (a := 0) ?_, rfl⟩
    rw [getElem?_modify_bump _ _ hnodup, hfloored]
    by_cases hsame : first = i
    · simp [hnot, hrest0 hsame]
    · simp [hnot, hsame]
  case refine_2 =>
    intro _
    exact forall_answer (P := fun a => 0 ≤ a) hnonneg
  case refine_3 =>
    intro hnonpos
    -- A total of zero leaves every share at zero.
    refine forall_answer (P := fun a => a ≤ 0) fun a ha => ?_
    have hall := (sum_topUp h hfirst (topUp_of_nonneg hrest hlt hsum hn)).2
    exact (List.single_le_sum hnonneg a ha).trans (hall.trans_le hnonpos)

/-- The share that was cut off least has a weight exactly when a whole share is ahead of each idle
one. -/
theorem first_weighted_iff (h : ValidWeights weights) (htotal : total ≤ 0) {first : Nat}
    {later : List Nat} (hfirst : hardestCut (cuts total weights dp) = first :: later) :
    weights[first]? ≠ some 0 ↔ ∀ i : Nat, weights[i]? = some 0 →
      ∃ j < i, ∃ x, (exactShares total weights)[j]? = some x ∧ roundDpToZero dp x = x := by
  rcases head_hardestCut hfirst with ⟨most, hmost, hmax⟩
  have hmost0 : most ≤ 0 := (cuts_of_nonpos h htotal most (List.mem_of_getElem? hmost)).1
  constructor
  · intro hweighted i hi
    have hcut := (idle_parts total dp hi).2.2
    obtain rfl : most = 0 := le_antisymm hmost0 (hmax 0 (List.mem_of_getElem? hcut))
    have hne : i ≠ first := by
      rintro rfl
      exact hweighted hi
    -- Nothing was cut off from either, so the first is the one at the lower position.
    have hlt : first < i := by
      by_contra hge
      exact hne (eq_of_harderCut_head hfirst hcut hmost (Or.inr ⟨rfl, not_lt.1 hge⟩))
    rw [getElem?_cuts] at hmost
    rcases Option.map_eq_some_iff.1 hmost with ⟨x, hx, hwhole⟩
    exact ⟨first, hlt, x, hx, (sub_eq_zero.1 hwhole).symm⟩
  · intro hspared hidle
    rcases hspared first hidle with ⟨j, hj, x, hx, hwhole⟩
    have hcut := (idle_parts total dp hidle).2.2
    have hcut' : (cuts total weights dp)[j]? = some 0 := by
      simp [getElem?_cuts, hx, hwhole]
    exact hj.ne (eq_of_harderCut_head hfirst hcut' hcut (Or.inr ⟨rfl, hj.le⟩))

/-- All that is left over of a credit goes to one share, which is idle unless it is spared. -/
theorem fair_iff_of_nonpos {total : Money ℚ} (h : ValidWeights weights) (hdp : dp ≤ 19)
    (htotal : total.amount ≤ 0) :
    (∃ shares, apportion total weights dp = .ok shares ∧ Fair total weights shares) ↔
      CreditSpared total.amount weights dp := by
  rcases hardestCut_cuts total.amount dp h with ⟨first, later, hfirst⟩
  have hcuts : ∀ cut ∈ cuts total.amount weights dp, cut ≤ 0 ∧ -(1 / 10 ^ dp) < cut :=
    cuts_of_nonpos h htotal
  have hsum : (cuts total.amount weights dp).sum ≤ 0 :=
    (List.sum_le_card_nsmul _ 0 fun cut hcut => (hcuts cut hcut).1).trans (nsmul_zero _).le
  have hanswer := apportion_of_nonpos h hdp hsum hfirst
  have hfloored : ∀ a ∈ flooredShares total.amount weights dp, a ≤ 0 :=
    flooredShares_nonpos h htotal
  have hnonpos := forall_modify_bump (P := fun a => a ≤ 0) (fun a b => add_nonpos) le_rfl hfloored
    le_rfl hsum List.nodup_nil first
  have hwhole : (cuts total.amount weights dp).sum = 0 ↔
      ∀ x ∈ exactShares total.amount weights, roundDpToZero dp x = x := by
    rw [sum_cuts_eq_zero_iff h htotal, cuts, List.forall_mem_map]
    exact forall₂_congr fun x _ => sub_eq_zero.trans eq_comm
  rw [CreditSpared, ← hwhole, ← first_weighted_iff h htotal hfirst]
  constructor
  · rintro ⟨shares, hshares, hfair⟩
    by_contra hnot
    rcases not_or.1 hnot with ⟨hleft, hidle⟩
    have hidle := not_not.1 hidle
    rcases hfair.idle first hidle with ⟨share, hshare, hzero⟩
    rcases Except.ok.inj (hanswer.symm.trans hshares) with rfl
    have hpart := (idle_parts total.amount dp hidle).2.1
    rw [getElem?_answer (a := (cuts total.amount weights dp).sum)
      (by simp [hpart])] at hshare
    exact hleft ((congrArg Money.amount (Option.some.inj hshare)).trans hzero)
  · intro hspared
    refine ⟨_, hanswer, ?_, ?_, fun _ => forall_answer (P := fun a => a ≤ 0) hnonpos⟩
    · intro i hi
      have hpart := (idle_parts total.amount dp hi).2.1
      refine ⟨_, getElem?_answer (a := 0) ?_, rfl⟩
      rw [List.getElem?_modify, hpart]
      rcases hspared with hzero | hweighted
      · simp [hzero]
      · have hne : first ≠ i := by
          rintro rfl
          exact hweighted hi
        simp [hne]
    · intro hnonneg
      rcases fair_of_nonneg h hdp hnonneg with ⟨shares, hshares, hfair⟩
      rcases Except.ok.inj (hanswer.symm.trans hshares) with rfl
      exact hfair.charge hnonneg

/-- Charges are split fairly; a credit is exactly when the share that all is left over to is not an
idle one. -/
theorem apportion_fair_iff {total : Money ℚ} (h : ValidWeights weights) (hdp : dp ≤ 19) :
    (∃ shares, apportion total weights dp = .ok shares ∧ Fair total weights shares) ↔
      0 ≤ total.amount ∨ CreditSpared total.amount weights dp := by
  by_cases htotal : 0 ≤ total.amount
  · exact iff_of_true (fair_of_nonneg h hdp htotal) (Or.inl htotal)
  · rw [fair_iff_of_nonpos h hdp (le_of_not_ge htotal), or_iff_right htotal]

theorem apportion_fair_charge :
    ∃ shares, apportion { amount := 1, currency := .usd } [0, 1, 1, 1] 2 = .ok shares ∧
      Fair { amount := 1, currency := .usd } [0, 1, 1, 1] shares :=
  (apportion_fair_iff ⟨by decide, by decide +kernel, by decide +kernel⟩ (by decide)).2
    (Or.inl (by decide +kernel))

/-- A credit of one dollar over an idle workload and three alike. -/
theorem apportion_not_fair :
    apportion { amount := -1, currency := .usd } [0, 1, 1, 1] 2 =
        .ok ([-1 / 100, -33 / 100, -33 / 100, -33 / 100].map
          fun a => { amount := a, currency := .usd }) ∧
      ¬ ∃ shares, apportion { amount := -1, currency := .usd } [0, 1, 1, 1] 2 = .ok shares ∧
        Fair { amount := -1, currency := .usd } [0, 1, 1, 1] shares := by
  have hanswer : apportion { amount := -1, currency := .usd } [0, 1, 1, 1] 2 =
      .ok ([-1 / 100, -33 / 100, -33 / 100, -33 / 100].map
        fun a => { amount := a, currency := .usd }) := by
    decide +kernel
  refine ⟨hanswer, ?_⟩
  rintro ⟨shares, hshares, hfair⟩
  rcases Except.ok.inj (hanswer.symm.trans hshares) with rfl
  rcases hfair.idle 0 rfl with ⟨share, hshare, hzero⟩
  revert hzero
  rcases Option.some.inj hshare with rfl
  decide +kernel

end Answer

end Falkr
