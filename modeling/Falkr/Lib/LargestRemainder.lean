import Mathlib.Algebra.Order.BigOperators.Group.List
import Mathlib.Algebra.Order.Floor.Ring
import Mathlib.Data.List.Sort
import Mathlib.Data.Rat.Floor
import Mathlib.Tactic.Linarith
import Mathlib.Tactic.Ring

/-!
# LargestRemainder — the pieces of largest-remainder apportionment

Shares are cut off at a whole number of units (`truncTo`), the positions are put in the order of
what was cut off (`hardestCut`), and units are handed to positions (`bump`).
-/

namespace Falkr
namespace Lib

/-! ## Cutting off -/

/-- Rounds toward zero to a whole number of units. -/
def truncTo (unit x : ℚ) : ℚ :=
  if x < 0 then -(⌊-x / unit⌋ * unit) else ⌊x / unit⌋ * unit

/-- Rounds toward zero to a number of decimal places. -/
def roundDpToZero (dp : Nat) (x : ℚ) : ℚ :=
  truncTo (1 / 10 ^ dp) x

theorem roundDpToZero_zero (dp : Nat) : roundDpToZero dp 0 = 0 := by
  simp [roundDpToZero, truncTo]

section Cut

variable {unit : ℚ}

theorem truncTo_neg (unit x : ℚ) : truncTo unit (-x) = -truncTo unit x := by
  rcases lt_trichotomy x 0 with hneg | rfl | hpos
  · simp [truncTo, hneg, hneg.le]
  · simp [truncTo]
  · simp [truncTo, hpos, not_lt.2 hpos.le]

theorem exists_truncTo (unit x : ℚ) : ∃ k : ℤ, truncTo unit x = k * unit := by
  by_cases hneg : x < 0
  · refine ⟨-⌊-x / unit⌋, ?_⟩
    simp [truncTo, hneg]
  · exact ⟨⌊x / unit⌋, by simp [truncTo, hneg]⟩

/-- Nothing is cut off from a whole number of units. -/
theorem truncTo_mul (hunit : 0 < unit) (k : ℤ) : truncTo unit (k * unit) = k * unit := by
  have hquotient : (k : ℚ) * unit / unit = k := mul_div_cancel_right₀ _ hunit.ne'
  have hneg : -((k : ℚ) * unit) / unit = ((-k : ℤ) : ℚ) := by
    rw [neg_div, hquotient, Int.cast_neg]
  unfold truncTo
  split_ifs
  · rw [hneg, Int.floor_intCast, Int.cast_neg, neg_mul, neg_neg]
  · rw [hquotient, Int.floor_intCast]

theorem cut_of_nonneg (hunit : 0 < unit) {x : ℚ} (hx : 0 ≤ x) :
    0 ≤ x - truncTo unit x ∧ x - truncTo unit x < unit := by
  have hscale : x / unit * unit = x := by field_simp
  have hle := mul_le_mul_of_nonneg_right (Int.floor_le (x / unit)) hunit.le
  have hlt := mul_lt_mul_of_pos_right (Int.lt_floor_add_one (x / unit)) hunit
  simp only [truncTo, not_lt.2 hx, if_false]
  constructor
  · linarith
  · linarith

theorem cut_of_nonpos (hunit : 0 < unit) {x : ℚ} (hx : x ≤ 0) :
    x - truncTo unit x ≤ 0 ∧ -unit < x - truncTo unit x := by
  have hcut := cut_of_nonneg hunit (neg_nonneg.2 hx)
  rw [truncTo_neg] at hcut
  constructor
  · linarith [hcut.1]
  · linarith [hcut.2]

theorem truncTo_nonneg (hunit : 0 < unit) {x : ℚ} (hx : 0 ≤ x) : 0 ≤ truncTo unit x := by
  have hfloor : (0 : ℚ) ≤ ⌊x / unit⌋ := by
    exact_mod_cast Int.floor_nonneg.2 (div_nonneg hx hunit.le)
  simpa [truncTo, not_lt.2 hx] using mul_nonneg hfloor hunit.le

theorem truncTo_nonpos (hunit : 0 < unit) {x : ℚ} (hx : x ≤ 0) : truncTo unit x ≤ 0 := by
  have hneg := truncTo_nonneg hunit (neg_nonneg.2 hx)
  rw [truncTo_neg] at hneg
  exact neg_nonneg.1 hneg

/-- The larger of two numbers is cut off at the same unit, or at a later one. -/
theorem truncTo_eq_or_le (hunit : 0 < unit) {x y : ℚ} (hx : 0 ≤ x) (hxy : x ≤ y) :
    truncTo unit x = truncTo unit y ∨ truncTo unit x + unit ≤ truncTo unit y := by
  have hfloor : ⌊x / unit⌋ ≤ ⌊y / unit⌋ := Int.floor_mono (div_le_div_of_nonneg_right hxy hunit.le)
  simp only [truncTo, not_lt.2 hx, not_lt.2 (hx.trans hxy), if_false]
  rcases hfloor.eq_or_lt with heq | hlt
  · exact Or.inl (by rw [heq])
  · have hsucc : ((⌊x / unit⌋ + 1 : ℤ) : ℚ) * unit ≤ ⌊y / unit⌋ * unit :=
      mul_le_mul_of_nonneg_right (by exact_mod_cast hlt) hunit.le
    push_cast at hsucc
    exact Or.inr (by linarith)

end Cut

/-! ## Handing out -/

/-- One step for each of the named positions. -/
def bump (step : ℚ) (targets : List Nat) (parts : List ℚ) : List ℚ :=
  targets.foldl (fun parts target => parts.modify target (· + step)) parts

@[simp] theorem bump_nil (step : ℚ) (parts : List ℚ) : bump step [] parts = parts := rfl

@[simp] theorem bump_cons (step : ℚ) (target : Nat) (targets : List Nat) (parts : List ℚ) :
    bump step (target :: targets) parts = bump step targets (parts.modify target (· + step)) := rfl

theorem getElem?_bump (step : ℚ) :
    ∀ (targets : List Nat), targets.Nodup → ∀ (parts : List ℚ) (i : Nat),
      (bump step targets parts)[i]? =
        parts[i]?.map fun part => if i ∈ targets then part + step else part := by
  intro targets
  induction targets with
  | nil =>
      intro _ parts i
      simp
  | cons target targets ih =>
      intro hnodup parts i
      rcases List.nodup_cons.1 hnodup with ⟨hnotin, hrest⟩
      rw [bump_cons, ih hrest, List.getElem?_modify]
      by_cases htarget : target = i
      -- The positions are distinct, so this one is not bumped again.
      · subst htarget
        cases parts[target]? <;> simp [hnotin]
      · have hne : i ≠ target := fun heq => htarget heq.symm
        cases parts[i]? <;> simp [htarget, hne]

theorem modify_add_zero (parts : List ℚ) (i : Nat) : parts.modify i (· + 0) = parts := by
  refine List.ext_getElem? fun j => ?_
  cases hpart : parts[j]? <;> simp [List.getElem?_modify, hpart]

theorem sum_modify_add (x : ℚ) : ∀ (parts : List ℚ) (i : Nat), i < parts.length →
    (parts.modify i (· + x)).sum = parts.sum + x := by
  intro parts
  induction parts with
  | nil =>
      intro i hi
      simp at hi
  | cons part parts ih =>
      intro i hi
      cases i with
      | zero =>
          simp only [List.modify_zero_cons, List.sum_cons]
          ring
      | succ i =>
          have htail := ih i (by simpa using hi)
          simp only [List.modify_succ_cons, List.sum_cons, htail]
          ring

/-- Steps for some positions, and something more for one. -/
theorem getElem?_modify_bump (step rest : ℚ) {targets : List Nat} (h : targets.Nodup)
    (parts : List ℚ) (first i : Nat) :
    ((bump step targets parts).modify first (· + rest))[i]? =
      parts[i]?.map fun part =>
        part + (if i ∈ targets then step else 0) + if first = i then rest else 0 := by
  rw [List.getElem?_modify, getElem?_bump step targets h]
  cases parts[i]? <;> by_cases htarget : i ∈ targets <;> by_cases hfirst : first = i <;>
    simp [htarget, hfirst]

@[simp] theorem length_bump (step : ℚ) : ∀ (targets : List Nat) (parts : List ℚ),
    (bump step targets parts).length = parts.length := by
  intro targets
  induction targets with
  | nil =>
      intro parts
      rfl
  | cons target targets ih =>
      intro parts
      rw [bump_cons, ih, List.length_modify]

/-- Each step handed out adds to the sum. -/
theorem sum_bump (step : ℚ) : ∀ (targets : List Nat) (parts : List ℚ),
    (∀ target ∈ targets, target < parts.length) →
      (bump step targets parts).sum = parts.sum + targets.length * step := by
  intro targets
  induction targets with
  | nil =>
      intro parts _
      simp
  | cons target targets ih =>
      intro parts htargets
      rcases List.forall_mem_cons.1 htargets with ⟨htarget, hrest⟩
      rw [bump_cons, ih _ (by simpa using hrest), sum_modify_add _ _ _ htarget, List.length_cons]
      push_cast
      ring

/-- Steps the other way, from parts of the other sign. -/
theorem bump_neg (step : ℚ) : ∀ (targets : List Nat) (parts : List ℚ),
    bump (-step) targets (parts.map fun part => -part) =
      (bump step targets parts).map fun part => -part := by
  intro targets
  induction targets with
  | nil =>
      intro parts
      rfl
  | cons target targets ih =>
      intro parts
      have hmodify : (parts.map fun part => -part).modify target (· + -step) =
          (parts.modify target (· + step)).map fun part => -part := by
        refine List.ext_getElem? fun i => ?_
        simp only [List.getElem?_modify, List.getElem?_map]
        cases parts[i]? with
        | none => rfl
        | some part => by_cases hsame : target = i <;> simp [hsame, add_comm]
      rw [bump_cons, bump_cons, hmodify, ih]

/-! ## The order in which units are handed out -/

/-- Largest first, ties to the lower position. -/
def HarderCut (a b : ℚ × Nat) : Prop :=
  b.1 < a.1 ∨ b.1 = a.1 ∧ a.2 ≤ b.2

instance : DecidableRel HarderCut := fun _ _ => inferInstanceAs (Decidable (_ ∨ _))

instance : Std.Total HarderCut where
  total := by
    intro a b
    rcases lt_trichotomy a.1 b.1 with hlt | heq | hgt
    · exact Or.inr (Or.inl hlt)
    · rcases le_total a.2 b.2 with hle | hle
      · exact Or.inl (Or.inr ⟨heq.symm, hle⟩)
      · exact Or.inr (Or.inr ⟨heq, hle⟩)
    · exact Or.inl (Or.inl hgt)

instance : IsTrans (ℚ × Nat) HarderCut where
  trans := by
    rintro a b c (hab | ⟨hab, hab'⟩) (hbc | ⟨hbc, hbc'⟩)
    · exact Or.inl (hbc.trans hab)
    · exact Or.inl (hbc ▸ hab)
    · exact Or.inl (hab ▸ hbc)
    · exact Or.inr ⟨hbc.trans hab, hab'.trans hbc'⟩

/-- The positions, the one most was cut off from first. -/
def hardestCut (cuts : List ℚ) : List Nat :=
  (cuts.zipIdx.insertionSort HarderCut).map Prod.snd

theorem hardestCut_perm (cuts : List ℚ) : (hardestCut cuts).Perm (List.range cuts.length) := by
  have hperm := (List.perm_insertionSort HarderCut cuts.zipIdx).map Prod.snd
  rwa [List.zipIdx_map_snd, ← List.range_eq_range'] at hperm

theorem nodup_hardestCut (cuts : List ℚ) : (hardestCut cuts).Nodup :=
  (hardestCut_perm cuts).nodup_iff.2 List.nodup_range

theorem length_hardestCut (cuts : List ℚ) : (hardestCut cuts).length = cuts.length := by
  simpa using (hardestCut_perm cuts).length_eq

theorem lt_of_mem_hardestCut {cuts : List ℚ} {i : Nat} (h : i ∈ hardestCut cuts) :
    i < cuts.length :=
  List.mem_range.1 ((hardestCut_perm cuts).mem_iff.1 h)

theorem harderCut_antisymm {a b : ℚ × Nat} (hab : HarderCut a b) (hba : HarderCut b a) : a = b := by
  rcases hab with hlt | ⟨heq, hle⟩ <;> rcases hba with hlt' | ⟨heq', hle'⟩
  · exact absurd hlt' hlt.le.not_gt
  · exact absurd heq' hlt.ne'
  · exact absurd heq hlt'.ne'
  · exact Prod.ext heq.symm (le_antisymm hle hle')

/-- The first positions in the order, with their cuts, and the later ones. -/
theorem exists_take_hardestCut (cuts : List ℚ) (n : Nat) :
    ∃ front back : List (ℚ × Nat),
      (hardestCut cuts).take n = front.map Prod.snd ∧
        (front ++ back).Perm cuts.zipIdx ∧
          (∀ p ∈ front, ∀ q ∈ back, HarderCut p q) ∧ front.length ≤ n := by
  have hpairwise := List.pairwise_insertionSort HarderCut cuts.zipIdx
  rw [← List.take_append_drop n (cuts.zipIdx.insertionSort HarderCut)] at hpairwise
  refine ⟨(cuts.zipIdx.insertionSort HarderCut).take n,
    (cuts.zipIdx.insertionSort HarderCut).drop n, List.map_take.symm, ?_,
    (List.pairwise_append.1 hpairwise).2.2, List.length_take_le _ _⟩
  rw [List.take_append_drop]
  exact List.perm_insertionSort HarderCut cuts.zipIdx

/-- Whoever was cut off harder than a receiver receives too. -/
theorem mem_take_of_harderCut {cuts : List ℚ} {n i j : Nat} {a b : ℚ} (hi : cuts[i]? = some a)
    (hj : cuts[j]? = some b) (h : HarderCut (a, i) (b, j))
    (hmem : j ∈ (hardestCut cuts).take n) : i ∈ (hardestCut cuts).take n := by
  rcases exists_take_hardestCut cuts n with ⟨front, back, htake, hperm, horder, -⟩
  rw [htake] at hmem ⊢
  rcases List.mem_map.1 hmem with ⟨⟨b', j'⟩, hfront, rfl⟩
  have hb : b' = b := by
    have hzip := hperm.mem_iff.1 (List.mem_append_left back hfront)
    exact Option.some.inj ((List.mem_zipIdx_iff_getElem?.1 hzip).symm.trans hj)
  subst hb
  have hzip : (a, i) ∈ cuts.zipIdx := List.mem_zipIdx_iff_getElem?.2 hi
  rcases List.mem_append.1 (hperm.mem_iff.2 hzip) with hin | hin
  · exact List.mem_map_of_mem hin
  -- A later position that is ahead of the receiver is the receiver.
  · have hsame : i = j' := congrArg Prod.snd (harderCut_antisymm h (horder _ hfront _ hin))
    rw [hsame]
    exact List.mem_map_of_mem hfront

/-- No other position is ahead of the first in the order. -/
theorem eq_of_harderCut_head {cuts : List ℚ} {first : Nat} {later : List Nat}
    (h : hardestCut cuts = first :: later) {i : Nat} {a b : ℚ} (hi : cuts[i]? = some a)
    (hfirst : cuts[first]? = some b) (hharder : HarderCut (a, i) (b, first)) : i = first := by
  have hmem := mem_take_of_harderCut hi hfirst hharder (n := 1) (by simp [h])
  simpa [h] using hmem

/-- The first position in the order is one that the most was cut off from. -/
theorem head_hardestCut {cuts : List ℚ} {first : Nat} {later : List Nat}
    (h : hardestCut cuts = first :: later) :
    ∃ cut, cuts[first]? = some cut ∧ ∀ other ∈ cuts, other ≤ cut := by
  have hbound : first < cuts.length := lt_of_mem_hardestCut (by simp [h])
  have hfirst : cuts[first]? = some cuts[first] :=
    List.getElem?_eq_getElem hbound
  refine ⟨_, hfirst, fun other hother => ?_⟩
  rcases List.mem_iff_getElem?.1 hother with ⟨i, hi⟩
  -- A position that is not behind the first is the first.
  by_contra hlt
  have hsame := eq_of_harderCut_head h hi hfirst (Or.inl (not_le.1 hlt))
  subst hsame
  exact hlt (Option.some.inj (hi.symm.trans hfirst)).le

/-- Where the same was cut off everywhere, the order is that of the positions. -/
theorem hardestCut_of_const {cuts : List ℚ} {cut : ℚ} (h : ∀ other ∈ cuts, other = cut) :
    hardestCut cuts = List.range cuts.length := by
  have hsorted : cuts.zipIdx.Pairwise HarderCut := by
    rw [List.pairwise_iff_getElem]
    intro i j hi hj hij
    right
    simp only [List.getElem_zipIdx]
    exact ⟨(h _ (List.getElem_mem _)).trans (h _ (List.getElem_mem _)).symm, by omega⟩
  rw [hardestCut, hsorted.insertionSort_eq, List.zipIdx_map_snd, ← List.range_eq_range']

/-- A position from which both the most and the least was cut off. -/
theorem const_of_head_eq {cuts : List ℚ} {first : Nat} {later later' : List Nat}
    (h : hardestCut cuts = first :: later)
    (h' : hardestCut (cuts.map fun cut => -cut) = first :: later') :
    ∃ cut, ∀ other ∈ cuts, other = cut := by
  rcases head_hardestCut h with ⟨cut, hcut, hmost⟩
  rcases head_hardestCut h' with ⟨cut', hcut', hleast⟩
  have heq : -cut = cut' := by simpa [hcut] using hcut'
  refine ⟨cut, fun other hother => le_antisymm (hmost other hother) ?_⟩
  -- The most of the negated cuts is the least of the cuts.
  have hle := hleast (-other) (List.mem_map_of_mem hother)
  linarith

/-! ## The number of units left over -/

theorem sum_lt_of_forall_lt {unit : ℚ} : ∀ {cuts : List ℚ}, cuts ≠ [] →
    (∀ cut ∈ cuts, cut < unit) → cuts.sum < cuts.length * unit := by
  intro cuts
  induction cuts with
  | nil =>
      intro hne
      exact absurd rfl hne
  | cons cut cuts ih =>
      intro _ h
      rcases List.forall_mem_cons.1 h with ⟨hcut, hrest⟩
      simp only [List.sum_cons, List.length_cons]
      push_cast
      by_cases hempty : cuts = []
      · subst hempty
        simpa using hcut
      · linarith [ih hempty hrest]

/-- What non-negative cuts of less than a unit add up to, if a whole number of units, is fewer units
than there are cuts. -/
theorem exists_units {unit : ℚ} (hunit : 0 < unit) {cuts : List ℚ} (hne : cuts ≠ [])
    (hnonneg : ∀ cut ∈ cuts, 0 ≤ cut) (hlt : ∀ cut ∈ cuts, cut < unit) {k : ℤ}
    (hsum : cuts.sum = k * unit) : ∃ n : Nat, cuts.sum = n * unit ∧ n < cuts.length := by
  have hk : 0 ≤ k := by
    have hle : 0 * unit ≤ k * unit := by
      rw [zero_mul, ← hsum]
      exact List.sum_nonneg hnonneg
    exact_mod_cast le_of_mul_le_mul_right hle hunit
  -- So the whole number of units is a count.
  lift k to Nat using hk
  refine ⟨k, by simpa using hsum, ?_⟩
  have hless := sum_lt_of_forall_lt hne hlt
  rw [hsum] at hless
  exact_mod_cast lt_of_mul_lt_mul_right hless hunit.le

/-- If the cuts add up to at least `n` units, something was cut off from each of the first `n`. -/
theorem pos_of_mem_take_hardestCut {unit : ℚ} {cuts : List ℚ}
    (hnonneg : ∀ cut ∈ cuts, 0 ≤ cut) (hlt : ∀ cut ∈ cuts, cut < unit) {n : Nat}
    (hsum : n * unit ≤ cuts.sum) {i : Nat} {cut : ℚ} (hi : cuts[i]? = some cut)
    (hmem : i ∈ (hardestCut cuts).take n) : 0 < cut := by
  rcases exists_take_hardestCut cuts n with ⟨front, back, htake, hperm, horder, hlength⟩
  have hcuts : ((front ++ back).map Prod.fst).Perm cuts := by
    simpa using hperm.map Prod.fst
  have hmemcuts : ∀ p ∈ front ++ back, p.1 ∈ cuts := by
    intro p hp
    exact hcuts.mem_iff.1 (List.mem_map_of_mem hp)
  rw [htake] at hmem
  rcases List.mem_map.1 hmem with ⟨⟨cut', i'⟩, hfront, rfl⟩
  have hcut : cut' = cut := by
    have hzip := hperm.mem_iff.1 (List.mem_append_left back hfront)
    exact Option.some.inj ((List.mem_zipIdx_iff_getElem?.1 hzip).symm.trans hi)
  subst hcut
  by_contra hzero
  -- Otherwise nothing was cut off from the later ones, and the first `n` add up to too little.
  have hback : (back.map Prod.fst).sum ≤ 0 := by
    refine (List.sum_le_card_nsmul _ 0 fun x hx => ?_).trans (nsmul_zero _).le
    rcases List.mem_map.1 hx with ⟨q, hq, rfl⟩
    rcases horder _ hfront q hq with hlater | ⟨heq, -⟩
    · exact hlater.le.trans (not_lt.1 hzero)
    · exact heq.trans_le (not_lt.1 hzero)
  have hne : front.map Prod.fst ≠ [] := by
    simpa using List.ne_nil_of_mem hfront
  have hfew : (front.map Prod.fst).sum < (front.map Prod.fst).length * unit := by
    refine sum_lt_of_forall_lt hne fun x hx => ?_
    rcases List.mem_map.1 hx with ⟨p, hp, rfl⟩
    exact hlt _ (hmemcuts p (List.mem_append_left back hp))
  have hunit : 0 < unit :=
    lt_of_le_of_lt (hnonneg _ (hmemcuts _ (List.mem_append_left back hfront)))
      (hlt _ (hmemcuts _ (List.mem_append_left back hfront)))
  have hall : cuts.sum = (front.map Prod.fst).sum + (back.map Prod.fst).sum := by
    rw [← hcuts.sum_eq, List.map_append, List.sum_append]
  have hle : ((front.map Prod.fst).length : ℚ) * unit ≤ n * unit := by
    refine mul_le_mul_of_nonneg_right ?_ hunit.le
    exact_mod_cast (by simpa using hlength)
  linarith

end Lib
end Falkr
