import Falkr.CostSpine.Shares
import Falkr.Testkit.Allocation
import Mathlib.Data.List.GetD

/-!
# AllocationSpec — the reference rule meets its specification

The units left over are fewer than the shares that something was cut off from, so the loop hands out
one unit each to the first of them and ends.
-/

namespace Falkr

open Lib

/-! ## The loop -/

/-- While there are fewer units than remainders, the cursor does not come around. -/
theorem handOut_eq (remainders : List (ℚ × Nat)) {step : ℚ} (hstep : step ≠ 0) :
    ∀ (n passes cursor : Nat) (parts : List ℚ), n ≤ passes → cursor + n ≤ remainders.length →
      handOut remainders step passes cursor parts (n * step) =
        .ok (bump step (((remainders.map Prod.snd).drop cursor).take n) parts) := by
  intro n
  induction n with
  | zero =>
      intro passes cursor parts _ _
      cases passes <;> simp [handOut]
  | succ n ih =>
      intro passes cursor parts hpasses hcursor
      cases passes with
      | zero => omega
      | succ passes =>
          have hlt : cursor < remainders.length := by omega
          have hleft : ((n + 1 : Nat) : ℚ) * step - step = n * step := by
            push_cast
            ring
          have hne : ((n + 1 : Nat) : ℚ) * step ≠ 0 := mul_ne_zero (by positivity) hstep
          have hindex : remainders.getD (cursor % remainders.length) (0, 0) =
              remainders[cursor] := by
            rw [Nat.mod_eq_of_lt hlt, List.getD_eq_getElem _ _ hlt]
          have hdrop : (remainders.map Prod.snd).drop cursor =
              remainders[cursor].2 :: (remainders.map Prod.snd).drop (cursor + 1) := by
            rw [List.drop_eq_getElem_cons (by simpa using hlt), List.getElem_map]
          rw [handOut, if_neg hne, hindex, hleft,
            ih passes (cursor + 1) _ (by omega) (by omega), hdrop]
          simp

/-! ## The answer -/

section Answer

variable {total : ℚ} {weights : List ℚ} {dp : Nat}

/-- The order of `allocate`: that of the absolute cuts. -/
def absoluteOrder (total : ℚ) (weights : List ℚ) (dp : Nat) : List (ℚ × Nat) :=
  ((cuts total weights dp).map fun cut => |cut|).zipIdx.insertionSort HarderCut

theorem map_snd_absoluteOrder :
    (absoluteOrder total weights dp).map Prod.snd =
      hardestCut ((cuts total weights dp).map fun cut => |cut|) := rfl

theorem length_absoluteOrder : (absoluteOrder total weights dp).length = weights.length := by
  simp [absoluteOrder, cuts, exactShares]

variable (total weights dp) in
theorem absoluteOrder_eq :
    ((exactShares total weights).mapIdx fun i x => (|x - roundDpToZero dp x|, i)).insertionSort
        (fun a b => b.1 < a.1 ∨ b.1 = a.1 ∧ a.2 ≤ b.2) = absoluteOrder total weights dp := by
  simp only [absoluteOrder, cuts, List.mapIdx_eq_zipIdx_map, List.map_map, List.zipIdx_map]
  rfl

variable (total) in
/-- What `allocate` does with valid weights. -/
theorem allocate_eq (h : ValidWeights weights) (hscale : dp ≤ 28) :
    allocate total weights dp =
      if (cuts total weights dp).sum = 0 then .ok (flooredShares total weights dp)
      else
        handOut (absoluteOrder total weights dp)
          (if (cuts total weights dp).sum < 0 then -(1 / 10 ^ dp) else 1 / 10 ^ dp)
          (2 * (absoluteOrder total weights dp).length) 0 (flooredShares total weights dp)
          (cuts total weights dp).sum := by
  have hnonneg : (weights.find? fun w => w < 0) = none := by
    simpa using h.nonneg
  have hleft : total - ((exactShares total weights).map (roundDpToZero dp)).sum =
      (cuts total weights dp).sum := (sum_cuts h).symm
  have horder := absoluteOrder_eq total weights dp
  simp only [exactShares] at hleft horder
  simp only [allocate, isEmpty_of_valid h, not_lt.2 hscale, hnonneg, h.sum_pos.ne', hleft, horder,
    if_false, Bool.false_eq_true]
  rfl

/-- One unit each, in the direction of what is left over, for those cut off hardest. -/
theorem allocate_of_units (h : ValidWeights weights) (hscale : dp ≤ 28) {n : Nat} {step : ℚ}
    (hstep : step = 1 / 10 ^ dp ∨ step = -(1 / 10 ^ dp))
    (hsum : (cuts total weights dp).sum = n * step) (hn : n < weights.length) :
    allocate total weights dp = .ok (bump step
      ((hardestCut ((cuts total weights dp).map fun cut => |cut|)).take n)
      (flooredShares total weights dp)) := by
  rw [allocate_eq total h hscale]
  by_cases hzero : n = 0
  · rw [if_pos (by simp [hsum, hzero]), hzero]
    rfl
  · have hpos : (0 : ℚ) < n := by exact_mod_cast Nat.pos_of_ne_zero hzero
    have hunit := unit_pos dp
    have hne : step ≠ 0 := by
      rcases hstep with rfl | rfl
      · exact hunit.ne'
      · exact neg_ne_zero.2 hunit.ne'
    have hdirection : (if (cuts total weights dp).sum < 0 then -((1 : ℚ) / 10 ^ dp)
        else 1 / 10 ^ dp) = step := by
      rcases hstep with rfl | rfl
      · rw [if_neg]
        rw [hsum, not_lt]
        positivity
      · rw [if_pos]
        rw [hsum]
        nlinarith
    have hloop := handOut_eq (absoluteOrder total weights dp) hne n
      (2 * (absoluteOrder total weights dp).length) 0 (flooredShares total weights dp)
      (by rw [length_absoluteOrder]; omega) (by rw [length_absoluteOrder]; omega)
    rw [if_neg (by rw [hsum]; exact mul_ne_zero hpos.ne' hne), hdirection, hsum]
    rw [List.drop_zero, map_snd_absoluteOrder] at hloop
    exact hloop

/-! ## When it answers -/

/-- The loop ends well only on a whole number of steps. -/
theorem exists_steps_of_handOut (remainders : List (ℚ × Nat)) (step : ℚ) :
    ∀ (passes cursor : Nat) (parts : List ℚ) (leftover : ℚ) (answer : List ℚ),
      handOut remainders step passes cursor parts leftover = .ok answer →
        ∃ n : Nat, leftover = n * step := by
  intro passes
  induction passes with
  | zero =>
      intro cursor parts leftover answer hanswer
      by_cases hzero : leftover = 0
      · exact ⟨0, by simpa using hzero⟩
      · simp [handOut, hzero] at hanswer
  | succ passes ih =>
      intro cursor parts leftover answer hanswer
      by_cases hzero : leftover = 0
      · exact ⟨0, by simpa using hzero⟩
      · rw [handOut, if_neg hzero] at hanswer
        rcases ih _ _ _ _ hanswer with ⟨n, hn⟩
        refine ⟨n + 1, ?_⟩
        push_cast
        linarith

/-- A total that is not a whole number of units is not split. -/
theorem exists_units_of_allocate (h : ValidWeights weights) (hscale : dp ≤ 28) {parts : List ℚ}
    (hparts : allocate total weights dp = .ok parts) : ∃ k : ℤ, total = k * (1 / 10 ^ dp) := by
  rcases exists_sum_flooredShares total weights dp with ⟨k, hk⟩
  have htotal : total = (flooredShares total weights dp).sum + (cuts total weights dp).sum := by
    rw [sum_cuts h]
    ring
  rw [allocate_eq total h hscale] at hparts
  split_ifs at hparts with hzero hneg
  · exact ⟨k, by rw [htotal, hk, hzero, add_zero]⟩
  · rcases exists_steps_of_handOut _ _ _ _ _ _ _ hparts with ⟨n, hn⟩
    refine ⟨k - n, ?_⟩
    rw [htotal, hk, hn]
    push_cast
    ring
  · rcases exists_steps_of_handOut _ _ _ _ _ _ _ hparts with ⟨n, hn⟩
    refine ⟨k + n, ?_⟩
    rw [htotal, hk, hn]
    push_cast
    ring

/-! ## The specification -/

/-- The parts of a total by largest remainder. -/
structure IsSplit (total : ℚ) (weights : List ℚ) (scale : Nat) (parts : List ℚ) : Prop where
  count : parts.length = weights.length
  whole : ∀ part ∈ parts, ∃ k : ℤ, part = k * (1 / 10 ^ scale)
  sum : parts.sum = total
  close : ∀ (i : Nat) (w part : ℚ), weights[i]? = some w → parts[i]? = some part →
    |part - total * w / weights.sum| < 1 / 10 ^ scale
  idle : ∀ (i : Nat) (part : ℚ), weights[i]? = some 0 → parts[i]? = some part → part = 0
  sign : ∀ part ∈ parts, 0 ≤ part * total
  heavier : ∀ (i j : Nat) (v w a b : ℚ), weights[i]? = some v → weights[j]? = some w →
    parts[i]? = some a → parts[j]? = some b → v < w → |a| ≤ |b|
  earlier : ∀ (i j : Nat) (w a b : ℚ), weights[i]? = some w → weights[j]? = some w →
    parts[i]? = some a → parts[j]? = some b → i < j → |b| ≤ |a|

/-- A credit is split like the charge it takes back. -/
theorem IsSplit.neg {parts : List ℚ} (h : IsSplit total weights dp parts) :
    IsSplit (-total) weights dp (parts.map fun part => -part) := by
  have hget : ∀ (i : Nat) (a : ℚ), (parts.map fun part => -part)[i]? = some a →
      parts[i]? = some (-a) := by
    intro i a ha
    rw [List.getElem?_map] at ha
    rcases Option.map_eq_some_iff.1 ha with ⟨b, hb, rfl⟩
    rw [hb, neg_neg]
  constructor
  case count => simpa using h.count
  case whole =>
    intro part hpart
    rcases List.mem_map.1 hpart with ⟨a, ha, rfl⟩
    rcases h.whole a ha with ⟨k, hk⟩
    exact ⟨-k, by rw [hk]; push_cast; ring⟩
  case sum => rw [← List.sum_neg, h.sum]
  case close =>
    intro i w part hi hpart
    have hclose := h.close i w (-part) hi (hget i part hpart)
    rw [← abs_neg] at hclose
    have hneg : part - -total * w / weights.sum = -(-part - total * w / weights.sum) := by ring
    rwa [hneg]
  case idle =>
    intro i part hi hpart
    exact neg_eq_zero.1 (h.idle i (-part) hi (hget i part hpart))
  case sign =>
    intro part hpart
    rcases List.mem_map.1 hpart with ⟨a, ha, rfl⟩
    simpa using h.sign a ha
  case heavier =>
    intro i j v w a b hi hj ha hb hlt
    simpa using h.heavier i j v w (-a) (-b) hi hj (hget i a ha) (hget j b hb) hlt
  case earlier =>
    intro i j w a b hi hj ha hb hlt
    simpa using h.earlier i j w (-a) (-b) hi hj (hget i a ha) (hget j b hb) hlt

/-! ### The parts of a charge -/

/-- What a charge of `n` leftover units is split into. -/
def chargeParts (total : ℚ) (weights : List ℚ) (dp n : Nat) : List ℚ :=
  bump (1 / 10 ^ dp) ((hardestCut (cuts total weights dp)).take n) (flooredShares total weights dp)

theorem getElem?_chargeParts (n : Nat) {i : Nat} {w : ℚ} (hi : weights[i]? = some w) :
    (chargeParts total weights dp n)[i]? = some (roundDpToZero dp (total * w / weights.sum) +
      if i ∈ (hardestCut (cuts total weights dp)).take n then 1 / 10 ^ dp else 0) := by
  have hnodup : ((hardestCut (cuts total weights dp)).take n).Nodup :=
    (List.take_sublist _ _).nodup (nodup_hardestCut _)
  rw [chargeParts, getElem?_bump _ _ hnodup, getElem?_flooredShares, getElem?_exactShares total hi]
  by_cases hmem : i ∈ (hardestCut (cuts total weights dp)).take n <;> simp [hmem]

/-- Something was cut off from every share that gets a unit. -/
theorem pos_of_receives (h : ValidWeights weights) (htotal : 0 ≤ total) {n : Nat}
    (hsum : (cuts total weights dp).sum = n * (1 / 10 ^ dp)) {i : Nat} {w : ℚ}
    (hi : weights[i]? = some w) (hmem : i ∈ (hardestCut (cuts total weights dp)).take n) :
    0 < total * w / weights.sum - roundDpToZero dp (total * w / weights.sum) := by
  have hcuts : ∀ cut ∈ cuts total weights dp, 0 ≤ cut ∧ cut < 1 / 10 ^ dp :=
    cuts_of_nonneg h htotal
  have hcut : (cuts total weights dp)[i]? =
      some (total * w / weights.sum - roundDpToZero dp (total * w / weights.sum)) := by
    rw [getElem?_cuts, getElem?_exactShares total hi]
    rfl
  exact pos_of_mem_take_hardestCut (fun cut hcut => (hcuts cut hcut).1)
    (fun cut hcut => (hcuts cut hcut).2) hsum.ge hcut hmem

/-- A larger exact share, or an equal one at a lower position, never gets the smaller part. -/
theorem chargePart_le (h : ValidWeights weights) (htotal : 0 ≤ total) {n i j : Nat} {v w a b : ℚ}
    (hi : weights[i]? = some v) (hj : weights[j]? = some w)
    (ha : (chargeParts total weights dp n)[i]? = some a)
    (hb : (chargeParts total weights dp n)[j]? = some b)
    (hle : total * w / weights.sum < total * v / weights.sum ∨
      total * w / weights.sum = total * v / weights.sum ∧ i ≤ j) : b ≤ a := by
  have hunit := unit_pos dp
  rw [getElem?_chargeParts n hi] at ha
  rw [getElem?_chargeParts n hj] at hb
  rcases Option.some.inj ha with rfl
  rcases Option.some.inj hb with rfl
  have hnonneg : 0 ≤ total * w / weights.sum :=
    div_nonneg (mul_nonneg htotal (h.nonneg w (List.mem_of_getElem? hj))) h.sum_pos.le
  have hxy : total * w / weights.sum ≤ total * v / weights.sum := by
    rcases hle with hlt | ⟨heq, -⟩
    · exact hlt.le
    · exact heq.le
  rcases truncTo_eq_or_le hunit hnonneg hxy with heq | hgap
  · -- With the same floor, the harder cut is that of the larger share.
    change roundDpToZero dp _ = roundDpToZero dp _ at heq
    have hharder : HarderCut
        (total * v / weights.sum - roundDpToZero dp (total * v / weights.sum), i)
        (total * w / weights.sum - roundDpToZero dp (total * w / weights.sum), j) := by
      rw [heq]
      rcases hle with hlt | ⟨hsame, hij⟩
      · exact Or.inl (sub_lt_sub_right hlt _)
      · exact Or.inr ⟨by rw [hsame], hij⟩
    have hreceives := mem_take_of_harderCut (n := n)
      (by rw [getElem?_cuts, getElem?_exactShares total hi]; rfl)
      (by rw [getElem?_cuts, getElem?_exactShares total hj]; rfl) hharder
    rw [heq]
    refine add_le_add_right ?_ _
    by_cases hmem : j ∈ (hardestCut (cuts total weights dp)).take n
    · simp [hmem, hreceives hmem]
    · simp only [hmem, if_false]
      split
      · exact hunit.le
      · exact le_rfl
  · change roundDpToZero dp _ + _ ≤ roundDpToZero dp _ at hgap
    split <;> split <;> linarith

theorem exists_chargePart {n i : Nat} {part : ℚ}
    (hpart : (chargeParts total weights dp n)[i]? = some part) : ∃ w, weights[i]? = some w := by
  have hlt := (List.getElem?_eq_some_iff.1 hpart).1
  have hlength : (chargeParts total weights dp n).length = weights.length := by
    simp [chargeParts, flooredShares, exactShares]
  exact ⟨_, List.getElem?_eq_getElem (hlength ▸ hlt)⟩

/-- A part of a charge: a whole number of units, less than one away from the exact share. -/
theorem chargePart_near (h : ValidWeights weights) (htotal : 0 ≤ total) {n : Nat}
    (hsum : (cuts total weights dp).sum = n * (1 / 10 ^ dp)) {i : Nat} {w part : ℚ}
    (hi : weights[i]? = some w) (hpart : (chargeParts total weights dp n)[i]? = some part) :
    (∃ k : ℤ, part = k * (1 / 10 ^ dp)) ∧ 0 ≤ part ∧
      |part - total * w / weights.sum| < 1 / 10 ^ dp := by
  have hunit := unit_pos dp
  have hnonneg : 0 ≤ total * w / weights.sum :=
    div_nonneg (mul_nonneg htotal (h.nonneg w (List.mem_of_getElem? hi))) h.sum_pos.le
  have hcut := cut_of_nonneg hunit hnonneg
  have hfloor := truncTo_nonneg hunit hnonneg
  rcases exists_truncTo (1 / 10 ^ dp) (total * w / weights.sum) with ⟨k, hk⟩
  change _ ≤ _ - roundDpToZero dp _ ∧ _ - roundDpToZero dp _ < _ at hcut
  change 0 ≤ roundDpToZero dp _ at hfloor
  change roundDpToZero dp _ = _ at hk
  rw [getElem?_chargeParts n hi] at hpart
  rcases Option.some.inj hpart with rfl
  by_cases hmem : i ∈ (hardestCut (cuts total weights dp)).take n
  · have hpos := pos_of_receives h htotal hsum hi hmem
    simp only [hmem, if_true]
    refine ⟨⟨k + 1, ?_⟩, by linarith, ?_⟩
    · rw [hk]
      push_cast
      ring
    · rw [abs_lt]
      constructor <;> linarith
  · simp only [hmem, if_false, add_zero]
    refine ⟨⟨k, hk⟩, hfloor, ?_⟩
    rw [abs_lt]
    constructor <;> linarith

/-- A charge whose leftover is `n` units is split by largest remainder. -/
theorem isSplit_chargeParts (h : ValidWeights weights) (htotal : 0 ≤ total) {n : Nat}
    (hsum : (cuts total weights dp).sum = n * (1 / 10 ^ dp)) (hn : n ≤ weights.length) :
    IsSplit total weights dp (chargeParts total weights dp n) := by
  have hnear : ∀ (i : Nat) (part : ℚ), (chargeParts total weights dp n)[i]? = some part →
      (∃ k : ℤ, part = k * (1 / 10 ^ dp)) ∧ 0 ≤ part := by
    intro i part hpart
    rcases exists_chargePart hpart with ⟨w, hi⟩
    have hpart' := chargePart_near h htotal hsum hi hpart
    exact ⟨hpart'.1, hpart'.2.1⟩
  -- A share that is a whole number of units gets just that.
  have hexact : ∀ (i : Nat) (w part : ℚ), weights[i]? = some w →
      (chargeParts total weights dp n)[i]? = some part → total * w = 0 → part = 0 := by
    intro i w part hi hpart hzero
    rw [getElem?_chargeParts n hi] at hpart
    rcases Option.some.inj hpart with rfl
    have hnot : i ∉ (hardestCut (cuts total weights dp)).take n := by
      intro hmem
      have hpos := pos_of_receives h htotal hsum hi hmem
      simp [hzero, roundDpToZero_zero] at hpos
    simp [hzero, hnot, roundDpToZero_zero]
  constructor
  case count => simp [chargeParts, flooredShares, exactShares]
  case whole =>
    intro part hpart
    rcases List.mem_iff_getElem?.1 hpart with ⟨i, hi⟩
    exact (hnear i part hi).1
  case sum =>
    have hbound : ∀ target ∈ (hardestCut (cuts total weights dp)).take n,
        target < (flooredShares total weights dp).length := by
      intro target htarget
      have hlt := lt_of_mem_hardestCut ((List.take_sublist _ _).subset htarget)
      simpa [cuts, flooredShares] using hlt
    have hcount : ((hardestCut (cuts total weights dp)).take n).length = n := by
      rw [List.length_take, length_hardestCut, length_cuts, min_eq_left hn]
    rw [chargeParts, sum_bump _ _ _ hbound, hcount, ← hsum, sum_cuts h]
    ring
  case close =>
    intro i w part hi hpart
    exact (chargePart_near h htotal hsum hi hpart).2.2
  case idle =>
    intro i part hi hpart
    exact hexact i 0 part hi hpart (mul_zero _)
  case sign =>
    intro part hpart
    rcases List.mem_iff_getElem?.1 hpart with ⟨i, hi⟩
    exact mul_nonneg (hnear i part hi).2 htotal
  case heavier =>
    intro i j v w a b hi hj ha hb hlt
    rw [abs_of_nonneg (hnear i a ha).2, abs_of_nonneg (hnear j b hb).2]
    rcases htotal.eq_or_lt with hzero | hpos
    · rw [hexact i v a hi ha (by rw [← hzero, zero_mul]),
        hexact j w b hj hb (by rw [← hzero, zero_mul])]
    · refine chargePart_le h htotal hj hi hb ha (Or.inl ?_)
      exact div_lt_div_of_pos_right (mul_lt_mul_of_pos_left hlt hpos) h.sum_pos
  case earlier =>
    intro i j w a b hi hj ha hb hlt
    rw [abs_of_nonneg (hnear i a ha).2, abs_of_nonneg (hnear j b hb).2]
    exact chargePart_le h htotal hi hj ha hb (Or.inr ⟨rfl, hlt.le⟩)

/-! ## The rule meets it -/

/-- Whole charges are split into their parts, and the credit of the same size into their
opposites. -/
theorem allocate_of_nonneg (h : ValidWeights weights) (hscale : dp ≤ 28)
    (hwhole : ∃ k : ℤ, total = k * (1 / 10 ^ dp)) (htotal : 0 ≤ total) :
    ∃ parts, IsSplit total weights dp parts ∧ allocate total weights dp = .ok parts ∧
      allocate (-total) weights dp = .ok (parts.map fun part => -part) := by
  rcases exists_units_of_nonneg h hwhole htotal with ⟨n, hsum, hn⟩
  have hnonneg : ∀ cut ∈ cuts total weights dp, 0 ≤ cut :=
    fun cut hcut => (cuts_of_nonneg h htotal cut hcut).1
  have habs : (cuts total weights dp).map (fun cut => |cut|) = cuts total weights dp :=
    (List.map_congr_left fun cut hcut => abs_of_nonneg (hnonneg cut hcut)).trans (List.map_id _)
  have habs' : (cuts (-total) weights dp).map (fun cut => |cut|) = cuts total weights dp := by
    rw [cuts_neg, List.map_map, ← habs]
    simp
  have hsum' : (cuts (-total) weights dp).sum = n * -(1 / 10 ^ dp) := by
    rw [cuts_neg, ← List.sum_neg, hsum]
    ring
  refine ⟨chargeParts total weights dp n, isSplit_chargeParts h htotal hsum hn.le, ?_, ?_⟩
  · rw [allocate_of_units h hscale (Or.inl rfl) hsum hn, habs]
    rfl
  · rw [allocate_of_units h hscale (Or.inr rfl) hsum' hn, habs', flooredShares_neg, bump_neg]
    rfl

/-- `allocate` answers exactly for whole totals, and its answer is the split. -/
theorem allocate_meets_spec (h : ValidWeights weights) (hscale : dp ≤ 28) :
    ((∃ parts, allocate total weights dp = .ok parts) ↔
        ∃ k : ℤ, total = k * (1 / 10 ^ dp)) ∧
      ∀ parts, allocate total weights dp = .ok parts → IsSplit total weights dp parts := by
  have hanswer : (∃ k : ℤ, total = k * (1 / 10 ^ dp)) →
      ∃ parts, IsSplit total weights dp parts ∧ allocate total weights dp = .ok parts := by
    intro hwhole
    rcases le_total 0 total with hnonneg | hnonpos
    · rcases allocate_of_nonneg h hscale hwhole hnonneg with ⟨parts, hsplit, hparts, -⟩
      exact ⟨parts, hsplit, hparts⟩
    · have hwhole' : ∃ k : ℤ, -total = k * (1 / 10 ^ dp) := by
        rcases hwhole with ⟨k, hk⟩
        exact ⟨-k, by rw [hk]; push_cast; ring⟩
      rcases allocate_of_nonneg h hscale hwhole' (neg_nonneg.2 hnonpos) with
        ⟨parts, hsplit, -, hparts⟩
      have hsplit' := hsplit.neg
      rw [neg_neg] at hsplit' hparts
      exact ⟨_, hsplit', hparts⟩
  constructor
  · constructor
    · rintro ⟨parts, hparts⟩
      exact exists_units_of_allocate h hscale hparts
    · intro hwhole
      rcases hanswer hwhole with ⟨parts, -, hparts⟩
      exact ⟨parts, hparts⟩
  · intro parts hparts
    rcases hanswer (exists_units_of_allocate h hscale hparts) with ⟨parts', hsplit, hparts'⟩
    rcases Except.ok.inj (hparts.symm.trans hparts') with rfl
    exact hsplit

theorem allocate_meets_spec_credit :
    ((∃ parts, allocate (-1) [2, 0, 1] 2 = .ok parts) ↔ ∃ k : ℤ, (-1 : ℚ) = k * (1 / 10 ^ 2)) ∧
      ∀ parts, allocate (-1) [2, 0, 1] 2 = .ok parts → IsSplit (-1) [2, 0, 1] 2 parts :=
  allocate_meets_spec ⟨by decide, by decide +kernel, by decide +kernel⟩ (by decide)

end Answer

end Falkr
