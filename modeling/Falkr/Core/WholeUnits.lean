import Falkr.Core.RunningSums

/-!
# WholeUnits — sums of whole units

Whole multiples of one unit, of a cent say, add up to whole multiples of it.  So while the amounts
together are less than a mantissa of units no addition overflows or rounds, in whatever order and
under whatever accounts they are added (`exists_add_of_whole`, `foldlM_add_of_whole`).
-/

namespace Falkr
namespace Decimal

/-! ## Units -/

/-- A whole number of units of a scale. -/
def Whole (scale : Nat) (q : ℚ) : Prop :=
  ∃ k : Int, q = k / 10 ^ scale

/-- What a mantissa of units is worth. -/
def capacity (scale : Nat) : ℚ :=
  mantissaBound / 10 ^ scale

section Units

variable {scale : Nat} {q q' : ℚ}

theorem capacity_pos (scale : Nat) : 0 < capacity scale := by
  unfold capacity mantissaBound
  positivity

theorem whole_zero (scale : Nat) : Whole scale 0 :=
  ⟨0, by simp⟩

theorem whole_toRat (a : Decimal) : Whole a.scale a.toRat :=
  ⟨a.mantissa, rfl⟩

theorem Whole.add (h : Whole scale q) (h' : Whole scale q') : Whole scale (q + q') := by
  rcases h with ⟨k, rfl⟩
  rcases h' with ⟨k', rfl⟩
  exact ⟨k + k', by rw [Int.cast_add, add_div]⟩

theorem Whole.neg (h : Whole scale q) : Whole scale (-q) := by
  rcases h with ⟨k, rfl⟩
  exact ⟨-k, by rw [Int.cast_neg, neg_div]⟩

theorem Whole.sum {amounts : List Decimal} (h : ∀ a ∈ amounts, Whole scale a.toRat) :
    Whole scale (amounts.map toRat).sum := by
  induction amounts with
  | nil => exact whole_zero scale
  | cons amount rest ih =>
      rcases List.forall_mem_cons.1 h with ⟨hamount, hrest⟩
      rw [List.map_cons, List.sum_cons]
      exact hamount.add (ih hrest)

theorem representable_of_whole (hscale : scale ≤ maxScale) (h : Whole scale q)
    (hq : |q| < capacity scale) : Representable q := by
  rcases h with ⟨k, rfl⟩
  have hpow : (0 : ℚ) < 10 ^ scale := by positivity
  have habs : |(k : ℚ)| < mantissaBound := by
    rw [abs_div, abs_of_pos hpow, capacity] at hq
    exact (div_lt_div_iff_of_pos_right hpow).1 hq
  have hlt : k.natAbs < mantissaBound := by
    rw [← Int.cast_abs, ← Nat.cast_natAbs] at habs
    exact_mod_cast habs
  exact ⟨⟨k, scale, hlt, hscale⟩, rfl⟩

end Units

/-! ## Volumes -/

/-- The sizes of the amounts, added up. -/
def volume (amounts : List Decimal) : ℚ :=
  (amounts.map fun a => |a.toRat|).sum

section Volumes

variable {amounts : List Decimal}

theorem volume_cons (amount : Decimal) (rest : List Decimal) :
    volume (amount :: rest) = |amount.toRat| + volume rest := rfl

theorem volume_append (amounts amounts' : List Decimal) :
    volume (amounts ++ amounts') = volume amounts + volume amounts' := by
  simp [volume]

theorem volume_of_perm {amounts amounts' : List Decimal} (h : amounts.Perm amounts') :
    volume amounts = volume amounts' := by
  unfold volume
  exact (h.map _).sum_eq

theorem volume_nonneg (amounts : List Decimal) : 0 ≤ volume amounts := by
  apply List.sum_nonneg
  intro x hx
  rcases List.mem_map.1 hx with ⟨a, -, rfl⟩
  exact abs_nonneg _

theorem abs_toRat_le_volume {amount : Decimal} (h : amount ∈ amounts) :
    |amount.toRat| ≤ volume amounts := by
  induction amounts with
  | nil => cases h
  | cons first rest ih =>
      rw [volume_cons]
      rcases List.mem_cons.1 h with rfl | hrest
      · linarith [volume_nonneg rest]
      · linarith [ih hrest, abs_nonneg first.toRat]

theorem abs_sum_le_volume (amounts : List Decimal) : |(amounts.map toRat).sum| ≤ volume amounts := by
  induction amounts with
  | nil => simp [volume]
  | cons amount rest ih =>
      rw [List.map_cons, List.sum_cons, volume_cons]
      exact (abs_add_le _ _).trans (by linarith)

theorem volume_le_length_mul {bound : ℚ} (h : ∀ a ∈ amounts, |a.toRat| ≤ bound) :
    volume amounts ≤ amounts.length * bound := by
  induction amounts with
  | nil => simp [volume]
  | cons amount rest ih =>
      rcases List.forall_mem_cons.1 h with ⟨hamount, hrest⟩
      rw [volume_cons, List.length_cons, Nat.cast_succ, add_mul, one_mul]
      linarith [ih hrest]

end Volumes

/-! ## Exact additions -/

section Additions

variable {scale : Nat} (hscale : scale ≤ maxScale)

include hscale

theorem exists_add_of_whole {a b : Decimal} (ha : Whole scale a.toRat) (hb : Whole scale b.toRat)
    (hroom : |a.toRat| + |b.toRat| < capacity scale) :
    ∃ sum, add a b = some sum ∧ sum.toRat = a.toRat + b.toRat := by
  -- The exact sum is again a number of units below the capacity, so it is kept as it is.
  have hrepresentable : Representable (a.toRat + b.toRat) :=
    representable_of_whole hscale (ha.add hb) ((abs_add_le _ _).trans_lt hroom)
  rcases exists_add_iff.2 (fits_of_representable hrepresentable) with ⟨sum, hsum⟩
  exact ⟨sum, hsum, (toRat_add_iff hsum).2 hrepresentable⟩

theorem foldlM_add_of_whole {amounts : List Decimal} {start : Decimal}
    (hstart : Whole scale start.toRat) (hwhole : ∀ a ∈ amounts, Whole scale a.toRat)
    (hroom : |start.toRat| + volume amounts < capacity scale) :
    ∃ total, amounts.foldlM Amount.add start = some total ∧
      total.toRat = start.toRat + (amounts.map toRat).sum := by
  induction amounts generalizing start with
  | nil => exact ⟨start, rfl, by simp⟩
  | cons amount rest ih =>
      rcases List.forall_mem_cons.1 hwhole with ⟨hamount, hrest⟩
      rw [volume_cons] at hroom
      rcases exists_add_of_whole hscale hstart hamount (by linarith [volume_nonneg rest]) with
        ⟨sum, hadd, hsum⟩
      -- The sum takes up no more room than what it was added up from.
      have htriangle := abs_add_le start.toRat amount.toRat
      rw [← hsum] at htriangle
      have hwhole' : Whole scale sum.toRat := by
        rw [hsum]
        exact hstart.add hamount
      rcases ih hwhole' hrest (by linarith) with ⟨total, hfold, htotal⟩
      have hadd' : (Amount.add start amount : Option Decimal) = some sum := hadd
      refine ⟨total, ?_, ?_⟩
      · rw [List.foldlM_cons, hadd']
        exact hfold
      · rw [htotal, hsum, List.map_cons, List.sum_cons, add_assoc]

end Additions

end Decimal
end Falkr
