import Falkr.Core.Decimal

/-!
# Representable — what a decimal can say, and what rounding drops

A sum of two decimals is exact when some decimal stands for it, and rounded otherwise.  Along a
list of amounts the roundings add up: the total that the additions return and what they `dropped`
make up the exact total (`toRat_add_dropped`).  The additions return as long as every running sum
fits (`foldlM_add_isSome_iff`).
-/

namespace Falkr
namespace Decimal

/-- Some decimal stands for the number. -/
def Representable (q : ℚ) : Prop :=
  ∃ d : Decimal, d.toRat = q

theorem representable_toRat (d : Decimal) : Representable d.toRat :=
  ⟨d, rfl⟩

/-- A number is representable when one of the scales makes it a whole number that the mantissa
holds. -/
theorem representable_iff (q : ℚ) :
    Representable q ↔ ∃ scale ∈ List.range (maxScale + 1),
      (q * 10 ^ scale).den = 1 ∧ (q * 10 ^ scale).num.natAbs < mantissaBound := by
  constructor
  · rintro ⟨d, rfl⟩
    have hwhole : d.toRat * 10 ^ d.scale = (d.mantissa : ℚ) :=
      div_mul_cancel₀ _ (pow_scale_pos d).ne'
    refine ⟨d.scale, List.mem_range.2 (Nat.lt_succ_of_le d.scale_le), ?_, ?_⟩
    · rw [hwhole, Rat.den_intCast]
    · rw [hwhole, Rat.num_intCast]
      exact d.mantissa_lt
  · rintro ⟨scale, hscale, hden, hnum⟩
    refine ⟨⟨(q * 10 ^ scale).num, scale, hnum, Nat.le_of_lt_succ (List.mem_range.1 hscale)⟩, ?_⟩
    have hpow : (10 : ℚ) ^ scale ≠ 0 := by positivity
    rw [toRat, (Rat.den_eq_one_iff _).1 hden, mul_div_assoc, div_self hpow, mul_one]

instance (q : ℚ) : Decidable (Representable q) :=
  decidable_of_iff _ (representable_iff q).symm

/-! ## One addition -/

/-- The mantissa at a scale that is large enough. -/
theorem eq_mantissa_mul {n : Int} {scale dropped : Nat} {exact : Decimal}
    (hvalue : (n : ℚ) / 10 ^ (scale + dropped) = exact.toRat) (hscale : exact.scale ≤ scale) :
    n = exact.mantissa * 10 ^ (scale - exact.scale) * (10 ^ dropped : Nat) := by
  have hpow : (10 : ℚ) ^ (scale + dropped) =
      10 ^ exact.scale * (10 ^ (scale - exact.scale) * 10 ^ dropped) := by
    rw [← pow_add, ← pow_add]
    congr 1
    omega
  rw [toRat, div_eq_div_iff (by positivity) (by positivity), hpow] at hvalue
  have hcancel : (n : ℚ) = exact.mantissa * (10 ^ (scale - exact.scale) * 10 ^ dropped) := by
    apply mul_right_cancel₀ (pow_scale_pos exact).ne'
    rw [hvalue]
    ring
  have hint : n = exact.mantissa * (10 ^ (scale - exact.scale) * 10 ^ dropped) := by
    exact_mod_cast hcancel
  rw [hint]
  push_cast
  ring

/-- At the scale of a representable number its mantissa is not too large. -/
theorem scale_le_of_not_fits {n : Int} {scale dropped : Nat} {exact : Decimal}
    (hvalue : (n : ℚ) / 10 ^ (scale + dropped) = exact.toRat)
    (hbig : ¬Fits ((n : ℚ) / 10 ^ dropped)) : exact.scale < scale := by
  by_contra hge
  apply hbig
  have hshift : (n : ℚ) / 10 ^ dropped = exact.toRat * 10 ^ scale := by
    rw [← hvalue, pow_add]
    field_simp
  have hmantissa := abs_mantissa_le exact
  have hle : (10 : ℚ) ^ scale ≤ 10 ^ exact.scale :=
    pow_le_pow_right₀ (by norm_num) (not_lt.1 hge)
  have hbound : |exact.toRat * 10 ^ scale| ≤ |(exact.mantissa : ℚ)| := by
    rw [toRat, div_mul_eq_mul_div, abs_div, abs_mul, abs_of_pos (pow_scale_pos exact),
      abs_of_pos (by positivity : (0 : ℚ) < 10 ^ scale), div_le_iff₀ (pow_scale_pos exact)]
    exact mul_le_mul_of_nonneg_left hle (abs_nonneg _)
  rw [hshift, Fits]
  linarith

/-- A representable value is not rounded: the search for a scale does not go below the one it is
representable at. -/
theorem toRat_fit {n : Int} {exact : Decimal} :
    ∀ (scale : Nat) (hs : scale ≤ maxScale) (dropped : Nat) {d : Decimal},
      (n : ℚ) / 10 ^ (scale + dropped) = exact.toRat → (dropped = 0 ∨ exact.scale ≤ scale) →
      fit n scale hs dropped = some d → d.toRat = exact.toRat := by
  have hkept : ∀ (scale dropped : Nat), (n : ℚ) / 10 ^ (scale + dropped) = exact.toRat →
      (dropped = 0 ∨ exact.scale ≤ scale) →
      (Lib.divHalfEven n (10 ^ dropped) : ℚ) / 10 ^ scale = exact.toRat := by
    intro scale dropped hvalue hscale
    -- Nothing has been dropped yet, or what is dropped are zeros.
    rcases hscale with rfl | hscale
    · have hwhole : Lib.divHalfEven n (10 ^ 0) = n := by
        simpa using Lib.divHalfEven_mul n (show 0 < 1 by omega)
      rw [hwhole]
      simpa using hvalue
    · rw [eq_mantissa_mul hvalue hscale, Lib.divHalfEven_mul _ (by positivity), toRat]
      push_cast
      rw [div_eq_div_iff (by positivity) (by positivity), mul_assoc, ← pow_add,
        Nat.sub_add_cancel hscale]
  intro scale
  induction scale with
  | zero =>
      intro hs dropped d hvalue hscale hfit
      unfold fit at hfit
      split_ifs at hfit
      cases hfit
      exact hkept 0 dropped hvalue hscale
  | succ scale ih =>
      intro hs dropped d hvalue hscale hfit
      unfold fit at hfit
      split_ifs at hfit with hlt
      · cases hfit
        exact hkept (scale + 1) dropped hvalue hscale
      · rw [natAbs_divHalfEven_lt_mantissaBound_iff] at hlt
        have hexp : scale + 1 + dropped = scale + (dropped + 1) := by omega
        -- Too large a mantissa at this scale means that the value is representable at a lower one.
        have hbelow := scale_le_of_not_fits hvalue hlt
        exact ih _ (dropped + 1) (hexp ▸ hvalue) (Or.inr (by omega)) hfit

/-- A sum is exact exactly when a decimal stands for it. -/
theorem toRat_add_iff {a b sum : Decimal} (h : add a b = some sum) :
    sum.toRat = a.toRat + b.toRat ↔ Representable (a.toRat + b.toRat) := by
  constructor
  · intro hexact
    exact ⟨sum, hexact⟩
  · rintro ⟨exact, hexact⟩
    rcases add_cases h with hsum | hfit
    · exact hsum
    · have hvalue : (sumNumerator a b : ℚ) / 10 ^ (Nat.max a.scale b.scale + 0) = exact.toRat := by
        rw [hexact, toRat_add_toRat, Nat.add_zero]
      rw [← hexact]
      exact toRat_fit _ _ 0 hvalue (Or.inl rfl) hfit

/-! ## Running sums -/

/-- What adding the amounts one after the other loses to rounding. -/
def dropped : Decimal → List Decimal → ℚ
  | _, [] => 0
  | start, amount :: rest =>
      match add start amount with
      | none => 0
      | some sum => start.toRat + amount.toRat - sum.toRat + dropped sum rest

/-- The exact total is the total that was returned and what the additions dropped. -/
theorem toRat_add_dropped :
    ∀ (amounts : List Decimal) {start total : Decimal},
      amounts.foldlM Amount.add start = some total →
      start.toRat + (amounts.map toRat).sum = total.toRat + dropped start amounts
  | [], start, total, h => by
      cases h
      simp [dropped]
  | amount :: rest, start, total, h => by
      rw [List.foldlM_cons] at h
      rcases Option.bind_eq_some_iff.1 h with ⟨sum, hsum, hrest⟩
      have hadd : add start amount = some sum := hsum
      have ih := toRat_add_dropped rest hrest
      simp only [List.map_cons, List.sum_cons, dropped, hadd]
      linarith

/-- Each running sum is one that a decimal stands for. -/
def RunningExact : ℚ → List Decimal → Prop
  | _, [] => True
  | start, amount :: rest =>
      Representable (start + amount.toRat) ∧ RunningExact (start + amount.toRat) rest

/-- Additions whose exact sums are all representable drop nothing. -/
theorem dropped_eq_zero :
    ∀ (amounts : List Decimal) (start : Decimal), RunningExact start.toRat amounts →
      dropped start amounts = 0
  | [], _, _ => rfl
  | amount :: rest, start, h => by
      rcases h with ⟨hsum, hrest⟩
      unfold dropped
      cases hadd : add start amount with
      | none => rfl
      | some sum =>
          have hexact := (toRat_add_iff hadd).2 hsum
          rw [← hexact] at hrest
          simp [hexact, dropped_eq_zero rest sum hrest]

theorem toRat_of_runningExact {amounts : List Decimal} {start total : Decimal}
    (hexact : RunningExact start.toRat amounts)
    (htotal : amounts.foldlM Amount.add start = some total) :
    total.toRat = start.toRat + (amounts.map toRat).sum := by
  have hsum := toRat_add_dropped amounts htotal
  rw [dropped_eq_zero amounts start hexact, add_zero] at hsum
  exact hsum.symm

theorem exists_add_iff {start amount : Decimal} :
    (∃ sum, add start amount = some sum) ↔ Fits (start.toRat + amount.toRat) := by
  rw [← Option.isSome_iff_exists]
  exact add_isSome_iff start amount

/-- Adding the amounts one after the other never leaves the range of the decimal. -/
def RunningFits : Decimal → List Decimal → Prop
  | _, [] => True
  | start, amount :: rest =>
      Fits (start.toRat + amount.toRat) ∧
        ∀ sum, add start amount = some sum → RunningFits sum rest

theorem runningFits_cons_of_add {start amount sum : Decimal} (h : add start amount = some sum)
    (rest : List Decimal) : RunningFits start (amount :: rest) ↔ RunningFits sum rest := by
  have hfits : Fits (start.toRat + amount.toRat) := exists_add_iff.1 ⟨sum, h⟩
  constructor
  · rintro ⟨-, hrest⟩
    exact hrest sum h
  · intro hrest
    refine ⟨hfits, ?_⟩
    intro sum' hsum'
    rw [h] at hsum'
    cases hsum'
    exact hrest

theorem not_runningFits_cons_of_add {start amount : Decimal} (h : add start amount = none)
    (rest : List Decimal) : ¬RunningFits start (amount :: rest) := by
  rintro ⟨hfits, -⟩
  rcases exists_add_iff.2 hfits with ⟨sum, hsum⟩
  rw [h] at hsum
  cases hsum

theorem foldlM_add_isSome_iff :
    ∀ (amounts : List Decimal) (start : Decimal),
      (amounts.foldlM Amount.add start).isSome ↔ RunningFits start amounts
  | [], start => by simp [RunningFits]
  | amount :: rest, start => by
      rw [List.foldlM_cons]
      cases hadd : add start amount with
      | none =>
          have hno := not_runningFits_cons_of_add hadd rest
          have hnone : (Amount.add start amount : Option Decimal) = none := hadd
          simp [hnone, hno]
      | some sum =>
          have hsome : (Amount.add start amount : Option Decimal) = some sum := hadd
          rw [runningFits_cons_of_add hadd, ← foldlM_add_isSome_iff rest sum, hsome]
          rfl

/-- Where the running sums are not all exact, there is a first that is not. -/
theorem exists_prefix_of_not_runningExact :
    ∀ (amounts : List Decimal) (start : Decimal), RunningFits start amounts →
      ¬RunningExact start.toRat amounts →
      ∃ upTo total, upTo <+: amounts ∧ upTo ≠ [] ∧ upTo.foldlM Amount.add start = some total ∧
        total.toRat ≠ start.toRat + (upTo.map toRat).sum
  | [], _, _, h => absurd trivial h
  | amount :: rest, start, hfits, h => by
      rcases exists_add_iff.2 hfits.1 with ⟨sum, hadd⟩
      have hfold : (Amount.add start amount : Option Decimal) = some sum := hadd
      by_cases hsum : sum.toRat = start.toRat + amount.toRat
      · have hrest : ¬RunningExact sum.toRat rest := fun hrest =>
          h ⟨hsum ▸ ⟨sum, rfl⟩, hsum ▸ hrest⟩
        rcases exists_prefix_of_not_runningExact rest sum (hfits.2 sum hadd) hrest with
          ⟨upTo, total, hprefix, -, htotal, hne⟩
        refine ⟨amount :: upTo, total, List.cons_prefix_cons.2 ⟨rfl, hprefix⟩, by simp, ?_, ?_⟩
        · rw [List.foldlM_cons, hfold]
          exact htotal
        · rw [List.map_cons, List.sum_cons, ← add_assoc, ← hsum]
          exact hne
      · exact ⟨[amount], sum, List.cons_prefix_cons.2 ⟨rfl, List.nil_prefix⟩, by simp,
          by rw [List.foldlM_cons, hfold]; rfl, by simpa using hsum⟩

end Decimal
end Falkr
