import Falkr.Core.Representable
import Falkr.Lib.Digits
import Falkr.Lib.Text

/-!
# Numeral — the number a text writes

A numeral is a sign, digits and at most one point among them; underscores may separate the digits.
What it writes is a rational number, whether or not a decimal stands for it.
-/

namespace Falkr

open Lib

/-- The digits after the point, if there is one. -/
def fractionDigits : List Char → Option (List Char)
  | [] => some []
  | c :: cs => if c = '.' ∧ cs.all Char.isDigit then some cs else none

/-- The digits of a numeral as one whole number, and how many of them stand after the point. -/
def numeral (text : String) : Option (Int × Nat) :=
  let (negative, cs) := takeSign text.toList
  let (whole, rest) := takeDigits (cs.filter fun c => c ≠ '_')
  match fractionDigits rest with
  | none => none
  | some fraction =>
      let magnitude : Int := readDigits 10 (whole ++ fraction) 0
      if whole ++ fraction = [] then none
      else some (if negative then -magnitude else magnitude, fraction.length)

/-- The number that a text writes. -/
def written (text : String) : Option ℚ :=
  (numeral text).map fun n => n.1 / 10 ^ n.2

example : written "-1_234.50" = some (-2469 / 2) := by decide +kernel

/-- What the reader of decimals is documented to do: it returns a decimal, and that of the number
written in the text where there is one. -/
structure DecimalReader (parse : String → Option ℚ) : Prop where
  representable : ∀ text q, parse text = some q → Decimal.Representable q
  exact : ∀ text q v, parse text = some q → written text = some v → Decimal.Representable v → q = v

theorem DecimalReader.written_eq_iff {parse : String → Option ℚ} (h : DecimalReader parse)
    {text : String} {q : ℚ} (hparse : parse text = some q) :
    written text = some q ↔ ∃ v, written text = some v ∧ Decimal.Representable v := by
  constructor
  · intro hwritten
    exact ⟨q, hwritten, h.representable text q hparse⟩
  · rintro ⟨v, hwritten, hv⟩
    rw [h.exact text q v hparse hwritten hv, hwritten]

/-! ## Exact rationals -/

/-- Reads a fraction of two numerals, or one numeral. -/
def readRational (text : String) : Option ℚ :=
  match splitOnce '/' text with
  | some (numerator, denominator) => do
      let n ← written numerator
      let d ← written denominator
      pure (n / d)
  | none => written text

theorem written_digits (negative : Bool) (n : Nat) :
    written ((if negative then "-" else "") ++ n.repr) =
      some (if negative then -(n : ℚ) else n) := by
  have hdigits : Nat.toDigits 10 n = padded 10 0 n := by simp [padded]
  have hsign : takeSign ((if negative then "-" else "") ++ n.repr).toList =
      (negative, padded 10 0 n) := by
    cases negative with
    | true => simp [takeSign, hdigits]
    | false => simpa [hdigits] using takeSign_padded 0 n []
  have hall : ∀ c ∈ padded 10 0 n, c.isDigit = true := fun c => isDigit_of_mem_padded
  have hfilter : (padded 10 0 n).filter (fun c => c ≠ '_') = padded 10 0 n := by
    refine List.filter_eq_self.2 fun c hc => ?_
    have hne : c ≠ '_' := fun heq => absurd (hall c hc) (by rw [heq]; decide)
    simpa using hne
  have htake : takeDigits (padded 10 0 n) = (padded 10 0 n, []) := by
    have hstop : ∀ c ∈ ([] : List Char).head?, c.isDigit = false := by simp
    simpa using takeDigits_append hall hstop
  have hne : padded 10 0 n ≠ [] := by simp [padded, Nat.toDigits_ne_nil]
  have hvalue : readDigits 10 (padded 10 0 n) 0 = n :=
    readDigits_padded (by omega) (by omega) 0 n
  unfold written numeral
  rw [hsign]
  simp only [hfilter, htake, fractionDigits, List.append_nil, hne, if_false, hvalue]
  cases negative <;> simp

theorem written_toString (n : Int) : written (toString n) = some (n : ℚ) := by
  rw [Int.toString_eq_repr, Int.repr_eq_if]
  by_cases hn : 0 ≤ n
  · have hvalue := written_digits false n.toNat
    have hcast : ((n.toNat : Int) : ℚ) = n := by rw [Int.toNat_of_nonneg hn]
    rw [if_pos hn, ← hcast, Int.cast_natCast]
    simpa using hvalue
  · have hvalue := written_digits true (-n).toNat
    have hcast : (((-n).toNat : Int) : ℚ) = -n := by
      rw [Int.toNat_of_nonneg (by omega), Int.cast_neg]
    simp only [if_true] at hvalue
    rw [if_neg hn, hvalue, ← Int.cast_natCast, hcast, neg_neg]

theorem slash_not_mem (n : Int) : '/' ∉ (toString n).toList := by
  have hdigits : ∀ k : Nat, '/' ∉ Nat.toDigits 10 k := fun k hmem =>
    absurd (Nat.isDigit_of_mem_toDigits (by omega) (by omega) hmem) (by decide)
  rw [Int.toString_eq_repr, Int.repr_eq_if]
  split_ifs <;> simp [hdigits]

/-- Rationals are written as reduced fractions. -/
theorem readRational_toString (a : ℚ) : readRational (toString a) = some a := by
  -- A whole number is written without a denominator.
  by_cases hden : a.den = 1
  · have htext : toString a = toString a.num := if_pos hden
    rw [htext, readRational, splitOnce_eq_none (slash_not_mem a.num)]
    simp only [written_toString, Option.some.injEq]
    exact Rat.coe_int_num_of_den_eq_one hden
  · have htext : toString a = toString a.num ++ String.ofList ['/'] ++ toString (a.den : Int) :=
      if_neg hden
    rw [htext, readRational, splitOnce_append (slash_not_mem a.num)]
    simp only [written_toString]
    exact congrArg some (Rat.num_div_den a)

/-! ## Reading to the nearest decimal -/

namespace Decimal

/-- `n / 10 ^ scale`, rounded when no decimal stands for it. -/
def nearest (n : Int) (scale : Nat) : Option Decimal :=
  if h : scale ≤ maxScale then fit n scale h 0 else fit n maxScale le_rfl (scale - maxScale)

theorem toRat_nearest {n : Int} {scale : Nat} {d : Decimal}
    (h : Representable ((n : ℚ) / 10 ^ scale)) (hd : nearest n scale = some d) :
    d.toRat = n / 10 ^ scale := by
  rcases h with ⟨exact, hexact⟩
  unfold nearest at hd
  split_ifs at hd with hscale
  · rw [toRat_fit scale hscale 0 hexact.symm (Or.inl rfl) hd, hexact]
  · have hexp : maxScale + (scale - maxScale) = scale := by omega
    -- The numeral has more digits than a decimal keeps, but those past `maxScale` are zeros.
    rw [toRat_fit maxScale le_rfl (scale - maxScale) (hexp.symm ▸ hexact.symm)
      (Or.inr exact.scale_le) hd, hexact]

/-- Reads a numeral, rounding to the nearest decimal. -/
def readNearest (text : String) : Option ℚ :=
  (numeral text).bind fun n => (nearest n.1 n.2).map toRat

theorem decimalReader_readNearest : DecimalReader readNearest where
  representable := by
    intro text q hq
    rcases Option.bind_eq_some_iff.1 hq with ⟨n, -, hn⟩
    rcases Option.map_eq_some_iff.1 hn with ⟨d, -, rfl⟩
    exact representable_toRat d
  exact := by
    intro text q v hq hv hrepresentable
    rcases Option.bind_eq_some_iff.1 hq with ⟨n, hn, hnearest⟩
    rcases Option.map_eq_some_iff.1 hnearest with ⟨d, hd, rfl⟩
    rw [written, hn] at hv
    cases hv
    exact toRat_nearest hrepresentable hd

end Decimal

end Falkr
