import Falkr.Testkit.Scenario

/-!
# Period — the texts that `validate_period` takes

The numbers of a period are read by integer parsers, which take a plus sign in front.  The sign
counts as one of the characters, so a period is let through that is a digit short
(`validatePeriod_grammar_iff`).
-/

namespace Falkr

open Lib

/-- Two digits that stand for a number from one to `max`. -/
structure PeriodNumber (max : Nat) (digits : List Char) : Prop where
  length_eq : digits.length = 2
  isDigit : ∀ c ∈ digits, c.isDigit = true
  low : 1 ≤ readDigits 10 digits 0
  high : readDigits 10 digits 0 ≤ max

/-- Four digits, a hyphen, and a month from 01 to 12 or a fiscal period from P01 to P13. -/
def PeriodGrammar (s : String) : Prop :=
  ∃ year rest, s.toList = year ++ '-' :: rest ∧ year.length = 4 ∧
    (∀ c ∈ year, c.isDigit = true) ∧
      (PeriodNumber 12 rest ∨ ∃ digits, rest = 'P' :: digits ∧ PeriodNumber 13 digits)

/-- What the parsers make of a period: numerals of four and of two characters. -/
structure ReadPeriod (s : String) (year number : List Char) (max : Nat) : Prop where
  text : s.toList = year ++ '-' :: number ∧ max = 12 ∨
    s.toList = year ++ '-' :: 'P' :: number ∧ max = 13
  year_length : year.length = 4
  number_length : number.length = 2
  year_numeral : ∃ digits, Numeral year digits
  number_numeral : ∃ digits, Numeral number digits ∧ 1 ≤ readDigits 10 digits 0 ∧
    readDigits 10 digits 0 ≤ max

/-- A period in which a plus sign stands for a digit. -/
def SignedPeriod (s : String) : Prop :=
  '+' ∈ s.toList ∧ ∃ year number max, ReadPeriod s year number max

section Numerals

variable {cs digits : List Char}

theorem hyphen_not_mem_of_numeral (h : Numeral cs digits) : '-' ∉ cs := by
  have hdigits : '-' ∉ digits := fun hmem => by cases h.isDigit _ hmem
  rcases h.spelled with rfl | rfl
  · exact hdigits
  · simpa using hdigits

theorem numeral_of_digits (hne : cs ≠ []) (h : ∀ c ∈ cs, c.isDigit = true) : Numeral cs cs :=
  ⟨Or.inl rfl, hne, h⟩

/-- A numeral without a plus sign are its digits. -/
theorem eq_digits_of_numeral (h : Numeral cs digits) (hplus : '+' ∉ cs) : cs = digits := by
  rcases h.spelled with rfl | rfl
  · rfl
  · exact absurd (by simp) hplus

theorem plus_not_mem_of_digits (h : ∀ c ∈ cs, c.isDigit = true) : '+' ∉ cs :=
  fun hmem => by cases h _ hmem

/-- Four characters are too few for a number that the parser of the year refuses. -/
theorem parseUnsigned_year (h : Numeral cs digits) (hlength : cs.length = 4) :
    (parseUnsigned (2 ^ 16) (String.ofList cs)).isSome := by
  have hshort : digits.length ≤ 4 := by
    rcases h.spelled with rfl | rfl
    · exact hlength.le
    · rw [List.length_cons] at hlength
      omega
  have hvalue : readDigits 10 digits 0 < 2 ^ 16 :=
    calc readDigits 10 digits 0
        < 10 ^ digits.length := readDigits_lt digits h.isDigit
      _ ≤ 10 ^ 4 := Nat.pow_le_pow_right (by omega) hshort
      _ ≤ 2 ^ 16 := by omega
  rw [Option.isSome_iff_exists]
  exact ⟨_, parseUnsigned_eq_some_iff.2 ⟨digits, by simpa using h, rfl, hvalue⟩⟩

end Numerals

/-- What has the form is read, and what is read without a sign has the form. -/
theorem periodGrammar_iff {s : String} :
    PeriodGrammar s ↔ '+' ∉ s.toList ∧ ∃ year number max, ReadPeriod s year number max := by
  constructor
  · rintro ⟨year, rest, hs, hlength, hyear, hrest⟩
    have hne : year ≠ [] := List.ne_nil_of_length_pos (by omega)
    have hnumber : ∀ {max : Nat} {digits : List Char}, PeriodNumber max digits →
        '+' ∉ digits ∧ ∃ read, Numeral digits read ∧ 1 ≤ readDigits 10 read 0 ∧
          readDigits 10 read 0 ≤ max := by
      intro max digits h
      have hne : digits ≠ [] := List.ne_nil_of_length_pos (by rw [h.length_eq]; omega)
      exact ⟨plus_not_mem_of_digits h.isDigit, digits, numeral_of_digits hne h.isDigit, h.low,
        h.high⟩
    have hplus := plus_not_mem_of_digits hyear
    rcases hrest with hmonth | ⟨digits, rfl, hfiscal⟩
    · rcases hnumber hmonth with ⟨hplus', hread⟩
      refine ⟨by simp [hs, hplus, hplus'], year, rest, 12, Or.inl ⟨hs, rfl⟩, hlength,
        hmonth.length_eq, ⟨year, numeral_of_digits hne hyear⟩, hread⟩
    · rcases hnumber hfiscal with ⟨hplus', hread⟩
      refine ⟨by simp [hs, hplus, hplus'], year, digits, 13, Or.inr ⟨hs, rfl⟩, hlength,
        hfiscal.length_eq, ⟨year, numeral_of_digits hne hyear⟩, hread⟩
  · rintro ⟨hplus, year, number, max, hread⟩
    rcases hread.year_numeral with ⟨yearDigits, hyear⟩
    rcases hread.number_numeral with ⟨digits, hdigits, hlow, hhigh⟩
    have hparts : '+' ∉ year ∧ '+' ∉ number := by
      rcases hread.text with ⟨hs, -⟩ | ⟨hs, -⟩ <;>
        exact ⟨fun h => hplus (by simp [hs, h]), fun h => hplus (by simp [hs, h])⟩
    rcases eq_digits_of_numeral hyear hparts.1 with rfl
    rcases eq_digits_of_numeral hdigits hparts.2 with rfl
    have hnumber : PeriodNumber max number :=
      ⟨hread.number_length, hdigits.isDigit, hlow, hhigh⟩
    rcases hread.text with ⟨hs, rfl⟩ | ⟨hs, rfl⟩
    · exact ⟨year, number, hs, hread.year_length, hyear.isDigit, Or.inl hnumber⟩
    · exact ⟨year, _, hs, hread.year_length, hyear.isDigit, Or.inr ⟨number, rfl, hnumber⟩⟩

/-! ## The parser -/

variable {debug : String → String} {s : String}

/-- The last part of a period, without the mark of a fiscal one, and the largest number there. -/
def lastNumber (rest : String) : String × Nat :=
  match rest.toList with
  | 'P' :: digits => (String.ofList digits, 13)
  | _ => (rest, 12)

def checkNumber (debug : String → String) (period : String) (last : String × Nat) :
    Except String Unit :=
  match parseUnsigned (2 ^ 8) last.1 with
  | some n =>
      if 1 ≤ n ∧ n ≤ last.2 ∧ last.1.utf8ByteSize = 2 then .ok ()
      else .error ("setup.period " ++ debug period ++
        " has an out-of-range or unpadded period number")
  | none => .error ("setup.period " ++ debug period ++
      " has an out-of-range or unpadded period number")

theorem validatePeriod_of_split {year rest : String} (h : splitOnce '-' s = some (year, rest)) :
    validatePeriod debug s =
      if year.utf8ByteSize ≠ 4 ∨ (parseUnsigned (2 ^ 16) year).isNone then
        .error ("setup.period " ++ debug s ++ " has a non-numeric year")
      else checkNumber debug s (lastNumber rest) := by
  unfold validatePeriod
  rw [h]
  rfl

theorem lastNumber_cases (rest : String) :
    (lastNumber rest).2 = 12 ∧ rest.toList = (lastNumber rest).1.toList ∨
      (lastNumber rest).2 = 13 ∧ rest.toList = 'P' :: (lastNumber rest).1.toList := by
  unfold lastNumber
  split
  · rename_i digits hrest
    exact Or.inr ⟨rfl, by rw [hrest, String.toList_ofList]⟩
  · exact Or.inl ⟨rfl, rfl⟩

theorem checkNumber_eq_ok_iff {last : String × Nat} :
    checkNumber debug s last = .ok () ↔
      last.1.toList.length = 2 ∧ ∃ digits, Numeral last.1.toList digits ∧
        1 ≤ readDigits 10 digits 0 ∧ readDigits 10 digits 0 ≤ last.2 ∧
          readDigits 10 digits 0 < 2 ^ 8 := by
  unfold checkNumber
  split
  · rename_i n hn
    rcases parseUnsigned_eq_some_iff.1 hn with ⟨digits, hnumeral, rfl, hlt⟩
    rw [hnumeral.utf8ByteSize]
    constructor
    · intro h
      split at h
      · rename_i hrange
        exact ⟨hrange.2.2, digits, hnumeral, hrange.1, hrange.2.1, hlt⟩
      · cases h
    · rintro ⟨hlength, digits', hnumeral', hlow, hhigh, hlt'⟩
      have hsame : some (readDigits 10 digits' 0) = some (readDigits 10 digits 0) := by
        rw [← hn, parseUnsigned_eq_some_iff.2 ⟨digits', hnumeral', rfl, hlt'⟩]
      rw [if_pos ⟨Option.some.inj hsame ▸ hlow, Option.some.inj hsame ▸ hhigh, hlength⟩]
  · rename_i hn
    refine iff_of_false (by simp) ?_
    rintro ⟨-, digits, hnumeral, -, -, hlt⟩
    rw [parseUnsigned_eq_some_iff.2 ⟨digits, hnumeral, rfl, hlt⟩] at hn
    cases hn

/-- No numeral begins like the mark of a fiscal period. -/
theorem exists_lastNumber {year number digits : List Char} {max : Nat}
    (htext : s.toList = year ++ '-' :: number ∧ max = 12 ∨
      s.toList = year ++ '-' :: 'P' :: number ∧ max = 13)
    (hdigits : Numeral number digits) :
    ∃ rest, s.toList = year ++ '-' :: rest ∧
      lastNumber (String.ofList rest) = (String.ofList number, max) := by
  rcases htext with ⟨hs, rfl⟩ | ⟨hs, rfl⟩
  · refine ⟨number, hs, ?_⟩
    rcases lastNumber_cases (String.ofList number) with ⟨hmax, hrest⟩ | ⟨-, hrest⟩
    · exact Prod.ext (String.toList_inj.1 hrest.symm) hmax
    · rw [String.toList_ofList] at hrest
      rcases hdigits.spelled with rfl | rfl
      · cases hdigits.isDigit 'P' (by rw [hrest]; simp)
      · cases hrest
  · exact ⟨'P' :: number, hs, by simp [lastNumber]⟩

/-- The parser accepts what it can read. -/
theorem validatePeriod_eq_ok_iff :
    validatePeriod debug s = .ok () ↔ ∃ year number max, ReadPeriod s year number max := by
  constructor
  · intro h
    cases hsplit : splitOnce '-' s with
    | none => simp [validatePeriod, hsplit] at h
    | some parts =>
        rcases parts with ⟨year, rest⟩
        rw [validatePeriod_of_split hsplit] at h
        split at h
        · cases h
        · rename_i hyear
          rcases not_or.1 hyear with ⟨hsize, hyear⟩
          rw [Option.isNone_iff_eq_none] at hyear
          rcases Option.ne_none_iff_exists'.1 hyear with ⟨n, hn⟩
          rcases parseUnsigned_eq_some_iff.1 hn with ⟨yearDigits, hnumeral, -⟩
          rcases checkNumber_eq_ok_iff.1 h with ⟨hlength, digits, hdigits, hlow, hhigh, -⟩
          refine ⟨year.toList, (lastNumber rest).1.toList, (lastNumber rest).2, ?_, ?_, hlength,
            ⟨yearDigits, hnumeral⟩, ⟨digits, hdigits, hlow, hhigh⟩⟩
          · have htext := (splitOnce_eq_some_iff.1 hsplit).1
            rcases lastNumber_cases rest with ⟨hmax, hrest⟩ | ⟨hmax, hrest⟩
            · exact Or.inl ⟨by rw [htext, hrest], hmax⟩
            · exact Or.inr ⟨by rw [htext, hrest], hmax⟩
          · rw [← hnumeral.utf8ByteSize]
            exact not_not.1 hsize
  · rintro ⟨year, number, max, hread⟩
    rcases hread.year_numeral with ⟨yearDigits, hyear⟩
    rcases hread.number_numeral with ⟨digits, hdigits, hlow, hhigh⟩
    rcases exists_lastNumber hread.text hdigits with ⟨rest, htext, hlast⟩
    have hsplit : splitOnce '-' s = some (String.ofList year, String.ofList rest) := by
      refine splitOnce_eq_some_iff.2 ⟨by simpa using htext, ?_⟩
      rw [String.toList_ofList]
      exact hyphen_not_mem_of_numeral hyear
    have hsize : (String.ofList year).utf8ByteSize = 4 := by
      have hnumeral : Numeral (String.ofList year).toList yearDigits := by simpa using hyear
      rw [hnumeral.utf8ByteSize, String.toList_ofList, hread.year_length]
    have hsome := parseUnsigned_year hyear hread.year_length
    rw [validatePeriod_of_split hsplit, hlast, if_neg, checkNumber_eq_ok_iff]
    · have hmax : max ≤ 13 := by rcases hread.text with ⟨-, rfl⟩ | ⟨-, rfl⟩ <;> omega
      exact ⟨by simpa using hread.number_length, digits, by simpa using hdigits, hlow, hhigh,
        by omega⟩
    · rw [hsize, Option.isNone_iff_eq_none]
      rintro (hne | hnone)
      · exact hne rfl
      · rw [hnone] at hsome
        cases hsome

/-- A period is accepted just when it has the form, but for those with a plus sign. -/
theorem validatePeriod_grammar_iff (debug : String → String) (s : String) :
    (validatePeriod debug s = .ok () ↔ PeriodGrammar s) ↔ ¬SignedPeriod s := by
  rw [validatePeriod_eq_ok_iff, periodGrammar_iff]
  constructor
  · rintro hsame ⟨hplus, hread⟩
    exact (hsame.1 hread).1 hplus
  · intro hnot
    constructor
    · intro hread
      exact ⟨fun hplus => hnot ⟨hplus, hread⟩, hread⟩
    · exact fun h => h.2

/-- A plus sign in the year, and one in the number. -/
theorem validatePeriod_signed :
    validatePeriod id "+026-01" = .ok () ∧ ¬PeriodGrammar "+026-01" ∧
      validatePeriod id "2026-P+1" = .ok () ∧ ¬PeriodGrammar "2026-P+1" := by
  have hno : ∀ s : String, '+' ∈ s.toList → ¬PeriodGrammar s := fun s hplus hgrammar =>
    (periodGrammar_iff.1 hgrammar).1 hplus
  exact ⟨by decide +kernel, hno _ (by decide +kernel), by decide +kernel,
    hno _ (by decide +kernel)⟩

end Falkr
