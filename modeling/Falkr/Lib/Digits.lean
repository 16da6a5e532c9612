import Falkr.Lib.JsonText
import Mathlib.Tactic.Positivity
import Mathlib.Tactic.Ring

/-!
# Digits — numbers inside a text

A number is written in a base with at least so many digits, and read back up to the first
character that is no digit.
-/

namespace Falkr
namespace Lib

/-- The digits of a number, with zeros in front up to a width. -/
def padded (base width n : Nat) : List Char :=
  List.replicate (width - (Nat.toDigits base n).length) '0' ++ Nat.toDigits base n

/-- The number that digits stand for, read on from another one. -/
def readDigits (base : Nat) (digits : List Char) (n : Nat) : Nat :=
  digits.foldl (fun n c => base * n + Json.hexValue c) n

/-- Reads the digits that a text begins with. -/
def takeDigits (cs : List Char) : List Char × List Char :=
  (cs.takeWhile Char.isDigit, cs.dropWhile Char.isDigit)

/-- Reads the number that a text begins with. -/
def takeNumber (cs : List Char) : Nat × List Char :=
  (readDigits 10 (takeDigits cs).1 0, (takeDigits cs).2)

/-- Reads the sign that a text may begin with: whether it is a minus. -/
def takeSign : List Char → Bool × List Char
  | '-' :: cs => (true, cs)
  | '+' :: cs => (false, cs)
  | cs => (false, cs)

/-- Reads one given character. -/
def expect (c : Char) : List Char → Option (List Char)
  | [] => none
  | d :: cs => if d = c then some cs else none

/-- The unsigned integer parser: digits below a bound, a plus sign in front being let through. -/
def parseUnsigned (bound : Nat) (text : String) : Option Nat :=
  let digits :=
    match text.toList with
    -- `str::parse` accepts one plus sign.
    | '+' :: digits => digits
    | digits => digits
  let n := readDigits 10 digits 0
  if digits ≠ [] ∧ digits.all Char.isDigit ∧ n < bound then some n else none

/-! ## What was written -/

theorem readDigits_toDigits {base : Nat} (hbase : 1 < base) (hle : base ≤ 16) (n : Nat) :
    readDigits base (Nat.toDigits base n) 0 = n := by
  induction n using Nat.strongRecOn with
  | _ n ih =>
      by_cases hlt : n < base
      · rw [Nat.toDigits_of_lt_base hlt]
        simp [readDigits, Json.hexValue_digitChar n (by omega)]
      · have hrest := ih (n / base) (Nat.div_lt_self (by omega) hbase)
        have hdigit := Json.hexValue_digitChar (n % base)
          ((Nat.mod_lt n (by omega)).trans_le hle)
        rw [Nat.toDigits_of_base_le hbase (not_lt.1 hlt)]
        unfold readDigits at hrest ⊢
        rw [List.foldl_append, hrest]
        simp only [List.foldl_cons, List.foldl_nil, hdigit]
        exact Nat.div_add_mod n base

theorem readDigits_replicate (base : Nat) (k : Nat) (digits : List Char) :
    readDigits base (List.replicate k '0' ++ digits) 0 = readDigits base digits 0 := by
  induction k with
  | zero => rfl
  | succ k ih => exact ih

theorem readDigits_padded {base : Nat} (hbase : 1 < base) (hle : base ≤ 16) (width n : Nat) :
    readDigits base (padded base width n) 0 = n := by
  rw [padded, readDigits_replicate, readDigits_toDigits hbase hle]

theorem length_padded {base width n : Nat} (hbase : 1 < base) (hwidth : 0 < width)
    (h : n < base ^ width) : (padded base width n).length = width := by
  have hle := (Nat.length_toDigits_le_iff hbase hwidth).2 h
  simp only [padded, List.length_append, List.length_replicate]
  omega

theorem isDigit_of_mem_padded {width n : Nat} {c : Char} (h : c ∈ padded 10 width n) :
    c.isDigit = true := by
  rcases List.mem_append.1 h with hzero | hdigit
  · rw [List.eq_of_mem_replicate hzero]
    rfl
  · exact Nat.isDigit_of_mem_toDigits (by omega) (by omega) hdigit

theorem mem_toDigits {base : Nat} (hbase : 1 < base) (n : Nat) :
    ∀ c ∈ Nat.toDigits base n, ∃ d < base, c = Nat.digitChar d := by
  induction n using Nat.strongRecOn with
  | _ n ih =>
      by_cases hlt : n < base
      · rw [Nat.toDigits_of_lt_base hlt]
        simpa using ⟨n, hlt, rfl⟩
      · rw [Nat.toDigits_of_base_le hbase (not_lt.1 hlt)]
        intro c hmem
        rcases List.mem_append.1 hmem with hrest | hlast
        · exact ih (n / base) (Nat.div_lt_self (by omega) hbase) c hrest
        · exact ⟨n % base, Nat.mod_lt n (by omega), List.mem_singleton.1 hlast⟩

/-- Digits that follow others move them up by as many places. -/
theorem readDigits_eq (base : Nat) :
    ∀ (digits : List Char) (n : Nat),
      readDigits base digits n = n * base ^ digits.length + readDigits base digits 0 := by
  intro digits
  induction digits with
  | nil =>
      intro n
      simp [readDigits]
  | cons c digits ih =>
      intro n
      have hstep : ∀ k, readDigits base (c :: digits) k =
          readDigits base digits (base * k + Json.hexValue c) := fun _ => rfl
      rw [hstep, hstep, ih (base * n + _), ih (base * 0 + _), List.length_cons, pow_succ]
      ring

theorem readDigits_append (base : Nat) (digits digits' : List Char) :
    readDigits base (digits ++ digits') 0 =
      readDigits base digits 0 * base ^ digits'.length + readDigits base digits' 0 := by
  rw [← readDigits_eq, readDigits, List.foldl_append]
  rfl

theorem readDigits_cons (base : Nat) (c : Char) (digits : List Char) :
    readDigits base (c :: digits) 0 =
      Json.hexValue c * base ^ digits.length + readDigits base digits 0 := by
  rw [← readDigits_eq]
  show readDigits base digits (base * 0 + Json.hexValue c) = _
  rw [mul_zero, zero_add]

theorem hexValue_of_isDigit {c : Char} (h : c.isDigit = true) :
    Json.hexValue c = c.toNat - 48 ∧ 48 ≤ c.toNat ∧ c.toNat ≤ 57 := by
  have hrange := Char.isDigit_iff_toNat.1 h
  exact ⟨if_pos h, hrange.1, hrange.2⟩

theorem readDigits_lt :
    ∀ digits : List Char, (∀ c ∈ digits, c.isDigit = true) →
      readDigits 10 digits 0 < 10 ^ digits.length
  | [], _ => by simp [readDigits]
  | c :: digits, h => by
      rcases List.forall_mem_cons.1 h with ⟨hc, hdigits⟩
      have hrest := readDigits_lt digits hdigits
      have hvalue := hexValue_of_isDigit hc
      have hle : Json.hexValue c * 10 ^ digits.length ≤ 9 * 10 ^ digits.length :=
        Nat.mul_le_mul_right _ (by omega)
      rw [readDigits_cons, List.length_cons, pow_succ]
      omega

/-- As many digits that stand for the same number are the same digits. -/
theorem readDigits_inj :
    ∀ digits digits' : List Char, (∀ c ∈ digits, c.isDigit = true) →
      (∀ c ∈ digits', c.isDigit = true) → digits.length = digits'.length →
      readDigits 10 digits 0 = readDigits 10 digits' 0 → digits = digits'
  | [], [], _, _, _, _ => rfl
  | c :: digits, c' :: digits', h, h', hlength, hvalue => by
      rcases List.forall_mem_cons.1 h with ⟨hc, hdigits⟩
      rcases List.forall_mem_cons.1 h' with ⟨hc', hdigits'⟩
      have hlength : digits.length = digits'.length := Nat.succ.inj hlength
      have hlt := readDigits_lt digits hdigits
      have hlt' := readDigits_lt digits' hdigits'
      rw [readDigits_cons, readDigits_cons, hlength] at hvalue
      rw [hlength] at hlt
      -- The first digit is the quotient by the weight of its place, and the others the rest.
      have hpow : 0 < 10 ^ digits'.length := by positivity
      have hquotient : ∀ a r : Nat, r < 10 ^ digits'.length →
          (a * 10 ^ digits'.length + r) / 10 ^ digits'.length = a := by
        intro a r hr
        rw [Nat.add_comm, Nat.add_mul_div_right _ _ hpow, Nat.div_eq_of_lt hr, Nat.zero_add]
      have hfirst := hquotient (Json.hexValue c) _ hlt
      rw [hvalue, hquotient _ _ hlt'] at hfirst
      rw [← hfirst] at hvalue
      have hrest := readDigits_inj digits digits' hdigits hdigits' hlength
        (Nat.add_left_cancel hvalue)
      have hc := hexValue_of_isDigit hc
      have hc' := hexValue_of_isDigit hc'
      have hchar : c = c' := Char.toNat_inj.1 (by omega)
      rw [hchar, hrest]

/-- Digits are what their number is written with at their length. -/
theorem padded_readDigits {digits : List Char} (hne : digits ≠ [])
    (h : ∀ c ∈ digits, c.isDigit = true) :
    padded 10 digits.length (readDigits 10 digits 0) = digits := by
  have hlength := length_padded (by omega) (List.length_pos_of_ne_nil hne) (readDigits_lt digits h)
  exact readDigits_inj _ _ (fun _ => isDigit_of_mem_padded) h hlength
    (readDigits_padded (by omega) (by omega) _ _)

/-! ## Reading from the front -/

/-- Digits are read up to the character that ends them. -/
theorem takeDigits_append {digits rest : List Char} (hdigits : ∀ c ∈ digits, c.isDigit = true)
    (hrest : ∀ c ∈ rest.head?, c.isDigit = false) :
    takeDigits (digits ++ rest) = (digits, rest) := by
  have hstop : rest.takeWhile Char.isDigit = [] ∧ rest.dropWhile Char.isDigit = rest := by
    cases rest with
    | nil => simp
    | cons c rest => simp [hrest c rfl]
  rw [takeDigits, List.takeWhile_append_of_pos hdigits, List.dropWhile_append_of_pos hdigits,
    hstop.1, hstop.2, List.append_nil]

theorem takeDigits_padded (width n : Nat) {c : Char} (rest : List Char)
    (hstop : c.isDigit = false) :
    takeDigits (padded 10 width n ++ c :: rest) = (padded 10 width n, c :: rest) :=
  takeDigits_append (fun _ => isDigit_of_mem_padded) (by simpa using hstop)

theorem takeNumber_padded (width n : Nat) {c : Char} (rest : List Char)
    (hstop : c.isDigit = false) : takeNumber (padded 10 width n ++ c :: rest) = (n, c :: rest) := by
  rw [takeNumber, takeDigits_padded width n rest hstop,
    readDigits_padded (by omega) (by omega)]

@[simp] theorem expect_cons (c : Char) (cs : List Char) : expect c (c :: cs) = some cs := by
  simp [expect]

/-- A digit is no sign. -/
theorem takeSign_padded (width n : Nat) (rest : List Char) :
    takeSign (padded 10 width n ++ rest) = (false, padded 10 width n ++ rest) := by
  cases hdigits : padded 10 width n with
  | nil =>
      have hempty : Nat.toDigits 10 n = [] := (List.append_eq_nil_iff.1 hdigits).2
      exact absurd hempty Nat.toDigits_ne_nil
  | cons c digits =>
      have hdigit : c.isDigit = true := isDigit_of_mem_padded (hdigits ▸ List.mem_cons_self)
      rw [List.cons_append, takeSign.eq_def]
      split
      · rename_i heq
        rw [(List.cons.inj heq).1] at hdigit
        cases hdigit
      · rename_i heq
        rw [(List.cons.inj heq).1] at hdigit
        cases hdigit
      · rfl

/-! ## Unsigned numbers -/

/-- Digits, with or without a plus sign in front. -/
structure Numeral (cs digits : List Char) : Prop where
  spelled : cs = digits ∨ cs = '+' :: digits
  ne_nil : digits ≠ []
  isDigit : ∀ c ∈ digits, c.isDigit = true

/-- What the parser makes of the digits. -/
theorem readBelow_eq_some_iff {bound n : Nat} {digits : List Char} :
    (if digits ≠ [] ∧ digits.all Char.isDigit ∧ readDigits 10 digits 0 < bound then
        some (readDigits 10 digits 0)
      else none) = some n ↔
      (digits ≠ [] ∧ ∀ c ∈ digits, c.isDigit = true) ∧ readDigits 10 digits 0 = n ∧ n < bound := by
  rw [Option.ite_none_right_eq_some, List.all_eq_true, Option.some.injEq]
  constructor
  · rintro ⟨⟨hne, hdigits, hlt⟩, rfl⟩
    exact ⟨⟨hne, hdigits⟩, rfl, hlt⟩
  · rintro ⟨⟨hne, hdigits⟩, rfl, hlt⟩
    exact ⟨⟨hne, hdigits, hlt⟩, rfl⟩

/-- The parser takes the numerals of the numbers below the bound, whatever zeros stand in front. -/
theorem parseUnsigned_eq_some_iff {bound n : Nat} {text : String} :
    parseUnsigned bound text = some n ↔
      ∃ digits, Numeral text.toList digits ∧ readDigits 10 digits 0 = n ∧ n < bound := by
  unfold parseUnsigned
  dsimp only
  split
  · rename_i digits heq
    rw [readBelow_eq_some_iff, heq]
    constructor
    · rintro ⟨⟨hne, hdigits⟩, hn⟩
      exact ⟨digits, ⟨Or.inr rfl, hne, hdigits⟩, hn⟩
    · rintro ⟨digits', ⟨hspelled, hne, hdigits⟩, hn⟩
      rcases hspelled with rfl | hplus
      · -- A plus sign is no digit.
        have hdigit := hdigits '+' (by simp)
        cases hdigit
      · rcases (List.cons.inj hplus).2 with rfl
        exact ⟨⟨hne, hdigits⟩, hn⟩
  · rename_i hplain
    rw [readBelow_eq_some_iff]
    constructor
    · rintro ⟨⟨hne, hdigits⟩, hn⟩
      exact ⟨text.toList, ⟨Or.inl rfl, hne, hdigits⟩, hn⟩
    · rintro ⟨digits, ⟨hspelled, hne, hdigits⟩, hn⟩
      rcases hspelled with rfl | hplus
      · exact ⟨⟨hne, hdigits⟩, hn⟩
      · exact absurd hplus (hplain digits)

/-- The characters of a numeral take one byte each. -/
theorem Numeral.utf8ByteSize {text : String} {digits : List Char}
    (h : Numeral text.toList digits) : text.utf8ByteSize = text.toList.length := by
  have hone : ∀ c : Char, c.isDigit = true ∨ c = '+' → c.utf8Size = 1 := by
    rintro c (hdigit | rfl)
    · rw [Char.isDigit_iff_toNat] at hdigit
      rw [Char.utf8Size_eq_one_iff, UInt32.le_iff_toNat_le]
      exact hdigit.2.trans (by decide)
    · rfl
  have hall : ∀ c ∈ text.toList, c.utf8Size = 1 := by
    intro c hc
    rcases h.spelled with heq | heq
    · exact hone c (Or.inl (h.isDigit c (heq ▸ hc)))
    · rw [heq, List.mem_cons] at hc
      exact hone c (hc.symm.imp_left (h.isDigit c))
  have hlen : ∀ cs : List Char, (∀ c ∈ cs, c.utf8Size = 1) →
      (String.ofList cs).utf8ByteSize = cs.length := by
    intro cs
    induction cs with
    | nil => exact fun _ => rfl
    | cons c cs ih =>
        intro hcs
        rcases List.forall_mem_cons.1 hcs with ⟨hc, hcs⟩
        rw [String.ofList_cons, String.utf8ByteSize_append, String.utf8ByteSize_singleton, hc,
          ih hcs, List.length_cons, Nat.add_comm]
  rw [← hlen text.toList hall, String.ofList_toList]

end Lib
end Falkr
