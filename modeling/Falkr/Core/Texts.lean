import Falkr.Core.Decimal
import Falkr.Core.Ids
import Falkr.Lib.Calendar
import Falkr.Lib.Digits
import Mathlib.Algebra.Order.Group.Unbundled.Int

/-!
# Texts — decimals, identifiers and times as text

How the number, identifier and time types are written, and for each a reader of the texts written
so.  The readers of the libraries accept more; what a reader of canonical texts shows is that the
text tells the value.
-/

namespace Falkr

open Lib

/-! ## Decimals -/

namespace Decimal

def chars (d : Decimal) : List Char :=
  (if d.mantissa < 0 then ['-'] else []) ++
    (padded 10 1 (d.mantissa.natAbs / 10 ^ d.scale) ++
      if d.scale = 0 then [] else '.' :: padded 10 d.scale (d.mantissa.natAbs % 10 ^ d.scale))

/-- The decimal digits, as many after the point as the scale says. -/
def display (d : Decimal) : String :=
  String.ofList d.chars

def ofParts (negative : Bool) (magnitude scale : Nat) : Option Decimal :=
  if h : magnitude < mantissaBound ∧ scale ≤ maxScale then
    some
      { mantissa := if negative then -magnitude else magnitude
        scale := scale
        mantissa_lt := by split_ifs <;> simpa using h.1
        scale_le := h.2 }
  else none

/-- Reads digits with a point among them. -/
def readUnsigned (negative : Bool) (cs : List Char) : Option Decimal :=
  match takeDigits cs with
  | (whole, []) => ofParts negative (readDigits 10 whole 0) 0
  | (whole, point :: fraction) =>
      if point = '.' then ofParts negative (readDigits 10 (whole ++ fraction) 0) fraction.length
      else none

def read (text : String) : Option Decimal :=
  let (negative, cs) := takeSign text.toList
  readUnsigned negative cs

theorem ofParts_eq (d : Decimal) :
    ofParts (d.mantissa < 0) d.mantissa.natAbs d.scale = some d := by
  have hmantissa : (if d.mantissa < 0 then -(d.mantissa.natAbs : Int) else d.mantissa.natAbs) =
      d.mantissa := by
    split_ifs <;> omega
  have hfits : d.mantissa.natAbs < mantissaBound ∧ d.scale ≤ maxScale :=
    ⟨d.mantissa_lt, d.scale_le⟩
  simp only [ofParts, hfits, and_self, dif_pos, decide_eq_true_eq, hmantissa]

theorem readUnsigned_chars (negative : Bool) (magnitude scale : Nat) :
    readUnsigned negative (padded 10 1 (magnitude / 10 ^ scale) ++
        if scale = 0 then [] else '.' :: padded 10 scale (magnitude % 10 ^ scale)) =
      ofParts negative magnitude scale := by
  by_cases hscale : scale = 0
  · subst hscale
    have htake : takeDigits (padded 10 1 (magnitude / 10 ^ 0) ++ []) =
        (padded 10 1 (magnitude / 10 ^ 0), []) :=
      takeDigits_append (fun _ => isDigit_of_mem_padded) (by simp)
    rw [if_pos rfl, readUnsigned, htake]
    simp [readDigits_padded]
  -- The digits after the point are as many as the scale, zeros included, so the digits on both
  -- sides of it read as one number.
  · have hlength := length_padded (by omega : 1 < 10) (Nat.pos_of_ne_zero hscale)
      (Nat.mod_lt magnitude (by positivity : 0 < 10 ^ scale))
    have hdigits : readDigits 10 (padded 10 1 (magnitude / 10 ^ scale) ++
        padded 10 scale (magnitude % 10 ^ scale)) 0 = magnitude := by
      rw [readDigits_append, hlength, readDigits_padded (by omega) (by omega),
        readDigits_padded (by omega) (by omega), Nat.mul_comm, Nat.div_add_mod]
    rw [if_neg hscale, readUnsigned, takeDigits_padded _ _ _ (by rfl)]
    simp only [if_true, hdigits, hlength]

theorem read_display (d : Decimal) : read d.display = some d := by
  have hsign : takeSign d.display.toList = (decide (d.mantissa < 0),
      padded 10 1 (d.mantissa.natAbs / 10 ^ d.scale) ++
        if d.scale = 0 then []
        else '.' :: padded 10 d.scale (d.mantissa.natAbs % 10 ^ d.scale)) := by
    rw [display, String.toList_ofList, chars]
    by_cases hneg : d.mantissa < 0
    · simp only [hneg, if_true, decide_true]
      rfl
    · simp only [hneg, if_false, decide_false, List.nil_append]
      exact takeSign_padded _ _ _
  rw [read, hsign]
  exact (readUnsigned_chars _ _ _).trans (ofParts_eq d)

end Decimal

/-! ## Identifiers -/

namespace Uuid

/-- Reads the digits between the hyphens of an identifier, and refuses whatever is not written as
one. -/
def read (text : String) : Option Uuid :=
  let value := readDigits 16 (text.toList.filter fun c => c ≠ '-') 0
  if h : value < 2 ^ 128 ∧ hyphenated (Fin.ofNat (2 ^ 128) value) = text then some ⟨value, h.1⟩
  else none

/-- Five groups make up thirty-two digits. -/
theorem groups_append {digits : List Char} (h : digits.length = 32) :
    (digits.drop 0).take 8 ++ ((digits.drop 8).take 4 ++ ((digits.drop 12).take 4 ++
      ((digits.drop 16).take 4 ++ (digits.drop 20).take 12))) = digits := by
  have hlast : (digits.drop 20).take 12 = digits.drop 20 :=
    List.take_of_length_le (by simp [h])
  have hstep : ∀ n k, (digits.drop n).take k ++ digits.drop (n + k) = digits.drop n := by
    intro n k
    rw [← List.drop_drop]
    exact List.take_append_drop k _
  rw [hlast, hstep 16 4, hstep 12 4, hstep 8 4, hstep 0 8, List.drop_zero]

theorem ne_hyphen_of_mem_padded {width n : Nat} {c : Char} (h : c ∈ padded 16 width n) :
    c ≠ '-' := by
  rcases List.mem_append.1 h with hzero | hdigit
  · rw [List.eq_of_mem_replicate hzero]
    decide
  · rcases mem_toDigits (by omega) n c hdigit with ⟨d, hd, rfl⟩
    have hall : ∀ d < 16, Nat.digitChar d ≠ '-' := by decide
    exact hall d hd

theorem filter_hyphenated (id : Uuid) :
    id.hyphenated.toList.filter (fun c => c ≠ '-') = padded 16 32 id.val := by
  have hlength : (padded 16 32 id.val).length = 32 :=
    length_padded (by omega) (by omega) (lt_of_lt_of_eq id.isLt (by norm_num))
  have hgroup : ∀ n k, (((padded 16 32 id.val).drop n).take k).filter (fun c => c ≠ '-') =
      ((padded 16 32 id.val).drop n).take k := by
    intro n k
    apply List.filter_eq_self.2
    intro c hmem
    have hne := ne_hyphen_of_mem_padded (List.mem_of_mem_drop (List.mem_of_mem_take hmem))
    simpa using hne
  have htext : id.hyphenated.toList.filter (fun c => c ≠ '-') =
      ((padded 16 32 id.val).drop 0).take 8 ++ (((padded 16 32 id.val).drop 8).take 4 ++
        (((padded 16 32 id.val).drop 12).take 4 ++ (((padded 16 32 id.val).drop 16).take 4 ++
          ((padded 16 32 id.val).drop 20).take 12))) := by
    rw [← hgroup 0 8, ← hgroup 8 4, ← hgroup 12 4, ← hgroup 16 4, ← hgroup 20 12]
    simp [Uuid.hyphenated, padded]
  rw [htext, groups_append hlength]

theorem read_hyphenated (id : Uuid) : read id.hyphenated = some id := by
  have hvalue : readDigits 16 (id.hyphenated.toList.filter fun c => c ≠ '-') 0 = id.val := by
    rw [filter_hyphenated, readDigits_padded (by omega) (by omega)]
  have hsame : Fin.ofNat (2 ^ 128) id.val = id := Fin.ext (Nat.mod_eq_of_lt id.isLt)
  simp only [read, hvalue, id.isLt, hsame, and_self, dif_pos]

/-- The last group of an identifier has twelve digits. -/
theorem exists_lastGroup (id : Uuid) :
    ∃ groups last, id.hyphenated.toList = groups ++ '-' :: last ∧ last.length = 12 ∧
      '-' ∉ last := by
  let digits := padded 16 32 id.val
  have hlength : digits.length = 32 :=
    length_padded (by omega) (by omega) (lt_of_lt_of_eq id.isLt (by norm_num))
  have htext : id.hyphenated.toList = (digits.take 8 ++ '-' :: ((digits.drop 8).take 4 ++
      '-' :: ((digits.drop 12).take 4 ++ '-' :: (digits.drop 16).take 4))) ++
        '-' :: (digits.drop 20).take 12 := by
    simp [Uuid.hyphenated, padded, digits]
  refine ⟨_, _, htext, by simp [hlength], fun hmem => ?_⟩
  exact ne_hyphen_of_mem_padded (List.mem_of_mem_drop (List.mem_of_mem_take hmem)) rfl

end Uuid

/-! ## Times -/

namespace DateTimeUtc

/-- A year outside of 0 to 9999 carries its sign. -/
def yearChars (year : Int) : List Char :=
  if 0 ≤ year ∧ year ≤ 9999 then padded 10 4 year.natAbs
  else (if year < 0 then '-' else '+') :: padded 10 4 year.natAbs

/-- A fraction of a second in milliseconds, microseconds or nanoseconds, as it needs. -/
def fractionChars (nanos : Nat) : List Char :=
  if nanos = 0 then []
  else if nanos % 1000000 = 0 then '.' :: padded 10 3 (nanos / 1000000)
  else if nanos % 1000 = 0 then '.' :: padded 10 6 (nanos / 1000)
  else '.' :: padded 10 9 nanos

def dateChars (date : CivilDate) (rest : List Char) : List Char :=
  yearChars date.year ++ '-' :: (padded 10 2 date.month ++ '-' :: (padded 10 2 date.day ++ rest))

def clockChars (second : Nat) (rest : List Char) : List Char :=
  padded 10 2 (second / 3600) ++ ':' :: (padded 10 2 (second / 60 % 60) ++
    ':' :: (padded 10 2 (second % 60) ++ rest))

def day (self : DateTimeUtc) : Int :=
  self.nanos / 86400000000000

def secondOfDay (self : DateTimeUtc) : Nat :=
  (self.nanos / 1000000000 % 86400).toNat

def nanosOfSecond (self : DateTimeUtc) : Nat :=
  (self.nanos % 1000000000).toNat

/-- `to_rfc3339_opts(SecondsFormat::AutoSi, true)`. -/
def toRfc3339 (self : DateTimeUtc) : String :=
  String.ofList (dateChars (civilFromDays self.day) ('T' :: clockChars self.secondOfDay
    (fractionChars self.nanosOfSecond ++ ['Z'])))

def readDate (cs : List Char) : Option (CivilDate × List Char) := do
  let (negative, cs) := takeSign cs
  let (year, cs) := takeNumber cs
  let cs ← expect '-' cs
  let (month, cs) := takeNumber cs
  let cs ← expect '-' cs
  let (day, cs) := takeNumber cs
  pure ({ year := if negative then -year else year, month := month, day := day }, cs)

/-- The second of the day. -/
def readClock (cs : List Char) : Option (Nat × List Char) := do
  let (hour, cs) := takeNumber cs
  let cs ← expect ':' cs
  let (minute, cs) := takeNumber cs
  let cs ← expect ':' cs
  let (second, cs) := takeNumber cs
  pure (hour * 3600 + minute * 60 + second, cs)

/-- The fraction of a second, if one is written, in nanoseconds. -/
def readFraction (cs : List Char) : Option (Nat × List Char) :=
  match cs with
  | [] => none
  | c :: cs =>
      if c = '.' then
        let (digits, cs) := takeDigits cs
        some (readDigits 10 digits 0 * 10 ^ (9 - digits.length), cs)
      else some (0, c :: cs)

def read (text : String) : Option DateTimeUtc := do
  let (date, cs) ← readDate text.toList
  let cs ← expect 'T' cs
  let (second, cs) ← readClock cs
  let (nanos, cs) ← readFraction cs
  let _ ← expect 'Z' cs
  pure ⟨(daysFromCivil date * 86400 + second) * 1000000000 + nanos⟩

theorem readDate_dateChars (date : CivilDate) {c : Char} (rest : List Char)
    (hstop : c.isDigit = false) :
    readDate (dateChars date (c :: rest)) = some (date, c :: rest) := by
  have hsign : takeSign (dateChars date (c :: rest)) = (decide (date.year < 0),
      padded 10 4 date.year.natAbs ++ '-' :: (padded 10 2 date.month ++
        '-' :: (padded 10 2 date.day ++ c :: rest))) := by
    unfold dateChars yearChars
    split_ifs with hshort hneg
    · have hneg : ¬date.year < 0 := by omega
      simp only [hneg, decide_false]
      exact takeSign_padded _ _ _
    · simp only [hneg, decide_true]
      rfl
    · simp only [hneg, decide_false]
      rfl
  have hyear : (if date.year < 0 then -(date.year.natAbs : Int) else date.year.natAbs) =
      date.year := by
    split_ifs <;> omega
  rcases date with ⟨year, month, day⟩
  simp only [readDate, hsign, takeNumber_padded _ _ _ hstop, expect_cons, decide_eq_true_eq,
    takeNumber_padded _ _ _ (show '-'.isDigit = false from rfl), Option.bind_eq_bind,
    Option.bind_some, hyear]
  rfl

theorem readClock_clockChars (second : Nat) {c : Char} (rest : List Char)
    (hstop : c.isDigit = false) :
    readClock (clockChars second (c :: rest)) = some (second, c :: rest) := by
  have hsum : second / 3600 * 3600 + second / 60 % 60 * 60 + second % 60 = second := by omega
  simp only [readClock, clockChars, takeNumber_padded _ _ _ hstop, expect_cons,
    takeNumber_padded _ _ _ (show ':'.isDigit = false from rfl), Option.bind_eq_bind,
    Option.bind_some, hsum]
  rfl

theorem readFraction_point (width n : Nat) {c : Char} (rest : List Char) (hwidth : 0 < width)
    (hn : n < 10 ^ width) (hstop : c.isDigit = false) :
    readFraction ('.' :: padded 10 width n ++ c :: rest) =
      some (n * 10 ^ (9 - width), c :: rest) := by
  simp only [readFraction, List.cons_append, if_true, takeDigits_padded _ _ _ hstop,
    readDigits_padded (by omega : 1 < 10) (by omega : 10 ≤ 16),
    length_padded (by omega : 1 < 10) hwidth hn]

theorem readFraction_fractionChars {nanos : Nat} (h : nanos < 1000000000) {c : Char}
    (rest : List Char) (hstop : c.isDigit = false) (hpoint : c ≠ '.') :
    readFraction (fractionChars nanos ++ c :: rest) = some (nanos, c :: rest) := by
  -- How many digits are written is how far the number read is from nanoseconds.
  unfold fractionChars
  split_ifs with hzero hmilli hmicro
  · simp [readFraction, hpoint, hzero]
  · rw [readFraction_point 3 _ rest (by omega) (by omega) hstop]
    have hback : nanos / 1000000 * 10 ^ (9 - 3) = nanos := by omega
    rw [hback]
  · rw [readFraction_point 6 _ rest (by omega) (by omega) hstop]
    have hback : nanos / 1000 * 10 ^ (9 - 6) = nanos := by omega
    rw [hback]
  · rw [readFraction_point 9 _ rest (by omega) (by omega) hstop]
    simp

/-- The first character of what follows the clock ends its digits. -/
theorem fractionChars_head (nanos : Nat) :
    ∃ c rest, fractionChars nanos ++ ['Z'] = c :: rest ∧ c.isDigit = false := by
  unfold fractionChars
  split_ifs <;> exact ⟨_, _, rfl, rfl⟩

theorem read_toRfc3339 (time : DateTimeUtc) : read time.toRfc3339 = some time := by
  -- Each number is read up to the separator that follows it; after the clock that is the point or
  -- the `Z`.
  rcases fractionChars_head time.nanosOfSecond with ⟨c, rest, hfraction, hstop⟩
  have hclock : readClock (clockChars time.secondOfDay (fractionChars time.nanosOfSecond ++ ['Z'])) =
      some (time.secondOfDay, fractionChars time.nanosOfSecond ++ ['Z']) := by
    rw [hfraction]
    exact readClock_clockChars _ rest hstop
  have hlt : time.nanosOfSecond < 1000000000 := by
    unfold nanosOfSecond
    omega
  have hnanos : (time.day * 86400 + (time.secondOfDay : Int)) * 1000000000 +
      (time.nanosOfSecond : Int) = time.nanos := by
    unfold day secondOfDay nanosOfSecond
    omega
  simp only [read, toRfc3339, String.toList_ofList,
    readDate_dateChars _ _ (show 'T'.isDigit = false from rfl), Option.bind_eq_bind,
    Option.bind_some, expect_cons, hclock,
    readFraction_fractionChars hlt [] (show 'Z'.isDigit = false from rfl) (by decide),
    daysFromCivil_civilFromDays, hnanos]
  rfl

example : toRfc3339 ⟨1785542400250000000⟩ = "2026-08-01T00:00:00.250Z" := by decide +kernel

end DateTimeUtc

end Falkr
