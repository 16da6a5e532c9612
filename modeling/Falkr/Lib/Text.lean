import Mathlib.Data.List.TakeWhile
import Mathlib.Data.String.Basic

/-!
# Text — string operations with their Unicode meaning

Trimming removes every character with the Unicode `White_Space` property; case conversion touches
ASCII letters only.
-/

namespace Falkr
namespace Lib

/-- The Unicode `White_Space` property. -/
def isWhiteSpace (c : Char) : Bool :=
  let n := c.toNat
  (0x09 ≤ n && n ≤ 0x0D) || n == 0x20 || n == 0x85 || n == 0xA0 || n == 0x1680 ||
    (0x2000 ≤ n && n ≤ 0x200A) || n == 0x2028 || n == 0x2029 || n == 0x202F || n == 0x205F ||
    n == 0x3000

/-- The text without leading and trailing white space. -/
def trim (s : String) : String :=
  String.ofList ((s.toList.dropWhile isWhiteSpace).reverse.dropWhile isWhiteSpace).reverse

def asciiUpper (c : Char) : Char :=
  if 'a' ≤ c ∧ c ≤ 'z' then Char.ofNat (c.toNat - 32) else c

def asciiLower (c : Char) : Char :=
  if 'A' ≤ c ∧ c ≤ 'Z' then Char.ofNat (c.toNat + 32) else c

def toAsciiUppercase (s : String) : String :=
  String.ofList (s.toList.map asciiUpper)

def toAsciiLowercase (s : String) : String :=
  String.ofList (s.toList.map asciiLower)

/-! ## Cutting at a character -/

/-- `strip_prefix` of one character. -/
def stripChar (c : Char) (s : String) : Option String :=
  match s.toList with
  | [] => none
  | d :: rest => if d = c then some (String.ofList rest) else none

theorem stripChar_eq_some_iff {c : Char} {s rest : String} :
    stripChar c s = some rest ↔ s.toList = c :: rest.toList := by
  unfold stripChar
  cases hs : s.toList with
  | nil => simp
  | cons d tail =>
      constructor
      · intro h
        rw [Option.ite_none_right_eq_some, Option.some.injEq] at h
        rw [h.1, ← h.2, String.toList_ofList]
      · intro h
        rcases List.cons.inj h with ⟨rfl, rfl⟩
        simp

/-- The text before and the text after the first `sep`. -/
def splitOnce (sep : Char) (s : String) : Option (String × String) :=
  match s.toList.dropWhile (fun c => c ≠ sep) with
  | [] => none
  | _ :: after => some (String.ofList (s.toList.takeWhile fun c => c ≠ sep), String.ofList after)

/-- What was joined by a character is cut there again. -/
theorem splitOnce_append {sep : Char} {before : String} (h : sep ∉ before.toList) (after : String) :
    splitOnce sep (before ++ String.ofList [sep] ++ after) = some (before, after) := by
  have hall : ∀ c ∈ before.toList, decide (c ≠ sep) = true := by
    intro c hc
    have hne : c ≠ sep := fun heq => h (heq ▸ hc)
    simpa using hne
  have hchars : (before ++ String.ofList [sep] ++ after).toList =
      before.toList ++ sep :: after.toList := by
    simp
  have htake : (before.toList ++ sep :: after.toList).takeWhile (fun c => decide (c ≠ sep)) =
      before.toList := by
    rw [List.takeWhile_append_of_pos hall]
    simp
  have hdrop : (before.toList ++ sep :: after.toList).dropWhile (fun c => decide (c ≠ sep)) =
      sep :: after.toList := by
    rw [List.dropWhile_append_of_pos hall]
    simp
  simp only [splitOnce, hchars, htake, hdrop, String.ofList_toList]

theorem splitOnce_eq_none {sep : Char} {s : String} (h : sep ∉ s.toList) :
    splitOnce sep s = none := by
  have hdrop : s.toList.dropWhile (fun c => decide (c ≠ sep)) = [] := by
    refine List.dropWhile_eq_nil_iff.2 fun c hc => ?_
    have hne : c ≠ sep := fun heq => h (heq ▸ hc)
    simpa using hne
  rw [splitOnce, hdrop]

/-- The text is cut at its first separator. -/
theorem splitOnce_eq_some_iff {sep : Char} {s before after : String} :
    splitOnce sep s = some (before, after) ↔
      s.toList = before.toList ++ sep :: after.toList ∧ sep ∉ before.toList := by
  constructor
  · intro h
    unfold splitOnce at h
    split at h
    · cases h
    · rename_i c rest hdrop
      simp only [Option.some.injEq, Prod.mk.injEq] at h
      rcases h with ⟨rfl, rfl⟩
      rw [String.toList_ofList, String.toList_ofList]
      have hsep : c = sep := by
        have hne : s.toList.dropWhile (fun c => decide (c ≠ sep)) ≠ [] := by
          rw [hdrop]
          exact List.cons_ne_nil c rest
        have hhead := List.head_dropWhile_not _ hne
        simp only [hdrop, List.head_cons] at hhead
        simpa using hhead
      refine ⟨?_, fun hmem => by simpa using List.mem_takeWhile_imp hmem⟩
      rw [← hsep, ← hdrop, hsep, List.takeWhile_append_dropWhile]
  · rintro ⟨hs, hsep⟩
    have htext : s = before ++ String.ofList [sep] ++ after := by
      refine String.toList_inj.1 ?_
      rw [hs]
      simp
    rw [htext, splitOnce_append hsep]

/-- There is no separator before the first one. -/
theorem not_mem_of_splitOnce {sep : Char} {s before after : String}
    (h : splitOnce sep s = some (before, after)) : sep ∉ before.toList :=
  (splitOnce_eq_some_iff.1 h).2

theorem not_mem_of_splitOnce_eq_none {sep : Char} {s : String} (h : splitOnce sep s = none) :
    sep ∉ s.toList := by
  unfold splitOnce at h
  split at h
  · rename_i hdrop
    intro hmem
    simpa using List.dropWhile_eq_nil_iff.1 hdrop sep hmem
  · cases h

/-- What follows the last separator of a text is told by the text. -/
theorem eq_of_append_cons_eq {sep : Char} {before before' after after' : List Char}
    (h : sep ∉ after) (h' : sep ∉ after')
    (heq : before ++ sep :: after = before' ++ sep :: after') : after = after' := by
  have hlast : ∀ {before after : List Char}, sep ∉ after →
      (before ++ sep :: after).reverse.takeWhile (fun c => decide (c ≠ sep)) = after.reverse := by
    intro before after hafter
    have hall : ∀ c ∈ after.reverse, decide (c ≠ sep) = true := by
      intro c hc
      have hne : c ≠ sep := fun heq => hafter (heq ▸ List.mem_reverse.1 hc)
      simpa using hne
    rw [List.reverse_append, List.reverse_cons, List.append_assoc,
      List.takeWhile_append_of_pos hall]
    simp
  have hreverse : after.reverse = after'.reverse := by rw [← hlast h, heq, hlast h']
  exact List.reverse_injective hreverse

theorem count_dropWhile_isWhiteSpace {c : Char} (h : isWhiteSpace c = false) (cs : List Char) :
    (cs.dropWhile isWhiteSpace).count c = cs.count c := by
  induction cs with
  | nil => rfl
  | cons d cs ih =>
      by_cases hd : isWhiteSpace d = true
      · have hne : (d == c) = false := by
          refine beq_eq_false_iff_ne.2 ?_
          rintro rfl
          rw [h] at hd
          cases hd
        rw [List.dropWhile_cons_of_pos hd, ih, List.count_cons, hne]
        simp
      · rw [List.dropWhile_cons_of_neg hd]

/-- Trimming drops white space only. -/
theorem count_trim {c : Char} (h : isWhiteSpace c = false) (s : String) :
    (trim s).toList.count c = s.toList.count c := by
  rw [trim, String.toList_ofList, List.count_reverse, count_dropWhile_isWhiteSpace h,
    List.count_reverse, count_dropWhile_isWhiteSpace h]

theorem mem_of_mem_trim {c : Char} {s : String} (h : c ∈ (trim s).toList) : c ∈ s.toList := by
  rw [trim, String.toList_ofList, List.mem_reverse] at h
  have hinner := (List.dropWhile_sublist _).subset h
  exact (List.dropWhile_sublist _).subset (List.mem_reverse.1 hinner)

end Lib
end Falkr
