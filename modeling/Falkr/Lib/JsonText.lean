import Falkr.Lib.Json

/-!
# JsonText — the compact text of a JSON value

No white space, the fields of an object in the order in which they stand, and an escape for the
quotation mark, the backslash and the control characters.  A text determines the object of strings
it was written from (`compact_object_injective`): an escape is read back without looking past its
end, and no escape begins with the quotation mark that ends a string.
-/

namespace Falkr
namespace Lib
namespace Json

/-! ## Strings -/

/-- A character as it stands inside a JSON string. -/
def escape (c : Char) : List Char :=
  if c = '\"' then ['\\', '\"']
  else if c = '\\' then ['\\', '\\']
  else if c = '\x08' then ['\\', 'b']
  else if c = '\x0c' then ['\\', 'f']
  else if c = '\n' then ['\\', 'n']
  else if c = '\r' then ['\\', 'r']
  else if c = '\t' then ['\\', 't']
  else if c.toNat < 32 then
    ['\\', 'u', '0', '0', Nat.digitChar (c.toNat / 16), Nat.digitChar (c.toNat % 16)]
  else [c]

/-- The characters between the quotation marks. -/
def escapeAll (cs : List Char) : List Char :=
  cs.flatMap escape

def quote (s : String) : List Char :=
  '\"' :: escapeAll s.toList ++ ['\"']

/-- The value of a hexadecimal digit in lower case. -/
def hexValue (c : Char) : Nat :=
  if c.isDigit then c.toNat - 48 else c.toNat - 87

/-- Reads one character back. -/
def unescape : List Char → Option (Char × List Char)
  | '\\' :: 'u' :: _ :: _ :: a :: b :: rest =>
      some (Char.ofNat (16 * hexValue a + hexValue b), rest)
  | '\\' :: 'b' :: rest => some ('\x08', rest)
  | '\\' :: 'f' :: rest => some ('\x0c', rest)
  | '\\' :: 'n' :: rest => some ('\n', rest)
  | '\\' :: 'r' :: rest => some ('\r', rest)
  | '\\' :: 't' :: rest => some ('\t', rest)
  | '\\' :: c :: rest => some (c, rest)
  | c :: rest => some (c, rest)
  | [] => none

theorem hexValue_digitChar : ∀ n < 16, hexValue (Nat.digitChar n) = n := by
  decide

theorem unescape_escape (c : Char) (rest : List Char) :
    unescape (escape c ++ rest) = some (c, rest) := by
  unfold escape
  split_ifs with h₁ h₂ h₃ h₄ h₅ h₆ h₇ h₈
  · simp [unescape, h₁]
  · simp [unescape, h₂]
  · simp [unescape, h₃]
  · simp [unescape, h₄]
  · simp [unescape, h₅]
  · simp [unescape, h₆]
  · simp [unescape, h₇]
  · have hvalue : 16 * (c.toNat / 16) + c.toNat % 16 = c.toNat := by omega
    simp [unescape, hexValue_digitChar (c.toNat / 16) (by omega),
      hexValue_digitChar (c.toNat % 16) (by omega), hvalue, Char.ofNat_toNat]
  · rw [List.singleton_append, unescape.eq_def]
    split <;> simp_all

/-- No character inside a string is written with a quotation mark in front. -/
theorem escape_head (c : Char) : ∃ d rest, escape c = d :: rest ∧ d ≠ '\"' := by
  unfold escape
  split_ifs with h₁ <;> first | exact ⟨_, _, rfl, by decide⟩ | exact ⟨_, _, rfl, h₁⟩

theorem escapeAll_injective :
    ∀ {cs cs' rest rest' : List Char},
      escapeAll cs ++ '\"' :: rest = escapeAll cs' ++ '\"' :: rest' → cs = cs' ∧ rest = rest' := by
  intro cs
  induction cs with
  | nil =>
      intro cs' rest rest' h
      cases cs' with
      | nil => simpa [escapeAll] using h
      | cons c' cs' =>
          rcases escape_head c' with ⟨d, tail, hescape, hne⟩
          have hhead : '\"' = d := by
            simp only [escapeAll, List.flatMap_nil, List.nil_append, List.flatMap_cons, hescape,
              List.cons_append, List.cons.injEq] at h
            exact h.1
          exact absurd hhead.symm hne
  | cons c cs ih =>
      intro cs' rest rest' h
      cases cs' with
      | nil =>
          rcases escape_head c with ⟨d, tail, hescape, hne⟩
          have hhead : d = '\"' := by
            simp only [escapeAll, List.flatMap_nil, List.nil_append, List.flatMap_cons, hescape,
              List.cons_append, List.cons.injEq] at h
            exact h.1
          exact absurd hhead hne
      | cons c' cs' =>
          have hread := congrArg unescape h
          simp only [escapeAll, List.flatMap_cons, List.append_assoc, unescape_escape,
            Option.some.injEq, Prod.mk.injEq] at hread
          rcases ih hread.2 with ⟨hcs, hrest⟩
          exact ⟨by rw [hread.1, hcs], hrest⟩

/-- A string literal ends where it says. -/
theorem quote_injective {s s' : String} {rest rest' : List Char}
    (h : quote s ++ rest = quote s' ++ rest') : s = s' ∧ rest = rest' := by
  simp only [quote, List.cons_append, List.append_assoc, List.cons.injEq, true_and] at h
  rcases escapeAll_injective h with ⟨htext, hrest⟩
  exact ⟨String.toList_inj.1 htext, hrest⟩

/-! ## Values -/

mutual

def chars : Json → List Char
  | null => ['n', 'u', 'l', 'l']
  | bool true => ['t', 'r', 'u', 'e']
  | bool false => ['f', 'a', 'l', 's', 'e']
  | number text => text.toList
  | string s => quote s
  | array [] => ['[', ']']
  | array (item :: items) => '[' :: chars item ++ charsOfItems items
  | object [] => ['\x7b', '\x7d']
  | object ((key, value) :: fields) =>
      '\x7b' :: quote key ++ ':' :: chars value ++ charsOfFields fields

/-- What follows the first item of an array. -/
def charsOfItems : List Json → List Char
  | [] => [']']
  | item :: items => ',' :: chars item ++ charsOfItems items

/-- What follows the first field of an object. -/
def charsOfFields : List (String × Json) → List Char
  | [] => ['\x7d']
  | (key, value) :: fields => ',' :: quote key ++ ':' :: chars value ++ charsOfFields fields

end

/-- The compact text of a value. -/
def compact (self : Json) : String :=
  String.ofList self.chars

/-- The values of the fields are strings. -/
def Flat (fields : List (String × Json)) : Prop :=
  ∀ field ∈ fields, ∃ s, field.2 = string s

theorem charsOfFields_injective :
    ∀ {fields fields' : List (String × Json)}, Flat fields → Flat fields' →
      charsOfFields fields = charsOfFields fields' → fields = fields' := by
  intro fields
  induction fields with
  | nil =>
      intro fields' _ _ h
      cases fields' with
      | nil => rfl
      | cons field fields' => simp [charsOfFields] at h
  | cons field fields ih =>
      intro fields' hflat hflat' h
      cases fields' with
      | nil => simp [charsOfFields] at h
      | cons field' fields' =>
          rcases field with ⟨key, value⟩
          rcases field' with ⟨key', value'⟩
          rcases List.forall_mem_cons.1 hflat with ⟨⟨s, rfl⟩, hrest⟩
          rcases List.forall_mem_cons.1 hflat' with ⟨⟨s', rfl⟩, hrest'⟩
          simp only [charsOfFields, chars, List.cons_append, List.append_assoc, List.cons.injEq,
            true_and] at h
          rcases quote_injective h with ⟨hkey, htail⟩
          rcases quote_injective (List.cons.inj htail).2 with ⟨hvalue, hmore⟩
          rw [hkey, hvalue, ih hrest hrest' hmore]

/-- The text of an object of strings determines it. -/
theorem compact_object_injective {fields fields' : List (String × Json)} (hflat : Flat fields)
    (hflat' : Flat fields') (h : compact (object fields) = compact (object fields')) :
    fields = fields' := by
  have hchars : chars (object fields) = chars (object fields') := String.ofList_injective h
  cases fields with
  | nil =>
      cases fields' with
      | nil => rfl
      | cons field' fields' => simp [chars, quote] at hchars
  | cons field fields =>
      cases fields' with
      | nil => simp [chars, quote] at hchars
      | cons field' fields' =>
          -- Past the opening brace the rest reads like the fields that follow a first one.
          refine charsOfFields_injective hflat hflat' ?_
          simp only [chars, List.cons_append, List.cons.injEq, true_and] at hchars
          simp only [charsOfFields, List.cons_append, hchars]

end Json

end Lib
end Falkr
