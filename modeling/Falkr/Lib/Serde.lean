import Falkr.Lib.Json
import Falkr.Lib.Returning
import Mathlib.Data.List.Nodup

/-!
# Serde — types with a JSON form

A `Serde` writes every value of a type as a JSON value and reads values back; it is `Lawful` if what
was written is read back.  A record is described field by field (`Fields`): the name of each field,
whether it is written, and what a missing one is read as.  Fields are looked up by name, so their
order in the object does not matter.
-/

namespace Falkr
namespace Lib

structure Serde (α : Type) where
  toValue : α → Json
  fromValue : Json → Except String α

namespace Serde

variable {α β : Type}

/-- What is written is read back. -/
def Lawful (self : Serde α) : Prop :=
  ∀ a, self.fromValue (self.toValue a) = .ok a

/-- No value is written as `null`. -/
def NonNull (self : Serde α) : Prop :=
  ∀ a, self.toValue a ≠ .null

/-! ## Single values -/

def string : Serde String where
  toValue := .string
  fromValue := fun value =>
    match value with
    | .string s => .ok s
    | _ => .error "invalid type, expected a string"

theorem string_lawful : string.Lawful := fun _ => rfl

/-- A type that is written as a text. -/
def text (display : α → String) (fromValue : Json → Except String α) : Serde α where
  toValue := fun a => .string (display a)
  fromValue := fromValue

/-- A wrapper that does not show. -/
def transparent (self : Serde α) (wrap : α → β) (unwrap : β → α) : Serde β where
  toValue := fun b => self.toValue (unwrap b)
  fromValue := fun value => (self.fromValue value).map wrap

theorem Lawful.transparent {self : Serde α} (h : self.Lawful) {wrap : α → β} {unwrap : β → α}
    (hwrap : ∀ b, wrap (unwrap b) = b) : (self.transparent wrap unwrap).Lawful := by
  intro b
  simp only [Serde.transparent, h (unwrap b), Except.map, hwrap]

/-- `Option`: an absent value is `null`. -/
def option (self : Serde α) : Serde (Option α) where
  toValue := fun a =>
    match a with
    | none => .null
    | some a => self.toValue a
  fromValue := fun value =>
    match value with
    | .null => .ok none
    | value => (self.fromValue value).map some

theorem Lawful.option {self : Serde α} (h : self.Lawful) (hnull : self.NonNull) :
    self.option.Lawful := by
  intro a
  cases a with
  | none => rfl
  | some a =>
      -- `null` is taken for an absent value, so the value itself must not be written so.
      have hread : self.option.fromValue (self.toValue a) =
          (self.fromValue (self.toValue a)).map some := by
        cases hvalue : self.toValue a with
        | null => exact absurd hvalue (hnull a)
        | _ => rfl
      exact hread.trans (by rw [h a]; rfl)

/-- `Vec`. -/
def vec (self : Serde α) : Serde (List α) where
  toValue := fun items => .array (items.map self.toValue)
  fromValue := fun value =>
    match value with
    | .array items => items.mapM self.fromValue
    | _ => .error "invalid type, expected a sequence"

theorem Lawful.vec {self : Serde α} (h : self.Lawful) : self.vec.Lawful := by
  intro items
  show (items.map self.toValue).mapM self.fromValue = .ok items
  induction items with
  | nil => rfl
  | cons item items ih =>
      simp only [List.map_cons, List.mapM_cons, h item, ih]
      rfl

/-- The name of a variant among those of its enumeration. -/
def named (name : α → String) (variants : List α) (s : String) : Except String α :=
  match variants.find? fun a => name a = s with
  | some a => .ok a
  | none =>
      .error ("unknown variant `" ++ s ++ "`, expected one of `" ++
        String.intercalate "`, `" (variants.map name) ++ "`")

/-- An enumeration without data: a variant is written as its name. -/
def unitVariants (name : α → String) (variants : List α) : Serde α where
  toValue := fun a => .string (name a)
  fromValue := fun value =>
    match value with
    | .string s => named name variants s
    | .object [(s, .null)] => named name variants s
    | _ => .error "invalid type, expected a variant"

theorem named_eq_ok {name : α → String} (hname : Function.Injective name) {variants : List α}
    {a : α} (h : a ∈ variants) : named name variants (name a) = .ok a := by
  unfold named
  cases hfind : variants.find? fun b => name b = name a with
  | none =>
      have hnone := List.find?_eq_none.1 hfind a h
      simp at hnone
  | some b =>
      have hsame : name b = name a := by simpa using List.find?_some hfind
      rw [hname hsame]

theorem unitVariants_lawful {name : α → String} (hname : Function.Injective name)
    {variants : List α} (hall : ∀ a, a ∈ variants) : (unitVariants name variants).Lawful :=
  fun a => named_eq_ok hname (hall a)

end Serde

/-! ## Records -/

/-- The fields of records of one type, and how a value of another is read from them. -/
structure Fields (σ α : Type) where
  /-- The fields by name, those that are left out without a value. -/
  write : σ → List (String × Option Json)
  read : Json → Except String α

namespace Fields

variable {σ α β : Type}

/-- No fields. -/
def of (a : α) : Fields σ α where
  write := fun _ => []
  read := fun _ => .ok a

/-- A field that is not written where `skip` says so, and `missing` where it is not found. -/
def fieldOr (self : Fields σ (β → α)) (name : String) (serde : Serde β) (get : σ → β)
    (skip : β → Bool) (missing : Except String β) : Fields σ α where
  write := fun s => self.write s ++
    [(name, if skip (get s) then none else some (serde.toValue (get s)))]
  read := fun object => do
    let make ← self.read object
    let b ←
      match object.get name with
      | some value => serde.fromValue value
      | none => missing
    pure (make b)

/-- A required field. -/
def field (self : Fields σ (β → α)) (name : String) (serde : Serde β) (get : σ → β) :
    Fields σ α :=
  self.fieldOr name serde get (fun _ => false) (.error ("missing field `" ++ name ++ "`"))

/-- A field of type `Option`: absent if it is missing. -/
def optionField (self : Fields σ (Option β → α)) (name : String) (serde : Serde β)
    (get : σ → Option β) : Fields σ α :=
  self.fieldOr name serde.option get (fun _ => false) (.ok none)

/-- `#[serde(default, skip_serializing_if = "Vec::is_empty")]`. -/
def vecField (self : Fields σ (List β → α)) (name : String) (serde : Serde β)
    (get : σ → List β) : Fields σ α :=
  self.fieldOr name serde.vec get List.isEmpty (.ok [])

/-- The object of a record. -/
def toObject (self : Fields σ α) (s : σ) : Json :=
  .object (Json.extend [] ((self.write s).filterMap fun field => field.2.map fun v => (field.1, v)))

def fromObject (self : Fields σ α) (value : Json) : Except String α :=
  match value with
  | .object fields => self.read (.object fields)
  | _ => .error "invalid type, expected a struct"

/-- A struct. -/
def struct (self : Fields α α) : Serde α where
  toValue := self.toObject
  fromValue := self.fromObject

/-! ### Reading back -/

/-- From an object that has its fields as written, a record is read as some value. -/
def Reads (self : Fields σ α) (value : σ → α) : Prop :=
  ∀ s object, (∀ field ∈ self.write s, object.get field.1 = field.2) →
    self.read object = .ok (value s)

theorem reads_of (a : α) : (of a : Fields σ α).Reads fun _ => a :=
  fun _ _ _ => rfl

theorem Reads.fieldOr {self : Fields σ (β → α)} {make : σ → β → α} (h : self.Reads make)
    {serde : Serde β} (hserde : serde.Lawful) {skip : β → Bool} {missing : Except String β}
    (hskip : ∀ b, skip b = true → missing = .ok b) (name : String) (get : σ → β) :
    (self.fieldOr name serde get skip missing).Reads fun s => make s (get s) := by
  intro s object hfields
  have hmake : self.read object = .ok (make s) :=
    h s object fun field hmem => hfields field (List.mem_append_left _ hmem)
  have hget := hfields (name, if skip (get s) then none else some (serde.toValue (get s)))
    (List.mem_append_right _ (List.mem_singleton.2 rfl))
  simp only [Fields.fieldOr, hmake, hget]
  cases hwritten : skip (get s) with
  | false =>
      simp only [Bool.false_eq_true, if_false, hserde (get s)]
      rfl
  | true =>
      simp only [if_true, hskip _ hwritten]
      rfl

theorem Reads.field {self : Fields σ (β → α)} {make : σ → β → α} (h : self.Reads make)
    {serde : Serde β} (hserde : serde.Lawful) (name : String) (get : σ → β) :
    (self.field name serde get).Reads fun s => make s (get s) :=
  h.fieldOr hserde (fun _ hskip => by cases hskip) name get

theorem Reads.optionField {self : Fields σ (Option β → α)} {make : σ → Option β → α}
    (h : self.Reads make) {serde : Serde β} (hserde : serde.Lawful) (hnull : serde.NonNull)
    (name : String) (get : σ → Option β) :
    (self.optionField name serde get).Reads fun s => make s (get s) :=
  h.fieldOr (hserde.option hnull) (fun _ hskip => by cases hskip) name get

theorem Reads.vecField {self : Fields σ (List β → α)} {make : σ → List β → α} (h : self.Reads make)
    {serde : Serde β} (hserde : serde.Lawful) (name : String) (get : σ → List β) :
    (self.vecField name serde get).Reads fun s => make s (get s) :=
  h.fieldOr hserde.vec (fun _ hempty => by rw [List.isEmpty_iff.1 hempty]) name get

/-- Fields written under different names are found under them, and no others. -/
theorem get_toObject {self : Fields σ α} {s : σ} (hnames : ((self.write s).map Prod.fst).Nodup) :
    ∀ field ∈ self.write s, (self.toObject s).get field.1 = field.2 := by
  rintro ⟨name, value⟩ hmem
  have hunique : ∀ value', (name, value') ∈ self.write s → value' = value := fun value' hmem' =>
    congrArg Prod.snd (List.inj_on_of_nodup_map hnames hmem' hmem rfl)
  -- A field without a value is left out of the object, one with a value is put there once.
  generalize hwritten : self.write s = written at hnames hmem hunique
  have hpresent : ∀ value', (name, value') ∈ written.filterMap
      (fun field => field.2.map fun v => (field.1, v)) → some value' = value := by
    intro value' hmem'
    rcases List.mem_filterMap.1 hmem' with ⟨⟨name', value''⟩, hfield, hvalue⟩
    rcases Option.map_eq_some_iff.1 hvalue with ⟨v, hv, hpair⟩
    cases hpair
    exact hunique _ (hv ▸ hfield)
  rw [toObject, hwritten]
  cases value with
  | none =>
      show SortedMap.lookup name _ = none
      cases hlookup : SortedMap.lookup name (Json.extend [] (written.filterMap fun field =>
          field.2.map fun v => (field.1, v))) with
      | none => rfl
      | some v =>
          rcases Json.mem_extend (SortedMap.mem_of_lookup_eq_some hlookup) with hnil | hmem'
          · cases hnil
          · exact absurd (hpresent v hmem') (by simp)
  | some v =>
      show SortedMap.lookup name _ = some v
      apply Json.lookup_extend_of_mem
      · exact List.mem_filterMap.2 ⟨(name, some v), hmem, rfl⟩
      · exact fun other hother => Option.some.inj (hpresent other hother)

/-- A record that is written is read back. -/
theorem fromObject_toObject {self : Fields σ α} {value : σ → α} (h : self.Reads value)
    (hnames : ∀ s, ((self.write s).map Prod.fst).Nodup) (s : σ) :
    self.fromObject (self.toObject s) = .ok (value s) :=
  h s _ (get_toObject (hnames s))

theorem struct_lawful {self : Fields α α} (h : self.Reads id)
    (hnames : ∀ a, ((self.write a).map Prod.fst).Nodup) : self.struct.Lawful :=
  fromObject_toObject h hnames

theorem struct_nonNull (self : Fields α α) : self.struct.NonNull := by
  intro a h
  cases h

end Fields
end Lib
end Falkr
