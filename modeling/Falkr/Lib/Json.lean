import Falkr.Lib.SortedMap
import Mathlib.Data.List.Induction
import Mathlib.Data.String.Basic

/-!
# Json — JSON values

The fields of an object stand in key order.  A number is kept as the text it is written as.
-/

namespace Falkr
namespace Lib

inductive Json
  | null
  | bool (b : Bool)
  | number (text : String)
  | string (s : String)
  | array (items : List Json)
  | object (fields : List (String × Json))

namespace Json

/-- The value under a key of an object. -/
def get (self : Json) (key : String) : Option Json :=
  match self with
  | object fields => SortedMap.lookup key fields
  | _ => none

def asStr : Json → Option String
  | string s => some s
  | _ => none

def asObject : Json → Option (List (String × Json))
  | object fields => some fields
  | _ => none

/-- Writes all fields of the second object into the first. -/
def extend (fields more : List (String × Json)) : List (String × Json) :=
  more.foldl (fun fields entry => SortedMap.insertEntry entry.1 entry.2 fields) fields

theorem pairwise_extend :
    ∀ {more fields : List (String × Json)}, fields.Pairwise (fun a b => a.1 < b.1) →
      (extend fields more).Pairwise fun a b => a.1 < b.1 := by
  intro more
  induction more with
  | nil => exact fun h => h
  | cons entry more ih =>
      intro fields h
      exact ih (SortedMap.pairwise_insertEntry entry.1 entry.2 h)

theorem mem_extend :
    ∀ {more fields : List (String × Json)} {field : String × Json},
      field ∈ extend fields more → field ∈ fields ∨ field ∈ more := by
  intro more
  induction more with
  | nil => exact fun h => Or.inl h
  | cons entry more ih =>
      intro fields field h
      rcases ih h with hmem | hmem
      · rcases SortedMap.mem_insertEntry hmem with rfl | hold
        · exact Or.inr (by simp)
        · exact Or.inl hold
      · exact Or.inr (List.mem_cons_of_mem _ hmem)

/-- A field is found under its key if no other value is written there. -/
theorem lookup_extend_of_mem {key : String} {value : Json} (fields : List (String × Json))
    {more : List (String × Json)} (hmem : (key, value) ∈ more)
    (hunique : ∀ other, (key, other) ∈ more → other = value) :
    SortedMap.lookup key (extend fields more) = some value := by
  induction more using List.reverseRecOn with
  | nil => cases hmem
  | append_singleton more entry ih =>
      have hlast : extend fields (more ++ [entry]) =
          SortedMap.insertEntry entry.1 entry.2 (extend fields more) := by
        rw [extend, List.foldl_append]
        rfl
      rw [hlast, SortedMap.lookup_insertEntry]
      by_cases hkey : key = entry.1
      · have hvalue := hunique entry.2 (hkey ▸ List.mem_append_right _ (List.mem_singleton.2 rfl))
        rw [if_pos hkey, hvalue]
      · rw [if_neg hkey]
        apply ih
        · rcases List.mem_append.1 hmem with hmore | hentry
          · exact hmore
          · exact absurd (congrArg Prod.fst (List.mem_singleton.1 hentry)) hkey
        · exact fun other hother => hunique other (List.mem_append_left _ hother)

/-- An object is determined by what its keys give. -/
theorem fields_eq_of_get {fields fields' : List (String × Json)}
    (hsorted : fields.Pairwise fun a b => a.1 < b.1)
    (hsorted' : fields'.Pairwise fun a b => a.1 < b.1)
    (h : ∀ key, (object fields).get key = (object fields').get key) : fields = fields' := by
  have hmap : (⟨fields, hsorted⟩ : SortedMap String Json) = ⟨fields', hsorted'⟩ :=
    SortedMap.ext_get? h
  exact congrArg SortedMap.entries hmap

mutual

/-- Whether some property holds of every text in a value, keys included. -/
def allTexts (P : String → Bool) : Json → Bool
  | null => true
  | bool _ => true
  | number _ => true
  | string s => P s
  | array items => allTextsOfItems P items
  | object fields => allTextsOfFields P fields

def allTextsOfItems (P : String → Bool) : List Json → Bool
  | [] => true
  | item :: items => allTexts P item && allTextsOfItems P items

def allTextsOfFields (P : String → Bool) : List (String × Json) → Bool
  | [] => true
  | (key, value) :: fields => P key && allTexts P value && allTextsOfFields P fields

end

mutual

/-- Writes every number in another way. -/
def mapNumbers (f : String → String) : Json → Json
  | null => null
  | bool b => bool b
  | number text => number (f text)
  | string s => string s
  | array items => array (mapNumbersOfItems f items)
  | object fields => object (mapNumbersOfFields f fields)

def mapNumbersOfItems (f : String → String) : List Json → List Json
  | [] => []
  | item :: items => mapNumbers f item :: mapNumbersOfItems f items

def mapNumbersOfFields (f : String → String) : List (String × Json) → List (String × Json)
  | [] => []
  | (key, value) :: fields => (key, mapNumbers f value) :: mapNumbersOfFields f fields

end

mutual

/-- Whether some property holds of every number in a value. -/
def AllNumbers (P : String → Prop) : Json → Prop
  | null => True
  | bool _ => True
  | number text => P text
  | string _ => True
  | array items => AllNumbersOfItems P items
  | object fields => AllNumbersOfFields P fields

def AllNumbersOfItems (P : String → Prop) : List Json → Prop
  | [] => True
  | item :: items => AllNumbers P item ∧ AllNumbersOfItems P items

def AllNumbersOfFields (P : String → Prop) : List (String × Json) → Prop
  | [] => True
  | (_, value) :: fields => AllNumbers P value ∧ AllNumbersOfFields P fields

end

mutual

theorem allNumbers_of_forall {P : String → Prop} (h : ∀ text, P text) :
    ∀ value : Json, AllNumbers P value
  | null => trivial
  | bool _ => trivial
  | number text => h text
  | string _ => trivial
  | array items => allNumbersOfItems_of_forall h items
  | object fields => allNumbersOfFields_of_forall h fields

theorem allNumbersOfItems_of_forall {P : String → Prop} (h : ∀ text, P text) :
    ∀ items : List Json, AllNumbersOfItems P items
  | [] => trivial
  | item :: items => ⟨allNumbers_of_forall h item, allNumbersOfItems_of_forall h items⟩

theorem allNumbersOfFields_of_forall {P : String → Prop} (h : ∀ text, P text) :
    ∀ fields : List (String × Json), AllNumbersOfFields P fields
  | [] => trivial
  | (_, value) :: fields => ⟨allNumbers_of_forall h value, allNumbersOfFields_of_forall h fields⟩

end

mutual

/-- A value stays as it is exactly if every number of it does. -/
theorem mapNumbers_eq_iff (f : String → String) :
    ∀ value : Json, mapNumbers f value = value ↔ AllNumbers (fun text => f text = text) value
  | null => by simp [mapNumbers, AllNumbers]
  | bool _ => by simp [mapNumbers, AllNumbers]
  | number _ => by simp [mapNumbers, AllNumbers]
  | string _ => by simp [mapNumbers, AllNumbers]
  | array items => by simp [mapNumbers, AllNumbers, mapNumbersOfItems_eq_iff f items]
  | object fields => by simp [mapNumbers, AllNumbers, mapNumbersOfFields_eq_iff f fields]

theorem mapNumbersOfItems_eq_iff (f : String → String) :
    ∀ items : List Json, mapNumbersOfItems f items = items ↔
      AllNumbersOfItems (fun text => f text = text) items
  | [] => by simp [mapNumbersOfItems, AllNumbersOfItems]
  | item :: items => by
      simp [mapNumbersOfItems, AllNumbersOfItems, mapNumbers_eq_iff f item,
        mapNumbersOfItems_eq_iff f items]

theorem mapNumbersOfFields_eq_iff (f : String → String) :
    ∀ fields : List (String × Json), mapNumbersOfFields f fields = fields ↔
      AllNumbersOfFields (fun text => f text = text) fields
  | [] => by simp [mapNumbersOfFields, AllNumbersOfFields]
  | (_, value) :: fields => by
      simp [mapNumbersOfFields, AllNumbersOfFields, mapNumbers_eq_iff f value,
        mapNumbersOfFields_eq_iff f fields]

end

end Json

end Lib
end Falkr
