import Mathlib.Data.List.Induction

/-!
# Registers — writes under keys, told apart by a tag

A table that is upserted into holds one register a key.  A write whose tag the register holds
already is suppressed; another one replaces the value.  What a register holds and what becomes of a
write depend on the writes under its key alone (`register`, `verdict`), and the tag is always that
of the last of them (`tag_register`).
-/

namespace Falkr
namespace Lib

section Registers

variable {κ τ ν : Type} [DecidableEq κ] [DecidableEq τ]

/-- What becomes of a write. -/
inductive Verdict
  | new
  | changed
  | same
  deriving DecidableEq, Repr

/-- A register after a write. -/
def settle (tag : ν → τ) (held : Option ν) (value : ν) : Option ν :=
  match held with
  | none => some value
  | some old => if tag old = tag value then some old else some value

/-- The writes under one key. -/
def writesTo (key : ν → κ) (k : κ) (writes : List ν) : List ν :=
  writes.filter fun value => key value = k

/-- What the register of a key holds after a list of writes. -/
def register (key : ν → κ) (tag : ν → τ) (k : κ) (writes : List ν) : Option ν :=
  (writesTo key k writes).foldl (settle tag) none

/-- What becomes of a write after others: the last one under its key decides. -/
def verdict (key : ν → κ) (tag : ν → τ) (earlier : List ν) (value : ν) : Verdict :=
  match (writesTo key (key value) earlier).getLast? with
  | none => .new
  | some last => if tag last = tag value then .same else .changed

/-- What becomes of each of a list of writes. -/
def verdicts (key : ν → κ) (tag : ν → τ) : List ν → List ν → List Verdict
  | _, [] => []
  | earlier, value :: rest =>
      verdict key tag earlier value :: verdicts key tag (earlier ++ [value]) rest

variable {key : ν → κ} {tag : ν → τ} {k : κ} {writes : List ν}

/-! ## The writes under a key -/

@[simp] theorem writesTo_nil : writesTo key k ([] : List ν) = [] := rfl

theorem writesTo_append (first second : List ν) :
    writesTo key k (first ++ second) = writesTo key k first ++ writesTo key k second :=
  List.filter_append ..

theorem writesTo_singleton (value : ν) :
    writesTo key k [value] = if key value = k then [value] else [] := by
  by_cases h : key value = k <;> simp [writesTo, h]

theorem mem_writesTo {value : ν} :
    value ∈ writesTo key k writes ↔ value ∈ writes ∧ key value = k := by
  simp [writesTo]

/-! ## One register -/

@[simp] theorem settle_none (value : ν) : settle tag none value = some value := rfl

/-- A register holds the tag of the last write, and a value that was written or was there. -/
theorem settle_some (tag : ν → τ) (old value : ν) :
    settle tag (some old) value = some old ∧ tag old = tag value ∨
      settle tag (some old) value = some value ∧ tag old ≠ tag value := by
  by_cases h : tag old = tag value
  · exact Or.inl ⟨by simp [settle, h], h⟩
  · exact Or.inr ⟨by simp [settle, h], h⟩

theorem map_tag_settle (held : Option ν) (value : ν) :
    (settle tag held value).map tag = some (tag value) := by
  cases held with
  | none => rfl
  | some old =>
      rcases settle_some tag old value with ⟨h, htag⟩ | ⟨h, -⟩
      · rw [h, Option.map_some, htag]
      · rw [h, Option.map_some]

theorem register_append_singleton (writes : List ν) (value : ν) :
    register key tag k (writes ++ [value]) =
      if key value = k then settle tag (register key tag k writes) value
      else register key tag k writes := by
  by_cases h : key value = k <;> simp [register, writesTo_append, writesTo_singleton, h]

/-- The tag that a register holds is that of the last write under its key. -/
theorem tag_register (key : ν → κ) (tag : ν → τ) (k : κ) (writes : List ν) :
    (register key tag k writes).map tag = (writesTo key k writes).getLast?.map tag := by
  -- A write settles on what the earlier ones left, so the induction is from the back.
  induction writes using List.reverseRecOn with
  | nil => rfl
  | append_singleton writes value ih =>
      rw [register_append_singleton, writesTo_append, writesTo_singleton]
      by_cases h : key value = k
      · simp [h, map_tag_settle]
      · simpa [h] using ih

theorem register_eq_none_iff (tag : ν → τ) :
    register key tag k writes = none ↔ ∀ value ∈ writes, key value ≠ k := by
  have htag := tag_register key tag k writes
  constructor
  · intro h value hmem heq
    rw [h, Option.map_none, eq_comm, Option.map_eq_none_iff, List.getLast?_eq_none_iff] at htag
    exact List.not_mem_nil (htag ▸ mem_writesTo.2 ⟨hmem, heq⟩)
  · intro h
    have hnone : writesTo key k writes = [] := by
      simpa [writesTo, List.filter_eq_nil_iff] using h
    rw [register, hnone]
    rfl

theorem mem_of_register {value : ν} : ∀ {writes : List ν},
    register key tag k writes = some value → value ∈ writes ∧ key value = k := by
  intro writes
  induction writes using List.reverseRecOn generalizing value with
  | nil =>
      intro h
      cases h
  | append_singleton writes last ih =>
      intro h
      rw [register_append_singleton] at h
      by_cases hlast : key last = k
      · rw [if_pos hlast] at h
        cases hheld : register key tag k writes with
        | none =>
            rw [hheld, settle_none] at h
            cases h
            exact ⟨by simp, hlast⟩
        | some old =>
            -- A suppressed write leaves an earlier one in the register.
            rcases settle_some tag old last with ⟨hsettle, -⟩ | ⟨hsettle, -⟩
            · rw [hheld, hsettle] at h
              rcases ih (hheld.trans h) with ⟨hmem, hkey⟩
              exact ⟨List.mem_append_left _ hmem, hkey⟩
            · rw [hheld, hsettle] at h
              cases h
              exact ⟨by simp, hlast⟩
      · rw [if_neg hlast] at h
        rcases ih h with ⟨hmem, hkey⟩
        exact ⟨List.mem_append_left _ hmem, hkey⟩

/-- A write is new exactly if its register is empty, and changes it exactly if the tags differ. -/
theorem verdict_eq (key : ν → κ) (tag : ν → τ) (earlier : List ν) (value : ν) :
    verdict key tag earlier value =
      match register key tag (key value) earlier with
      | none => .new
      | some old => if tag old = tag value then .same else .changed := by
  -- The register may hold an older value than the last write, but never another tag.
  have htag := tag_register key tag (key value) earlier
  unfold verdict
  cases hlast : (writesTo key (key value) earlier).getLast? with
  | none =>
      rw [hlast, Option.map_none, Option.map_eq_none_iff] at htag
      rw [htag]
  | some last =>
      rw [hlast, Option.map_some] at htag
      rcases Option.map_eq_some_iff.1 htag with ⟨old, hold, heq⟩
      rw [hold]
      simp only [heq]

/-! ## Counts -/

theorem verdicts_append (first second : List ν) :
    ∀ earlier : List ν, verdicts key tag earlier (first ++ second) =
      verdicts key tag earlier first ++ verdicts key tag (earlier ++ first) second := by
  induction first with
  | nil =>
      intro earlier
      simp [verdicts]
  | cons value rest ih =>
      intro earlier
      simp [verdicts, ih]

end Registers

end Lib
end Falkr
