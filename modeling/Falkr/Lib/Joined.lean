import Mathlib.Data.List.Basic

/-!
# Joined — texts joined by a separator

A text is a row of segments between its separators.  Joining texts by the separator appends their
rows, so two joined texts are equal exactly when the rows are, and the joined parts can be told
apart only if no part holds another number of segments.
-/

namespace Falkr
namespace Lib

section Joined

variable {α : Type} [BEq α] [LawfulBEq α] (sep : α)

/-- The row of segments of several texts. -/
def segmentRow (parts : List (List α)) : List (List α) :=
  parts.flatMap fun part => part.splitOn sep

/-- The same row of segments, spread differently over the parts. -/
def Regrouped (parts parts' : List (List α)) : Prop :=
  segmentRow sep parts = segmentRow sep parts' ∧
    parts.map (fun part => (part.splitOn sep).length) ≠
      parts'.map fun part => (part.splitOn sep).length

instance [DecidableEq α] (parts parts' : List (List α)) : Decidable (Regrouped sep parts parts') :=
  inferInstanceAs (Decidable (_ ∧ _))

theorem splitOn_injective : Function.Injective fun part : List α => part.splitOn sep := by
  intro a b h
  have hjoin := congrArg (fun row => [sep].intercalate row) h
  simpa using hjoin

/-- Joining parts appends their rows. -/
theorem splitOn_joined : ∀ {parts : List (List α)}, parts ≠ [] →
    ([sep].intercalate parts).splitOn sep = segmentRow sep parts := by
  intro parts
  induction parts with
  | nil =>
      intro hne
      exact absurd rfl hne
  | cons part parts ih =>
      intro _
      cases parts with
      | nil => simp [segmentRow]
      | cons next later =>
          have hrest := ih (List.cons_ne_nil next later)
          rw [List.intercalate_cons_cons, List.append_assoc, List.singleton_append,
            List.splitOn_append_cons_self, hrest]
          rfl

omit [LawfulBEq α] in
theorem length_splitOn (part : List α) : (part.splitOn sep).length = part.count sep + 1 := by
  induction part with
  | nil => simp
  | cons a part ih =>
      rw [List.splitOn_cons_eq_if_modifyHead, List.count_cons]
      by_cases hsep : (a == sep) = true
      · simp [hsep, ih]
      · simp [hsep, ih]

/-- The parts of a row can be told apart by how many segments each holds. -/
theorem eq_of_segmentRow_eq {parts parts' : List (List α)}
    (hrow : segmentRow sep parts = segmentRow sep parts')
    (hcounts : parts.map (fun part => (part.splitOn sep).length) =
      parts'.map fun part => (part.splitOn sep).length) : parts = parts' := by
  refine List.map_injective_iff.2 (splitOn_injective sep) (List.eq_iff_flatten_eq.2 ⟨?_, ?_⟩)
  · simpa only [segmentRow, List.flatMap_def] using hrow
  · simpa only [List.map_map, Function.comp_def] using hcounts

/-- Joined texts are equal when their parts are, or when the parts are regrouped. -/
theorem joined_eq_iff {parts parts' : List (List α)} (hne : parts ≠ []) (hne' : parts' ≠ []) :
    [sep].intercalate parts = [sep].intercalate parts' ↔
      parts = parts' ∨ Regrouped sep parts parts' := by
  have hrow : [sep].intercalate parts = [sep].intercalate parts' ↔
      segmentRow sep parts = segmentRow sep parts' := by
    rw [← splitOn_joined sep hne, ← splitOn_joined sep hne']
    exact (splitOn_injective sep).eq_iff.symm
  rw [hrow]
  constructor
  · intro heq
    by_cases hcounts : parts.map (fun part => (part.splitOn sep).length) =
        parts'.map fun part => (part.splitOn sep).length
    · exact Or.inl (eq_of_segmentRow_eq sep heq hcounts)
    · exact Or.inr ⟨heq, hcounts⟩
  · rintro (rfl | ⟨heq, -⟩)
    · rfl
    · exact heq

end Joined

end Lib
end Falkr
