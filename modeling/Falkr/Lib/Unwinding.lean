import Mathlib.Data.List.Basic

/-!
# Unwinding — what one party sees of a shared service

Several parties call one service; `view` is the list of results of one party's own calls.  An
`Unwinding` splits what such a call depends on into the party's own part of the state and a `leak`,
and says that the leak shows in the result.  Then two histories with the same own calls give the same
view exactly if they leak the same (`view_eq_iff`).
-/

namespace Falkr
namespace Lib

variable {σ κ ρ π ι : Type}

section View

variable (perform : σ → κ → σ × ρ) (mine : κ → Prop) [DecidablePred mine]

/-- The results of my calls in a history. -/
def view : σ → List κ → List ρ
  | _, [] => []
  | s, call :: calls =>
      if mine call then (perform s call).2 :: view (perform s call).1 calls
      else view (perform s call).1 calls

/-- What my calls in a history depend on besides my own part of the state. -/
def leaks (leak : σ → κ → ι) : σ → List κ → List ι
  | _, [] => []
  | s, call :: calls =>
      if mine call then leak s call :: leaks leak (perform s call).1 calls
      else leaks leak (perform s call).1 calls

/-- The unwinding conditions. -/
structure Unwinding (own : σ → π) (leak : σ → κ → ι) : Prop where
  other : ∀ s call, ¬mine call → own (perform s call).1 = own s
  result_iff : ∀ s s' call, mine call → own s = own s' →
    ((perform s call).2 = (perform s' call).2 ↔ leak s call = leak s' call)
  next : ∀ s s' call, mine call → own s = own s' → leak s call = leak s' call →
    own (perform s call).1 = own (perform s' call).1

end View

theorem length_leaks (perform : σ → κ → σ × ρ) (mine : κ → Prop) [DecidablePred mine]
    (leak : σ → κ → ι) :
    ∀ (calls : List κ) (s : σ),
      (leaks perform mine leak s calls).length = (calls.filter mine).length := by
  intro calls
  induction calls with
  | nil =>
      intro s
      rfl
  | cons call calls ih =>
      intro s
      by_cases hmine : mine call
      · simp [leaks, hmine, ih]
      · simp [leaks, hmine, ih]

namespace Unwinding

variable {perform : σ → κ → σ × ρ} {mine : κ → Prop} [DecidablePred mine] {own : σ → π}
  {leak : σ → κ → ι}

theorem view_of_no_call (perform : σ → κ → σ × ρ) (leak : σ → κ → ι) :
    ∀ (calls : List κ) (s : σ), calls.filter mine = [] →
      view perform mine s calls = [] ∧ leaks perform mine leak s calls = [] := by
  intro calls
  induction calls with
  | nil =>
      intro s _
      exact ⟨rfl, rfl⟩
  | cons call calls ih =>
      intro s h
      have hcall : ¬mine call := by
        intro hmine
        simp [hmine] at h
      have hrest := ih (perform s call).1 (by simpa [hcall] using h)
      simpa [view, leaks, hcall] using hrest

/-- The calls of others before my first call leave my own part of the state as it is. -/
theorem exists_first_call (U : Unwinding perform mine own leak) {call : κ} {mineRest : List κ} :
    ∀ (calls : List κ) (s : σ), calls.filter mine = call :: mineRest →
      ∃ s' rest, mine call ∧ own s' = own s ∧ rest.filter mine = mineRest ∧
        view perform mine s calls =
          (perform s' call).2 :: view perform mine (perform s' call).1 rest ∧
        leaks perform mine leak s calls =
          leak s' call :: leaks perform mine leak (perform s' call).1 rest := by
  intro calls
  induction calls with
  | nil =>
      intro s h
      simp at h
  | cons first calls ih =>
      intro s h
      by_cases hmine : mine first
      · have hsplit : first = call ∧ calls.filter mine = mineRest := by simpa [hmine] using h
        rcases hsplit with ⟨rfl, hrest⟩
        exact ⟨s, calls, hmine, rfl, hrest, by simp [view, hmine], by simp [leaks, hmine]⟩
      · rcases ih (perform s first).1 (by simpa [hmine] using h) with
          ⟨s', rest, hcall, hown, hrest, hview, hleaks⟩
        refine ⟨s', rest, hcall, hown.trans (U.other s first hmine), hrest, ?_, ?_⟩
        · simpa [view, hmine] using hview
        · simpa [leaks, hmine] using hleaks

/-- Two histories with the same calls of mine: I see the same in both exactly if both leak the
same to me. -/
theorem view_eq_iff (U : Unwinding perform mine own leak) :
    ∀ (mineCalls calls calls' : List κ) (s s' : σ), own s = own s' →
      calls.filter mine = mineCalls → calls'.filter mine = mineCalls →
      (view perform mine s calls = view perform mine s' calls' ↔
        leaks perform mine leak s calls = leaks perform mine leak s' calls') := by
  intro mineCalls
  induction mineCalls with
  | nil =>
      intro calls calls' s s' _ h h'
      have hnone := view_of_no_call perform leak calls s h
      have hnone' := view_of_no_call perform leak calls' s' h'
      simp [hnone, hnone']
  | cons call rest ih =>
      intro calls calls' s s' hown h h'
      rcases U.exists_first_call calls s h with
        ⟨t, after, hmine, ht, hafter, hview, hleaks⟩
      rcases U.exists_first_call calls' s' h' with
        ⟨t', after', -, ht', hafter', hview', hleaks'⟩
      have htt : own t = own t' := ht.trans (hown.trans ht'.symm)
      rw [hview, hview', hleaks, hleaks', List.cons.injEq, List.cons.injEq,
        U.result_iff t t' call hmine htt]
      refine and_congr_right ?_
      intro hleak
      exact ih after after' _ _ (U.next t t' call hmine htt hleak) hafter hafter'

end Unwinding

end Lib
end Falkr
