import Mathlib.Data.List.Basic

/-!
# Admission — a loop that stops at the first member it refuses

A loop reads a list and keeps what it has read in a state.  Each member is tested on its own
(`alone`) and against the members in front of it (`apart`); the first that fails a test ends the
loop.  Such a loop comes to an end exactly for the lists all of whose members pass, and what it
refuses with is the fault of one of them (`loop_admits`).
-/

namespace Falkr
namespace Lib

variable {σ α ε : Type}

/-- What a loop tests, and what the faults it reports mean. -/
structure Admission (α ε : Type) where
  alone : α → Prop
  apart : α → α → Prop
  /-- The fault of a member behind the members in front of it. -/
  fault : List α → α → ε → Prop
  fault_real : ∀ {before a e}, fault before a e → alone a → ∃ b ∈ before, ¬ apart b a

namespace Admission

variable {T : Admission α ε}

/-- All members pass, each alone and any two in the order of the list. -/
structure Admits (T : Admission α ε) (l : List α) : Prop where
  alone : ∀ a ∈ l, T.alone a
  apart : l.Pairwise T.apart

/-- Some member of the list is at fault. -/
def Faulty (T : Admission α ε) (l : List α) (e : ε) : Prop :=
  ∃ before a after, l = before ++ a :: after ∧ T.fault before a e

theorem admits_nil : T.Admits [] where
  alone := by simp
  apart := List.Pairwise.nil

theorem Admits.append_singleton {l : List α} (h : T.Admits l) {a : α} (ha : T.alone a)
    (hl : ∀ b ∈ l, T.apart b a) : T.Admits (l ++ [a]) where
  alone := by
    intro b hb
    rcases List.mem_append.1 hb with hb | hb
    · exact h.alone b hb
    · rw [List.mem_singleton.1 hb]
      exact ha
  apart := by
    refine List.pairwise_append.2 ⟨h.apart, List.pairwise_singleton T.apart a, ?_⟩
    intro b hb c hc
    rw [List.mem_singleton.1 hc]
    exact hl b hb

theorem Faulty.not_admits {l : List α} {e : ε} (h : T.Faulty l e) : ¬ T.Admits l := by
  rcases h with ⟨before, a, after, rfl, hfault⟩
  intro hadmits
  -- A fault of a member that passes alone is one with a member in front of it.
  rcases T.fault_real hfault (hadmits.alone a (by simp)) with ⟨b, hb, hnot⟩
  exact hnot ((List.pairwise_append.1 hadmits.apart).2.2 b hb a (by simp))

/-- What a loop does with the next member behind those it has read: it goes on if the member passes,
and keeps the invariant, or it stops with the fault of the member. -/
def Passes (T : Admission α ε) (inv : List α → σ → Prop) (loop : List α → σ → Except ε σ) : Prop :=
  ∀ read s a rest, inv read s →
    (∃ s', loop (a :: rest) s = loop rest s' ∧ T.alone a ∧ (∀ b ∈ read, T.apart b a) ∧
      inv (read ++ [a]) s') ∨
    ∃ e, loop (a :: rest) s = .error e ∧ T.fault read a e

section Loop

variable {inv : List α → σ → Prop} {loop : List α → σ → Except ε σ}

theorem loop_admits_behind (hpass : T.Passes inv loop) (hnil : ∀ s, loop [] s = .ok s)
    (rest : List α) : ∀ (read : List α) (s : σ), T.Admits read → inv read s →
      (∃ s', loop rest s = .ok s' ∧ T.Admits (read ++ rest) ∧ inv (read ++ rest) s') ∨
        ∃ e, loop rest s = .error e ∧ T.Faulty (read ++ rest) e := by
  induction rest with
  | nil =>
      intro read s hadmits hinv
      rw [List.append_nil]
      exact Or.inl ⟨s, hnil s, hadmits, hinv⟩
  | cons a rest ih =>
      intro read s hadmits hinv
      -- The members that were read stand in front, so a fault is one of the whole list.
      rcases hpass read s a rest hinv with ⟨s', hgo, halone, hapart, hinv'⟩ | ⟨e, hstop, hfault⟩
      · have hrest := ih (read ++ [a]) s' (hadmits.append_singleton halone hapart) hinv'
        rw [List.append_assoc, List.singleton_append, ← hgo] at hrest
        exact hrest
      · exact Or.inr ⟨e, hstop, read, a, rest, rfl, hfault⟩

/-- The loop ends with the invariant of the whole list, all of it admitted, or with a fault. -/
theorem loop_admits (hpass : T.Passes inv loop) (hnil : ∀ s, loop [] s = .ok s) {s : σ}
    (hinit : inv [] s) (l : List α) :
    (∃ s', loop l s = .ok s' ∧ T.Admits l ∧ inv l s') ∨
      ∃ e, loop l s = .error e ∧ T.Faulty l e :=
  loop_admits_behind hpass hnil l [] s admits_nil hinit

end Loop

end Admission

end Lib
end Falkr
