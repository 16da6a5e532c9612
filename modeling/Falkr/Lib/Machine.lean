import Mathlib.Algebra.GroupWithZero.Nat
import Mathlib.Data.List.Basic
import Mathlib.Data.List.Induction

/-!
# Machine — labelled machines, their runs and their invariants

A machine takes labelled steps; a step that is not enabled is `none`.  Nondeterminism, the schedule
as well as what the environment answers, is in the labels, so a closed run evaluates.

Four rules carry the proofs: `Machine.run_preserves` (what steps of some kind preserve is preserved
by runs of such steps), `Machine.invariant` (what the start satisfies and every step preserves holds
after every run), `Machine.run_induction` (the same with the run that led there) and
`Machine.exists_run` (a measure that some step makes smaller runs out).
-/

namespace Falkr
namespace Lib

structure Machine (σ ℓ : Type) where
  start : σ
  step : σ → ℓ → Option σ

/-- After one entry is overwritten, an entry is the new one or was there before. -/
theorem getElem?_set_cases {α : Type} {l : List α} {i j : Nat} {a b : α}
    (h : (l.set i a)[j]? = some b) : j = i ∧ b = a ∨ l[j]? = some b := by
  by_cases hij : i = j
  · subst hij
    by_cases hlt : i < l.length
    · exact Or.inl ⟨rfl, by simpa [List.getElem?_set, hlt] using h.symm⟩
    · simp [hlt] at h
  · exact Or.inr (by simpa [List.getElem?_set, hij] using h)

/-- A sum gets smaller with one of its terms. -/
theorem sum_set_lt {l : List ℕ} {i m n : ℕ} (h : l[i]? = some m) (hlt : n < m) :
    (l.set i n).sum < l.sum := by
  induction l generalizing i with
  | nil => simp at h
  | cons first rest ih =>
      cases i with
      | zero =>
          have hfirst : first = m := by simpa using h
          simp only [List.set_cons_zero, List.sum_cons]
          omega
      | succ i =>
          have hrest := ih (by simpa using h)
          simp only [List.set_cons_succ, List.sum_cons]
          omega

namespace Machine

variable {σ ℓ : Type}

/-- The state after a list of labels, if every step is enabled. -/
def run (M : Machine σ ℓ) (s : σ) (labels : List ℓ) : Option σ :=
  labels.foldlM M.step s

@[simp] theorem run_nil (M : Machine σ ℓ) (s : σ) : M.run s [] = some s := rfl

theorem run_cons (M : Machine σ ℓ) (s : σ) (l : ℓ) (labels : List ℓ) :
    M.run s (l :: labels) = (M.step s l).bind fun s' => M.run s' labels := by
  simp [run]

theorem run_append (M : Machine σ ℓ) (s : σ) (first second : List ℓ) :
    M.run s (first ++ second) = (M.run s first).bind fun s' => M.run s' second := by
  simp [run, List.foldlM_append]

/-- A property that the steps of some kind preserve is preserved by every run of such steps. -/
theorem run_preserves (M : Machine σ ℓ) (P : σ → Prop) (Q : ℓ → Prop)
    (hstep : ∀ s l s', Q l → P s → M.step s l = some s' → P s') :
    ∀ (labels : List ℓ) (s s' : σ), (∀ l ∈ labels, Q l) → P s → M.run s labels = some s' →
      P s' := by
  intro labels
  induction labels with
  | nil =>
      intro s s' _ hs h
      cases h
      exact hs
  | cons l labels ih =>
      intro s s' hlabels hs h
      rcases List.forall_mem_cons.1 hlabels with ⟨hl, hlabels⟩
      cases hmid : M.step s l with
      | none => simp [run_cons, hmid] at h
      | some mid =>
          have hrest : M.run mid labels = some s' := by simpa [run_cons, hmid] using h
          exact ih mid s' hlabels (hstep s l mid hl hs hmid) hrest

/-- A property of the start that every step preserves holds after every run. -/
theorem invariant (M : Machine σ ℓ) (P : σ → Prop) (hstart : P M.start)
    (hstep : ∀ s l s', P s → M.step s l = some s' → P s') {labels : List ℓ} {s : σ}
    (h : M.run M.start labels = some s) : P s :=
  M.run_preserves P (fun _ => True) (fun s l s' _ => hstep s l s') labels M.start s
    (fun _ _ => trivial) hstart h

/-- What holds of the start, and of a run with one more step when it holds of the run, holds of
every run. -/
theorem run_induction (M : Machine σ ℓ) (P : List ℓ → σ → Prop) (hstart : P [] M.start)
    (hstep : ∀ labels s l s', M.run M.start labels = some s → P labels s → M.step s l = some s' →
      P (labels ++ [l]) s') :
    ∀ (labels : List ℓ) (s : σ), M.run M.start labels = some s → P labels s := by
  intro labels
  induction labels using List.reverseRecOn with
  | nil =>
      intro s h
      cases h
      exact hstart
  | append_singleton labels l ih =>
      intro s h
      rw [run_append] at h
      rcases Option.bind_eq_some_iff.1 h with ⟨mid, hmid, hlast⟩
      have hl : M.step mid l = some s := by simpa [run_cons] using hlast
      exact hstep labels mid l s hmid (ih mid hmid) hl

/-- A run passes through the states at the ends of its prefixes. -/
def Passes (M : Machine σ ℓ) (labels : List ℓ) (s : σ) : Prop :=
  ∃ before, before <+: labels ∧ M.run M.start before = some s

theorem passes_end {M : Machine σ ℓ} {labels : List ℓ} {s : σ}
    (h : M.run M.start labels = some s) : M.Passes labels s :=
  ⟨labels, List.prefix_rfl, h⟩

theorem Passes.append {M : Machine σ ℓ} {labels : List ℓ} {s : σ} (h : M.Passes labels s)
    (later : List ℓ) : M.Passes (labels ++ later) s := by
  rcases h with ⟨before, hbefore, hrun⟩
  exact ⟨before, hbefore.trans (List.prefix_append _ _), hrun⟩

/-- From a state that it passes through, a run goes on to its end. -/
theorem Passes.exists_rest {M : Machine σ ℓ} {labels : List ℓ} {s s' : σ}
    (h : M.Passes labels s) (hrun : M.run M.start labels = some s') :
    ∃ rest, M.run s rest = some s' := by
  rcases h with ⟨before, ⟨rest, rfl⟩, hbefore⟩
  refine ⟨rest, ?_⟩
  simpa [run_append, hbefore] using hrun

/-- A machine that can always do a step of some kind that makes a measure smaller, as long as it is
not done, gets done by such steps. -/
theorem exists_run (M : Machine σ ℓ) (Done : σ → Prop) (Q : ℓ → Prop) (measure : σ → ℕ)
    (hstep : ∀ s, ¬Done s → ∃ l s', Q l ∧ M.step s l = some s' ∧ measure s' < measure s) (s : σ) :
    ∃ labels s', (∀ l ∈ labels, Q l) ∧ M.run s labels = some s' ∧ Done s' := by
  -- On the measure; a step may lower it by more than one.
  induction hm : measure s using Nat.strongRecOn generalizing s with
  | ind n ih =>
      by_cases hdone : Done s
      · exact ⟨[], s, by simp, rfl, hdone⟩
      · rcases hstep s hdone with ⟨l, mid, hl, hmid, hlt⟩
        rcases ih (measure mid) (hm ▸ hlt) mid rfl with ⟨labels, s', hlabels, hrun, hs'⟩
        exact ⟨l :: labels, s', List.forall_mem_cons.2 ⟨hl, hlabels⟩, by simp [run_cons, hmid, hrun],
          hs'⟩

end Machine

end Lib
end Falkr
