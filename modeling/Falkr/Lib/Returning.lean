import Mathlib.Data.Option.Basic

/-!
# Returning — computations that return one value or none

The monads a program runs in here either return a value, `pure`, or stop.  `Returning` says so in
the form inversion needs: a sequence that returned had a first part that returned.  `Outcome` lets
whoever has started such a computation see which of the two it does.
-/

namespace Falkr
namespace Lib

class Returning (m : Type → Type) [Monad m] : Prop where
  pure_inj : ∀ {β : Type} {a b : β}, (pure a : m β) = pure b → a = b
  bind_eq_pure : ∀ {β γ : Type} {x : m β} {f : β → m γ} {c : γ},
    x >>= f = pure c → ∃ b, x = pure b ∧ f b = pure c

instance : Returning Id where
  pure_inj := fun h => h
  bind_eq_pure := fun {_ _ x _ _} h => ⟨x, rfl, h⟩

instance : Returning Option where
  pure_inj := fun h => Option.some.inj h
  bind_eq_pure := fun h => Option.bind_eq_some_iff.1 h

class Outcome (m : Type → Type) [Monad m] extends Returning m where
  /-- The value, or `none` where the computation stops. -/
  outcome : {β : Type} → m β → Option β
  outcome_eq_some : ∀ {β : Type} {x : m β} {b : β}, outcome x = some b ↔ x = pure b

instance : Outcome Id where
  outcome := fun x => some x.run
  outcome_eq_some := Option.some_inj

instance : Outcome Option where
  outcome := fun x => x
  outcome_eq_some := Iff.rfl

/-! ## Results -/

section Except

variable {ε ε' α β : Type}

theorem bind_eq_ok {x : Except ε α} {f : α → Except ε β} {b : β} (h : (x >>= f) = .ok b) :
    ∃ a, x = .ok a ∧ f a = .ok b := by
  cases x with
  | error e => simp [bind, Except.bind] at h
  | ok a => exact ⟨a, rfl, h⟩

/-- Two sequences that share their first part return what follows the same value. -/
theorem bind_eq_ok_both {γ : Type} {x : Except ε α} {f : α → Except ε β} {g : α → Except ε γ} {b : β}
    {c : γ} (hf : (x >>= f) = .ok b) (hg : (x >>= g) = .ok c) : ∃ a, f a = .ok b ∧ g a = .ok c := by
  rcases bind_eq_ok hf with ⟨a, ha, hf⟩
  rcases bind_eq_ok hg with ⟨a', ha', hg⟩
  cases ha.symm.trans ha'
  exact ⟨a, hf, hg⟩

/-- A guard that throws was not entered where there is a value. -/
theorem of_guard_eq_ok {c : Prop} [Decidable c] {e : ε} {f : α → Except ε β} {x : Except ε β}
    {b : β} (h : (if c then throw e >>= f else x) = .ok b) : ¬ c ∧ x = .ok b := by
  by_cases hc : c
  · rw [if_pos hc] at h
    cases h
  · rw [if_neg hc] at h
    exact ⟨hc, h⟩

instance : Returning (Except ε) where
  pure_inj := fun h => Except.ok.inj h
  bind_eq_pure := bind_eq_ok

theorem eq_ok_get {x : Except ε α} (h : x.toOption.isSome = true) :
    x = .ok (x.toOption.get h) := by
  cases x with
  | error e => cases h
  | ok a => rfl

theorem mapError_eq_ok {x : Except ε α} {f : ε → ε'} {a : α} :
    x.mapError f = .ok a ↔ x = .ok a := by
  cases x <;> simp [Except.mapError]

/-- A loop of checks gets through exactly if every member passes. -/
theorem forM_eq_ok_iff {f : β → Except ε Unit} :
    ∀ l : List β, l.forM f = .ok () ↔ ∀ b ∈ l, f b = .ok ()
  | [] => by simp [pure, Except.pure]
  | b :: rest => by
      have ih := forM_eq_ok_iff (f := f) rest
      rw [List.forall_mem_cons, ← ih]
      show (f b >>= fun _ => rest.forM f) = .ok () ↔ _
      cases hb : f b with
      | error e => simp [bind, Except.bind]
      | ok u => simp [bind, Except.bind]

end Except

end Lib
end Falkr
