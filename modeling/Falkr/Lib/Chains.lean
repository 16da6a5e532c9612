import Mathlib.Data.Fintype.Card
import Mathlib.Data.Set.Finite.Basic
import Mathlib.Logic.Relation
import Mathlib.Order.WellFounded

/-!
# Chains — following a partial function to its end

A partial function is followed from a value until it has no next one.  Over finitely many values
every chain ends exactly when no value is reached again (`forall_ends_iff_acyclic`).
-/

namespace Falkr
namespace Lib

variable {α : Type}

/-- The value after so many steps. -/
def walk (next : α → Option α) : Nat → α → Option α
  | 0, a => some a
  | n + 1, a => (next a).bind (walk next n)

/-- One step leads from `a` to `b`. -/
def StepsTo (next : α → Option α) (a b : α) : Prop :=
  next a = some b

/-- After finitely many steps there is no next value. -/
def Ends (next : α → Option α) (a : α) : Prop :=
  ∃ n b, walk next n a = some b ∧ next b = none

/-- No member of the list is reached again from itself. -/
def Acyclic (next : α → Option α) (l : List α) : Prop :=
  ∀ a ∈ l, ¬ Relation.TransGen (StepsTo next) a a

section Chains

variable {next : α → Option α} {a b : α}

theorem ends_of_next_eq_none (h : next a = none) : Ends next a :=
  ⟨0, a, rfl, h⟩

theorem ends_of_stepsTo (h : StepsTo next a b) (hb : Ends next b) : Ends next a := by
  rcases hb with ⟨n, c, hwalk, hend⟩
  refine ⟨n + 1, c, ?_, hend⟩
  rw [walk, h, Option.bind_some]
  exact hwalk

/-- A chain stays in a list that no step leaves. -/
theorem mem_of_walk {l : List α} (hclosed : ∀ a ∈ l, ∀ b, StepsTo next a b → b ∈ l) (ha : a ∈ l)
    {n : Nat} (h : walk next n a = some b) : b ∈ l := by
  induction n generalizing a with
  | zero =>
      cases h
      exact ha
  | succ n ih =>
      rcases Option.bind_eq_some_iff.1 h with ⟨c, hc, hrest⟩
      exact ih (hclosed a ha c hc) hrest

/-- The value after one on a cycle is on that cycle. -/
theorem transGen_self_of_stepsTo (hcycle : Relation.TransGen (StepsTo next) a a)
    (h : StepsTo next a b) : Relation.TransGen (StepsTo next) b b := by
  rcases Relation.TransGen.head'_iff.1 hcycle with ⟨c, hc, hback⟩
  have hcb : c = b := Option.some.inj (hc.symm.trans h)
  exact Relation.TransGen.tail' (hcb ▸ hback) h

/-- A chain that starts on a cycle does not end. -/
theorem not_ends_of_cycle (hcycle : Relation.TransGen (StepsTo next) a a) : ¬ Ends next a := by
  rintro ⟨n, b, hwalk, hend⟩
  -- On the number of steps, along which the chain stays on the cycle.
  induction n generalizing a with
  | zero =>
      rcases Relation.TransGen.head'_iff.1 hcycle with ⟨c, hc, -⟩
      have hab : a = b := Option.some.inj hwalk
      rw [StepsTo, hab, hend] at hc
      cases hc
  | succ n ih =>
      rcases Option.bind_eq_some_iff.1 hwalk with ⟨c, hc, hrest⟩
      exact ih (transGen_self_of_stepsTo hcycle hc) hrest

/-- Steps among finitely many values that do not return are well-founded. -/
theorem wellFounded_of_acyclic {l : List α} (hacyclic : Acyclic next l) :
    WellFounded fun b a : { a // a ∈ l } => StepsTo next a b := by
  have hfinite : Finite { a // a ∈ l } := (List.finite_toSet l).to_subtype
  have hirrefl : Std.Irrefl
      (Relation.TransGen fun b a : { a // a ∈ l } => StepsTo next a b) := by
    refine ⟨fun a hcycle => hacyclic a a.2 ?_⟩
    exact (Relation.transGen_swap.1 hcycle).lift Subtype.val fun _ _ h => h
  have hwf : WellFounded (Relation.TransGen fun b a : { a // a ∈ l } => StepsTo next a b) :=
    Finite.wellFounded_of_trans_of_irrefl _
  exact hwf.mono fun _ _ h => Relation.TransGen.single h

/-- Among the members of a list that no step leaves, every chain ends exactly when there is no
cycle. -/
theorem forall_ends_iff_acyclic {l : List α} (hclosed : ∀ a ∈ l, ∀ b, StepsTo next a b → b ∈ l) :
    (∀ a ∈ l, Ends next a) ↔ Acyclic next l := by
  refine ⟨fun h a ha hcycle => not_ends_of_cycle hcycle (h a ha), fun hacyclic a ha => ?_⟩
  refine (wellFounded_of_acyclic hacyclic).induction (C := fun a => Ends next a.1) ⟨a, ha⟩ ?_
  rintro ⟨a, ha⟩ ih
  cases hnext : next a with
  | none => exact ends_of_next_eq_none hnext
  | some b => exact ends_of_stepsTo hnext (ih ⟨b, hclosed a ha b hnext⟩ hnext)

end Chains

end Lib
end Falkr
