import Mathlib.Algebra.BigOperators.Group.List.Basic
import Mathlib.Data.List.Forall2
import Mathlib.Tactic.Abel

/-!
# Lists — relations and sums along lists

Two lists related or equal element by element, a list from a position on, maps that fail, filters, maps to
lists, and sums by key.
-/

namespace Falkr
namespace Lib

section Lists

variable {β γ : Type}

/-! ## Related lists -/

theorem exists_mem_of_forall₂ {R : β → γ → Prop} :
    ∀ {xs : List β} {ys : List γ}, List.Forall₂ R xs ys → ∀ x ∈ xs, ∃ y ∈ ys, R x y
  | _, _, .cons hfirst hrest, x, hx => by
      rcases List.mem_cons.1 hx with rfl | hx
      · exact ⟨_, List.mem_cons_self, hfirst⟩
      · rcases exists_mem_of_forall₂ hrest x hx with ⟨y, hy, hR⟩
        exact ⟨y, List.mem_cons_of_mem _ hy, hR⟩

/-- Related elements are elements of their lists. -/
theorem forall₂_mem {R : β → γ → Prop} {xs : List β} {ys : List γ} (h : List.Forall₂ R xs ys) :
    List.Forall₂ (fun x y => y ∈ ys ∧ R x y) xs ys :=
  ((List.forall₂_and_left _ _).2 ⟨fun _ hy => hy, h.flip⟩).flip

/-- Relates every element to its value where a map has one. -/
theorem forall₂_filterMap {f : β → Option γ} :
    ∀ {xs : List β}, (∀ x ∈ xs, ∃ y, f x = some y) →
      List.Forall₂ (fun x y => f x = some y) xs (xs.filterMap f)
  | [], _ => .nil
  | x :: rest, h => by
      rcases List.forall_mem_cons.1 h with ⟨⟨y, hy⟩, hrest⟩
      rw [List.filterMap_cons_some hy]
      exact .cons hy (forall₂_filterMap hrest)

theorem forall₂_getLast? {R : β → γ → Prop} {xs : List β} {ys : List γ}
    (h : List.Forall₂ R xs ys) : Option.Rel R xs.getLast? ys.getLast? := by
  have hreverse := List.forall₂_reverse_iff.2 h
  rw [List.getLast?_eq_head?_reverse, List.getLast?_eq_head?_reverse]
  revert hreverse
  generalize xs.reverse = xs', ys.reverse = ys'
  rintro (- | ⟨hfirst, -⟩)
  · exact .none
  · exact .some hfirst

/-! ## Equal element by element -/

theorem isEqv_refl {eq : β → β → Bool} (h : ∀ b, eq b b = true) :
    ∀ l : List β, l.isEqv l eq = true
  | [] => rfl
  | b :: rest => by rw [List.isEqv, h b, isEqv_refl h rest, Bool.and_self]

theorem isEqv_iff_map_eq {eq : β → β → Bool} {f : β → γ} (h : ∀ a b, eq a b = true ↔ f a = f b) :
    ∀ l l' : List β, l.isEqv l' eq = true ↔ l.map f = l'.map f
  | [], [] => by simp [List.isEqv]
  | [], b :: rest => by simp [List.isEqv]
  | a :: rest, [] => by simp [List.isEqv]
  | a :: rest, b :: rest' => by
      rw [List.isEqv, Bool.and_eq_true, h a b, isEqv_iff_map_eq h rest rest', List.map_cons,
        List.map_cons, List.cons.injEq]

/-! ## From a position on -/

theorem getElem?_of_drop {xs rest : List β} {k : Nat} {x : β} (h : xs.drop k = x :: rest) :
    xs[k]? = some x := by
  rw [← List.head?_drop, h]
  rfl

theorem drop_succ_of_drop {xs rest : List β} {k : Nat} {x : β} (h : xs.drop k = x :: rest) :
    xs.drop (k + 1) = rest := by
  rw [← List.tail_drop, h]
  rfl

theorem drop_eq_cons {xs : List β} {k : Nat} {x : β} (h : xs[k]? = some x) :
    xs.drop k = x :: xs.drop (k + 1) := by
  rcases List.getElem?_eq_some_iff.1 h with ⟨hlt, rfl⟩
  exact List.drop_eq_getElem_cons hlt

/-! ## Maps that fail -/

/-- A map goes through when it does so at every element. -/
theorem mapM_isSome_iff (f : β → Option γ) :
    ∀ xs : List β, (xs.mapM f).isSome ↔ ∀ x ∈ xs, (f x).isSome
  | [] => by simp
  | x :: xs => by
      rw [List.mapM_cons, List.forall_mem_cons, ← mapM_isSome_iff f xs]
      cases hx : f x with
      | none => simp
      | some y =>
          cases hxs : xs.mapM f with
          | none => simp
          | some ys => simp

/-! ## Filters -/

theorem find?_filter_of_imp {p q : β → Bool} (h : ∀ x, q x = true → p x = true) (xs : List β) :
    (xs.filter p).find? q = xs.find? q := by
  rw [List.find?_filter]
  congr 1
  funext x
  cases hq : q x with
  | false => simp
  | true => simp [h x hq]

theorem filter_filter_of_imp {p q : β → Bool} (h : ∀ x, q x = true → p x = true) (xs : List β) :
    (xs.filter p).filter q = xs.filter q := by
  rw [List.filter_filter]
  congr 1
  funext x
  cases hq : q x with
  | false => simp
  | true => simp [h x hq]

/-- A filter by what a map keeps can be taken first. -/
theorem filter_map_of_kept {p : β → Bool} {f : β → β} (h : ∀ x, p (f x) = p x) (xs : List β) :
    (xs.map f).filter p = (xs.filter p).map f := by
  rw [List.filter_map]
  congr 2
  funext x
  exact h x

theorem filter_eraseP_of_imp {p q : β → Bool} (h : ∀ x, q x = true → p x = true) (xs : List β) :
    (xs.eraseP q).filter p = (xs.filter p).eraseP q := by
  rw [List.eraseP_filter]
  congr 2
  funext x
  cases hq : q x with
  | false => simp
  | true => simp [h x hq]

/-- What a filter drops may be erased first. -/
theorem filter_eraseP_of_not {p q : β → Bool} (h : ∀ x, q x = true → p x = false) :
    ∀ xs : List β, (xs.eraseP q).filter p = xs.filter p
  | [] => rfl
  | x :: rest => by
      cases hq : q x with
      | false => simp [hq, List.filter_cons, filter_eraseP_of_not h rest]
      | true => simp [hq, h x hq]

/-! ## Maps to lists -/

theorem flatMap_eq_of_unique {xs : List β} {f : β → List γ} {x : β} (hnodup : xs.Nodup)
    (hx : x ∈ xs) (h : ∀ y ∈ xs, y ≠ x → f y = []) : xs.flatMap f = f x := by
  rcases List.append_of_mem hx with ⟨before, after, rfl⟩
  rw [List.nodup_append, List.nodup_cons] at hnodup
  rcases hnodup with ⟨-, ⟨hafter, -⟩, hbefore⟩
  have hfirst : before.flatMap f = [] := List.flatMap_eq_nil_iff.2 fun y hy =>
    h y (List.mem_append_left _ hy) (hbefore y hy x List.mem_cons_self)
  have hlast : after.flatMap f = [] := List.flatMap_eq_nil_iff.2 fun y hy =>
    h y (List.mem_append_right _ (List.mem_cons_of_mem _ hy)) fun heq => hafter (heq ▸ hy)
  rw [List.flatMap_append, List.flatMap_cons, hfirst, hlast, List.nil_append, List.append_nil]

theorem flatMap_filter {p : β → Bool} {f : β → List γ} :
    ∀ {xs : List β}, (∀ x ∈ xs, p x = false → f x = []) → (xs.filter p).flatMap f = xs.flatMap f
  | [], _ => rfl
  | x :: rest, h => by
      rcases List.forall_mem_cons.1 h with ⟨hx, hrest⟩
      have ih := flatMap_filter hrest
      cases hp : p x with
      | true => simp [hp, ih]
      | false => simp [hp, ih, hx hp]

theorem sum_flatMap {α : Type} [AddMonoid α] (f : β → List γ) (value : γ → α) :
    ∀ xs : List β, ((xs.flatMap f).map value).sum = (xs.map fun x => ((f x).map value).sum).sum
  | [] => rfl
  | x :: rest => by simp [sum_flatMap f value rest]

/-! ## Sums by key -/

section Keys

variable {κ α : Type} [DecidableEq κ] [AddCommMonoid α]

/-- Among keys that are told apart a value counts once, or not at all. -/
theorem sum_indicator {keys : List κ} (hnodup : keys.Nodup) (found : Option κ) (value : α) :
    (keys.map fun key => if found = some key then value else 0).sum =
      if ∃ key ∈ keys, found = some key then value else 0 := by
  induction keys with
  | nil => simp
  | cons key keys ih =>
      rcases List.nodup_cons.1 hnodup with ⟨hkey, hrest⟩
      rw [List.map_cons, List.sum_cons, ih hrest]
      by_cases hfound : found = some key
      · subst hfound
        simp [hkey]
      · simp [hfound]

/-- What is found under the keys, each once, and what is found under none of them add up to
everything. -/
theorem sum_by_key {keys : List κ} (hnodup : keys.Nodup) (key : β → Option κ) (value : β → α) :
    ∀ xs : List β,
      (keys.map fun k => ((xs.filter fun x => key x = some k).map value).sum).sum +
          ((xs.filter fun x => ¬∃ k ∈ keys, key x = some k).map value).sum =
        (xs.map value).sum
  | [] => by simp
  | x :: rest => by
      have hsplit : ∀ k, ((List.filter (fun x => key x = some k) (x :: rest)).map value).sum =
          (if key x = some k then value x else 0) +
            ((rest.filter fun x => key x = some k).map value).sum := by
        intro k
        by_cases h : key x = some k <;> simp [h]
      have hnone : ((List.filter (fun x => ¬∃ k ∈ keys, key x = some k) (x :: rest)).map value).sum =
          (if ∃ k ∈ keys, key x = some k then 0 else value x) +
            ((rest.filter fun x => ¬∃ k ∈ keys, key x = some k).map value).sum := by
        by_cases h : ∃ k ∈ keys, key x = some k
        · rw [if_pos h, zero_add, List.filter_cons_of_neg (by simpa using h)]
        · rw [if_neg h, List.filter_cons_of_pos (by simpa using h), List.map_cons, List.sum_cons]
      simp only [hsplit, hnone, List.sum_map_add, sum_indicator hnodup, List.map_cons, List.sum_cons]
      rw [← sum_by_key hnodup key value rest]
      by_cases h : ∃ k ∈ keys, key x = some k
      · simp only [h, if_true]
        abel
      · simp only [h, if_false]
        abel

end Keys

end Lists

end Lib
end Falkr
