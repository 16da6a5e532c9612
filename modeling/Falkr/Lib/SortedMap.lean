import Falkr.Lib.Lists
import Mathlib.Algebra.BigOperators.Group.List.Basic
import Mathlib.Algebra.Group.Basic
import Mathlib.Data.List.Induction
import Mathlib.Data.List.Nodup
import Mathlib.Order.Lattice
import Mathlib.Tactic.Abel

/-!
# SortedMap — finite maps as strictly sorted association lists

A map is a list of entries together with a proof that its keys increase strictly, so a map with
two values under one key cannot be built.  Iteration is in key order and the functions are
structural recursions, so closed lookups evaluate.

The lemmas are the ones an incremental projection needs: what a lookup returns after an insertion
(`get?_insert`), that a map is determined by its lookups (`ext_get?`), and how a sum over all
entries moves when one entry is written (`sum_insert`).
-/

namespace Falkr
namespace Lib

/-- A finite map: entries in strictly increasing key order. -/
structure SortedMap (κ ν : Type) [LinearOrder κ] where
  entries : List (κ × ν)
  sorted : entries.Pairwise (fun a b => a.1 < b.1)

namespace SortedMap

variable {κ ν : Type} [LinearOrder κ]

@[ext] theorem ext {m n : SortedMap κ ν} (h : m.entries = n.entries) : m = n := by
  cases m
  cases n
  cases h
  rfl

instance [DecidableEq ν] : DecidableEq (SortedMap κ ν) := fun m n =>
  decidable_of_iff (m.entries = n.entries) ⟨ext, fun h => by rw [h]⟩

/-! ## Lookup -/

def lookup (k : κ) : List (κ × ν) → Option ν
  | [] => none
  | (k', v) :: rest => if k = k' then some v else lookup k rest

def get? (m : SortedMap κ ν) (k : κ) : Option ν :=
  lookup k m.entries

def contains (m : SortedMap κ ν) (k : κ) : Bool :=
  (m.get? k).isSome

def empty : SortedMap κ ν :=
  ⟨[], List.Pairwise.nil⟩

instance : Inhabited (SortedMap κ ν) := ⟨empty⟩

/-- The number of entries. -/
def size (m : SortedMap κ ν) : Nat :=
  m.entries.length

/-- The values in key order. -/
def values (m : SortedMap κ ν) : List ν :=
  m.entries.map Prod.snd

@[simp] theorem get?_empty (k : κ) : (empty : SortedMap κ ν).get? k = none := rfl

@[simp] theorem values_empty : (empty : SortedMap κ ν).values = [] := rfl

theorem lookup_eq_none_of_forall_lt {k : κ} :
    ∀ {l : List (κ × ν)}, (∀ e ∈ l, k < e.1) → lookup k l = none
  | [], _ => rfl
  | (k', v) :: rest, h => by
      have hne : k ≠ k' := (h (k', v) (by simp)).ne
      simp only [lookup, if_neg hne]
      exact lookup_eq_none_of_forall_lt fun e he => h e (by simp [he])

theorem mem_of_lookup_eq_some {k : κ} {v : ν} :
    ∀ {l : List (κ × ν)}, lookup k l = some v → (k, v) ∈ l
  | [], h => by simp [lookup] at h
  | (k', v') :: rest, h => by
      by_cases hk : k = k'
      · subst hk
        have hv : v' = v := by simpa [lookup] using h
        simp [hv]
      · have hrest : lookup k rest = some v := by simpa [lookup, hk] using h
        exact List.mem_cons_of_mem _ (mem_of_lookup_eq_some hrest)

theorem lookup_eq_some_of_mem {k : κ} {v : ν} :
    ∀ {l : List (κ × ν)}, l.Pairwise (fun a b => a.1 < b.1) → (k, v) ∈ l → lookup k l = some v
  | [], _, h => by simp at h
  | (k', v') :: rest, hs, h => by
      rcases List.pairwise_cons.1 hs with ⟨hhead, htail⟩
      rcases List.mem_cons.1 h with heq | hmem
      · cases heq
        simp [lookup]
      · have hne : k ≠ k' := (hhead (k, v) hmem).ne'
        simp only [lookup, if_neg hne]
        exact lookup_eq_some_of_mem htail hmem

theorem get?_eq_some_iff {m : SortedMap κ ν} {k : κ} {v : ν} :
    m.get? k = some v ↔ (k, v) ∈ m.entries :=
  ⟨mem_of_lookup_eq_some, lookup_eq_some_of_mem m.sorted⟩

/-! ## Insertion -/

/-- Ordered insertion; a value already under the key is replaced. -/
def insertEntry (k : κ) (v : ν) : List (κ × ν) → List (κ × ν)
  | [] => [(k, v)]
  | (k', v') :: rest =>
      if k < k' then (k, v) :: (k', v') :: rest
      else if k = k' then (k, v) :: rest
      else (k', v') :: insertEntry k v rest

theorem mem_insertEntry {k : κ} {v : ν} {e : κ × ν} :
    ∀ {l : List (κ × ν)}, e ∈ insertEntry k v l → e = (k, v) ∨ e ∈ l
  | [], h => by simpa [insertEntry] using h
  | (k', v') :: rest, h => by
      unfold insertEntry at h
      split_ifs at h
      · exact List.mem_cons.1 h
      · exact (List.mem_cons.1 h).imp_right (List.mem_cons_of_mem _)
      · rcases List.mem_cons.1 h with rfl | hrest
        · exact Or.inr (by simp)
        · exact (mem_insertEntry hrest).imp_right (List.mem_cons_of_mem _)

theorem pairwise_insertEntry (k : κ) (v : ν) :
    ∀ {l : List (κ × ν)}, l.Pairwise (fun a b => a.1 < b.1) →
      (insertEntry k v l).Pairwise (fun a b => a.1 < b.1)
  | [], _ => by simp [insertEntry]
  | (k', v') :: rest, hs => by
      rcases List.pairwise_cons.1 hs with ⟨hhead, htail⟩
      unfold insertEntry
      split_ifs with hlt heq
      · refine List.pairwise_cons.2 ⟨?_, hs⟩
        intro e he
        rcases List.mem_cons.1 he with rfl | hrest
        · exact hlt
        · exact hlt.trans (hhead e hrest)
      · subst heq
        exact List.pairwise_cons.2 ⟨hhead, htail⟩
      · have hk : k' < k := lt_of_le_of_ne (not_lt.1 hlt) (Ne.symm heq)
        refine List.pairwise_cons.2 ⟨?_, pairwise_insertEntry k v htail⟩
        intro e he
        rcases mem_insertEntry he with rfl | hrest
        · exact hk
        · exact hhead e hrest

def insert (m : SortedMap κ ν) (k : κ) (v : ν) : SortedMap κ ν :=
  ⟨insertEntry k v m.entries, pairwise_insertEntry k v m.sorted⟩

theorem lookup_insertEntry (k k' : κ) (v : ν) :
    ∀ l : List (κ × ν), lookup k' (insertEntry k v l) = if k' = k then some v else lookup k' l
  | [] => by simp [insertEntry, lookup]
  | (k₀, v₀) :: rest => by
      have ih := lookup_insertEntry k k' v rest
      by_cases hlt : k < k₀
      · simp [insertEntry, hlt, lookup]
      · by_cases heq : k = k₀
        · subst heq
          by_cases hk : k' = k <;> simp [insertEntry, lookup, hk]
        · by_cases hk : k' = k
          · -- The key sorts after `k₀`, so it is looked up in the tail.
            have hne : k' ≠ k₀ := hk ▸ heq
            simp only [insertEntry, if_neg hlt, if_neg heq, lookup, if_neg hne, ih]
          · simp [insertEntry, hlt, heq, lookup, ih, hk]

@[simp] theorem get?_insert (m : SortedMap κ ν) (k k' : κ) (v : ν) :
    (m.insert k v).get? k' = if k' = k then some v else m.get? k' :=
  lookup_insertEntry k k' v m.entries

theorem contains_insert (m : SortedMap κ ν) (k k' : κ) (v : ν) :
    (m.insert k v).contains k' = (decide (k' = k) || m.contains k') := by
  by_cases h : k' = k <;> simp [contains, h]

theorem insertEntry_of_forall_lt {k : κ} {v : ν} :
    ∀ {l : List (κ × ν)}, (∀ e ∈ l, e.1 < k) → insertEntry k v l = l ++ [(k, v)]
  | [], _ => rfl
  | (k', v') :: rest, h => by
      have hlt : k' < k := h (k', v') (by simp)
      have ih := insertEntry_of_forall_lt (v := v) fun e he => h e (List.mem_cons_of_mem _ he)
      rw [insertEntry, if_neg hlt.not_gt, if_neg hlt.ne', ih, List.cons_append]

/-- What is inserted in key order comes last. -/
theorem entries_insert_of_forall_lt (m : SortedMap κ ν) {k : κ} (v : ν)
    (h : ∀ e ∈ m.entries, e.1 < k) : (m.insert k v).entries = m.entries ++ [(k, v)] :=
  insertEntry_of_forall_lt h

/-! ## Collecting -/

/-- The map of a list of pairs, the last one winning where a key occurs twice. -/
def ofList (pairs : List (κ × ν)) : SortedMap κ ν :=
  pairs.foldl (fun m e => m.insert e.1 e.2) empty

/-- The values that a list pairs with one key. -/
def valuesAt (pairs : List (κ × ν)) (k : κ) : List ν :=
  (pairs.filter fun e => e.1 = k).map Prod.snd

theorem valuesAt_append (pairs pairs' : List (κ × ν)) (k : κ) :
    valuesAt (pairs ++ pairs') k = valuesAt pairs k ++ valuesAt pairs' k := by
  simp [valuesAt]

theorem get?_ofList (pairs : List (κ × ν)) (k : κ) :
    (ofList pairs).get? k = (valuesAt pairs k).getLast? := by
  -- On the pair inserted last, which replaces whatever its key had.
  induction pairs using List.reverseRecOn with
  | nil => rfl
  | append_singleton pairs e ih =>
      have hstep : ofList (pairs ++ [e]) = (ofList pairs).insert e.1 e.2 := by
        simp [ofList]
      rw [hstep, get?_insert, ih, valuesAt_append]
      by_cases hk : k = e.1
      · simp [valuesAt, hk]
      · simp [valuesAt, hk, Ne.symm hk]

/-- The only member that passes a test. -/
theorem filter_eq_singleton {β : Type} {l : List β} (h : l.Nodup) {a : β} (ha : a ∈ l)
    {p : β → Bool} (hp : p a = true) (hall : ∀ b ∈ l, p b = true → b = a) : l.filter p = [a] := by
  rcases List.append_of_mem ha with ⟨before, after, rfl⟩
  rw [List.nodup_append, List.nodup_cons] at h
  rcases h with ⟨-, ⟨hafter, -⟩, hbefore⟩
  have hfirst : before.filter p = [] := by
    refine List.filter_eq_nil_iff.2 fun b hb hpass => ?_
    exact hbefore b hb a (by simp) (hall b (by simp [hb]) hpass)
  have hlast : after.filter p = [] := by
    refine List.filter_eq_nil_iff.2 fun b hb hpass => ?_
    exact hafter (hall b (by simp [hb]) hpass ▸ hb)
  simp [hfirst, hlast, hp]

/-- Where no key occurs twice, every pair is kept. -/
theorem get?_ofList_iff {pairs : List (κ × ν)} (h : (pairs.map Prod.fst).Nodup) {k : κ} {v : ν} :
    (ofList pairs).get? k = some v ↔ (k, v) ∈ pairs := by
  rw [get?_ofList]
  constructor
  · intro hlast
    rcases List.mem_map.1 (List.mem_of_getLast? hlast) with ⟨e, he, rfl⟩
    rcases List.mem_filter.1 he with ⟨hmem, hk⟩
    have hkey : e.1 = k := by simpa using hk
    exact hkey ▸ hmem
  · intro hmem
    have honly : pairs.filter (fun e => e.1 = k) = [(k, v)] := by
      refine filter_eq_singleton h.of_map hmem (by simp) fun e he hk => ?_
      exact List.inj_on_of_nodup_map h he hmem (by simpa using hk)
    simp [valuesAt, honly]

theorem mem_entries_ofList {pairs : List (κ × ν)} (h : (pairs.map Prod.fst).Nodup) {e : κ × ν} :
    e ∈ (ofList pairs).entries ↔ e ∈ pairs := by
  rcases e with ⟨k, v⟩
  rw [← get?_eq_some_iff, get?_ofList_iff h]

/-- The keys in order. -/
def keys (m : SortedMap κ ν) : List κ :=
  m.entries.map Prod.fst

theorem mem_keys_iff {m : SortedMap κ ν} {k : κ} : k ∈ m.keys ↔ (m.get? k).isSome = true := by
  rw [keys, List.mem_map, Option.isSome_iff_exists]
  constructor
  · rintro ⟨⟨k', v⟩, hmem, rfl⟩
    exact ⟨v, get?_eq_some_iff.2 hmem⟩
  · rintro ⟨v, hv⟩
    exact ⟨(k, v), get?_eq_some_iff.1 hv, rfl⟩

/-- The keys of a collected map are those of the list. -/
theorem mem_keys_ofList {pairs : List (κ × ν)} {k : κ} :
    k ∈ (ofList pairs).keys ↔ ∃ v, (k, v) ∈ pairs := by
  have hvalues : valuesAt pairs k = [] ↔ ¬∃ v, (k, v) ∈ pairs := by
    rw [valuesAt, List.map_eq_nil_iff, List.filter_eq_nil_iff]
    constructor
    · rintro h ⟨v, hmem⟩
      simpa using h (k, v) hmem
    · rintro h ⟨k', v⟩ hmem hk
      have heq : k' = k := by simpa using hk
      exact h ⟨v, heq ▸ hmem⟩
  rw [mem_keys_iff, get?_ofList, ← not_iff_not, ← hvalues]
  cases hlist : valuesAt pairs k <;> simp

theorem nodup_keys (m : SortedMap κ ν) : m.keys.Nodup :=
  (List.pairwise_map.2 m.sorted).imp ne_of_lt

theorem nodup_entries (m : SortedMap κ ν) : m.entries.Nodup :=
  m.nodup_keys.of_map

/-- Where no key occurs twice, a map keeps the list but for its order. -/
theorem perm_entries_ofList {pairs : List (κ × ν)} (h : (pairs.map Prod.fst).Nodup) :
    (ofList pairs).entries.Perm pairs :=
  (List.perm_ext_iff_of_nodup (nodup_entries _) h.of_map).2 fun _ => mem_entries_ofList h

/-! ## A map is determined by its lookups -/

theorem mem_entries_iff_of_get?_eq {m n : SortedMap κ ν} (h : ∀ k, m.get? k = n.get? k)
    (e : κ × ν) : e ∈ m.entries ↔ e ∈ n.entries := by
  rcases e with ⟨k, v⟩
  rw [← get?_eq_some_iff, ← get?_eq_some_iff, h k]

theorem ext_get? {m n : SortedMap κ ν} (h : ∀ k, m.get? k = n.get? k) : m = n := by
  apply ext
  -- Same members without repetition make a permutation, and only one order is sorted.
  have hperm : m.entries.Perm n.entries :=
    (List.perm_ext_iff_of_nodup m.nodup_entries n.nodup_entries).2 (mem_entries_iff_of_get?_eq h)
  exact hperm.eq_of_pairwise (fun a b _ _ hab hba => absurd hab hba.not_gt) m.sorted n.sorted

/-! ## Equality of the values by another comparison -/

section Values

variable {μ : Type}

/-- The same keys, and under each the image of its value. -/
def mapValues (f : ν → μ) (m : SortedMap κ ν) : SortedMap κ μ where
  entries := m.entries.map fun e => (e.1, f e.2)
  sorted := List.pairwise_map.2 m.sorted

theorem get?_mapValues (f : ν → μ) (m : SortedMap κ ν) (k : κ) :
    (m.mapValues f).get? k = (m.get? k).map f := by
  ext v
  simp only [get?_eq_some_iff, mapValues, List.mem_map, Prod.mk.injEq, Option.map_eq_some_iff]
  constructor
  · rintro ⟨⟨k', w⟩, hmem, rfl, rfl⟩
    exact ⟨w, hmem, rfl⟩
  · rintro ⟨w, hmem, rfl⟩
    exact ⟨(k, w), hmem, rfl, rfl⟩

/-- The same keys in order, and equal values. -/
def eqBy (eq : ν → ν → Bool) (m n : SortedMap κ ν) : Bool :=
  m.entries.isEqv n.entries fun a b => decide (a.1 = b.1) && eq a.2 b.2

/-- If values are compared by an image of theirs, maps are compared lookup by lookup. -/
theorem eqBy_iff {eq : ν → ν → Bool} {f : ν → μ} (h : ∀ a b, eq a b = true ↔ f a = f b)
    (m n : SortedMap κ ν) : m.eqBy eq n = true ↔ ∀ k, (m.get? k).map f = (n.get? k).map f := by
  have hentry : ∀ a b : κ × ν, (decide (a.1 = b.1) && eq a.2 b.2) = true ↔
      (a.1, f a.2) = (b.1, f b.2) := by
    intro a b
    rw [Bool.and_eq_true, decide_eq_true_iff, h, Prod.mk.injEq]
  rw [eqBy, isEqv_iff_map_eq hentry]
  simp only [← get?_mapValues]
  constructor
  · intro heq k
    have hmaps : m.mapValues f = n.mapValues f := ext heq
    rw [hmaps]
  · intro hget
    exact congrArg entries (ext_get? hget)

theorem eqBy_refl {eq : ν → ν → Bool} (h : ∀ a, eq a a = true) (m : SortedMap κ ν) :
    m.eqBy eq m = true :=
  isEqv_refl (fun e => by rw [decide_eq_true rfl, h, Bool.and_self]) m.entries

end Values

/-! ## Sums over the entries -/

section Sums

variable {M : Type} [AddCommGroup M]

theorem sum_insertEntry (f : κ × ν → M) (k : κ) (v : ν) :
    ∀ {l : List (κ × ν)}, l.Pairwise (fun a b => a.1 < b.1) →
      ((insertEntry k v l).map f).sum =
        (l.map f).sum - ((lookup k l).elim 0 fun old => f (k, old)) + f (k, v)
  | [], _ => by simp [insertEntry, lookup]
  | (k', v') :: rest, hs => by
      rcases List.pairwise_cons.1 hs with ⟨hhead, htail⟩
      unfold insertEntry
      split_ifs with hlt heq
      · have hnone : lookup k ((k', v') :: rest) = none := by
          refine lookup_eq_none_of_forall_lt ?_
          intro e he
          rcases List.mem_cons.1 he with rfl | hrest
          · exact hlt
          · exact hlt.trans (hhead e hrest)
        rw [hnone]
        simp only [List.map_cons, List.sum_cons, Option.elim_none]
        abel
      · subst heq
        simp only [List.map_cons, List.sum_cons, lookup, if_true, Option.elim_some]
        abel
      · have ih := sum_insertEntry f k v htail
        simp only [List.map_cons, List.sum_cons, lookup, if_neg heq, ih]
        abel

/-- Writing one entry moves a sum over the map by the new term minus the one it replaces. -/
theorem sum_insert (m : SortedMap κ ν) (f : κ × ν → M) (k : κ) (v : ν) :
    ((m.insert k v).entries.map f).sum =
      (m.entries.map f).sum - ((m.get? k).elim 0 fun old => f (k, old)) + f (k, v) :=
  sum_insertEntry f k v m.sorted

end Sums

end SortedMap

end Lib
end Falkr
