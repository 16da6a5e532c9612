import Falkr.Lib.Chains
import Falkr.Lib.Returning
import Falkr.Testkit.Chart

/-!
# Reference — what loading the reference data guarantees

The indexes of a loaded chart hold the members of the lists and no others (`LoadedFrom`).  How an
account may be referred to, and whether the parents of the entities end, depends on more than
`load` looks at: on the characters of the codes and the names, and on the parents as a whole.
-/

namespace Falkr

open Lib

namespace CodeMap

variable {ν : Type} {code : ν → String} {self : CodeMap ν code} {l : List ν}

theorem get?_insert (self : CodeMap ν code) (v : ν) (k : String) :
    (self.insert v).get? k = if k = code v then some v else self.get? k :=
  SortedMap.get?_insert self.map (code v) k v

theorem get?_eq_none_of_contains {k : String} (h : ¬ self.contains k = true) :
    self.get? k = none := by
  rw [CodeMap.contains, SortedMap.contains, Bool.not_eq_true, Option.isSome_eq_false_iff,
    Option.isNone_iff_eq_none] at h
  exact h

/-- The index holds the members of the list, each under its code. -/
def Indexes (self : CodeMap ν code) (l : List ν) : Prop :=
  ∀ k v, self.get? k = some v ↔ v ∈ l ∧ code v = k

theorem indexes_empty : (CodeMap.empty : CodeMap ν code).Indexes [] := by
  intro k v
  have hnone : (CodeMap.empty : CodeMap ν code).get? k = none := rfl
  simp [hnone]

/-- A member with a new code is added to the index. -/
theorem Indexes.insert (h : self.Indexes l) {v : ν} (hnew : ¬ self.contains (code v) = true) :
    (self.insert v).Indexes (l ++ [v]) := by
  have hnone : self.get? (code v) = none := get?_eq_none_of_contains hnew
  intro k w
  rw [get?_insert]
  split_ifs with hk
  · subst hk
    constructor
    · intro hw
      cases hw
      exact ⟨by simp, rfl⟩
    · rintro ⟨hmem, hcode⟩
      rcases List.mem_append.1 hmem with hold | hlast
      · rw [(h (code v) w).2 ⟨hold, hcode⟩] at hnone
        cases hnone
      · rw [List.mem_singleton.1 hlast]
  · rw [h k w]
    constructor
    · exact fun hold => ⟨List.mem_append_left [v] hold.1, hold.2⟩
    · rintro ⟨hmem, hcode⟩
      rcases List.mem_append.1 hmem with hold | hlast
      · exact ⟨hold, hcode⟩
      · rw [List.mem_singleton.1 hlast] at hcode
        exact absurd hcode.symm hk

theorem Indexes.get?_of_mem (h : self.Indexes l) {v : ν} (hv : v ∈ l) :
    self.get? (code v) = some v :=
  (h (code v) v).2 ⟨hv, rfl⟩

theorem Indexes.mem_of_get? (h : self.Indexes l) {k : String} {v : ν}
    (hget : self.get? k = some v) : v ∈ l :=
  ((h k v).1 hget).1

theorem Indexes.mem_values_iff (h : self.Indexes l) {v : ν} : v ∈ self.values ↔ v ∈ l := by
  constructor
  · intro hv
    rcases List.mem_map.1 hv with ⟨⟨k, w⟩, hmem, rfl⟩
    exact h.mem_of_get? (SortedMap.get?_eq_some_iff.2 hmem)
  · exact fun hv => mem_values_of_get? (h.get?_of_mem hv)

end CodeMap

/-! ## Loading -/

/-- The entity that is named as the parent; an empty code names none. -/
def Entity.parentCode (self : Entity) : Option String :=
  self.parent.filter fun p => p ≠ ""

namespace ChartOfAccounts

variable {accounts : List Account} {entities : List Entity} {sources : List Source}
  {chart : ChartOfAccounts}

/-- Where the loop goes on, the code of the account is new. -/
theorem of_loadAccounts_cons {account : Account} {rest : List Account}
    {byCode byCode' : CodeMap Account Account.code} {controls controls' : SortedMap String String}
    (h : loadAccounts (account :: rest) byCode controls = .ok (byCode', controls')) :
    ¬ byCode.contains account.code = true ∧
      ∃ controls₁, loadAccounts rest (byCode.insert account) controls₁ =
        .ok (byCode', controls') := by
  unfold loadAccounts at h
  cases hsub : account.subledger with
  | none =>
      rw [hsub] at h
      dsimp only at h
      have hgo := of_guard_eq_ok (by
        split at h
        · rcases bind_eq_ok h with ⟨-, -, hrest⟩
          exact hrest
        · exact h)
      exact ⟨hgo.1, _, hgo.2⟩
  | some subledger =>
      rw [hsub] at h
      dsimp only at h
      cases hfirst : controls.get? subledger with
      | some first =>
          -- The subledger has a control account already.
          rw [hfirst] at h
          dsimp only at h
          split at h
          · rcases bind_eq_ok h with ⟨-, -, hrest⟩
            cases hrest
          · cases h
      | none =>
          rw [hfirst] at h
          dsimp only at h
          have hgo := of_guard_eq_ok (by
            split at h
            · rcases bind_eq_ok h with ⟨-, -, hrest⟩
              exact hrest
            · exact h)
          exact ⟨hgo.1, _, hgo.2⟩

theorem loadAccounts_indexes {read rest : List Account}
    {byCode byCode' : CodeMap Account Account.code} {controls controls' : SortedMap String String}
    (hread : byCode.Indexes read)
    (h : loadAccounts rest byCode controls = .ok (byCode', controls')) :
    byCode'.Indexes (read ++ rest) := by
  induction rest generalizing read byCode controls with
  | nil =>
      cases h
      rwa [List.append_nil]
  | cons account rest ih =>
      rcases of_loadAccounts_cons h with ⟨hnew, controls₁, hrest⟩
      have hindexes := ih (hread.insert hnew) hrest
      rwa [List.append_assoc] at hindexes

theorem loadEntities_indexes {read rest : List Entity} {map map' : CodeMap Entity Entity.code}
    (hread : map.Indexes read) (h : loadEntities rest map = .ok map') :
    map'.Indexes (read ++ rest) := by
  induction rest generalizing read map with
  | nil =>
      cases h
      rwa [List.append_nil]
  | cons entity rest ih =>
      rcases bind_eq_ok h with ⟨-, -, h⟩
      rcases of_guard_eq_ok h with ⟨hnew, hrest⟩
      have hindexes := ih (hread.insert hnew) hrest
      rwa [List.append_assoc] at hindexes

theorem contains_of_checkParents {map : CodeMap Entity Entity.code} {l : List Entity}
    (h : checkParents map l = .ok ()) {entity : Entity} (hmem : entity ∈ l) {parent : String}
    (hparent : entity.parentCode = some parent) : map.contains parent = true := by
  induction l with
  | nil => cases hmem
  | cons first rest ih =>
      have hrest : checkParents map rest = .ok () ∧
          ∀ p, first.parentCode = some p → map.contains p = true := by
        unfold checkParents at h
        unfold Entity.parentCode
        split at h
        · rename_i p hp
          rw [hp]
          split_ifs at h with hc
          refine ⟨h, ?_⟩
          intro p' hp'
          cases hp'
          exact hc
        · rename_i hp
          rw [hp]
          exact ⟨h, fun p' hp' => by cases hp'⟩
      rcases List.mem_cons.1 hmem with rfl | hmem
      · exact hrest.2 parent hparent
      · exact ih hrest.1 hmem

/-- A chart that was loaded from two lists of accounts and entities. -/
structure LoadedFrom (chart : ChartOfAccounts) (accounts : List Account) (entities : List Entity) :
    Prop where
  accounts_indexed : chart.byCode.Indexes accounts
  entities_indexed : chart.entityMap.Indexes entities
  /-- Every parent that is named is an entity. -/
  parent_known : ∀ e ∈ entities, ∀ p, e.parentCode = some p → ∃ parent ∈ entities, parent.code = p

theorem loadedFrom_of_load (h : load accounts entities sources = .ok chart) :
    chart.LoadedFrom accounts entities := by
  rcases bind_eq_ok h with ⟨⟨byCode, controls⟩, haccounts, h⟩
  rcases bind_eq_ok h with ⟨entityMap, hentities, h⟩
  rcases bind_eq_ok h with ⟨⟨⟩, hparents, h⟩
  rcases bind_eq_ok h with ⟨sourceMap, -, h⟩
  cases h
  have hindexes := loadEntities_indexes CodeMap.indexes_empty hentities
  refine ⟨loadAccounts_indexes CodeMap.indexes_empty haccounts, hindexes, ?_⟩
  intro e he p hp
  have hcontains := contains_of_checkParents hparents (hindexes.mem_values_iff.2 he) hp
  rcases Option.isSome_iff_exists.1 hcontains with ⟨parent, hget⟩
  exact ⟨parent, ((hindexes p parent).1 hget).1, ((hindexes p parent).1 hget).2⟩

/-! ## References -/

/-- The code of the account alone, or its code, a hyphen and its name, up to blanks around them. -/
def Names (reference : String) (account : Account) : Prop :=
  trim reference = account.code ∨ ∃ code name, reference = code ++ "-" ++ name ∧
    trim code = account.code ∧ trim name = account.name

/-- Labels and codes lead back to their accounts, and nothing else leads to an account. -/
structure ReferencesRoundTrip (chart : ChartOfAccounts) : Prop where
  resolve_label : ∀ a ∈ chart.accounts, chart.resolve a.label = some a
  resolve_code : ∀ a ∈ chart.accounts, chart.resolve a.code = some a
  names_of_resolve : ∀ reference a, chart.resolve reference = some a → Names reference a

/-- The code has no hyphen, and neither the code nor the name has blanks around it. -/
structure Referable (account : Account) : Prop where
  hyphen_not_mem : '-' ∉ account.code.toList
  trim_code : trim account.code = account.code
  trim_name : trim account.name = account.name

theorem names_of_resolve {reference : String} {a : Account}
    (h : chart.resolve reference = some a) : Names reference a := by
  unfold resolve at h
  split at h
  · rename_i code name hsplit
    rcases Option.filter_eq_some_iff.1 h with ⟨hget, hname⟩
    refine Or.inr ⟨code, name, ?_, (CodeMap.code_of_get? hget).symm, by simpa using hname⟩
    refine String.toList_inj.1 ?_
    rw [(splitOnce_eq_some_iff.1 hsplit).1]
    simp
  · exact Or.inl (CodeMap.code_of_get? h).symm

variable {a : Account}

/-- A label is cut behind the code, so the name comes back trimmed. -/
theorem resolve_label_of_hyphen_not_mem (h : '-' ∉ a.code.toList) :
    chart.resolve a.label =
      (chart.byCode.get? (trim a.code)).filter fun account => trim a.name = account.name := by
  have hsplit : splitOnce '-' a.label = some (a.code, a.name) := splitOnce_append h a.name
  rw [resolve, hsplit]

theorem resolve_code_of_hyphen_not_mem (h : '-' ∉ a.code.toList) :
    chart.resolve a.code = chart.byCode.get? (trim a.code) := by
  rw [resolve, splitOnce_eq_none h]

theorem referable_of_resolve (hlabel : chart.resolve a.label = some a)
    (hcode : chart.resolve a.code = some a) : Referable a := by
  have hhyphen := not_mem_code_of_resolve hcode
  rw [resolve_code_of_hyphen_not_mem hhyphen] at hcode
  rw [resolve_label_of_hyphen_not_mem hhyphen] at hlabel
  refine ⟨hhyphen, (CodeMap.code_of_get? hcode).symm, ?_⟩
  simpa using (Option.filter_eq_some_iff.1 hlabel).2

/-- References round-trip exactly when no code has a hyphen and nothing has blanks around it. -/
theorem referencesRoundTrip_iff (h : load accounts entities sources = .ok chart) :
    chart.ReferencesRoundTrip ↔ ∀ a ∈ accounts, Referable a := by
  have hindexed := (loadedFrom_of_load h).accounts_indexed
  constructor
  · intro hround a ha
    have hmem := hindexed.mem_values_iff.2 ha
    exact referable_of_resolve (hround.resolve_label a hmem) (hround.resolve_code a hmem)
  · intro hall
    have hget : ∀ a ∈ chart.accounts, chart.byCode.get? a.code = some a :=
      fun a ha => hindexed.get?_of_mem (hindexed.mem_values_iff.1 ha)
    have hreferable : ∀ a ∈ chart.accounts, Referable a :=
      fun a ha => hall a (hindexed.mem_values_iff.1 ha)
    refine ⟨fun a ha => ?_, fun a ha => ?_, fun reference a => names_of_resolve⟩
    · rcases hreferable a ha with ⟨hhyphen, hcode, hname⟩
      rw [resolve_label_of_hyphen_not_mem hhyphen, hcode, hget a ha]
      simp [hname]
    · rcases hreferable a ha with ⟨hhyphen, hcode, -⟩
      rw [resolve_code_of_hyphen_not_mem hhyphen, hcode, hget a ha]

/-- An asset account without any of the optional fields. -/
def assetAccount (code name : String) : Account where
  code := code
  name := name
  kind := .asset
  contra := false
  allowOppositeSign := none
  currency := none
  subledger := none
  intercompany := false
  fsCaption := name

def oneAccountChart (account : Account) : ChartOfAccounts where
  byCode := CodeMap.empty.insert account
  entityMap := .empty
  sourceMap := .empty
  controls := .empty

theorem referencesRoundTrip_cash :
    load [assetAccount "1000" "Cash"] [] [] = .ok (oneAccountChart (assetAccount "1000" "Cash")) ∧
      (oneAccountChart (assetAccount "1000" "Cash")).ReferencesRoundTrip := by
  have hload : load [assetAccount "1000" "Cash"] [] [] =
      .ok (oneAccountChart (assetAccount "1000" "Cash")) := rfl
  refine ⟨hload, (referencesRoundTrip_iff hload).2 fun a ha => ?_⟩
  rw [List.mem_singleton.1 ha]
  exact ⟨by decide +kernel, by decide +kernel, by decide +kernel⟩

/-- A code with a hyphen, a code behind a blank and a name in front of one are all loaded, and
neither the codes nor the label lead back. -/
theorem not_referencesRoundTrip_hyphen_or_blank :
    (load [assetAccount "10-00" "Cash"] [] [] =
        .ok (oneAccountChart (assetAccount "10-00" "Cash")) ∧
      ¬ (oneAccountChart (assetAccount "10-00" "Cash")).ReferencesRoundTrip) ∧
    (load [assetAccount " 1000" "Cash"] [] [] =
        .ok (oneAccountChart (assetAccount " 1000" "Cash")) ∧
      ¬ (oneAccountChart (assetAccount " 1000" "Cash")).ReferencesRoundTrip) ∧
    (load [assetAccount "1000" "Cash "] [] [] =
        .ok (oneAccountChart (assetAccount "1000" "Cash ")) ∧
      ¬ (oneAccountChart (assetAccount "1000" "Cash ")).ReferencesRoundTrip) := by
  have hmem : ∀ a, a ∈ (oneAccountChart a).accounts := fun a => List.mem_singleton_self a
  refine ⟨⟨rfl, fun h => ?_⟩, ⟨rfl, fun h => ?_⟩, rfl, fun h => ?_⟩
  · exact absurd (h.resolve_code _ (hmem _)) (by decide +kernel)
  · exact absurd (h.resolve_code _ (hmem _)) (by decide +kernel)
  · exact absurd (h.resolve_label _ (hmem _)) (by decide +kernel)

/-! ## Parents -/

/-- The entity that the parent of an entity is. -/
def parentOf (self : ChartOfAccounts) (entity : Entity) : Option Entity :=
  entity.parentCode.bind self.entity

/-- Following the parents leads, after finitely many steps, to an entity that has none. -/
def ConsolidationForest (chart : ChartOfAccounts) : Prop :=
  ∀ e ∈ chart.entities, ∃ n top, walk chart.parentOf n e = some top ∧ top.parentCode = none

theorem ConsolidationForest.ends (h : chart.ConsolidationForest) {e : Entity}
    (he : e ∈ chart.entities) : Ends chart.parentOf e := by
  rcases h e he with ⟨n, top, hwalk, htop⟩
  refine ⟨n, top, hwalk, ?_⟩
  rw [parentOf, htop, Option.bind_none]

/-- Of two entities of the list the first names the second as its parent. -/
structure NamesParent (entities : List Entity) (child parent : Entity) : Prop where
  child_mem : child ∈ entities
  parent_mem : parent ∈ entities
  names : child.parentCode = some parent.code

theorem LoadedFrom.parentOf_eq_some_iff (h : chart.LoadedFrom accounts entities)
    {child parent : Entity} (hchild : child ∈ entities) :
    chart.parentOf child = some parent ↔ NamesParent entities child parent := by
  rw [parentOf, Option.bind_eq_some_iff]
  constructor
  · rintro ⟨code, hcode, hget⟩
    rcases (h.entities_indexed code parent).1 hget with ⟨hparent, rfl⟩
    exact ⟨hchild, hparent, hcode⟩
  · intro hnames
    exact ⟨parent.code, hnames.names, h.entities_indexed.get?_of_mem hnames.parent_mem⟩

/-- Every named parent was loaded, so a chain ends only where none is named. -/
theorem LoadedFrom.parentOf_eq_none_iff (h : chart.LoadedFrom accounts entities) {e : Entity}
    (he : e ∈ entities) : chart.parentOf e = none ↔ e.parentCode = none := by
  constructor
  · intro hnone
    cases hcode : e.parentCode with
    | none => rfl
    | some code =>
        rcases h.parent_known e he code hcode with ⟨parent, hparent, rfl⟩
        rw [(h.parentOf_eq_some_iff he).2 ⟨he, hparent, hcode⟩] at hnone
        cases hnone
  · intro hnone
    rw [parentOf, hnone, Option.bind_none]

/-- A chain of parents in the chart is a chain of named parents in the list. -/
theorem LoadedFrom.transGen_iff (h : chart.LoadedFrom accounts entities) {e ancestor : Entity}
    (he : e ∈ entities) :
    Relation.TransGen (StepsTo chart.parentOf) e ancestor ↔
      Relation.TransGen (NamesParent entities) e ancestor := by
  constructor
  · intro hchain
    induction hchain with
    | single hstep => exact .single ((h.parentOf_eq_some_iff he).1 hstep)
    | tail _ hstep ih =>
        rcases Relation.TransGen.tail'_iff.1 ih with ⟨child, -, hlast⟩
        exact ih.tail ((h.parentOf_eq_some_iff hlast.parent_mem).1 hstep)
  · intro hchain
    refine hchain.lift id fun child parent hnames => ?_
    exact (h.parentOf_eq_some_iff hnames.child_mem).2 hnames

theorem LoadedFrom.acyclic_iff (h : chart.LoadedFrom accounts entities) :
    Acyclic chart.parentOf entities ↔
      ∀ e ∈ entities, ¬ Relation.TransGen (NamesParent entities) e e :=
  forall₂_congr fun _ he => not_congr (h.transGen_iff he)

/-- The parents form a forest exactly when no entity of the list is an ancestor of itself. -/
theorem consolidationForest_iff (h : load accounts entities sources = .ok chart) :
    chart.ConsolidationForest ↔
      ∀ e ∈ entities, ¬ Relation.TransGen (NamesParent entities) e e := by
  have hfrom := loadedFrom_of_load h
  have hclosed : ∀ e ∈ entities, ∀ parent, StepsTo chart.parentOf e parent → parent ∈ entities :=
    fun e he parent hstep => ((hfrom.parentOf_eq_some_iff he).1 hstep).parent_mem
  rw [← hfrom.acyclic_iff, ← forall_ends_iff_acyclic hclosed]
  constructor
  · exact fun hforest e he => hforest.ends (hfrom.entities_indexed.mem_values_iff.2 he)
  · intro hends e he
    have hmem := hfrom.entities_indexed.mem_values_iff.1 he
    rcases hends e hmem with ⟨n, top, hwalk, htop⟩
    have htop_mem : top ∈ entities := mem_of_walk hclosed hmem hwalk
    exact ⟨n, top, hwalk, (hfrom.parentOf_eq_none_iff htop_mem).1 htop⟩

def entityBelow (code : String) (parent : Option String) : Entity where
  code := code
  name := code
  functionalCcy := "USD"
  parent := parent
  ownership := none

def entitiesChart (entities : List Entity) : ChartOfAccounts where
  byCode := .empty
  entityMap := entities.foldl CodeMap.insert .empty
  sourceMap := .empty
  controls := .empty

theorem consolidationForest_two_tiers :
    load [] [entityBelow "EU_SUB" (some "US_PARENT"), entityBelow "US_PARENT" none] [] =
        .ok (entitiesChart [entityBelow "EU_SUB" (some "US_PARENT"),
          entityBelow "US_PARENT" none]) ∧
      (entitiesChart [entityBelow "EU_SUB" (some "US_PARENT"),
        entityBelow "US_PARENT" none]).ConsolidationForest := by
  have hload : load [] [entityBelow "EU_SUB" (some "US_PARENT"), entityBelow "US_PARENT" none] [] =
      .ok (entitiesChart [entityBelow "EU_SUB" (some "US_PARENT"),
        entityBelow "US_PARENT" none]) := rfl
  refine ⟨hload, (consolidationForest_iff hload).2 fun e he hcycle => ?_⟩
  rcases Relation.TransGen.head'_iff.1 hcycle with ⟨_, hup, -⟩
  rcases Relation.TransGen.tail'_iff.1 hcycle with ⟨child, -, hdown⟩
  -- Nothing is above the one entity and nothing below the other.
  simp only [List.mem_cons, List.not_mem_nil, or_false] at he
  rcases he with rfl | rfl
  · have hchild := hdown.child_mem
    simp only [List.mem_cons, List.not_mem_nil, or_false] at hchild
    rcases hchild with rfl | rfl
    · exact absurd hdown.names (by decide +kernel)
    · exact absurd hdown.names (by decide +kernel)
  · cases hup.names

/-- An entity that is its own parent is loaded, and so are two that are each other's. -/
theorem not_consolidationForest_cycle :
    (load [] [entityBelow "A" (some "A")] [] =
        .ok (entitiesChart [entityBelow "A" (some "A")]) ∧
      ¬ (entitiesChart [entityBelow "A" (some "A")]).ConsolidationForest) ∧
    (load [] [entityBelow "A" (some "B"), entityBelow "B" (some "A")] [] =
        .ok (entitiesChart [entityBelow "A" (some "B"), entityBelow "B" (some "A")]) ∧
      ¬ (entitiesChart [entityBelow "A" (some "B"),
          entityBelow "B" (some "A")]).ConsolidationForest) := by
  refine ⟨⟨rfl, fun h => ?_⟩, rfl, fun h => ?_⟩
  · have hmem : entityBelow "A" (some "A") ∈
        (entitiesChart [entityBelow "A" (some "A")]).entities := by decide +kernel
    exact not_ends_of_cycle (.single (by unfold StepsTo; decide +kernel)) (h.ends hmem)
  · have hmem : entityBelow "A" (some "B") ∈
        (entitiesChart [entityBelow "A" (some "B"), entityBelow "B" (some "A")]).entities := by
      decide +kernel
    have hup : StepsTo (entitiesChart [entityBelow "A" (some "B"),
        entityBelow "B" (some "A")]).parentOf (entityBelow "A" (some "B"))
          (entityBelow "B" (some "A")) := by
      unfold StepsTo
      decide +kernel
    have hback : StepsTo (entitiesChart [entityBelow "A" (some "B"),
        entityBelow "B" (some "A")]).parentOf (entityBelow "B" (some "A"))
          (entityBelow "A" (some "B")) := by
      unfold StepsTo
      decide +kernel
    exact not_ends_of_cycle (.tail (.single hup) hback) (h.ends hmem)

end ChartOfAccounts

end Falkr
