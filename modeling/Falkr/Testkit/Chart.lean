import Falkr.Core.Money
import Falkr.Lib.SortedMap
import Mathlib.Data.String.Basic

/-!
# Chart — accounts, entities and sources

The reference data of the corpus.  Each list is indexed by the codes of its members; that the key
of a member is its code is part of the index (`CodeMap`).  An account is referred to by its code
alone or by its label, the code and the name with a hyphen between them.
-/

namespace Falkr

open Lib

/-! ## Accounts -/

/-- Which side of an account increases it. -/
inductive NormalBalance
  | debit
  | credit
  deriving DecidableEq, Repr

namespace NormalBalance

def flip : NormalBalance → NormalBalance
  | debit => credit
  | credit => debit

def asStr : NormalBalance → String
  | debit => "D"
  | credit => "C"

end NormalBalance

/-- The five statement classifications. -/
inductive AccountKind
  | asset
  | liability
  | equity
  | revenue
  | expense
  deriving DecidableEq, Repr

namespace AccountKind

/-- The side an account of this kind normally carries. -/
def naturalSide : AccountKind → NormalBalance
  | asset | expense => .debit
  | liability | equity | revenue => .credit

/-- Whether a balance on the wrong side is a defect by default. -/
def rejectsOppositeSignByDefault : AccountKind → Bool
  | asset | expense => true
  | liability | equity | revenue => false

def asStr : AccountKind → String
  | asset => "asset"
  | liability => "liability"
  | equity => "equity"
  | revenue => "revenue"
  | expense => "expense"

end AccountKind

/-- One account in the chart. -/
structure Account where
  code : String
  name : String
  kind : AccountKind
  contra : Bool
  /-- Overrides `rejectsOppositeSignByDefault`. -/
  allowOppositeSign : Option Bool
  /-- Restricts the account to one currency. -/
  currency : Option String
  /-- The subledger this account is the control account for. -/
  subledger : Option String
  intercompany : Bool
  fsCaption : String
  deriving DecidableEq

namespace Account

def normalBalance (self : Account) : NormalBalance :=
  if self.contra then self.kind.naturalSide.flip else self.kind.naturalSide

def permitsOppositeSign (self : Account) : Bool :=
  match self.allowOppositeSign with
  | some explicit => explicit
  | none => !self.kind.rejectsOppositeSignByDefault

/-- The form scenarios are written in, such as `1000-Cash`. -/
def label (self : Account) : String :=
  self.code ++ "-" ++ self.name

end Account

/-- A reporting entity. -/
structure Entity where
  code : String
  name : String
  functionalCcy : String
  /-- Immediate parent in the consolidation tree; empty for the top entity. -/
  parent : Option String
  ownership : Option String
  deriving DecidableEq

/-- The subsystem an entry came from. -/
structure Source where
  code : String
  description : String
  automated : Bool
  deriving DecidableEq

/-! ## Loading -/

/-- A map in which every value is under its own code. -/
structure CodeMap (ν : Type) (code : ν → String) where
  map : SortedMap String ν
  keyed : ∀ k v, map.get? k = some v → code v = k

namespace CodeMap

variable {ν : Type} {code : ν → String}

def empty : CodeMap ν code where
  map := .empty
  keyed := fun k v h => by simp at h

def get? (self : CodeMap ν code) (k : String) : Option ν :=
  self.map.get? k

def contains (self : CodeMap ν code) (k : String) : Bool :=
  self.map.contains k

def values (self : CodeMap ν code) : List ν :=
  self.map.values

def insert (self : CodeMap ν code) (v : ν) : CodeMap ν code where
  map := self.map.insert (code v) v
  keyed := by
    intro k w h
    rw [SortedMap.get?_insert] at h
    split_ifs at h with hk
    · cases h
      exact hk.symm
    · exact self.keyed k w h

theorem code_of_get? {self : CodeMap ν code} {k : String} {v : ν} (h : self.get? k = some v) :
    code v = k :=
  self.keyed k v h

theorem mem_values_of_get? {self : CodeMap ν code} {k : String} {v : ν}
    (h : self.get? k = some v) : v ∈ self.values :=
  List.mem_map.2 ⟨(k, v), SortedMap.get?_eq_some_iff.1 h, rfl⟩

end CodeMap

inductive ChartError
  | duplicateAccount (code : String)
  | duplicateEntity (code : String)
  | duplicateSource (code : String)
  | ambiguousSubledger (subledger first second : String)
  | unknownParent (entity parent : String)
  | unknownCurrency (context code : String)
  deriving DecidableEq

/-- The loaded reference data, indexed for lookup. -/
structure ChartOfAccounts where
  byCode : CodeMap Account Account.code
  entityMap : CodeMap Entity Entity.code
  sourceMap : CodeMap Source Source.code
  /-- Subledger name to control account code. -/
  controls : SortedMap String String

namespace ChartOfAccounts

def knownCurrency (context code : String) : Except ChartError Unit :=
  if (Currency.fromCode code).isNone then .error (.unknownCurrency context code) else .ok ()

/-- The loop over the accounts. -/
def loadAccounts : List Account → CodeMap Account Account.code → SortedMap String String →
    Except ChartError (CodeMap Account Account.code × SortedMap String String)
  | [], byCode, controls => .ok (byCode, controls)
  | account :: rest, byCode, controls => do
      if let some currency := account.currency then
        knownCurrency ("account " ++ account.code) currency
      -- A second control account of a subledger is refused before its own code is looked at.
      if let some subledger := account.subledger then
        if let some first := controls.get? subledger then
          throw (.ambiguousSubledger subledger first account.code)
      if byCode.contains account.code then
        throw (.duplicateAccount account.code)
      let controls :=
        match account.subledger with
        | some subledger => controls.insert subledger account.code
        | none => controls
      loadAccounts rest (byCode.insert account) controls

/-- The loop over the entities. -/
def loadEntities : List Entity → CodeMap Entity Entity.code →
    Except ChartError (CodeMap Entity Entity.code)
  | [], entityMap => .ok entityMap
  | entity :: rest, entityMap => do
      knownCurrency ("entity " ++ entity.code) entity.functionalCcy
      if entityMap.contains entity.code then
        throw (.duplicateEntity entity.code)
      loadEntities rest (entityMap.insert entity)

/-- Every parent that is named is itself an entity. -/
def checkParents (entityMap : CodeMap Entity Entity.code) :
    List Entity → Except ChartError Unit
  | [] => .ok ()
  | entity :: rest =>
      -- An empty parent is that of the top entity.
      match entity.parent.filter fun p => p ≠ "" with
      | some parent =>
          if entityMap.contains parent then checkParents entityMap rest
          else .error (.unknownParent entity.code parent)
      | none => checkParents entityMap rest

/-- The loop over the sources. -/
def loadSources : List Source → CodeMap Source Source.code →
    Except ChartError (CodeMap Source Source.code)
  | [], sourceMap => .ok sourceMap
  | source :: rest, sourceMap => do
      if sourceMap.contains source.code then
        throw (.duplicateSource source.code)
      loadSources rest (sourceMap.insert source)

/-- `ChartOfAccounts::load`, on the contents of the three files. -/
def load (accounts : List Account) (entities : List Entity) (sources : List Source) :
    Except ChartError ChartOfAccounts := do
  let (byCode, controls) ← loadAccounts accounts .empty .empty
  let entityMap ← loadEntities entities .empty
  -- A parent may stand after its child in the file, so all entities are read first.
  checkParents entityMap entityMap.values
  let sourceMap ← loadSources sources .empty
  pure { byCode := byCode, entityMap := entityMap, sourceMap := sourceMap, controls := controls }

/-! ## Lookup -/

/-- Resolves a code or a label; a known code with the wrong name attached is `none`. -/
def resolve (self : ChartOfAccounts) (reference : String) : Option Account :=
  match splitOnce '-' reference with
  -- Only the first hyphen separates; a name may have others.
  | some (code, name) =>
      (self.byCode.get? (trim code)).filter fun account => trim name = account.name
  | none => self.byCode.get? (trim reference)

def accounts (self : ChartOfAccounts) : List Account :=
  self.byCode.values

def entity (self : ChartOfAccounts) (code : String) : Option Entity :=
  self.entityMap.get? code

def entities (self : ChartOfAccounts) : List Entity :=
  self.entityMap.values

def source (self : ChartOfAccounts) (code : String) : Option Source :=
  self.sourceMap.get? code

def sources (self : ChartOfAccounts) : List Source :=
  self.sourceMap.values

/-- The control account for a named subledger. -/
def controlAccount (self : ChartOfAccounts) (subledger : String) : Option Account :=
  (self.controls.get? subledger).bind fun code => self.byCode.get? code

variable {self : ChartOfAccounts} {reference : String} {account : Account}

/-- A reference resolves to the account of the code in front of its first hyphen. -/
theorem get?_of_resolve (h : self.resolve reference = some account) :
    ∃ code, self.byCode.get? code = some account ∧ '-' ∉ code.toList := by
  unfold resolve at h
  split at h
  · rename_i code name hsplit
    refine ⟨trim code, (Option.filter_eq_some_iff.1 h).1, ?_⟩
    exact fun hmem => not_mem_of_splitOnce hsplit (mem_of_mem_trim hmem)
  · rename_i hsplit
    refine ⟨trim reference, h, ?_⟩
    exact fun hmem => not_mem_of_splitOnce_eq_none hsplit (mem_of_mem_trim hmem)

theorem mem_accounts_of_resolve (h : self.resolve reference = some account) :
    account ∈ self.accounts := by
  rcases get?_of_resolve h with ⟨code, hget, -⟩
  exact CodeMap.mem_values_of_get? hget

theorem not_mem_code_of_resolve (h : self.resolve reference = some account) :
    '-' ∉ account.code.toList := by
  rcases get?_of_resolve h with ⟨code, hget, hcode⟩
  rw [CodeMap.code_of_get? hget]
  exact hcode

end ChartOfAccounts

/-! ## Account numbers -/

/-- The part of a label in front of its first hyphen, or all of it. -/
def accountNumber (label : String) : String :=
  match splitOnce '-' label with
  | some (code, _) => code
  | none => label

/-- The number of a label is the code of the account. -/
theorem accountNumber_label {account : Account} (h : '-' ∉ account.code.toList) :
    accountNumber account.label = account.code := by
  have hsplit : splitOnce '-' account.label = some (account.code, account.name) :=
    splitOnce_append h account.name
  rw [accountNumber, hsplit]

end Falkr
