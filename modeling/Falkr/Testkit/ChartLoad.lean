import Falkr.Lib.Admission
import Falkr.Testkit.Reference
import Mathlib.Data.List.Perm.Basic

/-!
# ChartLoad — which reference data is accepted, and what is then in the chart

`load` goes through the three lists once and keeps, besides the indexes, the control account of
every subledger it has met.  The files it accepts are those without a second code, a second control
account, an unknown currency and an unknown parent; the chart then holds every member once, and the
control account of a subledger is the account that names it.  A refusal points at a member that is
really at fault (`load_wellFormed_or_reports`).
-/

namespace Falkr

open Lib

/-! ## The faults of a list -/

/-- The currency that an account is restricted to is known. -/
def Account.CurrencyKnown (self : Account) : Prop :=
  ∀ code, self.currency = some code → (Currency.fromCode code).isSome = true

def Entity.CurrencyKnown (self : Entity) : Prop :=
  (Currency.fromCode self.functionalCcy).isSome = true

/-- Two accounts have different codes, and are not the control accounts of one subledger. -/
structure Account.Apart (a b : Account) : Prop where
  code : a.code ≠ b.code
  subledger : ∀ s, a.subledger = some s → b.subledger ≠ some s

namespace ChartOfAccounts

/-- What is wrong with an account behind the accounts in front of it. -/
inductive AccountFault (before : List Account) (account : Account) : ChartError → Prop
  | currency {code : String} (hcode : account.currency = some code)
      (hunknown : Currency.fromCode code = none) :
      AccountFault before account (.unknownCurrency ("account " ++ account.code) code)
  | subledger {first : Account} {s : String} (hfirst : first ∈ before)
      (hcontrol : first.subledger = some s) (hsubledger : account.subledger = some s) :
      AccountFault before account (.ambiguousSubledger s first.code account.code)
  | code {first : Account} (hfirst : first ∈ before) (hcode : first.code = account.code) :
      AccountFault before account (.duplicateAccount account.code)

inductive EntityFault (before : List Entity) (entity : Entity) : ChartError → Prop
  | currency (hunknown : Currency.fromCode entity.functionalCcy = none) :
      EntityFault before entity (.unknownCurrency ("entity " ++ entity.code) entity.functionalCcy)
  | code {first : Entity} (hfirst : first ∈ before) (hcode : first.code = entity.code) :
      EntityFault before entity (.duplicateEntity entity.code)

inductive SourceFault (before : List Source) (source : Source) : ChartError → Prop
  | code {first : Source} (hfirst : first ∈ before) (hcode : first.code = source.code) :
      SourceFault before source (.duplicateSource source.code)

def accountAdmission : Admission Account ChartError where
  alone := Account.CurrencyKnown
  apart := Account.Apart
  fault := AccountFault
  fault_real := by
    intro before account e hfault hknown
    cases hfault with
    | currency hcode hunknown =>
        have hsome := hknown _ hcode
        rw [hunknown] at hsome
        cases hsome
    | subledger hfirst hcontrol hsubledger =>
        exact ⟨_, hfirst, fun hapart => hapart.subledger _ hcontrol hsubledger⟩
    | code hfirst hcode => exact ⟨_, hfirst, fun hapart => hapart.code hcode⟩

def entityAdmission : Admission Entity ChartError where
  alone := Entity.CurrencyKnown
  apart := fun a b => a.code ≠ b.code
  fault := EntityFault
  fault_real := by
    intro before entity e hfault hknown
    cases hfault with
    | currency hunknown =>
        rw [Entity.CurrencyKnown, hunknown] at hknown
        cases hknown
    | code hfirst hcode => exact ⟨_, hfirst, fun hapart => hapart hcode⟩

def sourceAdmission : Admission Source ChartError where
  alone := fun _ => True
  apart := fun a b => a.code ≠ b.code
  fault := SourceFault
  fault_real := by
    intro before source e hfault _
    cases hfault with
    | code hfirst hcode => exact ⟨_, hfirst, fun hapart => hapart hcode⟩

/-! ## The loops -/

section Loops

variable {read : List Account} {byCode : CodeMap Account Account.code}
  {controls : SortedMap String String}

/-- The control accounts that have been met. -/
def Controls (controls : SortedMap String String) (read : List Account) : Prop :=
  ∀ s code, controls.get? s = some code ↔ ∃ a ∈ read, a.subledger = some s ∧ a.code = code

theorem controls_empty : Controls .empty [] := by
  simp [Controls]

/-- A code that is not in the index is that of no member. -/
theorem code_ne_of_contains {ν : Type} {code : ν → String} {map : CodeMap ν code} {read : List ν}
    (h : map.Indexes read) {v : ν} (hnew : ¬ map.contains (code v) = true) :
    ∀ b ∈ read, code b ≠ code v := by
  intro b hb heq
  have hget := h.get?_of_mem hb
  rw [heq, CodeMap.get?_eq_none_of_contains hnew] at hget
  cases hget

theorem exists_of_contains {ν : Type} {code : ν → String} {map : CodeMap ν code} {read : List ν}
    (h : map.Indexes read) {k : String} (hin : map.contains k = true) :
    ∃ b ∈ read, code b = k := by
  rcases Option.isSome_iff_exists.1 hin with ⟨b, hget⟩
  exact ⟨b, h.mem_of_get? hget, CodeMap.code_of_get? hget⟩

/-- The control account of a new subledger is kept, whether the account is one or not. -/
def keepControl (controls : SortedMap String String) (account : Account) :
    SortedMap String String :=
  match account.subledger with
  | some subledger => controls.insert subledger account.code
  | none => controls

theorem Controls.keepControl {account : Account} (h : Controls controls read)
    (hnew : ∀ s, account.subledger = some s → controls.get? s = none) :
    Controls (keepControl controls account) (read ++ [account]) := by
  intro s code
  have hread : (∃ a ∈ read ++ [account], a.subledger = some s ∧ a.code = code) ↔
      controls.get? s = some code ∨ account.subledger = some s ∧ account.code = code := by
    rw [h s code]
    constructor
    · rintro ⟨a, ha, hcontrol⟩
      rcases List.mem_append.1 ha with ha | ha
      · exact Or.inl ⟨a, ha, hcontrol⟩
      · rw [List.mem_singleton.1 ha] at hcontrol
        exact Or.inr hcontrol
    · rintro (⟨a, ha, hcontrol⟩ | hcontrol)
      · exact ⟨a, List.mem_append_left [account] ha, hcontrol⟩
      · exact ⟨account, by simp, hcontrol⟩
  rw [hread, ChartOfAccounts.keepControl]
  cases hsub : account.subledger with
  | none => simp
  | some subledger =>
      rw [SortedMap.get?_insert]
      split_ifs with hs
      · subst hs
        simp [hnew s hsub]
      · simp [Ne.symm hs]

/-- The check of the currency that an account is restricted to. -/
def checkCurrency (account : Account) : Except ChartError Unit :=
  match account.currency with
  | some code => knownCurrency ("account " ++ account.code) code
  | none => .ok ()

theorem knownCurrency_cases (context code : String) :
    (Currency.fromCode code).isSome = true ∧ knownCurrency context code = .ok () ∨
      Currency.fromCode code = none ∧
        knownCurrency context code = .error (.unknownCurrency context code) := by
  rw [knownCurrency]
  cases Currency.fromCode code <;> simp

theorem checkCurrency_cases (account : Account) :
    account.CurrencyKnown ∧ checkCurrency account = .ok () ∨
      ∃ e, checkCurrency account = .error e ∧ ∀ before, AccountFault before account e := by
  rw [checkCurrency]
  cases hcode : account.currency with
  | none => exact Or.inl ⟨fun code h => by simp [hcode] at h, rfl⟩
  | some code =>
      rcases knownCurrency_cases ("account " ++ account.code) code with ⟨hsome, hok⟩ | ⟨hnone, herr⟩
      · refine Or.inl ⟨fun c hc => ?_, hok⟩
        rw [hcode] at hc
        cases hc
        exact hsome
      · exact Or.inr ⟨_, herr, fun before => .currency hcode hnone⟩

/-- The loop behind the check of the currency. -/
theorem loadAccounts_cons (account : Account) (rest : List Account) :
    loadAccounts (account :: rest) byCode controls =
      checkCurrency account >>= fun _ =>
        match account.subledger.bind fun s => (controls.get? s).map fun first => (s, first) with
        | some (s, first) => .error (.ambiguousSubledger s first account.code)
        | none =>
            if byCode.contains account.code then .error (.duplicateAccount account.code)
            else loadAccounts rest (byCode.insert account)
              (ChartOfAccounts.keepControl controls account) := by
  rw [loadAccounts]
  cases hcode : account.currency <;> cases hs : account.subledger with
  | none => simp [hs, hcode, ChartOfAccounts.keepControl, checkCurrency]; rfl
  | some s =>
      cases hg : controls.get? s <;>
        simp [hs, hcode, ChartOfAccounts.keepControl, checkCurrency, hg] <;> rfl

theorem passes_loadAccounts : accountAdmission.Passes
    (fun read s => s.1.Indexes read ∧ Controls s.2 read)
    fun accounts s => loadAccounts accounts s.1 s.2 := by
  rintro read ⟨byCode, controls⟩ account rest ⟨hindexes, hcontrols⟩
  dsimp only
  rw [loadAccounts_cons]
  -- The checks in the order of the loop: currency, subledger, code.
  rcases checkCurrency_cases account with ⟨hknown, hok⟩ | ⟨e, herr, hfault⟩
  · rw [hok]
    cases hmet : account.subledger.bind fun s => (controls.get? s).map fun first => (s, first) with
    | some met =>
        -- The subledger has a control account in front of this one.
        rcases Option.bind_eq_some_iff.1 hmet with ⟨s, hsub, hmap⟩
        rcases Option.map_eq_some_iff.1 hmap with ⟨code, hget, rfl⟩
        rcases (hcontrols s code).1 hget with ⟨first, hfirst, hcontrol, rfl⟩
        exact Or.inr ⟨_, rfl, .subledger hfirst hcontrol hsub⟩
    | none =>
        have hnew : ∀ s, account.subledger = some s → controls.get? s = none := by
          intro s hs
          rw [hs] at hmet
          simpa using hmet
        by_cases hcode : byCode.contains account.code = true
        · rcases exists_of_contains hindexes hcode with ⟨first, hfirst, heq⟩
          exact Or.inr ⟨_, by rw [if_pos hcode]; rfl, .code hfirst heq⟩
        · refine Or.inl ⟨(byCode.insert account, ChartOfAccounts.keepControl controls account), ?_,
            hknown, fun b hb => ⟨code_ne_of_contains hindexes hcode b hb, ?_⟩,
            hindexes.insert hcode, hcontrols.keepControl hnew⟩
          · rw [if_neg hcode]
            rfl
          · intro s hb' hs
            have hget := (hcontrols s b.code).2 ⟨b, hb, hb', rfl⟩
            rw [hnew s hs] at hget
            cases hget
  · rw [herr]
    exact Or.inr ⟨e, rfl, hfault read⟩

theorem loadAccounts_admits (accounts : List Account) :
    (∃ byCode controls, loadAccounts accounts .empty .empty = .ok (byCode, controls) ∧
      accountAdmission.Admits accounts ∧ byCode.Indexes accounts ∧ Controls controls accounts) ∨
    ∃ e, loadAccounts accounts .empty .empty = .error e ∧ accountAdmission.Faulty accounts e := by
  rcases Admission.loop_admits (s := (CodeMap.empty, SortedMap.empty)) passes_loadAccounts
    (fun _ => rfl) ⟨CodeMap.indexes_empty, controls_empty⟩ accounts with ⟨s', h⟩ | h
  · exact Or.inl ⟨s'.1, s'.2, h⟩
  · exact Or.inr h

theorem passes_loadEntities : entityAdmission.Passes (fun read map => map.Indexes read)
    loadEntities := by
  intro read map entity rest hindexes
  rw [loadEntities]
  rcases knownCurrency_cases ("entity " ++ entity.code) entity.functionalCcy with
    ⟨hknown, hok⟩ | ⟨hnone, herr⟩
  · rw [hok]
    by_cases hcode : map.contains entity.code = true
    · rcases exists_of_contains hindexes hcode with ⟨first, hfirst, heq⟩
      exact Or.inr ⟨.duplicateEntity entity.code, by simp [hcode]; rfl, .code hfirst heq⟩
    · exact Or.inl ⟨map.insert entity, by simp [hcode]; rfl, hknown,
        code_ne_of_contains hindexes hcode, hindexes.insert hcode⟩
  · rw [herr]
    exact Or.inr ⟨_, rfl, .currency hnone⟩

theorem passes_loadSources : sourceAdmission.Passes (fun read map => map.Indexes read)
    loadSources := by
  intro read map source rest hindexes
  rw [loadSources]
  by_cases hcode : map.contains source.code = true
  · rcases exists_of_contains hindexes hcode with ⟨first, hfirst, heq⟩
    exact Or.inr ⟨.duplicateSource source.code, by simp [hcode]; rfl, .code hfirst heq⟩
  · exact Or.inl ⟨map.insert source, by simp [hcode], trivial,
      code_ne_of_contains hindexes hcode, hindexes.insert hcode⟩

/-- The parents are looked up in the finished index; the first that is missing is reported. -/
theorem checkParents_cases (map : CodeMap Entity Entity.code) (l : List Entity) :
    (checkParents map l = .ok () ∧ ∀ e ∈ l, ∀ p, e.parentCode = some p → map.contains p = true) ∨
      ∃ e ∈ l, ∃ p, e.parentCode = some p ∧ ¬ map.contains p = true ∧
        checkParents map l = .error (.unknownParent e.code p) := by
  induction l with
  | nil => exact Or.inl ⟨rfl, by simp⟩
  | cons first rest ih =>
      have hcons : checkParents map (first :: rest) =
          match first.parentCode with
          | some p =>
              if map.contains p then checkParents map rest
              else .error (.unknownParent first.code p)
          | none => checkParents map rest := rfl
      by_cases hfirst : ∀ p, first.parentCode = some p → map.contains p = true
      · have hgo : checkParents map (first :: rest) = checkParents map rest := by
          rw [hcons]
          cases hp : first.parentCode with
          | none => rfl
          | some p => exact if_pos (hfirst p hp)
        rw [hgo]
        rcases ih with ⟨hok, hrest⟩ | ⟨e, he, p, hp, hmissing, herr⟩
        · exact Or.inl ⟨hok, List.forall_mem_cons.2 ⟨hfirst, hrest⟩⟩
        · exact Or.inr ⟨e, List.mem_cons_of_mem first he, p, hp, hmissing, herr⟩
      -- The first entity is the one at fault, whatever comes after it.
      · push Not at hfirst
        rcases hfirst with ⟨p, hp, hmissing⟩
        refine Or.inr ⟨first, List.mem_cons_self, p, hp, hmissing, ?_⟩
        rw [hcons, hp]
        exact if_neg hmissing

end Loops

/-! ## The whole of the reference data -/

/-- What the three lists must be for a chart to be made of them. -/
structure WellFormed (accounts : List Account) (entities : List Entity) (sources : List Source) :
    Prop where
  currency_known : ∀ a ∈ accounts, a.CurrencyKnown
  accounts_apart : accounts.Pairwise Account.Apart
  functionalCcy_known : ∀ e ∈ entities, e.CurrencyKnown
  entities_apart : entities.Pairwise fun a b => a.code ≠ b.code
  parent_known : ∀ e ∈ entities, ∀ p, e.parentCode = some p → ∃ parent ∈ entities, parent.code = p
  sources_apart : sources.Pairwise fun a b => a.code ≠ b.code

/-- The chart holds every member once, under its code, and nothing else; the control account of a
subledger is the account that names the subledger. -/
structure Holds (chart : ChartOfAccounts) (accounts : List Account) (entities : List Entity)
    (sources : List Source) : Prop where
  accounts_perm : chart.accounts.Perm accounts
  entities_perm : chart.entities.Perm entities
  sources_perm : chart.sources.Perm sources
  account : ∀ a, chart.byCode.get? a.code = some a ↔ a ∈ accounts
  entity : ∀ e, chart.entity e.code = some e ↔ e ∈ entities
  source : ∀ s, chart.source s.code = some s ↔ s ∈ sources
  controlAccount : ∀ s a, chart.controlAccount s = some a ↔ a ∈ accounts ∧ a.subledger = some s

/-- The entity names a parent, and no entity of the list has that code. -/
structure ParentMissing (entities : List Entity) (entity : Entity) (parent : String) : Prop where
  mem : entity ∈ entities
  names : entity.parentCode = some parent
  missing : ∀ e ∈ entities, e.code ≠ parent

/-- What a refusal says is the case in the three lists. -/
inductive Reports (accounts : List Account) (entities : List Entity) (sources : List Source) :
    ChartError → Prop
  | account {e : ChartError} (h : accountAdmission.Faulty accounts e) :
      Reports accounts entities sources e
  | entity {e : ChartError} (h : entityAdmission.Faulty entities e) :
      Reports accounts entities sources e
  | parent {entity : Entity} {parent : String} (h : ParentMissing entities entity parent) :
      Reports accounts entities sources (.unknownParent entity.code parent)
  | source {e : ChartError} (h : sourceAdmission.Faulty sources e) :
      Reports accounts entities sources e

section Whole

variable {accounts : List Account} {entities : List Entity} {sources : List Source}

theorem Reports.not_wellFormed {e : ChartError} (h : Reports accounts entities sources e) :
    ¬ WellFormed accounts entities sources := by
  intro hwf
  cases h with
  | account h => exact h.not_admits ⟨hwf.currency_known, hwf.accounts_apart⟩
  | entity h => exact h.not_admits ⟨hwf.functionalCcy_known, hwf.entities_apart⟩
  | parent h =>
      rcases hwf.parent_known _ h.mem _ h.names with ⟨parent, hmem, hcode⟩
      exact h.missing parent hmem hcode
  | source h => exact h.not_admits ⟨fun _ _ => trivial, hwf.sources_apart⟩

/-- The values of an index are the members of the list, in the order of their codes. -/
theorem perm_values {ν : Type} {code : ν → String} {map : CodeMap ν code} {l : List ν}
    (h : map.Indexes l) (hl : l.Pairwise fun a b => code a ≠ code b) : map.values.Perm l := by
  have hnodup : l.Nodup := hl.imp fun hne heq => hne (congrArg code heq)
  have hvalues : (map.values.map code).Nodup := by
    -- Every member stands under its own code.
    have hkeys : map.values.map code = map.map.keys := by
      rw [CodeMap.values, SortedMap.values, SortedMap.keys, List.map_map]
      apply List.map_congr_left
      rintro ⟨k, v⟩ hmem
      exact map.keyed k v (SortedMap.get?_eq_some_iff.2 hmem)
    rw [hkeys]
    exact map.map.nodup_keys
  exact (List.perm_ext_iff_of_nodup hvalues.of_map hnodup).2 fun v => h.mem_values_iff

theorem get?_code_iff {ν : Type} {code : ν → String} {map : CodeMap ν code} {l : List ν}
    (h : map.Indexes l) (v : ν) : map.get? (code v) = some v ↔ v ∈ l :=
  (h (code v) v).trans (and_iff_left rfl)

/-- Two accounts with one code are one account, so the code that is kept leads back. -/
theorem controlAccount_iff {chart : ChartOfAccounts} (hindexes : chart.byCode.Indexes accounts)
    (hcontrols : Controls chart.controls accounts) (s : String) (a : Account) :
    chart.controlAccount s = some a ↔ a ∈ accounts ∧ a.subledger = some s := by
  rw [controlAccount, Option.bind_eq_some_iff]
  constructor
  · rintro ⟨code, hget, ha⟩
    rcases (hcontrols s code).1 hget with ⟨b, hb, hsub, rfl⟩
    -- The index has one account under the code, so it is the one that names the subledger.
    have hsame : some b = some a := (hindexes.get?_of_mem hb).symm.trans ha
    cases hsame
    exact ⟨hb, hsub⟩
  · rintro ⟨ha, hsub⟩
    exact ⟨a.code, (hcontrols s a.code).2 ⟨a, ha, hsub, rfl⟩, hindexes.get?_of_mem ha⟩

end Whole

/-- The files are loaded exactly if they are well formed, and then the chart holds what is in them;
a refusal reports a fault of theirs. -/
theorem load_wellFormed_or_reports (accounts : List Account) (entities : List Entity)
    (sources : List Source) :
    (∃ chart, load accounts entities sources = .ok chart ∧
      WellFormed accounts entities sources ∧ chart.Holds accounts entities sources) ∨
    ∃ e, load accounts entities sources = .error e ∧
      ¬ WellFormed accounts entities sources ∧ Reports accounts entities sources e := by
  have hrefuse : ∀ e, load accounts entities sources = .error e →
      Reports accounts entities sources e → ∃ e, load accounts entities sources = .error e ∧
        ¬ WellFormed accounts entities sources ∧ Reports accounts entities sources e :=
    fun e herr hreports => ⟨e, herr, hreports.not_wellFormed, hreports⟩
  rcases loadAccounts_admits accounts with
    ⟨byCode, controls, haccounts, hadmits, hindexes, hcontrols⟩ | ⟨e, herr, hfaulty⟩
  swap
  · exact Or.inr (hrefuse e (by rw [load, herr]; rfl) (.account hfaulty))
  rcases Admission.loop_admits passes_loadEntities (fun _ => rfl) CodeMap.indexes_empty entities
    with ⟨entityMap, hentities, hadmitsE, hindexesE⟩ | ⟨e, herr, hfaulty⟩
  swap
  · exact Or.inr (hrefuse e (by rw [load, haccounts, herr]; rfl) (.entity hfaulty))
  have hrest : load accounts entities sources =
      checkParents entityMap entityMap.values >>= fun _ =>
        loadSources sources .empty >>= fun sourceMap =>
          .ok ⟨byCode, entityMap, sourceMap, controls⟩ := by
    rw [load, haccounts, hentities]
    rfl
  rcases checkParents_cases entityMap entityMap.values with
    ⟨hparents, hknown⟩ | ⟨child, hchild, parent, hnames, hmissing, herr⟩
  swap
  -- The index is complete by now, so a parent that it misses is in no entity of the list.
  · have hreports : ParentMissing entities child parent :=
      ⟨hindexesE.mem_values_iff.1 hchild, hnames, fun e he hcode => hmissing (by
        rw [CodeMap.contains, SortedMap.contains, Option.isSome_iff_exists]
        exact ⟨e, (hindexesE parent e).2 ⟨he, hcode⟩⟩)⟩
    exact Or.inr (hrefuse _ (by rw [hrest, herr]; rfl) (.parent hreports))
  -- The sources are read last, after the parents have been checked.
  rcases Admission.loop_admits passes_loadSources (fun _ => rfl) CodeMap.indexes_empty sources
    with ⟨sourceMap, hsources, hadmitsS, hindexesS⟩ | ⟨e, herr, hfaulty⟩
  swap
  · exact Or.inr (hrefuse e (by rw [hrest, hparents, herr]; rfl) (.source hfaulty))
  · refine Or.inl ⟨⟨byCode, entityMap, sourceMap, controls⟩, ?_, ?_, ?_⟩
    · rw [hrest, hparents, hsources]
      rfl
    · refine ⟨hadmits.alone, hadmits.apart, hadmitsE.alone, hadmitsE.apart, ?_, hadmitsS.apart⟩
      intro e he p hp
      exact exists_of_contains hindexesE (hknown e (hindexesE.mem_values_iff.2 he) p hp)
    · exact {
        accounts_perm := perm_values hindexes (hadmits.apart.imp fun h => h.code)
        entities_perm := perm_values hindexesE hadmitsE.apart
        sources_perm := perm_values hindexesS hadmitsS.apart
        account := get?_code_iff hindexes
        entity := get?_code_iff hindexesE
        source := get?_code_iff hindexesS
        controlAccount := controlAccount_iff hindexes hcontrols }

end ChartOfAccounts

end Falkr
