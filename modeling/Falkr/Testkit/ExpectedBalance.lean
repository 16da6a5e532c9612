import Falkr.Core.RunningSums
import Falkr.Testkit.Runner

/-!
# ExpectedBalance — what the zero-sum checks of a scenario establish

Validation adds up the expected balances with additions that round, and in the tables of the
entities it leaves out an amount whose addition overflows.  The exact sums of a validated scenario
are zero where no addition does either (`expectedBalanced_of_runningExact`).
-/

namespace Falkr

open Lib Decimal

namespace Scenario

variable {lib : Externals Decimal} {scenario : Scenario} {chart : ChartOfAccounts}

/-! ## Reading a table -/

/-- The amounts of a table that can be read, in the order of their keys. -/
def amounts (lib : Externals Decimal) (entries : List (String × String)) : List Decimal :=
  entries.filterMap fun e => (lib.fromStrExact e.2).toOption

/-- Every amount can be read, and they add up to zero exactly. -/
structure SumsToZero (lib : Externals Decimal) (table : SortedMap String String) : Prop where
  readable : ∀ e ∈ table.entries, ∃ amount, lib.fromStrExact e.2 = .ok amount
  sum_eq : ((amounts lib table.entries).map toRat).sum = 0

/-- A table that parses lists its amounts, each under its key. -/
theorem of_parseBalances {id : String} {entries : List (String × String)}
    {out balances : SortedMap String Decimal} (hsorted : entries.Pairwise fun a b => a.1 < b.1)
    (hlt : ∀ o ∈ out.entries, ∀ e ∈ entries, o.1 < e.1)
    (h : parseBalances lib id entries out = .ok balances) :
    (∀ e ∈ entries, ∃ amount, lib.fromStrExact e.2 = .ok amount) ∧
      balances.values = out.values ++ amounts lib entries := by
  induction entries generalizing out with
  | nil =>
      cases h
      exact ⟨by simp, by simp [amounts]⟩
  | cons e rest ih =>
      rcases List.pairwise_cons.1 hsorted with ⟨hhead, htail⟩
      unfold parseBalances at h
      cases hread : lib.fromStrExact e.2 with
      | error detail => simp [hread] at h
      | ok amount =>
          simp only [hread] at h
          have hentries := out.entries_insert_of_forall_lt amount fun o ho =>
            hlt o ho e (List.mem_cons_self)
          have hlast : ∀ o ∈ (out.insert e.1 amount).entries, ∀ e' ∈ rest, o.1 < e'.1 := by
            intro o ho e' he'
            rw [hentries] at ho
            rcases List.mem_append.1 ho with hold | hnew
            · exact hlt o hold e' (List.mem_cons_of_mem _ he')
            · rw [List.mem_singleton.1 hnew]
              exact hhead e' he'
          rcases ih htail hlast h with ⟨hreadable, hvalues⟩
          refine ⟨List.forall_mem_cons.2 ⟨⟨amount, hread⟩, hreadable⟩, ?_⟩
          rw [hvalues, SortedMap.values, hentries]
          simp [amounts, hread, SortedMap.values, Except.toOption]

theorem of_parseBalances_empty {id : String} {table : SortedMap String String}
    {balances : SortedMap String Decimal}
    (h : parseBalances lib id table.entries .empty = .ok balances) :
    (∀ e ∈ table.entries, ∃ amount, lib.fromStrExact e.2 = .ok amount) ∧
      balances.values = amounts lib table.entries := by
  have hempty : ∀ o ∈ (SortedMap.empty : SortedMap String Decimal).entries,
      ∀ e ∈ table.entries, o.1 < e.1 := fun o ho => by cases ho
  exact of_parseBalances table.sorted hempty h

/-! ## The two checks -/

theorem fst_sumBalances (l : List Decimal) (total : Decimal) (overflowed : Bool) :
    (sumBalances l total overflowed).1 = sumSkipping total l := by
  induction l generalizing total overflowed with
  | nil => rfl
  | cons amount rest ih =>
      have hchecked : CheckedAmount.checkedAdd total amount = add total amount := rfl
      unfold sumBalances
      rw [hchecked]
      cases hadd : add total amount with
      | none => simp [ih, sumSkipping, hadd]
      | some sum => simp [ih, sumSkipping, hadd]

theorem sumOrKeep_eq (l : List Decimal) :
    sumOrKeep (m := Option) l = sumSkipping Amount.zero l := rfl

/-- A table that is checked to add up to zero does so exactly where no addition is rounded or
overflows. -/
theorem sumsToZero_of_runningExact {table : SortedMap String String} {id : String}
    {balances : SortedMap String Decimal}
    (hparse : parseBalances lib id table.entries .empty = .ok balances)
    (hzero : Amount.eq (sumSkipping Amount.zero balances.values) (Amount.zero : Decimal) = true)
    (hexact : RunningExact 0 (amounts lib table.entries)) : SumsToZero lib table := by
  rcases of_parseBalances_empty hparse with ⟨hreadable, hvalues⟩
  rw [hvalues] at hzero
  rw [← toRat_zero] at hexact
  have htotal := (eq_iff _ _).1 hzero
  rw [toRat_sumSkipping hexact, toRat_zero, zero_add] at htotal
  exact ⟨hreadable, htotal⟩

theorem eq_zero_of_checkZeroSum {balances : SortedMap String Decimal}
    (hstatus : scenario.metadata.status ≠ .blocked)
    (h : scenario.checkZeroSum (m := Option) balances = []) :
    Amount.eq (sumSkipping Amount.zero balances.values) (Amount.zero : Decimal) = true := by
  unfold checkZeroSum at h
  rw [← fst_sumBalances _ _ false]
  generalize sumBalances balances.values Amount.zero false = result at h ⊢
  rcases result with ⟨total, overflowed⟩
  dsimp only at h ⊢
  split_ifs at h with hoverflowed hnonzero
  exact not_not.1 fun hne => hnonzero ⟨hne, hstatus⟩

/-- A table of an entity that passes has been read and was added up to zero. -/
theorem of_checkEntities (h : scenario.checkEntities (m := Option) lib chart = [])
    {e : String × SortedMap String String} (he : e ∈ scenario.expected.byEntity.entries) :
    ∃ balances, parseBalances lib scenario.metadata.id e.2.entries .empty = .ok balances ∧
      Amount.eq (sumSkipping Amount.zero balances.values) (Amount.zero : Decimal) = true := by
  have hone := List.flatMap_eq_nil_iff.1 h e he
  rcases List.append_eq_nil_iff.1 hone with ⟨-, htable⟩
  cases hparse : parseBalances lib scenario.metadata.id e.2.entries .empty with
  | error defect => simp [hparse] at htable
  | ok balances =>
      refine ⟨balances, rfl, ?_⟩
      simp only [hparse] at htable
      rw [← sumOrKeep_eq]
      split_ifs at htable with hzero
      exact hzero

theorem of_checkExpected (hstatus : scenario.metadata.status ≠ .blocked)
    (h : scenario.checkExpected (m := Option) lib chart = []) :
    ∃ balances, scenario.expectedTrialBalance lib = .ok balances ∧
      Amount.eq (sumSkipping Amount.zero balances.values) (Amount.zero : Decimal) = true := by
  unfold checkExpected at h
  cases hparse : scenario.expectedTrialBalance lib with
  | error defect => simp [hparse] at h
  | ok balances =>
      simp only [hparse, List.append_eq_nil_iff] at h
      exact ⟨balances, rfl, eq_zero_of_checkZeroSum hstatus h.1.2⟩

/-! ## What validation establishes -/

/-- The expected balances, and those of every entity, add up to zero exactly. -/
structure ExpectedBalanced (lib : Externals Decimal) (scenario : Scenario) : Prop where
  trialBalance : SumsToZero lib scenario.expected.trialBalance
  byEntity : ∀ e ∈ scenario.expected.byEntity.entries, SumsToZero lib e.2

/-- The balances of a validated scenario add up to zero exactly where each running sum of a table,
in key order and from zero, is one that a decimal stands for. -/
theorem expectedBalanced_of_runningExact (hstatus : scenario.metadata.status ≠ .blocked)
    (hvalid : scenario.validate (m := Option) lib chart = [])
    (htrial : RunningExact 0 (amounts lib scenario.expected.trialBalance.entries))
    (hentities : ∀ e ∈ scenario.expected.byEntity.entries,
      RunningExact 0 (amounts lib e.2.entries)) : ExpectedBalanced lib scenario := by
  simp only [validate, List.map_eq_nil_iff, List.append_eq_nil_iff] at hvalid
  rcases hvalid with ⟨⟨⟨-, hexpected⟩, -⟩, hchecked⟩
  constructor
  · rcases of_checkExpected hstatus hexpected with ⟨balances, hparse, hzero⟩
    exact sumsToZero_of_runningExact hparse hzero htrial
  · intro e he
    rcases of_checkEntities hchecked he with ⟨balances, hparse, hzero⟩
    exact sumsToZero_of_runningExact hparse hzero (hentities e he)

/-! ### The smallest scenario with other expectations -/

/-- A cash sale with given tables of expected balances. -/
def cashExpecting (trialBalance : SortedMap String String)
    (byEntity : SortedMap String (SortedMap String String)) : Scenario :=
  let sale := cashSale [postEntry (saleLines "1000.00") []] "1000.00" "-1000.00"
  { sale with
    expected := { sale.expected with trialBalance := trialBalance, byEntity := byEntity } }

def cashBalances : SortedMap String String :=
  .ofList [("1000-Cash", "1000.00"), ("4000-Revenue", "-1000.00")]

/-- The largest decimal on one side, and on the other with a further amount. -/
def maxBalances (further : String) : SortedMap String String :=
  .ofList [("1000", "79228162514264337593543950335"), ("1000-Cash", further),
    ("4000-Revenue", "-79228162514264337593543950335")]

theorem checkDocumentation_cashExpecting (trialBalance : SortedMap String String)
    (byEntity : SortedMap String (SortedMap String String)) :
    (cashExpecting trialBalance byEntity).checkDocumentation = [] :=
  checkDocumentation_cashSale [postEntry (saleLines "1000.00") []] "1000.00" "-1000.00"

theorem runningExact_cashBalances :
    RunningExact 0 (amounts decimalExternals cashBalances.entries) := by
  have hamounts : ∀ a ∈ amounts decimalExternals cashBalances.entries,
      a.scale = 2 ∧ a.mantissa.natAbs ≤ 100000 := by
    decide +kernel
  have hbound : Int.natAbs 0 + (amounts decimalExternals cashBalances.entries).length * 100000 <
      mantissaBound := by
    decide +kernel
  simpa using runningExact_of_bound (by decide) hamounts hbound

theorem expectedBalanced_cashSale : ExpectedBalanced decimalExternals
    (cashExpecting cashBalances (.ofList [("US_PARENT", cashBalances)])) := by
  have hvalid : (cashExpecting cashBalances (.ofList [("US_PARENT", cashBalances)])).validate
      (m := Option) decimalExternals smallChart = [] :=
    validate_eq_nil_iff.2 ⟨checkDocumentation_cashExpecting _ _, by decide +kernel⟩
  refine expectedBalanced_of_runningExact (by decide) hvalid runningExact_cashBalances ?_
  intro e he
  rw [List.mem_singleton.1 (show e ∈ [("US_PARENT", cashBalances)] from he)]
  exact runningExact_cashBalances

/-- A tenth is dropped in the one table, an amount that overflows is left out of the other, and
neither scenario has a defect. -/
theorem not_expectedBalanced_max :
    ((cashExpecting (maxBalances "0.1") .empty).metadata.status ≠ .blocked ∧
      (cashExpecting (maxBalances "0.1") .empty).validate (m := Option)
        decimalExternals smallChart = [] ∧
      ¬ ExpectedBalanced decimalExternals (cashExpecting (maxBalances "0.1") .empty)) ∧
    ((cashExpecting cashBalances (.ofList [("US_PARENT", maxBalances "1")])).metadata.status ≠
        .blocked ∧
      (cashExpecting cashBalances (.ofList [("US_PARENT", maxBalances "1")])).validate (m := Option)
        decimalExternals smallChart = [] ∧
      ¬ ExpectedBalanced decimalExternals
        (cashExpecting cashBalances (.ofList [("US_PARENT", maxBalances "1")]))) := by
  have htenth : (cashExpecting (maxBalances "0.1") .empty).validate (m := Option)
      decimalExternals smallChart = [] :=
    validate_eq_nil_iff.2 ⟨checkDocumentation_cashExpecting _ _, by decide +kernel⟩
  have hone : (cashExpecting cashBalances (.ofList [("US_PARENT", maxBalances "1")])).validate
      (m := Option) decimalExternals smallChart = [] :=
    validate_eq_nil_iff.2 ⟨checkDocumentation_cashExpecting _ _, by decide +kernel⟩
  refine ⟨⟨by decide, htenth, fun h => ?_⟩, by decide, hone, fun h => ?_⟩
  · exact absurd h.trialBalance.sum_eq (by decide +kernel)
  · have hmem : ("US_PARENT", maxBalances "1") ∈ (cashExpecting cashBalances
        (.ofList [("US_PARENT", maxBalances "1")])).expected.byEntity.entries := by
      decide +kernel
    exact absurd (h.byEntity _ hmem).sum_eq (by decide +kernel)

end Scenario

end Falkr
