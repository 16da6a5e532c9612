import Falkr.Testkit.AdsExport
import Falkr.Testkit.Recorded

/-!
# TrialBalanceFile — the balances of an executed scenario in the extract

The trial balance of a run is keyed by label and holds amounts without their currencies; the file
writes the currency of the scenario beside each.  Every account with a balance has exactly one row
(`balancesAt_of_balance`), so the file is faithful exactly when every balance is in that currency.
-/

namespace Falkr

open Lib

namespace AdsExtract

section Model

variable {m : Type → Type} {α : Type} [Amount m α] [CheckedAmount α]

open CheckedAmount (display)
open Runner (Labelled)

/-- Every final balance has one row under the number of its account, with its amount and its
currency. -/
def Faithful (lib : Externals α) (chart : ChartOfAccounts) (run : LedgerRun α)
    (rows : List TrialBalanceRow) : Prop :=
  ∀ a b, run.state.balance a = some b →
    ∃ account ∈ chart.accounts, accountId lib account.code = a ∧
      ∃ row, balancesAt rows account.code = [row] ∧ row.endingBalance = display b.amount ∧
        row.currency = b.currency.code

variable {lib : Externals α} {chart : ChartOfAccounts} {run : LedgerRun α}

/-- The accounts with a balance, each under its label. -/
def labelledAmounts (run : LedgerRun α) : List (String × α) :=
  run.state.balances.entries.map fun (id, money) => (labelOf run.labels id, money.amount)

omit [CheckedAmount α] in
theorem trialBalance_eq_ofList : run.trialBalance = .ofList (labelledAmounts run) := rfl

omit [Amount m α] [CheckedAmount α] in
theorem labelOf_of_labelled {labels : SortedMap AccountId String} {id : AccountId}
    (h : Labelled lib chart labels id) :
    ∃ account ∈ chart.accounts, accountId lib account.code = id ∧
      labelOf labels id = account.label ∧ accountNumber (labelOf labels id) = account.code := by
  rcases h with ⟨account, hmem, hcode, hid, hlabel⟩
  have hlabelOf : labelOf labels id = account.label := by simp [labelOf, hlabel]
  exact ⟨account, hmem, hid, hlabelOf, by rw [hlabelOf, accountNumber_label hcode]⟩

omit [Amount m α] [CheckedAmount α] in
/-- The number of an account tells its identifier. -/
theorem eq_of_accountNumber_eq {labels : SortedMap AccountId String} {id id' : AccountId}
    (h : Labelled lib chart labels id) (h' : Labelled lib chart labels id')
    (heq : accountNumber (labelOf labels id) = accountNumber (labelOf labels id')) : id = id' := by
  rcases labelOf_of_labelled h with ⟨account, -, hid, -, hnumber⟩
  rcases labelOf_of_labelled h' with ⟨account', -, hid', -, hnumber'⟩
  rw [← hid, ← hid', ← hnumber, heq, hnumber']

section Labels

variable (hlabels : ∀ a b, run.state.balance a = some b → Labelled lib chart run.labels a)
include hlabels

omit [Amount m α] [CheckedAmount α] in
theorem labelled_of_mem {e : AccountId × Money α} (he : e ∈ run.state.balances.entries) :
    Labelled lib chart run.labels e.1 :=
  hlabels e.1 e.2 (SortedMap.get?_eq_some_iff.2 he)

omit [Amount m α] [CheckedAmount α] in
theorem nodup_labelledAmounts : ((labelledAmounts run).map Prod.fst).Nodup := by
  unfold labelledAmounts
  rw [List.map_map]
  refine run.state.balances.nodup_entries.map_on fun e he e' he' heq => ?_
  -- One label is one number, one number one account, and an account has one balance.
  have hid : e.1 = e'.1 :=
    eq_of_accountNumber_eq (labelled_of_mem hlabels he) (labelled_of_mem hlabels he')
      (congrArg accountNumber heq)
  have hmoney : run.state.balances.get? e.1 = some e.2 := SortedMap.get?_eq_some_iff.2 he
  have hmoney' : run.state.balances.get? e'.1 = some e'.2 := SortedMap.get?_eq_some_iff.2 he'
  rw [hid, hmoney'] at hmoney
  exact Prod.ext hid (Option.some.inj hmoney).symm

omit [CheckedAmount α] in
theorem mem_trialBalance {e : String × α} :
    e ∈ run.trialBalance.entries ↔ e ∈ labelledAmounts run := by
  rw [trialBalance_eq_ofList, SortedMap.mem_entries_ofList (nodup_labelledAmounts hlabels)]

/-- An account with a balance has one row. -/
theorem balancesAt_of_balance {a : AccountId} {b : Money α} (hb : run.state.balance a = some b) :
    ∃ account ∈ chart.accounts, accountId lib account.code = a ∧
      balancesAt (fromRun lib run chart).trialBalance account.code =
        [trialBalanceRow run account.label b.amount] := by
  rcases labelOf_of_labelled (hlabels a b hb) with ⟨account, hmem, hid, hlabel, hnumber⟩
  refine ⟨account, hmem, hid, ?_⟩
  -- The row is there.
  have hentry : (account.label, b.amount) ∈ run.trialBalance.entries := by
    rw [mem_trialBalance hlabels, ← hlabel]
    exact List.mem_map.2 ⟨(a, b), SortedMap.get?_eq_some_iff.1 hb, rfl⟩
  -- No other entry of the trial balance has the number.
  have honly : run.trialBalance.entries.filter (fun e => accountNumber e.1 = account.code) =
      [(account.label, b.amount)] := by
    refine SortedMap.filter_eq_singleton run.trialBalance.nodup_entries hentry ?_ ?_
    · rw [← hlabel, hnumber]
      simp
    · intro e he hpass
      rw [mem_trialBalance hlabels] at he
      rcases List.mem_map.1 he with ⟨⟨id, money⟩, hbalance, rfl⟩
      have hsame : accountNumber (labelOf run.labels id) = account.code := by simpa using hpass
      have heq : id = a := eq_of_accountNumber_eq (labelled_of_mem hlabels hbalance)
        (hlabels a b hb) (hsame.trans hnumber.symm)
      subst heq
      have hmoney : run.state.balances.get? id = some money :=
        SortedMap.get?_eq_some_iff.2 hbalance
      have hb' : run.state.balances.get? id = some b := hb
      rw [hb'] at hmoney
      exact Prod.ext hlabel (congrArg Money.amount (Option.some.inj hmoney)).symm
  unfold balancesAt fromRun
  rw [List.filter_map]
  have hrow : ((fun row : TrialBalanceRow => decide (row.accountNumber = account.code)) ∘
      fun e : String × α => trialBalanceRow run e.1 e.2) =
        fun e => decide (accountNumber e.1 = account.code) := rfl
  rw [hrow, honly]
  rfl

end Labels

variable [Monad m] [Returning m] [LawfulMonad m] {scenario : Scenario} {draws : Draws}

/-- The trial balance file of an executed scenario is faithful exactly when every final balance is
in the functional currency. -/
theorem faithful_iff {self : Runner}
    (h : self.run lib scenario draws = (pure (.ok (.executed run)) : m _)) :
    Faithful lib self.chart run (fromRun lib run self.chart).trialBalance ↔
      ∀ a b, run.state.balance a = some b → b.currency = run.currency := by
  have hlabels := (Runner.labels_of_run h).balances
  constructor
  · intro hfaithful a b hb
    rcases hfaithful a b hb with ⟨account, hmem, hid, row, hrow, -, hcurrency⟩
    -- Every row of the file is in the currency of the scenario.
    have hrun : row.currency = run.currency.code := by
      have hin : row ∈ (fromRun lib run self.chart).trialBalance :=
        List.mem_of_mem_filter (hrow ▸ List.mem_singleton_self row)
      rcases List.mem_map.1 hin with ⟨e, -, rfl⟩
      rfl
    exact Currency.code_injective (hcurrency.symm.trans hrun)
  · intro hcurrency a b hb
    rcases balancesAt_of_balance hlabels hb with ⟨account, hmem, hid, hrow⟩
    refine ⟨account, hmem, hid, _, hrow, rfl, ?_⟩
    rw [hcurrency a b hb]
    rfl

end Model

/-- A sale in euros, in a scenario whose functional currency is the dollar. -/
def euroSale : Scenario :=
  cashSale [postEntry
    [[("account", .string "1000-Cash"), ("debit", .string "100.00"), ("currency", .string "EUR")],
      [("account", .string "4000-Revenue"), ("credit", .string "100.00"),
        ("currency", .string "EUR")]] []] "100.00" "-100.00"

def euroRun : LedgerRun Decimal :=
  (decimalRun euroSale).get (by decide +kernel)

/-- The cash account ends at 100.00 euros, and every row of the file is in dollars. -/
theorem not_faithful_euroRun :
    Runner.run decimalExternals { chart := smallChart } euroSale countingDraws =
        some (.ok (.executed euroRun)) ∧
      (∃ a b, euroRun.state.balance a = some b ∧ b.currency = .eur) ∧
      ¬Faithful decimalExternals smallChart euroRun
        (fromRun decimalExternals euroRun smallChart).trialBalance := by
  have hbalance : euroRun.state.balance (accountId decimalExternals "1000") =
      some ⟨⟨10000, 2, by decide, by decide⟩, .eur⟩ := by decide +kernel
  have hrows : ∀ row ∈ (fromRun decimalExternals euroRun smallChart).trialBalance,
      row.currency = "USD" := by decide +kernel
  refine ⟨run_of_decimalRun (Option.some_get _).symm, ⟨_, _, hbalance, rfl⟩, fun hfaithful => ?_⟩
  rcases hfaithful _ _ hbalance with ⟨account, -, -, row, hrow, -, hcurrency⟩
  have hdollars := hrows row (List.mem_of_mem_filter (hrow ▸ List.mem_singleton_self row))
  rw [hcurrency] at hdollars
  revert hdollars
  decide +kernel

def dollarRun : LedgerRun Decimal :=
  (decimalRun (cashSale [postEntry (saleLines "100.00") []] "100.00" "-100.00")).get
    (by decide +kernel)

theorem faithful_dollarRun :
    Faithful decimalExternals smallChart dollarRun
      (fromRun decimalExternals dollarRun smallChart).trialBalance := by
  have hentries : ∀ e ∈ dollarRun.state.balances.entries, e.2.currency = dollarRun.currency := by
    decide +kernel
  exact (faithful_iff (run_of_decimalRun (Option.some_get _).symm)).2 fun a b hb =>
    hentries (a, b) (SortedMap.get?_eq_some_iff.1 hb)

end AdsExtract

end Falkr
