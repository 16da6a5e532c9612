import Falkr.Core.RunningSums
import Falkr.Events.Accepted

/-!
# ExactBalance — when an accepted entry balances exactly

The command handler compares two totals that the machine decimal added up.  They agree; the exact
sums of the two sides agree as well where no running sum of either is rounded
(`exactlyBalanced_of_runningExact`).  Of a column with a sum that is rounded some first lines are
accepted against a single credit that they do not balance (`exists_accepted_not_exactlyBalanced`).
-/

namespace Falkr

open Decimal

/-- The exact sums of the two sides are the same. -/
def ExactlyBalanced (lines : List (JournalLine Decimal)) : Prop :=
  ((debitAmounts lines).map toRat).sum = ((creditAmounts lines).map toRat).sum

instance (lines : List (JournalLine Decimal)) : Decidable (ExactlyBalanced lines) :=
  inferInstanceAs (Decidable (_ = _))

/-- An accepted entry balances exactly where each running sum of its debits, and each of its
credits, is one that a decimal stands for. -/
theorem exactlyBalanced_of_runningExact {s : LedgerState Decimal}
    {lines : List (JournalLine Decimal)} {dims : Dimensions} {newId : EntryId} {now : DateTimeUtc}
    {events : List (LedgerEvent Decimal)}
    (h : handleCommand s (.postJournalEntry lines dims) newId now = some (.ok events))
    (hdebits : RunningExact 0 (debitAmounts lines))
    (hcredits : RunningExact 0 (creditAmounts lines)) : ExactlyBalanced lines := by
  rcases (permits_of_postJournalEntry h).2.balanced with
    ⟨debits, credits, hdebitTotal, hcreditTotal, heq⟩
  rw [← toRat_zero] at hdebits hcredits
  -- Neither side is rounded, so that the totals compared are the exact sums.
  have hd := toRat_of_runningExact hdebits hdebitTotal
  have hc := toRat_of_runningExact hcredits hcreditTotal
  rw [toRat_zero, zero_add] at hd hc
  rw [ExactlyBalanced, ← hd, ← hc]
  exact (eq_iff debits credits).1 heq

/-! ## Columns with a sum that is rounded -/

def dollarDebit (account : AccountId) (amount : Decimal) : JournalLine Decimal :=
  ⟨account, some { amount := amount, currency := .usd }, none, []⟩

def dollarCredit (account : AccountId) (amount : Decimal) : JournalLine Decimal :=
  ⟨account, none, some { amount := amount, currency := .usd }, []⟩

/-- Debits of these amounts, and a credit of their total. -/
def creditedBy (total : Decimal) (debits : List Decimal) : List (JournalLine Decimal) :=
  debits.map (dollarDebit ⟨10⟩) ++ [dollarCredit ⟨11⟩ total]

theorem debitAmounts_creditedBy (total : Decimal) (debits : List Decimal) :
    debitAmounts (creditedBy total debits) = debits := by
  simp [debitAmounts, creditedBy, dollarDebit, dollarCredit, List.filterMap_map, Function.comp_def]

theorem creditAmounts_creditedBy (total : Decimal) (debits : List Decimal) :
    creditAmounts (creditedBy total debits) = [total] := by
  simp [creditAmounts, creditedBy, dollarDebit, dollarCredit, List.filterMap_map, Function.comp_def]

theorem checkedAdd_dollars {a b sum : Decimal} (h : Amount.add a b = some sum) :
    Money.checkedAdd { amount := a, currency := .usd } { amount := b, currency := .usd } =
      some (.ok { amount := sum, currency := .usd }) := by
  simp [Money.checkedAdd, Money.sameCurrency, h]

theorem subtotals_creditedBy {total : Decimal} :
    ∀ {debits : List Decimal} {start : Decimal}, debits.foldlM Amount.add start = some total →
      subtotals (creditedBy total debits) { amount := start, currency := .usd } (Money.zero .usd) =
        some (.ok ({ amount := total, currency := .usd }, { amount := total, currency := .usd }))
  | [], start, h => by
      have hstart : start = total := Option.some.inj h
      have hadd := checkedAdd_dollars (show Amount.add Amount.zero total = some total from rfl)
      simp [hstart, creditedBy, dollarCredit, subtotals, JournalLine.validate, Money.zero, hadd]
  | amount :: rest, start, h => by
      rw [List.foldlM_cons] at h
      rcases Option.bind_eq_some_iff.1 h with ⟨sum, hsum, hrest⟩
      have hadd := checkedAdd_dollars hsum
      have hline : subtotals (creditedBy total (amount :: rest))
          { amount := start, currency := .usd } (Money.zero .usd) =
            subtotals (creditedBy total rest) { amount := sum, currency := .usd }
              (Money.zero .usd) := by
        simp [creditedBy, dollarDebit, subtotals, JournalLine.validate, hadd]
      rw [hline]
      exact subtotals_creditedBy hrest

/-- Whatever the debits come to, a credit of it is accepted. -/
theorem handleCommand_creditedBy (s : LedgerState Decimal) (dims : Dimensions) (newId : EntryId)
    (now : DateTimeUtc) {total : Decimal} {debits : List Decimal} (hne : debits ≠ [])
    (h : debits.foldlM Amount.add Amount.zero = some total) :
    handleCommand s (.postJournalEntry (creditedBy total debits) dims) newId now =
      some (.ok [.journalEntryPosted newId (creditedBy total debits) dims now]) := by
  have hsame : Money.beq { amount := total, currency := Currency.usd }
      { amount := total, currency := Currency.usd } = true := by
    simp [Money.beq, (eq_iff total total).2 rfl]
  have hsubtotals : subtotals (creditedBy total debits) (Money.zero .usd) (Money.zero .usd) =
      some (.ok ({ amount := total, currency := .usd }, { amount := total, currency := .usd })) :=
    subtotals_creditedBy h
  cases debits with
  | nil => exact absurd rfl hne
  | cons amount rest =>
      -- The first line is a debit in dollars.
      simp only [creditedBy, List.map_cons, List.cons_append] at hsubtotals ⊢
      simp only [handleCommand, dollarDebit, JournalLine.validate] at hsubtotals ⊢
      simp [hsubtotals, hsame]

/-- Where the additions of a column of debits are not all exact, some first of them are accepted
with a credit that does not balance them exactly. -/
theorem exists_accepted_not_exactlyBalanced (s : LedgerState Decimal) (dims : Dimensions)
    (newId : EntryId) (now : DateTimeUtc) {amounts : List Decimal}
    (hfits : RunningFits Amount.zero amounts) (hinexact : ¬RunningExact 0 amounts) :
    ∃ lines events, debitAmounts lines <+: amounts ∧
      handleCommand s (.postJournalEntry lines dims) newId now = some (.ok events) ∧
      ¬ExactlyBalanced lines := by
  rw [← toRat_zero] at hinexact
  rcases exists_prefix_of_not_runningExact amounts _ hfits hinexact with
    ⟨debits, total, hprefix, hne, htotal, hrounded⟩
  refine ⟨creditedBy total debits, _, ?_, handleCommand_creditedBy s dims newId now hne htotal, ?_⟩
  · rw [debitAmounts_creditedBy]
    exact hprefix
  · intro hexact
    rw [ExactlyBalanced, debitAmounts_creditedBy, creditAmounts_creditedBy] at hexact
    rw [toRat_zero, zero_add] at hrounded
    exact hrounded (by simpa using hexact.symm)

/-! ## A tenth -/

def tenth : Decimal where
  mantissa := 1
  scale := 1
  mantissa_lt := by decide
  scale_le := by decide

def tenthDims : Dimensions :=
  Dimensions.new ⟨1⟩ ⟨2⟩ ⟨3⟩ ⟨4⟩ .opEx

/-- Three tenths on either side. -/
def threeTenthsLines : List (JournalLine Decimal) :=
  [dollarDebit ⟨10⟩ tenth, dollarCredit ⟨11⟩ tenth, dollarDebit ⟨10⟩ tenth, dollarDebit ⟨10⟩ tenth,
    dollarCredit ⟨11⟩ tenth, dollarCredit ⟨12⟩ tenth]

theorem exactlyBalanced_threeTenths : ExactlyBalanced threeTenthsLines := by
  have hsums : ∀ {amounts : List Decimal}, (∀ a ∈ amounts, a.scale = 1 ∧ a.mantissa.natAbs ≤ 1) →
      amounts.length ≤ 3 → RunningExact 0 amounts := by
    intro amounts hamounts hlength
    have hbound : Int.natAbs 0 + amounts.length * 1 < mantissaBound :=
      lt_of_le_of_lt (by omega : _ ≤ 3) (by decide)
    simpa using runningExact_of_bound (by decide) hamounts hbound
  have haccepted : handleCommand LedgerState.default
      (.postJournalEntry threeTenthsLines tenthDims) ⟨1⟩ ⟨0⟩ =
        some (.ok [.journalEntryPosted ⟨1⟩ threeTenthsLines tenthDims ⟨0⟩]) := by
    decide +kernel
  exact exactlyBalanced_of_runningExact haccepted (hsums (by decide) (by decide))
    (hsums (by decide) (by decide))

/-- The largest decimal and a tenth against the largest decimal. -/
def lostTenthLines : List (JournalLine Decimal) :=
  [dollarDebit ⟨10⟩ Decimal.max, dollarDebit ⟨11⟩ tenth, dollarCredit ⟨12⟩ Decimal.max]

/-- The tenth is lost when it is added to the largest decimal, and the entry is accepted. -/
theorem accepted_not_exactlyBalanced :
    (∃ events, handleCommand LedgerState.default
        (.postJournalEntry lostTenthLines tenthDims) ⟨1⟩ ⟨0⟩ = some (.ok events)) ∧
      ¬ExactlyBalanced lostTenthLines :=
  ⟨⟨[.journalEntryPosted ⟨1⟩ lostTenthLines tenthDims ⟨0⟩], by decide +kernel⟩, by decide +kernel⟩

end Falkr
