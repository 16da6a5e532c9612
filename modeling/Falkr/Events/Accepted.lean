import Falkr.Events.Ledger
import Falkr.Lib.Returning

/-!
# Accepted — what the command handler lets through

`handleCommand` answers an accepted command with one event, which is one that its state `Permits`.
A posted entry is a `WellFormedEntry`: its lines are one-sided and in one currency, and its two
sides add up to the same.

The proofs use no arithmetic: they hold for exact rationals and for the machine decimal, whose
additions may round or stop the run.
-/

namespace Falkr

open Lib

section Model

variable {m : Type → Type} {α : Type} [Amount m α]

/-! ## Well-formed entries -/

/-- A line that carries exactly one side, in currency `c`. -/
structure OneSidedIn (c : Currency) (line : JournalLine α) : Prop where
  oneSide : line.debit.isSome ≠ line.credit.isSome
  debit : ∀ amount, line.debit = some amount → amount.currency = c
  credit : ∀ amount, line.credit = some amount → amount.currency = c

def debitAmounts (lines : List (JournalLine α)) : List α :=
  lines.filterMap fun line => line.debit.map Money.amount

def creditAmounts (lines : List (JournalLine α)) : List α :=
  lines.filterMap fun line => line.credit.map Money.amount

/-- Adds the amounts up in order. -/
def total [Monad m] (amounts : List α) : m α :=
  amounts.foldlM Amount.add Amount.zero

structure WellFormedEntry [Monad m] (lines : List (JournalLine α)) : Prop where
  nonempty : lines ≠ []
  sided : ∃ c, ∀ line ∈ lines, OneSidedIn c line
  balanced : ∃ debits credits, total (debitAmounts lines) = pure debits ∧
    total (creditAmounts lines) = pure credits ∧ Amount.eq debits credits = true

/-! ## The command boundary -/

theorem validate_eq_ok {line : JournalLine α} {amount : Money α} (h : line.validate = .ok amount) :
    (line.debit = some amount ∧ line.credit = none) ∨
      (line.debit = none ∧ line.credit = some amount) := by
  rcases line with ⟨account, debit, credit, sources⟩
  cases debit <;> cases credit <;> simp_all [JournalLine.validate]

theorem signedAmount_of_validate {line : JournalLine α} {amount : Money α}
    (h : line.validate = .ok amount) :
    line.signedAmount = some (if line.debit.isSome then amount else amount.negate) := by
  rcases validate_eq_ok h with ⟨hdebit, hcredit⟩ | ⟨hdebit, hcredit⟩ <;>
    simp [JournalLine.signedAmount, hdebit, hcredit]

theorem currency_of_validate {line : JournalLine α} {amount : Money α}
    (h : line.validate = .ok amount) :
    line.signedAmount.map Money.currency = some amount.currency := by
  rw [signedAmount_of_validate h]
  cases line.debit <;> simp

theorem OneSidedIn.currency {c : Currency} {line : JournalLine α} (h : OneSidedIn c line) :
    line.signedAmount.map Money.currency = some c := by
  rcases h with ⟨hside, hdebit, hcredit⟩
  cases hd : line.debit with
  | none =>
      cases hc : line.credit with
      | none => simp [hd, hc] at hside
      | some k => simp [JournalLine.signedAmount, hd, hc, hcredit k hc]
  | some d =>
      cases hc : line.credit with
      | none => simp [JournalLine.signedAmount, hd, hc, hdebit d hd]
      | some k => simp [hd, hc] at hside

variable [Monad m] [Returning m]

open Returning

theorem checkedAdd_eq_ok {a b sum : Money α} (h : Money.checkedAdd a b = (pure (.ok sum) : m _)) :
    a.currency = b.currency ∧ Amount.add a.amount b.amount = (pure sum.amount : m α) ∧
      sum.currency = a.currency := by
  by_cases hcur : a.currency = b.currency
  · rw [Money.checkedAdd_of_eq hcur] at h
    rcases bind_eq_pure h with ⟨amount, hadd, hsum⟩
    cases pure_inj hsum
    exact ⟨hcur, hadd, rfl⟩
  · rw [Money.checkedAdd_of_ne hcur] at h
    cases pure_inj h

variable [LawfulMonad m]

/-- When the loop gets through, every line was one-sided in the currency of the subtotals, and each
subtotal is its side added up in order, in that currency. -/
theorem subtotals_eq_ok {c : Currency} :
    ∀ (lines : List (JournalLine α)) (debits credits : Money α) (sums : Money α × Money α),
      debits.currency = c → credits.currency = c →
      subtotals lines debits credits = (pure (.ok sums) : m _) →
      (∀ line ∈ lines, OneSidedIn c line) ∧ sums.1.currency = c ∧ sums.2.currency = c ∧
        (debitAmounts lines).foldlM Amount.add debits.amount = (pure sums.1.amount : m α) ∧
        (creditAmounts lines).foldlM Amount.add credits.amount = (pure sums.2.amount : m α)
  | [], debits, credits, sums, hd, hc, h => by
      cases pure_inj h
      simp [debitAmounts, creditAmounts, hd, hc]
  | line :: rest, debits, credits, sums, hd, hc, h => by
      cases hv : line.validate with
      | error e =>
          simp only [subtotals, hv] at h
          cases pure_inj h
      | ok amount =>
          -- A line that passes the check has one side, which goes to its own subtotal.
          rcases validate_eq_ok hv with ⟨hdebit, hcredit⟩ | ⟨hdebit, hcredit⟩
          · simp only [subtotals, hv, hdebit, Option.isSome_some, if_true] at h
            rcases bind_eq_pure h with ⟨added, hadd, hrest⟩
            cases added with
            | error e => cases pure_inj hrest
            | ok sum =>
                rcases checkedAdd_eq_ok hadd with ⟨hcur, hamount, hsum⟩
                rcases subtotals_eq_ok rest sum credits sums (hsum.trans hd) hc hrest with
                  ⟨hall, hfirst, hsecond, hdebits, hcredits⟩
                have hline : OneSidedIn c line :=
                  ⟨by simp [hdebit, hcredit], by simp [hdebit, ← hcur, hd], by simp [hcredit]⟩
                refine ⟨List.forall_mem_cons.2 ⟨hline, hall⟩, hfirst, hsecond, ?_, ?_⟩
                · simpa [debitAmounts, hdebit, hamount] using hdebits
                · simpa [creditAmounts, hcredit] using hcredits
          · simp only [subtotals, hv, hdebit, Option.isSome_none] at h
            rcases bind_eq_pure h with ⟨added, hadd, hrest⟩
            cases added with
            | error e => cases pure_inj hrest
            | ok sum =>
                rcases checkedAdd_eq_ok hadd with ⟨hcur, hamount, hsum⟩
                rcases subtotals_eq_ok rest debits sum sums hd (hsum.trans hc) hrest with
                  ⟨hall, hfirst, hsecond, hdebits, hcredits⟩
                have hline : OneSidedIn c line :=
                  ⟨by simp [hdebit, hcredit], by simp [hdebit], by simp [hcredit, ← hcur, hc]⟩
                refine ⟨List.forall_mem_cons.2 ⟨hline, hall⟩, hfirst, hsecond, ?_, ?_⟩
                · simpa [debitAmounts, hdebit] using hdebits
                · simpa [creditAmounts, hcredit, hamount] using hcredits

/-- What an accepted command writes is one event, which the state permits. -/
def Permits (s : LedgerState α) : LedgerEvent α → Prop
  | .journalEntryPosted _ lines _ _ => WellFormedEntry lines
  | .entryReversed originalId _ _ =>
      s.entries.contains originalId = true ∧ s.isReversed originalId = false
  | .capitalizationStatusChanged runId fromStatus toStatus _ =>
      fromStatus = (s.capitalizationStatus runId).getD .pendingReview ∧ fromStatus ≠ toStatus

theorem permits_of_postJournalEntry {s : LedgerState α} {lines : List (JournalLine α)}
    {dims : Dimensions} {newId : EntryId} {now : DateTimeUtc} {events : List (LedgerEvent α)}
    (h : handleCommand s (.postJournalEntry lines dims) newId now = (pure (.ok events) : m _)) :
    events = [.journalEntryPosted newId lines dims now] ∧ WellFormedEntry lines := by
  cases lines with
  | nil => cases pure_inj h
  | cons first rest =>
      cases hv : first.validate with
      | error e =>
          simp only [handleCommand, hv] at h
          cases pure_inj h
      | ok amount =>
          simp only [handleCommand, hv] at h
          rcases bind_eq_pure h with ⟨result, hsub, hrest⟩
          cases result with
          | error e => cases pure_inj hrest
          | ok sums =>
              rcases subtotals_eq_ok (first :: rest) _ _ sums rfl rfl hsub with
                ⟨hall, -, -, hdebits, hcredits⟩
              -- `Money` compares the amounts and the currencies; the latter are the same by now.
              by_cases heq : sums.1.beq sums.2
              · simp only [heq, if_true] at hrest
                cases pure_inj hrest
                have hamounts : Amount.eq sums.1.amount sums.2.amount = true := by
                  simp only [Money.beq, Bool.and_eq_true] at heq
                  exact heq.1
                exact ⟨rfl, by simp, ⟨_, hall⟩, _, _, hdebits, hcredits, hamounts⟩
              · simp only [heq] at hrest
                cases pure_inj hrest

/-- The event that answers a command, if the state permits it. -/
def answer (s : LedgerState α) (command : LedgerCommand α) (newId : EntryId) (now : DateTimeUtc) :
    LedgerEvent α :=
  match command with
  | .postJournalEntry lines dims => .journalEntryPosted newId lines dims now
  | .reverseEntry originalId reason => .entryReversed originalId newId reason
  | .changeCapitalizationStatus runId toStatus policyRef =>
      .capitalizationStatusChanged runId ((s.capitalizationStatus runId).getD .pendingReview)
        toStatus policyRef

theorem answer_of_handleCommand {s : LedgerState α} {command : LedgerCommand α} {newId : EntryId}
    {now : DateTimeUtc} {events : List (LedgerEvent α)}
    (h : handleCommand s command newId now = (pure (.ok events) : m _)) :
    events = [answer s command newId now] ∧ Permits s (answer s command newId now) := by
  cases command with
  | postJournalEntry lines dims => exact permits_of_postJournalEntry h
  | reverseEntry originalId reason =>
      by_cases hknown : s.entries.contains originalId
      · by_cases hrev : s.isReversed originalId
        · simp only [handleCommand, hknown, hrev] at h
          cases pure_inj h
        · simp only [handleCommand, hknown, hrev] at h
          cases pure_inj h
          exact ⟨rfl, hknown, by simpa using hrev⟩
      · simp only [handleCommand, hknown] at h
        cases pure_inj h
  | changeCapitalizationStatus runId toStatus policyRef =>
      by_cases hsame : (s.capitalizationStatus runId).getD .pendingReview = toStatus
      · simp only [handleCommand, hsame, if_true] at h
        cases pure_inj h
      · simp only [handleCommand, hsame, if_false] at h
        cases pure_inj h
        exact ⟨rfl, rfl, hsame⟩

theorem permits_of_handleCommand {s : LedgerState α} {command : LedgerCommand α} {newId : EntryId}
    {now : DateTimeUtc} {events : List (LedgerEvent α)}
    (h : handleCommand s command newId now = (pure (.ok events) : m _)) :
    ∃ event, events = [event] ∧ Permits s event :=
  ⟨_, answer_of_handleCommand h⟩

/-! ## Runs -/

/-- A run ends in the replay of the log it wrote. -/
theorem replay_of_run :
    ∀ (requests : List (Request α)) (log : List (LedgerEvent α)) (s s' : LedgerState α),
      run s requests = (pure (s', log) : m _) → replay s log = (pure s' : m _)
  | [], log, s, s', h => by
      cases pure_inj h
      rfl
  | request :: rest, log, s, s', h => by
      rcases bind_eq_pure h with ⟨⟨mid, first⟩, hfirst, hrest⟩
      rcases bind_eq_pure hrest with ⟨⟨last, later⟩, hlater, hpair⟩
      cases pure_inj hpair
      have hmid : replay s first = (pure mid : m _) := by
        rcases bind_eq_pure hfirst with ⟨answer, -, happly⟩
        cases answer with
        | error e =>
            cases pure_inj happly
            rfl
        | ok accepted =>
            rcases bind_eq_pure happly with ⟨applied, hreplay, hpair'⟩
            cases pure_inj hpair'
            exact hreplay
      have hlast := replay_of_run rest later mid s' hlater
      simp only [replay, List.foldlM_append] at hmid hlast ⊢
      rw [hmid, pure_bind, hlast]

end Model

/-! ## Exact arithmetic -/

theorem run_foldlM_add :
    ∀ (amounts : List ℚ) (start : ℚ),
      (amounts.foldlM Amount.add start).run = start + amounts.sum
  | [], start => by simp
  | amount :: rest, start => by
      rw [List.foldlM_cons, Id.run_bind, run_foldlM_add rest]
      simp [add_assoc]

/-- Over exact rationals the two sides of a well-formed entry have the same sum. -/
theorem WellFormedEntry.sum_eq {lines : List (JournalLine ℚ)} (h : WellFormedEntry lines) :
    (debitAmounts lines).sum = (creditAmounts lines).sum := by
  rcases h.balanced with ⟨debits, credits, hdebits, hcredits, heq⟩
  have hd : (total (debitAmounts lines)).run = debits := congrArg Id.run hdebits
  have hc : (total (creditAmounts lines)).run = credits := congrArg Id.run hcredits
  simp only [total, run_foldlM_add, amount_zero_rat, zero_add] at hd hc
  rw [hd, hc]
  simpa using heq

end Falkr
