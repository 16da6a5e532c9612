import Falkr.Core.Texts
import Falkr.Events.Boundary
import Mathlib.Data.Finset.Card

/-!
# Assertions — the independent check of a journal entry

`assertBalanced` is the checker the corpus runs against the ledger.  It adds up signed amounts and
collects the currencies in a set, where `handleCommand` keeps two subtotals in the currency of the
first line.  Over exact rationals both accept the balanced entries and nothing else
(`handleCommand_isOk_iff_assertBalanced`).
-/

namespace Falkr

open Lib

/-! ## The checker -/

/-- The invariants of the corpus, under their numbers. -/
inductive Invariant
  | balanced
  | idempotent
  | deterministicReplay
  | negativeBalance
  | currencyIsolation
  | trialBalanceZero
  | subledgerTies
  | rollForward
  | closedPeriodImmutable
  | consolidationComplete
  deriving DecidableEq, Repr

structure InvariantViolation where
  invariant : Invariant
  detail : String
  deriving DecidableEq, Repr

/-- `checked_add`, with how a number is displayed. -/
class CheckedAmount (α : Type) where
  checkedAdd : α → α → Option α
  display : α → String

/-- Exact rationals never overflow. -/
instance : CheckedAmount ℚ where
  checkedAdd := fun a b => some (a + b)
  display := toString

instance : CheckedAmount Decimal where
  checkedAdd := Decimal.add
  display := Decimal.display

@[simp] theorem checkedAdd_exact (a b : ℚ) : CheckedAmount.checkedAdd a b = some (a + b) := rfl

section Model

variable {m : Type → Type} {α : Type} [Amount m α] [CheckedAmount α]

open CheckedAmount (display)

/-- Sums exact decimals, refusing to saturate. -/
def checkedSum (inv : Invariant) : List α → α → Except InvariantViolation α
  | [], total => .ok total
  | value :: rest, total =>
      match CheckedAmount.checkedAdd total value with
      | some sum => checkedSum inv rest sum
      | none => .error {
          invariant := inv
          detail := "summation overflowed Decimal at " ++ display total ++ " + " ++ display value }

/-- The loop of `assert_balanced`: the signed amounts in order and the set of currencies. -/
def signedLines : List (JournalLine α) → List α → Finset Currency →
    Except InvariantViolation (List α × Finset Currency)
  | [], signed, currencies => .ok (signed, currencies)
  | line :: rest, signed, currencies =>
      match line.signedAmount with
      | some amount =>
          signedLines rest (signed ++ [amount.amount]) (insert amount.currency currencies)
      | none => .error {
          invariant := .balanced
          detail := "line on account " ++ line.account.asUuid.hyphenated ++
            " carries both or neither of debit/credit" }

/-- Every transaction's signed line amounts sum to exactly zero. -/
def assertBalanced (lines : List (JournalLine α)) : Except InvariantViolation Unit :=
  if lines.isEmpty then .error {
    invariant := .balanced
    detail := "an entry with no lines cannot be balanced; it is malformed" }
  else do
    let (signed, currencies) ← signedLines lines [] ∅
    if 1 < currencies.card then .error {
      invariant := .balanced
      detail := "entry spans " ++ toString currencies.card ++ " currencies; see invariant 5" }
    let total ← checkedSum .balanced signed Amount.zero
    if Amount.eq total (Amount.zero : α) then .ok ()
    else .error {
      invariant := .balanced
      detail := "signed lines sum to " ++ display total ++ ", not zero" }

end Model

/-! ## What the checker accepts -/

theorem checkedSum_eq (inv : Invariant) :
    ∀ (values : List ℚ) (total : ℚ), checkedSum inv values total = .ok (total + values.sum)
  | [], total => by simp [checkedSum]
  | value :: rest, total => by
      have ih := checkedSum_eq inv rest (total + value)
      simp [checkedSum, ih, add_assoc]

/-- The currencies of the lines that carry exactly one side. -/
def currenciesOf (lines : List (JournalLine ℚ)) : Finset Currency :=
  (lines.filterMap fun line => line.signedAmount.map Money.currency).toFinset

theorem mem_currenciesOf {lines : List (JournalLine ℚ)} {c : Currency} :
    c ∈ currenciesOf lines ↔
      ∃ line ∈ lines, ∃ amount, line.signedAmount = some amount ∧ amount.currency = c := by
  simp [currenciesOf]

/-- The loop gets through if every line carries exactly one side. -/
theorem signedLines_of_sided :
    ∀ (lines : List (JournalLine ℚ)) (signed : List ℚ) (currencies : Finset Currency),
      (∀ line ∈ lines, line.signedAmount.isSome) →
      signedLines lines signed currencies =
        .ok (signed ++ lines.map lineAmount, currencies ∪ currenciesOf lines)
  | [], signed, currencies, _ => by simp [signedLines, currenciesOf]
  | line :: rest, signed, currencies, h => by
      rcases Option.isSome_iff_exists.1 (h line (by simp)) with ⟨amount, hamount⟩
      have ih := signedLines_of_sided rest (signed ++ [amount.amount])
        (insert amount.currency currencies) fun l hl => h l (by simp [hl])
      simp [signedLines, hamount, ih, currenciesOf, lineAmount]

theorem signedLines_error_of_not_sided :
    ∀ (lines : List (JournalLine ℚ)) (signed : List ℚ) (currencies : Finset Currency),
      ¬(∀ line ∈ lines, line.signedAmount.isSome) →
      ∃ violation, signedLines lines signed currencies = .error violation
  | [], signed, currencies, h => by simp at h
  | line :: rest, signed, currencies, h => by
      cases hamount : line.signedAmount with
      | none => exact ⟨_, by rw [signedLines, hamount]⟩
      | some amount =>
          have hrest : ¬(∀ l ∈ rest, l.signedAmount.isSome) := by
            intro hall
            exact h (List.forall_mem_cons.2 ⟨by simp [hamount], hall⟩)
          rcases signedLines_error_of_not_sided rest (signed ++ [amount.amount])
            (insert amount.currency currencies) hrest with ⟨violation, hviolation⟩
          exact ⟨violation, by simp [signedLines, hamount, hviolation]⟩

/-- Lines that carry one side each span at most one currency exactly if they share one. -/
theorem card_currenciesOf_le_one {lines : List (JournalLine ℚ)} (hne : lines ≠ [])
    (hsided : ∀ line ∈ lines, line.signedAmount.isSome) :
    (currenciesOf lines).card ≤ 1 ↔ ∃ c, AllSidedIn c lines := by
  constructor
  · intro hcard
    rcases List.exists_mem_of_ne_nil lines hne with ⟨first, hfirst⟩
    rcases Option.isSome_iff_exists.1 (hsided first hfirst) with ⟨amount, hamount⟩
    refine ⟨amount.currency, ?_⟩
    intro line hline
    rcases Option.isSome_iff_exists.1 (hsided line hline) with ⟨other, hother⟩
    have heq : other.currency = amount.currency :=
      Finset.card_le_one.1 hcard _ (mem_currenciesOf.2 ⟨line, hline, other, hother, rfl⟩)
        _ (mem_currenciesOf.2 ⟨first, hfirst, amount, hamount, rfl⟩)
    exact sidedIn_of_signedAmount (by rw [hother, ← heq])
  · rintro ⟨c, hall⟩
    refine Finset.card_le_one.2 ?_
    have hc : ∀ d ∈ currenciesOf lines, d = c := by
      intro d hd
      rcases mem_currenciesOf.1 hd with ⟨line, hline, amount, hamount, rfl⟩
      have hsame : some amount = some ⟨lineAmount line, c⟩ := hamount.symm.trans (hall line hline)
      rw [Option.some.inj hsame]
    intro d hd e he
    exact (hc d hd).trans (hc e he).symm

theorem AllSidedIn.isSome {c : Currency} {lines : List (JournalLine ℚ)} (h : AllSidedIn c lines) :
    ∀ line ∈ lines, line.signedAmount.isSome := by
  intro line hline
  have hsome : line.signedAmount = some ⟨lineAmount line, c⟩ := h line hline
  simp [hsome]

theorem assertBalanced_iff (lines : List (JournalLine ℚ)) :
    assertBalanced lines = .ok () ↔ ∃ c, Balanced c lines := by
  by_cases hne : lines = []
  · subst hne
    have hno : ¬∃ c, Balanced c ([] : List (JournalLine ℚ)) := fun ⟨_, h⟩ => h.nonempty rfl
    simp [assertBalanced, hno]
  · by_cases hsided : ∀ line ∈ lines, line.signedAmount.isSome
    · have hloop := signedLines_of_sided lines [] ∅ hsided
      have hbalanced : (∃ c, Balanced c lines) ↔
          (∃ c, AllSidedIn c lines) ∧ (lines.map lineAmount).sum = 0 := by
        constructor
        · rintro ⟨c, hc⟩
          exact ⟨⟨c, hc.sided⟩, hc.sum_eq_zero⟩
        · rintro ⟨⟨c, hall⟩, hsum⟩
          exact ⟨c, hne, hall, hsum⟩
      rw [hbalanced, ← card_currenciesOf_le_one hne hsided, ← Nat.not_lt]
      by_cases hmany : 1 < (currenciesOf lines).card
      · simp [assertBalanced, hne, hloop, hmany, bind, Except.bind]
      · by_cases hsum : (lines.map lineAmount).sum = 0 <;>
          simp [assertBalanced, hne, hloop, hmany, checkedSum_eq, hsum, bind, Except.bind]
    · rcases signedLines_error_of_not_sided lines [] ∅ hsided with ⟨violation, hviolation⟩
      have hno : ¬∃ c, Balanced c lines := fun ⟨_, h⟩ => hsided h.sided.isSome
      simp [assertBalanced, hne, hviolation, hno, bind, Except.bind]

/-! ## What the command boundary accepts -/

theorem validate_of_sidedIn {c : Currency} {line : JournalLine ℚ} (h : SidedIn c line) :
    ∃ amount, line.validate = .ok amount ∧ amount.currency = c := by
  cases hv : line.validate with
  | error e =>
      have hnone : line.signedAmount = none := by
        rcases line with ⟨account, debit, credit, sources⟩
        cases debit <;> cases credit <;> simp_all [JournalLine.validate, JournalLine.signedAmount]
      simp [SidedIn, hnone] at h
  | ok amount =>
      have hsigned : line.signedAmount = some ⟨lineAmount line, c⟩ := h
      refine ⟨amount, rfl, ?_⟩
      rw [signedAmount_of_validate hv] at hsigned
      cases hside : line.debit.isSome <;>
        simpa [hside] using congrArg (Option.map Money.currency) hsigned

/-- Lines that are all in the currency of the subtotals get through the loop. -/
theorem subtotals_of_sided {c : Currency} :
    ∀ (lines : List (JournalLine ℚ)) (debits credits : Money ℚ),
      debits.currency = c → credits.currency = c → AllSidedIn c lines →
      ∃ sums, (subtotals lines debits credits).run = .ok sums
  | [], debits, credits, _, _, _ => ⟨(debits, credits), rfl⟩
  | line :: rest, debits, credits, hd, hc, h => by
      rcases List.forall_mem_cons.1 h with ⟨hline, hrest⟩
      rcases validate_of_sidedIn hline with ⟨amount, hv, hcur⟩
      cases hside : line.debit.isSome with
      | true =>
          rcases subtotals_of_sided rest ⟨debits.amount + amount.amount, debits.currency⟩ credits
            hd hc hrest with ⟨sums, hsums⟩
          exact ⟨sums, by simp [subtotals, hv, hside, checkedAdd_rat, hd, hcur, ← hsums]⟩
      | false =>
          rcases subtotals_of_sided rest debits ⟨credits.amount + amount.amount, credits.currency⟩
            hd hc hrest with ⟨sums, hsums⟩
          exact ⟨sums, by simp [subtotals, hv, hside, checkedAdd_rat, hc, hcur, ← hsums]⟩

theorem handleCommand_of_balanced {c : Currency} {lines : List (JournalLine ℚ)}
    (h : Balanced c lines) (s : LedgerState ℚ) (dims : Dimensions) (newId : EntryId)
    (now : DateTimeUtc) :
    (handleCommand s (.postJournalEntry lines dims) newId now).run =
      .ok [.journalEntryPosted newId lines dims now] := by
  cases lines with
  | nil => exact absurd rfl h.nonempty
  | cons first rest =>
      rcases validate_of_sidedIn (h.sided first (by simp)) with ⟨amount, hv, rfl⟩
      let zero : Money ℚ := Money.zero amount.currency
      rcases subtotals_of_sided (first :: rest) zero zero rfl rfl h.sided with ⟨sums, hsub⟩
      rcases subtotals_spec (first :: rest) zero zero sums rfl rfl hsub with ⟨-, h1, h2, hsum⟩
      have hamounts : sums.1.amount = sums.2.amount := by
        have hzero := h.sum_eq_zero
        simp only [hzero, zero, Money.zero_amount] at hsum
        linarith
      have heq : sums.1.beq sums.2 = true := by simp [Money.beq, hamounts, h1, h2]
      simp [handleCommand, hv, zero, hsub, heq]

/-- The command boundary and the checker accept the same entries, and what is accepted is posted as
it stands. -/
theorem handleCommand_isOk_iff_assertBalanced (s : LedgerState ℚ) (lines : List (JournalLine ℚ))
    (dims : Dimensions) (newId : EntryId) (now : DateTimeUtc) :
    ((∃ events, (handleCommand s (.postJournalEntry lines dims) newId now).run = .ok events) ↔
        assertBalanced lines = .ok ()) ∧
      ∀ events, (handleCommand s (.postJournalEntry lines dims) newId now).run = .ok events →
        events = [.journalEntryPosted newId lines dims now] := by
  refine ⟨?_, fun events h => (balanced_of_handleCommand h).2⟩
  rw [assertBalanced_iff]
  constructor
  · rintro ⟨events, h⟩
    exact (balanced_of_handleCommand h).1
  · rintro ⟨c, h⟩
    exact ⟨_, handleCommand_of_balanced h s dims newId now⟩

end Falkr
