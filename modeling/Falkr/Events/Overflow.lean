import Falkr.Core.Representable
import Falkr.Events.Accepted

/-!
# Overflow — when the ledger does not panic

The machine decimal.  A command is checked entry by entry, while replay adds to balances that have
accumulated over the whole log, so the two meet different bounds.  A run returns exactly when every
running sum it forms fits (`run_returns_iff`): the two subtotals of each entry, and each account's
balance along the lines of each accepted entry.
-/

namespace Falkr

open Lib Decimal

theorem checkedAdd_decimal {a b : Money Decimal} (h : a.currency = b.currency) :
    Money.checkedAdd a b =
      (add a.amount b.amount).map fun sum => .ok { amount := sum, currency := a.currency } := by
  rw [Money.checkedAdd_of_eq h]
  cases hadd : add a.amount b.amount <;> simp [Amount.add, hadd]

/-! ## The command boundary -/

/-- The amounts added to one subtotal: those of the lines on that side, up to the first line that
the command handler refuses. -/
def sideAmounts (c : Currency) (onDebit : Bool) : List (JournalLine Decimal) → List Decimal
  | [] => []
  | line :: rest =>
      match line.validate with
      | .error _ => []
      | .ok amount =>
          if amount.currency = c then
            if line.debit.isSome = onDebit then amount.amount :: sideAmounts c onDebit rest
            else sideAmounts c onDebit rest
          else []

theorem subtotals_isSome_iff {c : Currency} :
    ∀ (lines : List (JournalLine Decimal)) (debits credits : Money Decimal),
      debits.currency = c → credits.currency = c →
      ((subtotals lines debits credits).isSome ↔
        RunningFits debits.amount (sideAmounts c true lines) ∧
          RunningFits credits.amount (sideAmounts c false lines))
  | [], debits, credits, _, _ => by simp [subtotals, sideAmounts, RunningFits]
  | line :: rest, debits, credits, hd, hc => by
      cases hv : line.validate with
      | error e => simp [subtotals, sideAmounts, hv, RunningFits]
      | ok amount =>
          -- A line in another currency ends the loop with an error, which is no panic.
          by_cases hcur : amount.currency = c
          · have hdc : debits.currency = amount.currency := hd.trans hcur.symm
            have hcc : credits.currency = amount.currency := hc.trans hcur.symm
            cases hside : line.debit.isSome with
            | true =>
                cases hadd : add debits.amount amount.amount with
                | none =>
                    have hno := not_runningFits_cons_of_add hadd (sideAmounts c true rest)
                    simp [subtotals, sideAmounts, hv, hcur, hside, checkedAdd_decimal hdc, hadd,
                      hno]
                | some sum =>
                    have ih := subtotals_isSome_iff rest ⟨sum, debits.currency⟩ credits hd hc
                    simp [subtotals, sideAmounts, hv, hcur, hside, checkedAdd_decimal hdc, hadd,
                      ih, runningFits_cons_of_add hadd]
            | false =>
                cases hadd : add credits.amount amount.amount with
                | none =>
                    have hno := not_runningFits_cons_of_add hadd (sideAmounts c false rest)
                    simp [subtotals, sideAmounts, hv, hcur, hside, checkedAdd_decimal hcc, hadd,
                      hno]
                | some sum =>
                    have ih := subtotals_isSome_iff rest debits ⟨sum, credits.currency⟩ hd hc
                    simp [subtotals, sideAmounts, hv, hcur, hside, checkedAdd_decimal hcc, hadd,
                      ih, runningFits_cons_of_add hadd]
          · have hdc : debits.currency ≠ amount.currency := fun h => hcur (h ▸ hd)
            have hcc : credits.currency ≠ amount.currency := fun h => hcur (h ▸ hc)
            cases hside : line.debit.isSome <;>
              simp [subtotals, sideAmounts, hv, hcur, hside, Money.checkedAdd_of_ne hdc,
                Money.checkedAdd_of_ne hcc, RunningFits]

/-- The currency an entry is checked in, that of its first line. -/
def entryCurrency : List (JournalLine Decimal) → Option Currency
  | [] => none
  | first :: _ => first.signedAmount.map Money.currency

/-- Both subtotals of an entry stay in range while the command handler adds them up. -/
def CommandFits : LedgerCommand Decimal → Prop
  | .postJournalEntry lines _ =>
      ∀ c, entryCurrency lines = some c →
        RunningFits Amount.zero (sideAmounts c true lines) ∧
          RunningFits Amount.zero (sideAmounts c false lines)
  | _ => True

theorem signedAmount_of_validate_error {line : JournalLine Decimal} {e : LedgerError Decimal}
    (h : line.validate = .error e) : line.signedAmount = none := by
  rcases line with ⟨account, debit, credit, sources⟩
  cases debit <;> cases credit <;> simp [JournalLine.validate, JournalLine.signedAmount] at *

theorem handleCommand_isSome_iff (s : LedgerState Decimal) (command : LedgerCommand Decimal)
    (newId : EntryId) (now : DateTimeUtc) :
    (handleCommand s command newId now).isSome ↔ CommandFits command := by
  cases command with
  | postJournalEntry lines dims =>
      cases lines with
      | nil => simp [handleCommand, CommandFits, entryCurrency]
      | cons first rest =>
          cases hv : first.validate with
          | error e =>
              simp [handleCommand, hv, CommandFits, entryCurrency,
                signedAmount_of_validate_error hv]
          | ok amount =>
              have hcurrency := currency_of_validate hv
              let zero : Money Decimal := Money.zero amount.currency
              have hiff := subtotals_isSome_iff (first :: rest) zero zero
                (c := amount.currency) rfl rfl
              have hfits : CommandFits (.postJournalEntry (first :: rest) dims) ↔
                  (subtotals (first :: rest) zero zero).isSome := by
                simp [CommandFits, entryCurrency, hcurrency, hiff, zero]
              rw [hfits]
              cases hsub : subtotals (first :: rest) zero zero with
              | none => simp [handleCommand, hv, zero, hsub]
              | some result =>
                  cases result with
                  | error e => simp [handleCommand, hv, zero, hsub]
                  | ok sums =>
                      by_cases heq : sums.1.beq sums.2 <;>
                        simp [handleCommand, hv, zero, hsub, heq]
  | reverseEntry originalId reason =>
      by_cases hknown : s.entries.contains originalId <;>
        by_cases hrev : s.isReversed originalId <;> simp [handleCommand, CommandFits, hknown, hrev]
  | changeCapitalizationStatus runId toStatus policyRef =>
      by_cases hsame : (s.capitalizationStatus runId).getD .pendingReview = toStatus <;>
        simp [handleCommand, CommandFits, hsame]

/-! ## Posting -/

/-- Every line carries exactly one side, in currency `c`. -/
def AllInCurrency (c : Currency) (lines : List (JournalLine Decimal)) : Prop :=
  ∀ line ∈ lines, ∃ q, line.signedAmount = some { amount := q, currency := c }

/-- The signed amounts of an entry's lines on one account, in order. -/
def amountsOn (a : AccountId) (lines : List (JournalLine Decimal)) : List Decimal :=
  (lines.filter fun line => line.account = a).filterMap fun line =>
    line.signedAmount.map Money.amount

/-- Where an account's running balance starts. -/
def startOf (balance : Option (Money Decimal)) : Decimal :=
  (balance.map Money.amount).getD Amount.zero

/-- The account has no balance yet, or one in currency `c`. -/
def Takes (c : Currency) (balance : Option (Money Decimal)) : Prop :=
  ∀ b, balance = some b → b.currency = c

/-- Every account an entry is posted to stays in range along the entry's lines. -/
def LinesFit (balances : SortedMap AccountId (Money Decimal)) (c : Currency)
    (lines : List (JournalLine Decimal)) : Prop :=
  ∀ a, Takes c (balances.get? a) → RunningFits (startOf (balances.get? a)) (amountsOn a lines)

theorem postLine_of_takes {balances : SortedMap AccountId (Money Decimal)} {c : Currency}
    {line : JournalLine Decimal} {q : Decimal} (hline : line.signedAmount = some ⟨q, c⟩)
    (htakes : Takes c (balances.get? line.account)) :
    LedgerState.postLine balances line =
      (add (startOf (balances.get? line.account)) q).map fun sum =>
        balances.insert line.account ⟨sum, c⟩ := by
  cases hb : balances.get? line.account with
  | none =>
      have hsum := checkedAdd_decimal (a := Money.zero c) (b := ⟨q, c⟩) rfl
      cases hadd : add Amount.zero q <;>
        simp [LedgerState.postLine, startOf, hline, hb, hsum, hadd]
  | some b =>
      have hcur : b.currency = c := htakes b hb
      have hsum := checkedAdd_decimal (a := b) (b := ⟨q, c⟩) hcur
      cases hadd : add b.amount q <;>
        simp [LedgerState.postLine, startOf, hline, hb, hsum, hadd, hcur]

theorem postLine_of_not_takes {balances : SortedMap AccountId (Money Decimal)} {c : Currency}
    {line : JournalLine Decimal} {q : Decimal} (hline : line.signedAmount = some ⟨q, c⟩)
    {b : Money Decimal} (hb : balances.get? line.account = some b) (hcur : b.currency ≠ c) :
    LedgerState.postLine balances line = some (balances.insert line.account b) := by
  simp [LedgerState.postLine, hline, hb, Money.checkedAdd_of_ne (a := b) (b := ⟨q, c⟩) hcur]

theorem amountsOn_cons (a : AccountId) {line : JournalLine Decimal} {q : Decimal} {c : Currency}
    (hline : line.signedAmount = some ⟨q, c⟩) (rest : List (JournalLine Decimal)) :
    amountsOn a (line :: rest) =
      if line.account = a then q :: amountsOn a rest else amountsOn a rest := by
  by_cases h : line.account = a <;> simp [amountsOn, h, hline]

/-- What remains to be checked after a line that was posted. -/
theorem linesFit_cons_of_takes {balances : SortedMap AccountId (Money Decimal)} {c : Currency}
    {line : JournalLine Decimal} {q sum : Decimal} (hline : line.signedAmount = some ⟨q, c⟩)
    (htakes : Takes c (balances.get? line.account))
    (hadd : add (startOf (balances.get? line.account)) q = some sum)
    (rest : List (JournalLine Decimal)) :
    LinesFit balances c (line :: rest) ↔ LinesFit (balances.insert line.account ⟨sum, c⟩) c rest := by
  unfold LinesFit
  refine forall_congr' fun a => ?_
  rw [SortedMap.get?_insert, amountsOn_cons a hline]
  by_cases ha : a = line.account
  · subst ha
    have hnew : Takes c (some ⟨sum, c⟩) := by
      intro b hb
      cases hb
      rfl
    rw [if_pos rfl, if_pos rfl, runningFits_cons_of_add hadd]
    exact ⟨fun h _ => h htakes, fun h _ => h hnew⟩
  · rw [if_neg ha, if_neg (Ne.symm ha)]

/-- A skipped line adds nothing to any account that takes the currency. -/
theorem linesFit_cons_of_not_takes {balances : SortedMap AccountId (Money Decimal)} {c : Currency}
    {line : JournalLine Decimal} {q : Decimal} (hline : line.signedAmount = some ⟨q, c⟩)
    {b : Money Decimal} (hb : balances.get? line.account = some b) (hcur : b.currency ≠ c)
    (rest : List (JournalLine Decimal)) :
    LinesFit balances c (line :: rest) ↔ LinesFit (balances.insert line.account b) c rest := by
  unfold LinesFit
  refine forall_congr' fun a => ?_
  rw [SortedMap.get?_insert, amountsOn_cons a hline]
  by_cases ha : a = line.account
  · have hno : ¬Takes c (some b) := fun htakes => hcur (htakes b rfl)
    rw [if_pos ha, ha, hb]
    exact ⟨fun _ htakes => absurd htakes hno, fun _ htakes => absurd htakes hno⟩
  · rw [if_neg ha, if_neg (Ne.symm ha)]

theorem postLines_isSome_iff {c : Currency} :
    ∀ (lines : List (JournalLine Decimal)) (balances : SortedMap AccountId (Money Decimal)),
      AllInCurrency c lines →
      ((lines.foldlM LedgerState.postLine balances).isSome ↔ LinesFit balances c lines)
  | [], balances, _ => by simp [LinesFit, amountsOn, RunningFits]
  | line :: rest, balances, h => by
      rcases List.forall_mem_cons.1 h with ⟨⟨q, hline⟩, hrest⟩
      by_cases htakes : Takes c (balances.get? line.account)
      · have hpost := postLine_of_takes hline htakes
        cases hadd : add (startOf (balances.get? line.account)) q with
        | none =>
            have hno : ¬LinesFit balances c (line :: rest) := by
              intro hfit
              have hfit' := hfit line.account htakes
              rw [amountsOn_cons line.account hline, if_pos rfl] at hfit'
              exact not_runningFits_cons_of_add hadd _ hfit'
            simp [hpost, hadd, hno]
        | some sum =>
            have ih := postLines_isSome_iff rest (balances.insert line.account ⟨sum, c⟩) hrest
            rw [linesFit_cons_of_takes hline htakes hadd, ← ih]
            simp [hpost, hadd]
      · obtain ⟨b, hb, hcur⟩ : ∃ b, balances.get? line.account = some b ∧ b.currency ≠ c := by
          simpa [Takes] using htakes
        have ih := postLines_isSome_iff rest (balances.insert line.account b) hrest
        rw [linesFit_cons_of_not_takes hline hb hcur, ← ih]
        simp [postLine_of_not_takes hline hb hcur]

theorem post_isSome_iff {s : LedgerState Decimal} {c : Currency}
    {lines : List (JournalLine Decimal)} (h : AllInCurrency c lines) (id : EntryId) :
    (s.post id lines).isSome ↔ LinesFit s.balances c lines := by
  rw [← postLines_isSome_iff lines s.balances h]
  cases hp : lines.foldlM LedgerState.postLine s.balances <;> simp [LedgerState.post, hp]

theorem entries_of_post {s s' : LedgerState Decimal} {id : EntryId}
    {lines : List (JournalLine Decimal)} (h : s.post id lines = some s') :
    s'.entries = s.entries.insert id lines := by
  cases hp : lines.foldlM LedgerState.postLine s.balances with
  | none => simp [LedgerState.post, hp] at h
  | some balances =>
      have heq : { s with balances := balances, entries := s.entries.insert id lines } = s' := by
        simpa [LedgerState.post, hp] using h
      rw [← heq]

/-! ## Entries are in one currency -/

theorem exists_signedAmount {c : Currency} {line : JournalLine Decimal}
    (h : line.signedAmount.map Money.currency = some c) :
    ∃ q, line.signedAmount = some { amount := q, currency := c } := by
  rcases Option.map_eq_some_iff.1 h with ⟨amount, hamount, rfl⟩
  exact ⟨amount.amount, hamount⟩

/-- A mirrored line is in the currency of the line. -/
theorem currency_mirror (line : JournalLine Decimal) :
    line.mirror.signedAmount.map Money.currency = line.signedAmount.map Money.currency := by
  rcases line with ⟨account, debit, credit, sources⟩
  cases debit <;> cases credit <;> rfl

theorem AllInCurrency.mirror {c : Currency} {lines : List (JournalLine Decimal)}
    (h : AllInCurrency c lines) : AllInCurrency c (mirror lines) := by
  intro line hline
  rcases List.mem_map.1 hline with ⟨original, horiginal, rfl⟩
  rcases h original horiginal with ⟨q, hq⟩
  exact exists_signedAmount (by rw [currency_mirror, hq]; rfl)

theorem AllInCurrency.entryCurrency {c : Currency} {lines : List (JournalLine Decimal)}
    (h : AllInCurrency c lines) (balances : SortedMap AccountId (Money Decimal)) :
    (∀ c', entryCurrency lines = some c' → LinesFit balances c' lines) ↔
      LinesFit balances c lines := by
  cases lines with
  | nil => simp [Falkr.entryCurrency, LinesFit, amountsOn, RunningFits]
  | cons first rest =>
      rcases h first (by simp) with ⟨q, hq⟩
      simp [Falkr.entryCurrency, hq]

/-- Every stored entry is in one currency. -/
def EntriesInCurrency (s : LedgerState Decimal) : Prop :=
  ∀ id lines, s.entries.get? id = some lines → ∃ c, AllInCurrency c lines

/-- The lines that an accepted command posts. -/
def postedLines (s : LedgerState Decimal) : LedgerCommand Decimal → List (JournalLine Decimal)
  | .postJournalEntry lines _ => lines
  | .reverseEntry originalId _ => (s.entries.get? originalId).elim [] mirror
  | .changeCapitalizationStatus _ _ _ => []

/-- Folding the event in posts these lines, which are in one currency. -/
structure PostsLines (s : LedgerState Decimal) (event : LedgerEvent Decimal) (c : Currency)
    (lines : List (JournalLine Decimal)) : Prop where
  inCurrency : AllInCurrency c lines
  isSome_iff : (applyEvent s event).isSome ↔ LinesFit s.balances c lines
  entries : ∀ s', applyEvent s event = some s' → ∀ id stored, s'.entries.get? id = some stored →
    stored = lines ∨ s.entries.get? id = some stored

theorem postsLines_posted {s : LedgerState Decimal} {c : Currency}
    {lines : List (JournalLine Decimal)} (h : AllInCurrency c lines) (newId : EntryId)
    (dims : Dimensions) (now : DateTimeUtc) :
    PostsLines s (.journalEntryPosted newId lines dims now) c lines where
  inCurrency := h
  isSome_iff := post_isSome_iff h newId
  entries := by
    intro s' hs' id stored hget
    rw [entries_of_post hs', SortedMap.get?_insert] at hget
    by_cases hid : id = newId
    · exact Or.inl (by simpa [hid] using hget.symm)
    · exact Or.inr (by simpa [hid] using hget)

theorem postsLines_reversed {s : LedgerState Decimal} {c : Currency} {originalId : EntryId}
    {original : List (JournalLine Decimal)} (hget : s.entries.get? originalId = some original)
    (h : AllInCurrency c original) (reversalId : EntryId) (reason : String) :
    PostsLines s (.entryReversed originalId reversalId reason) c (mirror original) where
  inCurrency := h.mirror
  isSome_iff := by
    rw [← post_isSome_iff h.mirror reversalId]
    cases hp : s.post reversalId (mirror original) <;> simp [applyEvent, hget, hp]
  entries := by
    intro s' hs' id stored hstored
    cases hp : s.post reversalId (mirror original) with
    | none => simp [applyEvent, hget, hp] at hs'
    | some posted =>
        have heq : { posted with reversed := posted.reversed.insert originalId () } = s' := by
          simpa [applyEvent, hget, hp] using hs'
        rw [← heq] at hstored
        have hentries := entries_of_post hp
        simp only [hentries, SortedMap.get?_insert] at hstored
        by_cases hid : id = reversalId
        · exact Or.inl (by simpa [hid] using hstored.symm)
        · exact Or.inr (by simpa [hid] using hstored)

theorem postsLines_status (s : LedgerState Decimal) (c : Currency) (runId : RunId)
    (fromStatus toStatus : CapitalizationStatus) (policyRef : PolicyId) :
    PostsLines s (.capitalizationStatusChanged runId fromStatus toStatus policyRef) c [] where
  inCurrency := fun line hline => by simp at hline
  isSome_iff := by simp [applyEvent, LinesFit, amountsOn, RunningFits]
  entries := by
    intro s' hs' id stored hget
    have heq : { s with capitalization := s.capitalization.insert runId toStatus } = s' := by
      simpa [applyEvent] using hs'
    rw [← heq] at hget
    exact Or.inr hget

theorem allInCurrency_of_handleCommand {s : LedgerState Decimal}
    {lines : List (JournalLine Decimal)} {dims : Dimensions} {newId : EntryId} {now : DateTimeUtc}
    {events : List (LedgerEvent Decimal)}
    (h : handleCommand s (.postJournalEntry lines dims) newId now = some (.ok events)) :
    (∃ c, AllInCurrency c lines) ∧ events = [.journalEntryPosted newId lines dims now] := by
  rcases permits_of_postJournalEntry h with ⟨hevents, hentry⟩
  rcases hentry.sided with ⟨c, hall⟩
  exact ⟨⟨c, fun line hline => exists_signedAmount (hall line hline).currency⟩, hevents⟩

/-- An accepted command answers with one event, which posts `postedLines`. -/
theorem accepted_spec {s : LedgerState Decimal} (hs : EntriesInCurrency s)
    {command : LedgerCommand Decimal} {newId : EntryId} {now : DateTimeUtc}
    {events : List (LedgerEvent Decimal)}
    (h : handleCommand s command newId now = some (.ok events)) :
    ∃ event c, events = [event] ∧ PostsLines s event c (postedLines s command) := by
  cases command with
  | postJournalEntry lines dims =>
      rcases allInCurrency_of_handleCommand h with ⟨⟨c, hall⟩, hevents⟩
      exact ⟨_, c, hevents, postsLines_posted hall newId dims now⟩
  | reverseEntry originalId reason =>
      cases hget : s.entries.get? originalId with
      | none => simp [handleCommand, SortedMap.contains, hget] at h
      | some original =>
          rcases hs originalId original hget with ⟨c, hall⟩
          have hposted : postedLines s (.reverseEntry originalId reason) = mirror original := by
            simp [postedLines, hget]
          refine ⟨.entryReversed originalId newId reason, c, ?_, ?_⟩
          · by_cases hrev : s.isReversed originalId
            · simp [handleCommand, SortedMap.contains, hget, hrev] at h
            · simpa [handleCommand, SortedMap.contains, hget, hrev] using h.symm
          · rw [hposted]
            exact postsLines_reversed hget hall newId reason
  | changeCapitalizationStatus runId toStatus policyRef =>
      let fromStatus := (s.capitalizationStatus runId).getD .pendingReview
      refine ⟨.capitalizationStatusChanged runId fromStatus toStatus policyRef, .usd, ?_,
        postsLines_status s .usd runId fromStatus toStatus policyRef⟩
      by_cases hsame : fromStatus = toStatus
      · simp [handleCommand, fromStatus, hsame] at h
      · simpa [handleCommand, fromStatus, hsame] using h.symm

/-! ## Runs -/

/-- The sums formed for one request stay in range: the subtotals of the command and, when it is
accepted, the balances of the accounts it posts to. -/
def StepFits (s : LedgerState Decimal) (request : Request Decimal) : Prop :=
  CommandFits request.command ∧
    ((∃ events, handleCommand s request.command request.newId request.now = some (.ok events)) →
      ∀ c, entryCurrency (postedLines s request.command) = some c →
        LinesFit s.balances c (postedLines s request.command))

/-- Every step of a run meets `StepFits` in the state it is taken in. -/
def RunFits : LedgerState Decimal → List (Request Decimal) → Prop
  | _, [] => True
  | s, request :: rest =>
      StepFits s request ∧ ∀ s' events, execute s request = some (s', events) → RunFits s' rest

theorem execute_isSome_iff {s : LedgerState Decimal} (hs : EntriesInCurrency s)
    (request : Request Decimal) : (execute s request).isSome ↔ StepFits s request := by
  have hiff := handleCommand_isSome_iff s request.command request.newId request.now
  unfold StepFits
  rw [← hiff]
  cases h : handleCommand s request.command request.newId request.now with
  | none => simp [execute, h]
  | some result =>
      cases result with
      | error e => simp [execute, h]
      | ok events =>
          rcases accepted_spec hs h with ⟨event, c, rfl, hposts⟩
          -- The one event is folded in at once, so that its panics are those of the request.
          have hfits := hposts.inCurrency.entryCurrency s.balances
          cases happly : applyEvent s event with
          | none =>
              have hno : ¬LinesFit s.balances c (postedLines s request.command) := by
                rw [← hposts.isSome_iff, happly]
                simp
              simp [execute, h, replay, happly, hfits, hno]
          | some s' =>
              have hyes : LinesFit s.balances c (postedLines s request.command) := by
                rw [← hposts.isSome_iff, happly]
                simp
              simp [execute, h, replay, happly, hfits, hyes]

theorem EntriesInCurrency.execute {s s' : LedgerState Decimal} (hs : EntriesInCurrency s)
    {request : Request Decimal} {events : List (LedgerEvent Decimal)}
    (hstep : execute s request = some (s', events)) : EntriesInCurrency s' := by
  cases h : handleCommand s request.command request.newId request.now with
  | none => simp [Falkr.execute, h] at hstep
  | some result =>
      cases result with
      | error e =>
          have heq : s = s' ∧ [] = events := by simpa [Falkr.execute, h] using hstep
          exact heq.1 ▸ hs
      | ok accepted =>
          rcases accepted_spec hs h with ⟨event, c, rfl, hposts⟩
          cases happly : applyEvent s event with
          | none => simp [Falkr.execute, h, replay, happly] at hstep
          | some next =>
              have heq : next = s' ∧ [event] = events := by
                simpa [Falkr.execute, h, replay, happly] using hstep
              rcases heq with ⟨rfl, rfl⟩
              -- An entry of the next state is the one just posted, or an older one.
              intro id lines hget
              rcases hposts.entries next happly id lines hget with rfl | hold
              · exact ⟨c, hposts.inCurrency⟩
              · exact hs id lines hold

theorem run_isSome_iff :
    ∀ (requests : List (Request Decimal)) (s : LedgerState Decimal), EntriesInCurrency s →
      ((run s requests).isSome ↔ RunFits s requests)
  | [], s, _ => by simp [run, RunFits]
  | request :: rest, s, hs => by
      unfold RunFits
      rw [← execute_isSome_iff hs request]
      cases hstep : execute s request with
      | none => simp [run, hstep]
      | some result =>
          rcases result with ⟨next, events⟩
          have ih := run_isSome_iff rest next (hs.execute hstep)
          have hrest : (∀ s' ev, some (next, events) = some (s', ev) → RunFits s' rest) ↔
              RunFits next rest := by simp
          rw [hrest, ← ih]
          cases htail : run next rest <;> simp [run, hstep, htail]

/-- A run from the empty ledger returns, and its log replays, exactly when every running sum it
forms fits the decimal. -/
theorem run_returns_iff (requests : List (Request Decimal)) :
    (∃ s log, run LedgerState.default requests = some (s, log) ∧
        replay LedgerState.default log = some s) ↔
      RunFits LedgerState.default requests := by
  have hempty : EntriesInCurrency LedgerState.default := by
    intro id lines h
    simp [LedgerState.default] at h
  rw [← run_isSome_iff requests LedgerState.default hempty, Option.isSome_iff_exists]
  constructor
  · rintro ⟨s, log, hrun, -⟩
    exact ⟨(s, log), hrun⟩
  · rintro ⟨⟨s, log⟩, hrun⟩
    exact ⟨s, log, hrun, replay_of_run requests log _ s hrun⟩

/-- `Decimal::MAX` moved between two accounts. -/
def maxTransferLines : List (JournalLine Decimal) :=
  [⟨⟨10⟩, some { amount := Decimal.max, currency := .usd }, none, []⟩,
    ⟨⟨11⟩, none, some { amount := Decimal.max, currency := .usd }, []⟩]

def maxTransferDims : Dimensions :=
  Dimensions.new ⟨1⟩ ⟨2⟩ ⟨3⟩ ⟨4⟩ .opEx

def maxTransferRequest (newId : EntryId) : Request Decimal where
  command := .postJournalEntry maxTransferLines maxTransferDims
  newId := newId
  now := ⟨0⟩

def maxTransferEvent (id : EntryId) : LedgerEvent Decimal :=
  .journalEntryPosted id maxTransferLines maxTransferDims ⟨0⟩

/-- The transfer is accepted in the empty ledger and again in the state it leaves, but the log of
the two accepted events cannot be replayed and the run of the two requests panics. -/
theorem replay_maxTransfer_twice :
    handleCommand LedgerState.default (.postJournalEntry maxTransferLines maxTransferDims) ⟨1⟩ ⟨0⟩ =
        some (.ok [maxTransferEvent ⟨1⟩]) ∧
      ((replay LedgerState.default [maxTransferEvent ⟨1⟩]).bind fun s =>
        handleCommand s (.postJournalEntry maxTransferLines maxTransferDims) ⟨2⟩ ⟨0⟩) =
        some (.ok [maxTransferEvent ⟨2⟩]) ∧
      replay LedgerState.default [maxTransferEvent ⟨1⟩, maxTransferEvent ⟨2⟩] = none ∧
      (run LedgerState.default [maxTransferRequest ⟨1⟩, maxTransferRequest ⟨2⟩]).isNone := by
  decide +kernel

end Falkr
