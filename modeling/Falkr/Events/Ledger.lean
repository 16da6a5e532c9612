import Falkr.Core.Dimensions
import Falkr.Core.Money
import Falkr.Lib.SortedMap

/-!
# Ledger — command, event, apply

Commands may be rejected; events may not.  All validation is in `handleCommand`, and the balances
are a projection that `applyEvent` rebuilds from the log.

What a command reads from outside the state, the fresh entry identifier and the clock, are
arguments.  Everything runs in the monad of the number type's addition, so the same definitions
are the ledger over exact rationals and the ledger that panics on overflow.
-/

namespace Falkr

open Lib

/-! ## Lines -/

/-- One side of a journal entry.  The types allow both sides or neither; `validate` does not. -/
structure JournalLine (α : Type) where
  account : AccountId
  debit : Option (Money α)
  credit : Option (Money α)
  sourceUsageEventIds : List UsageEventId
  deriving DecidableEq

/-- Past-tense facts. -/
inductive LedgerEvent (α : Type)
  | journalEntryPosted (id : EntryId) (lines : List (JournalLine α)) (dims : Dimensions)
      (postedAt : DateTimeUtc)
  | entryReversed (originalId reversalId : EntryId) (reason : String)
  | capitalizationStatusChanged (runId : RunId) (fromStatus toStatus : CapitalizationStatus)
      (policyRef : PolicyId)
  deriving DecidableEq

/-- Intent. -/
inductive LedgerCommand (α : Type)
  | postJournalEntry (lines : List (JournalLine α)) (dims : Dimensions)
  | reverseEntry (originalId : EntryId) (reason : String)
  | changeCapitalizationStatus (runId : RunId) (toStatus : CapitalizationStatus)
      (policyRef : PolicyId)
  deriving DecidableEq

inductive LedgerError (α : Type)
  | unbalanced (debits credits : α)
  | emptyEntry
  | lineHasBothSides (account : AccountId)
  | lineHasNoAmount (account : AccountId)
  | alreadyReversed (entry : EntryId)
  | unknownEntry (entry : EntryId)
  | capitalizationUnchanged (runId : RunId) (status : CapitalizationStatus)
  | currency (mismatch : CurrencyMismatch)
  deriving DecidableEq

/-- The projection of the log. -/
structure LedgerState (α : Type) where
  /-- Account balances, debit-positive. -/
  balances : SortedMap AccountId (Money α)
  /-- Entries posted, kept so that a reversal can be checked and mirrored. -/
  entries : SortedMap EntryId (List (JournalLine α))
  reversed : SortedMap EntryId Unit
  capitalization : SortedMap RunId CapitalizationStatus
  deriving DecidableEq

section Model

variable {m : Type → Type} {α : Type} [Amount m α]

namespace JournalLine

/-- The line's contribution under the debit-positive convention. -/
def signedAmount (self : JournalLine α) : Option (Money α) :=
  match self.debit, self.credit with
  | some d, none => some d
  | none, some c => some c.negate
  | _, _ => none

def validate (self : JournalLine α) : Except (LedgerError α) (Money α) :=
  match self.debit, self.credit with
  | some d, none => .ok d
  | none, some c => .ok c
  | some _, some _ => .error (.lineHasBothSides self.account)
  | none, none => .error (.lineHasNoAmount self.account)

/-- The line with debit and credit swapped; its sources are not carried across. -/
def mirror (self : JournalLine α) : JournalLine α where
  account := self.account
  debit := self.credit
  credit := self.debit
  sourceUsageEventIds := []

end JournalLine

/-- The lines of the reversal of an entry. -/
def mirror (lines : List (JournalLine α)) : List (JournalLine α) :=
  lines.map JournalLine.mirror

/-! ## The state -/

namespace LedgerState

/-- `LedgerState::default()`. -/
def default : LedgerState α where
  balances := .empty
  entries := .empty
  reversed := .empty
  capitalization := .empty

/-- The balance of one account, absent if it has never been posted to. -/
def balance (self : LedgerState α) (account : AccountId) : Option (Money α) :=
  self.balances.get? account

def isReversed (self : LedgerState α) (entry : EntryId) : Bool :=
  self.reversed.contains entry

def capitalizationStatus (self : LedgerState α) (run : RunId) : Option CapitalizationStatus :=
  self.capitalization.get? run

def entryCount (self : LedgerState α) : Nat :=
  self.entries.size

variable [Monad m]

/-- `acc.checked_add(b).unwrap_or(acc)`. -/
def addOrKeep (acc b : Money α) : m (Money α) := do
  match ← Money.checkedAdd acc b with
  | .ok sum => pure sum
  | .error _ => pure acc

/-- The sum of every account balance in one currency. -/
def trialBalance (self : LedgerState α) (currency : Currency) : m (Money α) :=
  (self.balances.values.filter fun b => b.currency == currency).foldlM addOrKeep
    (Money.zero currency)

/-- One pass of the loop in `post`: an account not seen before starts at zero in the line's
currency, and a line in another currency than the account's is skipped. -/
def postLine (balances : SortedMap AccountId (Money α)) (line : JournalLine α) :
    m (SortedMap AccountId (Money α)) :=
  match line.signedAmount with
  | none => pure balances
  | some delta => do
      let entry := (balances.get? line.account).getD (Money.zero delta.currency)
      match ← Money.checkedAdd entry delta with
      | .ok updated => pure (balances.insert line.account updated)
      -- `entry().or_insert` has run by now, so the account is there even when the sum is refused.
      | .error _ => pure (balances.insert line.account entry)

def post (self : LedgerState α) (id : EntryId) (lines : List (JournalLine α)) :
    m (LedgerState α) := do
  let balances ← lines.foldlM postLine self.balances
  pure { self with balances := balances, entries := self.entries.insert id lines }

end LedgerState

/-! ## The aggregate -/

variable [Monad m]

/-- The loop in `handleCommand` that checks the lines and adds up the two sides. -/
def subtotals : List (JournalLine α) → Money α → Money α →
    m (Except (LedgerError α) (Money α × Money α))
  | [], debits, credits => pure (.ok (debits, credits))
  | line :: rest, debits, credits =>
      match line.validate with
      | .error e => pure (.error e)
      | .ok amount =>
          -- `validate` has seen to it that a line without a debit has a credit.
          if line.debit.isSome then do
            match ← Money.checkedAdd debits amount with
            | .error e => pure (.error (.currency e))
            | .ok debits => subtotals rest debits credits
          else do
            match ← Money.checkedAdd credits amount with
            | .error e => pure (.error (.currency e))
            | .ok credits => subtotals rest debits credits

/-- `LedgerAggregate::handle_command`; `newId` and `now` are what `EntryId::new()` and
`Utc::now()` return. -/
def handleCommand (state : LedgerState α) (command : LedgerCommand α) (newId : EntryId)
    (now : DateTimeUtc) : m (Except (LedgerError α) (List (LedgerEvent α))) :=
  match command with
  | .postJournalEntry lines dims =>
      match lines with
      | [] => pure (.error .emptyEntry)
      | first :: _ =>
          match first.validate with
          | .error e => pure (.error e)
          | .ok amount => do
              -- The first line fixes the currency of both subtotals.
              let zero := Money.zero amount.currency
              match ← subtotals lines zero zero with
              | .error e => pure (.error e)
              | .ok (debits, credits) =>
                  if debits.beq credits then
                    pure (.ok [.journalEntryPosted newId lines dims now])
                  else pure (.error (.unbalanced debits.amount credits.amount))
  | .reverseEntry originalId reason =>
      if !state.entries.contains originalId then pure (.error (.unknownEntry originalId))
      else if state.isReversed originalId then pure (.error (.alreadyReversed originalId))
      else pure (.ok [.entryReversed originalId newId reason])
  | .changeCapitalizationStatus runId toStatus policyRef =>
      let fromStatus := (state.capitalizationStatus runId).getD .pendingReview
      if fromStatus = toStatus then pure (.error (.capitalizationUnchanged runId toStatus))
      else pure (.ok [.capitalizationStatusChanged runId fromStatus toStatus policyRef])

/-- `LedgerAggregate::apply_event`. -/
def applyEvent (state : LedgerState α) (payload : LedgerEvent α) : m (LedgerState α) :=
  match payload with
  | .journalEntryPosted id lines _ _ => state.post id lines
  | .entryReversed originalId reversalId _ => do
      let state ←
        match state.entries.get? originalId with
        | some original => state.post reversalId (mirror original)
        -- The reversal of an entry that is not there still marks it as reversed.
        | none => pure state
      pure { state with reversed := state.reversed.insert originalId () }
  | .capitalizationStatusChanged runId _ toStatus _ =>
      pure { state with capitalization := state.capitalization.insert runId toStatus }

/-- Folds a stream of events into a state. -/
def replay (state : LedgerState α) (events : List (LedgerEvent α)) : m (LedgerState α) :=
  events.foldlM applyEvent state

/-! ## Runs -/

/-- A command with what it will draw from outside. -/
structure Request (α : Type) where
  command : LedgerCommand α
  newId : EntryId
  now : DateTimeUtc

/-- A rejected command changes nothing; the events of an accepted one are folded in. -/
def execute (state : LedgerState α) (request : Request α) :
    m (LedgerState α × List (LedgerEvent α)) := do
  match ← handleCommand state request.command request.newId request.now with
  | .error _ => pure (state, [])
  | .ok events => do
      let state ← replay state events
      pure (state, events)

/-- A run of requests: the state it ends in and the log it wrote. -/
def run : LedgerState α → List (Request α) → m (LedgerState α × List (LedgerEvent α))
  | state, [] => pure (state, [])
  | state, request :: rest => do
      let (state, events) ← execute state request
      let (state, log) ← run state rest
      pure (state, events ++ log)

/-! ## The trial balance -/

/-- The balances kept in one currency, in account order. -/
def LedgerState.balancesIn (self : LedgerState α) (currency : Currency) : List α :=
  (self.balances.values.filter fun b => b.currency == currency).map Money.amount

/-- Within one currency no sum is refused. -/
theorem foldlM_addOrKeep [LawfulMonad m] {c : Currency} :
    ∀ (balances : List (Money α)) (acc : Money α), (∀ b ∈ balances, b.currency = c) →
      acc.currency = c →
      balances.foldlM LedgerState.addOrKeep acc = (do
        let amount ← (balances.map Money.amount).foldlM Amount.add acc.amount
        pure { amount := amount, currency := c })
  | [], acc, _, hacc => by
      subst hacc
      simp
  | b :: rest, acc, hall, hacc => by
      have hcur : acc.currency = b.currency := hacc.trans (hall b List.mem_cons_self).symm
      have hrest : ∀ other ∈ rest, other.currency = c := fun other hmem =>
        hall other (List.mem_cons_of_mem _ hmem)
      have ih : ∀ amount : α, rest.foldlM LedgerState.addOrKeep
          { amount := amount, currency := acc.currency } = (do
            let total ← (rest.map Money.amount).foldlM Amount.add amount
            pure { amount := total, currency := c }) :=
        fun amount => foldlM_addOrKeep rest _ hrest hacc
      simp only [List.foldlM_cons, List.map_cons, LedgerState.addOrKeep,
        Money.checkedAdd_of_eq hcur, bind_assoc, pure_bind, ih]

theorem trialBalance_eq_foldlM [LawfulMonad m] (s : LedgerState α) (c : Currency) :
    s.trialBalance c = (do
      let amount ← (s.balancesIn c).foldlM Amount.add Amount.zero
      pure { amount := amount, currency := c }) := by
  refine foldlM_addOrKeep _ (Money.zero c) ?_ rfl
  intro b hmem
  simpa using (List.mem_filter.1 hmem).2

end Model

end Falkr
