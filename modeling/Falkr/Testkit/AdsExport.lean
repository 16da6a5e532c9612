import Falkr.Testkit.Runner

/-!
# AdsExport — the audit extract of an executed scenario

Five files: detail rows, trial balance, chart, sources and business units.  A detail row carries the
unsigned amount and an indicator of the side; the side is the sign of the amount.  `reconcile`
foots the detail file and compares what it adds up to by account number, with the trial balance
file and with the expected balances.
-/

namespace Falkr

open Lib

/-! ## The files -/

/-- One line of the detail file. -/
structure GlDetailRow where
  journalId : String
  lineNumber : Nat
  headerDescription : String
  lineDescription : String
  source : String
  businessUnit : String
  effectiveDate : String
  fiscalYear : String
  period : String
  accountNumber : String
  /-- The unsigned magnitude. -/
  amount : String
  indicator : String
  currency : String
  enteredBy : String
  enteredDate : String
  approvedBy : String
  approvedDate : String
  reversalIndicator : String
  reversalJournalId : String
  sourceUsageEventIds : String
  deriving DecidableEq

structure TrialBalanceRow where
  businessUnit : String
  accountNumber : String
  fiscalYear : String
  period : String
  beginningBalance : String
  endingBalance : String
  currency : String
  deriving DecidableEq

structure ChartRow where
  accountNumber : String
  accountName : String
  accountType : String
  fsCaption : String
  normalBalance : String
  isContra : Bool
  subledger : String
  deriving DecidableEq

structure SourceRow where
  source : String
  description : String
  automated : Bool
  deriving DecidableEq

structure BusinessUnitRow where
  code : String
  name : String
  parent : String
  functionalCurrency : String
  deriving DecidableEq

/-- The control totals that an auditor foots the extract against. -/
structure ControlTotal (α : Type) where
  debits : α
  credits : α
  lineCount : Nat
  entryCount : Nat
  deriving DecidableEq

/-- A complete five-file extract. -/
structure AdsExtract where
  glDetail : List GlDetailRow
  trialBalance : List TrialBalanceRow
  chartOfAccounts : List ChartRow
  sourceListing : List SourceRow
  businessUnitListing : List BusinessUnitRow
  deriving DecidableEq

/-- The year and the rest of a period. -/
def splitPeriod (period : String) : String × String :=
  (splitOnce '-' period).getD (period, "")

/-- `abs`: the amount with its sign cleared. -/
def magnitude {m : Type → Type} {α : Type} [Amount m α] (lib : Externals α) (amount : α) : α :=
  if lib.isSignNegative amount then Amount.neg amount else amount

namespace AdsExtract

section Model

variable {m : Type → Type} {α : Type} [Amount m α] [CheckedAmount α] (lib : Externals α)

open CheckedAmount (checkedAdd display)

/-! ## From a run -/

/-- The label of an account, or its identifier when it has none. -/
def labelOf (labels : SortedMap AccountId String) (id : AccountId) : String :=
  (labels.get? id).getD id.asUuid.hyphenated

/-- The row of one line of an entry, for a line that carries one side. -/
def glDetailRow (run : LedgerRun α) (entry : EntryRecord α) (line : JournalLine α) (index : Nat) :
    Option GlDetailRow :=
  line.signedAmount.map fun signed => {
    journalId := entry.journalId
    lineNumber := Nat.min (index + 1) (2 ^ 32 - 1)
    headerDescription := entry.description
    lineDescription := entry.description
    source := entry.source
    businessUnit := entry.entity
    effectiveDate := String.ofList (DateTimeUtc.dateChars entry.effectiveDate [])
    fiscalYear := (splitPeriod run.period).1
    period := (splitPeriod run.period).2
    accountNumber := accountNumber (labelOf run.labels line.account)
    amount := display (magnitude lib signed.amount)
    indicator := if lib.isSignNegative signed.amount then "C" else "D"
    currency := signed.currency.code
    enteredBy := ""
    enteredDate := ""
    approvedBy := ""
    approvedDate := ""
    reversalIndicator := if entry.reversalOf.isSome then "Y" else "N"
    -- The identifier that the ledger gave the reversed entry.
    reversalJournalId := (entry.reversalOf.map fun id => id.asUuid.hyphenated).getD ""
    sourceUsageEventIds :=
      String.intercalate "|" (line.sourceUsageEventIds.map fun id => id.asUuid.hyphenated) }

/-- The rows of one entry. -/
def entryRows (run : LedgerRun α) (entry : EntryRecord α) : List GlDetailRow :=
  entry.lines.zipIdx.filterMap fun (line, index) => glDetailRow lib run entry line index

omit [Amount m α] in
/-- The row of one account of the trial balance. -/
def trialBalanceRow (run : LedgerRun α) (label : String) (amount : α) : TrialBalanceRow where
  businessUnit := run.entity
  accountNumber := accountNumber label
  fiscalYear := (splitPeriod run.period).1
  period := (splitPeriod run.period).2
  beginningBalance := "0"
  endingBalance := display amount
  -- The amounts come without their currencies.
  currency := run.currency.code

def chartRow (account : Account) : ChartRow where
  accountNumber := account.code
  accountName := account.name
  accountType := account.kind.asStr
  fsCaption := account.fsCaption
  normalBalance := account.normalBalance.asStr
  isContra := account.contra
  subledger := account.subledger.getD ""

/-- Builds the extract from an executed scenario. -/
def fromRun (run : LedgerRun α) (chart : ChartOfAccounts) : AdsExtract where
  glDetail := run.entries.flatMap (entryRows lib run)
  trialBalance := run.trialBalance.entries.map fun (label, amount) =>
    trialBalanceRow run label amount
  chartOfAccounts := chart.accounts.map chartRow
  sourceListing := chart.sources.map fun source =>
    { source := source.code, description := source.description, automated := source.automated }
  businessUnitListing := chart.entities.map fun entity =>
    { code := entity.code
      name := entity.name
      parent := entity.parent.getD ""
      functionalCurrency := entity.functionalCcy }

/-! ## Footing and reconciling -/

def notDecimal (inv : Invariant) (row : GlDetailRow) (e : String) : InvariantViolation where
  invariant := inv
  detail := "GL detail amount " ++ lib.debug row.amount ++ " is not a decimal: " ++ e

/-- The loop in `control_total`: the two totals and the journals seen. -/
def foot : List GlDetailRow → α → α → SortedMap String Unit →
    Except InvariantViolation (α × α × SortedMap String Unit)
  | [], debits, credits, journals => .ok (debits, credits, journals)
  | row :: rest, debits, credits, journals =>
      match lib.fromStrExact row.amount with
      | .error e => .error (notDecimal lib .balanced row e)
      | .ok amount =>
          let slot := if row.indicator == "D" then debits else credits
          match checkedAdd slot amount with
          | none => .error {
              invariant := .balanced
              detail := "GL detail control total overflowed Decimal" }
          | some sum =>
              let journals := journals.insert row.journalId ()
              -- Whatever is not a debit is footed as a credit.
              if row.indicator == "D" then foot rest sum credits journals
              else foot rest debits sum journals

/-- Footed debit and credit totals over the detail file. -/
def controlTotal (self : AdsExtract) : Except InvariantViolation (ControlTotal α) := do
  let (debits, credits, journals) ← foot lib self.glDetail Amount.zero Amount.zero .empty
  pure {
    debits := debits
    credits := credits
    lineCount := self.glDetail.length
    entryCount := journals.size }

/-- The loop in `reconcile` that adds the detail rows up by account number. -/
def derive : List GlDetailRow → SortedMap String α → Except InvariantViolation (SortedMap String α)
  | [], derived => .ok derived
  | row :: rest, derived =>
      match lib.fromStrExact row.amount with
      | .error e => .error (notDecimal lib .trialBalanceZero row e)
      | .ok amount =>
          let signed := if row.indicator == "D" then amount else Amount.neg amount
          let slot := (derived.get? row.accountNumber).getD Amount.zero
          match checkedAdd slot signed with
          | none => .error {
              invariant := .trialBalanceZero
              detail := "re-derived balance overflowed Decimal" }
          | some sum => derive rest (derived.insert row.accountNumber sum)

/-- The ending balances that parse, under their account numbers. -/
def endings (rows : List TrialBalanceRow) : List (String × α) :=
  rows.filterMap fun row =>
    (lib.fromStrExact row.endingBalance).toOption.map fun amount => (row.accountNumber, amount)

/-- The expected balances under the account numbers of their labels. -/
def byNumber (expected : SortedMap String α) : List (String × α) :=
  expected.entries.map fun (label, amount) => (accountNumber label, amount)

def compareAt (what : String) (left right : SortedMap String α) :
    List String → Except InvariantViolation Unit
  | [] => .ok ()
  | account :: rest =>
      let l := (left.get? account).getD Amount.zero
      let r := (right.get? account).getD Amount.zero
      -- An account that one side does not know is zero there.
      if Amount.eq l r then compareAt what left right rest
      else .error {
        invariant := .trialBalanceZero
        detail := what ++ ": account " ++ account ++ " is " ++ display l ++
          " on one side and " ++ display r ++ " on the other" }

/-- Two maps agree on every account that either of them names. -/
def compare (what : String) (left right : SortedMap String α) : Except InvariantViolation Unit :=
  let accounts : SortedMap String Unit :=
    .ofList ((left.keys ++ right.keys).map fun account => (account, ()))
  compareAt what left right accounts.keys

/-- Reconciles the extract against a trial balance. -/
def reconcile (self : AdsExtract) (expected : SortedMap String α) :
    Except InvariantViolation Unit := do
  let totals ← self.controlTotal lib
  -- All currencies are footed in one sum.
  if ¬Amount.eq totals.debits totals.credits then throw {
    invariant := .balanced
    detail := "ADS GL detail does not foot: debits " ++ display totals.debits ++
      " vs credits " ++ display totals.credits }
  let derived ← derive lib self.glDetail .empty
  -- Rows that do not parse are left out here, and a number that repeats keeps its last row.
  compare "GL detail vs trial balance file" derived (.ofList (endings lib self.trialBalance))
  compare "ADS extract vs expected" derived (.ofList (byNumber expected))

end Model

/-- The rows of the trial balance file with an account number. -/
def balancesAt (rows : List TrialBalanceRow) (number : String) : List TrialBalanceRow :=
  rows.filter fun row => row.accountNumber = number

end AdsExtract

end Falkr
