import Falkr.Testkit.Scenario

/-!
# Runner — scenarios against the ledger

The runner turns each operation into a command, hands it to the aggregate and folds what is
accepted into the state.  Beside the log it keeps a record of every entry, with the header
attributes that the ledger does not carry, and mirrors the lines of a reversal by itself.

What an operation draws from outside, the fresh entry identifier and the clock, is given by its
index.
-/

namespace Falkr

open Lib

/-- A deterministic identifier derived from a stable string. -/
def stableUuid {α : Type} (lib : Externals α) (ns name : String) : Uuid :=
  lib.digest (ns ++ "\x1f" ++ name)

/-- The identifier the corpus uses for an account code. -/
def accountId {α : Type} (lib : Externals α) (code : String) : AccountId :=
  ⟨stableUuid lib "falkr.corpus.account" code⟩

/-- One posted entry, with the header attributes the ledger does not carry yet. -/
structure EntryRecord (α : Type) where
  entryId : EntryId
  /-- The name that an operation gave this entry, for `reverse_entry` to point at. -/
  entryRef : Option String
  journalId : String
  effectiveDate : CivilDate
  description : String
  source : String
  entity : String
  lines : List (JournalLine α)
  /-- The entry that a reversing entry reverses. -/
  reversalOf : Option EntryId
  deriving DecidableEq

/-- The result of executing a scenario. -/
structure LedgerRun (α : Type) where
  scenarioId : String
  entity : String
  book : String
  period : String
  currency : Currency
  events : List (LedgerEvent α)
  state : LedgerState α
  entries : List (EntryRecord α)
  /-- Account identifier back to the label. -/
  labels : SortedMap AccountId String
  rejections : List (String × LedgerError α)
  deriving DecidableEq

/-- The final balances, keyed by label. -/
def LedgerRun.trialBalance {α : Type} (self : LedgerRun α) : SortedMap String α :=
  .ofList (self.state.balances.entries.map fun (id, money) =>
    ((self.labels.get? id).getD id.asUuid.hyphenated, money.amount))

inductive RunOutcome (α : Type)
  | executed (run : LedgerRun α)
  | deferred (phase : Phase) (kinds : List String)
  | blocked (reason : String)
  deriving DecidableEq

inductive RunError (α : Type)
  | param (scenario : String) (source : ParamError)
  | unknownAccount (scenario reference : String)
  | badOperation (scenario detail : String)
  | rejected (scenario : String) (source : LedgerError α)
  | expectedRejection (scenario : String) (index : Nat)
  deriving DecidableEq

/-- What `EntryId::new()` and `Utc::now()` return while each operation is run. -/
structure Draws where
  newId : Nat → EntryId
  now : Nat → DateTimeUtc

/-- Executes corpus scenarios against the ledger aggregate. -/
structure Runner where
  chart : ChartOfAccounts

namespace Runner

section Model

variable {m : Type → Type} {α : Type} [Amount m α] (lib : Externals α)

/-! ## Commands -/

def dimensions (scenario : Scenario) : Dimensions :=
  let id := scenario.metadata.id
  .new ⟨stableUuid lib "falkr.corpus.tenant" scenario.setup.entity⟩
    ⟨stableUuid lib "falkr.corpus.project" id⟩ ⟨stableUuid lib "falkr.corpus.team" id⟩
    ⟨stableUuid lib "falkr.corpus.provider" id⟩ .opEx

def lineCurrency (scenario : Scenario) (line : ScenarioLine) (default : Currency) :
    Except (RunError α) Currency :=
  match line.currency with
  | some code =>
      match Currency.fromCode code with
      | some currency => .ok currency
      -- An override of the functional currency is read here and nowhere else.
      | none => .error (.badOperation scenario.metadata.id
          ("line names unknown currency " ++ lib.debug code))
  | none => .ok default

def lineAmount (scenario : Scenario) (currency : Currency) (raw : String) :
    Except (RunError α) (Money α) :=
  match lib.fromStrExact raw with
  | .ok value => .ok { amount := value, currency := currency }
  | .error e => .error (.badOperation scenario.metadata.id
      (lib.debug raw ++ " is not an exact decimal: " ++ e))

/-- A line with both sides or neither is built as written. -/
def journalLine (scenario : Scenario) (id : AccountId) (line : ScenarioLine) (default : Currency) :
    Except (RunError α) (JournalLine α) := do
  let currency ← lineCurrency lib scenario line default
  let debit ← line.debit.mapM (lineAmount lib scenario currency)
  let credit ← line.credit.mapM (lineAmount lib scenario currency)
  pure {
    account := id
    debit := debit
    credit := credit
    sourceUsageEventIds := line.sources.map fun s => ⟨stableUuid lib "falkr.corpus.usage" s⟩ }

/-- The loop in `journal_lines`, which remembers the label of every account it resolves. -/
def buildLines (chart : ChartOfAccounts) (scenario : Scenario) (default : Currency) :
    List ScenarioLine → SortedMap AccountId String →
      Except (RunError α) (List (JournalLine α) × SortedMap AccountId String)
  | [], labels => .ok ([], labels)
  | line :: rest, labels =>
      -- An account is looked up before the texts of its line are read.
      match chart.resolve line.account with
      | none => .error (.unknownAccount scenario.metadata.id line.account)
      | some account => do
          let id := accountId lib account.code
          let built ← journalLine lib scenario id line default
          let (lines, labels) ← buildLines chart scenario default rest
            -- Two accounts with one identifier would share the label that comes last.
            (labels.insert id account.label)
          pure (built :: lines, labels)

def journalLines (chart : ChartOfAccounts) (scenario : Scenario) (op : Operation)
    (default : Currency) (labels : SortedMap AccountId String) :
    Except (RunError α) (List (JournalLine α) × SortedMap AccountId String) :=
  match op.lines lib with
  | .error source => .error (.param scenario.metadata.id source)
  | .ok raw => buildLines lib chart scenario default raw labels

/-- A required string parameter of the operation that is run. -/
def param (scenario : Scenario) (op : Operation) (name : String) : Except (RunError α) String :=
  match op.strParam name with
  | .ok value => .ok value
  | .error source => .error (.param scenario.metadata.id source)

/-- The first entry that was given a name. -/
def findRef (entries : List (EntryRecord α)) (target : String) : Option (EntryRecord α) :=
  entries.find? fun e => e.entryRef == some target

def reverseEntry (scenario : Scenario) (op : Operation) (entries : List (EntryRecord α)) :
    Except (RunError α) (LedgerCommand α) :=
  match (param scenario op "ref" : Except (RunError α) String) with
  | .error e => .error e
  | .ok target =>
      -- A reference is resolved against what has been recorded, not against the file.
      match findRef entries target with
      | some original =>
          .ok (.reverseEntry original.entryId ((op.optStrParam "reason").getD "corpus"))
      | none => .error (.badOperation scenario.metadata.id
          ("reverse_entry points at unknown ref " ++ lib.debug target))

def setCapitalization (scenario : Scenario) (op : Operation) :
    Except (RunError α) (LedgerCommand α) := do
  let run ← param scenario op "run"
  let stored ← param scenario op "to"
  match CapitalizationStatus.fromStored stored with
  | some status =>
      pure (.changeCapitalizationStatus ⟨stableUuid lib "falkr.corpus.run" run⟩ status
        ⟨stableUuid lib "falkr.corpus.policy" ((op.optStrParam "policy").getD "default")⟩)
  | none => .error (.badOperation scenario.metadata.id
      ("unknown capitalization status " ++ lib.debug stored))

/-- The command of an operation, and the labels after its accounts have been resolved. -/
def buildCommand (chart : ChartOfAccounts) (scenario : Scenario) (currency : Currency)
    (op : Operation) (entries : List (EntryRecord α)) (labels : SortedMap AccountId String) :
    Except (RunError α) (LedgerCommand α × SortedMap AccountId String) :=
  match op.kind with
  | "post_entry" => do
      let (lines, labels) ← journalLines lib chart scenario op currency labels
      pure (.postJournalEntry lines (dimensions lib scenario), labels)
  | "reverse_entry" => do
      let command ← reverseEntry lib scenario op entries
      pure (command, labels)
  -- Neither of the other two kinds resolves an account.
  | "set_capitalization" => do
      let command ← setCapitalization lib scenario op
      pure (command, labels)
  | other => .error (.badOperation scenario.metadata.id
      (lib.debug other ++ " is catalogued as delivered but the runner has no handler for it; " ++
        "catalog::OPERATIONS and Runner::execute have drifted apart"))

/-! ## Records -/

/-- The runner's own statement of what a reversal looks like. -/
def mirror (lines : List (JournalLine α)) : List (JournalLine α) :=
  lines.map fun l =>
    { account := l.account, debit := l.credit, credit := l.debit, sourceUsageEventIds := [] }

def journalId (scenario : Scenario) (index : Nat) : String :=
  scenario.metadata.id ++ "-" ++ String.ofList (padded 10 3 index)

def effectiveDate (op : Operation) : CivilDate :=
  ((op.optStrParam "date").bind lib.parseDate).getD { year := 2026, month := 1, day := 1 }

/-- The entity that a posting is booked in: the one its operation names, or that of the setup. -/
def postingEntity (scenario : Scenario) (op : Operation) : String :=
  (op.optStrParam "entity").getD scenario.setup.entity

/-- The lines that were recorded for an entry. -/
def recordedLines (entries : List (EntryRecord α)) (id : EntryId) : Option (List (JournalLine α)) :=
  (entries.find? fun e => e.entryId == id).map EntryRecord.lines

def postedRecord (op : Operation) (scenario : Scenario) (index : Nat) (id : EntryId)
    (lines : List (JournalLine α)) : EntryRecord α where
  entryId := id
  entryRef := op.optStrParam "ref"
  journalId := journalId scenario index
  effectiveDate := effectiveDate lib op
  description := (op.optStrParam "description").getD ""
  source := (op.optStrParam "source").getD "MANUAL"
  entity := postingEntity scenario op
  lines := lines
  reversalOf := none

/-- A reversal is booked in the entity of the setup. -/
def reversalRecord (op : Operation) (scenario : Scenario) (index : Nat)
    (originalId reversalId : EntryId) (reason : String) (lines : List (JournalLine α)) :
    EntryRecord α where
  entryId := reversalId
  entryRef := op.optStrParam "ref"
  journalId := journalId scenario index
  effectiveDate := effectiveDate lib op
  description := "Reversal: " ++ reason
  source := (op.optStrParam "source").getD "MANUAL"
  entity := scenario.setup.entity
  lines := lines
  reversalOf := some originalId

def recordEntry (entries : List (EntryRecord α)) (event : LedgerEvent α) (op : Operation)
    (scenario : Scenario) (index : Nat) : List (EntryRecord α) :=
  match event with
  | .journalEntryPosted id lines _ _ => entries ++ [postedRecord lib op scenario index id lines]
  | .entryReversed originalId reversalId reason =>
      -- An entry that is not on record would be mirrored to no lines.
      let mirrored := ((recordedLines entries originalId).map mirror).getD []
      entries ++ [reversalRecord lib op scenario index originalId reversalId reason mirrored]
  -- A status change posts nothing and leaves no record.
  | .capitalizationStatusChanged _ _ _ _ => entries

/-! ## Execution -/

/-- The variables of the loop over the operations. -/
structure Progress (α : Type) where
  state : LedgerState α
  events : List (LedgerEvent α)
  entries : List (EntryRecord α)
  labels : SortedMap AccountId String
  rejections : List (String × LedgerError α)

def start : Progress α where
  state := .default
  events := []
  entries := []
  labels := .empty
  rejections := []

variable [Monad m]

/-- The loop over the events that a command produced. -/
def absorb (scenario : Scenario) (op : Operation) (index : Nat) :
    List (LedgerEvent α) → Progress α → m (Progress α)
  | [], p => pure p
  | event :: rest, p => do
      -- Recorded before it is applied; the record does not look at the state.
      let entries := recordEntry lib p.entries event op scenario index
      let state ← applyEvent p.state event
      absorb scenario op index rest
        { p with state := state, events := p.events ++ [event], entries := entries }

/-- One pass of the loop over the operations. -/
def runOperation (chart : ChartOfAccounts) (scenario : Scenario) (currency : Currency)
    (draws : Draws) (index : Nat) (op : Operation) (p : Progress α) :
    m (Except (RunError α) (Progress α)) :=
  match buildCommand lib chart scenario currency op p.entries p.labels with
  | .error e => pure (.error e)
  | .ok (command, labels) => do
      -- The identifier is drawn whether or not the command is accepted.
      match ← handleCommand p.state command (draws.newId index) (draws.now index) with
      | .ok produced =>
          -- What the operation declares is compared with what the ledger has decided.
          if op.expectRejection then
            pure (.error (.expectedRejection scenario.metadata.id index))
          else do
            let p ← absorb lib scenario op index produced { p with labels := labels }
            pure (.ok p)
      | .error error =>
          if op.expectRejection then
            pure (.ok
              -- A rejection keeps the labels of the accounts that were resolved.
              { p with labels := labels, rejections := p.rejections ++ [(op.kind, error)] })
          else pure (.error (.rejected scenario.metadata.id error))

def runOperations (chart : ChartOfAccounts) (scenario : Scenario) (currency : Currency)
    (draws : Draws) : Nat → List Operation → Progress α → m (Except (RunError α) (Progress α))
  | _, [], p => pure (.ok p)
  | index, op :: rest, p => do
      match ← runOperation lib chart scenario currency draws index op p with
      | .error e => pure (.error e)
      | .ok p => runOperations chart scenario currency draws (index + 1) rest p

def execute (self : Runner) (scenario : Scenario) (draws : Draws) :
    m (Except (RunError α) (LedgerRun α)) :=
  match Currency.fromCode scenario.setup.functionalCcy with
  | none => pure (.error (.badOperation scenario.metadata.id
      ("unknown currency " ++ scenario.setup.functionalCcy)))
  | some currency => do
      match ← runOperations lib self.chart scenario currency draws 0 scenario.operations start with
      | .error e => pure (.error e)
      | .ok p => pure (.ok {
          scenarioId := scenario.metadata.id
          entity := scenario.setup.entity
          book := scenario.setup.book
          period := scenario.setup.period
          currency := currency
          events := p.events
          state := p.state
          entries := p.entries
          labels := p.labels
          rejections := p.rejections })

/-- Whether an operation can be executed today. -/
def deliverable (op : Operation) : Bool :=
  match Catalog.spec op.kind with
  | some spec => spec.phase.isDelivered
  | none => false

/-- Runs a scenario, or explains why it cannot be run yet. -/
def run (self : Runner) (scenario : Scenario) (draws : Draws) :
    m (Except (RunError α) (RunOutcome α)) :=
  if scenario.metadata.status = .blocked then
    pure (.ok (.blocked (scenario.metadata.blockedReason.getD "no reason given")))
  else
    let undeliverable := (scenario.operations.filter fun op => !deliverable op).map Operation.kind
    -- One operation of a later phase defers the whole scenario.
    if undeliverable ≠ [] then pure (.ok (.deferred scenario.requiredPhase undeliverable))
    else do
      match ← self.execute lib scenario draws with
      | .error e => pure (.error e)
      | .ok run => pure (.ok (.executed run))

/-! ### What the runner does with a scenario -/

theorem undeliverable_eq_nil_iff {operations : List Operation} :
    (operations.filter fun op => !deliverable op).map Operation.kind = [] ↔
      ∀ op ∈ operations, deliverable op = true := by
  rw [List.map_eq_nil_iff, List.filter_eq_nil_iff]
  simp only [Bool.not_eq_true', Bool.not_eq_false]

section Cases

variable {lib} {runner : Runner} {scenario : Scenario} {draws : Draws}

theorem run_of_blocked (h : scenario.metadata.status = .blocked) :
    runner.run lib scenario draws =
      (pure (.ok (.blocked (scenario.metadata.blockedReason.getD "no reason given"))) : m _) := by
  rw [run, if_pos h]

theorem run_of_undeliverable (hstatus : scenario.metadata.status ≠ .blocked)
    (hsome : ¬ ∀ op ∈ scenario.operations, deliverable op = true) :
    ∃ kinds, runner.run lib scenario draws =
      (pure (.ok (.deferred scenario.requiredPhase kinds)) : m _) := by
  refine ⟨(scenario.operations.filter fun op => !deliverable op).map Operation.kind, ?_⟩
  rw [run, if_neg hstatus]
  dsimp only
  rw [if_pos (mt undeliverable_eq_nil_iff.1 hsome)]

theorem run_of_deliverable (hstatus : scenario.metadata.status ≠ .blocked)
    (hall : ∀ op ∈ scenario.operations, deliverable op = true) :
    runner.run lib scenario draws = ((do
      match ← runner.execute lib scenario draws with
      | .error e => pure (.error e)
      | .ok run => pure (.ok (.executed run))) : m _) := by
  rw [run, if_neg hstatus]
  dsimp only
  rw [if_neg (not_not_intro (undeliverable_eq_nil_iff.2 hall))]

end Cases

end Model

end Runner

/-! ## The smallest scenario -/

/-- The digests that the accounts, the dimensions and the entity of the smallest scenario need. -/
def smallDigest (text : String) : Uuid :=
  let known : List (String × Uuid) :=
    [("falkr.corpus.account\x1f1000", 0xc985aaaba1f8c4718beac80a001aab61),
      ("falkr.corpus.account\x1f4000", 0xa12d73c683bb82df6c10a94d65283032),
      ("falkr.corpus.tenant\x1fUS_PARENT", 0xbcf5143071c03ad0d5066b7a39a2c930),
      ("falkr.corpus.project\x1fcore-001-cash-sale", 0xe22282e3f7932f5ed382443074b7e632),
      ("falkr.corpus.team\x1fcore-001-cash-sale", 0x8d2602c3dab028d654794b9ea126df0d),
      ("falkr.corpus.provider\x1fcore-001-cash-sale", 0x2355b27a152055854a03b0ba651474e0)]
  (known.lookup text).getD 0

/-- Libraries with a given reader of amounts. -/
def smallExternals {α : Type} (read : String → Option α) (isSignNegative : α → Bool) :
    Externals α where
  digest := smallDigest
  debug := fun text => "\"" ++ text ++ "\""
  lineFromValue := ScenarioLine.ofToml
  parseDate := fun text => (DateTimeUtc.readDate text.toList).bind fun (date, rest) =>
    if rest = [] then some date else none
  fromStrExact := fun text => (read text).elim (.error "Invalid decimal: unknown character") .ok
  isSignNegative := isSignNegative

def decimalExternals : Externals Decimal :=
  smallExternals Decimal.read fun d => d.mantissa < 0

def cash : Account where
  code := "1000"
  name := "Cash"
  kind := .asset
  contra := false
  allowOppositeSign := none
  currency := none
  subledger := none
  intercompany := false
  fsCaption := "Cash and cash equivalents"

def revenue : Account where
  code := "4000"
  name := "Revenue"
  kind := .revenue
  contra := false
  allowOppositeSign := none
  currency := none
  subledger := none
  intercompany := false
  fsCaption := "Revenue"

def usParent : Entity where
  code := "US_PARENT"
  name := "Falkr Inc."
  functionalCcy := "USD"
  parent := none
  ownership := none

def smallChart : ChartOfAccounts where
  byCode := (CodeMap.empty.insert cash).insert revenue
  entityMap := CodeMap.empty.insert usParent
  sourceMap := .empty
  controls := .empty

example : ChartOfAccounts.load [cash, revenue] [usParent] [] = .ok smallChart := rfl

/-- A scenario of the two accounts. -/
def cashSale (operations : List Operation) (cashBalance revenueBalance : String) : Scenario where
  path := ["corpus", "core", "core-001-cash-sale.toml"]
  metadata := {
    id := "core-001-cash-sale"
    standards := ["ASC 606-10-25-1", "ASC 606-10-45-1"]
    phase := .p02
    difficulty := 1
    status := .ready
    blockedReason := none
    divergence := none }
  setup := {
    entity := "US_PARENT"
    book := "US_GAAP"
    functionalCcy := "USD"
    period := "2026-01"
    calendar := "gregorian" }
  operations := operations
  expected := {
    trialBalance := .ofList [("1000-Cash", cashBalance), ("4000-Revenue", revenueBalance)]
    byEntity := .empty
    subledgers := .empty
    unusualBalances := []
    notes := {
      reasoning :=
        "The smallest complete transaction there is, and the base case every other scenario in " ++
          "this category is a variation on. Cash increases by the transaction price and revenue " ++
          "is recognised for the same amount." } }

/-- The prose is long enough whatever is posted and expected. -/
theorem checkDocumentation_cashSale (operations : List Operation)
    (cashBalance revenueBalance : String) :
    (cashSale operations cashBalance revenueBalance).checkDocumentation = [] := by
  have hreasoning : minReasoningChars ≤
      (trim (cashSale [] "" "").expected.notes.reasoning).utf8ByteSize := by
    decide +kernel
  have hlong : ¬ (trim (cashSale operations cashBalance revenueBalance).expected.notes.reasoning
      ).utf8ByteSize < minReasoningChars := not_lt.2 hreasoning
  rw [Scenario.checkDocumentation, if_neg hlong]
  rfl

/-- A posting of lines, with the other parameters of the operation. -/
def postEntry (lines : List (List (String × Toml))) (params : List (String × Toml)) :
    Operation where
  kind := "post_entry"
  params := .ofList (("lines", .array (lines.map .table)) :: params)

def reverseOf (target : String) : Operation where
  kind := "reverse_entry"
  params := .ofList [("ref", .string target)]

/-- Cash debited and revenue credited with one amount. -/
def saleLines (amount : String) : List (List (String × Toml)) :=
  [[("account", .string "1000-Cash"), ("debit", .string amount)],
    [("account", .string "4000-Revenue"), ("credit", .string amount)]]

/-- The run of a scenario that was executed. -/
def executed? {α : Type} : Except (RunError α) (RunOutcome α) → Option (LedgerRun α)
  | .ok (.executed run) => some run
  | _ => none

theorem eq_of_executed? {α : Type} {result : Except (RunError α) (RunOutcome α)} {run : LedgerRun α}
    (h : executed? result = some run) : result = .ok (.executed run) := by
  unfold executed? at h
  split at h
  · cases h
    rfl
  · cases h

/-- Operations draw the numbers from one on. -/
def countingDraws : Draws where
  newId := fun index => ⟨Fin.ofNat (2 ^ 128) (index + 1)⟩
  now := fun index => ⟨index⟩

/-- The run of a scenario on the machine decimal. -/
def decimalRun (scenario : Scenario) : Option (LedgerRun Decimal) :=
  (Runner.run decimalExternals { chart := smallChart } scenario countingDraws).bind executed?

theorem run_of_decimalRun {scenario : Scenario} {run : LedgerRun Decimal}
    (h : decimalRun scenario = some run) :
    Runner.run decimalExternals { chart := smallChart } scenario countingDraws =
      some (.ok (.executed run)) := by
  rcases Option.bind_eq_some_iff.1 h with ⟨result, hresult, hrun⟩
  rw [hresult, eq_of_executed? hrun]

end Falkr
