import Falkr.Lib.Calendar
import Falkr.Lib.Digits
import Falkr.Testkit.Assertions
import Falkr.Testkit.Catalog
import Falkr.Testkit.Chart

/-!
# Scenario — the scenario file, and what can be checked without running it

A scenario is a setup, a list of operations and the expected result.  `validate` lists everything
wrong with one; a scenario without defects has every account it posts to in the chart
(`Checked.accounts`).
-/

namespace Falkr

open Lib

/-! ## Operations -/

/-- A TOML value. -/
inductive Toml
  | string (value : String)
  | integer (value : Int)
  | float (text : String)
  | boolean (value : Bool)
  | datetime (text : String)
  | array (values : List Toml)
  | table (fields : List (String × Toml))

namespace Toml

def asStr : Toml → Option String
  | string value => some value
  | _ => none

def asBool : Toml → Option Bool
  | boolean value => some value
  | _ => none

def asArray : Toml → Option (List Toml)
  | array values => some values
  | _ => none

end Toml

/-- One line of a hand-written journal entry. -/
structure ScenarioLine where
  account : String
  debit : Option String
  credit : Option String
  /-- Overrides the functional currency of the scenario for this line. -/
  currency : Option String
  sources : List String
  deriving DecidableEq

namespace ScenarioLine

/-- A field that may be missing. -/
def optional (fields : List (String × Toml)) (name : String) : Except String (Option String) :=
  match fields.lookup name with
  | none => .ok none
  | some (.string value) => .ok (some value)
  | some _ => .error "invalid type, expected a string"

/-- Reads a table with the fields of a line and no others. -/
def ofToml : Toml → Except String ScenarioLine
  | .table fields => do
      let known := ["account", "debit", "credit", "currency", "sources"]
      -- `deny_unknown_fields`.
      if fields.any fun f => !known.contains f.1 then
        throw "unknown field"
      let debit ← optional fields "debit"
      let credit ← optional fields "credit"
      let currency ← optional fields "currency"
      let sources ←
        match fields.lookup "sources" with
        | none => pure []
        | some (.array values) =>
            values.mapM fun v => v.asStr.elim (.error "invalid type, expected a string") .ok
        | some _ => throw "invalid type, expected a sequence"
      match fields.lookup "account" with
      | some (.string account) => pure {
          account := account
          debit := debit
          credit := credit
          currency := currency
          sources := sources }
      | some _ => throw "invalid type, expected a string"
      | none => throw "missing field account"
  | _ => .error "invalid type, expected struct ScenarioLine"

end ScenarioLine

/-- What the corpus takes from libraries. -/
structure Externals (α : Type) where
  /-- The first sixteen bytes of the SHA-256 digest of a text. -/
  digest : String → Uuid
  /-- `{:?}` of a string. -/
  debug : String → String
  lineFromValue : Toml → Except String ScenarioLine
  parseDate : String → Option CivilDate
  fromStrExact : String → Except String α
  isSignNegative : α → Bool

/-- One step in a scenario; the parameters are left to the handler of its kind. -/
structure Operation where
  kind : String
  params : SortedMap String Toml

inductive ParamError
  | missing (kind param wanted : String)
  | notDecimal (kind param raw detail : String)
  | badLine (kind detail : String)
  deriving DecidableEq

def ParamError.display (debug : String → String) : ParamError → String
  | missing kind param wanted =>
      "operation `" ++ kind ++ "` is missing required " ++ wanted ++ " parameter `" ++ param ++ "`"
  | notDecimal kind param raw detail =>
      "operation `" ++ kind ++ "` parameter `" ++ param ++ "` = " ++ debug raw ++
        " is not an exact decimal: " ++ detail
  | badLine kind detail => "operation `" ++ kind ++ "` has a malformed line: " ++ detail

namespace Operation

/-- A required string parameter. -/
def strParam (self : Operation) (name : String) : Except ParamError String :=
  match (self.params.get? name).bind Toml.asStr with
  | some value => .ok value
  | none => .error (.missing self.kind name "string")

def optStrParam (self : Operation) (name : String) : Option String :=
  (self.params.get? name).bind Toml.asStr

/-- Whether the operation declares that the ledger must refuse it. -/
def expectRejection (self : Operation) : Bool :=
  ((self.params.get? "expect_rejection").bind Toml.asBool).getD false

/-- The `lines` array of a `post_entry`. -/
def lines {α : Type} (lib : Externals α) (self : Operation) :
    Except ParamError (List ScenarioLine) :=
  match (self.params.get? "lines").bind Toml.asArray with
  | none => .error (.missing self.kind "lines" "array of tables")
  | some array =>
      array.mapM fun v =>
        match lib.lineFromValue v with
        | .ok line => .ok line
        | .error e => .error (.badLine self.kind e)

end Operation

/-! ## The file -/

/-- Whether a scenario's expected numbers have been derived yet. -/
inductive Status
  | ready
  | blocked
  | divergent
  deriving DecidableEq, Repr

def Status.debug : Status → String
  | ready => "Ready"
  | blocked => "Blocked"
  | divergent => "Divergent"

structure Meta where
  id : String
  standards : List String
  phase : Phase
  difficulty : Nat
  status : Status
  blockedReason : Option String
  divergence : Option String

structure Setup where
  entity : String
  book : String
  functionalCcy : String
  period : String
  calendar : String

/-- The derivation, in prose. -/
structure Notes where
  reasoning : String

structure Expected where
  /-- Account reference to signed balance, debit-positive. -/
  trialBalance : SortedMap String String
  byEntity : SortedMap String (SortedMap String String)
  subledgers : SortedMap String String
  unusualBalances : List String
  notes : Notes

structure Scenario where
  /-- The components of the file's path. -/
  path : List String
  metadata : Meta
  setup : Setup
  operations : List Operation
  expected : Expected

structure Defect where
  scenario : String
  detail : String
  deriving DecidableEq

/-- `Path::file_name`. -/
def fileName (path : List String) : Option String :=
  path.getLast?.filter fun name => name ≠ ".." ∧ name ≠ "/"

/-- `Path::file_stem`: the name up to its last dot, but for a dot in front. -/
def fileStem (path : List String) : Option String :=
  (fileName path).map fun name =>
    match name.toList.reverse.dropWhile fun c => c ≠ '.' with
    | [] => name
    -- The only dot stands in front: the name has no extension.
    | [_] => name
    | _ :: before => String.ofList before.reverse

/-- A Gregorian month such as `2026-01`, or a fiscal period such as `2026-P01`. -/
def validatePeriod (debug : String → String) (period : String) : Except String Unit :=
  match splitOnce '-' period with
  | none => .error ("setup.period " ++ debug period ++ " is not YYYY-MM or YYYY-PNN")
  | some (year, rest) =>
      if year.utf8ByteSize ≠ 4 ∨ (parseUnsigned (2 ^ 16) year).isNone then
        .error ("setup.period " ++ debug period ++ " has a non-numeric year")
      else
        let (digits, max) :=
          match rest.toList with
          -- A fiscal year may close in a thirteenth period.
          | 'P' :: digits => (String.ofList digits, 13)
          | _ => (rest, 12)
        match parseUnsigned (2 ^ 8) digits with
        | some n =>
            if 1 ≤ n ∧ n ≤ max ∧ digits.utf8ByteSize = 2 then .ok ()
            else .error ("setup.period " ++ debug period ++
              " has an out-of-range or unpadded period number")
        | none => .error ("setup.period " ++ debug period ++
            " has an out-of-range or unpadded period number")

def minReasoningChars : Nat := 120

/-- Books the corpus recognizes. -/
def books : List String := ["US_GAAP", "IFRS", "TAX", "MGMT"]

/-- Fiscal calendars the corpus recognizes. -/
def calendars : List String := ["gregorian", "4-4-5", "53-week"]

/-- `{:?}` of a list of strings. -/
def debugList (debug : String → String) (texts : List String) : String :=
  "[" ++ String.intercalate ", " (texts.map debug) ++ "]"

namespace Scenario

/-- The directory the file is in. -/
def category (self : Scenario) : String :=
  (fileName self.path.dropLast).getD ""

/-- The highest phase among the operations, the one that unblocks the scenario. -/
def requiredPhase (self : Scenario) : Phase :=
  match (self.operations.filterMap fun op => Catalog.spec op.kind).map OperationSpec.phase with
  | [] => .p02
  | first :: rest => rest.foldl Phase.max first

/-- Whether every operation this scenario uses exists today. -/
def isExecutable (self : Scenario) : Bool :=
  self.metadata.status ≠ .blocked ∧ self.requiredPhase.isDelivered

variable {m : Type → Type} {α : Type} [Amount m α] [CheckedAmount α] (lib : Externals α)

open CheckedAmount (checkedAdd display)

/-- The amounts of a table as exact decimals. -/
def parseBalances (scenario : String) :
    List (String × String) → SortedMap String α → Except Defect (SortedMap String α)
  | [], out => .ok out
  | (account, amount) :: rest, out =>
      match lib.fromStrExact amount with
      | .ok parsed => parseBalances scenario rest (out.insert account parsed)
      | .error e => .error {
          scenario := scenario
          detail := account ++ " = " ++ lib.debug amount ++ " is not an exact decimal: " ++ e }

/-- The expected trial balance as exact decimals. -/
def expectedTrialBalance (self : Scenario) : Except Defect (SortedMap String α) :=
  parseBalances lib self.metadata.id self.expected.trialBalance.entries .empty

/-! ### The checks

Each returns the details of what it finds wrong. -/

def checkIdentity (self : Scenario) : List String :=
  let stem := (fileStem self.path).getD ""
  (if stem ≠ self.metadata.id then
    ["meta.id is " ++ lib.debug self.metadata.id ++ " but the file is named " ++ lib.debug stem ++
      "; they must match so a failure message names a file you can open"]
  else []) ++
  (if ¬self.metadata.id.startsWith (self.category ++ "-") then
    ["meta.id " ++ lib.debug self.metadata.id ++ " does not start with its category " ++
      lib.debug self.category]
  else []) ++
  if ¬(1 ≤ self.metadata.difficulty ∧ self.metadata.difficulty ≤ 5) then
    ["difficulty " ++ toString self.metadata.difficulty ++ " is outside 1..=5"]
  else []

def checkDocumentation (self : Scenario) : List String :=
  let length := (trim self.expected.notes.reasoning).utf8ByteSize
  (if length < minReasoningChars then
    ["expected.notes.reasoning is " ++ toString length ++ " characters; at least " ++
      toString minReasoningChars ++ " are required. Expected numbers that cannot be explained " ++
      "in prose are guesses"]
  else []) ++
  if self.metadata.standards.isEmpty then
    ["meta.standards is empty; name the paragraph the expected numbers come from, even if it " ++
      "is the definition of double entry"]
  else []

def checkStatus (self : Scenario) : List String :=
  (match self.metadata.status with
  | .blocked =>
      (if self.metadata.blockedReason.all fun reason => trim reason = "" then
        ["status = \"blocked\" requires blocked_reason"]
      else []) ++
      if ¬self.expected.trialBalance.entries.isEmpty then
        ["a blocked scenario must not carry an expected trial balance; the corpus discipline " ++
          "forbids filling one in from a test run"]
      else []
  | .ready | .divergent =>
      (if self.metadata.blockedReason.isSome then
        ["blocked_reason is set but status is " ++ self.metadata.status.debug]
      else []) ++
      if self.expected.trialBalance.entries.isEmpty then
        ["this scenario needs an expected trial balance"]
      else []) ++
  match self.metadata.status, self.metadata.divergence with
  -- An empty explanation counts as none.
  | .divergent, none | .divergent, some "" =>
      ["status = \"divergent\" requires `divergence`, saying what the standard requires, what " ++
        "this codebase does instead, and which phase closes the gap"]
  | .ready, some _ | .blocked, some _ =>
      ["`divergence` is set but status is " ++ self.metadata.status.debug]
  | _, _ => []

def checkSetup (self : Scenario) (chart : ChartOfAccounts) : List String :=
  (if (chart.entity self.setup.entity).isNone then
    ["setup.entity " ++ lib.debug self.setup.entity ++
      " is not in corpus/_reference/entities.toml"]
  else []) ++
  (if ¬books.contains self.setup.book then
    ["setup.book " ++ lib.debug self.setup.book ++ " is not one of " ++ debugList lib.debug books]
  else []) ++
  (if (Currency.fromCode self.setup.functionalCcy).isNone then
    ["setup.functional_ccy " ++ lib.debug self.setup.functionalCcy ++
      " is not a currency falkr_core knows"]
  else []) ++
  (if ¬calendars.contains self.setup.calendar then
    ["setup.calendar " ++ lib.debug self.setup.calendar ++ " is not one of " ++
      debugList lib.debug calendars]
  else []) ++
  match validatePeriod lib.debug self.setup.period with
  | .ok () => []
  | .error detail => [detail]

def checkOperations (self : Scenario) : List String :=
  (if self.operations.isEmpty ∧ self.metadata.status ≠ .blocked then
    ["a ready scenario needs at least one operation"]
  else []) ++
  (self.operations.flatMap fun op =>
    if (Catalog.spec op.kind).isNone then
      ["unknown operation kind " ++ lib.debug op.kind ++
        "; add it to catalog::OPERATIONS or fix the typo"]
    else []) ++
  if self.metadata.status ≠ .blocked ∧ self.metadata.phase ≠ self.requiredPhase then
    ["meta.phase is " ++ self.metadata.phase.display ++ " but the operations require " ++
      self.requiredPhase.display]
  else []

/-- What is wrong with the sides of a line. -/
def checkSides (line : ScenarioLine) : List String :=
  match line.debit, line.credit with
  | some _, some _ => ["line on " ++ line.account ++ " carries both a debit and a credit"]
  | none, none => ["line on " ++ line.account ++ " carries neither a debit nor a credit"]
  | _, _ => []

/-- The sides of the lines are left alone where the operation is meant to be malformed. -/
def checkLines (self : Scenario) : List String :=
  (self.operations.filter fun op => op.kind == "post_entry").flatMap fun op =>
    match op.lines lib with
    -- Amounts and currencies of the lines are not looked at.
    | .ok lines => if op.expectRejection then [] else lines.flatMap checkSides
    | .error e => [e.display lib.debug]

/-- The accounts that the lines refer to, in order. -/
def referenced (self : Scenario) : SortedMap String Unit :=
  .ofList ((self.operations.filter fun op => op.kind == "post_entry").flatMap fun op =>
    match op.lines lib with
    | .ok lines => lines.map fun line => (line.account, ())
    | .error _ => [])

def checkAccounts (self : Scenario) (chart : ChartOfAccounts) (balances : SortedMap String α) :
    List String :=
  ((self.referenced lib).keys ++ balances.keys).flatMap fun reference =>
    if (chart.resolve reference).isNone then
      ["account " ++ lib.debug reference ++
        " is not in the corpus chart (or its name does not match its code)"]
    else []

/-- The sum of the amounts and whether a sum overflowed; one that did is left out. -/
def sumBalances : List α → α → Bool → α × Bool
  | [], total, overflowed => (total, overflowed)
  | amount :: rest, total, overflowed =>
      match checkedAdd total amount with
      | some next => sumBalances rest next overflowed
      -- An overflowing amount is skipped, and the flag stays set.
      | none => sumBalances rest total true

def checkZeroSum (self : Scenario) (balances : SortedMap String α) : List String :=
  let (total, overflowed) := sumBalances balances.values Amount.zero false
  if overflowed then ["expected trial balance overflows Decimal while summing"]
  else if ¬Amount.eq total (Amount.zero : α) ∧ self.metadata.status ≠ .blocked then
    ["expected trial balance does not sum to zero: " ++ display total ++ " left over. " ++
      "Debits are positive and credits negative; check the derivation in " ++
      "expected.notes.reasoning against the numbers above it"]
  else []

/-- Whether a balance is on the normal side of its account. -/
def onNormalSide (account : Account) (amount : α) : Bool :=
  match account.normalBalance with
  | .debit => !lib.isSignNegative amount
  -- Zero is on its normal side for either kind.
  | .credit => lib.isSignNegative amount || Amount.eq amount (Amount.zero : α)

/-- The balances on the unusual side must be declared, and the declarations must be live. -/
def checkUnusual (self : Scenario) (chart : ChartOfAccounts) (balances : SortedMap String α) :
    List String :=
  let declared : SortedMap String Unit :=
    .ofList (self.expected.unusualBalances.map fun reference => (reference, ()))
  (balances.entries.flatMap fun (reference, amount) =>
    match chart.resolve reference with
    | none => []
    | some account =>
        let normal := onNormalSide lib account amount
        (if ¬normal ∧ ¬account.permitsOppositeSign ∧ ¬declared.contains reference then
          [reference ++ " is expected to end at " ++ display amount ++
            ", on the side opposite its normal balance (" ++ account.normalBalance.asStr ++
            "). If that is genuinely correct, list it in expected.unusual_balances and say why " ++
            "in the reasoning"]
        else []) ++
        if normal ∧ declared.contains reference then
          [reference ++ " is listed in expected.unusual_balances but ends at " ++
            display amount ++ ", which is its normal side. Stale annotation"]
        else []) ++
  declared.keys.flatMap fun reference =>
    if ¬balances.contains reference then
      ["expected.unusual_balances names " ++ reference ++
        ", which is not in the expected trial balance"]
    else []

def checkSubledgers (self : Scenario) (chart : ChartOfAccounts) : List String :=
  self.expected.subledgers.keys.flatMap fun name =>
    if (chart.controlAccount name).isNone then
      ["expected.subledgers names " ++ lib.debug name ++
        ", which no account in the chart claims as its control account"]
    else []

/-- `sum.checked_add(*amount).unwrap_or(sum)` over the amounts of one entity. -/
def sumOrKeep (amounts : List α) : α :=
  amounts.foldl (fun sum amount => (checkedAdd sum amount).getD sum) Amount.zero

def checkEntities (self : Scenario) (chart : ChartOfAccounts) : List String :=
  self.expected.byEntity.entries.flatMap fun (entity, perEntity) =>
    (if (chart.entity entity).isNone then
      ["expected.by_entity names unknown entity " ++ lib.debug entity]
    else []) ++
    match parseBalances lib self.metadata.id perEntity.entries .empty with
    | .ok parsed =>
        let sum := sumOrKeep parsed.values
        if ¬Amount.eq sum (Amount.zero : α) then
          ["expected.by_entity." ++ entity ++ " does not sum to zero: " ++ display sum]
        else []
    | .error defect => [defect.detail]

/-- The checks on the expected trial balance; one that does not parse is checked as empty. -/
def checkExpected (self : Scenario) (chart : ChartOfAccounts) : List String :=
  let (unparsed, balances) : List String × SortedMap String α :=
    match self.expectedTrialBalance lib with
    -- The remaining checks run on what could be parsed.
    | .ok balances => ([], balances)
    | .error defect => ([defect.detail], .empty)
  unparsed ++ self.checkAccounts lib chart balances ++ self.checkZeroSum balances ++
    self.checkUnusual lib chart balances

/-- Everything wrong with this scenario. -/
def validate (self : Scenario) (chart : ChartOfAccounts) : List Defect :=
  (self.checkIdentity lib ++ self.checkDocumentation ++ self.checkStatus ++
    self.checkSetup lib chart ++ self.checkOperations lib ++ self.checkLines lib ++
    self.checkExpected lib chart ++ self.checkSubledgers lib chart ++
    self.checkEntities lib chart).map fun detail =>
      { scenario := self.metadata.id, detail := detail }

/-! ## What a scenario without defects has -/

/-- What the handlers of the operations may rely on. -/
structure Checked (scenario : Scenario) (chart : ChartOfAccounts) : Prop where
  currency : ∃ c, Currency.fromCode scenario.setup.functionalCcy = some c
  accounts : ∀ op ∈ scenario.operations, op.kind = "post_entry" →
    ∃ lines, op.lines lib = .ok lines ∧
      ∀ line ∈ lines, ∃ account, chart.resolve line.account = some account

variable {lib} {self : Scenario} {chart : ChartOfAccounts}

omit [CheckedAmount α] in
theorem lines_of_checkLines (h : self.checkLines lib = []) {op : Operation}
    (hop : op ∈ self.operations) (hkind : op.kind = "post_entry") :
    ∃ lines, op.lines lib = .ok lines := by
  rw [checkLines, List.flatMap_eq_nil_iff] at h
  have hnone := h op (List.mem_filter.2 ⟨hop, by simp [hkind]⟩)
  cases hlines : op.lines lib with
  | ok lines => exact ⟨lines, rfl⟩
  | error e => simp [hlines] at hnone

omit [CheckedAmount α] in
/-- An account that a line refers to is among those looked up in the chart. -/
theorem mem_referenced {op : Operation} (hop : op ∈ self.operations)
    (hkind : op.kind = "post_entry") {lines : List ScenarioLine} (hlines : op.lines lib = .ok lines)
    {line : ScenarioLine} (hline : line ∈ lines) : line.account ∈ (self.referenced lib).keys := by
  refine SortedMap.mem_keys_ofList.2 ⟨(), ?_⟩
  refine List.mem_flatMap.2 ⟨op, List.mem_filter.2 ⟨hop, by simp [hkind]⟩, ?_⟩
  rw [hlines]
  exact List.mem_map_of_mem hline

/-- The prose and everything else that is checked. -/
theorem validate_eq_nil_iff : self.validate lib chart = [] ↔ self.checkDocumentation = [] ∧
    self.checkIdentity lib ++ self.checkStatus ++ self.checkSetup lib chart ++
      self.checkOperations lib ++ self.checkLines lib ++ self.checkExpected lib chart ++
      self.checkSubledgers lib chart ++ self.checkEntities lib chart = [] := by
  simp only [validate, List.map_eq_nil_iff, List.append_eq_nil_iff, and_assoc]
  exact and_left_comm

theorem checked_of_validate (h : self.validate lib chart = []) : self.Checked lib chart := by
  simp only [validate, List.map_eq_nil_iff, List.append_eq_nil_iff] at h
  rcases h with ⟨⟨⟨⟨⟨⟨-, hsetup⟩, -⟩, hlines⟩, hexpected⟩, -⟩, -⟩
  refine ⟨?_, fun op hop hkind => ?_⟩
  · simp only [checkSetup, List.append_eq_nil_iff] at hsetup
    cases hcurrency : Currency.fromCode self.setup.functionalCcy with
    | none => simp [hcurrency] at hsetup
    | some c => exact ⟨c, rfl⟩
  · rcases lines_of_checkLines hlines hop hkind with ⟨lines, hok⟩
    refine ⟨lines, hok, fun line hline => ?_⟩
    -- Every account that was collected is looked up, whatever balances are expected.
    have haccounts : ∀ balances : SortedMap String α,
        self.checkAccounts lib chart balances = [] →
          ∃ account, chart.resolve line.account = some account := by
      intro balances hnil
      rw [checkAccounts, List.flatMap_eq_nil_iff] at hnil
      have hnone := hnil line.account (List.mem_append_left _ (mem_referenced hop hkind hok hline))
      cases hresolve : chart.resolve line.account with
      | none => simp [hresolve] at hnone
      | some account => exact ⟨account, rfl⟩
    unfold checkExpected at hexpected
    simp only [List.append_eq_nil_iff] at hexpected
    exact haccounts _ hexpected.1.1.2

end Scenario

end Falkr
