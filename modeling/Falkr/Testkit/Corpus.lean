import Falkr.Testkit.AdsExport
import Falkr.Testkit.Invariants

/-!
# Corpus — the verdict on a category of scenarios

Every scenario of a category is run.  What a run comes to is compared with the expectations, number
by number, and then put through the assertions.  Of scenarios that have no defect most of these have
nothing left to find: replay and round trip hold of any run, and the sides of the accounts were
checked against the expectations.  What decides the verdict is said without the assertions
(`runCategory_eq_nil_iff`).
-/

namespace Falkr

open Lib

namespace Corpus

/-! ## The verdict -/

/-- The invariants that a scenario claims for itself, as far as they are checked. -/
structure ExpectedInvariants where
  balanced : Bool
  replayStable : Bool
  intercompanyEliminated : Bool

/-- A scenario with its claims. -/
structure ScenarioFile where
  scenario : Scenario
  invariants : ExpectedInvariants

/-- What a failure message is made of. -/
inductive Failure (α : Type)
  | run (scenario : String) (error : RunError α)
  | defect (defect : Defect)
  | mismatch (scenario : String) (expected actual : SortedMap String α)
  /-- Marked as divergent, and yet it produces the expected result. -/
  | fixed (scenario divergence : String)
  | violation (scenario : String) (violation : InvariantViolation)
  deriving DecidableEq

section Model

variable {m : Type → Type} {α : Type} [Amount m α] [CheckedAmount α]

/-- Balances under the codes in front of the first hyphens; of two under one code the last stays. -/
def normalize (balances : SortedMap String α) : SortedMap String α :=
  .ofList (AdsExtract.byNumber balances)

/-- The codes of the accounts whose unusual balances were declared. -/
def declaredCodes (scenario : Scenario) : SortedMap String Unit :=
  .ofList (scenario.expected.unusualBalances.map fun reference => (accountNumber reference, ()))

def failures (scenario : String) : Except InvariantViolation Unit → List (Failure α)
  | .ok () => []
  | .error violation => [.violation scenario violation]

variable [Monad m] (lib : Externals α) (serde : Serde (LedgerEvent α))

/-- What the scenario claims of its log. -/
def checkLog (file : ScenarioFile) (run : LedgerRun α) : m (List (Failure α)) :=
  let id := file.scenario.metadata.id
  if file.invariants.replayStable then do
    let stable ← assertReplayStable run.events run.state
    pure (failures id stable ++ failures id (assertEventsRoundTrip serde run.events))
  else pure []

/-- The invariants the scenario claims for itself, and the sides its accounts end on. -/
def checkInvariants (chart : ChartOfAccounts) (file : ScenarioFile) (run : LedgerRun α)
    (actual : SortedMap String α) : m (List (Failure α)) := do
  let id := file.scenario.metadata.id
  let balanced :=
    if file.invariants.balanced then
      -- Every entry is reported, not only the first one that is off.
      run.entries.flatMap fun entry => failures id (assertBalanced entry.lines)
    else []
  let replayed ← checkLog serde file run
  let eliminated :=
    if file.invariants.intercompanyEliminated then
      failures id (assertIntercompanyEliminated actual chart)
    else []
  let sides := failures id
    (assertNoUnexpectedNegativeBalances lib actual chart (declaredCodes file.scenario))
  pure (balanced ++ replayed ++ eliminated ++ sides)

/-- The verdict on a run: a mismatch is what a divergent scenario documents. -/
def judgeRun (chart : ChartOfAccounts) (file : ScenarioFile) (run : LedgerRun α) :
    m (List (Failure α)) :=
  match file.scenario.expectedTrialBalance lib with
  | .error defect => pure [.defect defect]
  | .ok expected =>
      let id := file.scenario.metadata.id
      let actual := normalize run.trialBalance
      let expected := normalize expected
      if actual.eqBy Amount.eq expected then
        if file.scenario.metadata.status = .divergent then
          pure [.fixed id (file.scenario.metadata.divergence.getD "")]
        else checkInvariants lib serde chart file run actual
      else if file.scenario.metadata.status = .divergent then pure []
      else pure [.mismatch id expected actual]

/-- One pass of the loop in `run_category`. -/
def judge (self : Runner) (file : ScenarioFile) (draws : Draws) : m (List (Failure α)) := do
  match ← self.run lib file.scenario draws with
  | .error e =>
      -- The divergence shows up where the scenario says it will.
      if file.scenario.metadata.status = .divergent then pure []
      else pure [.run file.scenario.metadata.id e]
  | .ok (.executed run) => judgeRun lib serde self.chart file run
  | .ok (.deferred _ _) => pure []
  | .ok (.blocked _) => pure []

def judgeAll (self : Runner) (draws : Nat → Draws) :
    Nat → List ScenarioFile → m (List (Failure α))
  | _, [] => pure []
  | index, file :: rest => do
      let found ← judge lib serde self file (draws index)
      let later ← judgeAll self draws (index + 1) rest
      pure (found ++ later)

/-- The scenarios of a category. -/
def inCategory (category : String) (files : List ScenarioFile) : List ScenarioFile :=
  files.filter fun file => file.scenario.category == category

/-- `run_category`, on the scenarios of the corpus. -/
def runCategory (self : Runner) (draws : Nat → Draws) (category : String)
    (files : List ScenarioFile) : m (List (Failure α)) :=
  judgeAll lib serde self draws 0 (inCategory category files)

end Model

/-! ## What decides it -/

section Decimals

open Decimal

variable {lib : Externals Decimal} {chart : ChartOfAccounts} {scenario : Scenario}

/-- The run comes to what is expected, code by code. -/
def Meets (lib : Externals Decimal) (scenario : Scenario) (run : LedgerRun Decimal) : Prop :=
  ∃ expected, scenario.expectedTrialBalance lib = .ok expected ∧
    ∀ code, ((normalize run.trialBalance).get? code).map toRat =
      ((normalize expected).get? code).map toRat

/-- What is left to check of a run that meets its expectations.  A balance of zero has a sign of its
own, which its value does not show. -/
structure Kept (lib : Externals Decimal) (chart : ChartOfAccounts) (file : ScenarioFile)
    (run : LedgerRun Decimal) : Prop where
  balanced : file.invariants.balanced = true →
    ∀ entry ∈ run.entries, NetsToZero (signedAmounts entry.lines)
  eliminated : file.invariants.intercompanyEliminated = true →
    NetsToZero (intercompanyAmounts (normalize run.trialBalance) chart)
  zeros : ∀ e ∈ (normalize run.trialBalance).entries, e.2.toRat = 0 →
    SideAllowed lib chart (declaredCodes file.scenario) e.1 e.2

/-- The run comes out as its scenario says it will. -/
def Stands (lib : Externals Decimal) (chart : ChartOfAccounts) (file : ScenarioFile)
    (run : LedgerRun Decimal) : Prop :=
  if file.scenario.metadata.status = .divergent then ¬Meets lib file.scenario run
  else Meets lib file.scenario run ∧ Kept lib chart file run

/-- Nothing panics, an error is that of a divergent scenario, and a run stands. -/
def Passes (lib : Externals Decimal) (self : Runner) (file : ScenarioFile) (draws : Draws) : Prop :=
  match self.run lib file.scenario draws with
  | none => False
  | some (.error _) => file.scenario.metadata.status = .divergent
  | some (.ok (.executed run)) => Stands lib self.chart file run
  | some (.ok _) => True

/-- The sign of a number other than zero is that of its value. -/
def SignsNonzero (lib : Externals Decimal) : Prop :=
  ∀ d : Decimal, d.toRat ≠ 0 → lib.isSignNegative d = decide (d.toRat < 0)

/-! ### Expectations without defects -/

theorem contains_ofList_iff {f : String → String} {references : List String} {code : String} :
    (SortedMap.ofList (references.map fun reference => (f reference, ()))).contains code = true ↔
      ∃ reference ∈ references, f reference = code := by
  rw [SortedMap.contains, ← SortedMap.mem_keys_iff, SortedMap.mem_keys_ofList]
  simp

theorem mem_of_contains {references : List String} {reference : String}
    (h : (SortedMap.ofList (references.map fun r => (r, ()))).contains reference = true) :
    reference ∈ references := by
  rcases (@contains_ofList_iff (fun r => r) _ _).1 h with ⟨r, hr, rfl⟩
  exact hr

theorem mem_of_get?_ofList {pairs : List (String × Decimal)} {code : String} {amount : Decimal}
    (h : (SortedMap.ofList pairs).get? code = some amount) : (code, amount) ∈ pairs := by
  rw [SortedMap.get?_ofList] at h
  rcases List.mem_map.1 (List.mem_of_getLast? h) with ⟨e, he, rfl⟩
  rcases List.mem_filter.1 he with ⟨hmem, hcode⟩
  have heq : e.1 = code := by simpa using hcode
  exact heq ▸ hmem

/-- An expected balance may end where it does. -/
def Expectable (lib : Externals Decimal) (chart : ChartOfAccounts) (scenario : Scenario)
    (reference : String) (amount : Decimal) : Prop :=
  ∃ account, chart.resolve reference = some account ∧
    (onNormalSide lib account amount = true ∨ account.permitsOppositeSign = true ∨
      reference ∈ scenario.expected.unusualBalances)

/-- A scenario without defects has readable expectations, all of them within the rules. -/
theorem expectable_of_validate (h : scenario.validate (m := Option) lib chart = []) :
    ∃ expected, scenario.expectedTrialBalance lib = .ok expected ∧
      ∀ e ∈ expected.entries, Expectable lib chart scenario e.1 e.2 := by
  simp only [Scenario.validate, List.map_eq_nil_iff, List.append_eq_nil_iff] at h
  rcases h with ⟨⟨⟨-, hexpected⟩, -⟩, -⟩
  unfold Scenario.checkExpected at hexpected
  cases hparse : scenario.expectedTrialBalance lib with
  | error defect => simp [hparse] at hexpected
  | ok expected =>
      simp only [hparse, List.append_eq_nil_iff] at hexpected
      rcases hexpected with ⟨⟨⟨-, haccounts⟩, -⟩, hunusual⟩
      refine ⟨expected, rfl, fun e he => ?_⟩
      rw [Scenario.checkAccounts, List.flatMap_eq_nil_iff] at haccounts
      have hknown := haccounts e.1 (List.mem_append_right _ (List.mem_map_of_mem he))
      unfold Scenario.checkUnusual at hunusual
      have hside := List.flatMap_eq_nil_iff.1 (List.append_eq_nil_iff.1 hunusual).1 e he
      dsimp only at hside
      unfold Expectable
      cases hresolve : chart.resolve e.1 with
      | none => simp [hresolve] at hknown
      | some account =>
          refine ⟨account, rfl, ?_⟩
          simp only [hresolve, List.append_eq_nil_iff] at hside
          by_contra hnone
          simp only [not_or] at hnone
          rcases hnone with ⟨hnormal, hpermits, hmissing⟩
          have hnot : ¬(SortedMap.ofList (scenario.expected.unusualBalances.map
              fun reference => (reference, ()))).contains e.1 = true :=
            fun hcontains => hmissing (mem_of_contains hcontains)
          have hfirst := hside.1
          rw [if_pos ⟨hnormal, hpermits, hnot⟩] at hfirst
          cases hfirst

/-- The code of a reference resolves to the account of the reference. -/
theorem resolve_accountNumber {reference : String} {account : Account}
    (h : chart.resolve reference = some account) :
    chart.resolve (accountNumber reference) = some account := by
  unfold accountNumber
  cases hsplit : splitOnce '-' reference with
  | none => exact h
  | some parts =>
      rcases parts with ⟨code, name⟩
      -- What stands in front of the first hyphen has none itself.
      have hnone : splitOnce '-' code = none := splitOnce_eq_none (not_mem_of_splitOnce hsplit)
      rw [ChartOfAccounts.resolve, hsplit] at h
      show chart.resolve code = some account
      rw [ChartOfAccounts.resolve, hnone]
      exact (Option.filter_eq_some_iff.1 h).1

theorem onNormalSide_congr (hsign : SignsNonzero lib) {account : Account} {a b : Decimal}
    (heq : a.toRat = b.toRat) (hne : a.toRat ≠ 0) :
    onNormalSide lib account a = onNormalSide lib account b := by
  have hne' : b.toRat ≠ 0 := heq ▸ hne
  have hzero : ∀ d : Decimal, d.toRat ≠ 0 → Amount.eq d (Amount.zero : Decimal) = false := by
    intro d hd
    rw [Bool.eq_false_iff]
    intro htrue
    exact hd (((eq_iff _ _).1 htrue).trans toRat_zero)
  unfold onNormalSide Scenario.onNormalSide
  rw [hsign a hne, hsign b hne', hzero a hne, hzero b hne', heq]

/-- A balance other than zero that was expected so is let off by the final check. -/
theorem sideAllowed_of_meets (hsign : SignsNonzero lib) {actual expected : SortedMap String Decimal}
    (hexpected : ∀ e ∈ expected.entries, Expectable lib chart scenario e.1 e.2)
    (hmeets : ∀ code, (actual.get? code).map toRat = ((normalize expected).get? code).map toRat)
    {e : String × Decimal} (he : e ∈ actual.entries) (hne : e.2.toRat ≠ 0) :
    SideAllowed lib chart (declaredCodes scenario) e.1 e.2 := by
  have hget : actual.get? e.1 = some e.2 := SortedMap.get?_eq_some_iff.2 he
  have hsame := hmeets e.1
  rw [hget, Option.map_some] at hsame
  rcases Option.map_eq_some_iff.1 hsame.symm with ⟨amount, hamount, heq⟩
  rcases List.mem_map.1 (mem_of_get?_ofList hamount) with ⟨⟨reference, amount'⟩, hmem, hpair⟩
  rcases Prod.mk.inj hpair with ⟨hcode, rfl⟩
  rcases hexpected _ hmem with ⟨account, hresolve, hside⟩
  refine ⟨account, hcode ▸ resolve_accountNumber hresolve, ?_⟩
  rcases hside with hnormal | hpermits | hdeclared
  · exact Or.inl ((onNormalSide_congr hsign heq.symm hne).trans hnormal)
  · exact Or.inr (Or.inl hpermits)
  · exact Or.inr (Or.inr (contains_ofList_iff.2 ⟨reference, hdeclared, hcode⟩))

/-! ### Runs -/

theorem failures_eq_nil_iff {id : String} {result : Except InvariantViolation Unit} :
    (failures id result : List (Failure Decimal)) = [] ↔ result = .ok () := by
  cases result with
  | ok u => simp [failures]
  | error violation => simp [failures]

theorem judgeAll_cons_eq_nil_iff {serde : Serde (LedgerEvent Decimal)} {self : Runner}
    {draws : Nat → Draws} {index : Nat} {file : ScenarioFile} {rest : List ScenarioFile} :
    judgeAll (m := Option) lib serde self draws index (file :: rest) = some [] ↔
      judge (m := Option) lib serde self file (draws index) = some [] ∧
        judgeAll (m := Option) lib serde self draws (index + 1) rest = some [] := by
  rw [judgeAll]
  cases judge (m := Option) lib serde self file (draws index) with
  | none => simp
  | some found =>
      cases judgeAll (m := Option) lib serde self draws (index + 1) rest with
      | none => simp
      | some later => simp

section Runs

variable {leaves : Leaves} (hleaves : leaves.Lawful) {self : Runner} {file : ScenarioFile}
  {draws : Draws} {run : LedgerRun Decimal}

include hleaves

/-- Of an executed scenario the assertions about its log have nothing to find. -/
theorem checkLog_eq_nil (h : self.run lib file.scenario draws = some (.ok (.executed run))) :
    checkLog (m := Option) (LedgerEvent.serde leaves) file run = some [] := by
  have hstable : assertReplayStable run.events run.state = some (.ok ()) :=
    assertReplayStable_of_run (m := Option) Decimal.eq_refl h
  have htrip : assertEventsRoundTrip (LedgerEvent.serde leaves) run.events = .ok () :=
    assertEventsRoundTrip_eq_ok Decimal.eq_refl (LedgerEvent.serde_lawful hleaves) run.events
  unfold checkLog
  rw [hstable, htrip]
  split_ifs <;> rfl

theorem checkInvariants_eq_nil_iff (hfresh : Runner.FreshIds file.scenario draws)
    (h : self.run lib file.scenario draws = some (.ok (.executed run)))
    (actual : SortedMap String Decimal) :
    checkInvariants (m := Option) lib (LedgerEvent.serde leaves) self.chart file run actual =
        some [] ↔
      (file.invariants.balanced = true →
        ∀ entry ∈ run.entries, NetsToZero (signedAmounts entry.lines)) ∧
      (file.invariants.intercompanyEliminated = true →
        NetsToZero (intercompanyAmounts actual self.chart)) ∧
      ∀ e ∈ actual.entries, SideAllowed lib self.chart (declaredCodes file.scenario) e.1 e.2 := by
  have hstored := Runner.stored_of_run (m := Option) hfresh h
  have hlabels := Runner.labels_of_run (m := Option) h
  have hbalanced : ∀ entry ∈ run.entries,
      (assertBalanced entry.lines = .ok () ↔ NetsToZero (signedAmounts entry.lines)) :=
    fun entry hentry => assertBalanced_iff_netsToZero (hstored.entered hlabels hentry).1
  unfold checkInvariants
  rw [checkLog_eq_nil hleaves h]
  -- What is left is one condition for each list that was appended.
  show some _ = some [] ↔ _
  rw [Option.some.injEq, List.append_nil, List.append_eq_nil_iff, List.append_eq_nil_iff,
    failures_eq_nil_iff, assertNoUnexpectedNegativeBalances_iff, and_assoc]
  refine and_congr ?_ (and_congr ?_ Iff.rfl)
  · split_ifs with hclaimed
    · rw [List.flatMap_eq_nil_iff]
      simp only [failures_eq_nil_iff, hclaimed, true_imp_iff]
      exact forall₂_congr hbalanced
    · simp [hclaimed]
  · split_ifs with hclaimed
    · rw [failures_eq_nil_iff, assertIntercompanyEliminated_iff]
      simp [hclaimed]
    · simp [hclaimed]

theorem judgeRun_eq_nil_iff (hsign : SignsNonzero lib)
    (hvalid : file.scenario.validate (m := Option) lib self.chart = [])
    (hfresh : Runner.FreshIds file.scenario draws)
    (h : self.run lib file.scenario draws = some (.ok (.executed run))) :
    judgeRun (m := Option) lib (LedgerEvent.serde leaves) self.chart file run = some [] ↔
      Stands lib self.chart file run := by
  rcases expectable_of_validate hvalid with ⟨expected, hparse, hexpected⟩
  have hmeets : (normalize run.trialBalance).eqBy Amount.eq (normalize expected) = true ↔
      Meets lib file.scenario run := by
    rw [SortedMap.eqBy_iff eq_iff, Meets, hparse]
    simp
  unfold judgeRun Stands
  simp only [hparse]
  by_cases heq : (normalize run.trialBalance).eqBy Amount.eq (normalize expected) = true
  · have hmet := hmeets.1 heq
    rw [if_pos heq]
    split_ifs with hdivergent
    · simp [hmet]
    · rw [checkInvariants_eq_nil_iff hleaves hfresh h]
      constructor
      · rintro ⟨hbalanced, heliminated, hsides⟩
        exact ⟨hmet, hbalanced, heliminated, fun e he _ => hsides e he⟩
      · rintro ⟨-, hbalanced, heliminated, hzeros⟩
        refine ⟨hbalanced, heliminated, fun e he => ?_⟩
        -- A balance that is not zero has the sign that was expected of it.
        by_cases hzero : e.2.toRat = 0
        · exact hzeros e he hzero
        · exact sideAllowed_of_meets hsign hexpected ((SortedMap.eqBy_iff eq_iff _ _).1 heq) he
            hzero
  · have hnot := mt hmeets.2 heq
    rw [if_neg heq]
    split_ifs with hdivergent
    · simp [hnot]
    · simp [hnot]

theorem judge_eq_nil_iff (hsign : SignsNonzero lib)
    (hvalid : file.scenario.validate (m := Option) lib self.chart = [])
    (hfresh : Runner.FreshIds file.scenario draws) :
    judge (m := Option) lib (LedgerEvent.serde leaves) self file draws = some [] ↔
      Passes lib self file draws := by
  unfold judge Passes
  cases hrun : (self.run lib file.scenario draws : Option _) with
  | none => simp
  | some result =>
      cases result with
      | error e =>
          show (if file.scenario.metadata.status = .divergent then _ else _) = _ ↔ _
          split_ifs with hdivergent <;> simp [hdivergent]
      | ok outcome =>
          cases outcome with
          | executed run => exact judgeRun_eq_nil_iff hleaves hsign hvalid hfresh hrun
          | deferred phase kinds => exact iff_of_true rfl trivial
          | blocked reason => exact iff_of_true rfl trivial

/-- From a position on, no failure is found exactly if every scenario passes. -/
theorem judgeAll_eq_nil_iff (hsign : SignsNonzero lib) {draws : Nat → Draws} :
    ∀ (files : List ScenarioFile) (index : Nat),
      (∀ file ∈ files, file.scenario.validate (m := Option) lib self.chart = []) →
      (∀ file ∈ files, ∀ i, Runner.FreshIds file.scenario (draws i)) →
      (judgeAll (m := Option) lib (LedgerEvent.serde leaves) self draws index files = some [] ↔
        ∀ i file, files[i]? = some file → Passes lib self file (draws (index + i)))
  | [], index, _, _ => by simp [judgeAll]
  | file :: rest, index, hvalid, hfresh => by
      rcases List.forall_mem_cons.1 hvalid with ⟨hvalid', hvalidRest⟩
      rcases List.forall_mem_cons.1 hfresh with ⟨hfresh', hfreshRest⟩
      have hfirst := judge_eq_nil_iff hleaves hsign hvalid' (hfresh' index)
      have ih := judgeAll_eq_nil_iff hsign rest (index + 1) hvalidRest hfreshRest
      rw [judgeAll_cons_eq_nil_iff, hfirst, ih]
      constructor
      · rintro ⟨hpasses, hlater⟩ i other hother
        cases i with
        | zero =>
            cases hother
            exact hpasses
        | succ i =>
            have hnext := hlater i other hother
            rwa [Nat.add_right_comm] at hnext
      · intro hall
        refine ⟨hall 0 file rfl, fun i other hother => ?_⟩
        have hnext := hall (i + 1) other hother
        rwa [← Nat.add_assoc, Nat.add_right_comm] at hnext

/-- The test of a category of scenarios without defects passes exactly if no scenario panics, only
divergent ones are in error or miss their expectations, and the others keep what is left to keep. -/
theorem runCategory_eq_nil_iff (hsign : SignsNonzero lib) {draws : Nat → Draws} (category : String)
    {files : List ScenarioFile}
    (hvalid : ∀ file ∈ files, file.scenario.validate (m := Option) lib self.chart = [])
    (hfresh : ∀ file ∈ files, ∀ i, Runner.FreshIds file.scenario (draws i)) :
    runCategory (m := Option) lib (LedgerEvent.serde leaves) self draws category files = some [] ↔
      ∀ i file, (inCategory category files)[i]? = some file →
        Passes lib self file (draws i) := by
  have hmem : ∀ file ∈ inCategory category files, file ∈ files :=
    fun file hfile => (List.mem_filter.1 hfile).1
  have hall := judgeAll_eq_nil_iff hleaves hsign (inCategory category files) 0
    (fun file hfile => hvalid file (hmem file hfile))
    fun file hfile => hfresh file (hmem file hfile)
  simp only [Nat.zero_add] at hall
  exact hall

end Runs

/-! ### The smallest category -/

/-- A cash sale that claims everything it can. -/
def saleFile : ScenarioFile where
  scenario := cashSale [postEntry (saleLines "1000.00") []] "1000.00" "-1000.00"
  invariants := { balanced := true, replayStable := true, intercompanyEliminated := true }

theorem signsNonzero_decimalExternals : SignsNonzero decimalExternals := by
  intro d _
  refine decide_eq_decide.2 ?_
  rw [toRat, div_lt_iff₀ (pow_scale_pos d), zero_mul, Int.cast_lt_zero]

theorem passes_saleFile :
    Passes decimalExternals { chart := smallChart } saleFile countingDraws := by
  have hvalid : saleFile.scenario.validate (m := Option) decimalExternals smallChart = [] :=
    Scenario.validate_eq_nil_iff.2 ⟨checkDocumentation_cashSale _ _ _, by decide +kernel⟩
  have hverdict : runCategory (m := Option) decimalExternals (LedgerEvent.serde Leaves.exact)
      { chart := smallChart } (fun _ => countingDraws) "core" [saleFile] = some [] := by
    decide +kernel
  have hcategory : (saleFile.scenario.category == "core") = true := by decide +kernel
  refine (runCategory_eq_nil_iff Leaves.exact_lawful signsNonzero_decimalExternals "core"
    (List.forall_mem_singleton.2 hvalid) ?_).1 hverdict 0 saleFile (by simp [inCategory, hcategory])
  exact List.forall_mem_singleton.2 fun _ => by decide +kernel

end Decimals

end Corpus

end Falkr
