import Falkr.Lib.Digits
import Falkr.Lib.Text
import Mathlib.Data.String.Basic

/-!
# Catalog — the operation vocabulary

Every operation kind a scenario may use, with the milestone that delivers it.  A phase is printed
with two digits, and read from other spellings too (`Phase.readsBack_iff`).
-/

namespace Falkr

open Lib

/-- A roadmap milestone. -/
structure Phase where
  number : Nat
  deriving DecidableEq, Repr

namespace Phase

def p02 : Phase := ⟨2⟩
def p03 : Phase := ⟨3⟩
def p04 : Phase := ⟨4⟩
def p05 : Phase := ⟨5⟩
def p06 : Phase := ⟨6⟩
def p07 : Phase := ⟨7⟩
def p08 : Phase := ⟨8⟩
def p09 : Phase := ⟨9⟩
def p10 : Phase := ⟨10⟩
def p11 : Phase := ⟨11⟩
def p12 : Phase := ⟨12⟩
def p15 : Phase := ⟨15⟩
def p18 : Phase := ⟨18⟩

/-- The last milestone whose features exist. -/
def deliveredThrough : Phase := p02

/-- Whether operations delivered by this phase can be executed. -/
def isDelivered (self : Phase) : Bool :=
  self.number ≤ deliveredThrough.number

def display (self : Phase) : String :=
  "P" ++ (if self.number < 10 then "0" else "") ++ toString self.number

/-- The later of two phases. -/
def max (self other : Phase) : Phase :=
  if self.number < other.number then other else self

end Phase

/-! ## Identifiers -/

/-- The text that is not a phase identifier. -/
structure PhaseParseError where
  text : String
  deriving DecidableEq

def PhaseParseError.display (self : PhaseParseError) : String :=
  "`" ++ self.text ++ "` is not a phase identifier; expected P02..P21"

namespace Phase

/-- Reads a phase identifier. -/
def fromStr (s : String) : Except PhaseParseError Phase :=
  match ((stripChar 'P' s).bind (parseUnsigned (2 ^ 8))).filter fun n => 2 ≤ n ∧ n ≤ 21 with
  | some n => .ok ⟨n⟩
  | none => .error ⟨s⟩

theorem fromStr_eq_ok_iff {s : String} {phase : Phase} :
    fromStr s = .ok phase ↔
      ∃ numeral digits, s.toList = 'P' :: numeral ∧ Numeral numeral digits ∧
        readDigits 10 digits 0 = phase.number ∧ 2 ≤ phase.number ∧ phase.number ≤ 21 := by
  have hread : fromStr s = .ok phase ↔
      ((stripChar 'P' s).bind (parseUnsigned (2 ^ 8))).filter (fun n => 2 ≤ n ∧ n ≤ 21) =
        some phase.number := by
    unfold fromStr
    split
    · rename_i n hn
      rw [hn, Option.some.injEq, Except.ok.injEq]
      constructor
      · rintro rfl
        rfl
      · rintro rfl
        rfl
    · rename_i hn
      rw [hn]
      exact iff_of_false (by simp) (by simp)
  rw [hread, Option.filter_eq_some_iff, Option.bind_eq_some_iff]
  simp only [decide_eq_true_eq]
  constructor
  · rintro ⟨⟨rest, hrest, hn⟩, hrange⟩
    rcases parseUnsigned_eq_some_iff.1 hn with ⟨digits, hnumeral, hvalue, -⟩
    exact ⟨rest.toList, digits, stripChar_eq_some_iff.1 hrest, hnumeral, hvalue, hrange⟩
  · rintro ⟨numeral, digits, hs, hnumeral, hvalue, hrange⟩
    refine ⟨⟨String.ofList numeral, stripChar_eq_some_iff.2 (by simpa using hs), ?_⟩, hrange⟩
    exact parseUnsigned_eq_some_iff.2 ⟨digits, by simpa using hnumeral, hvalue, by omega⟩

/-- The text is the printed form of the phase it is read as, and the printed form of a phase is
read as that phase. -/
def ReadsBack (s : String) : Prop :=
  (∀ phase, fromStr s = .ok phase → phase.display = s) ∧
    ∀ phase : Phase, 2 ≤ phase.number → phase.number ≤ 21 → phase.display = s →
      fromStr s = .ok phase

/-- A numeral of a phase after a `P` is two digits, without a sign. -/
def TwoDigits (s : String) : Prop :=
  ∀ numeral digits, s.toList = 'P' :: numeral → Numeral numeral digits →
    2 ≤ readDigits 10 digits 0 → readDigits 10 digits 0 ≤ 21 →
      numeral = digits ∧ digits.length = 2

theorem toList_display {phase : Phase} (hlow : 2 ≤ phase.number) (hhigh : phase.number ≤ 21) :
    phase.display.toList = 'P' :: padded 10 2 phase.number := by
  rcases phase with ⟨n⟩
  have hall : ∀ n < 22, (display ⟨n⟩).toList = 'P' :: padded 10 2 n := by
    decide +kernel
  exact hall n (Nat.lt_succ_of_le hhigh)

/-- What is printed are two digits, which are read again. -/
theorem fromStr_display {phase : Phase} (hlow : 2 ≤ phase.number) (hhigh : phase.number ≤ 21) :
    fromStr phase.display = .ok phase := by
  have hlength : (padded 10 2 phase.number).length = 2 :=
    length_padded (by omega) (by omega) (by omega)
  refine fromStr_eq_ok_iff.2 ⟨_, padded 10 2 phase.number, toList_display hlow hhigh, ?_, ?_, hlow,
    hhigh⟩
  · refine ⟨Or.inl rfl, ?_, fun _ => isDigit_of_mem_padded⟩
    exact List.ne_nil_of_length_pos (by omega)
  · exact readDigits_padded (by omega) (by omega) 2 _

/-- Only the spelling with two digits is printed again as it was. -/
theorem readsBack_iff (s : String) : ReadsBack s ↔ TwoDigits s := by
  constructor
  · rintro ⟨hprinted, -⟩ numeral digits hs hnumeral hlow hhigh
    have hok := fromStr_eq_ok_iff.2 ⟨numeral, digits, hs, hnumeral, rfl, hlow, hhigh⟩
    have hdisplay := congrArg String.toList (hprinted _ hok)
    rw [toList_display hlow hhigh, hs] at hdisplay
    have hpadded : padded 10 2 (readDigits 10 digits 0) = numeral := (List.cons.inj hdisplay).2
    have hlength : numeral.length = 2 := by
      rw [← hpadded]
      exact length_padded (by omega) (by omega) (by omega)
    rcases hnumeral.spelled with heq | hplus
    · exact ⟨heq, heq ▸ hlength⟩
    · -- Printing puts no sign in front.
      have hdigit : '+' ∈ padded 10 2 (readDigits 10 digits 0) := by simp [hpadded, hplus]
      cases isDigit_of_mem_padded hdigit
  · intro htwo
    constructor
    · intro phase hok
      rcases fromStr_eq_ok_iff.1 hok with ⟨numeral, digits, hs, hnumeral, hvalue, hlow, hhigh⟩
      rcases htwo numeral digits hs hnumeral (by omega) (by omega) with ⟨heq, hlength⟩
      have hpadded := padded_readDigits hnumeral.ne_nil hnumeral.isDigit
      rw [hlength, hvalue] at hpadded
      refine String.toList_inj.1 ?_
      rw [toList_display hlow hhigh, hpadded, hs, heq]
    · rintro phase hlow hhigh rfl
      exact fromStr_display hlow hhigh

/-- A sign, a missing digit and a zero in front: three further spellings of one phase. -/
theorem fromStr_respelled :
    fromStr "P+2" = .ok p02 ∧ fromStr "P2" = .ok p02 ∧ fromStr "P002" = .ok p02 ∧
      p02.display = "P02" ∧ ¬ReadsBack "P+2" := by
  refine ⟨by decide +kernel, by decide +kernel, by decide +kernel, by decide +kernel, ?_⟩
  rintro ⟨hprinted, -⟩
  have hsame := hprinted p02 (by decide +kernel)
  revert hsame
  decide +kernel

end Phase

/-- One operation kind. -/
structure OperationSpec where
  kind : String
  phase : Phase
  summary : String
  deriving DecidableEq, Repr

namespace Catalog

def op (kind : String) (phase : Phase) (summary : String) : OperationSpec where
  kind := kind
  phase := phase
  summary := summary

/-- Every operation kind, by phase. -/
def operations : List OperationSpec := [
    -- P02: the ledger primitives that exist today
    op "post_entry" .p02 "Post an explicit, hand-written journal entry",
    op "reverse_entry" .p02 "Reverse a previously posted entry by its `ref`",
    op "set_capitalization" .p02 "Change a run's capitalize-vs-expense status",
    -- P03: chart of accounts and the posting engine
    op "open_balances" .p03 "Seed opening balances for a period (posts against opening equity)",
    op "post_by_rule" .p03 "Post an entry derived from a business event by a posting rule",
    op "void_entry" .p03 "Void an entry before it is posted (distinct from reversing a posted one)",
    -- P04: period close and controls
    op "advance_to" .p04 "Move the scenario clock to a date",
    op "accrue" .p04 "Post an accrual",
    op "reverse_accrual" .p04 "Auto-reverse an accrual in the following period",
    op "amortize_prepaid" .p04 "Run one period of a prepaid amortization schedule",
    op "close_period" .p04 "Close a period for a book",
    op "close_year" .p04 "Close revenue and expense to retained earnings",
    op "lock_subledger" .p04 "Lock one subledger while leaving GL open",
    op "post_close_adjustment" .p04 "Post an adjustment into a closed period",
    op "reopen_period" .p04 "Reopen a closed period",
    op "attempt_mutation" .p04 "Attempt a mutation that must be refused, naming the entry point",
    op "restate" .p04 "Big-R restatement of a prior issued period",
    op "revise" .p04 "little-r revision recorded in the current period",
    -- P05: multi-currency and FX
    op "set_fx_rate" .p05 "Publish an FX rate for a date",
    op "revalue_monetary" .p05 "ASC 830 period-end remeasurement of monetary balances",
    op "translate_entity" .p05 "Translate a foreign entity's balances, producing CTA",
    op "settle_balance" .p05 "Settle a foreign-currency balance, realizing FX",
    op "flag_long_term_intercompany" .p05
      "Mark or unmark an intercompany balance as long-term-investment nature",
    op "mark_currency_non_exchangeable" .p05 "IAS 21 lack-of-exchangeability estimation",
    op "release_cta" .p05 "Release CTA to income on disposal of a foreign operation",
    -- P06: revenue recognition
    op "create_contract" .p06 "Open an ASC 606 contract",
    op "allocate_price" .p06 "Allocate the transaction price across performance obligations",
    op "invoice" .p06 "Raise an invoice",
    op "recognize_ratably" .p06 "Recognize one period of a ratable schedule",
    op "record_usage" .p06 "Record metered usage",
    op "sell_credits" .p06 "Sell prepaid credits, possibly at a discount",
    op "consume_credits" .p06 "Consume prepaid credits",
    op "expire_credits" .p06 "Expire unconsumed credits",
    op "true_up_commitment" .p06 "True up a minimum commitment against actual usage",
    op "modify_contract" .p06 "Apply a contract modification (prospective or cumulative catch-up)",
    op "issue_credit_memo" .p06 "Issue a credit memo against an invoice",
    op "record_agent_revenue" .p06 "Record resold third-party inference gross or net",
    -- P07: accounts receivable
    op "receive_payment" .p07 "Apply cash to a receivable",
    op "record_cecl_allowance" .p07 "Record or adjust the CECL allowance",
    op "write_off_receivable" .p07 "Write a receivable off against the allowance",
    -- P08: accounts payable
    op "receive_goods" .p08 "Goods receipt into GR/IR",
    op "record_vendor_invoice" .p08 "Record a vendor invoice",
    op "pay_vendor" .p08 "Pay a vendor invoice",
    -- P09: fixed assets, capitalization, leases
    op "acquire_asset" .p09 "Acquire a depreciable asset",
    op "place_in_service" .p09 "Place an asset in service on a date",
    op "depreciate" .p09 "Run one period of depreciation",
    op "change_useful_life" .p09 "Change an asset's remaining life (prospective only)",
    op "test_impairment" .p09 "Run the two-step long-lived asset impairment test",
    op "dispose_asset" .p09 "Dispose of an asset, fully or partly",
    op "commence_lease" .p09 "Recognize a lease at commencement",
    op "identify_embedded_lease" .p09
      "Identify a lease embedded in a services contract and separate its components",
    op "lease_payment" .p09 "Record one lease payment period",
    op "remeasure_lease" .p09 "Remeasure a lease on a change in term or payments",
    op "record_commitment_disclosure" .p09
      "Record a non-lease purchase commitment for the ASC 440 table",
    -- P10: tax determination
    op "determine_tax" .p10 "Run tax determination on a sale",
    op "apply_exemption_certificate" .p10 "Apply (or fail to apply) an exemption certificate",
    op "record_withholding" .p10 "Record withholding tax on an inbound payment",
    -- P11: payroll and equity compensation
    op "run_payroll" .p11 "Run one payroll",
    op "accrue_bonus" .p11 "Accrue a bonus",
    op "pay_bonus" .p11 "Pay an accrued bonus",
    op "grant_equity" .p11 "Grant options or RSUs",
    op "vest_tranche" .p11 "Recognize one vesting tranche",
    op "forfeit_grant" .p11 "Forfeit an unvested grant",
    op "liquidity_event" .p11 "Satisfy the second trigger on double-trigger RSUs",
    op "modify_grant" .p11 "Reprice or otherwise modify a grant",
    op "early_exercise" .p11 "Early-exercise unvested options",
    -- P12: consolidation and intercompany
    op "eliminate_intercompany" .p12 "Eliminate intercompany balances and profit",
    op "attribute_to_nci" .p12
      "Attribute income and unrealized profit to non-controlling interests",
    op "consolidate" .p12 "Roll subsidiaries up to the parent",
    op "record_equity_method" .p12 "Record an equity-method investee's results",
    -- P15: reporting
    op "assert_export" .p15 "Produce a statutory export and reconcile it to the ledger"]

/-- Looks up an operation kind. -/
def spec (kind : String) : Option OperationSpec :=
  operations.find? fun o => o.kind == kind

/-- The kinds delivered so far are the three that the runner has handlers for. -/
theorem kind_of_delivered {kind : String} {found : OperationSpec} (h : spec kind = some found)
    (hdelivered : found.phase.isDelivered = true) :
    kind = "post_entry" ∨ kind = "reverse_entry" ∨ kind = "set_capitalization" := by
  have hmem : found ∈ operations := List.mem_of_find?_eq_some h
  have hkind : found.kind = kind := by simpa using List.find?_some h
  have hall : ∀ o ∈ operations, o.phase.isDelivered = true →
      o.kind = "post_entry" ∨ o.kind = "reverse_entry" ∨ o.kind = "set_capitalization" := by
    decide +kernel
  exact hkind ▸ hall found hmem hdelivered

end Catalog

end Falkr
