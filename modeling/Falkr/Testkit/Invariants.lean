import Falkr.Events.Serialized
import Falkr.Testkit.GeneratedBalance
import Falkr.Testkit.Recorded

/-!
# Invariants — the assertions that a run of the corpus is put through

Beside `assertBalanced` these are stable replay, the round trip of events, negative balances and the
elimination of intercompany accounts.  Replay and round trip hold of every run that the runner has
executed (`assertReplayStable_of_run`, `assertEventsRoundTrip_eq_ok`); of its records, what is left
for `assertBalanced` to find is a running sum that does not end at zero
(`assertBalanced_iff_netsToZero`).

The machine decimal compares values, not digits, so `==` is written out type by type.
-/

namespace Falkr

open Lib

/-! ## Equality -/

section Equality

variable {m : Type → Type} {α : Type} [Amount m α]

/-- The derived `==` of an amount that may be missing. -/
def eqOption : Option (Money α) → Option (Money α) → Bool
  | none, none => true
  | some a, some b => a.beq b
  | _, _ => false

def JournalLine.beq (self other : JournalLine α) : Bool :=
  decide (self.account = other.account) && eqOption self.debit other.debit &&
    eqOption self.credit other.credit &&
    decide (self.sourceUsageEventIds = other.sourceUsageEventIds)

def LedgerEvent.beq : LedgerEvent α → LedgerEvent α → Bool
  | .journalEntryPosted id lines dims postedAt, .journalEntryPosted id' lines' dims' postedAt' =>
      decide (id = id') && lines.isEqv lines' JournalLine.beq && decide (dims = dims') &&
        decide (postedAt = postedAt')
  | .entryReversed originalId reversalId reason, .entryReversed originalId' reversalId' reason' =>
      decide (originalId = originalId') && decide (reversalId = reversalId') &&
        decide (reason = reason')
  | .capitalizationStatusChanged runId fromStatus toStatus policyRef,
      .capitalizationStatusChanged runId' fromStatus' toStatus' policyRef' =>
      decide (runId = runId') && decide (fromStatus = fromStatus') &&
        decide (toStatus = toStatus') && decide (policyRef = policyRef')
  | _, _ => false

def LedgerState.beq (self other : LedgerState α) : Bool :=
  self.balances.eqBy Money.beq other.balances &&
    self.entries.eqBy (fun a b => a.isEqv b JournalLine.beq) other.entries &&
    decide (self.reversed = other.reversed) && decide (self.capitalization = other.capitalization)

end Equality

/-! ## The assertions -/

section Model

variable {m : Type → Type} {α : Type} [Amount m α] [CheckedAmount α]

open CheckedAmount (display)

/-- Replaying the log into a fresh projection, twice, reproduces the live projection. -/
def assertReplayStable [Monad m] (events : List (LedgerEvent α)) (live : LedgerState α) :
    m (Except InvariantViolation Unit) := do
  let first ← replay .default events
  let second ← replay .default events
  if !first.beq second then
    pure (.error {
      invariant := .deterministicReplay
      detail := "two replays of the same log produced different projections; something outside " ++
        "the event stream is being read during replay" })
  else if !first.beq live then
    pure (.error {
      invariant := .deterministicReplay
      detail := "replaying the log did not reproduce the live projection" })
  else pure (.ok ())

/-- Events survive being written and read back unchanged. -/
def assertEventsRoundTrip (serde : Serde (LedgerEvent α)) (events : List (LedgerEvent α)) :
    Except InvariantViolation Unit :=
  events.forM fun event =>
    let json := serde.toValue event
    match serde.fromValue json with
    | .error e => .error {
        invariant := .deterministicReplay
        detail := "event failed to deserialize from " ++ json.compact ++ ": " ++ e }
    | .ok back =>
        if !back.beq event then .error {
          invariant := .deterministicReplay
          detail := "event changed across a serialization round trip: " ++ json.compact }
        else .ok ()

/-- Whether an account ends on its normal side; the scenario file is checked by the same rule. -/
def onNormalSide (lib : Externals α) (account : Account) (amount : α) : Bool :=
  Scenario.onNormalSide lib account amount

/-- No account ends on the side opposite its normal balance, unless its type permits it or the
exception was declared. -/
def assertNoUnexpectedNegativeBalances (lib : Externals α) (balances : SortedMap String α)
    (chart : ChartOfAccounts) (declared : SortedMap String Unit) : Except InvariantViolation Unit :=
  balances.entries.forM fun (reference, amount) =>
    match chart.resolve reference with
    | none => .error {
        invariant := .negativeBalance
        detail := "account " ++ lib.debug reference ++ " is not in the chart" }
    | some account =>
        if onNormalSide lib account amount || account.permitsOppositeSign ||
          declared.contains reference then .ok ()
        else .error {
          invariant := .negativeBalance
          detail := reference ++ " ends at " ++ display amount ++
            ", opposite its normal balance (" ++ account.normalBalance.asStr ++ ")" }

/-- The balances of the intercompany accounts. -/
def intercompanyAmounts (balances : SortedMap String α) (chart : ChartOfAccounts) : List α :=
  balances.entries.filterMap fun (reference, amount) =>
    if (chart.resolve reference).any Account.intercompany then some amount else none

/-- Intercompany accounts net to zero after elimination. -/
def assertIntercompanyEliminated (balances : SortedMap String α) (chart : ChartOfAccounts) :
    Except InvariantViolation Unit :=
  let intercompany := intercompanyAmounts balances chart
  if intercompany.isEmpty then .ok ()
  else do
    let total ← checkedSum .consolidationComplete intercompany Amount.zero
    if Amount.eq total (Amount.zero : α) then .ok ()
    else .error {
      invariant := .consolidationComplete
      detail := "intercompany accounts net to " ++ display total ++
        ", not zero, after elimination" }

end Model

/-! ## What the assertions accept -/

section Reflexive

variable {m : Type → Type} {α : Type} [Amount m α] (hrefl : ∀ a : α, Amount.eq a a = true)

include hrefl

theorem Money.beq_refl (a : Money α) : a.beq a = true := by
  simp [Money.beq, hrefl]

theorem eqOption_refl (a : Option (Money α)) : eqOption a a = true := by
  cases a with
  | none => rfl
  | some amount => exact Money.beq_refl hrefl amount

theorem JournalLine.beq_refl (line : JournalLine α) : line.beq line = true := by
  simp [JournalLine.beq, eqOption_refl hrefl]

theorem isEqv_lines_refl (lines : List (JournalLine α)) :
    lines.isEqv lines JournalLine.beq = true :=
  isEqv_refl (JournalLine.beq_refl hrefl) lines

theorem LedgerEvent.beq_refl (event : LedgerEvent α) : event.beq event = true := by
  cases event <;> simp [LedgerEvent.beq, isEqv_lines_refl hrefl]

theorem LedgerState.beq_refl (s : LedgerState α) : s.beq s = true := by
  have hentries : s.entries.eqBy (fun a b => a.isEqv b JournalLine.beq) s.entries = true :=
    SortedMap.eqBy_refl (fun lines => isEqv_lines_refl hrefl lines) s.entries
  simp [LedgerState.beq, SortedMap.eqBy_refl (Money.beq_refl hrefl), hentries]

/-- Events that are read back as they were pass the round trip. -/
theorem assertEventsRoundTrip_eq_ok {serde : Serde (LedgerEvent α)} (h : serde.Lawful)
    (events : List (LedgerEvent α)) : assertEventsRoundTrip serde events = .ok () := by
  refine (forM_eq_ok_iff events).2 fun event _ => ?_
  simp only [h event, LedgerEvent.beq_refl hrefl, Bool.not_true, Bool.false_eq_true, if_false]

section Runs

variable [Monad m] [LawfulMonad m] [Returning m] {lib : Externals α} {scenario : Scenario}
  {draws : Draws}

open Returning

omit hrefl in
/-- The state of an executed scenario is what its log replays to. -/
theorem replay_events_of_run {self : Runner} {run : LedgerRun α}
    (h : self.run lib scenario draws = (pure (.ok (.executed run)) : m _)) :
    replay .default run.events = (pure run.state : m _) := by
  let Inv : Nat → Runner.Progress α → Prop := fun _ p =>
    replay .default p.events = (pure p.state : m _)
  -- The runner goes on over its operations; a refused one leaves log and state as they are.
  have hend : Inv scenario.operations.length run.progress := by
    refine Runner.invariant_of_run h rfl fun index op p p' hop hp hstep => ?_
    cases hstep with
    | refused hbuilt hexpect => exact hp
    | accepted hbuilt hexpect hevent hpermits happly =>
        show (p.events ++ [_]).foldlM applyEvent .default = (pure _ : m _)
        have hp' : p.events.foldlM applyEvent .default = (pure p.state : m _) := hp
        simp [List.foldlM_append, hp', happly]
  exact hend

theorem assertReplayStable_of_run {self : Runner} {run : LedgerRun α}
    (h : self.run lib scenario draws = (pure (.ok (.executed run)) : m _)) :
    assertReplayStable run.events run.state = (pure (.ok ()) : m _) := by
  have hreplay := replay_events_of_run h
  have hbeq : run.state.beq run.state = true := LedgerState.beq_refl hrefl run.state
  simp only [assertReplayStable, hreplay, pure_bind, hbeq, Bool.not_true, Bool.false_eq_true,
    if_false]

end Runs

end Reflexive

/-! ## Machine decimals -/

section Decimals

open Decimal

variable {lib : Externals Decimal} {chart : ChartOfAccounts}

theorem Decimal.eq_refl (a : Decimal) : Amount.eq a a = true :=
  (eq_iff a a).2 rfl

/-- Adding the amounts up one after the other does not overflow and ends at zero. -/
def NetsToZero (amounts : List Decimal) : Prop :=
  ∃ sum, total amounts = some sum ∧ sum.toRat = 0

/-- The last step of the checks that add amounts up. -/
theorem checkedSum_bind_iff (inv : Invariant) (amounts : List Decimal)
    (violation : Decimal → InvariantViolation) :
    (checkedSum inv amounts Amount.zero >>= fun sum =>
      if Amount.eq sum (Amount.zero : Decimal) then .ok () else .error (violation sum)) = .ok () ↔
        NetsToZero amounts := by
  constructor
  · intro h
    rcases bind_eq_ok h with ⟨sum, hsum, hzero⟩
    refine ⟨sum, checkedSum_eq_ok_iff.1 hsum, ?_⟩
    -- The sum was compared with zero by value, whatever its scale.
    split_ifs at hzero with heq
    rw [(eq_iff _ _).1 heq, toRat_zero]
  · rintro ⟨sum, hsum, hzero⟩
    have heq : Amount.eq sum (Amount.zero : Decimal) = true :=
      (eq_iff _ _).2 (by rw [hzero, toRat_zero])
    rw [checkedSum_eq_ok_iff.2 hsum]
    show (if Amount.eq sum (Amount.zero : Decimal) then _ else _) = _
    rw [if_pos heq]

theorem assertIntercompanyEliminated_iff (balances : SortedMap String Decimal) :
    assertIntercompanyEliminated balances chart = .ok () ↔
      NetsToZero (intercompanyAmounts balances chart) := by
  unfold assertIntercompanyEliminated
  -- Without intercompany accounts there is nothing to add up, and zero is what it comes to.
  by_cases hempty : intercompanyAmounts balances chart = []
  · simp [hempty, NetsToZero, total]
  · have hfalse : (intercompanyAmounts balances chart).isEmpty = false := by simp [hempty]
    simp only [hfalse, Bool.false_eq_true, if_false]
    exact checkedSum_bind_iff _ _ _

/-! ### Balanced entries -/

theorem OneSidedIn.signedIn {c : Currency} {line : JournalLine Decimal} (h : OneSidedIn c line) :
    SignedIn c line := by
  rcases Option.map_eq_some_iff.1 h.currency with ⟨amount, hamount, rfl⟩
  exact ⟨amount.amount, hamount⟩

/-- Of one-sided lines in one currency, only what they add up to is left to check. -/
theorem assertBalanced_iff_netsToZero {lines : List (JournalLine Decimal)}
    (h : Runner.Entered lines) :
    assertBalanced lines = .ok () ↔ NetsToZero (signedAmounts lines) := by
  rcases h.sided with ⟨c, hsided⟩
  have hsigned : ∀ line ∈ lines, SignedIn c line := fun line hline => (hsided line hline).signedIn
  exact (assertBalanced_iff_of_signedIn hsigned).trans (and_iff_right h.nonempty)

/-! ### Normal sides -/

/-- What an account is let off with. -/
def SideAllowed (lib : Externals Decimal) (chart : ChartOfAccounts)
    (declared : SortedMap String Unit) (reference : String) (amount : Decimal) : Prop :=
  ∃ account, chart.resolve reference = some account ∧
    (onNormalSide lib account amount = true ∨ account.permitsOppositeSign = true ∨
      declared.contains reference = true)

theorem assertNoUnexpectedNegativeBalances_iff (balances : SortedMap String Decimal)
    (declared : SortedMap String Unit) :
    assertNoUnexpectedNegativeBalances lib balances chart declared = .ok () ↔
      ∀ e ∈ balances.entries, SideAllowed lib chart declared e.1 e.2 := by
  -- The loop stops at the first balance that is refused, so it ends if none is.
  refine (forM_eq_ok_iff balances.entries).trans (forall₂_congr fun e _ => ?_)
  rcases e with ⟨reference, amount⟩
  unfold SideAllowed
  dsimp only
  cases hresolve : chart.resolve reference with
  | none => simp
  | some account =>
      simp only [Option.some.injEq, exists_eq_left', Bool.or_eq_true, or_assoc]
      split_ifs with hallowed <;> simp [hallowed]

end Decimals

end Falkr
