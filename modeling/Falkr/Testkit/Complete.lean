import Falkr.Events.Replay
import Falkr.Testkit.ReversalRows

/-!
# Complete — the extract of a scenario in one currency holds every line of the log

Exact arithmetic.  The extract is built from the records and the labels, the trial balance from the
state that the log replays to.  Rows and logged lines correspond one to one, and the balances are
sums of logged lines, so the extract reconciles (`complete_of_run`).
-/

namespace Falkr

open Lib

namespace Runner

section Model

variable {lib : Externals ℚ} {chart : ChartOfAccounts} {scenario : Scenario} {currency : Currency}
  {draws : Draws}

/-! ## The log of a run -/

/-- No line of a posting overrides the functional currency by another one. -/
def InFunctional (lib : Externals ℚ) (scenario : Scenario) : Prop :=
  ∀ op ∈ scenario.operations, op.kind = "post_entry" → ∀ lines ∈ (op.lines lib).toOption,
    ∀ line ∈ lines, ∀ code ∈ line.currency,
      Currency.fromCode code = Currency.fromCode scenario.setup.functionalCcy

instance (lib : Externals ℚ) (scenario : Scenario) : Decidable (InFunctional lib scenario) :=
  inferInstanceAs (Decidable (∀ op ∈ scenario.operations, op.kind = "post_entry" →
    ∀ lines ∈ (op.lines lib).toOption, ∀ line ∈ lines, ∀ code ∈ line.currency,
      Currency.fromCode code = Currency.fromCode scenario.setup.functionalCcy))

theorem currency_of_mapM {raw : Option String} {amount : Option (Money ℚ)}
    (h : raw.mapM (lineAmount lib scenario currency) = .ok amount) :
    ∀ money ∈ amount, money.currency = currency := by
  cases raw with
  | none =>
      cases h
      simp
  | some text =>
      cases hread : lib.fromStrExact text with
      | error e => simp [lineAmount, hread] at h
      | ok value =>
          simp only [Option.mapM_some, lineAmount, hread] at h
          cases h
          simp

theorem currency_of_journalLine {id : AccountId} {line : ScenarioLine} {built : JournalLine ℚ}
    (hline : ∀ code ∈ line.currency, Currency.fromCode code = some currency)
    (h : journalLine lib scenario id line currency = .ok built) :
    ∀ amount ∈ built.signedAmount, amount.currency = currency := by
  rcases bind_eq_ok h with ⟨c, hc, hrest⟩
  rcases bind_eq_ok hrest with ⟨debit, hdebit, hrest⟩
  rcases bind_eq_ok hrest with ⟨credit, hcredit, hrest⟩
  -- The override, if there is one, names the functional currency.
  have hsame : c = currency := by
    unfold lineCurrency at hc
    cases hcode : line.currency with
    | none => simpa [hcode, eq_comm] using hc
    | some code => simpa [hcode, hline code hcode, eq_comm] using hc
  subst hsame
  have hdebits := currency_of_mapM hdebit
  have hcredits := currency_of_mapM hcredit
  cases hrest
  cases debit <;> cases credit <;> simp_all [JournalLine.signedAmount]

theorem currency_of_buildLines :
    ∀ (raw : List ScenarioLine) (labels : SortedMap AccountId String)
      (lines : List (JournalLine ℚ)) (labels' : SortedMap AccountId String),
      (∀ line ∈ raw, ∀ code ∈ line.currency, Currency.fromCode code = some currency) →
      buildLines lib chart scenario currency raw labels = .ok (lines, labels') →
      ∀ line ∈ lines, ∀ amount ∈ line.signedAmount, amount.currency = currency
  | [], labels, lines, labels', _, h => by
      cases h
      simp
  | first :: rest, labels, lines, labels', hraw, h => by
      rcases List.forall_mem_cons.1 hraw with ⟨hfirst, hrest⟩
      unfold buildLines at h
      cases hresolve : chart.resolve first.account with
      | none => simp [hresolve] at h
      | some account =>
          simp only [hresolve] at h
          rcases bind_eq_ok h with ⟨built, hbuilt, hlater⟩
          rcases bind_eq_ok hlater with ⟨⟨later, labels''⟩, hlines, hpair⟩
          cases hpair
          exact List.forall_mem_cons.2 ⟨currency_of_journalLine hfirst hbuilt,
            currency_of_buildLines rest _ later _ hrest hlines⟩

/-- What the log of a run in one currency satisfies. -/
structure Logged (currency : Currency) (p : Progress ℚ) : Prop where
  accepted : AcceptedLog LedgerState.default p.events
  state : p.state = (replay LedgerState.default p.events).run
  currency : ∀ event ∈ p.events, InCurrencies (fun _ => currency) event

theorem accepts_of_permits {s : LedgerState ℚ} {event : LedgerEvent ℚ}
    (h : Permits (m := Id) s event) : Accepts s event := by
  cases event with
  | journalEntryPosted id lines dims postedAt => exact WellFormedEntry.balanced_rat h
  | entryReversed | capitalizationStatusChanged => exact h

theorem Logged.append {p : Progress ℚ} (h : Logged currency p) {event : LedgerEvent ℚ}
    {state : LedgerState ℚ} {entries : List (EntryRecord ℚ)} {labels : SortedMap AccountId String}
    (hpermits : Permits (m := Id) p.state event) (happly : (applyEvent p.state event).run = state)
    (hcurrency : InCurrencies (fun _ => currency) event) :
    Logged currency
      { p with
        state := state
        events := p.events ++ [event]
        entries := entries
        labels := labels } where
  accepted := by
    rw [acceptedLog_append]
    exact ⟨h.accepted, h.state ▸ accepts_of_permits hpermits, trivial⟩
  state := by
    rw [replay_append, ← h.state, ← happly]
    simp [replay]
  currency := by
    intro e he
    rcases List.mem_append.1 he with hold | hlast
    · exact h.currency e hold
    · cases List.mem_singleton.1 hlast
      exact hcurrency

theorem Logged.stepped {index : Nat} {op : Operation} {p p' : Progress ℚ}
    (h : Logged currency p) (hcode : Currency.fromCode scenario.setup.functionalCcy = some currency)
    (hfunctional : InFunctional lib scenario) (hop : scenario.operations[index]? = some op)
    (hstep : Stepped (m := Id) lib chart scenario currency draws index op p p') :
    Logged currency p' := by
  cases hstep with
  | refused hbuilt hexpect => exact ⟨h.accepted, h.state, h.currency⟩
  | accepted hbuilt hexpect hevent hpermits happly =>
      refine h.append hpermits happly ?_
      cases hbuilt with
      | post hkind hlines =>
          subst hevent
          rcases buildLines_of_journalLines hlines with ⟨raw, hraw, hbuilt⟩
          refine currency_of_buildLines raw _ _ _ (fun line hline code hcode' => ?_) hbuilt
          rw [← hcode]
          exact hfunctional op (List.mem_of_getElem? hop) hkind raw
            (by simp [hraw, Except.toOption]) line hline code hcode'
      | reverse =>
          subst hevent
          exact trivial
      | capitalize =>
          subst hevent
          exact trivial

theorem logged_of_run {self : Runner} {run : LedgerRun ℚ} (hfunctional : InFunctional lib scenario)
    (h : self.run lib scenario draws = (pure (.ok (.executed run)) : Id _)) :
    Logged run.currency run.progress := by
  rcases runOperations_of_run h with ⟨hcode, -, -⟩
  refine invariant_of_run h ?_ fun index op p p' hop hp hstep =>
    Logged.stepped hp hcode hfunctional hop hstep
  exact ⟨trivial, by simp [start, replay], by simp [start]⟩

theorem introduced_eq {index : Nat} {p : Progress ℚ} (h : Stored scenario draws index p) :
    introduced p.events = p.entries.map EntryRecord.entryId := by
  have hfilter : introduced p.events = introduced (p.events.filter isEntry) := by
    unfold introduced
    rw [List.filterMap_filter]
    refine List.filterMap_congr fun event _ => ?_
    cases event <;> simp [isEntry, introduces]
  rw [hfilter]
  have hall : ∀ {entries : List (EntryRecord ℚ)} {events : List (LedgerEvent ℚ)}
      {records : List (EntryRecord ℚ)}, List.Forall₂ (RecordOf entries) events records →
        introduced events = records.map EntryRecord.entryId := by
    intro entries events records hrecords
    induction hrecords with
    | nil => rfl
    | @cons event record _ _ hfirst hrest ih =>
        have hid : introduces event = some record.entryId := by
          cases event with
          | journalEntryPosted id lines dims postedAt => exact congrArg some hfirst.1.symm
          | entryReversed originalId reversalId reason => exact congrArg some hfirst.1.symm
          | capitalizationStatusChanged runId fromStatus toStatus policyRef => cases hfirst
        rw [introduced, List.filterMap_cons_some hid, List.map_cons, ← ih]
        rfl
  exact hall h.records

theorem agrees_of_logged {index : Nat} {p : Progress ℚ} (h : Logged currency p)
    (hstored : Stored scenario draws index p) : Agrees (fun _ => currency) p.events p.state := by
  rw [h.state]
  refine agrees_replay p.events h.accepted.postsBalanced ?_ h.accepted.refersBack h.currency
  rw [introduced_eq hstored]
  exact hstored.distinct

end Model

end Runner

namespace AdsExtract

open Runner

section Model

variable {lib : Externals ℚ} {chart : ChartOfAccounts} {scenario : Scenario} {currency : Currency}
  {draws : Draws} {run : LedgerRun ℚ}

/-! ## Rows and logged lines -/

/-- The lines that the events of a log stand for, each beside its event. -/
def loggedLines (log : List (LedgerEvent ℚ)) : List (LedgerEvent ℚ × JournalLine ℚ) :=
  log.flatMap fun event => (eventLines log event).map fun line => (event, line)

/-- The row of a logged line, under the record of the entry that the event introduced. -/
def RowOf (lib : Externals ℚ) (run : LedgerRun ℚ) (logged : LedgerEvent ℚ × JournalLine ℚ)
    (row : GlDetailRow) : Prop :=
  ∃ entry ∈ run.entries, RecordOf run.entries logged.1 entry ∧ RowAt lib run entry logged.2 row

theorem eventLines_of_recordOf (hstored : Stored scenario draws index run.progress)
    (hagrees : Agrees (fun _ => currency) run.events run.state) {event : LedgerEvent ℚ}
    {entry : EntryRecord ℚ} (h : RecordOf run.entries event entry) :
    eventLines run.events event = entry.lines := by
  cases event with
  | journalEntryPosted id lines dims postedAt => exact h.2.1.symm
  | entryReversed originalId reversalId reason =>
      rcases h with ⟨-, -, original, horiginal, hlines⟩
      have hget : entryLines run.events originalId = some original :=
        (hagrees.entries originalId).symm.trans ((hstored.entries originalId).trans horiginal)
      simp [eventLines, hget, hlines]
  | capitalizationStatusChanged runId fromStatus toStatus policyRef => cases h

theorem forall₂_glDetail (hstored : Stored scenario draws index run.progress)
    (hlabels : Labels lib chart run.labels run.state)
    (hagrees : Agrees (fun _ => currency) run.events run.state) :
    List.Forall₂ (RowOf lib run) (loggedLines run.events) (fromRun lib run chart).glDetail := by
  -- A status change stands for no lines.
  have hnil : ∀ event ∈ run.events, isEntry event = false →
      (eventLines run.events event).map (fun line => (event, line)) = [] := by
    intro event _ hentry
    cases event with
    | journalEntryPosted => cases hentry
    | entryReversed => cases hentry
    | capitalizationStatusChanged => rfl
  rw [loggedLines, ← flatMap_filter hnil]
  -- Entry by entry: the records stand in the order of their events.
  refine List.rel_flatMap (forall₂_mem hstored.records) ?_
  rintro event entry ⟨hentry, hrecord⟩
  have hrows : List.Forall₂ (RowAt lib run entry) entry.lines (entryRows lib run entry) :=
    forall₂_entryRows (hstored.entered hlabels hentry).1
  show List.Forall₂ (RowOf lib run)
    ((eventLines run.events event).map fun line => (event, line)) (entryRows lib run entry)
  rw [eventLines_of_recordOf hstored hagrees hrecord, List.forall₂_map_left_iff]
  exact hrows.imp fun line row hrow => ⟨entry, hentry, hrecord, hrow⟩

/-! ## What rows add up to -/

/-- The reader reads back what is displayed. -/
def ReadsBack (lib : Externals ℚ) : Prop :=
  ∀ a : ℚ, lib.fromStrExact (CheckedAmount.display a) = .ok a

theorem signed_of_rowOf (hreads : ReadsBack lib) {logged : LedgerEvent ℚ × JournalLine ℚ}
    {row : GlDetailRow} (h : RowOf lib run logged row) :
    row.signed lib = some (Falkr.lineAmount logged.2) ∧
      row.accountNumber = accountNumber (labelOf run.labels logged.2.account) := by
  rcases h with ⟨entry, -, -, index, -, hrow⟩
  rcases Option.map_eq_some_iff.1 hrow with ⟨signed, hsigned, rfl⟩
  refine ⟨?_, rfl⟩
  -- Whatever the sign test says, the indicator undoes what the magnitude did.
  cases hnegative : lib.isSignNegative signed.amount with
  | true =>
      simp [GlDetailRow.signed, GlDetailRow.parsed, hreads _, Except.toOption, magnitude,
        hnegative, Falkr.lineAmount, hsigned]
  | false =>
      simp [GlDetailRow.signed, GlDetailRow.parsed, hreads _, Except.toOption, magnitude,
        hnegative, Falkr.lineAmount, hsigned]

theorem total_of_forall₂ (hreads : ReadsBack lib)
    {logged : List (LedgerEvent ℚ × JournalLine ℚ)} {rows : List GlDetailRow}
    (h : List.Forall₂ (RowOf lib run) logged rows) (passes : String → Bool) :
    total (GlDetailRow.signed lib) (rows.filter fun row => passes row.accountNumber) =
      ((logged.filter fun e => passes (accountNumber (labelOf run.labels e.2.account))).map
        fun e => Falkr.lineAmount e.2).sum := by
  induction h with
  | nil => simp [total]
  | cons hfirst hrest ih =>
      rcases signed_of_rowOf hreads hfirst with ⟨hsigned, hnumber⟩
      unfold total at ih ⊢
      rw [List.filter_cons, List.filter_cons, hnumber]
      split_ifs
      · rw [List.map_cons, List.sum_cons, ih, List.map_cons, List.sum_cons, hsigned,
          Option.getD_some]
      · exact ih

/-- The two sides differ by what the rows add up to. -/
theorem total_debits_sub_credits :
    ∀ rows : List GlDetailRow, total (GlDetailRow.parsed lib) (debitRows rows) -
      total (GlDetailRow.parsed lib) (creditRows rows) = total (GlDetailRow.signed lib) rows
  | [] => by simp [total, debitRows, creditRows]
  | row :: rest => by
      have ih := total_debits_sub_credits rest
      unfold total debitRows creditRows at ih ⊢
      cases hside : row.indicator == "D" with
      | true =>
          have hsigned : (row.signed lib).getD 0 = (row.parsed lib).getD 0 := by
            cases hparsed : row.parsed lib <;> simp [GlDetailRow.signed, hparsed, hside]
          simp only [List.filter_cons, hside, if_true, Bool.not_true, Bool.false_eq_true, if_false,
            List.map_cons, List.sum_cons, hsigned, ← ih]
          ring
      | false =>
          have hsigned : (row.signed lib).getD 0 = -(row.parsed lib).getD 0 := by
            cases hparsed : row.parsed lib <;> simp [GlDetailRow.signed, hparsed, hside]
          simp only [List.filter_cons, hside, if_true, Bool.not_false, Bool.false_eq_true, if_false,
            List.map_cons, List.sum_cons, hsigned, ← ih]
          ring

theorem logSum_eq (log : List (LedgerEvent ℚ)) (a : AccountId) :
    logSum log a = (((loggedLines log).filter fun e => e.2.account = a).map
      fun e => Falkr.lineAmount e.2).sum := by
  rw [loggedLines, List.filter_flatMap, sum_flatMap, logSum]
  refine congrArg List.sum (List.map_congr_left fun event _ => ?_)
  rw [List.filter_map, List.map_map]
  rfl

/-- Entry by entry the lines add up to zero. -/
theorem sum_loggedLines (hposts : ∀ event ∈ run.events, PostsBalanced event)
    (hagrees : Agrees (fun _ => currency) run.events run.state) :
    ((loggedLines run.events).map fun e => Falkr.lineAmount e.2).sum = 0 := by
  rw [loggedLines, sum_flatMap]
  refine List.sum_eq_zero fun sum hsum => ?_
  rcases List.mem_map.1 hsum with ⟨event, hevent, rfl⟩
  rw [List.map_map]
  cases event with
  | journalEntryPosted id lines dims postedAt =>
      rcases hposts _ hevent with ⟨c, hbalanced⟩
      exact hbalanced.sum_eq_zero
  | entryReversed originalId reversalId reason =>
      cases hlines : entryLines run.events originalId with
      | none => simp [eventLines, hlines]
      | some lines =>
          rcases hagrees.kept originalId lines hlines with ⟨c, hbalanced, -⟩
          have hzero := hbalanced.mirror.sum_eq_zero
          simpa [eventLines, hlines, Function.comp_def] using hzero
  | capitalizationStatusChanged runId fromStatus toStatus policyRef => simp [eventLines]

/-! ## The balances by number -/

theorem get?_byNumber
    (hlabels : ∀ a b, run.state.balance a = some b → Labelled lib chart run.labels a)
    {number : String} {amount : ℚ} :
    (SortedMap.ofList (byNumber run.trialBalance)).get? number = some amount ↔
      ∃ a b, run.state.balance a = some b ∧ accountNumber (labelOf run.labels a) = number ∧
        b.amount = amount := by
  have hmem : ∀ e ∈ run.trialBalance.entries, ∃ a b, run.state.balance a = some b ∧
      e = (labelOf run.labels a, b.amount) := by
    intro e he
    rcases List.mem_map.1 ((mem_trialBalance hlabels).1 he) with ⟨⟨a, b⟩, hbalance, rfl⟩
    exact ⟨a, b, SortedMap.get?_eq_some_iff.2 hbalance, rfl⟩
  -- No two labels have one number, so that collecting by number keeps every entry.
  have hnodup : ((byNumber run.trialBalance).map Prod.fst).Nodup := by
    unfold byNumber
    rw [List.map_map]
    refine run.trialBalance.nodup_entries.map_on fun e he e' he' heq => ?_
    rcases hmem e he with ⟨a, b, hb, rfl⟩
    rcases hmem e' he' with ⟨a', b', hb', rfl⟩
    cases eq_of_accountNumber_eq (hlabels a b hb) (hlabels a' b' hb') heq
    rw [hb] at hb'
    cases hb'
    rfl
  rw [SortedMap.get?_ofList_iff hnodup, byNumber, List.mem_map]
  constructor
  · rintro ⟨e, he, heq⟩
    rcases hmem e he with ⟨a, b, hb, rfl⟩
    cases heq
    exact ⟨a, b, hb, rfl, rfl⟩
  · rintro ⟨a, b, hb, rfl, rfl⟩
    refine ⟨(labelOf run.labels a, b.amount), (mem_trialBalance hlabels).2 ?_, rfl⟩
    exact List.mem_map.2 ⟨(a, b), SortedMap.get?_eq_some_iff.1 hb, rfl⟩

/-- The trial balance file is read back as the trial balance of the run. -/
theorem endings_fromRun (hreads : ReadsBack lib) :
    endings lib (fromRun lib run chart).trialBalance = byNumber run.trialBalance := by
  unfold endings fromRun byNumber
  rw [List.filterMap_map, ← List.filterMap_eq_map]
  refine List.filterMap_congr fun e _ => ?_
  simp [trialBalanceRow, hreads _, Except.toOption]

/-- What the rows with a number add up to is the balance under that number. -/
theorem total_rowsAt (hreads : ReadsBack lib)
    (hrows : List.Forall₂ (RowOf lib run) (loggedLines run.events)
      (fromRun lib run chart).glDetail)
    (hstored : Stored scenario draws index run.progress)
    (hlabels : Labels lib chart run.labels run.state)
    (hagrees : Agrees (fun _ => currency) run.events run.state) (number : String) :
    total (GlDetailRow.signed lib) (rowsAt (fromRun lib run chart).glDetail number) =
      ((SortedMap.ofList (byNumber run.trialBalance)).get? number).getD 0 := by
  have hnamed : ∀ e ∈ loggedLines run.events, Labelled lib chart run.labels e.2.account ∧
      Touched run.events e.2.account := by
    intro e he
    rcases exists_mem_of_forall₂ hrows e he with ⟨row, -, entry, hentry, -, index, hget, -⟩
    refine ⟨(hstored.entered hlabels hentry).2 e.2 (List.mem_of_getElem? hget), ?_⟩
    rcases List.mem_flatMap.1 he with ⟨event, hevent, hline⟩
    rcases List.mem_map.1 hline with ⟨line, hmem, rfl⟩
    exact ⟨event, hevent, line, hmem, rfl⟩
  have htotal := total_of_forall₂ hreads hrows fun n => decide (n = number)
  rw [rowsAt, htotal]
  cases hget : (SortedMap.ofList (byNumber run.trialBalance)).get? number with
  | some amount =>
      -- The number is that of one account, and its lines are those of the account.
      rcases (get?_byNumber hlabels.balances).1 hget with ⟨a, b, hb, rfl, rfl⟩
      have hlabelled := hlabels.balances a b hb
      have hsame : (loggedLines run.events).filter (fun e => decide
          (accountNumber (labelOf run.labels e.2.account) = accountNumber (labelOf run.labels a))) =
            (loggedLines run.events).filter fun e => decide (e.2.account = a) := by
        refine List.filter_congr fun e he => decide_eq_decide.2 ⟨fun heq => ?_, fun heq => ?_⟩
        · exact eq_of_accountNumber_eq (hnamed e he).1 hlabelled heq
        · rw [heq]
      rw [hsame, ← logSum_eq, Option.getD_some]
      rw [hagrees.balance a] at hb
      split_ifs at hb
      cases hb
      rfl
  | none =>
      -- A line with the number would have left a balance under it.
      have hnone : (loggedLines run.events).filter (fun e => decide
          (accountNumber (labelOf run.labels e.2.account) = number)) = [] := by
        refine List.filter_eq_nil_iff.2 fun e he hnumber => ?_
        have hbalance := hagrees.balance e.2.account
        rw [if_pos (hnamed e he).2] at hbalance
        have hsome := (get?_byNumber hlabels.balances).2
          ⟨e.2.account, _, hbalance, of_decide_eq_true hnumber, rfl⟩
        rw [hget] at hsome
        cases hsome
      rw [hnone]
      rfl

/-- The extract of a scenario in its functional currency reconciles, and its detail rows are those
of the lines of the log, one for each. -/
theorem complete_of_run {self : Runner} (hfresh : FreshIds scenario draws) (hreads : ReadsBack lib)
    (hfunctional : InFunctional lib scenario)
    (h : self.run lib scenario draws = (pure (.ok (.executed run)) : Id _)) :
    (fromRun lib run self.chart).reconcile lib run.trialBalance = .ok () ∧
      List.Forall₂ (RowOf lib run) (loggedLines run.events)
        (fromRun lib run self.chart).glDetail := by
  have hstored : Stored scenario draws scenario.operations.length run.progress :=
    stored_of_run (m := Id) hfresh h
  have hlabels : Labels lib self.chart run.labels run.state := labels_of_run (m := Id) h
  have hlogged := logged_of_run hfunctional h
  have hagrees : Agrees (fun _ => run.currency) run.events run.state :=
    agrees_of_logged hlogged hstored
  have hrows := forall₂_glDetail hstored hlabels hagrees
  refine ⟨(reconcile_eq_ok_iff _ _).2 ⟨?_, ?_, fun number => ?_⟩, hrows⟩
  · intro row hrow
    rcases exists_mem_of_forall₂ hrows.flip row hrow with ⟨logged, -, hof⟩
    rw [← GlDetailRow.isSome_signed, (signed_of_rowOf hreads hof).1]
    rfl
  -- Every entry balances, so the two sides of all rows are the same.
  · have hzero := total_of_forall₂ hreads hrows fun _ => true
    simp only [List.filter_true] at hzero
    rw [sum_loggedLines hlogged.accepted.postsBalanced hagrees, ← total_debits_sub_credits] at hzero
    linarith
  · rw [endings_fromRun hreads, total_rowsAt hreads hrows hstored hlabels hagrees]
    exact ⟨rfl, rfl⟩

end Model

/-- Libraries that read rationals, as written or as displayed. -/
def rationalExternals : Externals ℚ :=
  smallExternals readRational fun q => q < 0

theorem readsBack_rationalExternals : ReadsBack rationalExternals := by
  intro a
  simp [rationalExternals, smallExternals, CheckedAmount.display, readRational_toString]

/-- The reversal of a sale, run over exact rationals. -/
def exactRun : LedgerRun ℚ :=
  (executed? (Runner.run rationalExternals { chart := smallChart } reversedSale
    countingDraws).run).get (by decide +kernel)

theorem complete_exactRun :
    (fromRun rationalExternals exactRun smallChart).reconcile rationalExternals
        exactRun.trialBalance = .ok () ∧
      List.Forall₂ (RowOf rationalExternals exactRun) (loggedLines exactRun.events)
        (fromRun rationalExternals exactRun smallChart).glDetail :=
  complete_of_run (by decide +kernel) readsBack_rationalExternals (by decide +kernel)
    (eq_of_executed? (Option.some_get _).symm)

end AdsExtract

end Falkr
