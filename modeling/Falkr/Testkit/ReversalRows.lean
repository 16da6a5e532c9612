import Falkr.Testkit.Reconcile
import Falkr.Testkit.Recorded
import Falkr.Testkit.TrialBalanceFile

/-!
# ReversalRows — the detail rows of an entry and of its reversal

A reversing row names the identifier that the ledger gave the reversed entry, and the detail file
knows entries by their journal only: the two columns join exactly when one text is the other
(`linked_iff`).  A reversal is recorded in the entity of the setup, whatever entity the reversed
entry was posted in, so the rows cancel in every business unit exactly when the two entities are
one or the entry moved no account (`cancels_iff`).
-/

namespace Falkr

open Lib

namespace AdsExtract

open Runner

/-! ## The rows of one entry -/

section Model

variable {m : Type → Type} {α : Type} [Amount m α] [CheckedAmount α] {lib : Externals α}
  {run : LedgerRun α} {entry : EntryRecord α}

/-- The columns that are those of the entry. -/
structure Headed (entry : EntryRecord α) (row : GlDetailRow) : Prop where
  journalId : row.journalId = entry.journalId
  businessUnit : row.businessUnit = entry.entity
  reversalIndicator : row.reversalIndicator = if entry.reversalOf.isSome then "Y" else "N"
  reversalJournalId : row.reversalJournalId =
    (entry.reversalOf.map fun id => id.asUuid.hyphenated).getD ""

theorem headed_of_glDetailRow {line : JournalLine α} {index : Nat} {row : GlDetailRow}
    (h : glDetailRow lib run entry line index = some row) : Headed entry row := by
  rcases Option.map_eq_some_iff.1 h with ⟨signed, -, rfl⟩
  exact ⟨rfl, rfl, rfl, rfl⟩

theorem headed_of_mem {row : GlDetailRow} (h : row ∈ entryRows lib run entry) :
    Headed entry row := by
  rcases List.mem_filterMap.1 h with ⟨⟨line, index⟩, -, hrow⟩
  exact headed_of_glDetailRow hrow

theorem mem_glDetail {chart : ChartOfAccounts} {row : GlDetailRow} :
    row ∈ (fromRun lib run chart).glDetail ↔ ∃ entry ∈ run.entries, row ∈ entryRows lib run entry :=
  List.mem_flatMap

/-- The row of a line of an entry, wherever the line stands. -/
def RowAt (lib : Externals α) (run : LedgerRun α) (entry : EntryRecord α) (line : JournalLine α)
    (row : GlDetailRow) : Prop :=
  ∃ index, entry.lines[index]? = some line ∧ glDetailRow lib run entry line index = some row

/-- An entry that went through the ledger has one row for each of its lines. -/
theorem forall₂_entryRows (h : Entered entry.lines) :
    List.Forall₂ (RowAt lib run entry) entry.lines (entryRows lib run entry) := by
  rcases h.sided with ⟨c, hsided⟩
  -- A line with one side has a signed amount, and with it a row.
  have hsome : ∀ x ∈ entry.lines.zipIdx, ∃ row,
      glDetailRow lib run entry x.1 x.2 = some row := by
    intro x hx
    have hline := List.mem_of_getElem? (List.mem_zipIdx_iff_getElem?.1 hx)
    rcases Option.map_eq_some_iff.1 (hsided x.1 hline).currency with ⟨signed, hsigned, -⟩
    exact ⟨_, by rw [glDetailRow, hsigned]; rfl⟩
  have hrows := (List.forall₂_and_left _ _).2 ⟨fun _ hx => hx, forall₂_filterMap hsome⟩
  have hlines : List.Forall₂ (RowAt lib run entry) (entry.lines.zipIdx.map Prod.fst)
      (entryRows lib run entry) := by
    refine List.forall₂_map_left_iff.2 (hrows.imp ?_)
    rintro x row ⟨hx, hrow⟩
    exact ⟨x.2, List.mem_zipIdx_iff_getElem?.1 hx, hrow⟩
  rwa [List.zipIdx_map_fst] at hlines

theorem entryRows_ne_nil (h : Entered entry.lines) : entryRows lib run entry ≠ [] := by
  intro hnil
  have hrows : List.Forall₂ (RowAt lib run entry) entry.lines [] := hnil ▸ forall₂_entryRows h
  exact h.nonempty (List.forall₂_nil_right_iff.1 hrows)

end Model

/-! ## The link -/

section Model

variable {m : Type → Type} {α : Type} [Amount m α] [CheckedAmount α]

/-- Every reversing row names the journal that the rows of the reversed entry carry. -/
def Linked (lib : Externals α) (chart : ChartOfAccounts) (run : LedgerRun α) : Prop :=
  ∀ row ∈ (fromRun lib run chart).glDetail, row.reversalIndicator = "Y" →
    ∃ reversal ∈ run.entries, ∃ original ∈ run.entries,
      row ∈ entryRows lib run reversal ∧ reversal.reversalOf = some original.entryId ∧
        entryRows lib run original ≠ [] ∧
        ∀ target ∈ entryRows lib run original, target.journalId = row.reversalJournalId

/-- The text of an identifier ends in twelve digits, that of a journal in the three of its index,
or a few more. -/
theorem hyphenated_ne_journalId (id : Uuid) (scenario : Scenario) {index : Nat}
    (h : index < 10 ^ 11) : id.hyphenated ≠ journalId scenario index := by
  intro heq
  rcases Uuid.exists_lastGroup id with ⟨groups, last, htext, hlength, hlast⟩
  have hchars := congrArg String.toList heq
  rw [htext, toList_journalId] at hchars
  -- Cut both texts at their last hyphen.
  have hdigits := eq_of_append_cons_eq hlast (not_mem_padded 3 index) hchars
  have hfew := (Nat.length_toDigits_le_iff (b := 10) (by omega) (by omega)).2 h
  have hpadded : (padded 10 3 index).length ≤ 11 := by
    simp only [padded, List.length_append, List.length_replicate]
    omega
  rw [← hdigits, hlength] at hpadded
  omega

variable {lib : Externals α} {scenario : Scenario} {draws : Draws} {run : LedgerRun α}

theorem linked_iff_reads {chart : ChartOfAccounts} (hfresh : FreshIds scenario draws)
    (hstored : Stored scenario draws scenario.operations.length run.progress)
    (hrows : ∀ entry ∈ run.entries, entryRows lib run entry ≠ []) :
    Linked lib chart run ↔
      ∀ i < scenario.operations.length, ∀ reversalId reason,
        .entryReversed (draws.newId i) reversalId reason ∈ run.events →
          (draws.newId i).asUuid.hyphenated = journalId scenario i := by
  constructor
  · intro hlinked i hi reversalId reason hevent
    rcases hstored.exists_record hevent rfl with ⟨reversal, hreversal, hof⟩
    rcases List.exists_mem_of_ne_nil _ (hrows reversal hreversal) with ⟨row, hrow⟩
    have hhead := headed_of_mem hrow
    have hreverses : reversal.reversalOf = some (draws.newId i) := hof.2.1
    rcases hlinked row (mem_glDetail.2 ⟨reversal, hreversal, hrow⟩)
        (by simp [hhead.reversalIndicator, hreverses]) with
      ⟨reversal', hreversal', original, horiginal, hrow', hpoints, hne, hjoin⟩
    -- A row tells the record it is of, and the record the entry it reverses.
    have hsame : reversal' = reversal := hstored.eq_of_journalId hreversal' hreversal
      ((headed_of_mem hrow').journalId.symm.trans hhead.journalId)
    rw [hsame, hreverses] at hpoints
    rcases hstored.drawn original horiginal with ⟨j, hj, hat⟩
    have hij : i = j :=
      hfresh.eq hi hj ((Option.some.inj hpoints).trans hat.entryId)
    rcases List.exists_mem_of_ne_nil _ hne with ⟨target, htarget⟩
    calc (draws.newId i).asUuid.hyphenated
        = row.reversalJournalId := by simp [hhead.reversalJournalId, hreverses]
      _ = target.journalId := (hjoin target htarget).symm
      _ = original.journalId := (headed_of_mem htarget).journalId
      _ = journalId scenario i := by rw [hat.journalId, hij]
  · intro hall row hrow hindicator
    rcases mem_glDetail.1 hrow with ⟨reversal, hreversal, hmem⟩
    have hhead := headed_of_mem hmem
    cases hreverses : reversal.reversalOf with
    -- A posting is not indicated.
    | none =>
        rw [hhead.reversalIndicator, hreverses] at hindicator
        simp at hindicator
    | some id =>
        rcases hstored.exists_original hreversal hreverses with
          ⟨original, horiginal, hid, -, reason, hevent⟩
        rcases hstored.drawn original horiginal with ⟨i, hi, hat⟩
        rw [hat.entryId] at hid
        subst hid
        refine ⟨reversal, hreversal, original, horiginal, hmem, by rw [hreverses, hat.entryId],
          hrows original horiginal, fun target htarget => ?_⟩
        rw [(headed_of_mem htarget).journalId, hat.journalId,
          ← hall i hi reversal.entryId reason hevent]
        simp [hhead.reversalJournalId, hreverses]

variable [Monad m] [Returning m] [LawfulMonad m]

/-- The columns join exactly when the identifier of every reversed entry reads like its journal;
with no more than 10¹¹ operations no identifier does, and nothing may be reversed at all. -/
theorem linked_iff {self : Runner} (hfresh : FreshIds scenario draws)
    (h : self.run lib scenario draws = (pure (.ok (.executed run)) : m _)) :
    (Linked lib self.chart run ↔
      ∀ i < scenario.operations.length, ∀ reversalId reason,
        .entryReversed (draws.newId i) reversalId reason ∈ run.events →
          (draws.newId i).asUuid.hyphenated = journalId scenario i) ∧
    (scenario.operations.length ≤ 10 ^ 11 →
      (Linked lib self.chart run ↔
        ∀ op ∈ scenario.operations, op.kind = "reverse_entry" → op.expectRejection = true)) := by
  have hstored : Stored scenario draws scenario.operations.length run.progress :=
    stored_of_run hfresh h
  have hrows : ∀ entry ∈ run.entries, entryRows lib run entry ≠ [] := fun entry hentry =>
    entryRows_ne_nil (hstored.entered (labels_of_run h) hentry).1
  have hiff : Linked lib self.chart run ↔ _ := linked_iff_reads hfresh hstored hrows
  refine ⟨hiff, fun hfew => hiff.trans ⟨fun hall op hop hkind => ?_, fun hall => ?_⟩⟩
  -- An accepted reversal has reversed some entry, whose identifier reads like no journal.
  · by_contra hexpect
    rcases List.mem_iff_getElem?.1 hop with ⟨i, hi⟩
    rcases reversed_of_run h hi hkind (by simpa using hexpect) with ⟨originalId, reason, hevent⟩
    rcases hstored.exists_record hevent rfl with ⟨reversal, hreversal, hof⟩
    rcases hstored.exists_original hreversal hof.2.1 with ⟨original, horiginal, hid, -⟩
    rcases hstored.drawn original horiginal with ⟨j, hj, hat⟩
    rw [← hid, hat.entryId] at hevent
    exact hyphenated_ne_journalId _ scenario (by omega) (hall j hj _ _ hevent)
  -- A reversal in the log comes from an operation that was not to be rejected.
  · intro i hi reversalId reason hevent
    rcases hstored.exists_record hevent rfl with ⟨reversal, hreversal, hof⟩
    rcases hstored.drawn reversal hreversal with ⟨j, hj, hat⟩
    rcases hat.operation with ⟨op, hop, hexpect, -, hkind⟩
    have hrejected := hall op (List.mem_of_getElem? hop) (hkind (by rw [hof.2.1]; rfl)).2
    simp [hexpect] at hrejected

end Model

/-- A sale and its reversal. -/
def reversedSale : Scenario :=
  cashSale [postEntry (saleLines "1000.00") [("ref", .string "sale")], reverseOf "sale"] "0.00"
    "0.00"

def reversedRun : LedgerRun Decimal :=
  (decimalRun reversedSale).get (by decide +kernel)

/-- The reversing rows name `00000000-0000-0000-0000-000000000001`, the rows of the sale are under
`core-001-cash-sale-000`. -/
theorem not_linked_reversedRun :
    Runner.run decimalExternals { chart := smallChart } reversedSale countingDraws =
        some (.ok (.executed reversedRun)) ∧
      ¬Linked decimalExternals smallChart reversedRun := by
  have hrow : ∃ row ∈ (fromRun decimalExternals reversedRun smallChart).glDetail,
      row.reversalIndicator = "Y" ∧
        row.reversalJournalId = "00000000-0000-0000-0000-000000000001" := by decide +kernel
  have hjournals : ∀ target ∈ (fromRun decimalExternals reversedRun smallChart).glDetail,
      target.journalId ≠ "00000000-0000-0000-0000-000000000001" := by decide +kernel
  refine ⟨run_of_decimalRun (Option.some_get _).symm, fun hlinked => ?_⟩
  rcases hrow with ⟨row, hmem, hindicator, hnamed⟩
  rcases hlinked row hmem hindicator with ⟨-, -, original, horiginal, -, -, hne, hjoin⟩
  rcases List.exists_mem_of_ne_nil _ hne with ⟨target, htarget⟩
  exact hjournals target (mem_glDetail.2 ⟨original, horiginal, htarget⟩)
    ((hjoin target htarget).trans hnamed)

theorem linked_dollarRun : Linked decimalExternals smallChart dollarRun ∧
    ¬Linked decimalExternals smallChart reversedRun := by
  constructor
  · exact ((linked_iff (by decide +kernel) (run_of_decimalRun (Option.some_get _).symm)).2
      (by decide)).2 (by decide)
  · intro hlinked
    have hnone := ((linked_iff (by decide +kernel)
      (run_of_decimalRun (Option.some_get _).symm)).2 (by decide)).1 hlinked
    exact absurd hnone (by decide +kernel)

/-! ## The cancelling -/

/-- The amount of a detail row of decimals, positive on the debit side. -/
def signedCell (row : GlDetailRow) : Option ℚ :=
  (Decimal.read row.amount).map fun amount =>
    if row.indicator == "D" then amount.toRat else -amount.toRat

/-- The row is of a journal, on an account of a business unit. -/
def isAt (journal unit number : String) (row : GlDetailRow) : Bool :=
  row.journalId == journal && row.businessUnit == unit && row.accountNumber == number

/-- What the rows of a journal add up to on an account of a business unit. -/
def journalSum (rows : List GlDetailRow) (journal unit number : String) : Option ℚ :=
  sumOf signedCell (rows.filter (isAt journal unit number))

/-- The rows of every reversal take back those of the entry that it reverses, on every account of
every business unit. -/
def Cancels (lib : Externals Decimal) (chart : ChartOfAccounts) (run : LedgerRun Decimal) : Prop :=
  ∀ reversal ∈ run.entries, ∀ original ∈ run.entries,
    reversal.reversalOf = some original.entryId → ∀ unit number, ∃ sum,
      journalSum (fromRun lib run chart).glDetail original.journalId unit number = some sum ∧
        journalSum (fromRun lib run chart).glDetail reversal.journalId unit number = some (-sum)

/-- What a line adds to its account, exactly. -/
def lineValue (line : JournalLine Decimal) : ℚ :=
  (line.signedAmount.map fun signed => signed.amount.toRat).getD 0

/-- What lines add to an account, exactly. -/
def netOn (lines : List (JournalLine Decimal)) (a : AccountId) : ℚ :=
  (lines.map fun line => if line.account = a then lineValue line else 0).sum

/-- What lines add to the accounts with a number. -/
def netAt (labels : SortedMap AccountId String) (lines : List (JournalLine Decimal))
    (number : String) : ℚ :=
  (lines.map fun line =>
    if accountNumber (labelOf labels line.account) = number then lineValue line else 0).sum

section Sums

variable {lib : Externals Decimal} {chart : ChartOfAccounts} {run : LedgerRun Decimal}
  {scenario : Scenario} {draws : Draws} {labels : SortedMap AccountId String}

theorem lineValue_mirror (line : JournalLine Decimal) :
    lineValue line.mirror = -lineValue line := by
  rcases line with ⟨account, debit, credit, sources⟩
  cases debit <;> cases credit <;>
    simp [lineValue, JournalLine.mirror, JournalLine.signedAmount, Money.negate]

theorem netAt_mirror (lines : List (JournalLine Decimal)) (number : String) :
    netAt labels (Falkr.mirror lines) number = -netAt labels lines number := by
  unfold netAt Falkr.mirror
  induction lines with
  | nil => simp
  | cons line rest ih =>
      have haccount : line.mirror.account = line.account := rfl
      by_cases hnumber : accountNumber (labelOf labels line.account) = number
      · simp only [List.map_cons, List.sum_cons, ih, haccount, hnumber, if_true, lineValue_mirror]
        ring
      · simp only [List.map_cons, List.sum_cons, ih, haccount, hnumber, if_false]
        ring

/-- The sign moves into the indicator and comes back out of it. -/
theorem signedCell_of_glDetailRow {entry : EntryRecord Decimal} {line : JournalLine Decimal}
    {index : Nat} {row : GlDetailRow} (h : glDetailRow lib run entry line index = some row) :
    signedCell row = some (lineValue line) := by
  rcases Option.map_eq_some_iff.1 h with ⟨signed, hsigned, rfl⟩
  have hread : ∀ d : Decimal, Decimal.read (CheckedAmount.display d) = some d :=
    Decimal.read_display
  cases hnegative : lib.isSignNegative signed.amount with
  | true => simp [signedCell, hread, magnitude, hnegative, lineValue, hsigned]
  | false => simp [signedCell, hread, magnitude, hnegative, lineValue, hsigned]

theorem isAt_of_glDetailRow {entry : EntryRecord Decimal} {line : JournalLine Decimal}
    {index : Nat} {row : GlDetailRow} (h : glDetailRow lib run entry line index = some row)
    (unit number : String) :
    isAt entry.journalId unit number row =
      (entry.entity == unit && accountNumber (labelOf run.labels line.account) == number) := by
  rcases Option.map_eq_some_iff.1 h with ⟨signed, -, rfl⟩
  simp [isAt]

theorem sumOf_entryRows {entry : EntryRecord Decimal} (h : Entered entry.lines)
    (unit number : String) :
    sumOf signedCell ((entryRows lib run entry).filter (isAt entry.journalId unit number)) =
      some (if entry.entity = unit then netAt run.labels entry.lines number else 0) := by
  have hgo : ∀ {lines : List (JournalLine Decimal)} {rows : List GlDetailRow},
      List.Forall₂ (RowAt lib run entry) lines rows →
      sumOf signedCell (rows.filter (isAt entry.journalId unit number)) =
        some (if entry.entity = unit then netAt run.labels lines number else 0) := by
    intro lines rows hrows
    induction hrows with
    | nil => simp [sumOf, netAt]
    | @cons line row _ _ hfirst hrest ih =>
        rcases hfirst with ⟨index, -, hrow⟩
        have hvalue := signedCell_of_glDetailRow hrow
        have hat := isAt_of_glDetailRow hrow unit number
        by_cases hunit : entry.entity = unit
        · by_cases hsame : accountNumber (labelOf run.labels line.account) = number
          · simp [ih, netAt, hat, hunit, hsame, sumOf, hvalue]
          · simp [ih, netAt, hat, hunit, hsame]
        · simp [ih, hat, hunit]
  exact hgo (forall₂_entryRows h)

theorem journalSum_of_mem
    (hstored : Stored scenario draws scenario.operations.length run.progress)
    {entry : EntryRecord Decimal} (hentry : entry ∈ run.entries) (hentered : Entered entry.lines)
    (unit number : String) :
    journalSum (fromRun lib run chart).glDetail entry.journalId unit number =
      some (if entry.entity = unit then netAt run.labels entry.lines number else 0) := by
  have hnodup : run.entries.Nodup := List.Nodup.of_map _ hstored.distinct
  -- The rows under the journal are those of the one record that has it.
  have hother : ∀ other ∈ run.entries, other ≠ entry →
      (entryRows lib run other).filter (isAt entry.journalId unit number) = [] := by
    intro other hmem hne
    refine List.filter_eq_nil_iff.2 fun row hrow hpass => hne ?_
    have hjournal : row.journalId = entry.journalId := by
      simp only [isAt, Bool.and_eq_true, beq_iff_eq] at hpass
      exact hpass.1.1
    exact hstored.eq_of_journalId hmem hentry ((headed_of_mem hrow).journalId.symm.trans hjournal)
  unfold journalSum fromRun
  rw [List.filter_flatMap, flatMap_eq_of_unique hnodup hentry hother, sumOf_entryRows hentered]

/-- Labelled accounts are told apart by their numbers. -/
theorem netAt_eq_zero_iff {lines : List (JournalLine Decimal)}
    (h : ∀ line ∈ lines, Labelled lib chart labels line.account) :
    (∀ number, netAt labels lines number = 0) ↔ ∀ a, netOn lines a = 0 := by
  have hsame : ∀ {a : AccountId}, Labelled lib chart labels a →
      netAt labels lines (accountNumber (labelOf labels a)) = netOn lines a := by
    intro a ha
    unfold netAt netOn
    congr 1
    refine List.map_congr_left fun line hline => ?_
    by_cases haccount : line.account = a
    · simp [haccount]
    · have hne : accountNumber (labelOf labels line.account) ≠ accountNumber (labelOf labels a) :=
        fun heq => haccount (eq_of_accountNumber_eq (h line hline) ha heq)
      simp [haccount, hne]
  constructor
  -- An account that no line names is moved by nothing.
  · intro hnumbers a
    by_cases hnamed : ∃ line ∈ lines, line.account = a
    · rcases hnamed with ⟨line, hline, rfl⟩
      rw [← hsame (h line hline), hnumbers]
    · refine List.sum_eq_zero fun value hvalue => ?_
      rcases List.mem_map.1 hvalue with ⟨line, hline, rfl⟩
      exact if_neg fun heq => hnamed ⟨line, hline, heq⟩
  · intro haccounts number
    by_cases hnamed : ∃ line ∈ lines, accountNumber (labelOf labels line.account) = number
    · rcases hnamed with ⟨line, hline, rfl⟩
      rw [hsame (h line hline), haccounts]
    · refine List.sum_eq_zero fun value hvalue => ?_
      rcases List.mem_map.1 hvalue with ⟨line, hline, rfl⟩
      exact if_neg fun heq => hnamed ⟨line, hline, heq⟩

/-- The rows of a reversal cancel those of the reversed entry when the two are in one entity, or
when the entry moves no account. -/
theorem cancels_original_iff
    (hstored : Stored scenario draws scenario.operations.length run.progress)
    {reversal original : EntryRecord Decimal} (hreversal : reversal ∈ run.entries)
    (horiginal : original ∈ run.entries)
    (hlines : reversal.lines = Falkr.mirror original.lines) (hentered : Entered original.lines)
    (hlabels : ∀ line ∈ original.lines, Labelled lib chart run.labels line.account) :
    (∀ unit number, ∃ sum,
      journalSum (fromRun lib run chart).glDetail original.journalId unit number = some sum ∧
        journalSum (fromRun lib run chart).glDetail reversal.journalId unit number = some (-sum)) ↔
      original.entity = reversal.entity ∨ ∀ a, netOn original.lines a = 0 := by
  rw [← netAt_eq_zero_iff hlabels]
  simp only [journalSum_of_mem hstored horiginal hentered,
    journalSum_of_mem hstored hreversal (hlines ▸ hentered.mirror), hlines, netAt_mirror]
  constructor
  · intro hcancel
    by_cases hentity : original.entity = reversal.entity
    · exact Or.inl hentity
    · refine Or.inr fun number => ?_
      -- In the unit of the entry there is nothing of the reversal.
      rcases hcancel original.entity number with ⟨sum, hsum, hneg⟩
      rw [if_neg (Ne.symm hentity)] at hneg
      rw [if_pos rfl] at hsum
      rw [Option.some.inj hsum]
      exact neg_eq_zero.1 (Option.some.inj hneg).symm
  · rintro (hentity | hzero) unit number
    · refine ⟨_, rfl, ?_⟩
      rw [hentity]
      split_ifs <;> simp
    · refine ⟨0, ?_, ?_⟩ <;> simp [hzero number]

/-- The rows of all reversals cancel exactly when every reversed posting was booked in the entity
of the setup, or moves no account. -/
theorem cancels_iff {self : Runner} (hfresh : FreshIds scenario draws)
    (h : self.run lib scenario draws = some (.ok (.executed run))) :
    Cancels lib self.chart run ↔
      ∀ i op lines dims postedAt reversalId reason, scenario.operations[i]? = some op →
        .journalEntryPosted (draws.newId i) lines dims postedAt ∈ run.events →
        .entryReversed (draws.newId i) reversalId reason ∈ run.events →
          postingEntity scenario op = scenario.setup.entity ∨ ∀ a, netOn lines a = 0 := by
  have hstored : Stored scenario draws scenario.operations.length run.progress :=
    stored_of_run (m := Option) hfresh h
  have hentered : ∀ entry ∈ run.entries, Entered entry.lines ∧ ∀ line ∈ entry.lines,
      Labelled lib self.chart run.labels line.account := fun entry hentry =>
    hstored.entered (labels_of_run (m := Option) h) hentry
  constructor
  · intro hcancels i op lines dims postedAt reversalId reason hop hposted hreversed
    rcases hstored.exists_record hposted rfl with ⟨original, horiginal, hid, rfl, hnone⟩
    rcases hstored.exists_record hreversed rfl with
      ⟨reversal, hreversal, -, hof, original', horiginal', hlines⟩
    have hsame : original' = original.lines := by
      rw [← hid, hstored.recordedLines_eq horiginal] at horiginal'
      exact (Option.some.inj horiginal').symm
    have hiff := (cancels_original_iff hstored hreversal horiginal (hsame ▸ hlines)
      (hentered original horiginal).1 (hentered original horiginal).2).1
        (hcancels reversal hreversal original horiginal (hid ▸ hof))
    rwa [hstored.entity_of_posting hfresh horiginal hnone hid hop,
      hstored.entity_of_reversal hreversal (by rw [hof]; rfl)] at hiff
  · intro hall reversal hreversal original horiginal hof
    rcases hstored.exists_original hreversal hof with
      ⟨original', horiginal', hid, hlines, reason, hreversed⟩
    cases hstored.eq horiginal' horiginal hid
    refine (cancels_original_iff hstored hreversal horiginal hlines (hentered original horiginal).1
      (hentered original horiginal).2).2 ?_
    rw [hstored.entity_of_reversal hreversal (by rw [hof]; rfl)]
    cases hnone : original.reversalOf with
    | some earlier =>
        exact Or.inl (hstored.entity_of_reversal horiginal (by rw [hnone]; rfl))
    | none =>
        -- A posting: its event is in the log, with the lines on record.
        rcases hstored.drawn original horiginal with ⟨i, hi, hat⟩
        rcases hat.operation with ⟨op, hop, -, hposting, -⟩
        rw [hposting hnone]
        rcases hstored.exists_event horiginal with ⟨event, hevent, hrecord⟩
        cases event with
        | journalEntryPosted id lines dims postedAt =>
            rcases hrecord with ⟨hsame, rfl, -⟩
            rw [← hsame, hat.entryId] at hevent
            rw [hat.entryId] at hreversed
            exact hall i op original.lines dims postedAt _ reason hop hevent hreversed
        | entryReversed originalId reversalId reason' =>
            rw [hrecord.2.1] at hnone
            cases hnone
        | capitalizationStatusChanged runId fromStatus toStatus policyRef => cases hrecord

end Sums

/-- A sale that its operation books in the subsidiary, and its reversal. -/
def subsidiarySale : Scenario :=
  cashSale [postEntry (saleLines "1000.00") [("ref", .string "sale"), ("entity", .string "EU_SUB")],
    reverseOf "sale"] "0.00" "0.00"

def subsidiaryRun : LedgerRun Decimal :=
  (decimalRun subsidiarySale).get (by decide +kernel)

/-- The subsidiary is left with 1000.00 on its cash account, the parent with minus 1000.00. -/
theorem not_cancels_subsidiaryRun :
    Runner.run decimalExternals { chart := smallChart } subsidiarySale countingDraws =
        some (.ok (.executed subsidiaryRun)) ∧
      ¬Cancels decimalExternals smallChart subsidiaryRun := by
  have hrecords : ∃ reversal ∈ subsidiaryRun.entries, ∃ original ∈ subsidiaryRun.entries,
      reversal.reversalOf = some original.entryId ∧
        journalSum (fromRun decimalExternals subsidiaryRun smallChart).glDetail original.journalId
          "EU_SUB" "1000" = some 1000 ∧
        journalSum (fromRun decimalExternals subsidiaryRun smallChart).glDetail reversal.journalId
          "EU_SUB" "1000" = some 0 := by decide +kernel
  refine ⟨run_of_decimalRun (Option.some_get _).symm, fun hcancels => ?_⟩
  rcases hrecords with ⟨reversal, hreversal, original, horiginal, hof, hposted, hreversed⟩
  rcases hcancels reversal hreversal original horiginal hof "EU_SUB" "1000" with ⟨sum, hsum, hneg⟩
  rw [hposted] at hsum
  rw [hreversed] at hneg
  cases hsum
  revert hneg
  decide +kernel

theorem cancels_reversedRun : Cancels decimalExternals smallChart reversedRun := by
  refine (cancels_iff (by decide +kernel) (run_of_decimalRun (Option.some_get _).symm)).2 ?_
  intro i op lines dims postedAt reversalId reason hop hposted hreversed
  have hall : ∀ op ∈ reversedSale.operations,
      Runner.postingEntity reversedSale op = reversedSale.setup.entity := by decide +kernel
  exact Or.inl (hall op (List.mem_of_getElem? hop))

end AdsExtract

end Falkr
