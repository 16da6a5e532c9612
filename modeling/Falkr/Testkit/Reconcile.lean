import Falkr.Core.Numeral
import Falkr.Testkit.AdsExport

/-!
# Reconcile — what the reconciliation of an extract has checked

Over exact rationals.  `reconcile` compares the detail rows with one amount for each account number
(`reconcile_eq_ok_iff`): the trial balance rows and the expected labels go through maps keyed by
the number, and a trial balance row that does not parse is left out.  So an extract it passes is
sound exactly when nothing was lost on the way into the maps (`sound_iff`).
-/

namespace Falkr

open Lib

/-! ## Columns -/

/-- Adds up a column; `none` when a cell of it does not parse. -/
def sumOf {β : Type} (parse : β → Option ℚ) : List β → Option ℚ
  | [] => some 0
  | cell :: rest => do
      let value ← parse cell
      let sum ← sumOf parse rest
      pure (value + sum)

theorem sumOf_eq_some_iff {β : Type} {parse : β → Option ℚ} :
    ∀ {column : List β} {total : ℚ}, sumOf parse column = some total ↔
      (∀ cell ∈ column, (parse cell).isSome) ∧
        (column.map fun cell => (parse cell).getD 0).sum = total
  | [], total => by simp [sumOf]
  | cell :: rest, total => by
      cases hcell : parse cell with
      | none => simp [sumOf, hcell]
      | some value =>
          cases hrest : sumOf parse rest with
          | none =>
              -- A cell further on does not parse, and the sum is none.
              have hno : ¬∀ c ∈ rest, (parse c).isSome := by
                intro hall
                have hsome : sumOf parse rest = some _ := sumOf_eq_some_iff.2 ⟨hall, rfl⟩
                simp [hrest] at hsome
              simp only [sumOf, hcell, hrest, List.forall_mem_cons]
              simp [hno]
          | some sum =>
              rcases sumOf_eq_some_iff.1 hrest with ⟨hall, hsum⟩
              simp only [sumOf, hcell, hrest, List.forall_mem_cons, List.map_cons, List.sum_cons,
                hsum]
              simpa using fun _ => hall

/-- A sum is that of all but the last term and the last term. -/
theorem sum_dropLast_add (values : List ℚ) :
    values.dropLast.sum + values.getLast?.getD 0 = values.sum := by
  induction values using List.reverseRecOn with
  | nil => simp
  | append_singleton values value ih => simp

/-! ## Rows -/

section Rows

variable (lib : Externals ℚ)

/-- The unsigned amount of a detail row. -/
def GlDetailRow.parsed (self : GlDetailRow) : Option ℚ :=
  (lib.fromStrExact self.amount).toOption

/-- The amount of a detail row, positive on the debit side. -/
def GlDetailRow.signed (self : GlDetailRow) : Option ℚ :=
  (self.parsed lib).map fun amount => if self.indicator == "D" then amount else -amount

def TrialBalanceRow.ending (self : TrialBalanceRow) : Option ℚ :=
  (lib.fromStrExact self.endingBalance).toOption

theorem GlDetailRow.isSome_signed (self : GlDetailRow) :
    (self.signed lib).isSome = (self.parsed lib).isSome := by
  simp [GlDetailRow.signed]

end Rows

namespace AdsExtract

variable {lib : Externals ℚ}

def debitRows (rows : List GlDetailRow) : List GlDetailRow :=
  rows.filter fun row => row.indicator == "D"

def creditRows (rows : List GlDetailRow) : List GlDetailRow :=
  rows.filter fun row => !(row.indicator == "D")

def rowsAt (rows : List GlDetailRow) (number : String) : List GlDetailRow :=
  rows.filter fun row => row.accountNumber = number

/-- The two sides of the detail file are the same, and what its rows add up to on an account is
what all trial balance rows and all expected labels with the account's number add up to. -/
structure Sound (lib : Externals ℚ) (extract : AdsExtract) (expected : SortedMap String ℚ) :
    Prop where
  foots : ∃ total, sumOf (GlDetailRow.parsed lib) (debitRows extract.glDetail) = some total ∧
    sumOf (GlDetailRow.parsed lib) (creditRows extract.glDetail) = some total
  balances : ∀ number, ∃ total,
    sumOf (GlDetailRow.signed lib) (rowsAt extract.glDetail number) = some total ∧
      sumOf (TrialBalanceRow.ending lib) (balancesAt extract.trialBalance number) = some total ∧
      (SortedMap.valuesAt (byNumber expected) number).sum = total

/-! ## The loops -/

/-- What rows add up to, those that do not parse counting as zero. -/
def total (column : GlDetailRow → Option ℚ) (rows : List GlDetailRow) : ℚ :=
  (rows.map fun row => (column row).getD 0).sum

theorem fromStrExact_of_parsed {row : GlDetailRow} {amount : ℚ}
    (h : row.parsed lib = some amount) : lib.fromStrExact row.amount = .ok amount := by
  unfold GlDetailRow.parsed at h
  cases hread : lib.fromStrExact row.amount with
  | error e => simp [hread, Except.toOption] at h
  | ok value => simpa [hread, Except.toOption] using h

theorem foot_of_parsed :
    ∀ (rows : List GlDetailRow) (debits credits : ℚ) (journals : SortedMap String Unit),
      (∀ row ∈ rows, (row.parsed lib).isSome) →
      ∃ seen, foot lib rows debits credits journals =
        .ok (debits + total (GlDetailRow.parsed lib) (debitRows rows),
          credits + total (GlDetailRow.parsed lib) (creditRows rows), seen)
  | [], debits, credits, journals, _ => ⟨journals, by simp [foot, total, debitRows, creditRows]⟩
  | row :: rest, debits, credits, journals, h => by
      rcases List.forall_mem_cons.1 h with ⟨hrow, hrest⟩
      rcases Option.isSome_iff_exists.1 hrow with ⟨amount, hamount⟩
      have hok := fromStrExact_of_parsed hamount
      cases hside : row.indicator == "D" with
      | true =>
          rcases foot_of_parsed rest (debits + amount) credits
            (journals.insert row.journalId ()) hrest with ⟨seen, hfoot⟩
          exact ⟨seen, by
            simp [foot, hok, hside, hfoot, total, debitRows, creditRows, hamount, add_assoc]⟩
      | false =>
          rcases foot_of_parsed rest debits (credits + amount)
            (journals.insert row.journalId ()) hrest with ⟨seen, hfoot⟩
          exact ⟨seen, by
            simp [foot, hok, hside, hfoot, total, debitRows, creditRows, hamount, add_assoc]⟩

theorem parsed_of_foot :
    ∀ {rows : List GlDetailRow} {debits credits : ℚ} {journals : SortedMap String Unit}
      {totals : ℚ × ℚ × SortedMap String Unit},
      foot lib rows debits credits journals = .ok totals →
      ∀ row ∈ rows, (row.parsed lib).isSome
  | [], _, _, _, _, _, row, hrow => by simp at hrow
  | first :: rest, debits, credits, journals, totals, h, row, hrow => by
      unfold foot at h
      cases hparse : lib.fromStrExact first.amount with
      | error e => simp [hparse] at h
      | ok amount =>
          simp only [hparse, checkedAdd_exact] at h
          have hfirst : (first.parsed lib).isSome := by
            simp [GlDetailRow.parsed, hparse, Except.toOption]
          rcases List.mem_cons.1 hrow with rfl | hmem
          · exact hfirst
          · cases hside : first.indicator == "D" with
            | true => exact parsed_of_foot (by simpa [hside] using h) row hmem
            | false => exact parsed_of_foot (by simpa [hside] using h) row hmem

theorem rowsAt_cons (row : GlDetailRow) (rest : List GlDetailRow) (number : String) :
    rowsAt (row :: rest) number =
      if row.accountNumber = number then row :: rowsAt rest number else rowsAt rest number := by
  by_cases h : row.accountNumber = number <;> simp [rowsAt, h]

theorem derive_of_parsed :
    ∀ (rows : List GlDetailRow) (derived : SortedMap String ℚ),
      (∀ row ∈ rows, (row.parsed lib).isSome) →
      ∃ result, derive lib rows derived = .ok result ∧ ∀ number, (result.get? number).getD 0 =
        (derived.get? number).getD 0 + total (GlDetailRow.signed lib) (rowsAt rows number)
  | [], derived, _ => ⟨derived, rfl, fun number => by simp [rowsAt, total]⟩
  | row :: rest, derived, h => by
      rcases List.forall_mem_cons.1 h with ⟨hrow, hrest⟩
      rcases Option.isSome_iff_exists.1 hrow with ⟨amount, hamount⟩
      have hok := fromStrExact_of_parsed hamount
      let signed : ℚ := if row.indicator == "D" then amount else -amount
      have hsigned : row.signed lib = some signed := by simp [GlDetailRow.signed, hamount, signed]
      obtain ⟨result, hderive, hresult⟩ := derive_of_parsed rest
        (derived.insert row.accountNumber ((derived.get? row.accountNumber).getD 0 + signed)) hrest
      refine ⟨result, ?_, fun number => ?_⟩
      · rw [← hderive]
        simp [derive, hok, signed]
      · rw [hresult, SortedMap.get?_insert, rowsAt_cons]
        by_cases hnumber : row.accountNumber = number
        · subst hnumber
          simp [total, hsigned, add_assoc]
        · simp [hnumber, Ne.symm hnumber]

/-! ## The comparison -/

theorem compareAt_eq_ok_iff (what : String) (left right : SortedMap String ℚ) :
    ∀ accounts : List String, compareAt what left right accounts = .ok () ↔
      ∀ account ∈ accounts, (left.get? account).getD 0 = (right.get? account).getD 0
  | [] => by simp [compareAt]
  | account :: rest => by
      have ih := compareAt_eq_ok_iff what left right rest
      by_cases h : (left.get? account).getD 0 = (right.get? account).getD 0 <;>
        simp [compareAt, h, ih]

/-- The keys of both maps are looked up, and any other account is zero on both sides. -/
theorem compare_eq_ok_iff (what : String) (left right : SortedMap String ℚ) :
    compare what left right = .ok () ↔
      ∀ account, (left.get? account).getD 0 = (right.get? account).getD 0 := by
  rw [compare, compareAt_eq_ok_iff]
  refine ⟨fun h account => ?_, fun h account _ => h account⟩
  -- The loop runs over the keys of both sides.
  by_cases hmem : account ∈ left.keys ++ right.keys
  · exact h account (SortedMap.mem_keys_ofList.2 ⟨(), List.mem_map_of_mem hmem⟩)
  · rw [List.mem_append, not_or, SortedMap.mem_keys_iff, SortedMap.mem_keys_iff] at hmem
    have hleft : left.get? account = none := by simpa using hmem.1
    have hright : right.get? account = none := by simpa using hmem.2
    rw [hleft, hright]

/-- What is under a key of a collected map is the last of the values paired with it. -/
theorem getD_ofList (pairs : List (String × ℚ)) (number : String) :
    ((SortedMap.ofList pairs).get? number).getD 0 +
        (SortedMap.valuesAt pairs number).dropLast.sum = (SortedMap.valuesAt pairs number).sum := by
  rw [SortedMap.get?_ofList, add_comm, sum_dropLast_add]

theorem reconcile_eq_ok_iff (self : AdsExtract) (expected : SortedMap String ℚ) :
    self.reconcile lib expected = .ok () ↔
      (∀ row ∈ self.glDetail, (row.parsed lib).isSome) ∧
        total (GlDetailRow.parsed lib) (debitRows self.glDetail) =
          total (GlDetailRow.parsed lib) (creditRows self.glDetail) ∧
        ∀ number,
          total (GlDetailRow.signed lib) (rowsAt self.glDetail number) =
              ((SortedMap.ofList (endings lib self.trialBalance)).get? number).getD 0 ∧
            total (GlDetailRow.signed lib) (rowsAt self.glDetail number) =
              ((SortedMap.ofList (byNumber expected)).get? number).getD 0 := by
  -- An amount that does not parse ends the footing with an error, and nothing is compared.
  by_cases hparsed : ∀ row ∈ self.glDetail, (row.parsed lib).isSome
  · rcases foot_of_parsed self.glDetail 0 0 .empty hparsed with ⟨seen, hfoot⟩
    rcases derive_of_parsed self.glDetail .empty hparsed with ⟨derived, hderive, htotals⟩
    simp only [zero_add, SortedMap.get?_empty, Option.getD_none] at hfoot htotals
    have htwo := compare_eq_ok_iff "GL detail vs trial balance file" derived
      (.ofList (endings lib self.trialBalance))
    have hthree := compare_eq_ok_iff "ADS extract vs expected" derived (.ofList (byNumber expected))
    simp only [htotals] at htwo hthree
    -- Both comparisons are against the sums of the detail rows.
    rw [forall_and, ← htwo, ← hthree]
    by_cases hfoots : total (GlDetailRow.parsed lib) (debitRows self.glDetail) =
        total (GlDetailRow.parsed lib) (creditRows self.glDetail)
    · cases hcompare : compare "GL detail vs trial balance file" derived
          (.ofList (endings lib self.trialBalance)) with
      | error e =>
          simp [reconcile, controlTotal, hfoot, hderive, hfoots, hcompare, bind, Except.bind, pure,
            Except.pure]
      | ok =>
          simp [reconcile, controlTotal, hfoot, hderive, hfoots, hcompare, bind, Except.bind, pure,
            Except.pure]
          exact fun _ => hparsed
    · simp [reconcile, controlTotal, hfoot, hfoots, bind, Except.bind, throw, throwThe,
        MonadExceptOf.throw, pure, Except.pure]
  · have herror : ∃ e, foot lib self.glDetail 0 0 .empty = .error e := by
      cases hfoot : foot lib self.glDetail 0 0 .empty with
      | error e => exact ⟨e, rfl⟩
      | ok totals => exact absurd (parsed_of_foot hfoot) hparsed
    rcases herror with ⟨e, hfoot⟩
    simp [reconcile, controlTotal, hfoot, bind, Except.bind, hparsed]

/-! ## Soundness -/

/-- When every row parses, no ending balance is left out on the way into the map. -/
theorem valuesAt_endings {rows : List TrialBalanceRow}
    (h : ∀ row ∈ rows, (row.ending lib).isSome) (number : String) :
    SortedMap.valuesAt (endings lib rows) number =
      (balancesAt rows number).map fun row => (row.ending lib).getD 0 := by
  have hread : ∀ row ∈ rows, (lib.fromStrExact row.endingBalance).toOption.map
      (fun amount => (row.accountNumber, amount)) =
        some (row.accountNumber, (row.ending lib).getD 0) := by
    intro row hrow
    rcases Option.isSome_iff_exists.1 (h row hrow) with ⟨amount, hamount⟩
    have hparse : (lib.fromStrExact row.endingBalance).toOption = some amount := hamount
    simp [hamount, hparse]
  rw [endings, List.filterMap_congr hread, List.filterMap_eq_map', SortedMap.valuesAt,
    List.filter_map, List.map_map, balancesAt]
  rfl

/-- What `reconcile` passes is sound exactly when every trial balance row parses, and neither the
rows of an account number nor the expected labels with it lose anything when only the last of them
is kept. -/
theorem sound_iff (lib : Externals ℚ) (self : AdsExtract) (expected : SortedMap String ℚ)
    (h : self.reconcile lib expected = .ok ()) :
    Sound lib self expected ↔
      (∀ row ∈ self.trialBalance, ∃ amount, lib.fromStrExact row.endingBalance = .ok amount) ∧
        (∀ number,
          (SortedMap.valuesAt (endings lib self.trialBalance) number).dropLast.sum = 0) ∧
        ∀ number, (SortedMap.valuesAt (byNumber expected) number).dropLast.sum = 0 := by
  rcases (reconcile_eq_ok_iff self expected).1 h with ⟨hparsed, hfoots, hbalances⟩
  have hsigned : ∀ number, ∀ row ∈ rowsAt self.glDetail number, (row.signed lib).isSome := by
    intro number row hrow
    rw [GlDetailRow.isSome_signed]
    exact hparsed row (List.mem_of_mem_filter hrow)
  have hending : (∀ row ∈ self.trialBalance, (row.ending lib).isSome) ↔
      ∀ row ∈ self.trialBalance, ∃ amount, lib.fromStrExact row.endingBalance = .ok amount := by
    refine forall₂_congr fun row _ => ?_
    cases hread : lib.fromStrExact row.endingBalance <;>
      simp [TrialBalanceRow.ending, hread, Except.toOption]
  rw [← hending]
  constructor
  · intro hsound
    have hall : ∀ row ∈ self.trialBalance, (row.ending lib).isSome := by
      intro row hrow
      rcases hsound.balances row.accountNumber with ⟨total, -, htb, -⟩
      exact (sumOf_eq_some_iff.1 htb).1 row (List.mem_filter.2 ⟨hrow, by simp⟩)
    refine ⟨hall, fun number => ?_, fun number => ?_⟩
    -- The last row is what was compared, the others must make no difference.
    · rcases hsound.balances number with ⟨sum, hgl, htb, -⟩
      have hlast := getD_ofList (endings lib self.trialBalance) number
      have hsum : (SortedMap.valuesAt (endings lib self.trialBalance) number).sum = sum := by
        rw [valuesAt_endings hall]
        exact (sumOf_eq_some_iff.1 htb).2
      have hderived : total (GlDetailRow.signed lib) (rowsAt self.glDetail number) = sum :=
        (sumOf_eq_some_iff.1 hgl).2
      have hcompared := (hbalances number).1
      linarith
    · rcases hsound.balances number with ⟨sum, hgl, -, hexpected⟩
      have hlast := getD_ofList (byNumber expected) number
      have hderived : total (GlDetailRow.signed lib) (rowsAt self.glDetail number) = sum :=
        (sumOf_eq_some_iff.1 hgl).2
      have hcompared := (hbalances number).2
      linarith
  -- Nothing is lost on the way into the maps, so what they hold are the sums.
  · rintro ⟨hall, htb, hexpected⟩
    refine ⟨⟨_, sumOf_eq_some_iff.2 ⟨?_, rfl⟩, sumOf_eq_some_iff.2 ⟨?_, hfoots.symm⟩⟩, ?_⟩
    · exact fun row hrow => hparsed row (List.mem_of_mem_filter hrow)
    · exact fun row hrow => hparsed row (List.mem_of_mem_filter hrow)
    · intro number
      have hlast := getD_ofList (endings lib self.trialBalance) number
      have hlast' := getD_ofList (byNumber expected) number
      rw [htb number, add_zero] at hlast
      rw [hexpected number, add_zero] at hlast'
      rcases hbalances number with ⟨hfirst, hsecond⟩
      refine ⟨_, sumOf_eq_some_iff.2 ⟨hsigned number, rfl⟩, sumOf_eq_some_iff.2 ⟨?_, ?_⟩, ?_⟩
      · exact fun row hrow => hall row (List.mem_of_mem_filter hrow)
      · rw [← valuesAt_endings hall, ← hlast, ← hfirst]
        rfl
      · rw [← hlast', ← hsecond]
        rfl

/-- One side of a sale of 100.00. -/
def saleRow (number indicator : String) : GlDetailRow where
  journalId := "core-001-cash-sale-000"
  lineNumber := 1
  headerDescription := ""
  lineDescription := ""
  source := "MANUAL"
  businessUnit := "US_PARENT"
  effectiveDate := "2026-01-15"
  fiscalYear := "2026"
  period := "01"
  accountNumber := number
  amount := "100.00"
  indicator := indicator
  currency := "USD"
  enteredBy := ""
  enteredDate := ""
  approvedBy := ""
  approvedDate := ""
  reversalIndicator := "N"
  reversalJournalId := ""
  sourceUsageEventIds := ""

def saleBalance (number ending : String) : TrialBalanceRow where
  businessUnit := "US_PARENT"
  accountNumber := number
  fiscalYear := "2026"
  period := "01"
  beginningBalance := "0"
  endingBalance := ending
  currency := "USD"

/-- The extract of a sale. -/
def saleExtract : AdsExtract where
  glDetail := [saleRow "1000" "D", saleRow "4000" "C"]
  trialBalance := [saleBalance "1000" "100.00", saleBalance "4000" "-100.00"]
  chartOfAccounts := []
  sourceListing := []
  businessUnitListing := []

/-- The trial balance file has a second row for the cash account. -/
def doubledExtract : AdsExtract :=
  { saleExtract with trialBalance := saleBalance "1000" "60.00" :: saleExtract.trialBalance }

def saleBalances : SortedMap String ℚ :=
  .ofList [("1000-Cash", 100), ("4000-Revenue", -100)]

/-- Libraries that read the number a text writes. -/
def writtenExternals : Externals ℚ :=
  smallExternals written fun q => q < 0

theorem sound_saleExtract : Sound writtenExternals saleExtract saleBalances := by
  -- Of two amounts under different numbers none has another before it.
  have hlone : ∀ (a b : ℚ) (number : String),
      (SortedMap.valuesAt [("1000", a), ("4000", b)] number).dropLast.sum = 0 := by
    intro a b number
    by_cases hcash : "1000" = number
    · subst hcash
      simp [SortedMap.valuesAt]
    · by_cases hrevenue : "4000" = number <;> simp [SortedMap.valuesAt, hcash, hrevenue]
  have hrows : endings writtenExternals saleExtract.trialBalance =
      [("1000", 100), ("4000", -100)] := by decide +kernel
  have hlabels : byNumber saleBalances = [("1000", 100), ("4000", -100)] := by decide +kernel
  refine (sound_iff writtenExternals saleExtract saleBalances (by decide +kernel)).2 ⟨?_, ?_, ?_⟩
  · intro row hrow
    have hread : ∀ row ∈ saleExtract.trialBalance,
        (writtenExternals.fromStrExact row.endingBalance).toOption.isSome = true := by
      decide +kernel
    exact ⟨_, eq_ok_get (hread row hrow)⟩
  · rw [hrows]
    exact hlone 100 (-100)
  · rw [hlabels]
    exact hlone 100 (-100)

/-- The extract is passed, though the detail rows of account 1000 add up to 100 and its trial
balance rows to 160. -/
theorem reconcile_doubledExtract :
    doubledExtract.reconcile writtenExternals saleBalances = .ok () ∧
      sumOf (GlDetailRow.signed writtenExternals) (rowsAt doubledExtract.glDetail "1000") =
        some 100 ∧
      sumOf (TrialBalanceRow.ending writtenExternals)
        (balancesAt doubledExtract.trialBalance "1000") = some 160 ∧
      ¬Sound writtenExternals doubledExtract saleBalances := by
  have hdetail : sumOf (GlDetailRow.signed writtenExternals)
      (rowsAt doubledExtract.glDetail "1000") = some 100 := by decide +kernel
  have hending : sumOf (TrialBalanceRow.ending writtenExternals)
      (balancesAt doubledExtract.trialBalance "1000") = some 160 := by decide +kernel
  refine ⟨by decide +kernel, hdetail, hending, fun hsound => ?_⟩
  rcases hsound.balances "1000" with ⟨total, hgl, htb, -⟩
  have heq : some (100 : ℚ) = some 160 := by rw [← hdetail, hgl, ← htb, hending]
  revert heq
  decide +kernel

end AdsExtract

end Falkr
