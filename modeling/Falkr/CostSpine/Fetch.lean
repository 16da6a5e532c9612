import Falkr.CostSpine.Aws
import Falkr.Lib.Lists
import Falkr.Lib.Returning
import Mathlib.Data.List.Nodup

/-!
# Fetch — reading the exports of a source

A source lists its exports oldest first and a fetch reads them from the cursor's export on, that one
included, because an open period is restated in place.  The CSV reader is an argument; the first
error of any export is the answer of the whole fetch.
-/

namespace Falkr

open Lib

/-- Where a connector left off. -/
structure Cursor where
  lastChargePeriodEnd : Option DateTimeUtc
  lastExportRef : Option String

def Cursor.beginning : Cursor where
  lastChargePeriodEnd := none
  lastExportRef := none

inductive ConnectorError
  | transport (detail : String)
  | malformedExport (exportRef detail : String)
  | unauthorized (provider : ProviderKind)
  deriving DecidableEq

/-- Identifies one delivered export file. -/
structure ExportRef where
  key : String
  billingPeriod : String
  deriving DecidableEq, Repr

/-- Reads CSV bytes: the headers and the records, or what is wrong with them. -/
abbrev CsvReader := List UInt8 → Except String (List String × List (List String))

/-- An in-memory export source. -/
structure InMemoryExportSource where
  exports : List (ExportRef × List UInt8)

namespace InMemoryExportSource

/-- Where a fetch resumes: at the cursor's export, or at the first when there is none such. -/
def start (self : InMemoryExportSource) (cursor : Cursor) : Nat :=
  match cursor.lastExportRef with
  | none => 0
  | some last => (self.exports.findIdx? fun e => e.1.key = last).getD 0

def listExports (self : InMemoryExportSource) (cursor : Cursor) :
    Except ConnectorError (List ExportRef) :=
  .ok ((self.exports.drop (self.start cursor)).map Prod.fst)

def readExport (self : InMemoryExportSource) (ref : ExportRef) :
    Except ConnectorError (List UInt8) :=
  match self.exports.find? fun e => e.1.key = ref.key with
  | some e => .ok e.2
  | none => .error (.malformedExport ref.key "export not found")

end InMemoryExportSource

/-- The records of the bytes of one export. -/
def exportRecords (readCsv : CsvReader) (ref : ExportRef) (bytes : List UInt8) :
    Except ConnectorError (List RawCostRecord) := do
  let (headers, records) ← (readCsv bytes).mapError (.malformedExport ref.key)
  let delivered : FocusExport :=
    { key := ref.key
      billingPeriod := ref.billingPeriod
      headers := headers
      records := records }
  pure delivered.rawRecords

/-- The loop of `fetch_since`. -/
def fetchExports (readCsv : CsvReader) (source : InMemoryExportSource) :
    List ExportRef → List RawCostRecord → Except ConnectorError (List RawCostRecord)
  | [], records => .ok records
  | ref :: rest, records => do
      let bytes ← source.readExport ref
      let read ← exportRecords readCsv ref bytes
      fetchExports readCsv source rest (records ++ read)

/-- Pulls the raw records delivered since a cursor. -/
def fetchSince (readCsv : CsvReader) (source : InMemoryExportSource) (cursor : Cursor) :
    Except ConnectorError (List RawCostRecord) := do
  let exports ← source.listExports cursor
  fetchExports readCsv source exports []

/-! ## What a fetch reads -/

section Reads

variable {readCsv : CsvReader}

/-- No two exports of a source have one key. -/
def DistinctKeys (source : InMemoryExportSource) : Prop :=
  (source.exports.map fun e => e.1.key).Nodup

instance (source : InMemoryExportSource) : Decidable (DistinctKeys source) :=
  inferInstanceAs (Decidable (List.Nodup _))

/-- The bytes of each export yield these records. -/
def ReadsAs (readCsv : CsvReader) (exports : List (ExportRef × List UInt8))
    (read : List (List RawCostRecord)) : Prop :=
  List.Forall₂ (fun e records => exportRecords readCsv e.1 e.2 = .ok records) exports read

theorem readExport_of_mem {source : InMemoryExportSource} (hkeys : DistinctKeys source)
    {e : ExportRef × List UInt8} (hmem : e ∈ source.exports) :
    source.readExport e.1 = .ok e.2 := by
  rw [InMemoryExportSource.readExport]
  cases hfind : source.exports.find? fun other => other.1.key = e.1.key with
  | none =>
      have hno := List.find?_eq_none.1 hfind e hmem
      simp at hno
  | some other =>
      have hkey : other.1.key = e.1.key := by simpa using List.find?_some hfind
      have hsame : other = e :=
        List.inj_on_of_nodup_map hkeys (List.mem_of_find?_eq_some hfind) hmem hkey
      rw [hsame]

theorem fetchExports_eq_ok_iff {source : InMemoryExportSource} (hkeys : DistinctKeys source) :
    ∀ {exports : List (ExportRef × List UInt8)} (before records : List RawCostRecord),
      (∀ e ∈ exports, e ∈ source.exports) →
      (fetchExports readCsv source (exports.map Prod.fst) before = .ok records ↔
        ∃ read, ReadsAs readCsv exports read ∧ records = before ++ read.flatten) := by
  intro exports
  induction exports with
  | nil =>
      intro before records _
      constructor
      · intro h
        cases h
        exact ⟨[], .nil, by simp⟩
      · rintro ⟨read, hread, rfl⟩
        cases hread
        simp [fetchExports]
  | cons e rest ih =>
      intro before records hmem
      rcases List.forall_mem_cons.1 hmem with ⟨hfirst, hrest⟩
      -- An export is read back under its key, which no other one has.
      have hbytes := readExport_of_mem hkeys hfirst
      constructor
      · intro h
        rcases bind_eq_ok h with ⟨bytes, hb, h⟩
        cases hbytes.symm.trans hb
        rcases bind_eq_ok h with ⟨first, hrecords, h⟩
        rcases (ih _ _ hrest).1 h with ⟨read, hread, rfl⟩
        exact ⟨first :: read, .cons hrecords hread, by simp⟩
      · rintro ⟨read, hread, rfl⟩
        cases hread with
        | @cons _ first _ later hrecords hread =>
            have hloop := (ih (before ++ first) _ hrest).2 ⟨later, hread, rfl⟩
            simp only [List.map_cons, fetchExports, hbytes, hrecords, bind, Except.bind, hloop,
              List.flatten_cons, List.append_assoc]

/-- A fetch goes through if every export from the cursor's on is well formed, and returns their
records in order. -/
theorem fetchSince_eq_ok_iff {source : InMemoryExportSource} (hkeys : DistinctKeys source)
    {cursor : Cursor} {records : List RawCostRecord} :
    fetchSince readCsv source cursor = .ok records ↔
      ∃ read, ReadsAs readCsv (source.exports.drop (source.start cursor)) read ∧
        records = read.flatten := by
  have hmem : ∀ e ∈ source.exports.drop (source.start cursor), e ∈ source.exports :=
    fun e => List.mem_of_mem_drop
  have hloop : fetchSince readCsv source cursor = .ok records ↔
      ∃ read, ReadsAs readCsv (source.exports.drop (source.start cursor)) read ∧
        records = [] ++ read.flatten := fetchExports_eq_ok_iff hkeys [] records hmem
  exact hloop

/-- At the key of an export, a fetch resumes with that export. -/
theorem start_of_append {closed later : List (ExportRef × List UInt8)}
    {last : ExportRef × List UInt8} {source : InMemoryExportSource} {cursor : Cursor}
    (hkeys : DistinctKeys source) (hexports : source.exports = closed ++ last :: later)
    (hcursor : cursor.lastExportRef = some last.1.key) : source.start cursor = closed.length := by
  have hfind : source.exports.findIdx? (fun e => e.1.key = last.1.key) = some closed.length := by
    rw [DistinctKeys, hexports, List.map_append, List.map_cons] at hkeys
    rw [hexports, List.findIdx?_append]
    -- No export in front of it has its key.
    have hnone : closed.findIdx? (fun e => decide (e.1.key = last.1.key)) = none := by
      rw [List.findIdx?_eq_none_iff]
      intro e hmem
      rw [decide_eq_false_iff_not]
      exact (List.nodup_append.1 hkeys).2.2 _ (List.mem_map_of_mem hmem) _ List.mem_cons_self
    simp [hnone, List.findIdx?_cons]
  simp [InMemoryExportSource.start, hcursor, hfind]

end Reads

end Falkr
