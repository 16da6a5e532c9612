import Falkr.CostSpine.Fetch
import Falkr.Infra.CostHistory
import Falkr.Infra.CostRestatement

/-!
# CostPolling — ingestion that resumes where it left off

Between two polls a source grows: its last export, that of the open period, may be restated in place,
and exports may be added.  A poll that resumes at the last export it has seen skips what no longer
changes.  As long as a restated export drops no line, the store ends up with the contents that one
ingestion of everything would have left (`polling_stores_same`): under each key the last record that
was fetched is the last record there is.

A line that is dropped from an open export stays stored; nothing in the store deletes.
-/

namespace Falkr

open Lib

/-! ## Polls -/

/-- From one poll to the next: the exports before the last one stay as they are. -/
inductive Grows : InMemoryExportSource → InMemoryExportSource → Prop
  | first (source : InMemoryExportSource) : Grows ⟨[]⟩ source
  | restated (closed : List (ExportRef × List UInt8)) (ref : ExportRef)
      (bytes bytes' : List UInt8) (added : List (ExportRef × List UInt8)) :
      Grows ⟨closed ++ [(ref, bytes)]⟩ ⟨closed ++ (ref, bytes') :: added⟩

/-- Where a poll left off: at the last export it has listed. -/
def cursorAt (source : InMemoryExportSource) (lastChargePeriodEnd : Option DateTimeUtc) :
    Cursor where
  lastChargePeriodEnd := lastChargePeriodEnd
  lastExportRef := source.exports.getLast?.map fun e => e.1.key

section Polls

variable {κ : Type} (readCsv : CsvReader) (key : RawCostRecord → κ)

/-- Every line that was in the last export is in it still. -/
def KeepsLines (source source' : InMemoryExportSource) : Prop :=
  ∀ e ∈ source.exports, ∀ e' ∈ source'.exports, e'.1 = e.1 →
    ∀ records records', exportRecords readCsv e.1 e.2 = .ok records →
      exportRecords readCsv e'.1 e'.2 = .ok records' →
      ∀ record ∈ records, ∃ record' ∈ records', key record' = key record

/-- The source at the last of some polls, with all records that they fetched. -/
inductive Polled : InMemoryExportSource → List RawCostRecord → Prop
  | first {source : InMemoryExportSource} {records : List RawCostRecord} :
      DistinctKeys source → fetchSince readCsv source Cursor.beginning = .ok records →
      Polled source records
  | next {source source' : InMemoryExportSource} {earlier records : List RawCostRecord}
      (lastChargePeriodEnd : Option DateTimeUtc) :
      Polled source earlier → Grows source source' → KeepsLines readCsv key source source' →
      DistinctKeys source' →
      fetchSince readCsv source' (cursorAt source lastChargePeriodEnd) = .ok records →
      Polled source' (earlier ++ records)

end Polls

section Keys

variable {κ : Type} {readCsv : CsvReader} {key : RawCostRecord → κ}

theorem Polled.distinctKeys {source : InMemoryExportSource} {fetched : List RawCostRecord}
    (h : Polled readCsv key source fetched) : DistinctKeys source := by
  cases h with
  | first hkeys _ => exact hkeys
  | next _ _ _ _ hkeys _ => exact hkeys

end Keys

/-! ## The last record under a key -/

section LastRecord

variable {κ : Type} [DecidableEq κ] {readCsv : CsvReader} {key : RawCostRecord → κ}

/-- The last record under a key. -/
def lastUnder (key : RawCostRecord → κ) (k : κ) (records : List RawCostRecord) :
    Option RawCostRecord :=
  (writesTo key k records).getLast?

theorem lastUnder_append (k : κ) (first second : List RawCostRecord) :
    lastUnder key k (first ++ second) = (lastUnder key k second).or (lastUnder key k first) := by
  rw [lastUnder, writesTo_append, List.getLast?_append]
  rfl

theorem lastUnder_eq_none_iff {k : κ} {records : List RawCostRecord} :
    lastUnder key k records = none ↔ ∀ record ∈ records, key record ≠ k := by
  simp [lastUnder, writesTo]

theorem readsAs_append {first second : List (ExportRef × List UInt8)} :
    ∀ {read : List (List RawCostRecord)}, ReadsAs readCsv (first ++ second) read ↔
      ∃ read₁ read₂, read = read₁ ++ read₂ ∧ ReadsAs readCsv first read₁ ∧
        ReadsAs readCsv second read₂ := by
  induction first with
  | nil =>
      intro read
      constructor
      · exact fun h => ⟨[], read, rfl, .nil, h⟩
      · rintro ⟨read₁, read₂, rfl, hnil, h⟩
        cases hnil
        exact h
  | cons e first ih =>
      intro read
      constructor
      · intro h
        cases h with
        | @cons _ records _ rest hrecords hrest =>
            rcases ih.1 hrest with ⟨read₁, read₂, rfl, h₁, h₂⟩
            exact ⟨records :: read₁, read₂, rfl, .cons hrecords h₁, h₂⟩
      · rintro ⟨read₁, read₂, rfl, h₁, h₂⟩
        cases h₁ with
        | cons hrecords h₁ => exact .cons hrecords (ih.2 ⟨_, read₂, rfl, h₁, h₂⟩)

/-- A fetch of everything reads every export. -/
theorem fetchSince_beginning {source : InMemoryExportSource} (hkeys : DistinctKeys source)
    {records : List RawCostRecord} :
    fetchSince readCsv source Cursor.beginning = .ok records ↔
      ∃ read, ReadsAs readCsv source.exports read ∧ records = read.flatten :=
  fetchSince_eq_ok_iff hkeys

/-- A key that a restated export and those after it do not have was not in that export before. -/
theorem KeepsLines.lastUnder_eq_none {closed added : List (ExportRef × List UInt8)}
    {ref : ExportRef} {bytes bytes' : List UInt8} {old : List RawCostRecord}
    {resumed : List (List RawCostRecord)} {k : κ}
    (h : KeepsLines readCsv key ⟨closed ++ [(ref, bytes)]⟩ ⟨closed ++ (ref, bytes') :: added⟩)
    (hold : exportRecords readCsv ref bytes = .ok old)
    (hresumed : ReadsAs readCsv ((ref, bytes') :: added) resumed)
    (hnone : lastUnder key k resumed.flatten = none) : lastUnder key k [old].flatten = none := by
  cases hresumed with
  | @cons _ new _ later hnew _ =>
      rw [lastUnder_eq_none_iff] at hnone ⊢
      intro record hmem
      rcases h (ref, bytes) (by simp) (ref, bytes') (by simp) rfl old new hold hnew record
        (by simpa using hmem) with ⟨record', hmem', hkey⟩
      rw [← hkey]
      exact hnone record' (List.mem_flatten_of_mem List.mem_cons_self hmem')

/-- Whatever the polls fetched, one more fetch of everything would go through, and under each key
its last record is the one that they fetched last. -/
theorem lastUnder_of_polled {source : InMemoryExportSource} {fetched : List RawCostRecord}
    (h : Polled readCsv key source fetched) :
    ∃ full, fetchSince readCsv source Cursor.beginning = .ok full ∧
      ∀ k, lastUnder key k fetched = lastUnder key k full := by
  induction h with
  | first hkeys hfetch => exact ⟨_, hfetch, fun _ => rfl⟩
  | @next source source' earlier records lastChargePeriodEnd hpolled hgrows hkeeps hkeys hfetch
      ih =>
      rcases ih with ⟨full, hfull, hlast⟩
      rcases (fetchSince_beginning hpolled.distinctKeys).1 hfull with ⟨read, hread, rfl⟩
      rcases (fetchSince_eq_ok_iff hkeys).1 hfetch with ⟨resumed, hresumed, rfl⟩
      cases hgrows with
      | first source' =>
          -- Nothing was listed before, so the poll reads from the beginning.
          cases hread
          refine ⟨resumed.flatten, (fetchSince_beginning hkeys).2 ⟨resumed, hresumed, rfl⟩, ?_⟩
          intro k
          rw [lastUnder_append, hlast k]
          simp [lastUnder]
      | restated closed ref bytes bytes' added =>
          -- The poll resumes at the open export, and the closed ones read as they did before.
          rcases readsAs_append.1 hread with ⟨older, last, rfl, holder, hlastRead⟩
          rcases hlastRead with - | ⟨hold, hnil⟩
          cases hnil
          have hcursor : (cursorAt ⟨closed ++ [(ref, bytes)]⟩ lastChargePeriodEnd).lastExportRef =
              some ref.key := by simp [cursorAt]
          rw [start_of_append hkeys rfl hcursor, List.drop_left] at hresumed
          refine ⟨(older ++ resumed).flatten,
            (fetchSince_beginning hkeys).2 ⟨_, readsAs_append.2 ⟨_, _, rfl, holder, hresumed⟩, rfl⟩,
            fun k => ?_⟩
          rw [lastUnder_append, hlast k, List.flatten_append, List.flatten_append,
            lastUnder_append, lastUnder_append]
          cases hnew : lastUnder key k resumed.flatten with
          | some record => rfl
          | none =>
              -- What was under the key in the open export would be in it still.
              have hopen := hkeeps.lastUnder_eq_none hold hresumed hnew
              rw [hopen]
              rfl

end LastRecord

/-! ## The rows of the records -/

section Rows

variable {libs : Libraries} {connector : AwsFocusConnector}

/-- The identity that a record is stored under. -/
def recordIdentity (libs : Libraries) (connector : AwsFocusConnector) (raw : RawCostRecord) :
    TenantId × String × String :=
  (connector.ctx.tenantId, ProviderKind.aws.asStr,
    deriveExternalId libs raw.row raw.billingPeriod)

/-- A row that a record is bound as. -/
def BoundAs (libs : Libraries) (connector : AwsFocusConnector) (raw : RawCostRecord)
    (row : CostRow) : Prop :=
  ∃ now newId event, normalize libs connector raw now newId = .ok event ∧
    encodeEvent event = .ok row

/-- Two rows that say the same of one line, whenever and wherever it was delivered. -/
def SameContent (row row' : CostRow) : Prop :=
  { row with
    id := row'.id
    sourceExportRef := row'.sourceExportRef
    sourceBillingPeriod := row'.sourceBillingPeriod
    sourceIngestedAt := row'.sourceIngestedAt } = row'

/-- No two of these records have the same hash and different texts. -/
def ToldApart (libs : Libraries) (records : List RawCostRecord) : Prop :=
  ∀ raw ∈ records, ∀ raw' ∈ records,
    libs.sha256 (libs.jsonToString raw.row) = libs.sha256 (libs.jsonToString raw'.row) →
      libs.jsonToString raw.row = libs.jsonToString raw'.row

/-- The record of a line of an export. -/
def FromExport (raw : RawCostRecord) : Prop :=
  ∃ (delivered : FocusExport) (record : List String), raw = delivered.rawRecord record

theorem BoundAs.identity {raw : RawCostRecord} {row : CostRow} (h : BoundAs libs connector raw row) :
    row.identity = recordIdentity libs connector raw := by
  rcases h with ⟨now, newId, event, hnormalize, hencode⟩
  have hread := normalizedFrom_of_normalize hnormalize
  rw [(identity_of_encodeEvent hencode).1, CostEvent.identity, hread.tenantId, hread.provider,
    hread.externalId]
  rfl

/-- With a hash that tells them apart, rows of one content hash were read from equal cells. -/
theorem BoundAs.row_eq (hjson : libs.jsonToString = Json.compact) {raw raw' : RawCostRecord}
    {row row' : CostRow} (h : BoundAs libs connector raw row) (h' : BoundAs libs connector raw' row')
    (hexport : FromExport raw) (hexport' : FromExport raw')
    (htold : libs.sha256 (libs.jsonToString raw.row) = libs.sha256 (libs.jsonToString raw'.row) →
      libs.jsonToString raw.row = libs.jsonToString raw'.row)
    (hhash : row.sourceContentHash = row'.sourceContentHash) : raw.row = raw'.row := by
  rcases h with ⟨now, newId, event, hnormalize, hencode⟩
  rcases h' with ⟨now', newId', event', hnormalize', hencode'⟩
  rcases hexport with ⟨delivered, record, rfl⟩
  rcases hexport' with ⟨delivered', record', rfl⟩
  -- Both hashes are of the texts of the cells.
  let a : RowEvent libs := ⟨connector, delivered, record, now, newId, event, hnormalize⟩
  let b : RowEvent libs := ⟨connector, delivered', record', now', newId', event', hnormalize'⟩
  have hfree : CollisionFree a b := htold
  rw [(identity_of_encodeEvent hencode).2.1, (identity_of_encodeEvent hencode').2.1] at hhash
  exact (row_eq_iff a b).2 ((contentHash_eq_iff hjson hfree).1 hhash)

/-- Equal cells make one event, up to its identifier and where it came from. -/
theorem normalize_of_row_eq {raw raw' : RawCostRecord} (hrow : raw.row = raw'.row)
    {now now' : DateTimeUtc} {newId newId' : CostEventId} {event event' : CostEvent}
    (h : normalize libs connector raw now newId = .ok event)
    (h' : normalize libs connector raw' now' newId' = .ok event') :
    event' = { event with id := event'.id, sourceRef := event'.sourceRef } := by
  unfold normalize at h h'
  rw [← hrow] at h'
  -- Every step reads the cells alone, so on both sides it comes to the same.
  rcases bind_eq_ok_both h h' with ⟨dims, h, h'⟩
  rcases bind_eq_ok_both h h' with ⟨account, h, h'⟩
  rcases bind_eq_ok_both h h' with ⟨startText, h, h'⟩
  rcases bind_eq_ok_both h h' with ⟨start, h, h'⟩
  rcases bind_eq_ok_both h h' with ⟨stopText, h, h'⟩
  rcases bind_eq_ok_both h h' with ⟨stop, h, h'⟩
  rcases bind_eq_ok_both h h' with ⟨billed, h, h'⟩
  rcases bind_eq_ok_both h h' with ⟨effective, h, h'⟩
  rcases bind_eq_ok_both h h' with ⟨list, h, h'⟩
  rcases bind_eq_ok_both h h' with ⟨service, h, h'⟩
  rcases bind_eq_ok_both h h' with ⟨category, h, h'⟩
  rcases bind_eq_ok_both h h' with ⟨chargeCategory, h, h'⟩
  rw [new_eq_ok (mapError_eq_ok.1 h), new_eq_ok (mapError_eq_ok.1 h')]

/-- Equal cells are stored as one content. -/
theorem BoundAs.sameContent {raw raw' : RawCostRecord} {row row' : CostRow}
    (h : BoundAs libs connector raw row) (h' : BoundAs libs connector raw' row')
    (hrow : raw.row = raw'.row) (hidentity : row.identity = row'.identity) :
    SameContent row row' := by
  rcases h with ⟨now, newId, event, hnormalize, hencode⟩
  rcases h' with ⟨now', newId', event', hnormalize', hencode'⟩
  -- The events differ in nothing but the identifier and where they were read.
  have hevent := normalize_of_row_eq hrow hnormalize hnormalize'
  have hhash : event.sourceRef.contentHash = event'.sourceRef.contentHash := by
    rw [(normalizedFrom_of_normalize hnormalize).contentHash,
      (normalizedFrom_of_normalize hnormalize').contentHash, hrow]
  rcases encodeEvent_eq_ok.1 hencode with ⟨-, -, billed, effective, list, hamounts, rfl⟩
  rcases encodeEvent_eq_ok.1 hencode' with ⟨-, -, billed', effective', list', hamounts', rfl⟩
  rw [hevent] at hamounts'
  cases hamounts.billed.symm.trans hamounts'.billed
  cases hamounts.effective.symm.trans hamounts'.effective
  cases hamounts.list.symm.trans hamounts'.list
  -- The provider and the external id are those of the identity.
  have hsource := (Prod.mk.inj hidentity).2
  rw [hevent] at hsource ⊢
  simp only [SameContent, CostEvent.row, CostEvent.currency] at hsource ⊢
  rw [(Prod.mk.inj hsource).1, (Prod.mk.inj hsource).2, hhash]

/-- What some calls stored is read from these records, in this order. -/
def Delivers (libs : Libraries) (connector : AwsFocusConnector) (records : List RawCostRecord)
    (calls : List CostCall) : Prop :=
  List.Forall₂ (BoundAs libs connector) records (CostHistory.after calls).delivered

theorem forall₂_boundRows {libs : Libraries} {connector : AwsFocusConnector}
    {raws : List RawCostRecord} {events : List CostEvent}
    (hnormalized : List.Forall₂ (fun raw event => ∃ now newId,
      normalize libs connector raw now newId = .ok event) raws events)
    (hrows : ∀ event ∈ events, (encodeEvent event).toOption.isSome = true) :
    List.Forall₂ (BoundAs libs connector) raws (boundRows events) := by
  induction hnormalized with
  | nil => exact .nil
  | cons hfirst _ ih =>
      rcases hfirst with ⟨now, newId, hnormalize⟩
      rcases List.forall_mem_cons.1 hrows with ⟨hrow, hrest⟩
      have hencode := eq_ok_get hrow
      rw [boundRows, List.filterMap_cons, hencode]
      exact .cons ⟨now, newId, _, hnormalize, hencode⟩ (ih hrest)

/-- A further call that goes through delivers the records of its events. -/
theorem Delivers.concat {libs : Libraries} {connector : AwsFocusConnector}
    {records raws : List RawCostRecord} {calls : List CostCall} {call : CostCall}
    (h : Delivers libs connector records calls)
    (hcall : (upsert (CostHistory.after calls).table call.events call.env).2.toOption.isSome = true)
    (hevents : List.Forall₂ (fun raw event => ∃ now newId,
      normalize libs connector raw now newId = .ok event) raws call.events)
    (hrows : ∀ event ∈ call.events, (encodeEvent event).toOption.isSome = true) :
    Delivers libs connector (records ++ raws) (calls ++ [call]) := by
  rw [Delivers, CostHistory.after, List.foldl_append]
  have hdelivered := CostHistory.delivered_call (CostHistory.after calls) call hcall
  rw [CostHistory.after] at hdelivered
  rw [List.foldl_cons, List.foldl_nil, hdelivered]
  exact List.rel_append h (forall₂_boundRows hevents hrows)

/-- A row is stored under the identity with the cells of this record. -/
def HoldsCells (libs : Libraries) (connector : AwsFocusConnector)
    (identity : TenantId × String × String) (last : RawCostRecord) (stored : CostRow) : Prop :=
  ∃ raw bound, BoundAs libs connector raw bound ∧ raw.row = last.row ∧
    bound.identity = identity ∧ stored = { bound with id := stored.id }

theorem HoldsCells.sameContent {identity : TenantId × String × String} {last : RawCostRecord}
    {stored stored' : CostRow} (h : HoldsCells libs connector identity last stored)
    (h' : HoldsCells libs connector identity last stored') : SameContent stored stored' := by
  rcases h with ⟨raw, bound, hbound, hrow, hidentity, hstored⟩
  rcases h' with ⟨raw', bound', hbound', hrow', hidentity', hstored'⟩
  have hsame := hbound.sameContent hbound' (hrow.trans hrow'.symm) (hidentity.trans hidentity'.symm)
  rw [SameContent] at hsame
  rw [SameContent, hstored, hstored', ← hsame]

/-- The cells stored under an identity are those of its last record. -/
theorem stored_of_delivers (hjson : libs.jsonToString = Json.compact)
    {records : List RawCostRecord} {calls : List CostCall}
    (hdelivers : Delivers libs connector records calls)
    (hexport : ∀ raw ∈ records, FromExport raw) (htold : ToldApart libs records)
    (identity : TenantId × String × String) :
    Option.Rel (HoldsCells libs connector identity)
      (lastUnder (recordIdentity libs connector) identity records)
      (findRow identity (CostHistory.after calls).table) := by
  -- Records and deliveries correspond one by one, also those under one identity.
  have hdeliveries : List.Forall₂ (BoundAs libs connector)
      (writesTo (recordIdentity libs connector) identity records)
      (deliveriesOf identity (CostHistory.after calls).delivered) := by
    apply List.rel_filter _ hdelivers
    intro raw row hbound
    simp [hbound.identity]
  have hlast := forall₂_getLast? hdeliveries
  have hhash := map_sourceContentHash_storedRow identity (CostHistory.after calls).delivered
  rw [(CostHistory.accounted_after calls).registered.find identity, lastUnder]
  cases hstored : storedRow identity (CostHistory.after calls).delivered with
  | none =>
      rw [hstored, Option.map_none, eq_comm, Option.map_eq_none_iff] at hhash
      rw [hhash] at hlast
      cases hraw : (writesTo (recordIdentity libs connector) identity records).getLast? with
      | none => exact .none
      | some last =>
          rw [hraw] at hlast
          cases hlast
  | some stored =>
      rw [hstored, Option.map_some, eq_comm] at hhash
      rcases Option.map_eq_some_iff.1 hhash with ⟨row, hrow, heq⟩
      rw [hrow] at hlast
      cases hraw : (writesTo (recordIdentity libs connector) identity records).getLast? with
      | none =>
          rw [hraw] at hlast
          cases hlast
      | some last =>
          rw [hraw] at hlast
          cases hlast with
          | some hbound =>
              -- The stored row was bound from another record perhaps, but from equal cells.
              rcases settled_of_storedRow hstored with ⟨settled, hsettled, hsame⟩
              rcases exists_mem_of_forall₂ hdeliveries.flip settled hsettled with ⟨raw, hmem, hbound'⟩
              have hmemLast := (mem_writesTo.1 (List.mem_of_getLast? hraw)).1
              have hmemRaw := (mem_writesTo.1 hmem).1
              have hcontent : settled.sourceContentHash = row.sourceContentHash := by
                rw [heq, hsame]
              have hcells := BoundAs.row_eq hjson hbound' hbound (hexport _ hmemRaw) (hexport _ hmemLast)
                (htold _ hmemRaw _ hmemLast) hcontent
              exact .some ⟨raw, settled, hbound', hcells, (mem_writesTo.1 hsettled).2, hsame⟩

/-! ## Polling and reading everything -/

theorem fromExport_of_readsAs {readCsv : CsvReader} {exports : List (ExportRef × List UInt8)}
    {read : List (List RawCostRecord)} (h : ReadsAs readCsv exports read) :
    ∀ raw ∈ read.flatten, FromExport raw := by
  induction h with
  | nil => simp
  | @cons e records _ _ hrecords _ ih =>
      rw [List.flatten_cons, List.forall_mem_append]
      refine ⟨?_, ih⟩
      rcases bind_eq_ok hrecords with ⟨⟨headers, lines⟩, -, hpure⟩
      cases hpure
      intro raw hmem
      rcases List.mem_map.1 hmem with ⟨record, -, rfl⟩
      exact ⟨_, record, rfl⟩

theorem fromExport_of_fetchSince {readCsv : CsvReader} {source : InMemoryExportSource}
    {cursor : Cursor} {records : List RawCostRecord} (hkeys : DistinctKeys source)
    (h : fetchSince readCsv source cursor = .ok records) : ∀ raw ∈ records, FromExport raw := by
  rcases (fetchSince_eq_ok_iff hkeys).1 h with ⟨read, hread, rfl⟩
  exact fromExport_of_readsAs hread

theorem Polled.fromExport {κ : Type} {readCsv : CsvReader} {key : RawCostRecord → κ}
    {source : InMemoryExportSource} {fetched : List RawCostRecord}
    (h : Polled readCsv key source fetched) : ∀ raw ∈ fetched, FromExport raw := by
  induction h with
  | first hkeys hfetch => exact fromExport_of_fetchSince hkeys hfetch
  | next _ _ _ _ hkeys hfetch ih =>
      exact List.forall_mem_append.2 ⟨ih, fromExport_of_fetchSince hkeys hfetch⟩

end Rows

/-- Polls that resume where they left off store what reading everything at the end would: under
every identity there is a row in both stores or in neither, and with the same content. -/
theorem polling_stores_same {libs : Libraries} {connector : AwsFocusConnector} {readCsv : CsvReader}
    {source : InMemoryExportSource} {fetched full : List RawCostRecord}
    {calls calls' : List CostCall} (hjson : libs.jsonToString = Json.compact)
    (htold : ToldApart libs (fetched ++ full))
    (hpolled : Polled readCsv (recordIdentity libs connector) source fetched)
    (hfull : fetchSince readCsv source Cursor.beginning = .ok full)
    (hcalls : Delivers libs connector fetched calls)
    (hcalls' : Delivers libs connector full calls') (identity : TenantId × String × String) :
    Option.Rel SameContent (findRow identity (CostHistory.after calls).table)
      (findRow identity (CostHistory.after calls').table) := by
  -- The last record under each identity decides what is stored, and it is the same.
  rcases lastUnder_of_polled hpolled with ⟨full', hfull', hlast⟩
  cases hfull.symm.trans hfull'
  have hstored := stored_of_delivers hjson hcalls hpolled.fromExport
    (fun raw hraw raw' hraw' => htold raw (List.mem_append_left _ hraw) raw'
      (List.mem_append_left _ hraw')) identity
  have hstored' := stored_of_delivers hjson hcalls'
    (fromExport_of_fetchSince hpolled.distinctKeys hfull)
    (fun raw hraw raw' hraw' => htold raw (List.mem_append_right _ hraw) raw'
      (List.mem_append_right _ hraw')) identity
  rw [hlast identity] at hstored
  generalize findRow identity (CostHistory.after calls).table = found at hstored ⊢
  generalize findRow identity (CostHistory.after calls').table = found' at hstored' ⊢
  generalize lastUnder (recordIdentity libs connector) identity full = last at hstored hstored'
  cases hstored with
  | none =>
      cases hstored'
      exact .none
  | some hcells =>
      rcases hstored' with hcells' | -
      exact .some (hcells.sameContent hcells')

/-! ## A line restated in an open period -/

section OpenPeriod

/-- A reader of CSV without quotation marks. -/
def plainCsv (bytes : List UInt8) : Except String (List String × List (List String)) :=
  let text (cell : List UInt8) : String := String.ofList (cell.map fun b => Char.ofNat b.toNat)
  match ((bytes.splitOn 10).filter fun l => l ≠ []).map fun l => (l.splitOn 44).map text with
  | headers :: records => .ok (headers, records)
  | [] => .ok ([], [])

/-- The bytes of some lines of cells. -/
def csvBytes (lines : List (List String)) : List UInt8 :=
  lines.flatMap fun cells =>
    ([','].intercalate (cells.map String.toList) ++ ['\n']).map fun c => UInt8.ofNat c.toNat

/-- A source with one export, of the open period. -/
def openSource (lines : List (List String)) : InMemoryExportSource where
  exports := [(⟨"2026-08.csv", "2026-08"⟩, csvBytes ((twoLineExport "i-1").headers :: lines))]

def openLines : List (List String) :=
  [boxUsage.record]

def restatedLines : List (List String) :=
  [ebsOptimized.record]

def openRecords : List RawCostRecord :=
  openLines.map (twoLineExport "i-1").rawRecord

def restatedRecords : List RawCostRecord :=
  restatedLines.map (twoLineExport "i-1").rawRecord

theorem distinctKeys_openSource (lines : List (List String)) : DistinctKeys (openSource lines) := by
  simp [DistinctKeys, openSource]

section OpenSource

variable {lines : List (List String)} (hread : plainCsv (csvBytes
  ((twoLineExport "i-1").headers :: lines)) = .ok ((twoLineExport "i-1").headers, lines))

include hread

theorem exportRecords_openSource :
    exportRecords plainCsv ⟨"2026-08.csv", "2026-08"⟩
        (csvBytes ((twoLineExport "i-1").headers :: lines)) =
      .ok (lines.map (twoLineExport "i-1").rawRecord) := by
  simp only [exportRecords, hread]
  rfl

theorem fetchSince_openSource {cursor : Cursor} (hstart : (openSource lines).start cursor = 0) :
    fetchSince plainCsv (openSource lines) cursor =
      .ok (lines.map (twoLineExport "i-1").rawRecord) := by
  rw [fetchSince_eq_ok_iff (distinctKeys_openSource lines)]
  refine ⟨[lines.map (twoLineExport "i-1").rawRecord], ?_, by simp⟩
  rw [hstart]
  exact .cons (exportRecords_openSource hread) .nil

end OpenSource

def openCall : CostCall where
  events := [boxUsage.event]
  env := .ok

def restatedCall : CostCall where
  events := [ebsOptimized.event]
  env := .ok

theorem plainCsv_open : plainCsv (csvBytes ((twoLineExport "i-1").headers :: openLines)) =
    .ok ((twoLineExport "i-1").headers, openLines) := by
  decide +kernel

theorem plainCsv_restated : plainCsv (csvBytes ((twoLineExport "i-1").headers :: restatedLines)) =
    .ok ((twoLineExport "i-1").headers, restatedLines) := by
  decide +kernel

theorem keepsLines_openSource {κ : Type} {key : RawCostRecord → κ} {lines lines' : List (List String)}
    (hread : plainCsv (csvBytes ((twoLineExport "i-1").headers :: lines)) =
      .ok ((twoLineExport "i-1").headers, lines))
    (hread' : plainCsv (csvBytes ((twoLineExport "i-1").headers :: lines')) =
      .ok ((twoLineExport "i-1").headers, lines'))
    (hkeys : ∀ record ∈ lines, ∃ record' ∈ lines', key ((twoLineExport "i-1").rawRecord record') =
      key ((twoLineExport "i-1").rawRecord record)) :
    KeepsLines plainCsv key (openSource lines) (openSource lines') := by
  intro e he e' he' _ records records' hrecords hrecords' raw hmem
  cases List.mem_singleton.1 he
  cases List.mem_singleton.1 he'
  cases (exportRecords_openSource hread).symm.trans hrecords
  cases (exportRecords_openSource hread').symm.trans hrecords'
  rcases List.mem_map.1 hmem with ⟨record, hrecord, rfl⟩
  rcases hkeys record hrecord with ⟨record', hrecord', hkey⟩
  exact ⟨_, List.mem_map_of_mem hrecord', hkey⟩

theorem polled_openSource {κ : Type} {key : RawCostRecord → κ} {lines lines' : List (List String)}
    (hread : plainCsv (csvBytes ((twoLineExport "i-1").headers :: lines)) =
      .ok ((twoLineExport "i-1").headers, lines))
    (hread' : plainCsv (csvBytes ((twoLineExport "i-1").headers :: lines')) =
      .ok ((twoLineExport "i-1").headers, lines'))
    (hkeys : ∀ record ∈ lines, ∃ record' ∈ lines', key ((twoLineExport "i-1").rawRecord record') =
      key ((twoLineExport "i-1").rawRecord record)) :
    Polled plainCsv key (openSource lines') (lines.map (twoLineExport "i-1").rawRecord ++
      lines'.map (twoLineExport "i-1").rawRecord) := by
  apply Polled.next none (.first (distinctKeys_openSource _) (fetchSince_openSource hread rfl))
  · exact .restated [] _ _ _ []
  · exact keepsLines_openSource hread hread' hkeys
  · exact distinctKeys_openSource _
  · exact fetchSince_openSource hread' rfl

/-- What the two calls come to, evaluated in one go: the texts that are hashed are long. -/
theorem openCall_restatedCall :
    ((encodeEvent boxUsage.event).toOption.isSome = true ∧
      (encodeEvent ebsOptimized.event).toOption.isSome = true) ∧
    ((upsert [] openCall.events openCall.env).2.toOption.isSome = true ∧
      (upsert [] restatedCall.events restatedCall.env).2.toOption.isSome = true ∧
      (upsert (CostHistory.after [openCall]).table restatedCall.events
        restatedCall.env).2.toOption.isSome = true) ∧
    compactLibraries.sha256 (compactLibraries.jsonToString boxUsage.row) ≠
      compactLibraries.sha256 (compactLibraries.jsonToString ebsOptimized.row) ∧
    recordIdentity compactLibraries sampleConnector
        ((twoLineExport "i-1").rawRecord ebsOptimized.record) =
      recordIdentity compactLibraries sampleConnector
        ((twoLineExport "i-1").rawRecord boxUsage.record) ∧
    (findRow boxUsage.event.identity (CostHistory.after [openCall, restatedCall]).table).map
      CostRow.id = some ⟨1⟩ := by
  decide +kernel

theorem toldApart_restated :
    ToldApart compactLibraries (openRecords ++ restatedRecords ++ restatedRecords) := by
  rcases openCall_restatedCall with ⟨-, -, hne, -⟩
  have hmem : ∀ raw ∈ openRecords ++ restatedRecords ++ restatedRecords,
      raw.row = boxUsage.row ∨ raw.row = ebsOptimized.row := by
    simp [openRecords, restatedRecords, openLines, restatedLines, RowEvent.row, boxUsage,
      ebsOptimized, lineEvent]
  intro raw hraw raw' hraw' hhash
  rcases hmem raw hraw with h | h <;> rcases hmem raw' hraw' with h' | h'
  · rw [h, h']
  · rw [h, h'] at hhash
    exact absurd hhash hne
  · rw [h, h'] at hhash
    exact absurd hhash.symm hne
  · rw [h, h']

theorem delivers_restated {records : List RawCostRecord} {calls : List CostCall}
    (h : Delivers compactLibraries sampleConnector records calls)
    (hcall : (upsert (CostHistory.after calls).table restatedCall.events
      restatedCall.env).2.toOption.isSome = true) :
    Delivers compactLibraries sampleConnector (records ++ restatedRecords)
      (calls ++ [restatedCall]) := by
  rcases openCall_restatedCall with ⟨⟨-, hencode⟩, -⟩
  apply h.concat hcall
  · exact .cons ⟨⟨0⟩, ⟨2⟩, ebsOptimized.normalized⟩ .nil
  · exact List.forall_mem_singleton.2 hencode

theorem delivers_open : Delivers compactLibraries sampleConnector openRecords [openCall] := by
  rcases openCall_restatedCall with ⟨⟨hencode, -⟩, ⟨hcall, -⟩, -⟩
  have hnone : Delivers compactLibraries sampleConnector [] [] := .nil
  apply hnone.concat hcall
  · exact .cons ⟨⟨0⟩, ⟨1⟩, boxUsage.normalized⟩ .nil
  · exact List.forall_mem_singleton.2 hencode

/-- The line is read twice, and stored once: as it reads now, under the id that it got first. -/
theorem polling_stores_same_restated :
    Option.Rel SameContent
        (findRow boxUsage.event.identity (CostHistory.after [openCall, restatedCall]).table)
        (findRow boxUsage.event.identity (CostHistory.after [restatedCall]).table) ∧
      (findRow boxUsage.event.identity
        (CostHistory.after [openCall, restatedCall]).table).map CostRow.id = some ⟨1⟩ := by
  rcases openCall_restatedCall with ⟨-, ⟨-, hcall', hcall⟩, -, hkey, hid⟩
  have hpolled : Polled plainCsv (recordIdentity compactLibraries sampleConnector)
      (openSource restatedLines) (openRecords ++ restatedRecords) :=
    polled_openSource plainCsv_open plainCsv_restated
      (List.forall_mem_singleton.2 ⟨_, List.mem_cons_self, hkey⟩)
  have hnone : Delivers compactLibraries sampleConnector [] [] := .nil
  have hjson : compactLibraries.jsonToString = Json.compact := rfl
  have hfull : fetchSince plainCsv (openSource restatedLines) Cursor.beginning =
      .ok restatedRecords := fetchSince_openSource plainCsv_restated rfl
  refine ⟨?_, hid⟩
  exact polling_stores_same hjson toldApart_restated hpolled hfull
    (delivers_restated delivers_open hcall) (delivers_restated hnone hcall')
    boxUsage.event.identity

end OpenPeriod

end Falkr
