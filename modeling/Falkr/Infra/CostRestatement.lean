import Falkr.CostSpine.Normalized
import Falkr.Infra.CostIngestion
import Falkr.Infra.CostUpserts
import Falkr.Lib.JsonText

/-!
# CostRestatement — a duplicate and a restatement told apart

The verdict on a delivered row is passed on hashes of canonical texts.  A row of an export is an
object of strings in key order, so its text determines its cells, and with a hash that does not
collide the row that is stored and the row that is delivered agree in every cell exactly if the
statement is suppressed (`exactUpsert`).
-/

namespace Falkr

open Lib

/-! ## The rows of an export -/

/-- A row of an export holds strings, in key order. -/
theorem row_rawRecord (delivered : FocusExport) (record : List String) :
    ∃ fields, (delivered.rawRecord record).row = .object fields ∧ Json.Flat fields ∧
      fields.Pairwise fun a b => a.1 < b.1 := by
  refine ⟨_, rfl, ?_, Json.pairwise_extend List.Pairwise.nil⟩
  intro field hmem
  rcases Json.mem_extend hmem with hnil | hcell
  · cases hnil
  · rcases List.mem_map.1 hcell with ⟨cell, -, rfl⟩
    exact ⟨cell.2, rfl⟩

/-- An event that the connector makes of a row of an export. -/
structure RowEvent (libs : Libraries) where
  connector : AwsFocusConnector
  delivered : FocusExport
  record : List String
  now : DateTimeUtc
  newId : CostEventId
  event : CostEvent
  normalized : normalize libs connector (delivered.rawRecord record) now newId = .ok event

namespace RowEvent

variable {libs : Libraries}

/-- The row as it came from the provider. -/
def row (self : RowEvent libs) : Json :=
  (self.delivered.rawRecord self.record).row

/-- The cell of a column. -/
def cell (self : RowEvent libs) (column : String) : Option String :=
  (self.row.get column).bind Json.asStr

theorem contentHash_eq (self : RowEvent libs) :
    self.event.sourceRef.contentHash = libs.sha256 (libs.jsonToString self.row) :=
  (normalizedFrom_of_normalize self.normalized).contentHash

end RowEvent

section Cells

variable {libs : Libraries}

def SameCells (a b : RowEvent libs) : Prop :=
  ∀ column, a.cell column = b.cell column

/-- The canonical texts of the two rows do not collide. -/
def CollisionFree (a b : RowEvent libs) : Prop :=
  libs.sha256 (libs.jsonToString a.row) = libs.sha256 (libs.jsonToString b.row) →
    libs.jsonToString a.row = libs.jsonToString b.row

theorem row_eq_iff (a b : RowEvent libs) : a.row = b.row ↔ SameCells a b := by
  constructor
  · intro h column
    rw [RowEvent.cell, RowEvent.cell, h]
  · intro h
    rcases row_rawRecord a.delivered a.record with ⟨fields, hrow, hflat, hsorted⟩
    rcases row_rawRecord b.delivered b.record with ⟨fields', hrow', hflat', hsorted'⟩
    have hstrings : ∀ {fields : List (String × Json)}, Json.Flat fields → ∀ key,
        (Json.object fields).get key =
          (((Json.object fields).get key).bind Json.asStr).map Json.string := by
      intro fields hflat key
      cases hget : SortedMap.lookup key fields with
      | none => simp [Json.get, hget]
      | some value =>
          rcases hflat _ (SortedMap.mem_of_lookup_eq_some hget) with ⟨s, hs⟩
          have hvalue : value = .string s := hs
          simp [Json.get, hget, hvalue, Json.asStr]
    have hget : ∀ key, (Json.object fields).get key = (Json.object fields').get key := by
      intro key
      have hcell := h key
      rw [RowEvent.cell, RowEvent.cell, RowEvent.row, RowEvent.row, hrow, hrow'] at hcell
      rw [hstrings hflat, hstrings hflat', hcell]
    rw [RowEvent.row, RowEvent.row, hrow, hrow', Json.fields_eq_of_get hsorted hsorted' hget]

/-- Two rows have one content hash exactly if they hold the same cells. -/
theorem contentHash_eq_iff (hjson : libs.jsonToString = Json.compact) {a b : RowEvent libs}
    (hfree : CollisionFree a b) :
    a.event.sourceRef.contentHash = b.event.sourceRef.contentHash ↔ SameCells a b := by
  rw [a.contentHash_eq, b.contentHash_eq, ← row_eq_iff]
  constructor
  · intro h
    have htext := hfree h
    rcases row_rawRecord a.delivered a.record with ⟨fields, hrow, hflat, -⟩
    rcases row_rawRecord b.delivered b.record with ⟨fields', hrow', hflat', -⟩
    rw [hjson, RowEvent.row, RowEvent.row, hrow, hrow'] at htext
    rw [RowEvent.row, RowEvent.row, hrow, hrow', Json.compact_object_injective hflat hflat' htext]
  · intro h
    rw [h]

end Cells

/-! ## A delivered event -/

/-- The row that an event was stored as, under the id of its first delivery. -/
def StoredAs (event : CostEvent) (row : CostRow) : Prop :=
  ∃ bound, encodeEvent event = .ok bound ∧ row = { bound with id := row.id }

/-- Every stored row is that of some row of an export. -/
def FromRows (libs : Libraries) (table : List CostRow) : Prop :=
  ∀ row ∈ table, ∃ stored : RowEvent libs, StoredAs stored.event row

theorem FromRows.upsertRow {libs : Libraries} {table table' : List CostRow} {row : CostRow}
    {step : UpsertResult} {delivered : RowEvent libs} (h : FromRows libs table)
    (hrow : encodeEvent delivered.event = .ok row)
    (hstep : Falkr.upsertRow table row = .ok (table', step)) : FromRows libs table' := by
  rcases upsertRow_cases hstep with ⟨-, -, -, rfl, -⟩ | ⟨-, -, -, rfl, -⟩ | ⟨-, -, rfl, -⟩
  · exact h
  · intro restated hmem
    rcases List.mem_map.1 hmem with ⟨existing, hexisting, rfl⟩
    by_cases hsame : existing.identity = row.identity
    · exact ⟨delivered, row, hrow, by rw [if_pos hsame]⟩
    · rw [if_neg hsame]
      exact h existing hexisting
  · intro other hmem
    rcases List.mem_append.1 hmem with hold | hnew
    · exact h other hold
    · rw [List.mem_singleton.1 hnew]
      exact ⟨delivered, row, hrow, rfl⟩

theorem FromRows.upsertEvents {libs : Libraries} {env : UpsertEnv} :
    ∀ {events : List CostEvent} {pass : Nat} {table table' : List CostRow}
      {outcome outcome' : UpsertOutcome}, FromRows libs table →
      (∀ event ∈ events, ∃ delivered : RowEvent libs, delivered.event = event) →
      Falkr.upsertEvents env events pass table outcome = .ok (table', outcome') →
      FromRows libs table' := by
  intro events
  induction events with
  | nil =>
      intro pass table table' outcome outcome' h _ hok
      have hpair : table = table' ∧ outcome = outcome' := by simpa [Falkr.upsertEvents] using hok
      exact hpair.1 ▸ h
  | cons event rest ih =>
      intro pass table table' outcome outcome' h hevents hok
      rcases List.forall_mem_cons.1 hevents with ⟨⟨delivered, rfl⟩, hrest⟩
      rcases upsertEvents_cons_eq_ok.1 hok with ⟨-, row, table₁, step, hrow, hstep, hok⟩
      exact ih (h.upsertRow hrow hstep) hrest hok

/-- Calls with rows of exports leave rows of exports. -/
theorem FromRows.upsert {libs : Libraries} {table : List CostRow} (h : FromRows libs table)
    {events : List CostEvent} (hevents : ∀ event ∈ events, ∃ delivered : RowEvent libs,
      delivered.event = event) (env : UpsertEnv) :
    FromRows libs (Falkr.upsert table events env).1 := by
  rcases upsert_cases table events env with ⟨table', outcome, hcall, -, hok⟩ | ⟨e, hcall⟩
  · rw [hcall]
    exact h.upsertEvents hevents hok
  · rw [hcall]
    exact h

/-- What becomes of a delivered event that meets the stored row of another. -/
structure Verdict (env : UpsertEnv) (before : List CostEvent) (table mid : List CostRow)
    (counted : UpsertOutcome) (existing : CostRow) (event : CostEvent) (same : Prop) : Prop where
  /-- It is a duplicate, and changes nothing, exactly if nothing is new. -/
  duplicate : upsertEvents env (before ++ [event]) 0 table UpsertOutcome.default =
    .ok (mid, counted.count .suppressed) ↔ same
  /-- Otherwise it is restated: the stored row becomes the event's, under its own id. -/
  restated : ¬same → ∃ older newer bound, mid = older ++ existing :: newer ∧
    encodeEvent event = .ok bound ∧
    upsertEvents env (before ++ [event]) 0 table UpsertOutcome.default =
      .ok (older ++ { bound with id := existing.id } :: newer, counted.count .restated)

/-- What is asked of a call. -/
structure ExactUpsert (libs : Libraries) (table : List CostRow) (events : List CostEvent)
    (env : UpsertEnv) : Prop where
  failed : ∀ e, (upsert table events env).2 = .error e → (upsert table events env).1 = table
  counts : ∀ outcome, (upsert table events env).2 = .ok outcome →
    outcome.inserted + outcome.restated + outcome.duplicate = events.length
  /-- The table it leaves and the counts it returns are those of the loop over its events. -/
  loop : ∀ outcome, (upsert table events env).2 = .ok outcome →
    upsertEvents env events 0 table UpsertOutcome.default =
      .ok ((upsert table events env).1, outcome)
  /-- Each event in turn meets the table that the ones before it leave. -/
  verdict : ∀ outcome, (upsert table events env).2 = .ok outcome →
    ∀ (delivered : RowEvent libs) (before after : List CostEvent),
      events = before ++ delivered.event :: after →
      ∃ mid counted, upsertEvents env before 0 table UpsertOutcome.default = .ok (mid, counted) ∧
        ∀ (stored : RowEvent libs) (existing : CostRow), CollisionFree stored delivered →
          findRow delivered.event.identity mid = some existing → StoredAs stored.event existing →
          Verdict env before table mid counted existing delivered.event (SameCells stored delivered)

/-- The loop over one more event. -/
theorem upsertEvents_concat {env : UpsertEnv} {before : List CostEvent} {event : CostEvent}
    {table mid mid' : List CostRow} {counted : UpsertOutcome} {row : CostRow} {step : UpsertResult}
    (hbefore : upsertEvents env before 0 table UpsertOutcome.default = .ok (mid, counted))
    (hquiet : env.statementError before.length = none) (hrow : encodeEvent event = .ok row)
    (hstep : upsertRow mid row = .ok (mid', step)) :
    upsertEvents env (before ++ [event]) 0 table UpsertOutcome.default =
      .ok (mid', counted.count step) := by
  refine upsertEvents_append_eq_ok.2 ⟨mid, counted, hbefore, ?_⟩
  rw [Nat.zero_add]
  exact upsertEvents_cons_eq_ok.2 ⟨hquiet, row, mid', step, hrow, hstep, rfl⟩

theorem count_injective (counted : UpsertOutcome) : Function.Injective counted.count := by
  intro a b h
  cases a <;> cases b <;> simp [UpsertOutcome.count] at h ⊢

theorem verdict_of_findRow {libs : Libraries} (hjson : libs.jsonToString = Json.compact)
    {env : UpsertEnv} {before : List CostEvent} {table mid mid' : List CostRow}
    {counted : UpsertOutcome} {stored delivered : RowEvent libs} {existing row : CostRow}
    {step : UpsertResult} (hunique : UniqueIdentities mid)
    (hbefore : upsertEvents env before 0 table UpsertOutcome.default = .ok (mid, counted))
    (hquiet : env.statementError before.length = none)
    (hrow : encodeEvent delivered.event = .ok row) (hstep : upsertRow mid row = .ok (mid', step))
    (hfree : CollisionFree stored delivered)
    (hfind : findRow delivered.event.identity mid = some existing)
    (hstored : StoredAs stored.event existing) :
    Verdict env before table mid counted existing delivered.event (SameCells stored delivered) := by
  have hloop := upsertEvents_concat hbefore hquiet hrow hstep
  rcases identity_of_encodeEvent hrow with ⟨hidentity, hcontent, -⟩
  rw [← hidentity] at hfind
  have hsame : existing.sourceContentHash = row.sourceContentHash ↔ SameCells stored delivered := by
    rcases hstored with ⟨bound, hbound, heq⟩
    rw [hcontent, heq]
    exact (identity_of_encodeEvent hbound).2.1 ▸ contentHash_eq_iff hjson hfree
  -- The statement tells by the stored hash; that it is the hash of the same cells is `hsame`.
  rcases upsertRow_cases hstep with ⟨existing', hfind', hhash, rfl, rfl⟩ |
    ⟨existing', hfind', hhash, rfl, rfl⟩ | ⟨hnone, -⟩
  · cases hfind.symm.trans hfind'
    exact ⟨iff_of_true hloop (hsame.1 hhash), fun hdiff => absurd (hsame.1 hhash) hdiff⟩
  · cases hfind.symm.trans hfind'
    have hdiff : ¬SameCells stored delivered := mt hsame.2 hhash
    constructor
    · refine iff_of_false ?_ hdiff
      intro hduplicate
      -- The counters of the two outcomes differ, so that only one of them can be returned.
      have hcount := (Prod.mk.inj (Except.ok.inj (hloop.symm.trans hduplicate))).2
      cases count_injective counted hcount
    · intro _
      -- Only one row has the identity, so that nothing else is written.
      rcases restate_of_findRow hunique hfind with ⟨older, newer, hmid, hrestate⟩
      exact ⟨older, newer, row, hmid, hrow, hrestate ▸ hloop⟩
  · rw [hnone] at hfind
    cases hfind

/-- Every call tells duplicates and restatements apart, and accounts for every event. -/
theorem exactUpsert {libs : Libraries} (hjson : libs.jsonToString = Json.compact)
    {table : List CostRow} (hunique : UniqueIdentities table) (events : List CostEvent)
    (env : UpsertEnv) : ExactUpsert libs table events env := by
  rcases upsert_cases table events env with ⟨table', outcome', hcall, -, hloop⟩ | ⟨e, hcall⟩
  · constructor
    · intro e herror
      rw [hcall] at herror
      cases herror
    · intro outcome hok
      rw [hcall] at hok
      cases hok
      have htotal := (count_of_upsertEvents hloop).2.2
      simpa [UpsertOutcome.default] using htotal
    · intro outcome hok
      rw [hcall] at hok ⊢
      cases hok
      exact hloop
    · rintro outcome hok delivered before after rfl
      rcases upsertEvents_append_eq_ok.1 hloop with ⟨mid, counted, hbefore, hafter⟩
      rw [Nat.zero_add] at hafter
      rcases upsertEvents_cons_eq_ok.1 hafter with ⟨hquiet, row, mid', step, hrow, hstep, -⟩
      refine ⟨mid, counted, hbefore, ?_⟩
      intro stored existing hfree hfind hstored
      exact verdict_of_findRow hjson (hunique.upsertEvents hbefore) hbefore hquiet hrow hstep hfree
        hfind hstored
  · constructor
    · intro _ _
      rw [hcall]
    · intro outcome hok
      rw [hcall] at hok
      cases hok
    · intro outcome hok
      rw [hcall] at hok
      cases hok
    · intro outcome hok
      rw [hcall] at hok
      cases hok

/-! ## Two rows of one identity -/

/-- The libraries on the lines of the sample export, with texts as they are written. -/
def compactLibraries : Libraries :=
  { sampleLibraries with jsonToString := Json.compact }

def normalizeCompact (record : List String) (newId : CostEventId) :
    Except NormalizeError CostEvent :=
  normalize compactLibraries sampleConnector ((twoLineExport "i-1").rawRecord record) ⟨0⟩ newId

/-- A line of the sample export with the event it becomes. -/
def lineEvent (record : List String) (newId : CostEventId)
    (h : (normalizeCompact record newId).toOption.isSome = true) : RowEvent compactLibraries where
  connector := sampleConnector
  delivered := twoLineExport "i-1"
  record := record
  now := ⟨0⟩
  newId := newId
  event := (normalizeCompact record newId).toOption.get h
  normalized := eq_ok_get h

def boxUsage : RowEvent compactLibraries :=
  lineEvent (line "10.00" "i-1" "BoxUsage") ⟨1⟩ (by decide +kernel)

def ebsOptimized : RowEvent compactLibraries :=
  lineEvent (line "5.00" "i-1" "EBSOptimized") ⟨2⟩ (by decide +kernel)

theorem exactUpsert_twoRows :
    ExactUpsert compactLibraries [] [boxUsage.event, ebsOptimized.event, ebsOptimized.event] .ok ∧
      ¬SameCells boxUsage ebsOptimized ∧
      (upsert [] [boxUsage.event, ebsOptimized.event, ebsOptimized.event] .ok).2 =
        .ok { inserted := 1, restated := 1, duplicate := 1 } := by
  refine ⟨exactUpsert rfl (by simp [UniqueIdentities]) _ _, ?_, by decide +kernel⟩
  intro hsame
  exact absurd (hsame "SkuId") (by decide +kernel)

end Falkr
