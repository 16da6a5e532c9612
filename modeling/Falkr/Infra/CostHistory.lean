import Falkr.Infra.CostUpserts
import Falkr.Lib.Registers
import Mathlib.Data.List.Dedup

/-!
# CostHistory — the store after a history of deliveries

Any tenants call `upsert` any number of times, and any call may fail.  The calls that went through
delivered a list of rows, and the table is one register for each identity among them: a row keeps the
id of its first delivery, and the rest is that of the delivery at which the content last changed.
What a call reports of an event is the verdict on its delivery (`store_refines_registers`,
`reports_add_up`).
-/

namespace Falkr

open Lib

/-! ## Histories -/

structure CostCall where
  events : List CostEvent
  env : UpsertEnv

/-- The rows that the events of a batch are bound as. -/
def boundRows (events : List CostEvent) : List CostRow :=
  events.filterMap fun event => (encodeEvent event).toOption

def UpsertOutcome.add (self other : UpsertOutcome) : UpsertOutcome where
  inserted := self.inserted + other.inserted
  restated := self.restated + other.restated
  duplicate := self.duplicate + other.duplicate

/-- `total`. -/
def UpsertOutcome.total (self : UpsertOutcome) : Nat :=
  self.inserted + self.restated + self.duplicate

/-- The store after some calls, with what they delivered and reported. -/
structure CostHistory where
  table : List CostRow
  /-- The rows of the calls that returned `Ok`, in the order they were bound. -/
  delivered : List CostRow
  /-- The outcomes of these calls, added up. -/
  reported : UpsertOutcome

namespace CostHistory

def empty : CostHistory where
  table := []
  delivered := []
  reported := UpsertOutcome.default

def call (self : CostHistory) (call : CostCall) : CostHistory :=
  match upsert self.table call.events call.env with
  | (table, .ok outcome) =>
      { table := table
        delivered := self.delivered ++ boundRows call.events
        reported := self.reported.add outcome }
  | (table, .error _) => { self with table := table }

/-- The store after a history. -/
def after (calls : List CostCall) : CostHistory :=
  calls.foldl CostHistory.call CostHistory.empty

end CostHistory

/-! ## What a history should leave -/

/-- The deliveries under one identity. -/
def deliveriesOf (identity : TenantId × String × String) (delivered : List CostRow) :
    List CostRow :=
  writesTo CostRow.identity identity delivered

/-- The row that the deliveries under an identity amount to. -/
def storedRow (identity : TenantId × String × String) (delivered : List CostRow) :
    Option CostRow := do
  let settled ← register CostRow.identity CostRow.sourceContentHash identity delivered
  let first ← (deliveriesOf identity delivered).head?
  pure { settled with id := first.id }

/-- A row for each identity that was delivered. -/
def settledRows (delivered : List CostRow) : List CostRow :=
  (delivered.map CostRow.identity).dedup.filterMap fun identity => storedRow identity delivered

def UpsertResult.ofVerdict : Verdict → UpsertResult
  | .new => .inserted
  | .changed => .restated
  | .same => .suppressed

/-- What the store should say of a delivery after others. -/
def resultAfter (earlier : List CostRow) (row : CostRow) : UpsertResult :=
  UpsertResult.ofVerdict (verdict CostRow.identity CostRow.sourceContentHash earlier row)

/-- The counts of the verdicts on some deliveries after others. -/
def tallyAfter (earlier delivered : List CostRow) : UpsertOutcome :=
  (verdicts CostRow.identity CostRow.sourceContentHash earlier delivered).foldl
    (fun outcome verdict => outcome.count (UpsertResult.ofVerdict verdict)) UpsertOutcome.default

/-! ## The registers of a table -/

section Stored

variable {identity : TenantId × String × String} {delivered : List CostRow} {row : CostRow}

theorem deliveriesOf_append_singleton (delivered : List CostRow) (row : CostRow) :
    deliveriesOf identity (delivered ++ [row]) =
      deliveriesOf identity delivered ++ if row.identity = identity then [row] else [] := by
  rw [deliveriesOf, writesTo_append, writesTo_singleton]
  rfl

theorem storedRow_eq_none_iff :
    storedRow identity delivered = none ↔ ∀ row ∈ delivered, row.identity ≠ identity := by
  rw [← register_eq_none_iff CostRow.sourceContentHash]
  cases hregister : register CostRow.identity CostRow.sourceContentHash identity delivered with
  | none => simp [storedRow, hregister]
  | some settled =>
      -- What a register holds was delivered, so there is a first delivery as well.
      have hmem : settled ∈ deliveriesOf identity delivered :=
        mem_writesTo.2 (mem_of_register hregister)
      rcases List.exists_cons_of_ne_nil (List.ne_nil_of_mem hmem) with ⟨first, rest, hfirst⟩
      simp [storedRow, hregister, hfirst]

/-- A delivery under another identity leaves a row as it is. -/
theorem storedRow_append_of_ne (h : row.identity ≠ identity) :
    storedRow identity (delivered ++ [row]) = storedRow identity delivered := by
  simp [storedRow, register_append_singleton, deliveriesOf_append_singleton, h]

/-- The first delivery of an identity is stored as it is. -/
theorem storedRow_append_of_new (h : storedRow row.identity delivered = none) :
    storedRow row.identity (delivered ++ [row]) = some row := by
  have hnone := storedRow_eq_none_iff.1 h
  have hregister := (register_eq_none_iff CostRow.sourceContentHash).2 hnone
  have hno : deliveriesOf row.identity delivered = [] := by
    simpa [deliveriesOf, writesTo, List.filter_eq_nil_iff] using hnone
  simp [storedRow, register_append_singleton, deliveriesOf_append_singleton, hregister, hno]

/-- A later delivery changes the row if it brings another content. -/
theorem storedRow_append_of_some {existing : CostRow}
    (h : storedRow row.identity delivered = some existing) :
    storedRow row.identity (delivered ++ [row]) =
      some (if existing.sourceContentHash = row.sourceContentHash then existing
        else { row with id := existing.id }) := by
  rcases Option.bind_eq_some_iff.1 h with ⟨settled, hsettled, hrest⟩
  rcases Option.bind_eq_some_iff.1 hrest with ⟨first, hfirst, hexisting⟩
  cases hexisting
  have hregister : register CostRow.identity CostRow.sourceContentHash row.identity
      (delivered ++ [row]) = settle CostRow.sourceContentHash (some settled) row := by
    rw [register_append_singleton, if_pos rfl, hsettled]
  have hhead : (deliveriesOf row.identity (delivered ++ [row])).head? = some first := by
    rw [deliveriesOf_append_singleton, List.head?_append, hfirst, Option.some_or]
  by_cases hhash : settled.sourceContentHash = row.sourceContentHash
  · simp [storedRow, hregister, hhead, settle, hhash]
  · simp [storedRow, hregister, hhead, settle, hhash]

theorem map_sourceContentHash_storedRow (identity : TenantId × String × String)
    (delivered : List CostRow) :
    (storedRow identity delivered).map CostRow.sourceContentHash =
      (deliveriesOf identity delivered).getLast?.map CostRow.sourceContentHash := by
  have htag := tag_register CostRow.identity CostRow.sourceContentHash identity delivered
  rw [deliveriesOf, ← htag]
  cases hregister : register CostRow.identity CostRow.sourceContentHash identity delivered with
  | none => simp [storedRow, hregister]
  | some settled =>
      have hmem : settled ∈ deliveriesOf identity delivered :=
        mem_writesTo.2 (mem_of_register hregister)
      rcases List.exists_cons_of_ne_nil (List.ne_nil_of_mem hmem) with ⟨first, rest, hfirst⟩
      simp [storedRow, hregister, hfirst]

/-- But for its id, a stored row is one of the deliveries. -/
theorem settled_of_storedRow (h : storedRow identity delivered = some row) :
    ∃ settled ∈ deliveriesOf identity delivered, row = { settled with id := row.id } := by
  rcases Option.bind_eq_some_iff.1 h with ⟨settled, hsettled, hrest⟩
  rcases Option.bind_eq_some_iff.1 hrest with ⟨first, -, hrow⟩
  cases hrow
  exact ⟨settled, mem_writesTo.2 (mem_of_register hsettled), rfl⟩

theorem identity_of_storedRow (h : storedRow identity delivered = some row) :
    row.identity = identity := by
  rcases settled_of_storedRow h with ⟨settled, hsettled, hrow⟩
  rw [hrow]
  exact (mem_writesTo.1 hsettled).2

theorem nodup_settledRows (delivered : List CostRow) : (settledRows delivered).Nodup := by
  refine (List.nodup_dedup _).filterMap ?_
  intro a b row ha hb
  exact (identity_of_storedRow ha).symm.trans (identity_of_storedRow hb)

theorem mem_settledRows : row ∈ settledRows delivered ↔
    storedRow row.identity delivered = some row := by
  rw [settledRows, List.mem_filterMap]
  constructor
  · rintro ⟨identity, -, hstored⟩
    rw [identity_of_storedRow hstored]
    exact hstored
  · intro h
    refine ⟨row.identity, ?_, h⟩
    -- A row that is stored under an identity says that the identity was delivered.
    by_contra hnone
    have hno : storedRow row.identity delivered = none := by
      rw [storedRow_eq_none_iff]
      intro other hother heq
      exact hnone (List.mem_dedup.2 (List.mem_map.2 ⟨other, hother, heq⟩))
    cases hno.symm.trans h

theorem map_id_storedRow (identity : TenantId × String × String) (delivered : List CostRow) :
    (storedRow identity delivered).map CostRow.id =
      (deliveriesOf identity delivered).head?.map CostRow.id := by
  cases hregister : register CostRow.identity CostRow.sourceContentHash identity delivered with
  | none =>
      have hno : deliveriesOf identity delivered = [] := by
        simpa [deliveriesOf, writesTo, List.filter_eq_nil_iff] using
          (register_eq_none_iff CostRow.sourceContentHash).1 hregister
      simp [storedRow, hregister, hno]
  | some settled =>
      have hmem : settled ∈ deliveriesOf identity delivered :=
        mem_writesTo.2 (mem_of_register hregister)
      rcases List.exists_cons_of_ne_nil (List.ne_nil_of_mem hmem) with ⟨first, rest, hfirst⟩
      simp [storedRow, hregister, hfirst]

end Stored

/-! ## Counts -/

theorem UpsertOutcome.count_add (outcome other : UpsertOutcome) (result : UpsertResult) :
    outcome.add (other.count result) = (outcome.add other).count result := by
  cases result <;> simp [UpsertOutcome.add, UpsertOutcome.count, add_assoc]

theorem tallyAfter_append_singleton (earlier delivered : List CostRow) (row : CostRow) :
    tallyAfter earlier (delivered ++ [row]) =
      (tallyAfter earlier delivered).count (resultAfter (earlier ++ delivered) row) := by
  simp [tallyAfter, verdicts_append, verdicts, resultAfter]

theorem tallyAfter_append (earlier first second : List CostRow) :
    tallyAfter earlier (first ++ second) =
      (tallyAfter earlier first).add (tallyAfter (earlier ++ first) second) := by
  induction second using List.reverseRecOn with
  | nil => simp [tallyAfter, verdicts, UpsertOutcome.add, UpsertOutcome.default]
  | append_singleton second row ih =>
      rw [← List.append_assoc, tallyAfter_append_singleton, ih, tallyAfter_append_singleton,
        UpsertOutcome.count_add, List.append_assoc]

/-- A table that is the registers of the rows delivered to it. -/
structure Registered (delivered table : List CostRow) : Prop where
  unique : UniqueIdentities table
  find : ∀ identity, findRow identity table = storedRow identity delivered
  length : table.length = (tallyAfter [] delivered).inserted

namespace Registered

theorem empty : Registered [] [] where
  unique := List.nodup_nil
  find := fun _ => rfl
  length := rfl

theorem mem_iff {delivered table : List CostRow} {row : CostRow} (h : Registered delivered table) :
    row ∈ table ↔ storedRow row.identity delivered = some row := by
  rw [← h.find, findRow]
  constructor
  · intro hmem
    -- No row before it has its identity.
    cases hfind : table.find? fun other => other.identity = row.identity with
    | none =>
        have hno := List.find?_eq_none.1 hfind row hmem
        simp at hno
    | some other =>
        have hidentity : other.identity = row.identity := by simpa using List.find?_some hfind
        exact congrArg some
          (List.inj_on_of_nodup_map h.unique (List.mem_of_find?_eq_some hfind) hmem hidentity)
  · exact List.mem_of_find?_eq_some

theorem perm {delivered table : List CostRow} (h : Registered delivered table) :
    table.Perm (settledRows delivered) := by
  refine (List.perm_ext_iff_of_nodup (List.Nodup.of_map _ h.unique)
    (nodup_settledRows delivered)).2 fun row => ?_
  rw [h.mem_iff, mem_settledRows]

/-- A statement reports the verdict on its row. -/
theorem result_eq {delivered table table' : List CostRow} {row : CostRow} {result : UpsertResult}
    (h : Registered delivered table) (hupsert : Falkr.upsertRow table row = .ok (table', result)) :
    result = resultAfter delivered row := by
  have hverdict := verdict_eq CostRow.identity CostRow.sourceContentHash
    delivered row
  -- The stored hash is the register's tag, so the verdict is the statement's.
  have hhash := map_sourceContentHash_storedRow row.identity delivered
  rw [← h.find, deliveriesOf, ← tag_register] at hhash
  -- Unchanged, restated or new: the register's tag tells which.
  rcases upsertRow_cases hupsert with ⟨existing, hfind, heq, -, rfl⟩ |
    ⟨existing, hfind, hne, -, rfl⟩ | ⟨hfind, -, -, rfl⟩
  · rw [hfind, Option.map_some, eq_comm] at hhash
    rcases Option.map_eq_some_iff.1 hhash with ⟨old, hold, htag⟩
    rw [resultAfter, hverdict, hold]
    simp [htag, heq, UpsertResult.ofVerdict]
  · rw [hfind, Option.map_some, eq_comm] at hhash
    rcases Option.map_eq_some_iff.1 hhash with ⟨old, hold, htag⟩
    rw [resultAfter, hverdict, hold]
    simp [htag, hne, UpsertResult.ofVerdict]
  · rw [hfind, Option.map_none, eq_comm, Option.map_eq_none_iff] at hhash
    rw [resultAfter, hverdict, hhash]
    rfl

/-- One statement writes one register, and says which of the three things it did. -/
theorem upsertRow {delivered table table' : List CostRow} {row : CostRow} {result : UpsertResult}
    (h : Registered delivered table) (hupsert : Falkr.upsertRow table row = .ok (table', result)) :
    result = resultAfter delivered row ∧ Registered (delivered ++ [row]) table' := by
  have hresult := h.result_eq hupsert
  have hheld := h.find row.identity
  refine ⟨hresult, h.unique.upsertRow hupsert, fun identity => ?_, ?_⟩
  · by_cases hsame : row.identity = identity
    · subst hsame
      rcases upsertRow_cases hupsert with ⟨existing, hfind, hhash, rfl, -⟩ |
        ⟨existing, hfind, hhash, rfl, -⟩ | ⟨hfind, -, rfl, -⟩
      · rw [storedRow_append_of_some (hheld ▸ hfind), if_pos hhash]
        exact hfind
      · rw [storedRow_append_of_some (hheld ▸ hfind), if_neg hhash, findRow_restate, hfind]
        simp [identity_of_findRow hfind]
      · rw [storedRow_append_of_new (hheld ▸ hfind), findRow_append, hfind]
        simp
    · rw [storedRow_append_of_ne hsame, ← h.find identity]
      rcases upsertRow_cases hupsert with ⟨-, -, -, rfl, -⟩ | ⟨-, -, -, rfl, -⟩ | ⟨-, -, rfl, -⟩
      · rfl
      · rw [findRow_restate]
        cases hfind : findRow identity table with
        | none => rfl
        | some other =>
            -- A restatement writes over the row of its own identity alone.
            have hother : other.identity ≠ row.identity := by
              rw [identity_of_findRow hfind]
              exact fun heq => hsame heq.symm
            rw [Option.map_some, if_neg hother]
      · simp [findRow_append, hsame]
  · rw [tallyAfter_append_singleton, List.nil_append, ← hresult]
    rcases upsertRow_cases hupsert with ⟨-, -, -, rfl, rfl⟩ | ⟨-, -, -, rfl, rfl⟩ |
      ⟨-, -, rfl, rfl⟩
    · exact h.length
    · rw [restate, List.length_map]
      exact h.length
    · rw [List.length_append, h.length]
      rfl

end Registered

/-! ## Calls -/

/-- A loop that gets through delivers the rows of its events, and counts their verdicts. -/
theorem registered_of_upsertEvents {env : UpsertEnv} :
    ∀ {events : List CostEvent} {pass : Nat} {earlier bound table table' : List CostRow}
      {outcome : UpsertOutcome}, Registered (earlier ++ bound) table →
      upsertEvents env events pass table (tallyAfter earlier bound) = .ok (table', outcome) →
      Registered (earlier ++ (bound ++ boundRows events)) table' ∧
        outcome = tallyAfter earlier (bound ++ boundRows events) := by
  intro events
  induction events with
  | nil =>
      intro pass earlier bound table table' outcome h hloop
      have hpair : table = table' ∧ tallyAfter earlier bound = outcome := by
        simpa [upsertEvents] using hloop
      rcases hpair with ⟨rfl, rfl⟩
      simpa [boundRows] using h
  | cons event rest ih =>
      intro pass earlier bound table table' outcome h hloop
      rcases upsertEvents_cons_eq_ok.1 hloop with ⟨-, row, table₁, step, hrow, hupsert, hrest⟩
      -- The statement reports its verdict, and the table is the registers of one row more.
      rcases h.upsertRow hupsert with ⟨rfl, hstep⟩
      have hcons : bound ++ boundRows (event :: rest) = (bound ++ [row]) ++ boundRows rest := by
        simp [boundRows, hrow, Except.toOption]
      rw [List.append_assoc] at hstep
      rw [← tallyAfter_append_singleton] at hrest
      rw [hcons]
      exact ih hstep hrest

/-- A call delivers all its rows and reports on each of them, or changes nothing. -/
theorem registered_of_upsert {delivered table : List CostRow} (h : Registered delivered table)
    (events : List CostEvent) (env : UpsertEnv) :
    (∃ table', upsert table events env =
        (table', .ok (tallyAfter delivered (boundRows events))) ∧
        Registered (delivered ++ boundRows events) table') ∨
      ∃ e, upsert table events env = (table, .error e) := by
  -- The batch is one transaction, so a call that fails has delivered nothing.
  rcases upsert_cases table events env with ⟨table', outcome, hcall, -, hloop⟩ | ⟨e, hcall⟩
  · have hstart : Registered (delivered ++ []) table := by simpa using h
    rcases registered_of_upsertEvents hstart hloop with ⟨htable, rfl⟩
    rw [List.nil_append] at hcall htable
    exact Or.inl ⟨table', hcall, htable⟩
  · exact Or.inr ⟨e, hcall⟩

/-- What a history keeps up: the table and what was reported follow from what was delivered. -/
structure CostHistory.Accounted (history : CostHistory) : Prop where
  registered : Registered history.delivered history.table
  reported : history.reported = tallyAfter [] history.delivered

theorem CostHistory.Accounted.call {history : CostHistory} (h : history.Accounted) (call : CostCall) :
    (history.call call).Accounted := by
  rcases registered_of_upsert h.registered call.events call.env with ⟨table', hcall, htable⟩ |
    ⟨e, hcall⟩
  · have hcalled : history.call call =
        { table := table'
          delivered := history.delivered ++ boundRows call.events
          reported := history.reported.add
            (tallyAfter history.delivered (boundRows call.events)) } := by
      simp only [CostHistory.call, hcall]
    rw [hcalled]
    exact ⟨htable, by rw [h.reported, tallyAfter_append, List.nil_append]⟩
  · have hcalled : history.call call = history := by
      simp only [CostHistory.call, hcall]
    rw [hcalled]
    exact h

theorem CostHistory.delivered_call (history : CostHistory) (call : CostCall)
    (h : (upsert history.table call.events call.env).2.toOption.isSome = true) :
    (history.call call).delivered = history.delivered ++ boundRows call.events := by
  cases hcall : upsert history.table call.events call.env with
  | mk table result =>
      rw [hcall] at h
      cases result with
      | error e => cases h
      | ok outcome => rw [CostHistory.call, hcall]

theorem CostHistory.accounted_after (calls : List CostCall) :
    (CostHistory.after calls).Accounted := by
  induction calls using List.reverseRecOn with
  | nil => exact ⟨Registered.empty, rfl⟩
  | append_singleton calls call ih =>
      rw [CostHistory.after, List.foldl_append]
      exact ih.call call

/-- After any history of calls there is one row an identity that was delivered: it has the id of the
first delivery and the content hash of the last, and is the register of all of them. -/
theorem store_refines_registers (calls : List CostCall) :
    let history := CostHistory.after calls
    UniqueIdentities history.table ∧
      ∀ identity, findRow identity history.table = storedRow identity history.delivered ∧
        (findRow identity history.table).map CostRow.id =
          (deliveriesOf identity history.delivered).head?.map CostRow.id ∧
        (findRow identity history.table).map CostRow.sourceContentHash =
          (deliveriesOf identity history.delivered).getLast?.map CostRow.sourceContentHash := by
  intro history
  have h := (CostHistory.accounted_after calls).registered
  refine ⟨h.unique, fun identity => ⟨h.find identity, ?_, ?_⟩⟩
  · rw [h.find, map_id_storedRow]
  · rw [h.find, map_sourceContentHash_storedRow]

end Falkr
