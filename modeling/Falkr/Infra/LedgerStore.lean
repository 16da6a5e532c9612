import Falkr.Events.Ledger
import Mathlib.Data.List.Sort

/-!
# LedgerStore — the event store of one tenant

`ledger_events` is a list of committed rows.  A store sees the rows of its own tenant only, while
the primary key and the unique index on `(aggregate_id, sequence_number)` range over all rows.

What a call draws from outside is an argument: the clock, the identifiers, and the errors of the
connection.  How an event is written to and read back from its JSONB column is a `Codec`.
-/

namespace Falkr

inductive LedgerStoreError
  | backend (detail : String)
  | corruptEvent (id : Uuid) (detail : String)
  | serialize (detail : String)
  | concurrencyConflict (aggregateId : Uuid) (sequenceNumber : Int)
  | appendOnly
  deriving DecidableEq, Repr

/-- `serde_json::to_value` and `serde_json::from_value` on ledger events. -/
structure Codec (ε J : Type) where
  toValue : ε → Except String J
  fromValue : J → Except String ε

/-- A column that keeps events as they are. -/
def Codec.plain {ε : Type} : Codec ε ε where
  toValue := .ok
  fromValue := .ok

/-- A row of `ledger_events`. -/
structure LedgerRow (J : Type) where
  id : Uuid
  aggregateId : Uuid
  tenantId : TenantId
  payload : J
  occurredOn : DateTimeUtc
  sequenceNumber : Int
  version : Option Int
  deriving DecidableEq

/-- The envelope of an event that was stored. -/
structure StoreEvent (ε : Type) where
  id : Uuid
  aggregateId : Uuid
  payload : ε
  occurredOn : DateTimeUtc
  sequenceNumber : Int
  version : Option Int
  deriving DecidableEq

/-! ## The in-memory aggregate -/

/-- `esrs::AggregateState`. -/
structure AggregateState (σ : Type) where
  id : Uuid
  sequenceNumber : Int
  inner : σ
  deriving DecidableEq

namespace AggregateState

variable {σ : Type}

def withId (id : Uuid) (inner : σ) : AggregateState σ where
  id := id
  sequenceNumber := 0
  inner := inner

/-- The successor of a 32-bit sequence number. -/
def increment (n : Int) : Int :=
  if n = 2147483647 then -2147483648 else n + 1

/-- Increments the counter inside the state and returns it. -/
def nextSequenceNumber (self : AggregateState σ) : Int × AggregateState σ :=
  (increment self.sequenceNumber, { self with sequenceNumber := increment self.sequenceNumber })

/-- Folds stored events in; the number becomes that of the last one. -/
def applyStoreEvents {m : Type → Type} [Monad m] {ε : Type} (applyEvent : σ → ε → m σ)
    (self : AggregateState σ) (events : List (StoreEvent ε)) : m (AggregateState σ) :=
  events.foldlM
    (fun acc event => do
      let inner ← applyEvent acc.inner event.payload
      pure { acc with sequenceNumber := event.sequenceNumber, inner := inner })
    self

end AggregateState

/-! ## The table -/

/-- An error that the database reports. -/
structure DatabaseError where
  code : Option String
  message : String

/-- Two rows that the primary key or the unique index does not admit together. -/
def LedgerRow.Clashes {J : Type} (row other : LedgerRow J) : Prop :=
  row.id = other.id ∨
    row.aggregateId = other.aggregateId ∧ row.sequenceNumber = other.sequenceNumber

instance {J : Type} (row other : LedgerRow J) : Decidable (row.Clashes other) :=
  inferInstanceAs (Decidable (_ ∨ _))

/-- `INSERT INTO ledger_events`: the check constraint comes first, then the unique indexes, which
are enforced over all rows whoever they belong to. -/
def insertRow {J : Type} (table : List (LedgerRow J)) (row : LedgerRow J) :
    Except DatabaseError (List (LedgerRow J)) :=
  if row.sequenceNumber < 0 then
    .error { code := some "23514", message := "ledger_events_sequence_is_positive" }
  else if ∃ other ∈ table, row.Clashes other then
    .error { code := some "23505", message := "duplicate key value" }
  else .ok (table ++ [row])

/-- `SELECT … FROM ledger_events WHERE aggregate_id = $1 ORDER BY sequence_number ASC` under the
tenant's row-level security. -/
def selectStream {J : Type} (tenantId : TenantId) (aggregateId : Uuid)
    (table : List (LedgerRow J)) : List (LedgerRow J) :=
  (table.filter fun row => row.tenantId = tenantId ∧ row.aggregateId = aggregateId).insertionSort
    fun a b => a.sequenceNumber ≤ b.sequenceNumber

/-! ## The store -/

/-- What a read draws from outside: the errors of its statements. -/
structure ReadEnv where
  beginError : Option String
  selectError : Option String
  commitError : Option String

/-- A read in which nothing goes wrong. -/
def ReadEnv.ok : ReadEnv where
  beginError := none
  selectError := none
  commitError := none

/-- What an append draws from outside.  The errors are those of the connection and of statements,
other than the constraint violations that the table itself decides. -/
structure PersistEnv where
  occurredOn : DateTimeUtc
  /-- `Uuid::now_v7()` at each pass of the loop. -/
  ids : Nat → Uuid
  beginError : Option String
  insertError : Nat → Option String
  commitError : Option String

/-- An append on which no statement fails. -/
def PersistEnv.ok (occurredOn : DateTimeUtc) (ids : Nat → Uuid) : PersistEnv where
  occurredOn := occurredOn
  ids := ids
  beginError := none
  insertError := fun _ => none
  commitError := none

section Store

variable {m : Type → Type} [Monad m] {α : Type} [Amount m α] {J : Type}

def decodeRow (codec : Codec (LedgerEvent α) J) (row : LedgerRow J) :
    Except LedgerStoreError (StoreEvent (LedgerEvent α)) :=
  match codec.fromValue row.payload with
  | .error detail => .error (.corruptEvent row.id detail)
  | .ok payload =>
      .ok
        { id := row.id
          aggregateId := row.aggregateId
          payload := payload
          occurredOn := row.occurredOn
          sequenceNumber := row.sequenceNumber
          version := row.version }

/-- `by_aggregate_id`. -/
def byAggregateId (codec : Codec (LedgerEvent α) J) (tenantId : TenantId)
    (table : List (LedgerRow J)) (aggregateId : Uuid) (env : ReadEnv) :
    Except LedgerStoreError (List (StoreEvent (LedgerEvent α))) :=
  match env.beginError with
  | some e => .error (.backend e)
  | none =>
      match env.selectError with
      | some e => .error (.backend e)
      | none =>
          match env.commitError with
          | some e => .error (.backend e)
          | none => (selectStream tenantId aggregateId table).mapM (decodeRow codec)

/-- `load`: replays an aggregate's whole stream. -/
def load (codec : Codec (LedgerEvent α) J) (tenantId : TenantId) (table : List (LedgerRow J))
    (aggregateId : Uuid) (env : ReadEnv) :
    m (Except LedgerStoreError (AggregateState (LedgerState α))) :=
  match byAggregateId codec tenantId table aggregateId env with
  | .error e => pure (.error e)
  | .ok events => do
      let state ← (AggregateState.withId aggregateId LedgerState.default).applyStoreEvents
        applyEvent events
      pure (.ok state)

/-- The row that one pass of the loop in `persist` inserts. -/
def eventRow (tenantId : TenantId) (aggregateId : Uuid) (occurredOn : DateTimeUtc) (id : Uuid)
    (sequenceNumber : Int) (json : J) : LedgerRow J where
  id := id
  aggregateId := aggregateId
  tenantId := tenantId
  payload := json
  occurredOn := occurredOn
  sequenceNumber := sequenceNumber
  version := none

/-- 23505 is `unique_violation`. -/
def insertFailure (aggregateId : Uuid) (sequenceNumber : Int) (e : DatabaseError) :
    LedgerStoreError :=
  if e.code = some "23505" then .concurrencyConflict aggregateId sequenceNumber
  else .backend e.message

/-- The loop in `persist`, inside its transaction.  The counter of the caller's state is taken
before each insert, so the state comes back changed also when the loop fails. -/
def insertEvents (codec : Codec (LedgerEvent α) J) (tenantId : TenantId) (env : PersistEnv) :
    List (LedgerEvent α) → Nat → AggregateState (LedgerState α) → List (LedgerRow J) →
      List (StoreEvent (LedgerEvent α)) →
      AggregateState (LedgerState α) ×
        Except LedgerStoreError (List (LedgerRow J) × List (StoreEvent (LedgerEvent α)))
  | [], _, state, table, stored => (state, .ok (table, stored))
  | payload :: rest, pass, state, table, stored =>
      let (sequenceNumber, state) := state.nextSequenceNumber
      let id := env.ids pass
      match codec.toValue payload with
      | .error e => (state, .error (.serialize e))
      | .ok json =>
          match env.insertError pass with
          | some e => (state, .error (.backend e))
          | none =>
              match insertRow table
                  (eventRow tenantId state.id env.occurredOn id sequenceNumber json) with
              | .error e => (state, .error (insertFailure state.id sequenceNumber e))
              | .ok table =>
                  let event : StoreEvent (LedgerEvent α) :=
                    { id := id
                      aggregateId := state.id
                      payload := payload
                      occurredOn := env.occurredOn
                      sequenceNumber := sequenceNumber
                      version := none }
                  insertEvents codec tenantId env rest (pass + 1) state table (stored ++ [event])

/-- `persist`: the table after the call, the caller's state after the call, and what it returns.
A transaction that is dropped before its commit is rolled back. -/
def persist (codec : Codec (LedgerEvent α) J) (tenantId : TenantId) (table : List (LedgerRow J))
    (state : AggregateState (LedgerState α)) (events : List (LedgerEvent α)) (env : PersistEnv) :
    List (LedgerRow J) × AggregateState (LedgerState α) ×
      Except LedgerStoreError (List (StoreEvent (LedgerEvent α))) :=
  match env.beginError with
  | some e => (table, state, .error (.backend e))
  | none =>
      match insertEvents codec tenantId env events 0 state table [] with
      -- The rollback does not reach the caller's state, whose counter has moved on.
      | (state, .error e) => (table, state, .error e)
      | (state, .ok (inserted, stored)) =>
          match env.commitError with
          | some e => (table, state, .error (.backend e))
          | none => (inserted, state, .ok stored)

end Store

end Falkr
