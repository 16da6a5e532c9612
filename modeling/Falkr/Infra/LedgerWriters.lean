import Falkr.Events.Accepted
import Falkr.Infra.LedgerAppend
import Falkr.Infra.LedgerStream
import Falkr.Lib.Machine
import Mathlib.Data.Fintype.Basic
import Mathlib.Logic.Function.Basic

/-!
# LedgerWriters — concurrent appends to one stream

Any number of writers of one tenant work on one aggregate.  Each attempt loads the stream, handles a
command on the loaded state and persists the answer; its statements interleave with those of the
other writers in any order.  Rows inserted in an open transaction are invisible to the others, but
an insert that clashes with one of them waits until that transaction ends.

Loading and handling add amounts up, and where the amounts are machine decimals that may panic: the
attempt is over then, as after an error.

There is no lock.  What makes the result serial (`serial_of_run`) is that the numbering is dense:
a writer whose first insert goes through has read the stream to its present end, and as long as its
transaction is open no other writer gets its own first insert through.
-/

namespace Falkr

open Lib Outcome

/-- What a persist call returned, with what it was called for. -/
structure Returned (α J : Type) where
  request : Request α
  events : List (LedgerEvent α)
  /-- The rows the call stored. -/
  result : Except LedgerStoreError (List (LedgerRow J))

/-- Where a writer is in its attempt. -/
inductive Writer (α J : Type)
  | idle
  | loaded (state : AggregateState (LedgerState α))
  | decided (state : AggregateState (LedgerState α)) (request : Request α)
      (events : List (LedgerEvent α))
  /-- Inside the transaction of `persist`: `todo` is what the loop still has to insert. -/
  | appending (state : AggregateState (LedgerState α)) (request : Request α)
      (occurredOn : DateTimeUtc) (events todo : List (LedgerEvent α))
      (inserted : List (LedgerRow J))

namespace Writer

variable {α J : Type}

/-- The rows a writer has inserted and not yet committed. -/
def holds : Writer α J → List (LedgerRow J)
  | .appending _ _ _ _ _ inserted => inserted
  | _ => []

end Writer

/-- One statement of an attempt.  An error is that of the connection or of the statement. -/
inductive WriterAction (α : Type)
  | load (env : ReadEnv)
  | handle (request : Request α)
  | begin (occurredOn : DateTimeUtc) (error : Option String)
  | insert (id : Uuid) (error : Option String)
  | commit (error : Option String)
  /-- The attempt is dropped, and its transaction with it. -/
  | abandon

def WriterAction.error {α : Type} : WriterAction α → Option String
  | .begin _ error => error
  | .insert _ error => error
  | .commit error => error
  | _ => none

structure World (α W J : Type) where
  /-- The committed rows of `ledger_events`. -/
  table : List (LedgerRow J)
  writers : W → Writer α J
  /-- Every persist call that has returned, in order. -/
  returned : List (Returned α J)

section Steps

variable {α W J : Type}

namespace World

def start : World α W J where
  table := []
  writers := fun _ => .idle
  returned := []

variable [DecidableEq W]

def setWriter (world : World α W J) (w : W) (writer : Writer α J) : World α W J :=
  { world with writers := Function.update world.writers w writer }

/-- A persist call of `w` returns an error: its transaction is rolled back and its attempt over. -/
def fail (world : World α W J) (w : W) (request : Request α) (events : List (LedgerEvent α))
    (e : LedgerStoreError) : World α W J where
  table := world.table
  writers := Function.update world.writers w .idle
  returned := world.returned ++ [{ request := request, events := events, result := .error e }]

/-- A persist call of `w` returns `Ok`: the rows of its transaction become visible at once. -/
def commit (world : World α W J) (w : W) (request : Request α) (events : List (LedgerEvent α))
    (inserted : List (LedgerRow J)) : World α W J where
  table := world.table ++ inserted
  writers := Function.update world.writers w .idle
  returned := world.returned ++ [{ request := request, events := events, result := .ok inserted }]

/-- Another open transaction holds a row that this one clashes with. -/
def Blocked (world : World α W J) (w : W) (row : LedgerRow J) : Prop :=
  ∃ other, other ≠ w ∧ ∃ held ∈ (world.writers other).holds, row.Clashes held

instance [Fintype W] (world : World α W J) (w : W) (row : LedgerRow J) :
    Decidable (world.Blocked w row) :=
  inferInstanceAs (Decidable (∃ other, other ≠ w ∧ _))

end World

variable [Fintype W] [DecidableEq W]

variable {m : Type → Type} [Monad m] [Amount m α] (codec : Codec (LedgerEvent α) J)
  (tenantId : TenantId) (aggregateId : Uuid)

/-- One pass of the loop in `persist`, in a world of other writers. -/
def insertStep (world : World α W J) (w : W) (state : AggregateState (LedgerState α))
    (request : Request α) (occurredOn : DateTimeUtc) (events : List (LedgerEvent α))
    (payload : LedgerEvent α) (todo : List (LedgerEvent α)) (inserted : List (LedgerRow J))
    (id : Uuid) (error : Option String) : Option (World α W J) :=
  let (sequenceNumber, state) := state.nextSequenceNumber
  match codec.toValue payload with
  | .error e => some (world.fail w request events (.serialize e))
  | .ok json =>
      match error with
      | some e => some (world.fail w request events (.backend e))
      | none =>
          let row := eventRow tenantId state.id occurredOn id sequenceNumber json
          -- The insert waits on the uncommitted row that it clashes with.
          if world.Blocked w row then none
          else
            match insertRow (world.table ++ inserted) row with
            | .error e =>
                some (world.fail w request events (insertFailure state.id sequenceNumber e))
            | .ok _ =>
                some (world.setWriter w
                  (.appending state request occurredOn events todo (inserted ++ [row])))

variable [Outcome m]

/-- One step of one writer; `none` when the writer is not there or has to wait. -/
def writerStep (world : World α W J) : W × WriterAction α → Option (World α W J)
  | (w, action) =>
      match world.writers w, action with
      | .idle, .load env =>
          match outcome (load codec tenantId world.table aggregateId env) with
          | some (.ok state) => some (world.setWriter w (.loaded state))
          -- An attempt that panics has not begun either.
          | _ => some world
      | .loaded state, .handle request =>
          match outcome (handleCommand state.inner request.command request.newId request.now) with
          | some (.ok events) => some (world.setWriter w (.decided state request events))
          | _ => some (world.setWriter w .idle)
      | .decided state request events, .begin occurredOn error =>
          match error with
          | some e => some (world.fail w request events (.backend e))
          | none =>
              some (world.setWriter w (.appending state request occurredOn events events []))
      | .appending state request occurredOn events (payload :: todo) inserted, .insert id error =>
          insertStep codec tenantId world w state request occurredOn events payload todo inserted
            id error
      | .appending _ request _ events [] inserted, .commit error =>
          match error with
          | some e => some (world.fail w request events (.backend e))
          | none => some (world.commit w request events inserted)
      | _, .abandon => some (world.setWriter w .idle)
      | _, _ => none

/-- The writers on one aggregate of one tenant. -/
def ledgerWriters : Machine (World α W J) (W × WriterAction α) where
  start := World.start
  step := writerStep codec tenantId aggregateId

end Steps

section Invariant

variable {m : Type → Type} [Monad m] {α : Type} [Amount m α] {W J : Type}
  (codec : Codec (LedgerEvent α) J) (tenantId : TenantId) (aggregateId : Uuid)

/-! ## The invariant -/

/-- The rows stored by the persist calls that returned `Ok`. -/
def stored (returned : List (Returned α J)) : List (LedgerRow J) :=
  returned.flatMap fun call =>
    match call.result with
    | .ok rows => rows
    | .error _ => []

/-- A load of the table's first `k` rows returns this state. -/
def Snapshot (table : List (LedgerRow J)) (k : Nat) (state : AggregateState (LedgerState α)) :
    Prop :=
  k ≤ table.length ∧
    load codec tenantId (table.take k) aggregateId ReadEnv.ok = (pure (.ok state) : m _)

/-- The request is accepted on the state and answered with these events. -/
def Answers (state : AggregateState (LedgerState α)) (request : Request α)
    (events : List (LedgerEvent α)) : Prop :=
  handleCommand state.inner request.command request.newId request.now =
    (pure (.ok events) : m _)

/-- Every persist call that returned `Ok` stored the answer to its request on the load of exactly
the rows stored before it. -/
def Serial (returned : List (Returned α J)) : Prop :=
  ∀ before call rows after, returned = before ++ call :: after → call.result = .ok rows →
    ∃ state,
      load codec tenantId (stored before) aggregateId ReadEnv.ok = (pure (.ok state) : m _) ∧
        Answers state call.request call.events ∧
        call.events.mapM codec.toValue = .ok (rows.map LedgerRow.payload)

/-- A writer in the middle of its loop: it has inserted the encoded head of an answer to its
snapshot, under the numbers that follow the snapshot.  Once it has inserted anything, the snapshot
is the whole table. -/
structure Appending (table : List (LedgerRow J)) (state : AggregateState (LedgerState α))
    (request : Request α) (events todo : List (LedgerEvent α)) (inserted : List (LedgerRow J))
    (k : Nat) (read : AggregateState (LedgerState α)) (done : List (LedgerEvent α)) : Prop where
  snapshot : Snapshot codec tenantId aggregateId table k read
  answers : Answers read request events
  split : events = done ++ todo
  encoded : done.mapM codec.toValue = .ok (inserted.map LedgerRow.payload)
  numbered : Numbered tenantId aggregateId k inserted
  id_eq : state.id = aggregateId
  sequenceNumber_eq : state.sequenceNumber = (k + inserted.length : Nat)
  current : inserted ≠ [] → k = table.length

def WriterOk (table : List (LedgerRow J)) : Writer α J → Prop
  | .idle => True
  | .loaded state => ∃ k, Snapshot codec tenantId aggregateId table k state
  | .decided state request events =>
      ∃ k, Snapshot codec tenantId aggregateId table k state ∧ Answers state request events
  | .appending state request _ events todo inserted =>
      ∃ k read done, Appending codec tenantId aggregateId table state request events todo inserted
        k read done

structure WorldOk (world : World α W J) : Prop where
  numbered : Numbered tenantId aggregateId 0 world.table
  stored_eq : world.table = stored world.returned
  serial : Serial codec tenantId aggregateId world.returned
  writers : ∀ w, WriterOk codec tenantId aggregateId world.table (world.writers w)
  /-- At most one open transaction has inserted anything. -/
  exclusive : ∀ w w', (world.writers w).holds ≠ [] → (world.writers w').holds ≠ [] → w = w'

variable {codec tenantId aggregateId}

theorem stored_append (returned returned' : List (Returned α J)) :
    stored (returned ++ returned') = stored returned ++ stored returned' := by
  simp [stored]

theorem Serial.append {returned : List (Returned α J)} {call : Returned α J}
    (h : Serial codec tenantId aggregateId returned)
    (hcall : ∀ rows, call.result = .ok rows → ∃ state,
      load codec tenantId (stored returned) aggregateId ReadEnv.ok = (pure (.ok state) : m _) ∧
        Answers state call.request call.events ∧
        call.events.mapM codec.toValue = .ok (rows.map LedgerRow.payload)) :
    Serial codec tenantId aggregateId (returned ++ [call]) := by
  intro before call' rows after heq hok
  -- The call asked about is the new one, or one that was serial before.
  rcases List.eq_nil_or_concat after with rfl | ⟨after', last, rfl⟩
  · rcases List.append_inj' heq rfl with ⟨hbefore, hlast⟩
    cases hlast
    exact hbefore ▸ hcall rows hok
  · have hsplit : returned ++ [call] = (before ++ call' :: after') ++ [last] := by
      simpa using heq
    rcases List.append_inj' hsplit rfl with ⟨hreturned, -⟩
    exact h before call' rows after' hreturned hok

theorem Serial.of_append {returned later : List (Returned α J)}
    (h : Serial codec tenantId aggregateId (returned ++ later)) :
    Serial codec tenantId aggregateId returned := by
  intro before call rows after heq hok
  exact h before call rows (after ++ later) (by simp [heq]) hok

theorem Snapshot.append {table : List (LedgerRow J)} {k : Nat}
    {state : AggregateState (LedgerState α)}
    (h : Snapshot codec tenantId aggregateId table k state) (rows : List (LedgerRow J)) :
    Snapshot codec tenantId aggregateId (table ++ rows) k state := by
  rcases h with ⟨hle, hload⟩
  refine ⟨?_, ?_⟩
  · simp only [List.length_append]
    omega
  · rwa [List.take_append_of_le_length hle]

/-- Rows appended by others leave a writer in order as long as it holds none. -/
theorem WriterOk.append {table : List (LedgerRow J)} {writer : Writer α J}
    (h : WriterOk codec tenantId aggregateId table writer) (hholds : writer.holds = [])
    (rows : List (LedgerRow J)) :
    WriterOk codec tenantId aggregateId (table ++ rows) writer := by
  cases writer with
  | idle => exact trivial
  | loaded state =>
      rcases h with ⟨k, hsnap⟩
      exact ⟨k, hsnap.append rows⟩
  | decided state request events =>
      rcases h with ⟨k, hsnap, hanswer⟩
      exact ⟨k, hsnap.append rows, hanswer⟩
  | appending state request occurredOn events todo inserted =>
      rcases h with ⟨k, read, done, happ⟩
      exact ⟨k, read, done, { happ with
        snapshot := happ.snapshot.append rows
        current := fun hne => absurd hholds hne }⟩

theorem worldOk_start : WorldOk codec tenantId aggregateId (World.start : World α W J) where
  numbered := trivial
  stored_eq := rfl
  serial := fun before call rows after heq => by simp [World.start] at heq
  writers := fun _ => trivial
  exclusive := fun w w' hw => absurd rfl hw

/-- While one transaction holds the numbers past the table's end, no other holds any. -/
theorem holds_eq_nil_of_not_blocked {world : World α W J}
    (h : WorldOk codec tenantId aggregateId world) {w : W} {row : LedgerRow J}
    (hblocked : ¬world.Blocked w row) (hagg : row.aggregateId = aggregateId)
    (hseq : row.sequenceNumber = (world.table.length + 1 : Nat)) {other : W} (hne : other ≠ w) :
    (world.writers other).holds = [] := by
  have hok := h.writers other
  cases hwriter : world.writers other with
  | idle => rfl
  | loaded state => rfl
  | decided state request events => rfl
  | appending state request occurredOn events todo inserted =>
      rw [hwriter] at hok
      rcases hok with ⟨k, read, done, happ⟩
      cases inserted with
      | nil => rfl
      | cons held rest =>
          have hk : k = world.table.length := happ.current (by simp)
          rcases happ.numbered with ⟨-, hagg', hseq', -⟩
          -- Both rows take the number that follows the table's last.
          refine absurd ⟨other, hne, held, ?_, Or.inr ⟨hagg.trans hagg'.symm, ?_⟩⟩ hblocked
          · simp [hwriter, Writer.holds]
          · rw [hseq, hseq', hk]

/-- A command is answered with one event, so the first insert is the last. -/
theorem WorldOk.inserting [LawfulMonad m] [Returning m] {world : World α W J}
    (h : WorldOk codec tenantId aggregateId world) {w : W}
    {state : AggregateState (LedgerState α)} {request : Request α} {occurredOn : DateTimeUtc}
    {events todo : List (LedgerEvent α)} {payload : LedgerEvent α} {inserted : List (LedgerRow J)}
    (hw : world.writers w = .appending state request occurredOn events (payload :: todo)
      inserted) : inserted = [] ∧ state.id = aggregateId := by
  have hok := h.writers w
  rw [hw] at hok
  rcases hok with ⟨k, read, done, happ⟩
  rcases permits_of_handleCommand happ.answers with ⟨event, hevents, -⟩
  have hdone : done = [] := by
    have hlength := congrArg List.length happ.split
    simp only [hevents, List.length_append, List.length_cons, List.length_nil] at hlength
    exact List.eq_nil_of_length_eq_zero (by omega)
  have hencoded := happ.encoded
  rw [hdone] at hencoded
  have hpayloads : [] = inserted.map LedgerRow.payload := Except.ok.inj hencoded
  exact ⟨by simpa using hpayloads.symm, happ.id_eq⟩

/-- What is about to be committed is one row, which takes the number after the table's last. -/
theorem WorldOk.committing [LawfulMonad m] [Returning m] {world : World α W J}
    (h : WorldOk codec tenantId aggregateId world) {w : W}
    {state : AggregateState (LedgerState α)} {request : Request α} {occurredOn : DateTimeUtc}
    {events : List (LedgerEvent α)} {inserted : List (LedgerRow J)}
    (hw : world.writers w = .appending state request occurredOn events [] inserted) :
    inserted.length = 1 ∧ state.sequenceNumber = (world.table.length + 1 : Nat) := by
  have hok := h.writers w
  rw [hw] at hok
  rcases hok with ⟨k, read, done, happ⟩
  have hdone : events = done := by simpa using happ.split
  -- A command is answered with one event.
  rcases permits_of_handleCommand happ.answers with ⟨event, hevents, -⟩
  have hencoded := happ.encoded
  rw [← hdone, hevents, List.mapM_cons] at hencoded
  rcases bind_eq_ok hencoded with ⟨json, -, hencoded⟩
  have hlength : inserted.length = 1 := by
    have hpayloads : [json] = inserted.map LedgerRow.payload := Except.ok.inj hencoded
    simpa using (congrArg List.length hpayloads).symm
  have hcurrent := happ.current (List.ne_nil_of_length_eq_add_one hlength)
  refine ⟨hlength, ?_⟩
  rw [happ.sequenceNumber_eq, hcurrent, hlength]

variable [DecidableEq W]

/-- One writer moves on, and no one commits. -/
theorem WorldOk.setWriter {world : World α W J} (h : WorldOk codec tenantId aggregateId world)
    {w : W} {writer : Writer α J} (hwriter : WriterOk codec tenantId aggregateId world.table writer)
    (hexclusive : writer.holds ≠ [] → ∀ other, other ≠ w → (world.writers other).holds = []) :
    WorldOk codec tenantId aggregateId (world.setWriter w writer) where
  numbered := h.numbered
  stored_eq := h.stored_eq
  serial := h.serial
  writers := by
    intro w'
    by_cases hw : w' = w
    · subst hw
      simpa [World.setWriter] using hwriter
    · simpa [World.setWriter, hw] using h.writers w'
  exclusive := by
    intro w₁ w₂ h₁ h₂
    by_cases hw₁ : w₁ = w
    · by_cases hw₂ : w₂ = w
      · exact hw₁.trans hw₂.symm
      · subst hw₁
        have hnone := hexclusive (by simpa [World.setWriter] using h₁) w₂ hw₂
        simp [World.setWriter, hw₂, hnone] at h₂
    · by_cases hw₂ : w₂ = w
      · subst hw₂
        have hnone := hexclusive (by simpa [World.setWriter] using h₂) w₁ hw₁
        simp [World.setWriter, hw₁, hnone] at h₁
      · exact h.exclusive w₁ w₂ (by simpa [World.setWriter, hw₁] using h₁)
          (by simpa [World.setWriter, hw₂] using h₂)

/-- A persist call returns an error: its rows are gone and the table is as it was. -/
theorem WorldOk.fail {world : World α W J} (h : WorldOk codec tenantId aggregateId world) (w : W)
    (request : Request α) (events : List (LedgerEvent α)) (e : LedgerStoreError) :
    WorldOk codec tenantId aggregateId (world.fail w request events e) := by
  have hidle : WorldOk codec tenantId aggregateId (world.setWriter w .idle) :=
    h.setWriter trivial fun hne => absurd rfl hne
  exact
    { numbered := hidle.numbered
      stored_eq := by
        rw [World.fail, stored_append, ← h.stored_eq]
        simp [stored]
      serial := h.serial.append fun rows hok => by cases hok
      writers := hidle.writers
      exclusive := hidle.exclusive }

/-- A transaction commits: the rows it holds follow the table's, and every other writer holds
none. -/
theorem WorldOk.commit [LawfulMonad m] [Returning m] {world : World α W J}
    (h : WorldOk codec tenantId aggregateId world) {w : W}
    {state : AggregateState (LedgerState α)} {request : Request α} {occurredOn : DateTimeUtc}
    {events : List (LedgerEvent α)} {inserted : List (LedgerRow J)}
    (hw : world.writers w = .appending state request occurredOn events [] inserted) :
    WorldOk codec tenantId aggregateId (world.commit w request events inserted) := by
  have hok := h.writers w
  rw [hw] at hok
  rcases hok with ⟨k, read, done, happ⟩
  have hdone : events = done := by simpa using happ.split
  have hinserted : inserted ≠ [] := List.ne_nil_of_length_eq_add_one (h.committing hw).1
  have hk : k = world.table.length := happ.current hinserted
  have hsnap := happ.snapshot.2
  rw [hk, List.take_length] at hsnap
  have hothers : ∀ other, other ≠ w → (world.writers other).holds = [] := by
    intro other hne
    by_contra hholds
    exact hne (h.exclusive other w hholds (by simpa [hw, Writer.holds] using hinserted))
  exact
    { numbered := by
        rw [World.commit, numbered_append, Nat.zero_add]
        exact ⟨h.numbered, hk ▸ happ.numbered⟩
      stored_eq := by
        rw [World.commit, stored_append, ← h.stored_eq]
        simp [stored]
      serial := by
        refine h.serial.append ?_
        intro rows hrows
        cases hrows
        exact ⟨read, h.stored_eq ▸ hsnap, happ.answers, hdone ▸ happ.encoded⟩
      writers := by
        intro w'
        by_cases hw' : w' = w
        · subst hw'
          simp [World.commit, WriterOk]
        · simpa [World.commit, hw'] using (h.writers w').append (hothers w' hw') inserted
      exclusive := by
        intro w₁ w₂ h₁ h₂
        by_cases hw₁ : w₁ = w
        · simp [World.commit, hw₁, Writer.holds] at h₁
        · by_cases hw₂ : w₂ = w
          · simp [World.commit, hw₂, Writer.holds] at h₂
          · exact h.exclusive w₁ w₂ (by simpa [World.commit, hw₁] using h₁)
              (by simpa [World.commit, hw₂] using h₂) }

/-- A writer whose first insert goes through has read the stream to its end: any number past its
snapshot that the table already holds would have clashed. -/
theorem current_of_insert {table : List (LedgerRow J)} {k n : Nat} {row : LedgerRow J}
    {inserted : List (LedgerRow J)} (hnum : Numbered tenantId aggregateId 0 table)
    (hle : k ≤ table.length) (hcurrent : inserted ≠ [] → k = table.length)
    (hn : n = k + inserted.length) (hagg : row.aggregateId = aggregateId)
    (hseq : row.sequenceNumber = (n + 1 : Nat)) (hfree : ∀ other ∈ table, ¬row.Clashes other) :
    k = table.length := by
  by_cases hinserted : inserted = []
  · subst hinserted
    by_contra hne
    have hlt : k < table.length := by omega
    -- A snapshot that ends earlier would have the row clash with the one stored after it.
    rcases exists_row_of_numbered hnum (Nat.succ_pos k) (by omega) with
      ⟨other, hmem, hother, hother'⟩
    have hn' : n = k := by simpa using hn
    exact hfree other hmem (Or.inr ⟨hagg.trans hother.symm, by rw [hseq, hother', hn']⟩)
  · exact hcurrent hinserted

theorem WorldOk.insert {world : World α W J} (h : WorldOk codec tenantId aggregateId world) {w : W}
    {state : AggregateState (LedgerState α)} {request : Request α} {occurredOn : DateTimeUtc}
    {events todo : List (LedgerEvent α)} {payload : LedgerEvent α} {inserted : List (LedgerRow J)}
    (hw : world.writers w = .appending state request occurredOn events (payload :: todo) inserted)
    {json : J} (hjson : codec.toValue payload = .ok json) {row : LedgerRow J} {id : Uuid}
    (hrow : row = eventRow tenantId state.id occurredOn id
      (AggregateState.increment state.sequenceNumber) json)
    (hblocked : ¬world.Blocked w row) {table' : List (LedgerRow J)}
    (hinsert : insertRow (world.table ++ inserted) row = .ok table') :
    WorldOk codec tenantId aggregateId
      (world.setWriter w (.appending state.nextSequenceNumber.2 request occurredOn events todo
        (inserted ++ [row]))) := by
  have hok := h.writers w
  rw [hw] at hok
  rcases hok with ⟨k, read, done, happ⟩
  rcases insertRow_ok hinsert with ⟨hnonneg, hfree, -⟩
  have hagg : row.aggregateId = aggregateId := by simp [hrow, eventRow, happ.id_eq]
  -- The row takes the number after those already inserted.
  have hnext : AggregateState.increment state.sequenceNumber =
      (k + inserted.length + 1 : Nat) := by
    have hnext := AggregateState.increment_of_nonneg (by simpa [hrow, eventRow] using hnonneg)
    rw [hnext, happ.sequenceNumber_eq]
    push_cast
    ring
  have hseq : row.sequenceNumber = (k + inserted.length + 1 : Nat) := by
    simp [hrow, eventRow, hnext]
  have hk : k = world.table.length :=
    current_of_insert h.numbered happ.snapshot.1 happ.current rfl hagg hseq
      fun other hmem => hfree other (by simp [hmem])
  refine h.setWriter ⟨k, read, done ++ [payload], ?_⟩ ?_
  · exact
      { snapshot := happ.snapshot
        answers := happ.answers
        split := by simpa using happ.split
        encoded := by
          rw [List.mapM_append, happ.encoded]
          simp [hjson, hrow, eventRow, bind, Except.bind, pure, Except.pure]
        numbered := by
          rw [numbered_append]
          refine ⟨happ.numbered, ?_, hagg, hseq, trivial⟩
          simp [hrow, eventRow]
        id_eq := happ.id_eq
        sequenceNumber_eq := by
          simp only [AggregateState.nextSequenceNumber, hnext, List.length_append,
            List.length_singleton]
          omega
        current := fun _ => hk }
  · intro _ other hne
    by_cases hinserted : inserted = []
    · subst hinserted
      exact holds_eq_nil_of_not_blocked h hblocked hagg (by simpa [hk] using hseq) hne
    · by_contra hholds
      exact hne (h.exclusive other w hholds (by simpa [hw, Writer.holds] using hinserted))

theorem WorldOk.idle {world : World α W J} (h : WorldOk codec tenantId aggregateId world) (w : W) :
    WorldOk codec tenantId aggregateId (world.setWriter w .idle) :=
  h.setWriter trivial fun hne => absurd rfl hne

/-- A state just loaded is that of the whole table. -/
theorem WorldOk.loaded [LawfulMonad m] [Returning m] {world : World α W J}
    (h : WorldOk codec tenantId aggregateId world) {w : W}
    {env : ReadEnv} {state : AggregateState (LedgerState α)}
    (hload : load codec tenantId world.table aggregateId env = (pure (.ok state) : m _)) :
    WorldOk codec tenantId aggregateId (world.setWriter w (.loaded state)) := by
  refine h.setWriter ⟨world.table.length, le_rfl, ?_⟩ fun hne => absurd rfl hne
  rw [List.take_length]
  exact (load_ok hload).1

theorem WorldOk.decided {world : World α W J} (h : WorldOk codec tenantId aggregateId world) {w : W}
    {state : AggregateState (LedgerState α)} (hw : world.writers w = .loaded state)
    {request : Request α} {events : List (LedgerEvent α)}
    (hanswer : Answers state request events) :
    WorldOk codec tenantId aggregateId (world.setWriter w (.decided state request events)) := by
  have hok := h.writers w
  rw [hw] at hok
  rcases hok with ⟨k, hsnap⟩
  exact h.setWriter ⟨k, hsnap, hanswer⟩ fun hne => absurd rfl hne

/-- A transaction begins with the state that was loaded, however old it is by now. -/
theorem WorldOk.begun [LawfulMonad m] [Returning m] {world : World α W J}
    (h : WorldOk codec tenantId aggregateId world) {w : W}
    {state : AggregateState (LedgerState α)} {request : Request α}
    {events : List (LedgerEvent α)} (hw : world.writers w = .decided state request events)
    (occurredOn : DateTimeUtc) :
    WorldOk codec tenantId aggregateId
      (world.setWriter w (.appending state request occurredOn events events [])) := by
  have hok := h.writers w
  rw [hw] at hok
  rcases hok with ⟨k, hsnap, hanswer⟩
  have hload := load_ok hsnap.2
  have hnum := numbered_take h.numbered k
  refine h.setWriter ⟨k, state, [], ?_⟩ fun hne => absurd rfl hne
  exact
    { snapshot := hsnap
      answers := hanswer
      split := rfl
      encoded := rfl
      numbered := trivial
      id_eq := hload.2.1
      sequenceNumber_eq := by
        rw [sequenceNumber_of_load hnum hsnap.2, List.length_take, Nat.min_eq_left hsnap.1]
        simp
      current := fun hne => absurd rfl hne }

/-! ## What a step can do -/

/-- What a step of a writer does to the world, and when it does. -/
inductive WriterAdvance (codec : Codec (LedgerEvent α) J) (tenantId : TenantId)
    (aggregateId : Uuid) (world : World α W J) : W × WriterAction α → World α W J → Prop
  | unread (w : W) (env : ReadEnv) :
      WriterAdvance codec tenantId aggregateId world (w, .load env) world
  | load {w : W} {env : ReadEnv} {state : AggregateState (LedgerState α)} :
      Falkr.load codec tenantId world.table aggregateId env = (pure (.ok state) : m _) →
      WriterAdvance codec tenantId aggregateId world (w, .load env)
        (world.setWriter w (.loaded state))
  /-- The command was rejected, or the attempt is dropped. -/
  | idle (w : W) (action : WriterAction α) :
      WriterAdvance codec tenantId aggregateId world (w, action) (world.setWriter w .idle)
  | decide {w : W} {request : Request α} {state : AggregateState (LedgerState α)}
      {events : List (LedgerEvent α)} :
      world.writers w = .loaded state →
      Answers state request events →
      WriterAdvance codec tenantId aggregateId world (w, .handle request)
        (world.setWriter w (.decided state request events))
  /-- The connection or the statement fails by itself. -/
  | broken (w : W) {action : WriterAction α} (request : Request α) (events : List (LedgerEvent α))
      {e : String} :
      action.error = some e →
      WriterAdvance codec tenantId aggregateId world (w, action)
        (world.fail w request events (.backend e))
  | begin {w : W} {request : Request α} {state : AggregateState (LedgerState α)}
      {events : List (LedgerEvent α)} (occurredOn : DateTimeUtc) :
      world.writers w = .decided state request events →
      WriterAdvance codec tenantId aggregateId world (w, .begin occurredOn none)
        (world.setWriter w (.appending state request occurredOn events events []))
  | insert {w : W} {id : Uuid} {request : Request α} {state : AggregateState (LedgerState α)}
      {events todo : List (LedgerEvent α)} {payload : LedgerEvent α} {occurredOn : DateTimeUtc}
      {inserted table' : List (LedgerRow J)} {json : J} {row : LedgerRow J} :
      world.writers w = .appending state request occurredOn events (payload :: todo) inserted →
      codec.toValue payload = .ok json →
      row = eventRow tenantId state.id occurredOn id
        (AggregateState.increment state.sequenceNumber) json →
      ¬world.Blocked w row → insertRow (world.table ++ inserted) row = .ok table' →
      WriterAdvance codec tenantId aggregateId world (w, .insert id none)
        (world.setWriter w (.appending state.nextSequenceNumber.2 request occurredOn events todo
          (inserted ++ [row])))
  | unserialized (w : W) (action : WriterAction α) (request : Request α)
      (events : List (LedgerEvent α)) {payload : LedgerEvent α} {e : String} :
      codec.toValue payload = .error e →
      WriterAdvance codec tenantId aggregateId world (w, action)
        (world.fail w request events (.serialize e))
  | refuse {w : W} {id : Uuid} {request : Request α} {state : AggregateState (LedgerState α)}
      {events todo : List (LedgerEvent α)} {payload : LedgerEvent α} {occurredOn : DateTimeUtc}
      {inserted : List (LedgerRow J)} {json : J} {row : LedgerRow J} {e : DatabaseError} :
      world.writers w = .appending state request occurredOn events (payload :: todo) inserted →
      row = eventRow tenantId state.id occurredOn id
        (AggregateState.increment state.sequenceNumber) json →
      insertRow (world.table ++ inserted) row = .error e →
      WriterAdvance codec tenantId aggregateId world (w, .insert id none)
        (world.fail w request events
          (insertFailure state.id (AggregateState.increment state.sequenceNumber) e))
  | commit {w : W} {request : Request α} {state : AggregateState (LedgerState α)}
      {events : List (LedgerEvent α)} {occurredOn : DateTimeUtc} {inserted : List (LedgerRow J)} :
      world.writers w = .appending state request occurredOn events [] inserted →
      WriterAdvance codec tenantId aggregateId world (w, .commit none)
        (world.commit w request events inserted)

variable [Fintype W]

theorem insertStep_advance {world world' : World α W J} {w : W}
    {state : AggregateState (LedgerState α)} {request : Request α} {occurredOn : DateTimeUtc}
    {events todo : List (LedgerEvent α)} {payload : LedgerEvent α} {inserted : List (LedgerRow J)}
    {id : Uuid} {error : Option String}
    (hw : world.writers w = .appending state request occurredOn events (payload :: todo) inserted)
    (hstep : insertStep codec tenantId world w state request occurredOn events payload todo
      inserted id error = some world') :
    WriterAdvance codec tenantId aggregateId world (w, .insert id error) world' := by
  unfold insertStep at hstep
  cases hjson : codec.toValue payload with
  | error e =>
      have heq : world.fail w request events (.serialize e) = world' := by
        simpa [hjson] using hstep
      exact heq ▸ .unserialized w _ request events hjson
  | ok json =>
      cases error with
      | some e =>
          have heq : world.fail w request events (.backend e) = world' := by
            simpa [hjson] using hstep
          exact heq ▸ .broken w request events rfl
      | none =>
          generalize hrow : eventRow tenantId state.nextSequenceNumber.2.id occurredOn id
            state.nextSequenceNumber.1 json = row at hstep
          by_cases hblocked : world.Blocked w row
          · simp [hjson, hrow, hblocked] at hstep
          · cases hinsert : insertRow (world.table ++ inserted) row with
            | error e =>
                have heq : world.fail w request events (insertFailure
                    state.nextSequenceNumber.2.id state.nextSequenceNumber.1 e) = world' := by
                  simpa [hjson, hrow, hblocked, hinsert] using hstep
                exact heq ▸ .refuse hw hrow.symm hinsert
            | ok table' =>
                have heq : world.setWriter w (.appending state.nextSequenceNumber.2 request
                    occurredOn events todo (inserted ++ [row])) = world' := by
                  simpa [hjson, hrow, hblocked, hinsert] using hstep
                exact heq ▸ .insert hw hjson hrow.symm hblocked hinsert

variable [Outcome m]

theorem writerStep_advance {world world' : World α W J} {label : W × WriterAction α}
    (hstep : writerStep codec tenantId aggregateId world label = some world') :
    WriterAdvance codec tenantId aggregateId world label world' := by
  rcases label with ⟨w, action⟩
  cases hw : world.writers w with
  | idle =>
      cases action with
      | load env =>
          cases hload : outcome (load codec tenantId world.table aggregateId env) with
          | none =>
              have heq : world = world' := by simpa [writerStep, hw, hload] using hstep
              exact heq ▸ .unread w env
          | some result =>
              cases result with
              | error e =>
                  have heq : world = world' := by simpa [writerStep, hw, hload] using hstep
                  exact heq ▸ .unread w env
              | ok state =>
                  have heq : world.setWriter w (.loaded state) = world' := by
                    simpa [writerStep, hw, hload] using hstep
                  exact heq ▸ .load (outcome_eq_some.1 hload)
      | abandon =>
          have heq : world.setWriter w .idle = world' := by simpa [writerStep, hw] using hstep
          exact heq ▸ .idle ..
      | _ => simp [writerStep, hw] at hstep
  | loaded state =>
      cases action with
      | handle request =>
          cases hanswer : outcome (handleCommand state.inner request.command request.newId
              request.now) with
          | none =>
              have heq : world.setWriter w .idle = world' := by
                simpa [writerStep, hw, hanswer] using hstep
              exact heq ▸ .idle ..
          | some answer =>
              cases answer with
              | error e =>
                  have heq : world.setWriter w .idle = world' := by
                    simpa [writerStep, hw, hanswer] using hstep
                  exact heq ▸ .idle ..
              | ok events =>
                  have heq : world.setWriter w (.decided state request events) = world' := by
                    simpa [writerStep, hw, hanswer] using hstep
                  exact heq ▸ .decide hw (outcome_eq_some.1 hanswer)
      | abandon =>
          have heq : world.setWriter w .idle = world' := by simpa [writerStep, hw] using hstep
          exact heq ▸ .idle ..
      | _ => simp [writerStep, hw] at hstep
  | decided state request events =>
      cases action with
      | begin occurredOn error =>
          cases error with
          | some e =>
              have heq : world.fail w request events (.backend e) = world' := by
                simpa [writerStep, hw] using hstep
              exact heq ▸ .broken w request events rfl
          | none =>
              have heq : world.setWriter w
                  (.appending state request occurredOn events events []) = world' := by
                simpa [writerStep, hw] using hstep
              exact heq ▸ .begin occurredOn hw
      | abandon =>
          have heq : world.setWriter w .idle = world' := by simpa [writerStep, hw] using hstep
          exact heq ▸ .idle ..
      | _ => simp [writerStep, hw] at hstep
  | appending state request occurredOn events todo inserted =>
      cases action with
      | insert id error =>
          cases todo with
          | nil => simp [writerStep, hw] at hstep
          | cons payload todo => exact insertStep_advance hw (by simpa [writerStep, hw] using hstep)
      | commit error =>
          cases todo with
          | cons payload todo => simp [writerStep, hw] at hstep
          | nil =>
              cases error with
              | some e =>
                  have heq : world.fail w request events (.backend e) = world' := by
                    simpa [writerStep, hw] using hstep
                  exact heq ▸ .broken w request events rfl
              | none =>
                  have heq : world.commit w request events inserted = world' := by
                    simpa [writerStep, hw] using hstep
                  exact heq ▸ .commit hw
      | abandon =>
          -- The connection is dropped, and its rows with it, whatever is left to insert.
          have heq : world.setWriter w .idle = world' := by
            cases todo <;> simpa [writerStep, hw] using hstep
          exact heq ▸ .idle ..
      | load env => cases todo <;> simp [writerStep, hw] at hstep
      | handle request' => cases todo <;> simp [writerStep, hw] at hstep
      | begin occurredOn' error => cases todo <;> simp [writerStep, hw] at hstep

variable [LawfulMonad m]

/-- Every step of every writer keeps the world in order. -/
theorem worldOk_step {world world' : World α W J} (h : WorldOk codec tenantId aggregateId world)
    {label : W × WriterAction α}
    (hstep : writerStep codec tenantId aggregateId world label = some world') :
    WorldOk codec tenantId aggregateId world' := by
  cases writerStep_advance hstep with
  | unread w env => exact h
  | load hload => exact h.loaded hload
  | idle w action => exact h.idle w
  | decide hw hanswer => exact h.decided hw hanswer
  | broken w request events herror => exact h.fail w request events _
  | unserialized w action request events hjson => exact h.fail w request events _
  | begin occurredOn hw => exact h.begun hw occurredOn
  | insert hw hjson hrow hblocked hinsert => exact h.insert hw hjson hrow hblocked hinsert
  | refuse hw hrow hinsert => exact h.fail _ _ _ _
  | commit hw => exact h.commit hw

theorem worldOk_of_run {labels : List (W × WriterAction α)} {world : World α W J}
    (h : (ledgerWriters codec tenantId aggregateId).run World.start labels = some world) :
    WorldOk codec tenantId aggregateId world :=
  (ledgerWriters codec tenantId aggregateId).invariant (WorldOk codec tenantId aggregateId)
    worldOk_start (fun _ _ _ hok hstep => worldOk_step hok hstep) h

/-- The numbers of a numbered stream. -/
theorem sequenceNumbers_of_numbered {rows : List (LedgerRow J)} :
    ∀ {k : Nat}, Numbered tenantId aggregateId k rows →
      rows.map LedgerRow.sequenceNumber =
        (List.range' (k + 1) rows.length).map fun n => (n : Int) := by
  induction rows with
  | nil =>
      intro k _
      rfl
  | cons row rest ih =>
      intro k h
      rcases h with ⟨-, -, hseq, hrest⟩
      simp [List.range'_succ, hseq, ih hrest]

/-- Whatever the writers do, in any order: the stored stream is numbered from one without gap or
repeat, it is made of the rows of the persist calls that returned `Ok` and of no others, and each
of these stored the answer to its request on the load of exactly the rows stored before it. -/
theorem serial_of_run {labels : List (W × WriterAction α)} {world : World α W J}
    (h : (ledgerWriters codec tenantId aggregateId).run World.start labels = some world) :
    world.table.map LedgerRow.sequenceNumber =
        (List.range' 1 world.table.length).map (fun n => (n : Int)) ∧
      world.table = stored world.returned ∧
      Serial codec tenantId aggregateId world.returned := by
  have hok := worldOk_of_run h
  exact ⟨sequenceNumbers_of_numbered hok.numbered, hok.stored_eq, hok.serial⟩

end Invariant

/-! ## One writer alone -/

section Alone

variable {m : Type → Type} [Monad m] [Outcome m] {α : Type} [Amount m α] {W J : Type}

/-- No other writer holds a row. -/
def World.Alone (world : World α W J) (w : W) : Prop :=
  ∀ other, other ≠ w → (world.writers other).holds = []

theorem World.Alone.not_blocked {world : World α W J} {w : W} (h : world.Alone w)
    (row : LedgerRow J) : ¬world.Blocked w row := by
  rintro ⟨other, hne, held, hmem, -⟩
  simp [h other hne] at hmem

variable [DecidableEq W] {codec : Codec (LedgerEvent α) J} {tenantId : TenantId}
  {aggregateId : Uuid}

namespace World

@[simp] theorem setWriter_table (world : World α W J) (w : W) (writer : Writer α J) :
    (world.setWriter w writer).table = world.table := rfl

@[simp] theorem setWriter_setWriter (world : World α W J) (w : W) (writer writer' : Writer α J) :
    (world.setWriter w writer).setWriter w writer' = world.setWriter w writer' := by
  simp [setWriter]

@[simp] theorem setWriter_fail (world : World α W J) (w : W) (writer : Writer α J)
    (request : Request α) (events : List (LedgerEvent α)) (e : LedgerStoreError) :
    (world.setWriter w writer).fail w request events e = world.fail w request events e := by
  simp [setWriter, fail]

@[simp] theorem setWriter_commit (world : World α W J) (w : W) (writer : Writer α J)
    (request : Request α) (events : List (LedgerEvent α)) (inserted : List (LedgerRow J)) :
    (world.setWriter w writer).commit w request events inserted =
      world.commit w request events inserted := by
  simp [setWriter, commit]

theorem Alone.setWriter {world : World α W J} {w : W} (h : world.Alone w) (writer : Writer α J) :
    (world.setWriter w writer).Alone w := by
  intro other hne
  simpa [World.setWriter, hne] using h other hne

end World

variable [Fintype W]

/-- What the loop in `persist` returns is what some run of its writer's insert steps leads to. -/
def RunsTo (codec : Codec (LedgerEvent α) J) (tenantId : TenantId) (aggregateId : Uuid)
    (world : World α W J) (w : W) (request : Request α) (occurredOn : DateTimeUtc)
    (events : List (LedgerEvent α)) :
    AggregateState (LedgerState α) ×
      Except LedgerStoreError (List (LedgerRow J) × List (StoreEvent (LedgerEvent α))) → Prop
  | (_, .error e) => ∃ labels,
      (ledgerWriters codec tenantId aggregateId).run world labels =
        some (world.fail w request events e)
  | (state, .ok (table, _)) => ∃ labels inserted, table = world.table ++ inserted ∧
      (ledgerWriters codec tenantId aggregateId).run world labels =
        some (world.setWriter w (.appending state request occurredOn events [] inserted))

theorem RunsTo.cons {aggregateId : Uuid} {world : World α W J} {w : W} {request : Request α}
    {occurredOn : DateTimeUtc} {events : List (LedgerEvent α)} {writer : Writer α J}
    {label : W × WriterAction α}
    (hstep : (ledgerWriters codec tenantId aggregateId).step world label =
      some (world.setWriter w writer)) :
    ∀ {result}, RunsTo codec tenantId aggregateId (world.setWriter w writer) w request occurredOn
        events result →
      RunsTo codec tenantId aggregateId world w request occurredOn events result
  | (_, .error _), ⟨labels, hrun⟩ => ⟨label :: labels, by
      simpa [Machine.run_cons, hstep] using hrun⟩
  | (_, .ok _), ⟨labels, inserted, htable, hrun⟩ => ⟨label :: labels, inserted, htable, by
      simpa [Machine.run_cons, hstep] using hrun⟩

variable (codec tenantId) in
theorem runsTo_insertEvents (aggregateId : Uuid) {w : W} (request : Request α)
    (events : List (LedgerEvent α)) (env : PersistEnv) :
    ∀ (todo : List (LedgerEvent α)) (pass : Nat) (state : AggregateState (LedgerState α))
      (inserted : List (LedgerRow J)) (stored : List (StoreEvent (LedgerEvent α)))
      (world : World α W J), world.Alone w →
      world.writers w = .appending state request env.occurredOn events todo inserted →
      RunsTo codec tenantId aggregateId world w request env.occurredOn events
        (insertEvents codec tenantId env todo pass state (world.table ++ inserted) stored) := by
  intro todo
  induction todo with
  | nil =>
      intro pass state inserted stored world _ hw
      refine ⟨[], inserted, rfl, ?_⟩
      simp [World.setWriter, ← hw]
  | cons payload rest ih =>
      intro pass state inserted stored world halone hw
      have hone : ∀ error, (ledgerWriters codec tenantId aggregateId).step world
          (w, .insert (env.ids pass) error) =
            insertStep codec tenantId world w state request env.occurredOn events payload rest
              inserted (env.ids pass) error := by
        intro error
        simp [ledgerWriters, writerStep, hw]
      cases hjson : codec.toValue payload with
      | error e =>
          have hloop : insertEvents codec tenantId env (payload :: rest) pass state
              (world.table ++ inserted) stored =
                (state.nextSequenceNumber.2, .error (.serialize e)) := by
            simp [insertEvents, hjson]
          rw [hloop]
          refine ⟨[(w, .insert (env.ids pass) none)], ?_⟩
          simp [Machine.run_cons, hone, insertStep, hjson]
      | ok json =>
          cases herror : env.insertError pass with
          | some e =>
              have hloop : insertEvents codec tenantId env (payload :: rest) pass state
                  (world.table ++ inserted) stored =
                    (state.nextSequenceNumber.2, .error (.backend e)) := by
                simp [insertEvents, hjson, herror]
              rw [hloop]
              refine ⟨[(w, .insert (env.ids pass) (some e))], ?_⟩
              simp [Machine.run_cons, hone, insertStep, hjson]
          | none =>
              generalize hrow : eventRow tenantId state.nextSequenceNumber.2.id env.occurredOn
                (env.ids pass) state.nextSequenceNumber.1 json = row
              have hfree := halone.not_blocked row
              cases hinsert : insertRow (world.table ++ inserted) row with
              | error e =>
                  have hloop : insertEvents codec tenantId env (payload :: rest) pass state
                      (world.table ++ inserted) stored =
                        (state.nextSequenceNumber.2, .error (insertFailure
                          state.nextSequenceNumber.2.id state.nextSequenceNumber.1 e)) := by
                    simp [insertEvents, hjson, herror, hrow, hinsert]
                  rw [hloop]
                  refine ⟨[(w, .insert (env.ids pass) none)], ?_⟩
                  simp [Machine.run_cons, hone, insertStep, hjson, hrow, hfree, hinsert]
              | ok table' =>
                  -- The rest of the loop runs from the world in which this row is held.
                  have htable : table' = world.table ++ (inserted ++ [row]) := by
                    simpa using (insertRow_ok hinsert).2.2
                  subst htable
                  have hstep : (ledgerWriters codec tenantId aggregateId).step world
                      (w, .insert (env.ids pass) none) =
                        some (world.setWriter w (.appending state.nextSequenceNumber.2 request
                          env.occurredOn events rest (inserted ++ [row]))) := by
                    simp [hone, insertStep, hjson, hrow, hfree, hinsert]
                  simpa [insertEvents, hjson, herror, hrow, hinsert] using
                    (ih (pass + 1) _ (inserted ++ [row]) _ _ (halone.setWriter _)
                      (by simp [World.setWriter])).cons hstep

/-- A persist call that no other writer gets in the way of is the run of its writer's statements:
the same rows end up in the table, and the same result is returned. -/
theorem run_persist (aggregateId : Uuid) {world : World α W J} {w : W}
    {state : AggregateState (LedgerState α)} {request : Request α}
    {events : List (LedgerEvent α)} (halone : world.Alone w)
    (hw : world.writers w = .decided state request events) (env : PersistEnv) :
    ∃ labels world' call,
      (ledgerWriters codec tenantId aggregateId).run world labels = some world' ∧
        world'.table = (persist codec tenantId world.table state events env).1 ∧
        world'.returned = world.returned ++ [call] ∧
        call.result.map (fun _ => ()) =
          (persist codec tenantId world.table state events env).2.2.map (fun _ => ()) := by
  cases hopen : env.beginError with
  | some e =>
      have hbegin : (ledgerWriters codec tenantId aggregateId).step world
          (w, .begin env.occurredOn (some e)) =
            some (world.fail w request events (.backend e)) := by
        simp [ledgerWriters, writerStep, hw]
      refine ⟨[(w, .begin env.occurredOn (some e))], world.fail w request events (.backend e),
        { request := request, events := events, result := .error (.backend e) }, ?_, ?_, rfl, ?_⟩
      · simp [Machine.run_cons, hbegin]
      · simp [persist, hopen, World.fail]
      · simp [persist, hopen, Except.map]
  | none =>
      have hbegin : (ledgerWriters codec tenantId aggregateId).step world
          (w, .begin env.occurredOn none) =
            some (world.setWriter w
              (.appending state request env.occurredOn events events [])) := by
        simp [ledgerWriters, writerStep, hw]
      have hloop : RunsTo codec tenantId aggregateId world w request env.occurredOn events
          (insertEvents codec tenantId env events 0 state world.table []) := by
        have h := runsTo_insertEvents codec tenantId aggregateId request events env events 0 state
          [] [] (world.setWriter w (.appending state request env.occurredOn events events []))
          (halone.setWriter _) (by simp [World.setWriter])
        rw [List.append_nil] at h
        exact h.cons hbegin
      cases hresult : insertEvents codec tenantId env events 0 state world.table [] with
      | mk state' result =>
          rw [hresult] at hloop
          cases result with
          | error e =>
              rcases hloop with ⟨labels, hrun⟩
              refine ⟨labels, world.fail w request events e,
                { request := request, events := events, result := .error e }, hrun, ?_, rfl, ?_⟩
              · simp [persist, hopen, hresult, World.fail]
              · simp [persist, hopen, hresult, Except.map]
          | ok stored =>
              rcases hloop with ⟨labels, inserted, htable, hrun⟩
              cases hclose : env.commitError with
              | some e =>
                  have hcommit : (ledgerWriters codec tenantId aggregateId).run world
                      (labels ++ [(w, .commit (some e))]) =
                        some (world.fail w request events (.backend e)) := by
                    rw [Machine.run_append, hrun]
                    simp [Machine.run_cons, ledgerWriters, writerStep, World.setWriter, World.fail]
                  refine ⟨_, world.fail w request events (.backend e),
                    { request := request, events := events, result := .error (.backend e) },
                    hcommit, ?_, rfl, ?_⟩
                  · simp [persist, hopen, hresult, hclose, World.fail]
                  · simp [persist, hopen, hresult, hclose, Except.map]
              | none =>
                  have hcommit : (ledgerWriters codec tenantId aggregateId).run world
                      (labels ++ [(w, .commit none)]) =
                        some (world.commit w request events inserted) := by
                    rw [Machine.run_append, hrun]
                    simp [Machine.run_cons, ledgerWriters, writerStep, World.setWriter,
                      World.commit]
                  refine ⟨_, world.commit w request events inserted,
                    { request := request, events := events, result := .ok inserted },
                    hcommit, ?_, rfl, ?_⟩
                  · simp [persist, hopen, hresult, hclose, htable, World.commit]
                  · simp [persist, hopen, hresult, hclose, Except.map]

end Alone

/-! ## Two writers -/

/-- A request that posts one dollar between two accounts. -/
def dollarRequest (newId : EntryId) : Request ℚ where
  command := .postJournalEntry
    [⟨⟨10⟩, some { amount := 1, currency := .usd }, none, []⟩,
      ⟨⟨11⟩, none, some { amount := 1, currency := .usd }, []⟩]
    (Dimensions.new ⟨1⟩ ⟨2⟩ ⟨3⟩ ⟨4⟩ .opEx)
  newId := newId
  now := ⟨0⟩

/-- Both writers load the empty stream; the second loses the race and goes again from a fresh
load. -/
def raceLabels : List (Fin 2 × WriterAction ℚ) :=
  [(0, .load .ok), (1, .load .ok), (0, .handle (dollarRequest ⟨1⟩)),
    (1, .handle (dollarRequest ⟨2⟩)), (0, .begin ⟨5⟩ none), (1, .begin ⟨6⟩ none),
    (0, .insert 100 none), (0, .commit none), (1, .insert 101 none), (1, .load .ok),
    (1, .handle (dollarRequest ⟨2⟩)), (1, .begin ⟨7⟩ none), (1, .insert 102 none),
    (1, .commit none)]

def raceWorld : Option (World ℚ (Fin 2) (LedgerEvent ℚ)) :=
  (ledgerWriters Codec.plain ⟨1⟩ 7).run World.start raceLabels

theorem raceWorld_isSome : raceWorld.isSome = true := by
  decide +kernel

theorem serial_raceWorld :
    (raceWorld.get raceWorld_isSome).table.map LedgerRow.sequenceNumber = [1, 2] ∧
      (raceWorld.get raceWorld_isSome).returned.map (fun call => call.result.isOk) =
        [true, false, true] ∧
      Serial Codec.plain ⟨1⟩ 7 (raceWorld.get raceWorld_isSome).returned := by
  have hrun : (ledgerWriters Codec.plain ⟨1⟩ 7).run World.start raceLabels =
      some (raceWorld.get raceWorld_isSome) := (Option.some_get raceWorld_isSome).symm
  exact ⟨by decide +kernel, by decide +kernel, (serial_of_run hrun).2.2⟩

end Falkr
