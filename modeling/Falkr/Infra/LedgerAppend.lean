import Falkr.Infra.LedgerStore

/-!
# LedgerAppend — what one append does

The rows that the loop in `persist` gets inserted (`insertable`), and what follows for a whole call:
the table grows by rows of the caller's tenant under increasing numbers, or stays as it is.
-/

namespace Falkr

/-- A number that the check constraint admits did not wrap around. -/
theorem AggregateState.increment_of_nonneg {n : Int} (h : ¬AggregateState.increment n < 0) :
    AggregateState.increment n = n + 1 := by
  by_cases hmax : n = 2147483647
  · simp [AggregateState.increment, hmax] at h
  · simp [AggregateState.increment, hmax]

/-! ## One insert -/

section Insert

variable {J : Type}

theorem insertRow_ok {table table' : List (LedgerRow J)} {row : LedgerRow J}
    (h : insertRow table row = .ok table') :
    ¬row.sequenceNumber < 0 ∧ (∀ other ∈ table, ¬row.Clashes other) ∧ table' = table ++ [row] := by
  by_cases hneg : row.sequenceNumber < 0
  · simp [insertRow, hneg] at h
  · by_cases hclash : ∃ other ∈ table, row.Clashes other
    · simp [insertRow, hneg, hclash] at h
    · have hfree : ∀ other ∈ table, ¬row.Clashes other := by simpa using hclash
      refine ⟨hneg, hfree, ?_⟩
      simpa [insertRow, hneg, hclash] using h.symm

theorem insertRow_of_free {table : List (LedgerRow J)} {row : LedgerRow J}
    (hnonneg : ¬row.sequenceNumber < 0) (hfree : ∀ other ∈ table, ¬row.Clashes other) :
    insertRow table row = .ok (table ++ [row]) := by
  have hclash : ¬∃ other ∈ table, row.Clashes other := by simpa using hfree
  simp [insertRow, hnonneg, hclash]

/-- What the caller hears of an insert that a constraint refused. -/
theorem insertFailure_of_insertRow {table : List (LedgerRow J)} {row : LedgerRow J}
    {e : DatabaseError} (h : insertRow table row = .error e) (aggregateId : Uuid) (n : Int) :
    insertFailure aggregateId n e =
      if row.sequenceNumber < 0 then .backend "ledger_events_sequence_is_positive"
      else .concurrencyConflict aggregateId n := by
  by_cases hneg : row.sequenceNumber < 0
  · have he : { code := some "23514", message := "ledger_events_sequence_is_positive" } = e := by
      simpa [insertRow, hneg] using h
    simp [← he, insertFailure, hneg]
  · by_cases hclash : ∃ other ∈ table, row.Clashes other
    · have he : { code := some "23505", message := "duplicate key value" } = e := by
        simpa [insertRow, hneg, hclash] using h
      simp [← he, insertFailure, hneg]
    · simp [insertRow, hneg, hclash] at h

end Insert

/-! ## The loop -/

section Loop

variable {α J : Type} (codec : Codec (LedgerEvent α) J) (tenantId : TenantId) (env : PersistEnv)

/-- What a pass of the loop hands to the database, unless it fails before. -/
def statement (payload : LedgerEvent α) (pass : Nat) : Except LedgerStoreError J :=
  match codec.toValue payload with
  | .error e => .error (.serialize e)
  | .ok json =>
      match env.insertError pass with
      | some e => .error (.backend e)
      | none => .ok json

/-- The row of the pass that starts in a state. -/
def passRow (pass : Nat) (state : AggregateState (LedgerState α)) (json : J) : LedgerRow J :=
  eventRow tenantId state.id env.occurredOn (env.ids pass)
    (AggregateState.increment state.sequenceNumber) json

/-- The envelope of that row. -/
def passEvent (pass : Nat) (state : AggregateState (LedgerState α)) (payload : LedgerEvent α) :
    StoreEvent (LedgerEvent α) where
  id := env.ids pass
  aggregateId := state.id
  payload := payload
  occurredOn := env.occurredOn
  sequenceNumber := AggregateState.increment state.sequenceNumber
  version := none

/-- The rows that the loop in `persist` gets inserted into a table before it ends or fails. -/
def insertable : List (LedgerEvent α) → Nat → AggregateState (LedgerState α) →
    List (LedgerRow J) → List (LedgerRow J)
  | [], _, _, _ => []
  | payload :: rest, pass, state, table =>
      match statement codec env payload pass with
      -- The rows before the failure went in, and only the rollback takes them back.
      | .error _ => []
      | .ok json =>
          match insertRow table (passRow tenantId env pass state json) with
          | .error _ => []
          | .ok table =>
              passRow tenantId env pass state json ::
                insertable rest (pass + 1) state.nextSequenceNumber.2 table

/-- One pass: it fails before the database is asked, is refused by it, or the loop goes on. -/
theorem insertEvents_cons (payload : LedgerEvent α) (rest : List (LedgerEvent α)) (pass : Nat)
    (state : AggregateState (LedgerState α)) (table : List (LedgerRow J))
    (stored : List (StoreEvent (LedgerEvent α))) :
    insertEvents codec tenantId env (payload :: rest) pass state table stored =
      match statement codec env payload pass with
      | .error e => (state.nextSequenceNumber.2, .error e)
      | .ok json =>
          match insertRow table (passRow tenantId env pass state json) with
          | .error e => (state.nextSequenceNumber.2, .error (insertFailure state.id
              (AggregateState.increment state.sequenceNumber) e))
          | .ok table =>
              insertEvents codec tenantId env rest (pass + 1) state.nextSequenceNumber.2 table
                (stored ++ [passEvent env pass state payload]) := by
  cases hjson : codec.toValue payload with
  | error e => simp [insertEvents, statement, hjson, AggregateState.nextSequenceNumber]
  | ok json =>
      cases herror : env.insertError pass with
      | some e =>
          simp [insertEvents, statement, hjson, herror, AggregateState.nextSequenceNumber]
      | none =>
          cases hinsert : insertRow table (passRow tenantId env pass state json) with
          | error e =>
              simp_all [insertEvents, statement, AggregateState.nextSequenceNumber, passRow]
          | ok inserted =>
              simp_all [insertEvents, statement, AggregateState.nextSequenceNumber, passRow, passEvent]

variable {codec tenantId env}

theorem statement_ne_conflict {aggregateId : Uuid} {n : Int} (payload : LedgerEvent α)
    (pass : Nat) : statement codec env payload pass ≠
      .error (.concurrencyConflict aggregateId n) := by
  intro h
  cases hjson : codec.toValue payload with
  | error e => simp [statement, hjson] at h
  | ok json =>
      cases herror : env.insertError pass with
      | some e => simp [statement, hjson, herror] at h
      | none => simp [statement, hjson, herror] at h

theorem tenantId_of_insertable (events : List (LedgerEvent α)) (pass : Nat)
    (state : AggregateState (LedgerState α)) (table : List (LedgerRow J)) :
    ∀ row ∈ insertable codec tenantId env events pass state table, row.tenantId = tenantId := by
  fun_induction insertable codec tenantId env events pass state table with
  | case1 | case2 | case3 => simp
  | case4 payload rest pass state table json hstatement table' hinsert ih =>
      exact List.forall_mem_cons.2 ⟨rfl, ih⟩

/-- A row that a table admits has the next number. -/
theorem passRow_number {pass : Nat} {state : AggregateState (LedgerState α)} {json : J}
    {table table' : List (LedgerRow J)}
    (h : insertRow table (passRow tenantId env pass state json) = .ok table') :
    (passRow tenantId env pass state json).sequenceNumber = state.sequenceNumber + 1 ∧
      state.nextSequenceNumber.2.sequenceNumber = state.sequenceNumber + 1 := by
  have hnext := AggregateState.increment_of_nonneg (insertRow_ok h).1
  exact ⟨hnext, hnext⟩

theorem lt_sequenceNumber_of_insertable (events : List (LedgerEvent α)) (pass : Nat)
    (state : AggregateState (LedgerState α)) (table : List (LedgerRow J)) :
    ∀ row ∈ insertable codec tenantId env events pass state table,
      state.sequenceNumber < row.sequenceNumber := by
  fun_induction insertable codec tenantId env events pass state table with
  | case1 | case2 | case3 => simp
  | case4 payload rest pass state table json hstatement table' hinsert ih =>
      rcases passRow_number hinsert with ⟨hrow, hnext⟩
      refine List.forall_mem_cons.2 ⟨by omega, ?_⟩
      intro row hmem
      have hlt := ih row hmem
      omega

/-- The rows of a loop have different numbers. -/
theorem pairwise_insertable (events : List (LedgerEvent α)) (pass : Nat)
    (state : AggregateState (LedgerState α)) (table : List (LedgerRow J)) :
    (insertable codec tenantId env events pass state table).Pairwise
      fun row later => row.sequenceNumber < later.sequenceNumber := by
  fun_induction insertable codec tenantId env events pass state table with
  | case1 | case2 | case3 => simp
  | case4 payload rest pass state table json hstatement table' hinsert ih =>
      rcases passRow_number hinsert with ⟨hrow, hnext⟩
      refine List.pairwise_cons.2 ⟨?_, ih⟩
      intro later hmem
      have hlt := lt_sequenceNumber_of_insertable _ _ _ _ later hmem
      omega

/-- A loop that ends has appended its rows. -/
theorem insertEvents_ok (events : List (LedgerEvent α)) (pass : Nat)
    (state : AggregateState (LedgerState α)) (table : List (LedgerRow J))
    (stored : List (StoreEvent (LedgerEvent α))) {table' : List (LedgerRow J)}
    {stored' : List (StoreEvent (LedgerEvent α))}
    (h : (insertEvents codec tenantId env events pass state table stored).2 =
      .ok (table', stored')) :
    table' = table ++ insertable codec tenantId env events pass state table := by
  fun_induction insertable codec tenantId env events pass state table generalizing stored with
  | case1 pass state table =>
      have hpair : table = table' ∧ stored = stored' := by simpa [insertEvents] using h
      simp [hpair.1]
  | case2 payload rest pass state table e hstatement =>
      simp [insertEvents_cons, hstatement] at h
  | case3 payload rest pass state table json hstatement e hinsert =>
      simp [insertEvents_cons, hstatement, hinsert] at h
  | case4 payload rest pass state table json hstatement table₁ hinsert ih =>
      have hrest := ih _ (by simpa [insertEvents_cons, hstatement, hinsert] using h)
      simp [hrest, (insertRow_ok hinsert).2.2]

/-- A conflict is reported at a number past those of the rows that went in. -/
theorem lt_of_conflict (events : List (LedgerEvent α)) (pass : Nat)
    (state : AggregateState (LedgerState α)) (table : List (LedgerRow J))
    (stored : List (StoreEvent (LedgerEvent α))) {aggregateId : Uuid} {n : Int}
    (h : (insertEvents codec tenantId env events pass state table stored).2 =
      .error (.concurrencyConflict aggregateId n)) :
    state.sequenceNumber < n ∧
      ∀ row ∈ insertable codec tenantId env events pass state table, row.sequenceNumber < n := by
  fun_induction insertable codec tenantId env events pass state table generalizing stored with
  | case1 pass state table => simp [insertEvents] at h
  | case2 payload rest pass state table e hstatement =>
      have he : e = .concurrencyConflict aggregateId n := by
        simpa [insertEvents_cons, hstatement] using h
      -- Only a refused insert is a conflict; neither the codec nor the connection reports one.
      exact absurd (he ▸ hstatement) (statement_ne_conflict payload pass)
  | case3 payload rest pass state table json hstatement e hinsert =>
      simp only [insertEvents_cons, hstatement, hinsert, insertFailure_of_insertRow hinsert] at h
      by_cases hneg : (passRow tenantId env pass state json).sequenceNumber < 0
      · simp [hneg] at h
      · have hn : state.id = aggregateId ∧
            AggregateState.increment state.sequenceNumber = n := by simpa [hneg] using h
        have hnext := AggregateState.increment_of_nonneg hneg
        -- The pass that clashed is the one reported, and no row of the loop comes after it.
        exact ⟨by omega, by simp⟩
  | case4 payload rest pass state table json hstatement table' hinsert ih =>
      rcases passRow_number hinsert with ⟨hrow, hnext⟩
      rcases ih _ (by simpa [insertEvents_cons, hstatement, hinsert] using h) with ⟨hlt, hrest⟩
      exact ⟨by omega, List.forall_mem_cons.2 ⟨by omega, hrest⟩⟩

end Loop

/-! ## A call -/

section Call

variable {α J : Type} {codec : Codec (LedgerEvent α) J} {tenantId : TenantId} {env : PersistEnv}

variable (codec tenantId env) in
/-- What a call returns: the failure that comes first, or the events of the loop. -/
theorem persist_result_eq (state : AggregateState (LedgerState α)) (events : List (LedgerEvent α))
    (table : List (LedgerRow J)) :
    (persist codec tenantId table state events env).2.2 =
      match env.beginError with
      | some e => .error (.backend e)
      | none =>
          match (insertEvents codec tenantId env events 0 state table []).2 with
          | .error e => .error e
          | .ok (_, stored) =>
              match env.commitError with
              | some e => .error (.backend e)
              | none => .ok stored := by
  cases hbegin : env.beginError with
  | some e => simp only [persist, hbegin]
  | none =>
      cases hloop : insertEvents codec tenantId env events 0 state table [] with
      | mk state' result =>
          cases result with
          | error e => simp only [persist, hbegin, hloop]
          | ok inserted =>
              cases hcommit : env.commitError <;> simp only [persist, hbegin, hloop, hcommit]

/-- The caller's state is where the loop left it, however the call ends. -/
theorem persist_state_eq (hbegin : env.beginError = none) (state : AggregateState (LedgerState α))
    (events : List (LedgerEvent α)) (table : List (LedgerRow J)) :
    (persist codec tenantId table state events env).2.1 =
      (insertEvents codec tenantId env events 0 state table []).1 := by
  -- The state is the loop's on every path: only the table is rolled back.
  cases hloop : insertEvents codec tenantId env events 0 state table [] with
  | mk state' result =>
      cases result with
      | error e => simp only [persist, hbegin, hloop]
      | ok inserted =>
          cases hcommit : env.commitError <;> simp only [persist, hbegin, hloop, hcommit]

/-- A call that fails stores nothing. -/
theorem persist_error_table {state : AggregateState (LedgerState α)}
    {events : List (LedgerEvent α)} {table : List (LedgerRow J)} {e : LedgerStoreError}
    (h : (persist codec tenantId table state events env).2.2 = .error e) :
    (persist codec tenantId table state events env).1 = table := by
  cases hbegin : env.beginError with
  | some e' => simp only [persist, hbegin]
  | none =>
      cases hloop : insertEvents codec tenantId env events 0 state table [] with
      | mk state' result =>
          cases result with
          | error e' => simp only [persist, hbegin, hloop]
          | ok inserted =>
              cases hcommit : env.commitError with
              | some e' => simp only [persist, hbegin, hloop, hcommit]
              | none => simp [persist, hbegin, hloop, hcommit] at h

/-- A call that succeeds appends the rows of its loop. -/
theorem persist_ok_table {state : AggregateState (LedgerState α)} {events : List (LedgerEvent α)}
    {table : List (LedgerRow J)} {stored : List (StoreEvent (LedgerEvent α))}
    (h : (persist codec tenantId table state events env).2.2 = .ok stored) :
    (persist codec tenantId table state events env).1 =
        table ++ insertable codec tenantId env events 0 state table ∧
      ∃ result, (insertEvents codec tenantId env events 0 state table []).2 = .ok result := by
  cases hbegin : env.beginError with
  | some e => simp [persist, hbegin] at h
  | none =>
      cases hloop : insertEvents codec tenantId env events 0 state table [] with
      | mk state' result =>
          cases result with
          | error e => simp [persist, hbegin, hloop] at h
          | ok inserted =>
              have hrows := insertEvents_ok events 0 state table [] (by rw [hloop])
              cases hcommit : env.commitError with
              | some e => simp [persist, hbegin, hloop, hcommit] at h
              | none => exact ⟨by simpa [persist, hbegin, hloop, hcommit] using hrows, _, rfl⟩

end Call

end Falkr
