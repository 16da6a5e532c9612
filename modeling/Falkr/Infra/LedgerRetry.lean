import Falkr.Infra.LedgerAppend

/-!
# LedgerRetry — what a failed append leaves behind

The transaction of `persist` is all or nothing on the table.  The caller's `AggregateState` is not
part of it: the counter inside moves on at every pass of the loop, and stays where it is when the
call fails.  So a failed call leaves the pair of table and state as it was exactly if its loop never
began (`persist_atomic_iff`).

A caller that tries again with the state of a failed call inserts past the row it lost to, although
it never read that row.
-/

namespace Falkr

section Rows

variable {J : Type}

/-! ## Inserting rows one after another -/

/-- A table admits a batch: the numbers are in range, and no row clashes with a stored row or with
another row of the batch. -/
def Admits (table rows : List (LedgerRow J)) : Prop :=
  (∀ row ∈ rows, ¬row.sequenceNumber < 0 ∧ ∀ other ∈ table, ¬row.Clashes other) ∧
    rows.Pairwise fun row later => ¬later.Clashes row

theorem insertRow_ok_iff (table : List (LedgerRow J)) (row : LedgerRow J) :
    (∃ table', insertRow table row = .ok table') ↔
      ¬row.sequenceNumber < 0 ∧ ∀ other ∈ table, ¬row.Clashes other := by
  constructor
  · rintro ⟨table', h⟩
    exact ⟨(insertRow_ok h).1, (insertRow_ok h).2.1⟩
  · rintro ⟨hnonneg, hfree⟩
    exact ⟨_, insertRow_of_free hnonneg hfree⟩

theorem admits_cons (table : List (LedgerRow J)) (row : LedgerRow J) (rows : List (LedgerRow J)) :
    Admits table (row :: rows) ↔
      (¬row.sequenceNumber < 0 ∧ ∀ other ∈ table, ¬row.Clashes other) ∧
        Admits (table ++ [row]) rows := by
  simp only [Admits, List.forall_mem_cons, List.pairwise_cons, List.forall_mem_append,
    List.not_mem_nil, IsEmpty.forall_iff, implies_true, and_true]
  constructor
  · rintro ⟨⟨hrow, hrest⟩, hlater, hpair⟩
    exact ⟨hrow, fun later hmem =>
      ⟨(hrest later hmem).1, (hrest later hmem).2, hlater later hmem⟩, hpair⟩
  · rintro ⟨hrow, hrest, hpair⟩
    exact ⟨⟨hrow, fun later hmem => ⟨(hrest later hmem).1, (hrest later hmem).2.1⟩⟩,
      fun later hmem => (hrest later hmem).2.2, hpair⟩

end Rows

section Retry

variable {α J : Type}

/-! ## When a call goes through -/

/-- The encoded events of a batch, if every event encodes and no insert statement fails. -/
def statements (codec : Codec (LedgerEvent α) J) (env : PersistEnv) :
    List (LedgerEvent α) → Nat → Except LedgerStoreError (List J)
  | [], _ => .ok []
  | payload :: rest, pass =>
      match statement codec env payload pass with
      | .error e => .error e
      | .ok json =>
          match statements codec env rest (pass + 1) with
          | .error e => .error e
          | .ok jsons => .ok (json :: jsons)

/-- The rows that a batch asks for, numbered on from the state. -/
def batchRows (tenantId : TenantId) (env : PersistEnv) :
    Nat → AggregateState (LedgerState α) → List J → List (LedgerRow J)
  | _, _, [] => []
  | pass, state, json :: jsons =>
      passRow tenantId env pass state json ::
        batchRows tenantId env (pass + 1) state.nextSequenceNumber.2 jsons

/-- Nothing that can go wrong in a transaction goes wrong: every event encodes, no statement and not
the commit fails, and the table admits the rows of the batch. -/
def GoesThrough (codec : Codec (LedgerEvent α) J) (tenantId : TenantId)
    (table : List (LedgerRow J)) (state : AggregateState (LedgerState α))
    (events : List (LedgerEvent α)) (env : PersistEnv) : Prop :=
  env.commitError = none ∧ ∃ jsons, statements codec env events 0 = .ok jsons ∧
    Admits table (batchRows tenantId env 0 state jsons)

variable {codec : Codec (LedgerEvent α) J} {tenantId : TenantId} {env : PersistEnv}

theorem statements_cons {payload : LedgerEvent α} {rest : List (LedgerEvent α)} {pass : Nat}
    {json : J} (hstatement : statement codec env payload pass = .ok json) (jsons : List J) :
    statements codec env (payload :: rest) pass = .ok jsons ↔
      ∃ later, statements codec env rest (pass + 1) = .ok later ∧ json :: later = jsons := by
  cases hrest : statements codec env rest (pass + 1) with
  | error e => simp [statements, hstatement, hrest]
  | ok later => simp [statements, hstatement, hrest]

/-- The loop ends exactly if no pass fails. -/
theorem insertEvents_ok_iff :
    ∀ (events : List (LedgerEvent α)) (pass : Nat) (state : AggregateState (LedgerState α))
      (table : List (LedgerRow J)) (stored : List (StoreEvent (LedgerEvent α))),
      (∃ result, (insertEvents codec tenantId env events pass state table stored).2 =
          .ok result) ↔
        ∃ jsons, statements codec env events pass = .ok jsons ∧
          Admits table (batchRows tenantId env pass state jsons) := by
  intro events
  induction events with
  | nil =>
      intro pass state table stored
      simp [insertEvents, statements, batchRows, Admits]
  | cons payload rest ih =>
      intro pass state table stored
      cases hstatement : statement codec env payload pass with
      | error e => simp [insertEvents_cons, statements, hstatement]
      | ok json =>
          have hrow := insertRow_ok_iff table (passRow tenantId env pass state json)
          have hbatch : (∃ jsons, statements codec env (payload :: rest) pass = .ok jsons ∧
              Admits table (batchRows tenantId env pass state jsons)) ↔
                (∃ table', insertRow table (passRow tenantId env pass state json) = .ok table') ∧
                  ∃ later, statements codec env rest (pass + 1) = .ok later ∧
                    Admits (table ++ [passRow tenantId env pass state json])
                      (batchRows tenantId env (pass + 1) state.nextSequenceNumber.2 later) := by
            simp only [statements_cons hstatement, hrow]
            constructor
            · rintro ⟨-, ⟨later, hlater, rfl⟩, hadmits⟩
              rw [batchRows, admits_cons] at hadmits
              exact ⟨hadmits.1, later, hlater, hadmits.2⟩
            · rintro ⟨hadmitted, later, hlater, hadmits⟩
              refine ⟨json :: later, ⟨later, hlater, rfl⟩, ?_⟩
              rw [batchRows, admits_cons]
              exact ⟨hadmitted, hadmits⟩
          rw [hbatch]
          cases hinsert : insertRow table (passRow tenantId env pass state json) with
          | error e => simp [insertEvents_cons, hstatement, hinsert]
          | ok table' =>
              have htable := (insertRow_ok hinsert).2.2
              simp [insertEvents_cons, hstatement, hinsert, ih, htable]

theorem persist_ok_iff (state : AggregateState (LedgerState α)) (events : List (LedgerEvent α))
    (table : List (LedgerRow J)) :
    (∃ stored, (persist codec tenantId table state events env).2.2 = .ok stored) ↔
      env.beginError = none ∧ GoesThrough codec tenantId table state events env := by
  rw [persist_result_eq]
  cases hbegin : env.beginError with
  | some e => simp
  | none =>
      rw [GoesThrough, ← insertEvents_ok_iff events 0 state table []]
      cases (insertEvents codec tenantId env events 0 state table []).2 with
      | error e => simp
      | ok inserted => cases hcommit : env.commitError <;> simp

/-! ## What a call leaves behind -/

variable (codec tenantId env) in
/-- A loop that has begun leaves the counter at another number: each pass moves it on, and only a
pass that fails can wrap it around. -/
theorem insertEvents_counter :
    ∀ (events : List (LedgerEvent α)) (pass : Nat) (state : AggregateState (LedgerState α))
      (table : List (LedgerRow J)) (stored : List (StoreEvent (LedgerEvent α))), events ≠ [] →
      state.sequenceNumber <
          (insertEvents codec tenantId env events pass state table stored).1.sequenceNumber ∨
        (insertEvents codec tenantId env events pass state table stored).1.sequenceNumber =
            -2147483648 ∧ -2147483648 < state.sequenceNumber := by
  intro events
  induction events with
  | nil =>
      intro pass state table stored hne
      exact absurd rfl hne
  | cons payload rest ih =>
      intro pass state table stored _
      have hpass : state.sequenceNumber < state.nextSequenceNumber.2.sequenceNumber ∨
          state.nextSequenceNumber.2.sequenceNumber = -2147483648 ∧
            -2147483648 < state.sequenceNumber := by
        -- The counter moves up by one, or wraps around from the largest number.
        by_cases hmax : state.sequenceNumber = 2147483647
        · simp [AggregateState.nextSequenceNumber, AggregateState.increment, hmax]
        · simp [AggregateState.nextSequenceNumber, AggregateState.increment, hmax]
      cases hstatement : statement codec env payload pass with
      | error e => simpa [insertEvents_cons, hstatement] using hpass
      | ok json =>
          cases hinsert : insertRow table (passRow tenantId env pass state json) with
          | error e => simpa [insertEvents_cons, hstatement, hinsert] using hpass
          | ok table' =>
              rcases passRow_number hinsert with ⟨hrow, hnext⟩
              have hnonneg := (insertRow_ok hinsert).1
              simp only [insertEvents_cons, hstatement, hinsert]
              by_cases hrest : rest = []
              · subst hrest
                left
                simp only [insertEvents]
                omega
              · rcases ih (pass + 1) state.nextSequenceNumber.2 table'
                    (stored ++ [passEvent env pass state payload]) hrest with hlt | hwrap
                · left
                  omega
                · right
                  omega

variable (codec tenantId env) in
/-- The caller's state comes back as it was exactly if the loop never began. -/
theorem persist_state_iff (state : AggregateState (LedgerState α))
    (events : List (LedgerEvent α)) (table : List (LedgerRow J)) :
    (persist codec tenantId table state events env).2.1 = state ↔
      events = [] ∨ env.beginError.isSome := by
  cases hbegin : env.beginError with
  | some e => simp [persist, hbegin]
  | none =>
      rw [persist_state_eq hbegin]
      by_cases hempty : events = []
      · simp [hempty, insertEvents]
      · have hcounter := insertEvents_counter codec tenantId env events 0 state table [] hempty
        constructor
        · intro heq
          rw [heq] at hcounter
          omega
        · simp [hempty]

theorem persist_ne_conflict_of_no_loop {state : AggregateState (LedgerState α)}
    {events : List (LedgerEvent α)} {table : List (LedgerRow J)} {aggregateId : Uuid} {n : Int}
    (h : events = [] ∨ env.beginError.isSome) :
    (persist codec tenantId table state events env).2.2 ≠
      .error (.concurrencyConflict aggregateId n) := by
  rw [persist_result_eq]
  cases hbegin : env.beginError with
  | some e => simp
  | none =>
      have hempty : events = [] := by simpa [hbegin] using h
      cases hcommit : env.commitError <;> simp [hempty, insertEvents]

/-! ## Trying again -/

/-- After a conflict, the batch is not appended with the same state behind rows that the state has
never seen: whatever others append in between, a second call succeeds only if the state's number is
still the last of its stream. -/
def RetrySafe (codec : Codec (LedgerEvent α) J) (tenantId : TenantId) (table : List (LedgerRow J))
    (state : AggregateState (LedgerState α)) (events : List (LedgerEvent α))
    (env : PersistEnv) : Prop :=
  ∀ aggregateId n, (persist codec tenantId table state events env).2.2 =
      .error (.concurrencyConflict aggregateId n) →
    ∀ others env' stored,
      (persist codec tenantId (table ++ others)
        (persist codec tenantId table state events env).2.1 events env').2.2 = .ok stored →
      ∀ row ∈ table ++ others, row.aggregateId = state.id →
        row.sequenceNumber ≤ state.sequenceNumber

/-- A call that fails leaves table and state as they were, and a second call with that state is
safe, exactly if the batch is empty, the transaction does not open, or the call goes through. -/
theorem persist_atomic_iff (codec : Codec (LedgerEvent α) J) (tenantId : TenantId)
    (table : List (LedgerRow J)) (state : AggregateState (LedgerState α))
    (events : List (LedgerEvent α)) (env : PersistEnv) :
    ((∀ e, (persist codec tenantId table state events env).2.2 = .error e →
        (persist codec tenantId table state events env).1 = table ∧
          (persist codec tenantId table state events env).2.1 = state) ∧
      RetrySafe codec tenantId table state events env) ↔
      events = [] ∨ env.beginError.isSome ∨
        GoesThrough codec tenantId table state events env := by
  have hstate := persist_state_iff codec tenantId env state events table
  constructor
  · rintro ⟨hatomic, -⟩
    cases hresult : (persist codec tenantId table state events env).2.2 with
    | error e =>
        -- A failed call that left the state alone never began its loop.
        rcases hstate.1 (hatomic e hresult).2 with hempty | hbegin
        · exact Or.inl hempty
        · exact Or.inr (Or.inl hbegin)
    | ok stored =>
        exact Or.inr (Or.inr ((persist_ok_iff state events table).1 ⟨stored, hresult⟩).2)
  · intro hcond
    have hok : ∀ e, (persist codec tenantId table state events env).2.2 = .error e →
        events = [] ∨ env.beginError.isSome := by
      intro e he
      rcases hcond with hempty | hbegin | hgoes
      · exact Or.inl hempty
      · exact Or.inr hbegin
      · by_cases hbegin : env.beginError = none
        · rcases (persist_ok_iff state events table).2 ⟨hbegin, hgoes⟩ with ⟨stored, hstored⟩
          simp [hstored] at he
        · exact Or.inr (Option.isSome_iff_ne_none.2 hbegin)
    refine ⟨fun e he => ⟨persist_error_table he, hstate.2 (hok e he)⟩, ?_⟩
    -- A call whose loop never began does not conflict.
    intro aggregateId n hconflict
    exact absurd hconflict (persist_ne_conflict_of_no_loop (hok _ hconflict))

end Retry

/-! ## An entry reversed twice -/

def fiveDollars : LedgerEvent ℚ :=
  .journalEntryPosted ⟨1⟩
    [⟨⟨10⟩, some { amount := 5, currency := .usd }, none, []⟩,
      ⟨⟨11⟩, none, some { amount := 5, currency := .usd }, []⟩]
    (Dimensions.new ⟨1⟩ ⟨2⟩ ⟨3⟩ ⟨4⟩ .opEx) ⟨0⟩

/-- The stream of one posted entry. -/
def postedTable : List (LedgerRow (LedgerEvent ℚ)) :=
  [eventRow ⟨1⟩ 7 ⟨0⟩ 100 1 fiveDollars]

/-- The state that both writers read. -/
def postedState : AggregateState (LedgerState ℚ) where
  id := 7
  sequenceNumber := 1
  inner := (applyEvent LedgerState.default fiveDollars).run

/-- The answer of `handle_command` on that state to a reversal. -/
def reversal (reversalId : EntryId) : List (LedgerEvent ℚ) :=
  [.entryReversed ⟨1⟩ reversalId "posted twice"]

/-- One reversal is stored. -/
def reversedTable : List (LedgerRow (LedgerEvent ℚ)) :=
  (persist Codec.plain ⟨1⟩ postedTable postedState (reversal ⟨2⟩) (.ok ⟨0⟩ fun _ => 101)).1

/-- The other writer persists its own reversal, of the state it has read, twice with that state. -/
def lostRace := persist Codec.plain ⟨1⟩ reversedTable postedState (reversal ⟨3⟩) (.ok ⟨0⟩ fun _ => 102)

def secondTry := persist Codec.plain ⟨1⟩ lostRace.1 lostRace.2.1 (reversal ⟨3⟩) (.ok ⟨0⟩ fun _ => 103)

theorem persist_reversedTwice :
    (load Codec.plain ⟨1⟩ postedTable 7 ReadEnv.ok).run = .ok postedState ∧
      (handleCommand postedState.inner (.reverseEntry ⟨1⟩ "posted twice") ⟨3⟩ ⟨0⟩).run =
        .ok (reversal ⟨3⟩) ∧
      lostRace.2.2 = .error (.concurrencyConflict 7 2) ∧
      lostRace.2.1.sequenceNumber = 2 ∧ postedState.sequenceNumber = 1 ∧
      secondTry.2.2.isOk = true ∧
      secondTry.1.map LedgerRow.payload =
        [fiveDollars, .entryReversed ⟨1⟩ ⟨2⟩ "posted twice",
          .entryReversed ⟨1⟩ ⟨3⟩ "posted twice"] := by
  refine ⟨?_, ?_, ?_, ?_, ?_, ?_, ?_⟩ <;> decide +kernel

end Falkr
