import Falkr.Events.Serialized
import Falkr.Infra.LedgerIsolation
import Falkr.Infra.LedgerRetry
import Falkr.Infra.LedgerStream

/-!
# LedgerReplay — a stream loaded is the stream that was committed

A load folds the rows of a stream in the order of their numbers; the batches came in the order of
their commits.  The two are the same order as long as no call goes through with a state whose number
a row of the stream is past already (`InOrder`), and then, since an event is read back as it was
written, a load returns the fold of the events in memory (`load_eq_replay`).

Callers that persist with the state of a load, or a new one, are in order (`throughout_inOrder_of_reached`).
A caller that persists once more with the state that a failed call has left behind is not: its batch
leaves a gap, and a later batch falls into it.
-/

namespace Falkr

open Lib

/-- The JSONB column of `ledger_events`. -/
def eventCodec (leaves : Leaves) : Codec (LedgerEvent Decimal) Json where
  toValue := fun event => .ok (event.toValue leaves)
  fromValue := LedgerEvent.fromValue leaves

/-- What was written is read back. -/
def Codec.Lawful {ε J : Type} (codec : Codec ε J) : Prop :=
  ∀ event json, codec.toValue event = .ok json → codec.fromValue json = .ok event

theorem eventCodec_lawful {leaves : Leaves} (h : leaves.Lawful) : (eventCodec leaves).Lawful := by
  intro event json hjson
  cases hjson
  exact LedgerEvent.serde_lawful h event

/-! ## Histories -/

section Histories

variable (m : Type → Type) [Monad m] {α : Type} [Amount m α] {J : Type}
  (codec : Codec (LedgerEvent α) J)

/-- The rows of one stream, in the order in which they were inserted. -/
def stream (tenantId : TenantId) (aggregateId : Uuid) (table : List (LedgerRow J)) :
    List (LedgerRow J) :=
  table.filter fun row => row.tenantId = tenantId ∧ row.aggregateId = aggregateId

/-- The table after a history of calls. -/
def afterCalls : List (LedgerRow J) → List (StoreCall α) → List (LedgerRow J)
  | table, [] => table
  | table, call :: calls => afterCalls (perform (m := m) codec table call).1 calls

/-- The events that a call commits to a stream. -/
def committed (tenantId : TenantId) (aggregateId : Uuid) (table : List (LedgerRow J)) :
    StoreCall α → List (LedgerEvent α)
  | .load _ _ _ => []
  | .persist caller state events env =>
      match (persist codec caller table state events env).2.2 with
      | .error _ => []
      | .ok _ => if caller = tenantId ∧ state.id = aggregateId then events else []

/-- The events of a stream, batch by batch as they were committed. -/
def commitOrder (tenantId : TenantId) (aggregateId : Uuid) :
    List (LedgerRow J) → List (StoreCall α) → List (LedgerEvent α)
  | _, [] => []
  | table, call :: calls =>
      committed codec tenantId aggregateId table call ++
        commitOrder tenantId aggregateId (perform (m := m) codec table call).1 calls

/-- A call that goes through does so with a state whose number no row of the stream is past. -/
def InOrder (table : List (LedgerRow J)) : StoreCall α → Prop
  | .load _ _ _ => True
  | .persist caller state events env =>
      events ≠ [] → env.beginError = none → GoesThrough codec caller table state events env →
        ∀ row ∈ stream caller state.id table, row.sequenceNumber ≤ state.sequenceNumber

/-- The state of a call has a number that its stream has come to. -/
def Reached (table : List (LedgerRow J)) : StoreCall α → Prop
  | .load _ _ _ => True
  | .persist caller state _ _ =>
      0 ≤ state.sequenceNumber ∧
        state.sequenceNumber ≤ (stream caller state.id table).length

instance (table : List (LedgerRow J)) : ∀ call : StoreCall α, Decidable (Reached table call)
  | .load _ _ _ => inferInstanceAs (Decidable True)
  | .persist _ _ _ _ => inferInstanceAs (Decidable (_ ∧ _))

/-- Every call of a history meets a condition on it and on the table that it finds. -/
def Throughout (P : List (LedgerRow J) → StoreCall α → Prop) :
    List (LedgerRow J) → List (StoreCall α) → Prop
  | _, [] => True
  | table, call :: calls =>
      P table call ∧ Throughout P (perform (m := m) codec table call).1 calls

instance decidableThroughout (P : List (LedgerRow J) → StoreCall α → Prop)
    [∀ table call, Decidable (P table call)] :
    ∀ table calls, Decidable (Throughout m codec P table calls)
  | _, [] => inferInstanceAs (Decidable True)
  | table, call :: calls =>
      have := decidableThroughout P (perform (m := m) codec table call).1 calls
      inferInstanceAs (Decidable (_ ∧ _))

end Histories

/-! ## What a call writes -/

section Calls

variable {α J : Type} {codec : Codec (LedgerEvent α) J}

theorem aggregateId_of_insertable {tenantId : TenantId} {env : PersistEnv}
    (events : List (LedgerEvent α)) (pass : Nat) (state : AggregateState (LedgerState α))
    (table : List (LedgerRow J)) :
    ∀ row ∈ insertable codec tenantId env events pass state table,
      row.aggregateId = state.id := by
  fun_induction insertable codec tenantId env events pass state table with
  | case1 | case2 | case3 => simp
  | case4 payload rest pass state table json hstatement table' hinsert ih =>
      exact List.forall_mem_cons.2 ⟨rfl, ih⟩

/-- A row decodes to an event. -/
def Decodes (codec : Codec (LedgerEvent α) J) (row : LedgerRow J) (event : LedgerEvent α) : Prop :=
  codec.fromValue row.payload = .ok event

theorem decodes_of_statement (hcodec : codec.Lawful) {env : PersistEnv} {payload : LedgerEvent α}
    {pass : Nat} {json : J} (h : statement codec env payload pass = .ok json) :
    codec.fromValue json = .ok payload := by
  apply hcodec
  cases hjson : codec.toValue payload with
  | error e => simp [statement, hjson] at h
  | ok json' =>
      cases herror : env.insertError pass with
      | some e => simp [statement, hjson, herror] at h
      | none => simpa [statement, hjson, herror] using h

/-- The rows of a loop that ends decode to its events. -/
theorem decodes_insertable (hcodec : codec.Lawful) {tenantId : TenantId} {env : PersistEnv}
    (events : List (LedgerEvent α)) (pass : Nat) (state : AggregateState (LedgerState α))
    (table : List (LedgerRow J)) (stored : List (StoreEvent (LedgerEvent α)))
    {result : List (LedgerRow J) × List (StoreEvent (LedgerEvent α))}
    (h : (insertEvents codec tenantId env events pass state table stored).2 = .ok result) :
    List.Forall₂ (Decodes codec) (insertable codec tenantId env events pass state table) events := by
  fun_induction insertable codec tenantId env events pass state table generalizing stored with
  | case1 pass state table => exact List.Forall₂.nil
  | case2 payload rest pass state table e hstatement =>
      simp [insertEvents_cons, hstatement] at h
  | case3 payload rest pass state table json hstatement e hinsert =>
      simp [insertEvents_cons, hstatement, hinsert] at h
  | case4 payload rest pass state table json hstatement table' hinsert ih =>
      refine List.Forall₂.cons (decodes_of_statement hcodec hstatement) ?_
      exact ih _ (by simpa [insertEvents_cons, hstatement, hinsert] using h)

/-- The rows of a stream hold its events in the order of their numbers. -/
structure Written (codec : Codec (LedgerEvent α) J) (rows : List (LedgerRow J))
    (events : List (LedgerEvent α)) : Prop where
  decodes : List.Forall₂ (Decodes codec) rows events
  increasing : rows.Pairwise fun row later => row.sequenceNumber < later.sequenceNumber

theorem stream_append (tenantId : TenantId) (aggregateId : Uuid)
    (table rows : List (LedgerRow J)) :
    stream tenantId aggregateId (table ++ rows) =
      stream tenantId aggregateId table ++ stream tenantId aggregateId rows :=
  List.filter_append _ _

/-- The rows of a loop belong to one stream. -/
theorem stream_insertable (tenantId : TenantId) (aggregateId : Uuid) (caller : TenantId)
    (env : PersistEnv) (events : List (LedgerEvent α)) (pass : Nat)
    (state : AggregateState (LedgerState α)) (table : List (LedgerRow J)) :
    stream tenantId aggregateId (insertable codec caller env events pass state table) =
      if caller = tenantId ∧ state.id = aggregateId then
        insertable codec caller env events pass state table
      else [] := by
  have htenant : ∀ row ∈ insertable codec caller env events pass state table,
      row.tenantId = caller := tenantId_of_insertable _ _ _ _
  have haggregate : ∀ row ∈ insertable codec caller env events pass state table,
      row.aggregateId = state.id := aggregateId_of_insertable _ _ _ _
  split_ifs with hstream
  · apply List.filter_eq_self.2
    intro row hmem
    simpa using ⟨(htenant row hmem).trans hstream.1, (haggregate row hmem).trans hstream.2⟩
  · apply List.filter_eq_nil_iff.2
    intro row hmem hrow
    have hids : row.tenantId = tenantId ∧ row.aggregateId = aggregateId := by simpa using hrow
    exact hstream ⟨(htenant row hmem).symm.trans hids.1, (haggregate row hmem).symm.trans hids.2⟩

/-- A batch that is not behind the rows of its stream goes to their end. -/
theorem Written.append {rows rows' : List (LedgerRow J)} {events events' : List (LedgerEvent α)}
    (h : Written codec rows events) (h' : Written codec rows' events')
    (hlater : ∀ row ∈ rows, ∀ row' ∈ rows', row.sequenceNumber < row'.sequenceNumber) :
    Written codec (rows ++ rows') (events ++ events') where
  decodes := List.rel_append h.decodes h'.decodes
  increasing := List.pairwise_append.2 ⟨h.increasing, h'.increasing, hlater⟩

variable {m : Type → Type} [Monad m] [Amount m α]

/-- A call in order carries its batch to the end of its stream. -/
theorem Written.perform (hcodec : codec.Lawful) {tenantId : TenantId} {aggregateId : Uuid}
    {table : List (LedgerRow J)} {events : List (LedgerEvent α)}
    (h : Written codec (stream tenantId aggregateId table) events) {call : StoreCall α}
    (horder : InOrder codec table call) :
    Written codec (stream tenantId aggregateId (Falkr.perform (m := m) codec table call).1)
      (events ++ committed codec tenantId aggregateId table call) := by
  cases call with
  | load caller id env => simpa [Falkr.perform, committed] using h
  | persist caller state batch env =>
      show Written codec (stream tenantId aggregateId
        (persist codec caller table state batch env).1) _
      cases hresult : (persist codec caller table state batch env).2.2 with
      | error e => simpa [committed, hresult, persist_error_table hresult] using h
      | ok stored =>
          rcases persist_ok_table hresult with ⟨htable, result, hloop⟩
          rw [htable, stream_append, stream_insertable]
          simp only [committed, hresult]
          split_ifs with hstream
          · rcases hstream with ⟨rfl, rfl⟩
            have hbatch : Written codec (insertable codec caller env batch 0 state table) batch :=
              ⟨decodes_insertable hcodec batch 0 state table [] hloop, pairwise_insertable _ _ _ _⟩
            refine h.append hbatch ?_
            intro row hrow row' hrow'
            have hne : batch ≠ [] := by
              rintro rfl
              cases hrow'
            rcases (persist_ok_iff state batch table).1 ⟨stored, hresult⟩ with ⟨hbegin, hgoes⟩
            have hle := horder hne hbegin hgoes row hrow
            have hlt := lt_sequenceNumber_of_insertable _ _ _ _ row' hrow'
            omega
          · simpa using h

/-- After a history in order, a stream holds what was committed to it. -/
theorem Written.afterCalls (hcodec : codec.Lawful) {tenantId : TenantId} {aggregateId : Uuid} :
    ∀ (calls : List (StoreCall α)) {table : List (LedgerRow J)} {events : List (LedgerEvent α)},
      Written codec (stream tenantId aggregateId table) events →
      Throughout m codec (InOrder codec) table calls →
      Written codec (stream tenantId aggregateId (Falkr.afterCalls m codec table calls))
        (events ++ commitOrder m codec tenantId aggregateId table calls) := by
  intro calls
  induction calls with
  | nil =>
      intro table events h _
      simpa [Falkr.afterCalls, commitOrder] using h
  | cons call calls ih =>
      intro table events h horder
      have hrest := ih (h.perform (m := m) hcodec horder.1) horder.2
      simpa [Falkr.afterCalls, commitOrder, List.append_assoc] using hrest

end Calls

/-! ## Dense numbers -/

section Dense

variable {α J : Type} {codec : Codec (LedgerEvent α) J}

theorem sequenceNumber_le_of_numbered {tenantId : TenantId} {aggregateId : Uuid}
    {rows : List (LedgerRow J)} :
    ∀ {k : Nat}, Numbered tenantId aggregateId k rows →
      ∀ row ∈ rows, row.sequenceNumber ≤ (k + rows.length : Nat) := by
  induction rows with
  | nil =>
      intro k _ row hmem
      cases hmem
  | cons first rest ih =>
      intro k h row hmem
      rcases h with ⟨-, -, hseq, hrest⟩
      simp only [List.length_cons]
      rcases List.mem_cons.1 hmem with rfl | hmem
      · omega
      · have hle := ih hrest row hmem
        omega

/-- The rows of a loop carry on the numbers of its state. -/
theorem numbered_insertable {tenantId : TenantId} {env : PersistEnv}
    (events : List (LedgerEvent α)) (pass : Nat) (state : AggregateState (LedgerState α))
    (table : List (LedgerRow J)) :
    ∀ k : Nat, state.sequenceNumber = k →
      Numbered tenantId state.id k
        (insertable codec tenantId env events pass state table) := by
  fun_induction insertable codec tenantId env events pass state table with
  | case1 | case2 | case3 => exact fun _ _ => trivial
  | case4 payload rest pass state table json hstatement table' hinsert ih =>
      intro k hk
      rcases passRow_number hinsert with ⟨hrow, hnext⟩
      exact ⟨rfl, rfl, by omega, ih (k + 1) (by omega)⟩

/-- A call that goes through has a number that its stream has come to only if that is the last. -/
theorem sequenceNumber_of_goesThrough {tenantId : TenantId} {env : PersistEnv}
    {state : AggregateState (LedgerState α)} {events : List (LedgerEvent α)}
    {table : List (LedgerRow J)}
    (hnum : Numbered tenantId state.id 0 (stream tenantId state.id table))
    (hreached : Reached table (.persist tenantId state events env)) (hne : events ≠ [])
    (hgoes : GoesThrough codec tenantId table state events env) :
    state.sequenceNumber = (stream tenantId state.id table).length := by
  rcases hreached with ⟨hnonneg, hle⟩
  rcases hgoes with ⟨-, jsons, hjsons, hadmits⟩
  by_contra hbehind
  cases events with
  | nil => exact hne rfl
  | cons payload rest =>
      cases hstatement : statement codec env payload 0 with
      | error e => simp [statements, hstatement] at hjsons
      | ok json =>
          rcases (statements_cons hstatement jsons).1 hjsons with ⟨later, -, rfl⟩
          rcases hadmits.1 _ List.mem_cons_self with ⟨hsign, hfree⟩
          have hnext : AggregateState.increment state.sequenceNumber = state.sequenceNumber + 1 :=
            AggregateState.increment_of_nonneg hsign
          -- The next number is taken by a row of the stream.
          rcases exists_row_of_numbered (n := state.sequenceNumber.toNat + 1) hnum (by omega)
            (by omega) with ⟨row, hrow, haggregate, hnumber⟩
          refine hfree row (List.mem_of_mem_filter hrow) (Or.inr ⟨haggregate.symm, ?_⟩)
          show AggregateState.increment state.sequenceNumber = row.sequenceNumber
          omega

/-- Over densely numbered streams, a call whose number its stream has come to is in order. -/
theorem inOrder_of_reached {table : List (LedgerRow J)}
    (hnum : ∀ tenantId aggregateId, Numbered tenantId aggregateId 0
      (stream tenantId aggregateId table)) {call : StoreCall α} (hreached : Reached table call) :
    InOrder codec table call := by
  cases call with
  | load caller id env => trivial
  | persist caller state events env =>
      intro hne _ hgoes row hrow
      have hlast := sequenceNumber_of_goesThrough (hnum _ _) hreached hne hgoes
      have hle := sequenceNumber_le_of_numbered (hnum _ _) row hrow
      omega

variable {m : Type → Type} [Monad m] [Amount m α]

/-- Such a call numbers its rows on from the last one. -/
theorem numbered_perform {table : List (LedgerRow J)}
    (hnum : ∀ tenantId aggregateId, Numbered tenantId aggregateId 0
      (stream tenantId aggregateId table)) {call : StoreCall α} (hreached : Reached table call)
    (tenantId : TenantId) (aggregateId : Uuid) :
    Numbered tenantId aggregateId 0
      (stream tenantId aggregateId (perform (m := m) codec table call).1) := by
  cases call with
  | load caller id env => exact hnum _ _
  | persist caller state events env =>
      show Numbered tenantId aggregateId 0 (stream tenantId aggregateId
        (persist codec caller table state events env).1)
      cases hresult : (persist codec caller table state events env).2.2 with
      | error e =>
          rw [persist_error_table hresult]
          exact hnum _ _
      | ok stored =>
          rw [(persist_ok_table hresult).1, stream_append, stream_insertable]
          split_ifs with hstream
          · rcases hstream with ⟨rfl, rfl⟩
            refine (numbered_append _ _ _).2 ⟨hnum _ _, ?_⟩
            -- The rows of a call, if there are any, follow the last number of its stream.
            rcases events with _ | ⟨payload, rest⟩
            · trivial
            · have hgoes := ((persist_ok_iff state _ table).1 ⟨stored, hresult⟩).2
              have hlast := sequenceNumber_of_goesThrough (hnum _ _) hreached (by simp) hgoes
              exact numbered_insertable _ _ _ _ _ (by omega)
          · simpa using hnum tenantId aggregateId

variable (m codec) in
/-- Whoever persists with the state of a load, of any time, or with a new state, is in order. -/
theorem throughout_inOrder_of_reached :
    ∀ (calls : List (StoreCall α)) {table : List (LedgerRow J)},
      (∀ tenantId aggregateId, Numbered tenantId aggregateId 0
        (stream tenantId aggregateId table)) →
      Throughout m codec Reached table calls →
      Throughout m codec (InOrder codec) table calls := by
  intro calls
  induction calls with
  | nil => exact fun _ _ => trivial
  | cons call calls ih =>
      intro table hnum hreached
      exact ⟨inOrder_of_reached hnum hreached.1, ih (numbered_perform hnum hreached.1) hreached.2⟩

end Dense

/-! ## Loading -/

section Loading

variable {m : Type → Type} [Monad m]

variable {α J : Type} {codec : Codec (LedgerEvent α) J}

theorem mapM_decodeRow {rows : List (LedgerRow J)} {events : List (LedgerEvent α)}
    (h : List.Forall₂ (Decodes codec) rows events) :
    ∃ stored, rows.mapM (decodeRow codec) = .ok stored ∧
      stored.map StoreEvent.payload = events ∧
      stored.map StoreEvent.sequenceNumber = rows.map LedgerRow.sequenceNumber := by
  induction h with
  | nil => exact ⟨[], rfl, rfl, rfl⟩
  | @cons row event rows events hrow hrest ih =>
      rcases ih with ⟨stored, hstored, hpayloads, hnumbers⟩
      have hfirst : ∃ first, decodeRow codec row = .ok first ∧ first.payload = event ∧
          first.sequenceNumber = row.sequenceNumber := by
        have hvalue : codec.fromValue row.payload = .ok event := hrow
        simp [decodeRow, hvalue]
      rcases hfirst with ⟨first, hdecode, hpayload, hnumber⟩
      have hall : (row :: rows).mapM (decodeRow codec) = .ok (first :: stored) := by
        rw [List.mapM_cons, hdecode, hstored]
        rfl
      exact ⟨_, hall, by simp [hpayload, hpayloads], by simp [hnumber, hnumbers]⟩

variable [Amount m α]

variable (codec) in
/-- A load fails on a statement, or is one on which none does. -/
theorem load_cases (tenantId : TenantId) (table : List (LedgerRow J)) (aggregateId : Uuid)
    (env : ReadEnv) :
    (∃ e, (load codec tenantId table aggregateId env :
        m (Except LedgerStoreError (AggregateState (LedgerState α)))) =
          pure (.error (.backend e))) ∨
      (load codec tenantId table aggregateId env :
        m (Except LedgerStoreError (AggregateState (LedgerState α)))) =
          load codec tenantId table aggregateId ReadEnv.ok := by
  rcases env with ⟨beginError, selectError, commitError⟩
  cases beginError with
  | some e => exact Or.inl ⟨e, rfl⟩
  | none =>
      cases selectError with
      | some e => exact Or.inl ⟨e, rfl⟩
      | none =>
          cases commitError with
          | some e => exact Or.inl ⟨e, rfl⟩
          | none => exact Or.inr rfl

/-- The state at the end of a stream: its events folded, at the number of its last row. -/
def streamState (aggregateId : Uuid) (rows : List (LedgerRow J)) (inner : LedgerState α) :
    AggregateState (LedgerState α) where
  id := aggregateId
  sequenceNumber := (rows.map LedgerRow.sequenceNumber).getLastD 0
  inner := inner

/-- Loading a stream folds the events that it holds. -/
theorem load_of_written [LawfulMonad m] {tenantId : TenantId} {aggregateId : Uuid}
    {table : List (LedgerRow J)} {events : List (LedgerEvent α)}
    (h : Written codec (stream tenantId aggregateId table) events) :
    (load codec tenantId table aggregateId ReadEnv.ok :
        m (Except LedgerStoreError (AggregateState (LedgerState α)))) = (do
      let inner ← replay LedgerState.default events
      pure (.ok (streamState aggregateId (stream tenantId aggregateId table) inner))) := by
  have hselect : selectStream tenantId aggregateId table = stream tenantId aggregateId table :=
    (h.increasing.imp fun hlt => le_of_lt hlt).insertionSort_eq
  rcases mapM_decodeRow h.decodes with ⟨stored, hstored, hpayloads, hnumbers⟩
  have hread : byAggregateId codec tenantId table aggregateId ReadEnv.ok = .ok stored := by
    simp [byAggregateId, ReadEnv.ok, hselect, hstored]
  simp only [load, hread, applyStoreEvents_eq, hpayloads, hnumbers, bind_assoc, pure_bind]
  rfl

end Loading

/-- Every event is read back as it was, and after every history in order a load returns the fold of
the events as they were committed. -/
theorem load_eq_replay {leaves : Leaves} (h : leaves.Lawful) :
    (∀ event, LedgerEvent.fromValue leaves (event.toValue leaves) = .ok event) ∧
      ∀ calls, Throughout Option (eventCodec leaves) (InOrder (eventCodec leaves)) [] calls →
        ∀ tenantId aggregateId env,
          (∃ e, load (eventCodec leaves) tenantId (afterCalls Option (eventCodec leaves) [] calls)
              aggregateId env = some (.error (.backend e))) ∨
            load (eventCodec leaves) tenantId (afterCalls Option (eventCodec leaves) [] calls)
                aggregateId env =
              (replay LedgerState.default
                (commitOrder Option (eventCodec leaves) tenantId aggregateId [] calls)).map
                  fun inner => .ok (streamState aggregateId (stream tenantId aggregateId
                    (afterCalls Option (eventCodec leaves) [] calls)) inner) := by
  refine ⟨LedgerEvent.serde_lawful h, ?_⟩
  intro calls horder tenantId aggregateId env
  have hempty : Written (eventCodec leaves) (stream tenantId aggregateId []) [] :=
    ⟨List.Forall₂.nil, List.Pairwise.nil⟩
  have hwritten := hempty.afterCalls (eventCodec_lawful h) calls horder
  rcases load_cases (m := Option) (eventCodec leaves) tenantId
    (afterCalls Option (eventCodec leaves) [] calls) aggregateId env with herror | hok
  · exact Or.inl herror
  · right
    rw [hok, load_of_written hwritten, List.nil_append, Option.map_eq_bind]
    rfl

/-! ## Two writers -/

/-- A decision on how one run is treated. -/
def treated (status : CapitalizationStatus) : LedgerEvent Decimal :=
  .capitalizationStatusChanged ⟨1⟩ .pendingReview status ⟨2⟩

/-- Five cents for a run, to the nanosecond. -/
def fiveCents : LedgerEvent Decimal :=
  let amount : Money Decimal := { amount := ⟨50, 3, by decide, by decide⟩, currency := .eur }
  .journalEntryPosted ⟨1⟩
    [⟨⟨10⟩, some amount, none, []⟩, ⟨⟨11⟩, none, some amount, [⟨12⟩, ⟨13⟩]⟩]
    ((Dimensions.new ⟨1⟩ ⟨2⟩ ⟨3⟩ ⟨4⟩ .opEx).withRun ⟨1⟩) ⟨1785542400000000001⟩

/-- A stream that nothing has been stored in. -/
def newState : AggregateState (LedgerState Decimal) :=
  .withId 7 .default

/-- One writer posts an entry; another, which has not loaded it, loses and loads again. -/
def reloadCalls : List (StoreCall Decimal) :=
  [.persist ⟨1⟩ newState [fiveCents] (.ok ⟨0⟩ fun _ => 100),
    .persist ⟨1⟩ newState [treated .expensed] (.ok ⟨0⟩ fun _ => 101),
    .persist ⟨1⟩ { newState with sequenceNumber := 1 } [treated .expensed] (.ok ⟨0⟩ fun _ => 102)]

theorem load_reloadCalls :
    commitOrder Option (eventCodec Leaves.exact) ⟨1⟩ 7 [] reloadCalls =
        [fiveCents, treated .expensed] ∧
      load (eventCodec Leaves.exact) ⟨1⟩
          (afterCalls Option (eventCodec Leaves.exact) [] reloadCalls) 7 .ok =
        (replay LedgerState.default
          (commitOrder Option (eventCodec Leaves.exact) ⟨1⟩ 7 [] reloadCalls)).map fun inner =>
            .ok (streamState 7 (stream ⟨1⟩ 7
              (afterCalls Option (eventCodec Leaves.exact) [] reloadCalls)) inner) := by
  refine ⟨by decide +kernel, ?_⟩
  have hreached : Throughout Option (eventCodec Leaves.exact) Reached [] reloadCalls := by
    decide +kernel
  have hempty : ∀ tenantId aggregateId, Numbered tenantId aggregateId 0
      (stream tenantId aggregateId ([] : List (LedgerRow Json))) := fun _ _ => trivial
  have horder := throughout_inOrder_of_reached (eventCodec Leaves.exact) Option reloadCalls hempty
    hreached
  rcases (load_eq_replay Leaves.exact_lawful).2 reloadCalls horder ⟨1⟩ 7 .ok with ⟨e, herror⟩ | hfold
  · have hok : (load (eventCodec Leaves.exact) ⟨1⟩
        (afterCalls Option (eventCodec Leaves.exact) [] reloadCalls) 7 .ok).map Except.isOk =
          some true := by decide +kernel
    rw [herror] at hok
    cases hok
  · exact hfold

/-! ## A gap that is filled -/

def decision (state : AggregateState (LedgerState Decimal)) (status : CapitalizationStatus)
    (env : PersistEnv) : StoreCall Decimal :=
  .persist ⟨1⟩ state [treated status] env

/-- The first insert does not come back in time. -/
def timedOut : PersistEnv :=
  { PersistEnv.ok ⟨0⟩ (fun _ => 100) with insertError := fun _ => some "statement timeout" }

/-- The state that the first call leaves behind. -/
def leftBehind : AggregateState (LedgerState Decimal) :=
  (persist (eventCodec Leaves.exact) ⟨1⟩ [] newState [treated .capitalized] timedOut).2.1

/-- A call fails and is made again with the state that it has left behind; then another writer
persists its own decision on the new stream. -/
def gapCalls : List (StoreCall Decimal) :=
  [decision newState .capitalized timedOut,
    decision leftBehind .capitalized (.ok ⟨0⟩ fun _ => 101),
    decision newState .expensed (.ok ⟨0⟩ fun _ => 102)]

/-- The treatment of the run in a loaded state. -/
def loadedStatus (leaves : Leaves) (calls : List (StoreCall Decimal)) :
    Option (Except LedgerStoreError (Option CapitalizationStatus)) :=
  (load (eventCodec leaves) ⟨1⟩ (afterCalls Option (eventCodec leaves) [] calls) 7 .ok).map
    fun loaded => loaded.map fun state => state.inner.capitalizationStatus ⟨1⟩

/-- The treatment of the run by the events as they were committed. -/
def committedStatus (leaves : Leaves) (calls : List (StoreCall Decimal)) :
    Option (Except LedgerStoreError (Option CapitalizationStatus)) :=
  (replay LedgerState.default (commitOrder Option (eventCodec leaves) ⟨1⟩ 7 [] calls)).map
    fun inner => .ok (inner.capitalizationStatus ⟨1⟩)

theorem loaded_ne_committed_gapCalls :
    commitOrder Option (eventCodec Leaves.exact) ⟨1⟩ 7 [] gapCalls =
        [treated .capitalized, treated .expensed] ∧
      committedStatus Leaves.exact gapCalls = some (.ok (some .expensed)) ∧
      loadedStatus Leaves.exact gapCalls = some (.ok (some .capitalized)) := by
  refine ⟨?_, ?_, ?_⟩ <;> decide +kernel

end Falkr
