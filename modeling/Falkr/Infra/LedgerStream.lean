import Falkr.Infra.LedgerStore
import Falkr.Lib.Returning

/-!
# LedgerStream — reading back a densely numbered stream

A stream is `Numbered` when its rows carry consecutive sequence numbers.  Reading a table that holds
just such a stream returns its rows in order, and the state replayed from it stands at the number of
its last row (`sequenceNumber_of_load`).
-/

namespace Falkr

open Lib

variable {J : Type}

/-- The rows of one stream, numbered one by one after the `k`-th. -/
def Numbered (tenantId : TenantId) (aggregateId : Uuid) : Nat → List (LedgerRow J) → Prop
  | _, [] => True
  | k, row :: rest =>
      row.tenantId = tenantId ∧ row.aggregateId = aggregateId ∧
        row.sequenceNumber = (k + 1 : Nat) ∧ Numbered tenantId aggregateId (k + 1) rest

section Stream

variable {tenantId : TenantId} {aggregateId : Uuid}

theorem numbered_append (rows rows' : List (LedgerRow J)) :
    ∀ k : Nat, Numbered tenantId aggregateId k (rows ++ rows') ↔
      Numbered tenantId aggregateId k rows ∧
        Numbered tenantId aggregateId (k + rows.length) rows' := by
  induction rows with
  | nil =>
      intro k
      simp [Numbered]
  | cons row rest ih =>
      intro k
      have hlen : k + 1 + rest.length = k + (row :: rest).length := by
        simp only [List.length_cons]
        omega
      simp only [List.cons_append, Numbered, ih, hlen, and_assoc]

theorem numbered_take {rows : List (LedgerRow J)} {k : Nat}
    (h : Numbered tenantId aggregateId k rows) (n : Nat) :
    Numbered tenantId aggregateId k (rows.take n) := by
  rw [← List.take_append_drop n rows] at h
  exact ((numbered_append _ _ k).1 h).1

/-- The row that carries a number of the stream. -/
theorem exists_row_of_numbered {rows : List (LedgerRow J)} :
    ∀ {k n : Nat}, Numbered tenantId aggregateId k rows → k < n → n ≤ k + rows.length →
      ∃ row ∈ rows, row.aggregateId = aggregateId ∧ row.sequenceNumber = (n : Nat) := by
  induction rows with
  | nil =>
      intro k n _ hlt hle
      simp only [List.length_nil] at hle
      omega
  | cons row rest ih =>
      intro k n h hlt hle
      rcases h with ⟨-, hagg, hseq, hrest⟩
      -- The first row carries `k + 1`, the rest what comes after it.
      by_cases heq : n = k + 1
      · exact ⟨row, by simp, hagg, heq ▸ hseq⟩
      · have hlt' : k + 1 < n := by omega
        have hle' : n ≤ k + 1 + rest.length := by
          simp only [List.length_cons] at hle
          omega
        rcases ih hrest hlt' hle' with ⟨row', hmem, hrow'⟩
        exact ⟨row', List.mem_cons_of_mem _ hmem, hrow'⟩

theorem lt_sequenceNumber_of_numbered {rows : List (LedgerRow J)} :
    ∀ {k : Nat}, Numbered tenantId aggregateId k rows →
      ∀ row ∈ rows, (k : Int) < row.sequenceNumber := by
  induction rows with
  | nil =>
      intro k _ row hmem
      simp at hmem
  | cons first rest ih =>
      intro k h row hmem
      rcases h with ⟨-, -, hseq, hrest⟩
      rcases List.mem_cons.1 hmem with rfl | hmem
      · omega
      · have hlt := ih hrest row hmem
        omega

/-- A numbered stream is in the order in which it is read. -/
theorem selectStream_of_numbered {rows : List (LedgerRow J)} {k : Nat}
    (h : Numbered tenantId aggregateId k rows) :
    selectStream tenantId aggregateId rows = rows := by
  have hall : ∀ row ∈ rows, row.tenantId = tenantId ∧ row.aggregateId = aggregateId := by
    induction rows generalizing k with
    | nil => simp
    | cons row rest ih => exact List.forall_mem_cons.2 ⟨⟨h.1, h.2.1⟩, ih h.2.2.2⟩
  -- The rows are sorted already, so the stable sort leaves them as they are.
  have hsorted : rows.Pairwise fun a b => a.sequenceNumber ≤ b.sequenceNumber := by
    clear hall
    induction rows generalizing k with
    | nil => exact List.Pairwise.nil
    | cons row rest ih =>
        refine List.pairwise_cons.2 ⟨?_, ih h.2.2.2⟩
        intro other hmem
        have hlt := lt_sequenceNumber_of_numbered h.2.2.2 other hmem
        have hseq := h.2.2.1
        omega
  have hfilter : rows.filter (fun row => row.tenantId = tenantId ∧ row.aggregateId = aggregateId) =
      rows := List.filter_eq_self.2 fun row hmem => by simpa using hall row hmem
  unfold selectStream
  rw [hfilter]
  exact hsorted.insertionSort_eq

/-- A read that returns events is one in which nothing went wrong. -/
theorem byAggregateId_ok {α : Type} {codec : Codec (LedgerEvent α) J}
    {table : List (LedgerRow J)} {env : ReadEnv} {events : List (StoreEvent (LedgerEvent α))}
    (h : byAggregateId codec tenantId table aggregateId env = .ok events) :
    (selectStream tenantId aggregateId table).mapM (decodeRow codec) = .ok events := by
  rcases env with ⟨beginError, selectError, commitError⟩
  cases beginError with
  | some e => simp [byAggregateId] at h
  | none =>
      cases selectError with
      | some e => simp [byAggregateId] at h
      | none =>
          cases commitError with
          | some e => simp [byAggregateId] at h
          | none => simpa [byAggregateId] using h

theorem sequenceNumber_of_decodeRow {α : Type} {codec : Codec (LedgerEvent α) J}
    {row : LedgerRow J} {event : StoreEvent (LedgerEvent α)}
    (h : decodeRow codec row = .ok event) : event.sequenceNumber = row.sequenceNumber := by
  cases hfrom : codec.fromValue row.payload with
  | error e => simp [decodeRow, hfrom] at h
  | ok payload =>
      simp only [decodeRow, hfrom] at h
      cases h
      rfl

theorem sequenceNumbers_of_mapM {α : Type} {codec : Codec (LedgerEvent α) J} :
    ∀ {rows : List (LedgerRow J)} {events : List (StoreEvent (LedgerEvent α))},
      rows.mapM (decodeRow codec) = .ok events →
        events.map StoreEvent.sequenceNumber = rows.map LedgerRow.sequenceNumber := by
  intro rows
  induction rows with
  | nil =>
      intro events h
      have hnil : [] = events := by simpa [pure, Except.pure] using h
      simp [← hnil]
  | cons row rest ih =>
      intro events h
      rw [List.mapM_cons] at h
      cases hrow : decodeRow codec row with
      | error e => simp [hrow, bind, Except.bind] at h
      | ok event =>
          cases hrest : rest.mapM (decodeRow codec) with
          | error e => simp [hrow, hrest, bind, Except.bind] at h
          | ok later =>
              have heq : event :: later = events := by
                simpa [hrow, hrest, bind, Except.bind, pure, Except.pure] using h
              have hseq := sequenceNumber_of_decodeRow hrow
              simp [← heq, hseq, ih hrest]

/-- Folding stored events in is folding their payloads. -/
theorem applyStoreEvents_eq {m : Type → Type} [Monad m] [LawfulMonad m] {σ ε : Type}
    (apply : σ → ε → m σ) :
    ∀ (events : List (StoreEvent ε)) (state : AggregateState σ),
      state.applyStoreEvents apply events = (do
        let inner ← (events.map StoreEvent.payload).foldlM apply state.inner
        pure
          { id := state.id
            sequenceNumber := (events.map StoreEvent.sequenceNumber).getLastD state.sequenceNumber
            inner := inner }) := by
  intro events
  induction events with
  | nil =>
      intro state
      simp [AggregateState.applyStoreEvents]
  | cons event events ih =>
      intro state
      have hstep : state.applyStoreEvents apply (event :: events) = (do
          let inner ← apply state.inner event.payload
          AggregateState.applyStoreEvents apply
            { state with sequenceNumber := event.sequenceNumber, inner := inner } events) := by
        simp [AggregateState.applyStoreEvents]
      simp only [hstep, ih, List.map_cons, List.foldlM_cons, bind_assoc, List.getLastD_cons]

/-- The last number of a numbered stream is its length. -/
theorem getLastD_of_numbered {rows : List (LedgerRow J)} :
    ∀ {k : Nat}, Numbered tenantId aggregateId k rows →
      (rows.map LedgerRow.sequenceNumber).getLastD (k : Int) = (k + rows.length : Nat) := by
  induction rows with
  | nil =>
      intro k _
      simp
  | cons row rest ih =>
      intro k h
      rcases h with ⟨-, -, hseq, hrest⟩
      have hlast := ih hrest
      rw [← hseq] at hlast
      simp only [List.map_cons, List.getLastD_cons, hlast, List.length_cons]
      omega

section Loads

variable {m : Type → Type} [Monad m] [LawfulMonad m] [Returning m] {α : Type} [Amount m α]
  {codec : Codec (LedgerEvent α) J} {table : List (LedgerRow J)} {env : ReadEnv}
  {state : AggregateState (LedgerState α)}

open Returning

/-- What a successful load returns: the replay of the rows it read, at the number of the last. -/
theorem load_ok (h : load codec tenantId table aggregateId env = (pure (.ok state) : m _)) :
    load codec tenantId table aggregateId ReadEnv.ok = (pure (.ok state) : m _) ∧
      state.id = aggregateId ∧
      state.sequenceNumber =
        ((selectStream tenantId aggregateId table).map LedgerRow.sequenceNumber).getLastD 0 := by
  cases hread : byAggregateId codec tenantId table aggregateId env with
  | error e =>
      simp only [load, hread] at h
      cases pure_inj h
  | ok events =>
      have hdecode := byAggregateId_ok hread
      have hok : byAggregateId codec tenantId table aggregateId ReadEnv.ok = .ok events := hdecode
      refine ⟨by rw [← h]; simp only [load, hread, hok], ?_⟩
      simp only [load, hread, applyStoreEvents_eq, bind_assoc, pure_bind] at h
      rcases bind_eq_pure h with ⟨inner, -, hpair⟩
      have hstate := Except.ok.inj (pure_inj hpair)
      rw [← hstate, ← sequenceNumbers_of_mapM hdecode]
      exact ⟨rfl, rfl⟩

theorem sequenceNumber_of_load (hnum : Numbered tenantId aggregateId 0 table)
    (h : load codec tenantId table aggregateId env = (pure (.ok state) : m _)) :
    state.sequenceNumber = table.length := by
  have hseq := (load_ok h).2.2
  rw [selectStream_of_numbered hnum] at hseq
  have hlast := getLastD_of_numbered hnum
  simpa [hseq] using hlast

end Loads

end Stream

end Falkr
