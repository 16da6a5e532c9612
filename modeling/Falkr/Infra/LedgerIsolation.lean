import Falkr.Infra.LedgerAppend
import Falkr.Lib.Unwinding

/-!
# LedgerIsolation — what a tenant sees of the others

A history is a list of `load` and `persist` calls, each with its tenant.  Reads go through row-level
security and depend on the tenant's own rows only.  Appends do not: the primary key and the unique
index on `(aggregate_id, sequence_number)` range over the rows of all tenants.  The `obstacle` of a
call is the row that it fails on for no reason of its own, and two histories look the same to a
tenant exactly if they put the same obstacles in its way (`tenantView_eq_iff`).
-/

namespace Falkr

open Lib

/-- The rows that row-level security shows to a tenant. -/
def visible {J : Type} (tenantId : TenantId) (table : List (LedgerRow J)) : List (LedgerRow J) :=
  table.filter fun row => row.tenantId = tenantId

inductive StoreCall (α : Type)
  | load (tenantId : TenantId) (aggregateId : Uuid) (env : ReadEnv)
  | persist (tenantId : TenantId) (state : AggregateState (LedgerState α))
      (events : List (LedgerEvent α)) (env : PersistEnv)

def StoreCall.tenantId {α : Type} : StoreCall α → TenantId
  | .load tenantId _ _ => tenantId
  | .persist tenantId _ _ _ => tenantId

inductive StoreResult (m : Type → Type) (α : Type)
  | loaded (state : m (Except LedgerStoreError (AggregateState (LedgerState α))))
  | persisted (stored : Except LedgerStoreError (List (StoreEvent (LedgerEvent α))))

section Isolation

variable {m : Type → Type} [Monad m] {α : Type} [Amount m α] {J : Type}

def perform (codec : Codec (LedgerEvent α) J) (table : List (LedgerRow J)) :
    StoreCall α → List (LedgerRow J) × StoreResult m α
  | .load tenantId aggregateId env => (table, .loaded (load codec tenantId table aggregateId env))
  | .persist tenantId state events env =>
      let (table, _, stored) := persist codec tenantId table state events env
      (table, .persisted stored)

variable (codec : Codec (LedgerEvent α) J) (tenantId : TenantId)

/-- The rows that a persist call would insert if there were only its tenant's rows. -/
def insertableAlone (state : AggregateState (LedgerState α)) (events : List (LedgerEvent α))
    (env : PersistEnv) (table : List (LedgerRow J)) : List (LedgerRow J) :=
  match env.beginError with
  | some _ => []
  | none => insertable codec tenantId env events 0 state (visible tenantId table)

/-- A row of another tenant stands in the way of this one. -/
def Obstructed (table : List (LedgerRow J)) (row : LedgerRow J) : Prop :=
  ∃ other ∈ table, other.tenantId ≠ tenantId ∧ row.Clashes other

instance (table : List (LedgerRow J)) (row : LedgerRow J) :
    Decidable (Obstructed tenantId table row) :=
  inferInstanceAs (Decidable (∃ other ∈ table, _))

/-- The first row that the call would insert but for a row of another tenant. -/
def obstacle (table : List (LedgerRow J)) : StoreCall α → Option (LedgerRow J)
  | .load _ _ _ => none
  | .persist _ state events env =>
      (insertableAlone codec tenantId state events env table).find?
        fun row => Obstructed tenantId table row

variable {codec tenantId}

/-! ## One insert -/

@[simp] theorem visible_append (table rows : List (LedgerRow J)) :
    visible tenantId (table ++ rows) = visible tenantId table ++ visible tenantId rows := by
  simp [visible]

theorem visible_of_own {rows : List (LedgerRow J)} (h : ∀ row ∈ rows, row.tenantId = tenantId) :
    visible tenantId rows = rows := by
  simpa [visible, List.filter_eq_self] using h

theorem visible_of_foreign {rows : List (LedgerRow J)} {other : TenantId} (hne : other ≠ tenantId)
    (h : ∀ row ∈ rows, row.tenantId = other) : visible tenantId rows = [] := by
  simp only [visible, List.filter_eq_nil_iff, decide_eq_true_eq]
  intro row hmem heq
  exact hne ((h row hmem).symm.trans heq)

/-- What the tenant's own rows refuse, the whole table refuses for the same reason. -/
theorem insertRow_error_of_visible {table : List (LedgerRow J)} {row : LedgerRow J}
    {e : DatabaseError} (h : insertRow (visible tenantId table) row = .error e) :
    insertRow table row = .error e := by
  by_cases hneg : row.sequenceNumber < 0
  · simpa [insertRow, hneg] using h
  · by_cases hclash : ∃ other ∈ visible tenantId table, row.Clashes other
    · rcases hclash with ⟨other, hmem, hother⟩
      have hall : ∃ other ∈ table, row.Clashes other :=
        ⟨other, List.mem_of_mem_filter hmem, hother⟩
      have hown : ∃ other ∈ visible tenantId table, row.Clashes other := ⟨other, hmem, hother⟩
      simpa [insertRow, hneg, hall, hown] using h
    · simp [insertRow, hneg, hclash] at h

theorem insertRow_of_visible {table table' : List (LedgerRow J)} {row : LedgerRow J}
    (h : insertRow (visible tenantId table) row = .ok table')
    (hfree : ¬Obstructed tenantId table row) : insertRow table row = .ok (table ++ [row]) := by
  rcases insertRow_ok h with ⟨hnonneg, hown, -⟩
  apply insertRow_of_free hnonneg
  intro other hmem hclash
  by_cases hother : other.tenantId = tenantId
  · exact hown other (by simp [visible, hmem, hother]) hclash
  · exact hfree ⟨other, hmem, hother, hclash⟩

theorem insertRow_of_obstructed {table table' : List (LedgerRow J)} {row : LedgerRow J}
    (h : insertRow (visible tenantId table) row = .ok table')
    (hfree : Obstructed tenantId table row) : ∃ e, insertRow table row = .error e := by
  rcases insertRow_ok h with ⟨hnonneg, -, -⟩
  rcases hfree with ⟨other, hmem, -, hother⟩
  have hclash : ∃ other ∈ table, row.Clashes other := ⟨other, hmem, hother⟩
  refine ⟨{ code := some "23505", message := "duplicate key value" }, ?_⟩
  simp [insertRow, hnonneg, hclash]

theorem obstructed_append_own {table rows : List (LedgerRow J)}
    (h : ∀ row ∈ rows, row.tenantId = tenantId) (row : LedgerRow J) :
    Obstructed tenantId (table ++ rows) row ↔ Obstructed tenantId table row := by
  constructor
  · rintro ⟨other, hmem, hother, hclash⟩
    rcases List.mem_append.1 hmem with hmem | hmem
    · exact ⟨other, hmem, hother, hclash⟩
    · exact absurd (h other hmem) hother
  · rintro ⟨other, hmem, hother, hclash⟩
    exact ⟨other, List.mem_append_left _ hmem, hother, hclash⟩

/-! ## The loop -/

/-- A loop that meets no row of another tenant runs as over the tenant's own rows. -/
theorem insertEvents_visible {env : PersistEnv} (events : List (LedgerEvent α)) (pass : Nat)
    (state : AggregateState (LedgerState α)) (own table : List (LedgerRow J))
    (stored : List (StoreEvent (LedgerEvent α))) (hown : visible tenantId table = own)
    (hfree : ∀ row ∈ insertable codec tenantId env events pass state own,
      ¬Obstructed tenantId table row) :
    (insertEvents codec tenantId env events pass state table stored).2.map
        (fun result => (visible tenantId result.1, result.2)) =
      (insertEvents codec tenantId env events pass state own stored).2 := by
  fun_induction insertable codec tenantId env events pass state own
    generalizing table stored with
  | case1 pass state own => simp [insertEvents, Except.map, hown]
  | case2 payload rest pass state own e hstatement =>
      simp [insertEvents_cons, hstatement, Except.map]
  | case3 payload rest pass state own json hstatement e hinsert =>
      have hall := insertRow_error_of_visible (hown.symm ▸ hinsert)
      simp [insertEvents_cons, hstatement, hinsert, hall, Except.map]
  | case4 payload rest pass state own json hstatement own' hinsert ih =>
      have hown' : own' = own ++ [passRow tenantId env pass state json] :=
        (insertRow_ok hinsert).2.2
      subst hown'
      rcases List.forall_mem_cons.1 hfree with ⟨hrow, hrest⟩
      have hall := insertRow_of_visible (hown.symm ▸ hinsert) hrow
      have hmine : ∀ row ∈ [passRow tenantId env pass state json], row.tenantId = tenantId := by
        simp [passRow, eventRow]
      simp only [insertEvents_cons, hstatement, hinsert, hall]
      refine ih _ _ ?_ ?_
      · rw [visible_append, hown, visible_of_own hmine]
      · intro row hmem
        rw [obstructed_append_own hmine]
        exact hrest row hmem

/-- A loop that meets a row of another tenant fails there with a conflict. -/
theorem insertEvents_obstructed {env : PersistEnv} (events : List (LedgerEvent α)) (pass : Nat)
    (state : AggregateState (LedgerState α)) (own table : List (LedgerRow J))
    (stored : List (StoreEvent (LedgerEvent α))) (hown : visible tenantId table = own)
    {row : LedgerRow J}
    (hfirst : (insertable codec tenantId env events pass state own).find?
      (fun row => Obstructed tenantId table row) = some row) :
    (insertEvents codec tenantId env events pass state table stored).2 =
      .error (.concurrencyConflict row.aggregateId row.sequenceNumber) := by
  fun_induction insertable codec tenantId env events pass state own
    generalizing table stored with
  | case1 | case2 | case3 => simp at hfirst
  | case4 payload rest pass state own json hstatement own' hinsert ih =>
      have hown' : own' = own ++ [passRow tenantId env pass state json] :=
        (insertRow_ok hinsert).2.2
      subst hown'
      have hmine : ∀ row ∈ [passRow tenantId env pass state json], row.tenantId = tenantId := by
        simp [passRow, eventRow]
      by_cases hrow : Obstructed tenantId table (passRow tenantId env pass state json)
      · have heq : passRow tenantId env pass state json = row := by
          simpa [List.find?_cons, hrow] using hfirst
        rcases insertRow_of_obstructed (hown.symm ▸ hinsert) hrow with ⟨e, hall⟩
        simp only [insertEvents_cons, hstatement, hall, insertFailure_of_insertRow hall,
          if_neg (insertRow_ok hinsert).1, ← heq]
        rfl
      · have hall := insertRow_of_visible (hown.symm ▸ hinsert) hrow
        simp only [insertEvents_cons, hstatement, hall]
        refine ih _ _ ?_ ?_
        · rw [visible_append, hown, visible_of_own hmine]
        · simpa [List.find?_cons, hrow, obstructed_append_own hmine] using hfirst

/-! ## A call -/

/-- A call appends rows of its own tenant, or nothing. -/
theorem persist_table (codec : Codec (LedgerEvent α) J) (tenantId : TenantId)
    (state : AggregateState (LedgerState α)) (events : List (LedgerEvent α))
    (env : PersistEnv) (table : List (LedgerRow J)) :
    ∃ rows, (persist codec tenantId table state events env).1 = table ++ rows ∧
      ∀ row ∈ rows, row.tenantId = tenantId := by
  cases hresult : (persist codec tenantId table state events env).2.2 with
  | error e => exact ⟨[], by simp [persist_error_table hresult], by simp⟩
  | ok stored => exact ⟨_, (persist_ok_table hresult).1, tenantId_of_insertable _ _ _ _⟩

theorem persist_visible {state : AggregateState (LedgerState α)} {events : List (LedgerEvent α)}
    {env : PersistEnv} {table : List (LedgerRow J)}
    (h : obstacle codec tenantId table (.persist tenantId state events env) = none) :
    visible tenantId (persist codec tenantId table state events env).1 =
        (persist codec tenantId (visible tenantId table) state events env).1 ∧
      (persist codec tenantId table state events env).2.2 =
        (persist codec tenantId (visible tenantId table) state events env).2.2 := by
  cases hbegin : env.beginError with
  | some e => simp [persist, hbegin]
  | none =>
      have hfree : ∀ row ∈ insertable codec tenantId env events 0 state (visible tenantId table),
          ¬Obstructed tenantId table row := by
        simpa [obstacle, insertableAlone, hbegin] using h
      have hloop := insertEvents_visible events 0 state _ table [] rfl hfree
      cases hall : insertEvents codec tenantId env events 0 state table [] with
      | mk state₁ result =>
          cases hown : insertEvents codec tenantId env events 0 state (visible tenantId table) []
            with
          | mk state₂ result' =>
              simp only [hall, hown] at hloop
              subst hloop
              cases result with
              | error e => simp [persist, hbegin, hall, hown, Except.map]
              | ok inserted =>
                  cases hcommit : env.commitError with
                  | some e => simp [persist, hbegin, hall, hown, hcommit, Except.map]
                  | none => simp [persist, hbegin, hall, hown, hcommit, Except.map]

theorem persist_obstructed {state : AggregateState (LedgerState α)}
    {events : List (LedgerEvent α)} {env : PersistEnv} {table : List (LedgerRow J)}
    {row : LedgerRow J}
    (h : obstacle codec tenantId table (.persist tenantId state events env) = some row) :
    (persist codec tenantId table state events env).1 = table ∧
      (persist codec tenantId table state events env).2.2 =
        .error (.concurrencyConflict row.aggregateId row.sequenceNumber) := by
  cases hbegin : env.beginError with
  | some e => simp [obstacle, insertableAlone, hbegin] at h
  | none =>
      have hloop := insertEvents_obstructed events 0 state _ table [] rfl
        (by simpa [obstacle, insertableAlone, hbegin] using h)
      have hresult : (persist codec tenantId table state events env).2.2 =
          .error (.concurrencyConflict row.aggregateId row.sequenceNumber) := by
        simp only [persist_result_eq, hbegin, hloop]
      exact ⟨persist_error_table hresult, hresult⟩

/-- Alone, a call does not fail with the conflict that an obstacle makes it fail with. -/
theorem persist_ne_conflict {state : AggregateState (LedgerState α)}
    {events : List (LedgerEvent α)} {env : PersistEnv} {table : List (LedgerRow J)}
    {row : LedgerRow J}
    (hmem : row ∈ insertableAlone codec tenantId state events env table) :
    (persist codec tenantId (visible tenantId table) state events env).2.2 ≠
      .error (.concurrencyConflict row.aggregateId row.sequenceNumber) := by
  intro h
  rw [persist_result_eq] at h
  cases hbegin : env.beginError with
  | some e => simp [insertableAlone, hbegin] at hmem
  | none =>
      cases hloop : (insertEvents codec tenantId env events 0 state (visible tenantId table) []).2
        with
      | error e =>
          have he : e = .concurrencyConflict row.aggregateId row.sequenceNumber := by
            simpa [hbegin, hloop] using h
          -- A conflict is reported at the number after the rows that went in, never at theirs.
          have hlt := (lt_of_conflict events 0 state _ [] (by rw [hloop, he])).2 row
            (by simpa [insertableAlone, hbegin] using hmem)
          exact lt_irrefl _ hlt
      | ok inserted => cases hcommit : env.commitError <;> simp [hbegin, hloop, hcommit] at h

/-- A row that a call would insert alone is told by its number. -/
theorem eq_of_sequenceNumber_eq {state : AggregateState (LedgerState α)}
    {events : List (LedgerEvent α)} {env : PersistEnv} {table : List (LedgerRow J)}
    {row row' : LedgerRow J} (hmem : row ∈ insertableAlone codec tenantId state events env table)
    (hmem' : row' ∈ insertableAlone codec tenantId state events env table)
    (heq : row.sequenceNumber = row'.sequenceNumber) : row = row' := by
  cases hbegin : env.beginError with
  | some e => simp [insertableAlone, hbegin] at hmem
  | none =>
      simp only [insertableAlone, hbegin] at hmem hmem'
      have hnodup : ((insertable codec tenantId env events 0 state
          (visible tenantId table)).map LedgerRow.sequenceNumber).Nodup :=
        List.pairwise_map.2 ((pairwise_insertable _ _ _ _).imp fun hlt => ne_of_lt hlt)
      exact List.inj_on_of_nodup_map hnodup hmem hmem' heq

theorem mem_of_obstacle {state : AggregateState (LedgerState α)}
    {events : List (LedgerEvent α)} {env : PersistEnv} {table : List (LedgerRow J)}
    {row : LedgerRow J}
    (h : obstacle codec tenantId table (.persist tenantId state events env) = some row) :
    row ∈ insertableAlone codec tenantId state events env table :=
  List.mem_of_find?_eq_some h

theorem insertableAlone_congr {table table' : List (LedgerRow J)}
    (h : visible tenantId table = visible tenantId table')
    (state : AggregateState (LedgerState α)) (events : List (LedgerEvent α)) (env : PersistEnv) :
    insertableAlone codec tenantId state events env table =
      insertableAlone codec tenantId state events env table' := by
  simp [insertableAlone, h]

/-! ## Histories -/

/-- Reads depend on the tenant's own rows. -/
theorem load_visible (aggregateId : Uuid) (env : ReadEnv) (table : List (LedgerRow J)) :
    (load codec tenantId (visible tenantId table) aggregateId env :
        m (Except LedgerStoreError (AggregateState (LedgerState α)))) =
      load codec tenantId table aggregateId env := by
  have hselect : selectStream tenantId aggregateId (visible tenantId table) =
      selectStream tenantId aggregateId table := by
    unfold selectStream visible
    rw [List.filter_filter]
    congr 2
    funext row
    by_cases htenant : row.tenantId = tenantId
    · simp [htenant]
    · simp [htenant]
  simp only [load, byAggregateId, hselect]

theorem perform_other {call : StoreCall α} (hcall : call.tenantId ≠ tenantId)
    (table : List (LedgerRow J)) :
    visible tenantId (perform (m := m) codec table call).1 = visible tenantId table := by
  cases call with
  | load other aggregateId env => rfl
  | persist other state events env =>
      rcases persist_table codec other state events env table with ⟨rows, htable, hrows⟩
      simp [perform, htable, visible_of_foreign hcall hrows]

/-- Over the same own rows, two runs of a call end alike exactly if the same obstacle, or none, is
in the way. -/
theorem perform_result_iff {call : StoreCall α} (hcall : call.tenantId = tenantId)
    {table table' : List (LedgerRow J)} (h : visible tenantId table = visible tenantId table') :
    (perform (m := m) codec table call).2 = (perform (m := m) codec table' call).2 ↔
      obstacle codec tenantId table call = obstacle codec tenantId table' call := by
  cases call with
  | load other aggregateId env =>
      have htenant : other = tenantId := hcall
      subst htenant
      have hload : (load codec other table aggregateId env :
          m (Except LedgerStoreError (AggregateState (LedgerState α)))) =
            load codec other table' aggregateId env := by
        rw [← load_visible aggregateId env table, h, load_visible]
      simp [perform, obstacle, hload]
  | persist other state events env =>
      have htenant : other = tenantId := hcall
      subst htenant
      cases hobstacle : obstacle codec _ table (.persist _ state events env) with
      | none =>
          have hresult := (persist_visible hobstacle).2
          cases hobstacle' : obstacle codec _ table' (.persist _ state events env) with
          | none =>
              have hresult' := (persist_visible hobstacle').2
              simp [perform, hresult, hresult', h]
          | some row =>
              have hresult' := (persist_obstructed hobstacle').2
              have hne := persist_ne_conflict (mem_of_obstacle hobstacle')
              simpa [perform, hresult, hresult', h] using hne
      | some row =>
          have hresult := (persist_obstructed hobstacle).2
          cases hobstacle' : obstacle codec _ table' (.persist _ state events env) with
          | none =>
              have hresult' := (persist_visible hobstacle').2
              have hne := (persist_ne_conflict (mem_of_obstacle hobstacle)).symm
              simpa [perform, hresult, hresult', h] using hne
          | some row' =>
              have hresult' := (persist_obstructed hobstacle').2
              have hmem' := mem_of_obstacle hobstacle'
              rw [← insertableAlone_congr h] at hmem'
              have heq := eq_of_sequenceNumber_eq (mem_of_obstacle hobstacle) hmem'
              simp only [perform, hresult, hresult', Option.some.injEq, StoreResult.persisted.injEq,
                Except.error.injEq, LedgerStoreError.concurrencyConflict.injEq]
              exact ⟨fun hsame => heq hsame.2, fun hsame => by simp [hsame]⟩

theorem perform_next {call : StoreCall α} (hcall : call.tenantId = tenantId)
    {table table' : List (LedgerRow J)} (h : visible tenantId table = visible tenantId table')
    (hobstacle : obstacle codec tenantId table call = obstacle codec tenantId table' call) :
    visible tenantId (perform (m := m) codec table call).1 =
      visible tenantId (perform (m := m) codec table' call).1 := by
  cases call with
  | load other aggregateId env => exact h
  | persist other state events env =>
      have htenant : other = tenantId := hcall
      subst htenant
      cases hnone : obstacle codec _ table (.persist _ state events env) with
      | none =>
          have htable := (persist_visible hnone).1
          have htable' := (persist_visible (hobstacle ▸ hnone)).1
          simp [perform, htable, htable', h]
      | some row =>
          have htable := (persist_obstructed hnone).1
          have htable' := (persist_obstructed (hobstacle ▸ hnone)).1
          simp [perform, htable, htable', h]

variable (m codec tenantId)

/-- What one tenant's calls return depends on its own rows and on the obstacles in its way. -/
theorem ledgerUnwinding : Unwinding (perform (m := m) codec)
    (fun call => call.tenantId = tenantId) (visible tenantId) (obstacle codec tenantId) where
  other := fun table _ hcall => perform_other hcall table
  result_iff := fun _ _ _ hcall h => perform_result_iff hcall h
  next := fun _ _ _ hcall h hobstacle => perform_next hcall h hobstacle

/-- The results of a tenant's calls in a history that starts with an empty table. -/
def tenantView (calls : List (StoreCall α)) : List (StoreResult m α) :=
  view (perform codec) (fun call => call.tenantId = tenantId) [] calls

/-- For each of a tenant's calls, the row that another tenant's row keeps it from inserting. -/
def obstacles (calls : List (StoreCall α)) : List (Option (LedgerRow J)) :=
  leaks (perform (m := m) codec) (fun call => call.tenantId = tenantId)
    (obstacle codec tenantId) [] calls

/-- Two histories with the same calls of a tenant look the same to it exactly if each of its calls
meets the same obstacle, or none, in both. -/
theorem tenantView_eq_iff {calls calls' : List (StoreCall α)}
    (h : calls.filter (fun call => call.tenantId = tenantId) =
      calls'.filter fun call => call.tenantId = tenantId) :
    tenantView m codec tenantId calls = tenantView m codec tenantId calls' ↔
      obstacles m codec tenantId calls = obstacles m codec tenantId calls' :=
  (ledgerUnwinding m codec tenantId).view_eq_iff _ calls calls' [] [] rfl h rfl

variable {m codec tenantId}

variable (codec tenantId) in
/-- Where there are only the tenant's own calls, nothing is in their way. -/
theorem leaks_of_alone :
    ∀ (calls : List (StoreCall α)) (table : List (LedgerRow J)),
      (∀ call ∈ calls, call.tenantId = tenantId) → (∀ row ∈ table, row.tenantId = tenantId) →
      ∀ found ∈ leaks (perform (m := m) codec) (fun call => call.tenantId = tenantId)
        (obstacle codec tenantId) table calls, found = none := by
  intro calls
  induction calls with
  | nil =>
      intro table _ _ found hmem
      simp [leaks] at hmem
  | cons call calls ih =>
      intro table hcalls hrows found hmem
      rcases List.forall_mem_cons.1 hcalls with ⟨hcall, hrest⟩
      simp only [leaks, hcall, if_true, List.mem_cons] at hmem
      cases call with
      | load other aggregateId env =>
          rcases hmem with rfl | hmem
          · rfl
          · exact ih table hrest hrows found hmem
      | persist other state events env =>
          rcases hmem with rfl | hmem
          · have hfree : ∀ row, ¬Obstructed tenantId table row := by
              rintro row ⟨foreign, hforeign, hne, -⟩
              exact hne (hrows foreign hforeign)
            simp [obstacle, hfree]
          · rcases persist_table codec other state events env table with ⟨rows, htable, hnew⟩
            refine ih _ hrest ?_ found hmem
            intro row hrow
            rcases List.mem_append.1 (htable ▸ hrow) with hrow | hrow
            · exact hrows row hrow
            · exact (hnew row hrow).trans hcall

/-- A history looks to a tenant as if it were alone exactly if nothing is ever in its way. -/
theorem tenantView_eq_alone_iff (calls : List (StoreCall α)) :
    tenantView m codec tenantId calls =
        tenantView m codec tenantId (calls.filter fun call => call.tenantId = tenantId) ↔
      ∀ found ∈ obstacles m codec tenantId calls, found = none := by
  have halone := leaks_of_alone (m := m) codec tenantId
    (calls.filter fun call => call.tenantId = tenantId) [] (by simp) (by simp)
  have hcompared : tenantView m codec tenantId calls =
        tenantView m codec tenantId (calls.filter fun call => call.tenantId = tenantId) ↔
      obstacles m codec tenantId calls =
        obstacles m codec tenantId (calls.filter fun call => call.tenantId = tenantId) :=
    (ledgerUnwinding m codec tenantId).view_eq_iff _ calls _ [] [] rfl (by simp) rfl
  rw [hcompared]
  constructor
  · intro heq
    rw [heq]
    exact halone
  · intro hnone
    have hlength : (obstacles m codec tenantId calls).length =
        (obstacles m codec tenantId
          (calls.filter fun call => call.tenantId = tenantId)).length := by
      simp [obstacles, length_leaks]
    exact (List.eq_replicate_iff.2 ⟨hlength, hnone⟩).trans
      (List.eq_replicate_iff.2 ⟨rfl, halone⟩).symm

end Isolation

/-! ## Another tenant on the same aggregate id -/

/-- A tenant's first event on an aggregate. -/
def firstEvent (tenantId : TenantId) (aggregateId id : Uuid) : StoreCall ℚ :=
  .persist tenantId (AggregateState.withId aggregateId LedgerState.default)
    [.capitalizationStatusChanged ⟨1⟩ .expensed .capitalized ⟨2⟩] (PersistEnv.ok ⟨0⟩ fun _ => id)

def StoreResult.IsOk {m : Type → Type} {α : Type} : StoreResult m α → Bool
  | .loaded _ => true
  | .persisted stored => stored.isOk

theorem tenantView_sharedAggregate :
    [firstEvent ⟨1⟩ 7 100, firstEvent ⟨2⟩ 7 101].filter
          (fun call : StoreCall ℚ => call.tenantId = ⟨2⟩) =
        [firstEvent ⟨2⟩ 7 101].filter (fun call : StoreCall ℚ => call.tenantId = ⟨2⟩) ∧
      tenantView Id Codec.plain ⟨2⟩ [firstEvent ⟨1⟩ 7 100, firstEvent ⟨2⟩ 7 101] ≠
        tenantView Id Codec.plain ⟨2⟩ [firstEvent ⟨2⟩ 7 101] := by
  refine ⟨rfl, ?_⟩
  intro heq
  have hok := congrArg (List.map StoreResult.IsOk) heq
  revert hok
  decide +kernel

theorem tenantView_ownAggregates :
    tenantView Id Codec.plain ⟨2⟩ [firstEvent ⟨1⟩ 6 100, firstEvent ⟨2⟩ 7 101] =
      tenantView Id Codec.plain ⟨2⟩ [firstEvent ⟨2⟩ 7 101, firstEvent ⟨3⟩ 8 102] :=
  (tenantView_eq_iff Id Codec.plain ⟨2⟩ rfl).2 (by decide +kernel)

end Falkr
