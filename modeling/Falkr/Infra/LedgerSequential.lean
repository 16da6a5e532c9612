import Falkr.Events.Overflow
import Falkr.Infra.LedgerReplay
import Falkr.Infra.LedgerWriters

/-!
# LedgerSequential — concurrent writers refine the aggregate alone

The aggregate takes one command after another; the writers of `LedgerWriters` take theirs at once,
each in its own transaction.  What they leave in the table is nevertheless what the aggregate alone
would have written: the answers to a run of the requests that went through, in the order in which
their transactions committed, and a load at any moment returns the state of that run
(`sequential_of_writers`).

Where the amounts are machine decimals the run may panic, on the request that went through last:
its answer is stored before anyone applies it.  A load panics then as well.
-/

namespace Falkr

open Lib

/-! ## Rows -/

section Rows

variable {α J : Type} {codec : Codec (LedgerEvent α) J} {tenantId : TenantId} {aggregateId : Uuid}

theorem decodes_of_mapM (hcodec : codec.Lawful) {events : List (LedgerEvent α)}
    {rows : List (LedgerRow J)} (h : events.mapM codec.toValue = .ok (rows.map LedgerRow.payload)) :
    List.Forall₂ (Decodes codec) rows events := by
  induction events generalizing rows with
  | nil =>
      have hnil : [] = rows.map LedgerRow.payload := by simpa [pure, Except.pure] using h
      rw [List.map_eq_nil_iff.1 hnil.symm]
      exact List.Forall₂.nil
  | cons event rest ih =>
      -- One row an event, in the same order.
      rw [List.mapM_cons] at h
      rcases bind_eq_ok h with ⟨json, hjson, h⟩
      rcases bind_eq_ok h with ⟨later, hlater, h⟩
      cases rows with
      | nil => cases h
      | cons row rows =>
          have hcons : json :: later = row.payload :: rows.map LedgerRow.payload := Except.ok.inj h
          rcases List.cons.inj hcons with ⟨rfl, rfl⟩
          exact List.Forall₂.cons (hcodec event row.payload hjson) (ih hlater)

theorem stream_of_numbered {rows : List (LedgerRow J)} {k : Nat}
    (h : Numbered tenantId aggregateId k rows) : stream tenantId aggregateId rows = rows := by
  induction rows generalizing k with
  | nil => rfl
  | cons row rest ih =>
      have hrest : stream tenantId aggregateId rest = rest := ih h.2.2.2
      rw [stream, List.filter_cons_of_pos (by simp [h.1, h.2.1])]
      exact congrArg (row :: ·) hrest

theorem increasing_of_numbered {rows : List (LedgerRow J)} {k : Nat}
    (h : Numbered tenantId aggregateId k rows) :
    rows.Pairwise fun row later => row.sequenceNumber < later.sequenceNumber := by
  induction rows generalizing k with
  | nil => exact List.Pairwise.nil
  | cons row rest ih =>
      refine List.pairwise_cons.2 ⟨fun later hlater => ?_, ih h.2.2.2⟩
      have hlt := lt_sequenceNumber_of_numbered h.2.2.2 later hlater
      have hrow := h.2.2.1
      omega

end Rows

section Model

variable {m : Type → Type} [Monad m] [LawfulMonad m] {α : Type} [Amount m α]

/-! ## Runs of the aggregate -/

theorem run_append (s : LedgerState α) (requests later : List (Request α)) :
    run s (requests ++ later) = (do
      let first ← run s requests
      let second ← run first.1 later
      pure (second.1, first.2 ++ second.2)) := by
  induction requests generalizing s with
  | nil => simp [run]
  | cons request rest ih => simp [run, ih]

/-- A request that is answered writes its answer and moves to the state after it. -/
theorem run_singleton_of_answers {s : LedgerState α} {request : Request α}
    {events : List (LedgerEvent α)}
    (h : handleCommand s request.command request.newId request.now = (pure (.ok events) : m _)) :
    run s [request] = (do
      let applied ← replay s events
      pure (applied, events)) := by
  simp [run, execute, h]

variable {J : Type} {codec : Codec (LedgerEvent α) J} {tenantId : TenantId} {aggregateId : Uuid}

/-- Loading a numbered table folds what its rows hold, at the number of rows. -/
theorem load_of_numbered {rows : List (LedgerRow J)} {log : List (LedgerEvent α)}
    (hnum : Numbered tenantId aggregateId 0 rows) (hlog : List.Forall₂ (Decodes codec) rows log) :
    load codec tenantId rows aggregateId ReadEnv.ok = (do
      let inner ← replay LedgerState.default log
      pure (.ok { id := aggregateId, sequenceNumber := rows.length, inner := inner })) := by
  have hstream := stream_of_numbered hnum
  have hwritten : Written codec (stream tenantId aggregateId rows) log := by
    rw [hstream]
    exact ⟨hlog, increasing_of_numbered hnum⟩
  have hlast : (rows.map LedgerRow.sequenceNumber).getLastD 0 = rows.length := by
    simpa using getLastD_of_numbered hnum
  rw [load_of_written hwritten, hstream]
  simp only [streamState, hlast]

/-! ## The refinement -/

/-- The requests of the calls that returned `Ok`, in the order of their commits. -/
def succeeded (returned : List (Returned α J)) : List (Request α) :=
  returned.filterMap fun call =>
    match call.result with
    | .ok _ => some call.request
    | .error _ => none

/-- The events that the calls returned `Ok` for. -/
def answered (returned : List (Returned α J)) : List (LedgerEvent α) :=
  returned.flatMap fun call =>
    match call.result with
    | .ok _ => call.events
    | .error _ => []

/-- The calls that have returned are the requests of a run of the aggregate alone. -/
structure Sequential (codec : Codec (LedgerEvent α) J) (tenantId : TenantId) (aggregateId : Uuid)
    (returned : List (Returned α J)) : Prop where
  /-- The rows hold what the calls were answered. -/
  rows : List.Forall₂ (Decodes codec) (stored returned) (answered returned)
  /-- Each was answered as the aggregate answers after the requests before it. -/
  answers : ∀ before call rows after, returned = before ++ call :: after → call.result = .ok rows →
    ∃ s, run LedgerState.default (succeeded before) = (pure (s, answered before) : m _) ∧
      handleCommand s call.request.command call.request.newId call.request.now =
        (pure (.ok call.events) : m _)
  /-- The log of the run is these answers, and its state their replay. -/
  run : run LedgerState.default (succeeded returned) = (do
    let s ← replay LedgerState.default (answered returned)
    pure (s, answered returned) : m _)
  /-- A load returns the state of the run, unless a statement of it fails. -/
  load : ∀ env,
    (∃ e, load codec tenantId (stored returned) aggregateId env =
      (pure (.error (.backend e)) : m _)) ∨
    load codec tenantId (stored returned) aggregateId env = (do
      let ended ← Falkr.run LedgerState.default (succeeded returned)
      pure (.ok {
        id := aggregateId
        sequenceNumber := (stored returned).length
        inner := ended.1 }) : m _)

theorem succeeded_append_singleton (returned : List (Returned α J)) (call : Returned α J) :
    succeeded (returned ++ [call]) = succeeded returned ++
      match call.result with
      | .ok _ => [call.request]
      | .error _ => [] := by
  rw [succeeded, List.filterMap_append]
  cases hresult : call.result <;> simp [succeeded, hresult]

variable [Returning m]

open Returning

/-- A call that has been answered on the load of numbered rows has been answered on the state that
their events lead to. -/
theorem replay_of_load {rows : List (LedgerRow J)} {log : List (LedgerEvent α)}
    {state : AggregateState (LedgerState α)} (hnum : Numbered tenantId aggregateId 0 rows)
    (hlog : List.Forall₂ (Decodes codec) rows log)
    (hload : load codec tenantId rows aggregateId ReadEnv.ok = (pure (.ok state) : m _)) :
    replay LedgerState.default log = (pure state.inner : m _) := by
  rw [load_of_numbered hnum hlog] at hload
  rcases bind_eq_pure hload with ⟨inner, hreplay, hstate⟩
  rw [← Except.ok.inj (pure_inj hstate)]
  exact hreplay

/-- By induction on the calls that have returned: each stored the answer of the aggregate to its
request, on the state that the requests before it lead to. -/
theorem decodes_answered (hcodec : codec.Lawful) (returned : List (Returned α J))
    (hnum : Numbered tenantId aggregateId 0 (stored returned))
    (hserial : Serial codec tenantId aggregateId returned) :
    List.Forall₂ (Decodes codec) (stored returned) (answered returned) ∧
      run LedgerState.default (succeeded returned) = (do
        let s ← replay LedgerState.default (answered returned)
        pure (s, answered returned) : m _) := by
  induction returned using List.reverseRecOn with
  | nil => exact ⟨List.Forall₂.nil, by simp [succeeded, answered, run, replay]⟩
  | append_singleton returned call ih =>
      rw [stored_append] at hnum ⊢
      have hbefore := ((numbered_append _ _ 0).1 hnum).1
      rcases ih hbefore hserial.of_append with ⟨hrows, hrun⟩
      cases hresult : call.result with
      | error e =>
          -- A call that failed stored nothing, and its request is not run.
          have hsucceeded : succeeded (returned ++ [call]) = succeeded returned := by
            rw [succeeded_append_singleton, hresult, List.append_nil]
          have hanswered : answered (returned ++ [call]) = answered returned := by
            simp [answered, hresult]
          rw [hsucceeded, hanswered]
          exact ⟨by simpa [stored, hresult] using hrows, hrun⟩
      | ok rows =>
          -- The call was answered on the load of all the rows that were committed before it, which
          -- by the induction hypothesis hold the answers so far.
          rcases hserial returned call rows [] rfl hresult with ⟨state, hload, hanswers, hpayloads⟩
          have hreplay := replay_of_load hbefore hrows hload
          have hsucceeded : succeeded (returned ++ [call]) =
              succeeded returned ++ [call.request] := by
            rw [succeeded_append_singleton, hresult]
          have hanswered : answered (returned ++ [call]) = answered returned ++ call.events := by
            simp [answered, hresult]
          have hnew : stored [call] = rows := by simp [stored, hresult]
          have hlater : replay LedgerState.default (answered returned ++ call.events) =
              (replay state.inner call.events : m _) := by
            rw [replay, List.foldlM_append]
            rw [replay] at hreplay
            rw [hreplay, pure_bind, replay]
          rw [hsucceeded, hanswered, hnew, run_append, hrun, hreplay, hlater, pure_bind, pure_bind,
            run_singleton_of_answers hanswers]
          refine ⟨List.rel_append hrows (decodes_of_mapM hcodec hpayloads), ?_⟩
          simp only [bind_assoc, pure_bind]

/-- The calls before a call that went through ran to the state it was answered on. -/
theorem answers_of_serial (hcodec : codec.Lawful) {before after : List (Returned α J)}
    {call : Returned α J} {rows : List (LedgerRow J)}
    (hnum : Numbered tenantId aggregateId 0 (stored (before ++ call :: after)))
    (hserial : Serial codec tenantId aggregateId (before ++ call :: after))
    (hok : call.result = .ok rows) :
    ∃ s, run LedgerState.default (succeeded before) = (pure (s, answered before) : m _) ∧
      handleCommand s call.request.command call.request.newId call.request.now =
        (pure (.ok call.events) : m _) := by
  rw [stored_append] at hnum
  have hbefore := ((numbered_append _ _ 0).1 hnum).1
  rcases decodes_answered hcodec before hbefore hserial.of_append with ⟨hrows, hrun⟩
  rcases hserial before call rows after rfl hok with ⟨state, hload, hanswers, -⟩
  rw [replay_of_load hbefore hrows hload, pure_bind] at hrun
  exact ⟨state.inner, hrun, hanswers⟩

theorem sequential_of_serial (hcodec : codec.Lawful) {returned : List (Returned α J)}
    (hnum : Numbered tenantId aggregateId 0 (stored returned))
    (hserial : Serial codec tenantId aggregateId returned) :
    Sequential codec tenantId aggregateId returned := by
  rcases decodes_answered hcodec returned hnum hserial with ⟨hrows, hrun⟩
  refine ⟨hrows, ?_, hrun, fun env => ?_⟩
  · rintro before call rows after rfl hok
    exact answers_of_serial hcodec hnum hserial hok
  -- A load fails in the database, or reads all there is.
  · rcases load_cases codec tenantId (stored returned) aggregateId env with hfailed | hsame
    · exact Or.inl hfailed
    · right
      rw [hsame, load_of_numbered hnum hrows, hrun]
      simp only [bind_assoc, pure_bind]

end Model

/-- Whatever the writers do, in any order, what they have stored and been answered is a run of the
aggregate alone on the requests that went through, in the order of their commits. -/
theorem sequential_of_writers {m : Type → Type} [Monad m] [LawfulMonad m] [Outcome m] {α : Type}
    [Amount m α] {W J : Type} [Fintype W] [DecidableEq W] {codec : Codec (LedgerEvent α) J}
    {tenantId : TenantId} {aggregateId : Uuid} (hcodec : codec.Lawful)
    {labels : List (W × WriterAction α)} {world : World α W J}
    (h : (ledgerWriters codec tenantId aggregateId).run World.start labels = some world) :
    world.table = stored world.returned ∧
      Sequential codec tenantId aggregateId world.returned := by
  have hok := worldOk_of_run h
  have hnum := hok.numbered
  rw [hok.stored_eq] at hnum
  exact ⟨hok.stored_eq, sequential_of_serial hcodec hnum hok.serial⟩

theorem Codec.plain_lawful {ε : Type} : (Codec.plain : Codec ε ε).Lawful := by
  intro event json h
  cases h
  rfl

/-- Two writers post the largest decimal to the same accounts, and one of them comes back. -/
def maxTransferLabels : List (Bool × WriterAction Decimal) :=
  [(true, .load .ok), (true, .handle (maxTransferRequest ⟨1⟩)), (true, .begin ⟨5⟩ none),
    (true, .insert 100 none), (true, .commit none), (false, .load .ok),
    (false, .handle (maxTransferRequest ⟨2⟩)), (false, .begin ⟨6⟩ none),
    (false, .insert 101 none), (false, .commit none), (true, .load .ok)]

def maxTransferWorld : Option (World Decimal Bool (LedgerEvent Decimal)) :=
  (ledgerWriters Codec.plain ⟨1⟩ 7).run World.start maxTransferLabels

theorem maxTransferWorld_isSome : maxTransferWorld.isSome = true := by
  decide +kernel

/-- Both requests go through, and the aggregate alone panics on the second as the last load does. -/
theorem sequential_of_writers_maxTransfer :
    (succeeded (maxTransferWorld.get maxTransferWorld_isSome).returned).map Request.newId =
        [⟨1⟩, ⟨2⟩] ∧
      (run LedgerState.default
        (succeeded (maxTransferWorld.get maxTransferWorld_isSome).returned)).isNone ∧
      Sequential Codec.plain ⟨1⟩ 7 (maxTransferWorld.get maxTransferWorld_isSome).returned := by
  have hrun : (ledgerWriters Codec.plain ⟨1⟩ 7).run World.start maxTransferLabels =
      some (maxTransferWorld.get maxTransferWorld_isSome) :=
    (Option.some_get maxTransferWorld_isSome).symm
  exact ⟨by decide +kernel, by decide +kernel, (sequential_of_writers Codec.plain_lawful hrun).2⟩

end Falkr
