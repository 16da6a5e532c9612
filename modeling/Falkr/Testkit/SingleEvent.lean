import Falkr.Infra.LedgerSequential
import Falkr.Testkit.Assertions

/-!
# SingleEvent — appends at the same sequence

The test of idempotency against a database has two writers load an aggregate before either of them
writes, lets both append, and counts the events afterwards.  The same is said here of any number of
writers, from any moment at which all of them are idle, and of every order in which their statements
interleave: of the appends that start from the same sequence at most one goes through, and the
aggregate has as many events more as went through (`single_event_of_race`).

If no statement fails by itself, one does go through as soon as any has returned, and the others are
told of the conflict and not of a failing database (`one_winner_of_race`).
-/

namespace Falkr

open Lib

/-! ## The assertion -/

/-- A given idempotency key corresponds to exactly one persisted event. -/
def assertSingleEventForKey (debug : String → String) (key : String) :
    Nat → Except InvariantViolation Unit
  | 1 => .ok ()
  | 0 => .error {
      invariant := .idempotent
      detail := "idempotency key " ++ debug key ++ " persisted no event at all" }
  | n => .error {
      invariant := .idempotent
      detail := "idempotency key " ++ debug key ++ " persisted " ++ toString n ++
        " events; expected exactly 1" }

theorem assertSingleEventForKey_iff (debug : String → String) (key : String) (persisted : Nat) :
    assertSingleEventForKey debug key persisted = .ok () ↔ persisted = 1 := by
  match persisted with
  | 0 => simp [assertSingleEventForKey]
  | 1 => simp [assertSingleEventForKey]
  | n + 2 => simp [assertSingleEventForKey]

namespace WriterAction

variable {α : Type}

def IsLoad : WriterAction α → Bool
  | .load _ => true
  | _ => false

def IsCommit : WriterAction α → Bool
  | .commit _ => true
  | _ => false

end WriterAction

/-! ## A race -/

section Race

variable {m : Type → Type} [Monad m] {α : Type} [Amount m α] {W J : Type}
  {codec : Codec (LedgerEvent α) J} {tenantId : TenantId} {aggregateId : Uuid}
  {mid world world' : World α W J}

/-- The number that a writer's attempt starts from, as far as it has read it. -/
def Writer.StartsAt (n : Nat) : Writer α J → Prop
  | .idle => True
  | .loaded state => state.sequenceNumber = n
  | .decided state _ _ => state.sequenceNumber = n
  | .appending state _ _ _ _ inserted => state.sequenceNumber = (n + inserted.length : Nat)

/-- Since some moment all attempts have started from the rows that there were: at most one call has
gone through, and as many rows have been added. -/
structure Race (mid world : World α W J) : Prop where
  startsAt : ∀ w, (world.writers w).StartsAt mid.table.length
  calls : ∃ calls rows, world.returned = mid.returned ++ calls ∧ world.table = mid.table ++ rows ∧
    rows.length = (succeeded calls).length ∧ rows.length ≤ 1

theorem race_of_idle (hidle : ∀ w, mid.writers w = .idle) : Race mid mid where
  startsAt := by
    intro w
    rw [hidle w]
    trivial
  calls := ⟨[], [], by simp, by simp, rfl, by simp⟩

/-- `event_count` is the number of the rows: every one of them decodes. -/
theorem eventCount_of_worldOk [LawfulMonad m] [Returning m] (hcodec : codec.Lawful)
    (hok : WorldOk codec tenantId aggregateId world) :
    (byAggregateId codec tenantId world.table aggregateId .ok).map List.length =
      .ok world.table.length := by
  have hnum := hok.numbered
  rw [hok.stored_eq] at hnum
  rcases mapM_decodeRow (decodes_answered hcodec world.returned hnum hok.serial).1 with
    ⟨events, hevents, -, hnumbers⟩
  have hlength : events.length = (stored world.returned).length := by
    simpa using congrArg List.length hnumbers
  have hread : byAggregateId codec tenantId world.table aggregateId .ok = .ok events := by
    simp only [byAggregateId, ReadEnv.ok, selectStream_of_numbered hok.numbered]
    rw [hok.stored_eq, hevents]
  rw [hread, hok.stored_eq, ← hlength]
  rfl

variable [DecidableEq W]

theorem startsAt_update {n : Nat} {writers : W → Writer α J}
    (h : ∀ w, (writers w).StartsAt n) {w : W} {writer : Writer α J} (hw : writer.StartsAt n) :
    ∀ other, (Function.update writers w writer other).StartsAt n := by
  intro other
  by_cases hother : other = w
  · subst hother
    simpa using hw
  · simpa [hother] using h other

theorem Race.setWriter (h : Race mid world) {w : W} {writer : Writer α J}
    (hw : writer.StartsAt mid.table.length) : Race mid (world.setWriter w writer) where
  startsAt := startsAt_update h.startsAt hw
  calls := h.calls

theorem Race.fail (h : Race mid world) (w : W) (request : Request α)
    (events : List (LedgerEvent α)) (e : LedgerStoreError) :
    Race mid (world.fail w request events e) where
  startsAt := startsAt_update h.startsAt trivial
  calls := by
    rcases h.calls with ⟨calls, rows, hreturned, htable, hlength, hone⟩
    refine ⟨calls ++ [{ request := request, events := events, result := .error e }], rows, ?_,
      htable, ?_, hone⟩
    · rw [World.fail, hreturned, List.append_assoc]
    · rw [succeeded_append_singleton, List.append_nil, hlength]

theorem Race.commit [LawfulMonad m] [Returning m]
    (hok : WorldOk codec tenantId aggregateId world) (h : Race mid world) {w : W}
    {state : AggregateState (LedgerState α)} {request : Request α} {occurredOn : DateTimeUtc}
    {events : List (LedgerEvent α)} {inserted : List (LedgerRow J)}
    (hw : world.writers w = .appending state request occurredOn events [] inserted) :
    Race mid (world.commit w request events inserted) where
  startsAt := startsAt_update h.startsAt trivial
  calls := by
    rcases h.calls with ⟨calls, rows, hreturned, htable, hlength, -⟩
    rcases hok.committing hw with ⟨hinserted, hnumber⟩
    have hstart := h.startsAt w
    rw [hw] at hstart
    -- It started from the rows of that moment, so no other call has gone through since.
    have hnone : rows = [] := by
      have hnumbers : mid.table.length + inserted.length = world.table.length + 1 := by
        exact_mod_cast hstart.symm.trans hnumber
      rw [htable, List.length_append, hinserted] at hnumbers
      exact List.eq_nil_of_length_eq_zero (by omega)
    subst hnone
    refine ⟨calls ++ [{ request := request, events := events, result := .ok inserted }], inserted,
      ?_, ?_, ?_, hinserted.le⟩
    · rw [World.commit, hreturned, List.append_assoc]
    · rw [World.commit, htable, List.append_nil]
    · rw [succeeded_append_singleton, List.length_append, ← hlength, hinserted]
      rfl

theorem table_of_advance {label : W × WriterAction α}
    (hadvance : WriterAdvance codec tenantId aggregateId world label world')
    (hcommit : label.2.IsCommit = false) : world'.table = world.table := by
  cases hadvance with
  | commit => cases hcommit
  | _ => rfl

/-- No attempt starts from another number as long as none is loaded after a commit. -/
theorem Race.advance [LawfulMonad m] [Returning m] (hok : WorldOk codec tenantId aggregateId world)
    (h : Race mid world) {label : W × WriterAction α}
    (hadvance : WriterAdvance codec tenantId aggregateId world label world')
    (hload : label.2.IsLoad = true → world.table = mid.table) : Race mid world' := by
  cases hadvance with
  | unread w env => exact h
  | @load w env state hread =>
      apply h.setWriter
      show state.sequenceNumber = _
      rw [sequenceNumber_of_load hok.numbered hread, hload rfl]
  | idle w action => exact h.setWriter trivial
  | @decide w request state events hw hanswer =>
      have hstart := h.startsAt w
      rw [hw] at hstart
      exact h.setWriter hstart
  | broken w request events herror => exact h.fail w request events _
  | unserialized w action request events hjson => exact h.fail w request events _
  | @begin w request state events occurredOn hw =>
      have hstart := h.startsAt w
      rw [hw] at hstart
      exact h.setWriter hstart
  | @insert w id request state events todo payload occurredOn inserted table' json row hw hjson hrow
      hblocked hinsert =>
      have hstart := h.startsAt w
      rw [hw] at hstart
      -- A number that has wrapped around is refused by the table.
      have hnonneg : ¬AggregateState.increment state.sequenceNumber < 0 := by
        have hrow' := (insertRow_ok hinsert).1
        rwa [hrow] at hrow'
      have hnext : state.nextSequenceNumber.2.sequenceNumber = state.sequenceNumber + 1 :=
        AggregateState.increment_of_nonneg hnonneg
      apply h.setWriter
      show _ = ((mid.table.length + (inserted ++ [row]).length : Nat) : Int)
      rw [hnext, hstart, List.length_append, List.length_singleton]
      push_cast
      ring
  | refuse hw hrow hinsert => exact h.fail _ _ _ _
  | commit hw => exact h.commit hok hw

/-! ## Writers that nothing disturbs -/

/-- Nothing but what the others have stored since can refuse a statement: it does not fail by
itself, and no row of the table has the id of the one it inserts. -/
structure WriterAction.Undisturbed (table : List (LedgerRow J)) (action : WriterAction α) :
    Prop where
  error : action.error = none
  fresh : ∀ id error, action = .insert id error → ∀ row ∈ table, row.id ≠ id

/-- As soon as a call has returned since some moment one has gone through, and whoever has not was
told of the number that all of them took. -/
structure Told (aggregateId : Uuid) (mid world : World α W J) : Prop where
  calls : ∃ calls, world.returned = mid.returned ++ calls ∧
    (calls ≠ [] → mid.table.length < world.table.length) ∧
    ∀ call ∈ calls, ∀ e, call.result = .error e →
      e = .concurrencyConflict aggregateId (mid.table.length + 1 : Nat)

omit [DecidableEq W] in
theorem told_self (aggregateId : Uuid) (mid : World α W J) : Told aggregateId mid mid where
  calls := ⟨[], by simp, fun hne => absurd rfl hne, by simp⟩

omit [DecidableEq W] in
/-- One more call returns. -/
theorem Told.append (h : Told aggregateId mid world) {call : Returned α J}
    (hreturned : world'.returned = world.returned ++ [call])
    (hlonger : mid.table.length < world'.table.length)
    (htold : ∀ e, call.result = .error e →
      e = .concurrencyConflict aggregateId (mid.table.length + 1 : Nat)) :
    Told aggregateId mid world' where
  calls := by
    rcases h.calls with ⟨calls, hcalls, -, htolds⟩
    refine ⟨calls ++ [call], ?_, fun _ => hlonger, ?_⟩
    · rw [hreturned, hcalls, List.append_assoc]
    · intro returned hmem e hresult
      rcases List.mem_append.1 hmem with hmem | hmem
      · exact htolds returned hmem e hresult
      · rw [List.mem_singleton.1 hmem] at hresult
        exact htold e hresult

omit [DecidableEq W] in
/-- Whatever a writer is about to insert takes the number after the last of that moment. -/
theorem Race.inserting [LawfulMonad m] [Returning m]
    (hok : WorldOk codec tenantId aggregateId world) (h : Race mid world)
    (hroom : mid.table.length < 2147483647) {w : W} {state : AggregateState (LedgerState α)}
    {request : Request α} {occurredOn : DateTimeUtc} {events todo : List (LedgerEvent α)}
    {payload : LedgerEvent α} {inserted : List (LedgerRow J)}
    (hw : world.writers w = .appending state request occurredOn events (payload :: todo)
      inserted) :
    inserted = [] ∧ state.id = aggregateId ∧
      AggregateState.increment state.sequenceNumber = (mid.table.length + 1 : Nat) := by
  rcases hok.inserting hw with ⟨hnil, hid⟩
  subst hnil
  have hstart := h.startsAt w
  rw [hw] at hstart
  have hsequence : state.sequenceNumber = (mid.table.length : Nat) := hstart
  refine ⟨rfl, hid, ?_⟩
  rw [hsequence, AggregateState.increment, if_neg (by omega)]
  push_cast
  rfl

omit [DecidableEq W] in
/-- A row with a new id under that number is refused only after another writer has committed. -/
theorem Race.added_of_refused (hok : WorldOk codec tenantId aggregateId world)
    (h : Race mid world) {row : LedgerRow J} {e : DatabaseError}
    (hseq : row.sequenceNumber = (mid.table.length + 1 : Nat))
    (hfresh : ∀ other ∈ mid.table, other.id ≠ row.id)
    (hinsert : insertRow world.table row = .error e) :
    mid.table.length < world.table.length := by
  rcases h.calls with ⟨-, rows, -, htable, -, -⟩
  by_contra hle
  -- Nothing has been added since, so neither the id nor the number was taken.
  have hnone : rows = [] := by
    rw [htable, List.length_append] at hle
    exact List.eq_nil_of_length_eq_zero (by omega)
  have hsame : world.table = mid.table := by rw [htable, hnone, List.append_nil]
  have hfree : ∀ other ∈ world.table, ¬row.Clashes other := by
    rintro other hmem (hclash | ⟨-, hclash⟩)
    · exact hfresh other (hsame ▸ hmem) hclash.symm
    · have hbound := sequenceNumber_le_of_numbered hok.numbered other hmem
      rw [hsame] at hbound
      omega
  rw [insertRow_of_free (by omega) hfree] at hinsert
  cases hinsert

theorem Told.refuse [LawfulMonad m] [Returning m]
    (hok : WorldOk codec tenantId aggregateId world) (hrace : Race mid world)
    (h : Told aggregateId mid world) (hroom : mid.table.length < 2147483647) {w : W} {id : Uuid}
    {state : AggregateState (LedgerState α)} {request : Request α} {occurredOn : DateTimeUtc}
    {events todo : List (LedgerEvent α)} {payload : LedgerEvent α} {inserted : List (LedgerRow J)}
    {json : J} {row : LedgerRow J} {e : DatabaseError}
    (hw : world.writers w = .appending state request occurredOn events (payload :: todo) inserted)
    (hrow : row = eventRow tenantId state.id occurredOn id
      (AggregateState.increment state.sequenceNumber) json)
    (hinsert : insertRow (world.table ++ inserted) row = .error e)
    (hfresh : ∀ other ∈ mid.table, other.id ≠ id) :
    Told aggregateId mid (world.fail w request events
      (insertFailure state.id (AggregateState.increment state.sequenceNumber) e)) := by
  rcases hrace.inserting hok hroom hw with ⟨hnil, hid, hnumber⟩
  rw [hnil, List.append_nil] at hinsert
  have hseq : row.sequenceNumber = (mid.table.length + 1 : Nat) := by
    simp [hrow, eventRow, hnumber]
  have hlonger : mid.table.length < world.table.length :=
    hrace.added_of_refused hok hseq (by simpa [hrow, eventRow] using hfresh) hinsert
  refine h.append rfl hlonger ?_
  intro told hresult
  rw [← Except.error.inj hresult, insertFailure_of_insertRow hinsert, if_neg (by omega), hid,
    hnumber]

theorem Told.commit [LawfulMonad m] [Returning m]
    (hok : WorldOk codec tenantId aggregateId world) (hrace : Race mid world)
    (h : Told aggregateId mid world) {w : W} {state : AggregateState (LedgerState α)}
    {request : Request α} {occurredOn : DateTimeUtc} {events : List (LedgerEvent α)}
    {inserted : List (LedgerRow J)}
    (hw : world.writers w = .appending state request occurredOn events [] inserted) :
    Told aggregateId mid (world.commit w request events inserted) := by
  refine h.append rfl ?_ fun told hresult => by cases hresult
  rcases hrace.calls with ⟨-, rows, -, htable, -, -⟩
  rw [World.commit, htable, List.length_append, List.length_append, (hok.committing hw).1]
  omega

theorem Told.advance [LawfulMonad m] [Returning m]
    (hencodes : ∀ event, ∃ json, codec.toValue event = .ok json)
    (hroom : mid.table.length < 2147483647) (hok : WorldOk codec tenantId aggregateId world)
    (hrace : Race mid world) (h : Told aggregateId mid world) {label : W × WriterAction α}
    (hquiet : label.2.Undisturbed mid.table)
    (hadvance : WriterAdvance codec tenantId aggregateId world label world') :
    Told aggregateId mid world' := by
  cases hadvance with
  | broken w request events herror =>
      rw [hquiet.error] at herror
      cases herror
  | @unserialized w action request events payload e hjson =>
      rcases hencodes payload with ⟨json, hencoded⟩
      rw [hencoded] at hjson
      cases hjson
  | refuse hw hrow hinsert =>
      exact h.refuse hok hrace hroom hw hrow hinsert (hquiet.fresh _ _ rfl)
  | commit hw => exact h.commit hok hrace hw
  -- Nothing returns, and nothing is stored.
  | _ => exact ⟨h.calls⟩

/-! ## Every order of the statements -/

variable [LawfulMonad m] [Outcome m] [Fintype W]

/-- Loads and whatever comes before a commit, and then whatever comes after the last load: what
such a step preserves holds at the end. -/
theorem phases_of_run (I : World α W J → Prop) (Q : WriterAction α → Prop)
    (hadvance : ∀ s label s', WorldOk codec tenantId aggregateId s → I s → Q label.2 →
      (label.2.IsLoad = true → s.table = mid.table) →
      WriterAdvance codec tenantId aggregateId s label s' → I s')
    (hok : WorldOk codec tenantId aggregateId mid) (hmid : I mid)
    {loads appends : List (W × WriterAction α)}
    (hloads : ∀ label ∈ loads, label.2.IsCommit = false)
    (happends : ∀ label ∈ appends, label.2.IsLoad = false)
    (hall : ∀ label ∈ loads ++ appends, Q label.2)
    (h : (ledgerWriters codec tenantId aggregateId).run mid (loads ++ appends) = some world) :
    WorldOk codec tenantId aggregateId world ∧ I world := by
  rw [Machine.run_append] at h
  rcases Option.bind_eq_some_iff.1 h with ⟨ready, hready, hworld⟩
  rcases List.forall_mem_append.1 hall with ⟨hallLoads, hallAppends⟩
  have hfirst : (WorldOk codec tenantId aggregateId ready ∧ I ready) ∧
      ready.table = mid.table := by
    refine (ledgerWriters codec tenantId aggregateId).run_preserves
      (fun s => (WorldOk codec tenantId aggregateId s ∧ I s) ∧ s.table = mid.table)
      (fun label => label.2.IsCommit = false ∧ Q label.2) ?_ loads mid ready
      (fun label hmem => ⟨hloads label hmem, hallLoads label hmem⟩) ⟨⟨hok, hmid⟩, rfl⟩ hready
    rintro s label s' ⟨hcommit, hlabel⟩ ⟨⟨hs, hinv⟩, htable⟩ hstep
    have hstepped := writerStep_advance hstep
    exact ⟨⟨worldOk_step hs hstep, hadvance s label s' hs hinv hlabel (fun _ => htable) hstepped⟩,
      (table_of_advance hstepped hcommit).trans htable⟩
  refine (ledgerWriters codec tenantId aggregateId).run_preserves
    (fun s => WorldOk codec tenantId aggregateId s ∧ I s)
    (fun label => label.2.IsLoad = false ∧ Q label.2) ?_ appends ready world
    (fun label hmem => ⟨happends label hmem, hallAppends label hmem⟩) hfirst.1 hworld
  rintro s label s' ⟨hload, hlabel⟩ ⟨hs, hinv⟩ hstep
  refine ⟨worldOk_step hs hstep, hadvance s label s' hs hinv hlabel (fun htrue => ?_)
    (writerStep_advance hstep)⟩
  rw [hload] at htrue
  cases htrue

/-- Any number of writers, all idle at some moment, load the aggregate and append to it, in whatever
order, with no load behind a commit: at most one append goes through, the aggregate has as many
events more as went through, and the assertion is met exactly if one has. -/
theorem single_event_of_race (hcodec : codec.Lawful) (debug : String → String) (key : String)
    {before loads appends : List (W × WriterAction α)} {mid world : World α W J}
    (hbefore : (ledgerWriters codec tenantId aggregateId).run World.start before = some mid)
    (hidle : ∀ w, mid.writers w = .idle)
    (hloads : ∀ label ∈ loads, label.2.IsCommit = false)
    (happends : ∀ label ∈ appends, label.2.IsLoad = false)
    (h : (ledgerWriters codec tenantId aggregateId).run mid (loads ++ appends) = some world) :
    ∃ calls count persisted, world.returned = mid.returned ++ calls ∧
      persisted = (succeeded calls).length ∧ persisted ≤ 1 ∧
      (byAggregateId codec tenantId mid.table aggregateId .ok).map List.length = .ok count ∧
      (byAggregateId codec tenantId world.table aggregateId .ok).map List.length =
        .ok (count + persisted) ∧
      (assertSingleEventForKey debug key persisted = .ok () ↔ succeeded calls ≠ []) := by
  have hmid := worldOk_of_run hbefore
  have hrun := phases_of_run (Race mid) (fun _ => True)
    (fun s label s' hok hrace _ hload hadvance => hrace.advance hok hadvance hload) hmid
    (race_of_idle hidle) hloads happends (fun _ _ => trivial) h
  rcases hrun with ⟨hworld, hrace⟩
  rcases hrace.calls with ⟨calls, rows, hreturned, htable, hlength, hone⟩
  refine ⟨calls, mid.table.length, rows.length, hreturned, hlength, hone,
    eventCount_of_worldOk hcodec hmid, ?_, ?_⟩
  · rw [eventCount_of_worldOk hcodec hworld, htable, List.length_append]
  · rw [assertSingleEventForKey_iff, ← List.length_pos_iff_ne_nil, ← hlength]
    omega

/-- Of such writers, if no statement fails by itself, exactly one goes through as soon as any call
has returned, and every other is told of a conflict on the number that all of them took. -/
theorem one_winner_of_race (hcodec : codec.Lawful)
    (hencodes : ∀ event, ∃ json, codec.toValue event = .ok json) (debug : String → String)
    (key : String) {before loads appends : List (W × WriterAction α)} {mid world : World α W J}
    (hbefore : (ledgerWriters codec tenantId aggregateId).run World.start before = some mid)
    (hidle : ∀ w, mid.writers w = .idle) (hroom : mid.table.length < 2147483647)
    (hloads : ∀ label ∈ loads, label.2.IsCommit = false)
    (happends : ∀ label ∈ appends, label.2.IsLoad = false)
    (hquiet : ∀ label ∈ loads ++ appends, label.2.Undisturbed mid.table)
    (h : (ledgerWriters codec tenantId aggregateId).run mid (loads ++ appends) = some world) :
    ∃ calls count persisted, world.returned = mid.returned ++ calls ∧
      (byAggregateId codec tenantId mid.table aggregateId .ok).map List.length = .ok count ∧
      (byAggregateId codec tenantId world.table aggregateId .ok).map List.length =
        .ok (count + persisted) ∧
      (calls ≠ [] → (succeeded calls).length = 1 ∧
        assertSingleEventForKey debug key persisted = .ok ()) ∧
      ∀ call ∈ calls, ∀ e, call.result = .error e →
        e = .concurrencyConflict aggregateId (count + 1 : Nat) := by
  have hmid := worldOk_of_run hbefore
  have hrun := phases_of_run (fun s => Race mid s ∧ Told aggregateId mid s)
    (WriterAction.Undisturbed mid.table)
    (fun s label s' hok hboth hlabel hload hadvance =>
      ⟨hboth.1.advance hok hadvance hload,
        hboth.2.advance hencodes hroom hok hboth.1 hlabel hadvance⟩)
    hmid ⟨race_of_idle hidle, told_self aggregateId mid⟩ hloads happends hquiet h
  rcases hrun with ⟨hworld, hrace, htold⟩
  rcases hrace.calls with ⟨calls, rows, hreturned, htable, hlength, hone⟩
  rcases htold.calls with ⟨calls', hreturned', hlonger, hconflict⟩
  have hcalls : calls' = calls :=
    List.append_cancel_left (hreturned'.symm.trans hreturned)
  subst hcalls
  refine ⟨calls', mid.table.length, rows.length, hreturned, eventCount_of_worldOk hcodec hmid, ?_,
    fun hne => ?_, hconflict⟩
  · rw [eventCount_of_worldOk hcodec hworld, htable, List.length_append]
  · have hadded := hlonger hne
    rw [htable, List.length_append] at hadded
    have hexactly : rows.length = 1 := by omega
    exact ⟨hlength ▸ hexactly, (assertSingleEventForKey_iff debug key _).2 hexactly⟩

end Race

/-! ## Two writers -/

/-- Both writers have loaded the empty stream, and both append. -/
def twoAppends : Option (World ℚ (Fin 2) (LedgerEvent ℚ)) :=
  (ledgerWriters Codec.plain ⟨1⟩ 7).run World.start
    (raceLabels.take 2 ++ (raceLabels.drop 2).take 7)

theorem twoAppends_isSome : twoAppends.isSome = true := by
  decide +kernel

theorem run_nil_twoAppends :
    (ledgerWriters Codec.plain ⟨1⟩ 7).run World.start ([] : List (Fin 2 × WriterAction ℚ)) =
      some World.start := rfl

theorem loads_twoAppends : ∀ label ∈ raceLabels.take 2, label.2.IsCommit = false := by
  decide

theorem appends_twoAppends :
    ∀ label ∈ (raceLabels.drop 2).take 7, label.2.IsLoad = false := by
  decide

theorem single_event_of_race_twoAppends :
    (∃ calls count persisted, (twoAppends.get twoAppends_isSome).returned = [] ++ calls ∧
      persisted = (succeeded calls).length ∧ persisted ≤ 1 ∧
      (byAggregateId Codec.plain ⟨1⟩ ([] : List (LedgerRow (LedgerEvent ℚ))) 7 .ok).map
        List.length = .ok count ∧
      (byAggregateId Codec.plain ⟨1⟩ (twoAppends.get twoAppends_isSome).table 7 .ok).map
        List.length = .ok (count + persisted) ∧
      (assertSingleEventForKey (fun s => s) "7" persisted = .ok () ↔ succeeded calls ≠ [])) ∧
      (twoAppends.get twoAppends_isSome).returned.map (fun call => call.result.isOk) =
        [true, false] :=
  ⟨single_event_of_race Codec.plain_lawful (fun s => s) "7" run_nil_twoAppends (fun _ => rfl)
    loads_twoAppends appends_twoAppends (Option.some_get twoAppends_isSome).symm,
    by decide +kernel⟩

theorem one_winner_of_race_twoAppends :
    (∃ calls count persisted, (twoAppends.get twoAppends_isSome).returned = [] ++ calls ∧
      (byAggregateId Codec.plain ⟨1⟩ ([] : List (LedgerRow (LedgerEvent ℚ))) 7 .ok).map
        List.length = .ok count ∧
      (byAggregateId Codec.plain ⟨1⟩ (twoAppends.get twoAppends_isSome).table 7 .ok).map
        List.length = .ok (count + persisted) ∧
      (calls ≠ [] → (succeeded calls).length = 1 ∧
        assertSingleEventForKey (fun s => s) "7" persisted = .ok ()) ∧
      ∀ call ∈ calls, ∀ e, call.result = .error e →
        e = .concurrencyConflict 7 (count + 1 : Nat)) ∧
      (twoAppends.get twoAppends_isSome).returned.length = 2 := by
  have hquiet : ∀ label ∈ raceLabels.take 2 ++ (raceLabels.drop 2).take 7,
      label.2.error = none := by
    decide
  exact ⟨one_winner_of_race Codec.plain_lawful (fun event => ⟨event, rfl⟩) (fun s => s) "7"
    run_nil_twoAppends (fun _ => rfl) (by decide) loads_twoAppends appends_twoAppends
    (fun label hmem => ⟨hquiet label hmem, fun _ _ _ _ hrow => nomatch hrow⟩)
    (Option.some_get twoAppends_isSome).symm, by decide +kernel⟩

end Falkr
