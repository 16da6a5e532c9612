import Falkr.Infra.RunStore
import Falkr.Lib.Machine

/-!
# RunUpserts — deliveries of one run that overlap

Any number of `upsert_run` calls for one external identity, each a transaction of its own,
interleave.  The unique index makes an insert wait for an open transaction that holds the row under
its identity, and `ON CONFLICT DO UPDATE` locks that row even where its `WHERE` suppresses the write.
So at most one call is between its insert and its commit (`RaceOk.alone`), and what it found still
stands when it commits: one call inserts, the others meet its row.
-/

namespace Falkr

open Lib

/-! ## Calls -/

/-- Where a call of `upsert_run` is. -/
inductive UpsertPhase
  | begun
  /-- The insert is through and its row locked; what is written the others do not see yet. -/
  | executed (row : StoredRun) (returned : Option (RunId × Bool))
  /-- Nothing was to be written, and the row's id is looked up. -/
  | found (id : RunId)
  /-- The transaction is over. -/
  | returned (result : Except ResearchStoreError RunUpsert)
  deriving DecidableEq

structure UpsertCall where
  run : Run
  phase : UpsertPhase
  deriving DecidableEq

/-- A statement of a call.  An error of the connection or of a statement rolls the call back. -/
inductive UpsertAction
  | insert
  | select
  | commit
  | fail (error : String)

inductive UpsertStep
  /-- A call begins; it is known by its place among all calls. -/
  | start (run : Run)
  | act (call : Nat) (action : UpsertAction)

structure UpsertWorld where
  /-- The committed rows. -/
  store : GraphStore
  calls : List UpsertCall

/-- The call at a place. -/
abbrev UpsertWorld.HasCall (self : UpsertWorld) (i : Nat) (call : UpsertCall) : Prop :=
  self.calls[i]? = some call

namespace UpsertCall

/-- The call's transaction holds the row under its identity and is still open. -/
def HoldsLock (self : UpsertCall) : Bool :=
  match self.phase with
  | .executed _ _ => true
  | .found _ => true
  | _ => false

def IsReturned (self : UpsertCall) : Bool :=
  match self.phase with
  | .returned _ => true
  | _ => false

/-- An insert of the run has to wait for the call's transaction. -/
def Blocks (self : UpsertCall) (run : Run) : Prop :=
  self.HoldsLock = true ∧ (self.run.identity = run.identity ∨ self.run.id = run.id)

instance (self : UpsertCall) (run : Run) : Decidable (self.Blocks run) :=
  inferInstanceAs (Decidable (_ ∧ _))

end UpsertCall

/-- What a commit makes of the committed rows. -/
def publishRun (row : StoredRun) (returned : Option (RunId × Bool)) (runs : List StoredRun) :
    List StoredRun :=
  match returned with
  | none => runs
  | some (_, false) => updateProgress row runs
  | some (_, true) => runs ++ [row]

namespace UpsertCall

/-- The phase after a statement; `none` when another statement is next or the call has to wait. -/
def next (self : UpsertCall) (world : UpsertWorld) : UpsertAction → Option UpsertPhase
  | .insert =>
      match self.phase with
      | .begun =>
          if ∃ other ∈ world.calls, other.Blocks self.run then none
          else
            match encodeRun self.run with
            | .error e => some (.returned (.error (.backend e)))
            | .ok row =>
                match insertRun world.store row with
                | .error e => some (.returned (.error (.backend e)))
                | .ok (_, returned) => some (.executed row returned)
      | _ => none
  | .select =>
      match self.phase with
      | .executed _ none =>
          match selectRunId self.run world.store.runs with
          | .error e => some (.returned (.error (.backend e)))
          | .ok id => some (.found id)
      | _ => none
  | .commit =>
      match self.phase with
      | .executed _ (some (id, true)) => some (.returned (.ok (.inserted id)))
      | .executed _ (some (id, false)) => some (.returned (.ok (.updated id)))
      | .found id => some (.returned (.ok (.unchanged id)))
      | _ => none
  | .fail error =>
      match self.phase with
      | .returned _ => none
      | _ => some (.returned (.error (.backend error)))

/-- `runs` after a statement of the call. -/
def publish (self : UpsertCall) (action : UpsertAction) (runs : List StoredRun) :
    List StoredRun :=
  match self.phase, action with
  | .executed row returned, .commit => publishRun row returned runs
  | _, _ => runs

end UpsertCall

def upsertStep (world : UpsertWorld) : UpsertStep → Option UpsertWorld
  | .start run => some { world with calls := world.calls ++ [{ run := run, phase := .begun }] }
  | .act i action =>
      match world.calls[i]? with
      | none => none
      | some call =>
          match call.next world action with
          | none => none
          | some phase =>
              some
                { store := { world.store with runs := call.publish action world.store.runs }
                  calls := world.calls.set i { call with phase := phase } }

/-- Upserts over a given store. -/
def upsertMachine (store : GraphStore) : Machine UpsertWorld UpsertStep where
  start := { store := store, calls := [] }
  step := upsertStep

/-! ## What a step can do -/

/-- What a statement of a call leads to: the phase of the call and `runs` afterwards. -/
inductive UpsertAdvance (world : UpsertWorld) (call : UpsertCall) :
    UpsertAction → UpsertPhase → List StoredRun → Prop
  | insert {row : StoredRun} {runs : List StoredRun} {returned : Option (RunId × Bool)} :
      call.phase = .begun → (∀ other ∈ world.calls, ¬other.Blocks call.run) →
      encodeRun call.run = .ok row → insertRun world.store row = .ok (runs, returned) →
      UpsertAdvance world call .insert (.executed row returned) world.store.runs
  | select {row : StoredRun} {id : RunId} :
      call.phase = .executed row none → selectRunId call.run world.store.runs = .ok id →
      UpsertAdvance world call .select (.found id) world.store.runs
  | commitInserted {row : StoredRun} {id : RunId} :
      call.phase = .executed row (some (id, true)) →
      UpsertAdvance world call .commit (.returned (.ok (.inserted id))) (world.store.runs ++ [row])
  | commitUpdated {row : StoredRun} {id : RunId} :
      call.phase = .executed row (some (id, false)) →
      UpsertAdvance world call .commit (.returned (.ok (.updated id)))
        (updateProgress row world.store.runs)
  | commitUnchanged {id : RunId} :
      call.phase = .found id →
      UpsertAdvance world call .commit (.returned (.ok (.unchanged id))) world.store.runs
  /-- The table refuses the values. -/
  | refuse {e : ResearchStoreError} :
      call.phase = .begun → (∀ other ∈ world.calls, ¬other.Blocks call.run) →
      (∀ row runs returned, encodeRun call.run = .ok row →
        insertRun world.store row ≠ .ok (runs, returned)) →
      UpsertAdvance world call .insert (.returned (.error e)) world.store.runs
  | lose {row : StoredRun} {detail : String} {e : ResearchStoreError} :
      call.phase = .executed row none → selectRunId call.run world.store.runs = .error detail →
      UpsertAdvance world call .select (.returned (.error e)) world.store.runs
  | fail {detail : String} {e : ResearchStoreError} :
      call.IsReturned = false →
      UpsertAdvance world call (.fail detail) (.returned (.error e)) world.store.runs

theorem upsertAdvance_of_next {world : UpsertWorld} {call : UpsertCall} {action : UpsertAction}
    {phase : UpsertPhase} (h : call.next world action = some phase) :
    UpsertAdvance world call action phase (call.publish action world.store.runs) := by
  rcases call with ⟨run, current⟩
  cases action with
  | insert =>
      cases current with
      | begun =>
          by_cases hblocked : ∃ other ∈ world.calls, other.Blocks run
          · simp [UpsertCall.next, hblocked] at h
          · simp only [UpsertCall.next, hblocked, if_false] at h
            have hfree : ∀ other ∈ world.calls, ¬other.Blocks run := by
              intro other hmem hblocks
              exact hblocked ⟨other, hmem, hblocks⟩
            cases hrow : encodeRun run with
            | error e =>
                simp only [hrow, Option.some.injEq] at h
                subst h
                exact UpsertAdvance.refuse rfl hfree (by simp [hrow])
            | ok row =>
                cases hinsert : insertRun world.store row with
                | error e =>
                    simp only [hrow, hinsert, Option.some.injEq] at h
                    subst h
                    refine UpsertAdvance.refuse rfl hfree ?_
                    intro row' runs returned hrow'
                    cases hrow.symm.trans hrow'
                    simp [hinsert]
                | ok pair =>
                    simp only [hrow, hinsert, Option.some.injEq] at h
                    subst h
                    exact UpsertAdvance.insert rfl hfree hrow hinsert
      | _ => simp [UpsertCall.next] at h
  | select =>
      cases current with
      | executed row returned =>
          cases returned with
          | none =>
              simp only [UpsertCall.next] at h
              cases hselect : selectRunId run world.store.runs with
              | error e =>
                  simp only [hselect, Option.some.injEq] at h
                  subst h
                  exact UpsertAdvance.lose rfl hselect
              | ok id =>
                  simp only [hselect, Option.some.injEq] at h
                  subst h
                  exact UpsertAdvance.select rfl hselect
          | some pair => simp [UpsertCall.next] at h
      | _ => simp [UpsertCall.next] at h
  | commit =>
      cases current with
      | executed row returned =>
          rcases returned with _ | ⟨id, _ | _⟩
          · simp [UpsertCall.next] at h
          · simp only [UpsertCall.next, Option.some.injEq] at h
            subst h
            exact UpsertAdvance.commitUpdated rfl
          · simp only [UpsertCall.next, Option.some.injEq] at h
            subst h
            exact UpsertAdvance.commitInserted rfl
      | found id =>
          simp only [UpsertCall.next, Option.some.injEq] at h
          subst h
          exact UpsertAdvance.commitUnchanged rfl
      | _ => simp [UpsertCall.next] at h
  | fail detail =>
      cases current with
      | returned result => simp [UpsertCall.next] at h
      | _ =>
          simp only [UpsertCall.next, Option.some.injEq] at h
          subst h
          exact UpsertAdvance.fail rfl

/-- A step is the beginning of a call or a statement of one. -/
theorem upsertStep_cases {world world' : UpsertWorld} {step : UpsertStep}
    (h : upsertStep world step = some world') :
    (∃ run, step = .start run ∧
        world' = { world with calls := world.calls ++ [{ run := run, phase := .begun }] }) ∨
      ∃ i action call phase runs', step = .act i action ∧ world.calls[i]? = some call ∧
        UpsertAdvance world call action phase runs' ∧
        world' =
          { store := { world.store with runs := runs' }
            calls := world.calls.set i { call with phase := phase } } := by
  cases step with
  | start run =>
      simp only [upsertStep, Option.some.injEq] at h
      exact Or.inl ⟨run, rfl, h.symm⟩
  | act i action =>
      cases hcall : world.calls[i]? with
      | none => simp [upsertStep, hcall] at h
      | some call =>
          cases hnext : call.next world action with
          | none => simp [upsertStep, hcall, hnext] at h
          | some phase =>
              simp only [upsertStep, hcall, hnext, Option.some.injEq] at h
              exact Or.inr ⟨i, action, call, phase, _, rfl, hcall, upsertAdvance_of_next hnext,
                h.symm⟩

/-- The call that takes a step has not returned. -/
theorem UpsertAdvance.not_returned {world : UpsertWorld} {call : UpsertCall} {action : UpsertAction}
    {phase : UpsertPhase} {runs' : List StoredRun}
    (h : UpsertAdvance world call action phase runs') : call.IsReturned = false := by
  cases h <;> simp_all [UpsertCall.IsReturned]

/-- A call comes to hold the row when no other does, or holds it already. -/
theorem UpsertAdvance.holder {world : UpsertWorld} {call : UpsertCall} {action : UpsertAction}
    {phase : UpsertPhase} {runs' : List StoredRun} (h : UpsertAdvance world call action phase runs')
    (hlock : ({ call with phase := phase } : UpsertCall).HoldsLock = true) :
    (∀ other ∈ world.calls, ¬other.Blocks call.run) ∨ call.HoldsLock = true := by
  cases h with
  | insert _ hfree _ _ => exact Or.inl hfree
  | select hphase _ => exact Or.inr (by simp [UpsertCall.HoldsLock, hphase])
  | _ => simp [UpsertCall.HoldsLock] at hlock

/-! ## One row -/

/-- The rows under an external identity. -/
def rowsUnder (identity : TenantId × String × String) (runs : List StoredRun) : List StoredRun :=
  runs.filter fun row => row.identity = identity

theorem findIdentity_eq_head? (identity : TenantId × String × String) (runs : List StoredRun) :
    findIdentity identity runs = (rowsUnder identity runs).head? :=
  List.head?_filter.symm

theorem rowsUnder_of_findIdentity {identity : TenantId × String × String} {runs : List StoredRun}
    (h : findIdentity identity runs = none) : rowsUnder identity runs = [] := by
  rw [findIdentity_eq_head?] at h
  exact List.head?_eq_none_iff.1 h

theorem rowsUnder_updateProgress {row : StoredRun} {runs : List StoredRun} :
    rowsUnder row.identity (updateProgress row runs) =
      (rowsUnder row.identity runs).map fun existing => existing.setProgress row := by
  induction runs with
  | nil => rfl
  | cons first rest ih =>
      simp only [rowsUnder, updateProgress] at ih ⊢
      by_cases hfirst : first.identity = row.identity
      · simp [hfirst, ih]
      · simp [hfirst, ih]

/-- Nobody has stored the run. -/
structure Unborn (store : GraphStore) (world : UpsertWorld) : Prop where
  same : world.store = store
  notOk : ∀ i call outcome, world.HasCall i call → call.phase ≠ .returned (.ok outcome)
  pending : ∀ i call, world.HasCall i call → call.HoldsLock = true →
    ∃ row, encodeRun call.run = .ok row ∧ call.phase = .executed row (some (row.id, true))

/-- The run is stored, by the inserter. -/
structure Born (identity : TenantId × String × String) (world : UpsertWorld) (row : StoredRun)
    (inserter : Nat) : Prop where
  only : rowsUnder identity world.store.runs = [row]
  inserted : ∃ call bound, world.HasCall inserter call ∧
    call.phase = .returned (.ok (.inserted row.id)) ∧ encodeRun call.run = .ok bound ∧
      row.attributedCost = bound.attributedCost ∧
        row.attributedCostCurrency = bound.attributedCostCurrency
  outcomes : ∀ i call outcome, world.HasCall i call →
    call.phase = .returned (.ok outcome) →
      outcome.runId = row.id ∧ (outcome.isNew = true → i = inserter)
  pending : ∀ i call, world.HasCall i call → call.HoldsLock = true →
    ∃ bound, encodeRun call.run = .ok bound ∧
      (call.phase = .executed bound none ∨ call.phase = .executed bound (some (row.id, false)) ∨
        call.phase = .found row.id)

/-- What holds of every world that the calls for one identity lead to. -/
structure RaceOk (store : GraphStore) (identity : TenantId × String × String)
    (world : UpsertWorld) : Prop where
  one : ∀ i call, world.HasCall i call → call.run.identity = identity
  alone : ∀ i j call other, world.HasCall i call → world.HasCall j other →
    call.HoldsLock = true → other.HoldsLock = true → i = j
  experiments : world.store.experiments = store.experiments
  row : Unborn store world ∨ ∃ row inserter, Born identity world row inserter

theorem raceOk_start (store : GraphStore) (identity : TenantId × String × String) :
    RaceOk store identity (upsertMachine store).start where
  one := by simp [upsertMachine]
  alone := by simp [upsertMachine]
  experiments := rfl
  row := Or.inl ⟨rfl, by simp [upsertMachine], by simp [upsertMachine]⟩

/-- The calls after one of them has begun. -/
theorem getElem?_append_cases {α : Type} {l : List α} {a b : α} {i : Nat}
    (h : (l ++ [a])[i]? = some b) : l[i]? = some b ∨ b = a := by
  by_cases hlt : i < l.length
  · exact Or.inl (by simpa [List.getElem?_append_left hlt] using h)
  · rw [List.getElem?_append_right (not_lt.1 hlt)] at h
    exact Or.inr (List.mem_singleton.1 (List.mem_of_getElem? h))

theorem RaceOk.start {store : GraphStore} {identity : TenantId × String × String}
    {world : UpsertWorld} {run : Run} (h : RaceOk store identity world)
    (hrun : run.identity = identity) :
    RaceOk store identity
      { world with calls := world.calls ++ [{ run := run, phase := .begun }] } := by
  let begun : UpsertCall := { run := run, phase := .begun }
  let world' : UpsertWorld := { world with calls := world.calls ++ [begun] }
  have hkept : ∀ i call, world'.HasCall i call → world.HasCall i call ∨ call = begun :=
    fun i call => getElem?_append_cases
  refine ⟨?_, ?_, h.experiments, ?_⟩
  · intro i call hcall
    rcases hkept i call hcall with hold | rfl
    · exact h.one i call hold
    · exact hrun
  · intro i j call other hcall hother hlock hlock'
    rcases hkept i call hcall with hold | rfl
    · rcases hkept j other hother with hold' | rfl
      · exact h.alone i j call other hold hold' hlock hlock'
      · cases hlock'
    · cases hlock
  · rcases h.row with hunborn | ⟨row, inserter, hborn⟩
    · refine Or.inl ⟨hunborn.same, ?_, ?_⟩
      · intro i call outcome hcall
        rcases hkept i call hcall with hold | rfl
        · exact hunborn.notOk i call outcome hold
        · simp
      · intro i call hcall hlock
        rcases hkept i call hcall with hold | rfl
        · exact hunborn.pending i call hold hlock
        · cases hlock
    · refine Or.inr ⟨row, inserter, hborn.only, ?_, ?_, ?_⟩
      · rcases hborn.inserted with ⟨call, bound, hcall, hrest⟩
        have hlt : inserter < world.calls.length := (List.getElem?_eq_some_iff.1 hcall).1
        exact ⟨call, bound, (List.getElem?_append_left hlt).trans hcall, hrest⟩
      · intro i call outcome hcall hphase
        rcases hkept i call hcall with hold | rfl
        · exact hborn.outcomes i call outcome hold hphase
        · cases hphase
      · intro i call hcall hlock
        rcases hkept i call hcall with hold | rfl
        · exact hborn.pending i call hold hlock
        · cases hlock

/-- The call that takes a step is somewhere, and the others stay where they are. -/
theorem hasCall_set_cases {world : UpsertWorld} {store : GraphStore} {i j : Nat}
    {call call' : UpsertCall}
    (h : UpsertWorld.HasCall { store := store, calls := world.calls.set i call' } j call) :
    j = i ∧ call = call' ∨ j ≠ i ∧ world.HasCall j call := by
  by_cases hij : j = i
  · subst hij
    rcases getElem?_set_cases h with ⟨-, heq⟩ | hsame
    · exact Or.inl ⟨rfl, heq⟩
    · have hlt : j < world.calls.length := (List.getElem?_eq_some_iff.1 hsame).1
      have hnew : some call' = some call := by
        simpa [UpsertWorld.HasCall, List.getElem?_set, hlt] using h
      exact Or.inl ⟨rfl, (Option.some.inj hnew).symm⟩
  · exact Or.inr ⟨hij, by
      simpa [UpsertWorld.HasCall, List.getElem?_set, Ne.symm hij] using h⟩

section Act

variable {store : GraphStore} {identity : TenantId × String × String} {world : UpsertWorld}
  {i : Nat} {call : UpsertCall} {action : UpsertAction} {phase : UpsertPhase}
  {runs' : List StoredRun}

/-- The world after a statement. -/
def UpsertWorld.advance (world : UpsertWorld) (i : Nat) (call : UpsertCall) (phase : UpsertPhase)
    (runs' : List StoredRun) : UpsertWorld where
  store := { world.store with runs := runs' }
  calls := world.calls.set i { call with phase := phase }

/-- Whoever holds the row after a statement is alone with it. -/
theorem RaceOk.alone_advance (h : RaceOk store identity world) (hcall : world.HasCall i call)
    (hadvance : UpsertAdvance world call action phase runs') :
    ∀ j k other other', (world.advance i call phase runs').HasCall j other →
      (world.advance i call phase runs').HasCall k other' →
      other.HoldsLock = true → other'.HoldsLock = true → j = k := by
  -- No other call holds the row if the one that takes the step does afterwards.
  have hnew : ({ call with phase := phase } : UpsertCall).HoldsLock = true →
      ∀ j other, world.HasCall j other → other.HoldsLock = true → j = i := by
    intro hlock j other hother hlock'
    rcases hadvance.holder hlock with hfree | hheld
    · have hblocks : other.Blocks call.run :=
        ⟨hlock', Or.inl ((h.one j other hother).trans (h.one i call hcall).symm)⟩
      exact absurd hblocks (hfree other (List.mem_of_getElem? hother))
    · exact h.alone j i other call hother hcall hlock' hheld
  intro j k other other' hj hk hlock hlock'
  rcases hasCall_set_cases hj with ⟨rfl, rfl⟩ | ⟨-, hj'⟩
  · rcases hasCall_set_cases hk with ⟨rfl, -⟩ | ⟨-, hk'⟩
    · rfl
    · exact (hnew hlock k other' hk' hlock').symm
  · rcases hasCall_set_cases hk with ⟨rfl, rfl⟩ | ⟨-, hk'⟩
    · exact hnew hlock' j other hj' hlock
    · exact h.alone j k other other' hj' hk' hlock hlock'

/-- A statement that neither stores the run nor succeeds leaves an unborn run unborn. -/
theorem Unborn.advance (h : Unborn store world)
    (hruns : runs' = world.store.runs) (hok : ∀ outcome, phase ≠ .returned (.ok outcome))
    (hpending : ({ call with phase := phase } : UpsertCall).HoldsLock = true →
      ∃ row, encodeRun call.run = .ok row ∧ phase = .executed row (some (row.id, true))) :
    Unborn store (world.advance i call phase runs') where
  same := by
    subst hruns
    exact h.same
  notOk := by
    intro j other outcome hother
    rcases hasCall_set_cases hother with ⟨rfl, rfl⟩ | ⟨-, hother⟩
    · exact hok outcome
    · exact h.notOk j other outcome hother
  pending := by
    intro j other hother hlock
    rcases hasCall_set_cases hother with ⟨rfl, rfl⟩ | ⟨-, hother⟩
    · exact hpending hlock
    · exact h.pending j other hother hlock

/-- A statement leaves a born run with its inserter if the row keeps its id and its cost. -/
theorem Born.advance {row row' : StoredRun} {inserter : Nat} (h : Born identity world row inserter)
    (hcall : world.HasCall i call) (hopen : call.IsReturned = false)
    (hrows : rowsUnder identity runs' = [row']) (hid : row'.id = row.id)
    (hcost : row'.attributedCost = row.attributedCost)
    (hcurrency : row'.attributedCostCurrency = row.attributedCostCurrency)
    (hok : ∀ outcome, phase = .returned (.ok outcome) →
      outcome.runId = row.id ∧ outcome.isNew = false)
    (hpending : ({ call with phase := phase } : UpsertCall).HoldsLock = true →
      ∃ bound, encodeRun call.run = .ok bound ∧
        (phase = .executed bound none ∨ phase = .executed bound (some (row.id, false)) ∨
          phase = .found row.id)) :
    Born identity (world.advance i call phase runs') row' inserter where
  only := hrows
  inserted := by
    rcases h.inserted with ⟨first, bound, hfirst, hphase, hbound, hcost', hcurrency'⟩
    have hne : i ≠ inserter := by
      rintro rfl
      cases hcall.symm.trans hfirst
      simp [UpsertCall.IsReturned, hphase] at hopen
    exact ⟨first, bound, by simpa [UpsertWorld.HasCall, UpsertWorld.advance, hne] using hfirst,
      by rw [hphase, hid], hbound, hcost.trans hcost', hcurrency.trans hcurrency'⟩
  outcomes := by
    intro j other outcome hother hphase
    rw [hid]
    rcases hasCall_set_cases hother with ⟨rfl, rfl⟩ | ⟨-, hother⟩
    · rcases hok outcome hphase with ⟨hrunId, hnew⟩
      exact ⟨hrunId, by simp [hnew]⟩
    · exact h.outcomes j other outcome hother hphase
  pending := by
    intro j other hother hlock
    rw [hid]
    rcases hasCall_set_cases hother with ⟨rfl, rfl⟩ | ⟨-, hother⟩
    · exact hpending hlock
    · exact h.pending j other hother hlock

theorem RaceOk.one_advance (h : RaceOk store identity world) (hcall : world.HasCall i call) :
    ∀ j other, (world.advance i call phase runs').HasCall j other →
      other.run.identity = identity := by
  intro j other hother
  rcases hasCall_set_cases hother with ⟨rfl, rfl⟩ | ⟨-, hother'⟩
  · exact h.one j call hcall
  · exact h.one j other hother'

/-- While nobody has stored the run, a call inserts it or comes to nothing. -/
theorem Unborn.step (hnone : findIdentity identity store.runs = none)
    (h : RaceOk store identity world) (hunborn : Unborn store world)
    (hcall : world.HasCall i call) (hadvance : UpsertAdvance world call action phase runs') :
    Unborn store (world.advance i call phase runs') ∨
      ∃ row inserter, Born identity (world.advance i call phase runs') row inserter := by
  have hidentity := h.one i call hcall
  cases hadvance with
  | @insert row runs returned hphase hfree hrow hinsert =>
      rcases identity_of_encodeRun hrow with ⟨hrowIdentity, -⟩
      have hnone' : findIdentity row.identity world.store.runs = none := by
        rw [hrowIdentity, hidentity, hunborn.same, hnone]
      -- The table is as it was at the start, so the insert meets no row under the identity.
      refine Or.inl (hunborn.advance rfl (by simp) fun _ => ⟨row, hrow, ?_⟩)
      rcases insertRun_cases hinsert with ⟨existing, hfind, -⟩ | ⟨existing, hfind, -⟩ |
        ⟨-, -, -, -, rfl⟩
      · rw [hnone'] at hfind
        cases hfind
      · rw [hnone'] at hfind
        cases hfind
      · rfl
  | select hphase hselect =>
      rcases hunborn.pending i call hcall (by simp [UpsertCall.HoldsLock, hphase]) with
        ⟨row, -, hpending⟩
      rw [hphase] at hpending
      cases hpending
  | @commitInserted row id hphase =>
      have hlock : call.HoldsLock = true := by simp [UpsertCall.HoldsLock, hphase]
      rcases hunborn.pending i call hcall hlock with ⟨bound, hbound, hpending⟩
      rw [hphase] at hpending
      cases hpending
      rcases identity_of_encodeRun hbound with ⟨hrowIdentity, -⟩
      have hrows : rowsUnder identity (world.store.runs ++ [row]) = [row] := by
        have hno := rowsUnder_of_findIdentity hnone
        rw [← hunborn.same] at hno
        simp only [rowsUnder] at hno ⊢
        simp [hno, hrowIdentity, hidentity]
      have hlt : i < world.calls.length := (List.getElem?_eq_some_iff.1 hcall).1
      -- The call that commits is the inserter; no other call has succeeded or holds a row.
      refine Or.inr ⟨row, i, hrows, ?_, ?_, ?_⟩
      · exact ⟨{ call with phase := .returned (.ok (.inserted row.id)) }, row,
          by simp [UpsertWorld.HasCall, UpsertWorld.advance, hlt], rfl, hbound, rfl, rfl⟩
      · intro j other outcome hother hreturned
        rcases hasCall_set_cases hother with ⟨rfl, rfl⟩ | ⟨-, hother'⟩
        · cases hreturned
          exact ⟨rfl, fun _ => rfl⟩
        · exact absurd hreturned (hunborn.notOk j other outcome hother')
      · intro j other hother hlock'
        rcases hasCall_set_cases hother with ⟨rfl, rfl⟩ | ⟨hne, hother'⟩
        · cases hlock'
        · exact absurd (h.alone j i other call hother' hcall hlock' hlock) hne
  | commitUpdated hphase =>
      rcases hunborn.pending i call hcall (by simp [UpsertCall.HoldsLock, hphase]) with
        ⟨row, -, hpending⟩
      rw [hphase] at hpending
      cases hpending
  | commitUnchanged hphase =>
      rcases hunborn.pending i call hcall (by simp [UpsertCall.HoldsLock, hphase]) with
        ⟨row, -, hpending⟩
      rw [hphase] at hpending
      cases hpending
  | refuse _ _ _ => exact Or.inl (hunborn.advance rfl (by simp) fun hlock => by cases hlock)
  | lose _ _ => exact Or.inl (hunborn.advance rfl (by simp) fun hlock => by cases hlock)
  | fail _ => exact Or.inl (hunborn.advance rfl (by simp) fun hlock => by cases hlock)

/-- Once the run is stored, a call meets its row. -/
theorem Born.step (h : RaceOk store identity world) {row : StoredRun} {inserter : Nat}
    (hborn : Born identity world row inserter) (hcall : world.HasCall i call)
    (hadvance : UpsertAdvance world call action phase runs') :
    ∃ row' inserter', Born identity (world.advance i call phase runs') row' inserter' := by
  have hidentity := h.one i call hcall
  have hopen := hadvance.not_returned
  have hfind : findIdentity identity world.store.runs = some row := by
    rw [findIdentity_eq_head?, hborn.only]
    rfl
  -- Every statement but an update leaves the rows as they are.
  have hkeep : ∀ {phase : UpsertPhase},
      (∀ outcome, phase = .returned (.ok outcome) → outcome.runId = row.id ∧ outcome.isNew = false) →
      (({ call with phase := phase } : UpsertCall).HoldsLock = true →
        ∃ bound, encodeRun call.run = .ok bound ∧
          (phase = .executed bound none ∨ phase = .executed bound (some (row.id, false)) ∨
            phase = .found row.id)) →
      ∃ row' inserter', Born identity (world.advance i call phase world.store.runs) row' inserter' :=
    fun hok hpending =>
      ⟨row, inserter, hborn.advance hcall hopen hborn.only rfl rfl rfl hok hpending⟩
  cases hadvance with
  | @insert bound runs returned hphase hfree hrow hinsert =>
      refine hkeep (by simp) fun _ => ⟨bound, hrow, ?_⟩
      rcases identity_of_encodeRun hrow with ⟨hrowIdentity, -⟩
      rw [← hidentity, ← hrowIdentity] at hfind
      rcases insertRun_cases hinsert with ⟨existing, -, -, -, rfl⟩ |
        ⟨existing, hexisting, -, -, rfl⟩ | ⟨hnone, -⟩
      · exact Or.inl rfl
      · cases hfind.symm.trans hexisting
        exact Or.inr (Or.inl rfl)
      · rw [hnone] at hfind
        cases hfind
  | @select bound id hphase hselect =>
      refine hkeep (by simp) fun _ => ?_
      rcases hborn.pending i call hcall (by simp [UpsertCall.HoldsLock, hphase]) with
        ⟨bound', hbound, -⟩
      rw [← hidentity] at hfind
      -- The lookup by external reference returns the row that is there.
      have hid : row.id = id := by simpa [selectRunId, hfind] using hselect
      exact ⟨bound', hbound, Or.inr (Or.inr (by rw [hid]))⟩
  | commitInserted hphase =>
      rcases hborn.pending i call hcall (by simp [UpsertCall.HoldsLock, hphase]) with
        ⟨bound, -, hpending⟩
      rw [hphase] at hpending
      simp at hpending
  | @commitUpdated bound id hphase =>
      rcases hborn.pending i call hcall (by simp [UpsertCall.HoldsLock, hphase]) with
        ⟨bound', hbound, hpending⟩
      rw [hphase] at hpending
      have heq : bound = bound' ∧ id = row.id := by simpa using hpending
      rcases heq with ⟨rfl, rfl⟩
      rcases identity_of_encodeRun hbound with ⟨hrowIdentity, -⟩
      have hrows : rowsUnder identity (updateProgress bound world.store.runs) =
          [row.setProgress bound] := by
        have honly := hborn.only
        rw [← hidentity, ← hrowIdentity] at honly ⊢
        rw [rowsUnder_updateProgress, honly]
        rfl
      refine ⟨row.setProgress bound, inserter, hborn.advance hcall hopen hrows rfl rfl rfl ?_ ?_⟩
      · intro outcome hreturned
        cases hreturned
        exact ⟨rfl, rfl⟩
      · intro hlock
        cases hlock
  | @commitUnchanged id hphase =>
      rcases hborn.pending i call hcall (by simp [UpsertCall.HoldsLock, hphase]) with
        ⟨bound, -, hpending⟩
      rw [hphase] at hpending
      have hid : id = row.id := by simpa using hpending
      refine hkeep ?_ fun hlock => by cases hlock
      intro outcome hreturned
      cases hreturned
      exact ⟨hid, rfl⟩
  | refuse _ _ _ => exact hkeep (by simp) fun hlock => by cases hlock
  | lose _ _ => exact hkeep (by simp) fun hlock => by cases hlock
  | fail _ => exact hkeep (by simp) fun hlock => by cases hlock

end Act

/-- Every step of the calls for one identity keeps the race as it should be. -/
theorem raceOk_step {store : GraphStore} {identity : TenantId × String × String}
    (hnone : findIdentity identity store.runs = none) {world world' : UpsertWorld}
    {step : UpsertStep} (hone : ∀ run, step = .start run → run.identity = identity)
    (h : RaceOk store identity world) (hstep : upsertStep world step = some world') :
    RaceOk store identity world' := by
  rcases upsertStep_cases hstep with ⟨run, rfl, rfl⟩ |
    ⟨i, action, call, phase, runs', -, hcall, hadvance, rfl⟩
  · exact h.start (hone run rfl)
  · refine ⟨h.one_advance hcall, h.alone_advance hcall hadvance, h.experiments, ?_⟩
    rcases h.row with hunborn | ⟨row, inserter, hborn⟩
    · exact hunborn.step hnone h hcall hadvance
    · exact Or.inr (hborn.step h hcall hadvance)

/-! ## What becomes of one call -/

/-- The call has found nothing to write, or has failed. -/
def UpsertPhase.Silent : UpsertPhase → Prop
  | .executed _ none => True
  | .found _ => True
  | .returned (.ok (.unchanged _)) => True
  | .returned (.error _) => True
  | _ => False

/-- The call has found something to write, or has failed. -/
def UpsertPhase.Writing : UpsertPhase → Prop
  | .executed _ (some _) => True
  | .returned (.ok (.inserted _)) => True
  | .returned (.ok (.updated _)) => True
  | .returned (.error _) => True
  | _ => False

theorem UpsertAdvance.silent {world : UpsertWorld} {call : UpsertCall} {action : UpsertAction}
    {phase : UpsertPhase} {runs' : List StoredRun} (h : UpsertAdvance world call action phase runs')
    (hsilent : call.phase.Silent) : phase.Silent := by
  cases h <;> simp_all [UpsertPhase.Silent]

theorem UpsertAdvance.writing {world : UpsertWorld} {call : UpsertCall} {action : UpsertAction}
    {phase : UpsertPhase} {runs' : List StoredRun} (h : UpsertAdvance world call action phase runs')
    (hwriting : call.phase.Writing) : phase.Writing := by
  cases h <;> simp_all [UpsertPhase.Writing]

/-- What a call's own statements keep of its phase, a run keeps. -/
theorem hasCall_of_run {store : GraphStore} {i : Nat} {run : Run} (S : UpsertPhase → Prop)
    (hS : ∀ world call action phase runs', UpsertAdvance world call action phase runs' →
      S call.phase → S phase) {labels : List UpsertStep} {world world' : UpsertWorld}
    (h : ∃ phase, world.HasCall i { run := run, phase := phase } ∧ S phase)
    (hrun : (upsertMachine store).run world labels = some world') :
    ∃ phase, world'.HasCall i { run := run, phase := phase } ∧ S phase := by
  refine (upsertMachine store).run_preserves
    (fun w => ∃ phase, w.HasCall i { run := run, phase := phase } ∧ S phase) (fun _ => True) ?_
    labels world world' (fun _ _ => trivial) h hrun
  rintro w label w' - ⟨phase, hcall, hphase⟩ hstep
  rcases upsertStep_cases hstep with ⟨other, rfl, rfl⟩ |
    ⟨j, action, call, phase', runs', rfl, hj, hadvance, rfl⟩
  · have hlt : i < w.calls.length := (List.getElem?_eq_some_iff.1 hcall).1
    exact ⟨phase, (List.getElem?_append_left hlt).trans hcall, hphase⟩
  · by_cases hij : j = i
    · subst hij
      cases hj.symm.trans hcall
      have hlt : j < w.calls.length := (List.getElem?_eq_some_iff.1 hcall).1
      exact ⟨phase', by simp [UpsertWorld.HasCall, hlt], hS _ _ _ _ _ hadvance hphase⟩
    · exact ⟨phase, by simpa [UpsertWorld.HasCall, List.getElem?_set, hij] using hcall, hphase⟩

/-- The values that the tables of a store refuse for a run they do not hold. -/
def RefusedBy (store : GraphStore) (run : Run) : Prop :=
  (∃ e, encodeRun run = .error e) ∨ (∃ other ∈ store.runs, other.id = run.id) ∨
    ¬store.HasExperiment run.experimentId

/-- Where the row is there, nothing is refused. -/
theorem exists_insertRun_of_findIdentity {store : GraphStore} {row existing : StoredRun}
    (h : findIdentity row.identity store.runs = some existing) :
    ∃ runs returned, insertRun store row = .ok (runs, returned) := by
  rw [insertRun_of_findIdentity h]
  split_ifs
  · exact ⟨_, _, rfl⟩
  · exact ⟨_, _, rfl⟩

theorem refusedBy_of_insertRun {store : GraphStore} {run : Run} {row : StoredRun}
    (hrow : encodeRun run = .ok row)
    (h : ∀ runs returned, insertRun store row ≠ .ok (runs, returned)) : RefusedBy store run := by
  rcases identity_of_encodeRun hrow with ⟨-, hid, -, hexperiment⟩
  by_cases hclash : ∃ other ∈ store.runs, other.id = row.id
  · exact Or.inr (Or.inl (hid ▸ hclash))
  · refine Or.inr (Or.inr fun hexp => ?_)
    rw [← hexperiment] at hexp
    cases hfind : findIdentity row.identity store.runs with
    | none =>
        have hnew : ∀ other ∈ store.runs, other.id ≠ row.id := fun other hmem heq =>
          hclash ⟨other, hmem, heq⟩
        exact h _ _ (insertRun_of_new hfind hnew hexp)
    | some existing =>
        rcases exists_insertRun_of_findIdentity hfind with ⟨runs, returned, hinsert⟩
        exact h _ _ hinsert

/-- A call fails because the connection does or because the tables refuse its values. -/
theorem refusedBy_of_advance {store : GraphStore} {identity : TenantId × String × String}
    {world : UpsertWorld} (hrace : RaceOk store identity world) {i : Nat} {call : UpsertCall}
    {action : UpsertAction} {runs' : List StoredRun} {e : ResearchStoreError}
    (hcall : world.HasCall i call)
    (h : UpsertAdvance world call action (.returned (.error e)) runs')
    (haction : ∀ detail, action ≠ .fail detail) : RefusedBy store call.run := by
  have hidentity := hrace.one i call hcall
  cases h with
  | refuse hphase _ hrefused =>
      cases hrow : encodeRun call.run with
      | error detail => exact Or.inl ⟨detail, hrow⟩
      | ok row =>
          rcases identity_of_encodeRun hrow with ⟨hrowIdentity, -⟩
          rcases hrace.row with hunborn | ⟨stored, inserter, hborn⟩
          · rw [hunborn.same] at hrefused
            exact refusedBy_of_insertRun hrow fun runs returned => hrefused row runs returned hrow
          · -- The row is there, so the insert goes through.
            have hfind : findIdentity row.identity world.store.runs = some stored := by
              rw [hrowIdentity, hidentity, findIdentity_eq_head?, hborn.only]
              rfl
            rcases exists_insertRun_of_findIdentity hfind with ⟨runs, returned, hinsert⟩
            exact absurd hinsert (hrefused row runs returned hrow)
  | lose hphase hselect =>
      have hlock : call.HoldsLock = true := by simp [UpsertCall.HoldsLock, hphase]
      rcases hrace.row with hunborn | ⟨stored, inserter, hborn⟩
      · rcases hunborn.pending i call hcall hlock with ⟨row, -, hpending⟩
        rw [hphase] at hpending
        cases hpending
      · have hfind : findIdentity call.run.identity world.store.runs = some stored := by
          rw [hidentity, findIdentity_eq_head?, hborn.only]
          rfl
        simp [selectRunId, hfind] at hselect
  | fail _ => exact absurd rfl (haction _)

/-! ## Every call can return -/

/-- How many statements the call has left. -/
def UpsertCall.remaining (self : UpsertCall) : ℕ :=
  match self.phase with
  | .begun => 3
  | .executed _ none => 2
  | .executed _ (some _) => 1
  | .found _ => 1
  | .returned _ => 0

def UpsertWorld.remaining (self : UpsertWorld) : ℕ := (self.calls.map UpsertCall.remaining).sum

/-- A step that no error of the connection causes. -/
def UpsertStep.IsSound : UpsertStep → Prop
  | .act _ (.fail _) => False
  | .act _ _ => True
  | .start _ => False

/-- A statement brings its call closer to its end. -/
theorem UpsertAdvance.remaining_lt {world : UpsertWorld} {call : UpsertCall} {action : UpsertAction}
    {phase : UpsertPhase} {runs' : List StoredRun}
    (h : UpsertAdvance world call action phase runs') :
    ({ call with phase := phase } : UpsertCall).remaining < call.remaining := by
  cases h with
  | @insert row runs returned hphase _ _ _ =>
      cases returned <;> simp [UpsertCall.remaining, hphase]
  | fail hopen =>
      rcases call with ⟨run, _ | ⟨row, _ | pair⟩ | id | result⟩ <;>
        simp_all [UpsertCall.remaining, UpsertCall.IsReturned]
  | _ => simp_all [UpsertCall.remaining]

/-- The call that holds the row is not held up. -/
theorem next_of_holdsLock (world : UpsertWorld) {call : UpsertCall} (h : call.HoldsLock = true) :
    ∃ action phase, (∀ detail, action ≠ .fail detail) ∧ call.next world action = some phase := by
  rcases call with ⟨run, _ | ⟨row, _ | ⟨id, _ | _⟩⟩ | id | result⟩
  · cases h
  · cases hselect : selectRunId run world.store.runs with
    | error e =>
        exact ⟨.select, .returned (.error (.backend e)), by simp, by simp [UpsertCall.next, hselect]⟩
    | ok id => exact ⟨.select, .found id, by simp, by simp [UpsertCall.next, hselect]⟩
  · exact ⟨.commit, _, by simp, rfl⟩
  · exact ⟨.commit, _, by simp, rfl⟩
  · exact ⟨.commit, _, by simp, rfl⟩
  · cases h

/-- Where no call holds a row, an insert is not held up. -/
theorem next_of_begun {world : UpsertWorld} (run : Run)
    (hfree : ∀ other ∈ world.calls, other.HoldsLock = false) :
    ∃ phase, (UpsertCall.mk run .begun).next world .insert = some phase := by
  have hblocked : ¬∃ other ∈ world.calls, other.Blocks run := by
    rintro ⟨other, hmem, hlock, -⟩
    simp [hfree other hmem] at hlock
  cases hrow : encodeRun run with
  | error e => simp [UpsertCall.next, hblocked, hrow]
  | ok row =>
      cases hinsert : insertRun world.store row with
      | error e => simp [UpsertCall.next, hblocked, hrow, hinsert]
      | ok pair => simp [UpsertCall.next, hblocked, hrow, hinsert]

/-- As long as a call is open, some call can do its next statement. -/
theorem exists_upsertStep {world : UpsertWorld} (h : ¬∀ call ∈ world.calls, call.IsReturned = true) :
    ∃ step world', step.IsSound ∧ upsertStep world step = some world' ∧
      world'.remaining < world.remaining := by
  -- The call that holds a row goes first; without one, any open call.
  have hgo : ∃ i call action phase, world.HasCall i call ∧ (∀ detail, action ≠ .fail detail) ∧
      call.next world action = some phase := by
    by_cases hheld : ∃ call ∈ world.calls, call.HoldsLock = true
    · rcases hheld with ⟨call, hmem, hlock⟩
      rcases List.mem_iff_getElem?.1 hmem with ⟨i, hcall⟩
      rcases next_of_holdsLock world hlock with ⟨action, phase, hsound, hnext⟩
      exact ⟨i, call, action, phase, hcall, hsound, hnext⟩
    · have hfree : ∀ other ∈ world.calls, other.HoldsLock = false := by simpa using hheld
      rcases not_forall.1 h with ⟨call, hcall⟩
      rcases Classical.not_imp.1 hcall with ⟨hmem, hopen⟩
      rcases List.mem_iff_getElem?.1 hmem with ⟨i, hcall⟩
      have hbegun : call = ⟨call.run, .begun⟩ := by
        have hunlocked := hfree call hmem
        rcases call with ⟨run, _ | _ | _ | _⟩ <;>
          simp_all [UpsertCall.IsReturned, UpsertCall.HoldsLock]
      rcases next_of_begun call.run hfree with ⟨phase, hnext⟩
      rw [← hbegun] at hnext
      exact ⟨i, call, .insert, phase, hcall, by simp, hnext⟩
  rcases hgo with ⟨i, call, action, phase, hcall, hsound, hnext⟩
  have hstep : upsertStep world (.act i action) =
      some (world.advance i call phase (call.publish action world.store.runs)) := by
    simp [upsertStep, hcall, hnext, UpsertWorld.advance]
  refine ⟨.act i action, _, ?_, hstep, ?_⟩
  · cases action with
    | fail detail => exact absurd rfl (hsound detail)
    | _ => trivial
  · simp only [UpsertWorld.remaining, UpsertWorld.advance, List.map_set]
    exact sum_set_lt (by simp [hcall]) (upsertAdvance_of_next hnext).remaining_lt

/-! ## Deliveries of one run -/

def UpsertWorld.Succeeds (self : UpsertWorld) (i : Nat) (run : Run) (outcome : RunUpsert) : Prop :=
  self.HasCall i { run := run, phase := .returned (.ok outcome) }

def UpsertWorld.Fails (self : UpsertWorld) (i : Nat) (run : Run) : Prop :=
  ∃ e, self.HasCall i { run := run, phase := .returned (.error e) }

/-- What the deliveries of one run come to, in the order of `steps` that led to `world`. -/
structure RaceOutcome (store : GraphStore) (identity : TenantId × String × String)
    (steps : List UpsertStep) (world : UpsertWorld) : Prop where
  /-- One call inserts, as soon as any has succeeded. -/
  inserted : ∀ i run outcome, world.Succeeds i run outcome →
    ∃! inserter, ∃ run id, world.Succeeds inserter run (.inserted id)
  /-- There is one row then, and every call returns its id. -/
  oneRow : ∀ i run outcome, world.Succeeds i run outcome →
    ∃ row, rowsUnder identity world.store.runs = [row] ∧
      ∀ j other outcome', world.Succeeds j other outcome' → outcome'.runId = row.id
  /-- Without a call that has succeeded there is none. -/
  noRow : (∀ i run outcome, ¬world.Succeeds i run outcome) → rowsUnder identity world.store.runs = []
  /-- A call returns `Unchanged` when the row that its insert met is up to date already. -/
  unchanged : ∀ i run outcome, world.Succeeds i run outcome →
    .act i .insert ∈ steps ∧
      ∀ before after mid, steps = before ++ .act i .insert :: after →
        (upsertMachine store).run (upsertMachine store).start before = some mid →
        ((∃ id, outcome = .unchanged id) ↔
          ∃ met bound, findIdentity identity mid.store.runs = some met ∧
            encodeRun run = .ok bound ∧ met.progress = bound.progress)
  /-- The cost is the one that the inserting call brought. -/
  cost : ∀ row ∈ rowsUnder identity world.store.runs,
    ∃ inserter run bound, world.Succeeds inserter run (.inserted row.id) ∧
      encodeRun run = .ok bound ∧ row.attributedCost = bound.attributedCost ∧
      row.attributedCostCurrency = bound.attributedCostCurrency
  /-- A call fails because the connection does or because the tables refuse its values. -/
  errors : ∀ i run, world.Fails i run →
    RefusedBy store run ∨ ∃ detail, .act i (.fail detail) ∈ steps
  /-- The calls do not wait for each other for ever. -/
  completes : ∃ after world', (∀ step ∈ after, step.IsSound) ∧
    (upsertMachine store).run world after = some world' ∧
      ∀ call ∈ world'.calls, call.IsReturned = true

section Deliveries

variable {store : GraphStore} {identity : TenantId × String × String} {steps : List UpsertStep}
  {world : UpsertWorld}

theorem raceOk_of_run (hnone : findIdentity identity store.runs = none)
    (hone : ∀ run, .start run ∈ steps → run.identity = identity)
    (hrun : (upsertMachine store).run (upsertMachine store).start steps = some world) :
    RaceOk store identity world :=
  (upsertMachine store).run_preserves (RaceOk store identity)
    (fun step => ∀ run, step = .start run → run.identity = identity)
    (fun _ _ _ hstep h hnext => raceOk_step hnone hstep h hnext) steps _ _
    (fun _ hmem run heq => hone run (heq ▸ hmem)) (raceOk_start store identity) hrun

/-- Once a call has succeeded the run is stored. -/
theorem RaceOk.born (h : RaceOk store identity world) {i : Nat} {run : Run} {outcome : RunUpsert}
    (hsucceeds : world.Succeeds i run outcome) :
    ∃ row inserter, Born identity world row inserter := by
  rcases h.row with hunborn | hborn
  · exact absurd rfl (hunborn.notOk i _ outcome hsucceeds)
  · exact hborn

/-- A call that has succeeded has gone through its insert. -/
theorem insert_mem_of_succeeds {i : Nat} {run : Run} {outcome : RunUpsert}
    (hrun : (upsertMachine store).run (upsertMachine store).start steps = some world)
    (h : world.Succeeds i run outcome) : .act i .insert ∈ steps := by
  -- Without its insert a call stays where it began, unless it fails.
  by_contra hnot
  have hstill : ∀ call, world.HasCall i call →
      call.phase = .begun ∨ ∃ e, call.phase = .returned (.error e) := by
    refine (upsertMachine store).run_preserves
      (fun w => ∀ call, w.HasCall i call →
        call.phase = .begun ∨ ∃ e, call.phase = .returned (.error e))
      (fun step => step ≠ .act i .insert) ?_ steps _ _ ?_ (by simp [upsertMachine]) hrun
    · intro w step w' hstep hw hnext call hcall
      rcases upsertStep_cases hnext with ⟨other, rfl, rfl⟩ |
        ⟨j, action, before, phase, runs', rfl, hj, hadvance, rfl⟩
      · rcases getElem?_append_cases hcall with hold | rfl
        · exact hw call hold
        · exact Or.inl rfl
      · rcases hasCall_set_cases hcall with ⟨rfl, rfl⟩ | ⟨-, hold⟩
        · rcases hw before hj with hbegun | ⟨e, hreturned⟩
          · cases hadvance <;> simp_all
          · have hopen := hadvance.not_returned
            simp [UpsertCall.IsReturned, hreturned] at hopen
        · exact hw call hold
    · intro step hmem heq
      exact hnot (heq ▸ hmem)
  rcases hstill _ h with hbegun | ⟨e, hreturned⟩
  · cases hbegun
  · cases hreturned

/-- A call is unchanged when the row that its insert meets is up to date already. -/
theorem unchanged_iff {i : Nat} {run : Run} {outcome : RunUpsert} {after : List UpsertStep}
    {mid : UpsertWorld} (hmid : RaceOk store identity mid)
    (hrun : (upsertMachine store).run mid (.act i .insert :: after) = some world)
    (h : world.Succeeds i run outcome) :
    (∃ id, outcome = .unchanged id) ↔
      ∃ met bound, findIdentity identity mid.store.runs = some met ∧
        encodeRun run = .ok bound ∧ met.progress = bound.progress := by
  rw [Machine.run_cons] at hrun
  rcases Option.bind_eq_some_iff.1 hrun with ⟨next, hnext, hrest⟩
  have hstep : upsertStep mid (.act i .insert) = some next := hnext
  rcases upsertStep_cases hstep with ⟨other, heq, -⟩ |
    ⟨j, action, call, phase, runs', heq, hcall, hadvance, rfl⟩
  · cases heq
  · cases heq
    have hlt : i < mid.calls.length := (List.getElem?_eq_some_iff.1 hcall).1
    have hplace : (mid.calls.set i { call with phase := phase })[i]? =
        some { run := call.run, phase := phase } := by simp [hlt]
    -- What the insert finds decides what the call returns.
    have hend : ∀ S : UpsertPhase → Prop, (∀ world call action phase runs',
        UpsertAdvance world call action phase runs' → S call.phase → S phase) → S phase →
        call.run = run ∧ S (.returned (.ok outcome)) := by
      intro S hS hphase
      rcases hasCall_of_run S hS ⟨phase, hplace, hphase⟩ hrest with ⟨last, hlast, hSlast⟩
      have heq := hlast.symm.trans h
      simp only [Option.some.injEq, UpsertCall.mk.injEq] at heq
      exact ⟨heq.1, heq.2 ▸ hSlast⟩
    cases hadvance with
    | @insert row runs returned hphase hfree hrow hinsert =>
        rcases identity_of_encodeRun hrow with ⟨hrowIdentity, -⟩
        rw [hmid.one i call hcall] at hrowIdentity
        rcases insertRun_cases hinsert with ⟨existing, hfind, hsame, -, rfl⟩ |
          ⟨existing, hfind, hdiff, -, rfl⟩ | ⟨hfind, -, -, -, rfl⟩
        · rcases hend UpsertPhase.Silent (fun _ _ _ _ _ => UpsertAdvance.silent) trivial with
            ⟨rfl, hsilent⟩
          rw [hrowIdentity] at hfind
          refine iff_of_true ?_ ⟨existing, row, hfind, hrow, hsame⟩
          cases outcome with
          | unchanged id => exact ⟨id, rfl⟩
          | _ => cases hsilent
        · rcases hend UpsertPhase.Writing (fun _ _ _ _ _ => UpsertAdvance.writing) trivial with
            ⟨rfl, hwriting⟩
          rw [hrowIdentity] at hfind
          refine iff_of_false ?_ ?_
          · rintro ⟨id, rfl⟩
            exact hwriting
          · rintro ⟨met, bound, hmet, hbound, hsame⟩
            cases hfind.symm.trans hmet
            cases hrow.symm.trans hbound
            exact hdiff hsame
        · rcases hend UpsertPhase.Writing (fun _ _ _ _ _ => UpsertAdvance.writing) trivial with
            ⟨rfl, hwriting⟩
          rw [hrowIdentity] at hfind
          refine iff_of_false ?_ ?_
          · rintro ⟨id, rfl⟩
            exact hwriting
          · rintro ⟨met, bound, hmet, -⟩
            cases hfind.symm.trans hmet
    | @refuse e hphase hfree hrefused =>
        have herror := hend (fun phase => ∃ e, phase = .returned (.error e))
          (fun _ call _ _ _ hadvance ⟨e, he⟩ => by
            have hopen := hadvance.not_returned
            simp [UpsertCall.IsReturned, he] at hopen) ⟨e, rfl⟩
        rcases herror.2 with ⟨e, he⟩
        cases he

/-- A call that has failed has met an error of the connection or values that the tables refuse. -/
theorem refusedBy_of_fails {i : Nat} {run : Run} (hnone : findIdentity identity store.runs = none)
    (hone : ∀ run, .start run ∈ steps → run.identity = identity)
    (hrun : (upsertMachine store).run (upsertMachine store).start steps = some world)
    (hfail : ∀ detail, .act i (.fail detail) ∉ steps) (h : world.Fails i run) :
    RefusedBy store run := by
  have hinv : RaceOk store identity world ∧ ∀ run, world.Fails i run → RefusedBy store run := by
    refine (upsertMachine store).run_preserves
      (fun w => RaceOk store identity w ∧ ∀ run, w.Fails i run → RefusedBy store run)
      (fun step => (∀ run, step = .start run → run.identity = identity) ∧
        ∀ detail, step ≠ .act i (.fail detail)) ?_ steps _ _ ?_
      ⟨raceOk_start store identity, by simp [upsertMachine, UpsertWorld.Fails]⟩ hrun
    · rintro w step w' ⟨hstart, hsound⟩ ⟨hrace, hrefused⟩ hnext
      refine ⟨raceOk_step hnone hstart hrace hnext, ?_⟩
      rintro run' ⟨e, hcall⟩
      rcases upsertStep_cases hnext with ⟨other, rfl, rfl⟩ |
        ⟨j, action, before, phase, runs', rfl, hj, hadvance, rfl⟩
      · rcases getElem?_append_cases hcall with hold | hnew
        · exact hrefused run' ⟨e, hold⟩
        · cases hnew
      · rcases hasCall_set_cases hcall with ⟨rfl, heq⟩ | ⟨-, hold⟩
        · cases heq
          exact refusedBy_of_advance hrace hj hadvance fun detail heq => hsound detail (heq ▸ rfl)
        · exact hrefused run' ⟨e, hold⟩
    · intro step hmem
      exact ⟨fun run' heq => hone run' (heq ▸ hmem), fun detail heq => hfail detail (heq ▸ hmem)⟩
  exact hinv.2 run h

/-- Deliveries of one run store it once, whatever their order. -/
theorem raceOutcome_of_run (hnone : findIdentity identity store.runs = none)
    (hone : ∀ run, .start run ∈ steps → run.identity = identity)
    (hrun : (upsertMachine store).run (upsertMachine store).start steps = some world) :
    RaceOutcome store identity steps world := by
  have hrace := raceOk_of_run hnone hone hrun
  constructor
  · intro i run outcome hsucceeds
    rcases hrace.born hsucceeds with ⟨row, inserter, hborn⟩
    rcases hborn.inserted with ⟨⟨first, phase⟩, bound, hcall, rfl, -⟩
    refine ⟨inserter, ⟨first, row.id, hcall⟩, ?_⟩
    rintro j ⟨other, id, hother⟩
    exact (hborn.outcomes j _ _ hother rfl).2 rfl
  · intro i run outcome hsucceeds
    rcases hrace.born hsucceeds with ⟨row, inserter, hborn⟩
    exact ⟨row, hborn.only, fun j other outcome' hother => (hborn.outcomes j _ _ hother rfl).1⟩
  · intro hno
    rcases hrace.row with hunborn | ⟨row, inserter, hborn⟩
    · rw [hunborn.same]
      exact rowsUnder_of_findIdentity hnone
    · rcases hborn.inserted with ⟨⟨first, phase⟩, bound, hcall, rfl, -⟩
      exact absurd hcall (hno inserter first _)
  · intro i run outcome hsucceeds
    refine ⟨insert_mem_of_succeeds hrun hsucceeds, ?_⟩
    rintro before after mid rfl hmid
    have hbefore : RaceOk store identity mid :=
      raceOk_of_run hnone (fun run hmem => hone run (List.mem_append_left _ hmem)) hmid
    rw [Machine.run_append, hmid, Option.bind_some] at hrun
    exact unchanged_iff hbefore hrun hsucceeds
  · intro row hrow
    rcases hrace.row with hunborn | ⟨row', inserter, hborn⟩
    · rw [hunborn.same, rowsUnder_of_findIdentity hnone] at hrow
      cases hrow
    · rw [hborn.only, List.mem_singleton] at hrow
      subst hrow
      rcases hborn.inserted with ⟨⟨first, phase⟩, bound, hcall, rfl, hbound, hcost⟩
      exact ⟨inserter, first, bound, hcall, hbound, hcost⟩
  · intro i run hfails
    by_cases hfail : ∃ detail, .act i (.fail detail) ∈ steps
    · exact Or.inr hfail
    · exact Or.inl (refusedBy_of_fails hnone hone hrun (not_exists.1 hfail) hfails)
  · exact (upsertMachine store).exists_run _ _ _ (fun _ => exists_upsertStep) world

end Deliveries

/-! ## Two deliveries -/

/-- What a tracker says of its run, read twice. -/
def deliveredRun (id : RunId) (status : RunStatus) : Run where
  id := id
  tenantId := ⟨1⟩
  experimentId := ⟨2⟩
  externalRef := { source := .wandb, externalId := "acme-ai/llm-pretrain/abc123" }
  status := status
  startedAt := ⟨0⟩
  endedAt := none
  attributedCost := ⟨0, .usd⟩
  functionCode := .rnD
  capitalizationStatus := .pendingReview

def pretraining : GraphStore where
  experiments := [{ id := ⟨2⟩, tenantId := ⟨1⟩, projectId := ⟨3⟩, name := "pretraining" }]
  runs := []

/-- Both calls begin before either inserts. -/
def twoDeliveries : List UpsertStep :=
  [.start (deliveredRun ⟨10⟩ .running), .start (deliveredRun ⟨11⟩ .finished), .act 1 .insert,
    .act 1 .commit, .act 0 .insert, .act 0 .commit]

theorem raceOutcome_twoDeliveries :
    ∃ world, (upsertMachine pretraining).run (upsertMachine pretraining).start twoDeliveries =
        some world ∧
      world.Succeeds 0 (deliveredRun ⟨10⟩ .running) (.updated ⟨11⟩) ∧
      RaceOutcome pretraining (deliveredRun ⟨10⟩ .running).identity twoDeliveries world := by
  have hcalls : ((upsertMachine pretraining).run (upsertMachine pretraining).start
      twoDeliveries).map UpsertWorld.calls =
        some [⟨deliveredRun ⟨10⟩ .running, .returned (.ok (.updated ⟨11⟩))⟩,
          ⟨deliveredRun ⟨11⟩ .finished, .returned (.ok (.inserted ⟨11⟩))⟩] := by
    decide +kernel
  rcases Option.map_eq_some_iff.1 hcalls with ⟨world, hrun, hworld⟩
  refine ⟨world, hrun, by simp [UpsertWorld.Succeeds, UpsertWorld.HasCall, hworld],
    raceOutcome_of_run (by decide) ?_ hrun⟩
  intro run hmem
  have hcase : run = deliveredRun ⟨10⟩ .running ∨ run = deliveredRun ⟨11⟩ .finished := by
    simpa [twoDeliveries] using hmem
  rcases hcase with rfl | rfl <;> rfl

end Falkr
