import Falkr.Infra.ResearchGraph
import Falkr.Lib.Machine

/-!
# RunCost — refreshes of a run's cost that overlap

Any number of `refresh_attributed_cost` calls, each one a transaction of four statements, interleave
with cost upserts and with each other.  At READ COMMITTED a statement sees what was committed before
it, and an `UPDATE` waits for the open transaction that wrote the row last; nothing makes it look
again at the sum it was computed from.

So a call between its `SUM` and its `UPDATE` carries a total that an upsert makes stale, and it may
write this total after another call has written the right one.  `attributedCost_current_iff` says
that nothing else goes wrong.
-/

namespace Falkr

open Lib

/-- Where a call of `refresh_attributed_cost` is. -/
inductive RefreshPhase
  | begun
  | currencyRead (currencyRaw : String) (currency : Currency)
  | summed (attributed : Money ℚ)
  /-- The row is written and locked; the others do not see it yet. -/
  | updated (attributed : Money ℚ) (value : ℚ)
  /-- The transaction is over. -/
  | returned (result : Except ResearchStoreError (Money ℚ))
  deriving DecidableEq

structure RefreshCall where
  tenantId : TenantId
  runId : RunId
  phase : RefreshPhase
  deriving DecidableEq

/-- A statement of a call.  An error of the connection or of a statement rolls the call back. -/
inductive RefreshAction
  | readCurrency
  | readSum
  | update
  | commit
  | fail (error : String)

inductive CostStep
  /-- An upsert that commits, or is rolled back, as a whole. -/
  | upsert (events : List CostEvent) (env : UpsertEnv)
  /-- A call begins; it is known by its place among all calls. -/
  | start (tenantId : TenantId) (runId : RunId)
  | act (call : Nat) (action : RefreshAction)

structure CostWorld where
  /-- The committed rows. -/
  runs : List RunRow
  costEvents : List CostRow
  calls : List RefreshCall

namespace RefreshCall

def IsFor (tenantId : TenantId) (runId : RunId) (self : RefreshCall) : Prop :=
  self.tenantId = tenantId ∧ self.runId = runId

instance (tenantId : TenantId) (runId : RunId) (self : RefreshCall) :
    Decidable (self.IsFor tenantId runId) :=
  inferInstanceAs (Decidable (_ ∧ _))

/-- The call's transaction has written its run's row and is still open. -/
def HoldsLock (self : RefreshCall) : Bool :=
  match self.phase with
  | .updated _ _ => true
  | _ => false

def IsReturned (self : RefreshCall) : Bool :=
  match self.phase with
  | .returned _ => true
  | _ => false

/-- The call has returned `Ok`. -/
def IsOk (self : RefreshCall) : Bool :=
  match self.phase with
  | .returned (.ok _) => true
  | _ => false

end RefreshCall

/-- Some open transaction has written the run's row. -/
def CostWorld.Locked (world : CostWorld) (tenantId : TenantId) (runId : RunId) : Prop :=
  ∃ call ∈ world.calls, call.IsFor tenantId runId ∧ call.HoldsLock = true

instance (world : CostWorld) (tenantId : TenantId) (runId : RunId) :
    Decidable (world.Locked tenantId runId) :=
  inferInstanceAs (Decidable (∃ call ∈ world.calls, _))

section Steps

variable (decodeNumeric : ℚ → Except String ℚ)

/-- The phase after a statement; `none` when another statement is next or the call has to wait. -/
def RefreshCall.next (self : RefreshCall) (world : CostWorld) :
    RefreshAction → Option RefreshPhase
  | .readCurrency =>
      match self.phase with
      | .begun =>
          match Falkr.readCurrency self.tenantId self.runId world.runs with
          | .error e => some (.returned (.error e))
          | .ok (currencyRaw, currency) => some (.currencyRead currencyRaw currency)
      | _ => none
  | .readSum =>
      match self.phase with
      | .currencyRead currencyRaw currency =>
          match readAttributed decodeNumeric self.tenantId self.runId currencyRaw currency
            world.costEvents with
          | .error e => some (.returned (.error e))
          | .ok attributed => some (.summed attributed)
      | _ => none
  | .update =>
      match self.phase with
      | .summed attributed =>
          if world.Locked self.tenantId self.runId then none
          else
            match bindCost attributed with
            | .error e => some (.returned (.error e))
            | .ok value => some (.updated attributed value)
      | _ => none
  | .commit =>
      match self.phase with
      | .updated attributed _ => some (.returned (.ok attributed))
      | _ => none
  | .fail error =>
      match self.phase with
      | .returned _ => none
      | _ => some (.returned (.error (.backend error)))

/-- `runs` after a statement of the call: a commit makes its update visible. -/
def RefreshCall.publish (self : RefreshCall) (action : RefreshAction) (runs : List RunRow) :
    List RunRow :=
  match self.phase, action with
  | .updated _ value, .commit => setCost self.tenantId self.runId value runs
  | _, _ => runs

def costStep (world : CostWorld) : CostStep → Option CostWorld
  | .upsert events env =>
      some { world with costEvents := (upsert world.costEvents events env).1 }
  | .start tenantId runId =>
      some { world with
        calls := world.calls ++ [{ tenantId := tenantId, runId := runId, phase := .begun }] }
  | .act i action =>
      match world.calls[i]? with
      | none => none
      | some call =>
          match call.next decodeNumeric world action with
          | none => none
          | some phase =>
              some
                { runs := call.publish action world.runs
                  costEvents := world.costEvents
                  calls := world.calls.set i { call with phase := phase } }

/-- Refreshes and upserts over given tables. -/
def costMachine (runs : List RunRow) (costEvents : List CostRow) : Machine CostWorld CostStep where
  start := { runs := runs, costEvents := costEvents, calls := [] }
  step := costStep decodeNumeric

end Steps

/-! ## What a step can do -/

section Inversion

variable {decodeNumeric : ℚ → Except String ℚ}

/-- What a statement of a call leads to: the phase of the call and `runs` afterwards. -/
inductive Advance (decodeNumeric : ℚ → Except String ℚ) (world : CostWorld) (call : RefreshCall) :
    RefreshPhase → List RunRow → Prop
  | readCurrency {currencyRaw : String} {currency : Currency} :
      call.phase = .begun →
      Falkr.readCurrency call.tenantId call.runId world.runs = .ok (currencyRaw, currency) →
      Advance decodeNumeric world call (.currencyRead currencyRaw currency) world.runs
  | readSum {currencyRaw : String} {currency : Currency} {attributed : Money ℚ} :
      call.phase = .currencyRead currencyRaw currency →
      readAttributed decodeNumeric call.tenantId call.runId currencyRaw currency
        world.costEvents = .ok attributed →
      Advance decodeNumeric world call (.summed attributed) world.runs
  | update {attributed : Money ℚ} {value : ℚ} :
      call.phase = .summed attributed → ¬world.Locked call.tenantId call.runId →
      bindCost attributed = .ok value →
      Advance decodeNumeric world call (.updated attributed value) world.runs
  | commit {attributed : Money ℚ} {value : ℚ} :
      call.phase = .updated attributed value →
      Advance decodeNumeric world call (.returned (.ok attributed))
        (setCost call.tenantId call.runId value world.runs)
  | fail (error : ResearchStoreError) :
      Advance decodeNumeric world call (.returned (.error error)) world.runs

theorem advance_of_next {world : CostWorld} {call : RefreshCall} {action : RefreshAction}
    {phase : RefreshPhase} (h : call.next decodeNumeric world action = some phase) :
    Advance decodeNumeric world call phase (call.publish action world.runs) := by
  rcases call with ⟨tenantId, runId, current⟩
  cases action with
  | readCurrency =>
      cases current with
      | begun =>
          simp only [RefreshCall.next] at h
          cases hread : Falkr.readCurrency tenantId runId world.runs with
          | error e =>
              simp only [hread, Option.some.injEq] at h
              subst h
              exact Advance.fail e
          | ok read =>
              simp only [hread, Option.some.injEq] at h
              subst h
              exact Advance.readCurrency rfl hread
      | _ => simp [RefreshCall.next] at h
  | readSum =>
      cases current with
      | currencyRead currencyRaw currency =>
          simp only [RefreshCall.next] at h
          cases hsum : readAttributed decodeNumeric tenantId runId currencyRaw currency
              world.costEvents with
          | error e =>
              simp only [hsum, Option.some.injEq] at h
              subst h
              exact Advance.fail e
          | ok attributed =>
              simp only [hsum, Option.some.injEq] at h
              subst h
              exact Advance.readSum rfl hsum
      | _ => simp [RefreshCall.next] at h
  | update =>
      cases current with
      | summed attributed =>
          by_cases hlocked : world.Locked tenantId runId
          · simp [RefreshCall.next, hlocked] at h
          · simp only [RefreshCall.next, hlocked, if_false] at h
            cases hbind : bindCost attributed with
            | error e =>
                simp only [hbind, Option.some.injEq] at h
                subst h
                exact Advance.fail e
            | ok value =>
                simp only [hbind, Option.some.injEq] at h
                subst h
                exact Advance.update rfl hlocked hbind
      | _ => simp [RefreshCall.next] at h
  | commit =>
      cases current with
      | updated attributed value =>
          simp only [RefreshCall.next, Option.some.injEq] at h
          subst h
          exact Advance.commit rfl
      | _ => simp [RefreshCall.next] at h
  | fail error =>
      cases current with
      | returned result => simp [RefreshCall.next] at h
      | _ =>
          simp only [RefreshCall.next, Option.some.injEq] at h
          subst h
          exact Advance.fail (.backend error)

/-- A step is an upsert, a beginning, or a statement of one call. -/
theorem costStep_cases {world world' : CostWorld} {step : CostStep}
    (h : costStep decodeNumeric world step = some world') :
    (∃ events env, step = .upsert events env ∧
        world' = { world with costEvents := (upsert world.costEvents events env).1 }) ∨
      (∃ tenantId runId, step = .start tenantId runId ∧
        world' = { world with
          calls := world.calls ++ [{ tenantId := tenantId, runId := runId, phase := .begun }] }) ∨
      ∃ i call phase runs', world.calls[i]? = some call ∧
        Advance decodeNumeric world call phase runs' ∧
        world' = { world with
          runs := runs', calls := world.calls.set i { call with phase := phase } } := by
  cases step with
  | upsert events env =>
      simp only [costStep, Option.some.injEq] at h
      exact Or.inl ⟨events, env, rfl, h.symm⟩
  | start tenantId runId =>
      simp only [costStep, Option.some.injEq] at h
      exact Or.inr (Or.inl ⟨tenantId, runId, rfl, h.symm⟩)
  | act i action =>
      cases hcall : world.calls[i]? with
      | none => simp [costStep, hcall] at h
      | some call =>
          cases hnext : call.next decodeNumeric world action with
          | none => simp [costStep, hcall, hnext] at h
          | some phase =>
              simp only [costStep, hcall, hnext, Option.some.injEq] at h
              exact Or.inr (Or.inr ⟨i, call, phase, _, hcall, advance_of_next hnext, h.symm⟩)

/-- Where a call of the next world comes from. -/
theorem call_cases {world world' : CostWorld} {step : CostStep} {j : Nat} {call' : RefreshCall}
    (h : costStep decodeNumeric world step = some world') (hcall : world'.calls[j]? = some call') :
    world.calls[j]? = some call' ∨ call'.phase = .begun ∨
      ∃ call phase, world.calls[j]? = some call ∧
        Advance decodeNumeric world call phase world'.runs ∧
        call' = { call with phase := phase } := by
  rcases costStep_cases h with ⟨events, env, -, rfl⟩ | ⟨tenantId, runId, -, rfl⟩ |
    ⟨i, call, phase, runs', hi, hadvance, rfl⟩
  · exact Or.inl hcall
  · by_cases hlt : j < world.calls.length
    · exact Or.inl (by simpa [List.getElem?_append_left hlt] using hcall)
    · have hnew : call' ∈ [RefreshCall.mk tenantId runId .begun] := by
        simp only [List.getElem?_append_right (not_lt.1 hlt)] at hcall
        exact List.mem_of_getElem? hcall
      exact Or.inr (Or.inl (by rw [List.mem_singleton.1 hnew]))
  · rcases getElem?_set_cases hcall with ⟨rfl, rfl⟩ | hsame
    · exact Or.inr (Or.inr ⟨call, phase, hi, hadvance, rfl⟩)
    · exact Or.inl hsame

variable {tenantId : TenantId} {runId : RunId}

theorem Advance.storedCurrency {world : CostWorld} {call : RefreshCall} {phase : RefreshPhase}
    {runs' : List RunRow} (h : Advance decodeNumeric world call phase runs') :
    storedCurrency tenantId runId runs' = storedCurrency tenantId runId world.runs := by
  cases h with
  | commit _ => exact storedCurrency_setCost _ _
  | _ => rfl

theorem storedCurrency_of_step {world world' : CostWorld} {step : CostStep}
    (h : costStep decodeNumeric world step = some world') :
    storedCurrency tenantId runId world'.runs = storedCurrency tenantId runId world.runs := by
  rcases costStep_cases h with ⟨events, env, -, rfl⟩ | ⟨tenantId', runId', -, rfl⟩ |
    ⟨i, call, phase, runs', -, hadvance, rfl⟩
  · rfl
  · rfl
  · exact hadvance.storedCurrency

end Inversion

/-! ## What is stored and what is owed -/

section Current

variable (decodeNumeric : ℚ → Except String ℚ) (tenantId : TenantId) (runId : RunId)

/-- `attributed_cost` as stored. -/
def CostWorld.attributedCost (world : CostWorld) : Option ℚ :=
  (selectRun tenantId runId world.runs).map RunRow.attributedCost

/-- The costs that a `SUM` over the run's cost events in a currency adds up. -/
def CostWorld.costsIn (world : CostWorld) (currency : String) : List ℚ :=
  (costsOf tenantId runId currency world.costEvents).map CostRow.effectiveCost

/-- The sum of `effective_cost` over the run's cost events in the run's currency. -/
def CostWorld.runCost (world : CostWorld) : Option ℚ :=
  (storedCurrency tenantId runId world.runs).map fun currency =>
    (world.costsIn tenantId runId currency).sum

def CostStep.IsUpsert : CostStep → Bool
  | .upsert _ _ => true
  | _ => false

/-- No transaction is open. -/
def CostWorld.Closed (world : CostWorld) : Prop :=
  ∀ call ∈ world.calls, call.IsReturned = true

/-- A call for the run that started after `past` has returned `Ok`. -/
def RefreshedSince (past world : CostWorld) : Prop :=
  ∃ (j : Nat) (call : RefreshCall), past.calls.length ≤ j ∧ world.calls[j]? = some call ∧
    call.IsFor tenantId runId ∧ call.IsOk = true

/-- However a run goes on from here without an upsert: once no transaction is open and a refresh
that started meanwhile has succeeded, the stored cost is what the run costs. -/
def EndsCurrent (runs : List RunRow) (costEvents : List CostRow) (past : CostWorld) : Prop :=
  ∀ (after : List CostStep) (world : CostWorld), (∀ step ∈ after, step.IsUpsert = false) →
    (costMachine decodeNumeric runs costEvents).run past after = some world → world.Closed →
    RefreshedSince tenantId runId past world →
    world.attributedCost tenantId runId = world.runCost tenantId runId

/-- What the calls between their `SUM` and their `UPDATE` are about to write is this sum. -/
def CostWorld.TotalsAre (world : CostWorld) (sum : ℚ) : Prop :=
  ∀ call ∈ world.calls, call.IsFor tenantId runId → ∀ total value, call.phase = .summed total →
    toNumeric total.amount = some value → value = sum

/-- Where the run's currency can be read and its costs have a sum that the column takes, the sum is
taken as it is, and no call is left with a total that is another. -/
def Settled (past : CostWorld) : Prop :=
  ∀ (currencyRaw : String) (currency : Currency) (value : ℚ),
    readCurrency tenantId runId past.runs = .ok (currencyRaw, currency) →
    TakesSum decodeNumeric (past.costsIn tenantId runId currencyRaw) value →
    value = (past.costsIn tenantId runId currencyRaw).sum ∧
      past.TotalsAre tenantId runId (past.costsIn tenantId runId currencyRaw).sum

variable {decodeNumeric tenantId runId}

/-- What the steps after the last upsert leave alone. -/
structure Frame (tenantId : TenantId) (runId : RunId) (past world : CostWorld) : Prop where
  costEvents : world.costEvents = past.costEvents
  currency : storedCurrency tenantId runId world.runs = storedCurrency tenantId runId past.runs

theorem Frame.step {past world world' : CostWorld} {step : CostStep}
    (h : Frame tenantId runId past world) (hupsert : step.IsUpsert = false)
    (hstep : costStep decodeNumeric world step = some world') :
    Frame tenantId runId past world' where
  costEvents := by
    rcases costStep_cases hstep with ⟨events, env, rfl, -⟩ | ⟨tenantId', runId', -, rfl⟩ |
      ⟨i, call, phase, runs', -, -, rfl⟩
    · simp [CostStep.IsUpsert] at hupsert
    · exact h.costEvents
    · exact h.costEvents
  currency := (storedCurrency_of_step hstep).trans h.currency

theorem Frame.runCost {past world : CostWorld} (h : Frame tenantId runId past world) :
    world.runCost tenantId runId = past.runCost tenantId runId := by
  simp only [CostWorld.runCost, CostWorld.costsIn, h.costEvents, h.currency]

/-- What the run costs, once its currency has been read. -/
theorem runCost_of_readCurrency {past : CostWorld} {currencyRaw : String} {currency : Currency}
    (h : readCurrency tenantId runId past.runs = .ok (currencyRaw, currency)) :
    past.runCost tenantId runId = some (past.costsIn tenantId runId currencyRaw).sum := by
  rw [CostWorld.runCost, storedCurrency_of_readCurrency h, Option.map_some]

theorem attributedCost_setCost (value : ℚ) {runs : List RunRow} {currency : String}
    (h : storedCurrency tenantId runId runs = some currency) :
    (selectRun tenantId runId (setCost tenantId runId value runs)).map RunRow.attributedCost =
      some value := by
  rcases Option.map_eq_some_iff.1 h with ⟨row, hrow, -⟩
  simp [selectRun_setCost, hrow]

variable (tenantId runId) in
/-- The stored cost moves only when an update of the run's row is committed. -/
theorem attributedCost_of_step {world world' : CostWorld} {step : CostStep}
    (h : costStep decodeNumeric world step = some world') :
    world'.attributedCost tenantId runId = world.attributedCost tenantId runId ∨
      ∃ (j : Nat) (call : RefreshCall) (attributed : Money ℚ) (value : ℚ),
        world.calls[j]? = some call ∧ call.IsFor tenantId runId ∧
        call.phase = .updated attributed value ∧
        world'.runs = setCost tenantId runId value world.runs := by
  rcases costStep_cases h with ⟨events, env, -, rfl⟩ | ⟨tenantId', runId', -, rfl⟩ |
    ⟨i, call, phase, runs', hi, hadvance, rfl⟩
  · exact Or.inl rfl
  · exact Or.inl rfl
  · cases hadvance with
    | @commit attributed value hphase =>
        by_cases hfor : call.IsFor tenantId runId
        · have hfor' := hfor
          rcases hfor with ⟨rfl, rfl⟩
          exact Or.inr ⟨i, call, attributed, value, hi, hfor', hphase, rfl⟩
        · have hother : ¬(runId = call.runId ∧ tenantId = call.tenantId) :=
            fun heq => hfor ⟨heq.2.symm, heq.1.symm⟩
          refine Or.inl ?_
          simp only [CostWorld.attributedCost, selectRun_setCost, if_neg hother]
          simp
    | _ => exact Or.inl rfl

/-! ### A refresh that started after the last upsert -/

/-- A call on the run that is where it would be if it had been alone. -/
def Alone (decodeNumeric : ℚ → Except String ℚ) (tenantId : TenantId) (runId : RunId)
    (past : CostWorld) : RefreshPhase → Prop
  | .currencyRead currencyRaw currency =>
      readCurrency tenantId runId past.runs = .ok (currencyRaw, currency)
  | .summed attributed =>
      ∃ currencyRaw currency,
        readCurrency tenantId runId past.runs = .ok (currencyRaw, currency) ∧
        readAttributed decodeNumeric tenantId runId currencyRaw currency past.costEvents =
          .ok attributed
  | .updated attributed _ | .returned (.ok attributed) =>
      ∃ runs', refreshAttributedCost decodeNumeric tenantId runId past.runs past.costEvents =
        .ok (attributed, runs')
  | _ => True

theorem Alone.advance {past world : CostWorld} {call : RefreshCall} {phase : RefreshPhase}
    {runs' : List RunRow} (hframe : Frame tenantId runId past world)
    (hfor : call.IsFor tenantId runId)
    (h : Alone decodeNumeric tenantId runId past call.phase)
    (hadvance : Advance decodeNumeric world call phase runs') :
    Alone decodeNumeric tenantId runId past phase := by
  rcases hfor with ⟨rfl, rfl⟩
  cases hadvance with
  | readCurrency hphase hread => exact (readCurrency_congr hframe.currency).symm.trans hread
  | readSum hphase hsum =>
      rw [hphase] at h
      exact ⟨_, _, h, hframe.costEvents ▸ hsum⟩
  | update hphase hfree hbind =>
      rw [hphase] at h
      rcases h with ⟨currencyRaw, currency, hread, hsum⟩
      exact ⟨_, refreshAttributedCost_eq_ok.2 ⟨_, _, _, hread, hsum, hbind, rfl⟩⟩
  | commit hphase =>
      rw [hphase] at h
      exact h
  | fail error => trivial

/-- After the last upsert every new call on the run is where it would be alone. -/
structure FreshAlone (decodeNumeric : ℚ → Except String ℚ) (tenantId : TenantId) (runId : RunId)
    (past world : CostWorld) : Prop extends Frame tenantId runId past world where
  alone : ∀ (j : Nat) (call : RefreshCall), past.calls.length ≤ j → world.calls[j]? = some call →
    call.IsFor tenantId runId → Alone decodeNumeric tenantId runId past call.phase

theorem FreshAlone.start (past : CostWorld) :
    FreshAlone decodeNumeric tenantId runId past past where
  costEvents := rfl
  currency := rfl
  alone := by
    intro j call hj hcall
    simp [List.getElem?_eq_none hj] at hcall

theorem FreshAlone.step {past world world' : CostWorld} {step : CostStep}
    (h : FreshAlone decodeNumeric tenantId runId past world) (hupsert : step.IsUpsert = false)
    (hstep : costStep decodeNumeric world step = some world') :
    FreshAlone decodeNumeric tenantId runId past world' where
  toFrame := h.toFrame.step hupsert hstep
  alone := by
    intro j call' hj hcall' hfor
    rcases call_cases hstep hcall' with hsame | hbegun | ⟨call, phase, hcall, hadvance, rfl⟩
    · exact h.alone j call' hj hsame hfor
    · rw [hbegun]
      trivial
    · have hcallFor : call.IsFor tenantId runId := hfor
      exact Alone.advance h.toFrame hcallFor (h.alone j call hj hcall hcallFor) hadvance

/-! ### The calls that were open at the last upsert -/

theorem getElem?_of_isOk {world world' : CostWorld} {step : CostStep} {j : Nat}
    {call' : RefreshCall} (hstep : costStep decodeNumeric world step = some world')
    (hcall' : world'.calls[j]? = some call') (hok : call'.IsOk = true) :
    world.calls[j]? = some call' ∨
      ∃ call attributed value, world.calls[j]? = some call ∧
        call.phase = .updated attributed value ∧ call'.tenantId = call.tenantId ∧
        call'.runId = call.runId ∧
        world'.runs = setCost call.tenantId call.runId value world.runs := by
  rcases call_cases hstep hcall' with hsame | hbegun | ⟨call, phase, hcall, hadvance, rfl⟩
  · exact Or.inl hsame
  · simp [RefreshCall.IsOk, hbegun] at hok
  · generalize hruns : world'.runs = runs' at hadvance
    cases hadvance with
    | @commit attributed value hphase =>
        exact Or.inr ⟨call, attributed, value, hcall, hphase, rfl, rfl, rfl⟩
    | _ => simp [RefreshCall.IsOk] at hok

/-- The call has written its run's row. -/
def RefreshCall.HasWritten (self : RefreshCall) : Bool :=
  self.HoldsLock || self.IsOk

/-- A call for the run that started after `past` has written the run's row. -/
def WrittenSince (tenantId : TenantId) (runId : RunId) (past world : CostWorld) : Prop :=
  ∃ (j : Nat) (call : RefreshCall), past.calls.length ≤ j ∧ world.calls[j]? = some call ∧
    call.IsFor tenantId runId ∧ call.HasWritten = true

/-- What keeps stale totals out of the row: before a new call can write it, the transactions that
wrote it earlier are over. -/
structure Covered (tenantId : TenantId) (runId : RunId) (past world : CostWorld) : Prop
    extends Frame tenantId runId past world where
  reads : ∀ (j : Nat) (call : RefreshCall) (currencyRaw : String) (currency : Currency),
    world.calls[j]? = some call → call.IsFor tenantId runId →
    call.phase = .currencyRead currencyRaw currency →
    readCurrency tenantId runId past.runs = .ok (currencyRaw, currency)
  writes : ∀ (j : Nat) (call : RefreshCall) (total : Money ℚ) (value : ℚ),
    world.calls[j]? = some call → call.IsFor tenantId runId → call.phase = .summed total →
    bindCost total = .ok value → some value = past.runCost tenantId runId
  locked : WrittenSince tenantId runId past world →
    ∀ (j : Nat) (call : RefreshCall) (attributed : Money ℚ) (value : ℚ),
      world.calls[j]? = some call → call.IsFor tenantId runId →
      call.phase = .updated attributed value → some value = past.runCost tenantId runId
  published : RefreshedSince tenantId runId past world →
    world.attributedCost tenantId runId = past.runCost tenantId runId

/-- A new call that has written the row had written it before the step, or writes it now, when no
other transaction holds it. -/
theorem writtenSince_of_step {past world world' : CostWorld} {step : CostStep}
    (hstep : costStep decodeNumeric world step = some world')
    (h : WrittenSince tenantId runId past world') :
    WrittenSince tenantId runId past world ∨ ¬world.Locked tenantId runId := by
  rcases h with ⟨j, call', hj, hcall', hfor, hwritten⟩
  rcases call_cases hstep hcall' with hsame | hbegun | ⟨call, phase, hcall, hadvance, rfl⟩
  · exact Or.inl ⟨j, call', hj, hsame, hfor, hwritten⟩
  · simp [RefreshCall.HasWritten, RefreshCall.HoldsLock, RefreshCall.IsOk, hbegun] at hwritten
  · have hcallFor : call.IsFor tenantId runId := hfor
    generalize world'.runs = runs' at hadvance
    cases hadvance with
    | update _ hfree _ =>
        rcases hcallFor with ⟨rfl, rfl⟩
        exact Or.inr hfree
    | commit hphase =>
        exact Or.inl ⟨j, call, hj, hcall, hcallFor, by
          simp [RefreshCall.HasWritten, RefreshCall.HoldsLock, hphase]⟩
    | _ => simp [RefreshCall.HasWritten, RefreshCall.HoldsLock, RefreshCall.IsOk] at hwritten

theorem RefreshedSince.writtenSince {past world : CostWorld}
    (h : RefreshedSince tenantId runId past world) : WrittenSince tenantId runId past world := by
  rcases h with ⟨j, call, hj, hcall, hfor, hok⟩
  exact ⟨j, call, hj, hcall, hfor, by simp [RefreshCall.HasWritten, hok]⟩

/-- An updated call holds the lock. -/
theorem locked_of_updated {world : CostWorld} {j : Nat} {call : RefreshCall}
    {attributed : Money ℚ} {value : ℚ} (hcall : world.calls[j]? = some call)
    (hfor : call.IsFor tenantId runId) (hphase : call.phase = .updated attributed value) :
    world.Locked tenantId runId :=
  ⟨call, List.mem_of_getElem? hcall, hfor, by simp [RefreshCall.HoldsLock, hphase]⟩

theorem Covered.reads_step {past world world' : CostWorld} {step : CostStep}
    (h : Covered tenantId runId past world)
    (hstep : costStep decodeNumeric world step = some world') (j : Nat) (call' : RefreshCall)
    (currencyRaw : String) (currency : Currency) (hcall' : world'.calls[j]? = some call')
    (hfor : call'.IsFor tenantId runId)
    (hphase : call'.phase = .currencyRead currencyRaw currency) :
    readCurrency tenantId runId past.runs = .ok (currencyRaw, currency) := by
  rcases call_cases hstep hcall' with hsame | hbegun | ⟨call, phase, hcall, hadvance, rfl⟩
  · exact h.reads j call' currencyRaw currency hsame hfor hphase
  · rw [hbegun] at hphase
    cases hphase
  · rcases hfor with ⟨rfl, rfl⟩
    generalize world'.runs = runs' at hadvance
    cases hadvance with
    | readCurrency _ hread =>
        cases hphase
        exact (readCurrency_congr h.currency).symm.trans hread
    | _ => cases hphase

/-- Whatever is summed after the last upsert is what a refresh alone would sum. -/
theorem Covered.writes_step {past world world' : CostWorld} {step : CostStep}
    {attributed : Money ℚ} {runs' : List RunRow} (h : Covered tenantId runId past world)
    (halone : refreshAttributedCost decodeNumeric tenantId runId past.runs past.costEvents =
      .ok (attributed, runs'))
    (hcurrent : (selectRun tenantId runId runs').map RunRow.attributedCost =
      past.runCost tenantId runId)
    (hstep : costStep decodeNumeric world step = some world') (j : Nat) (call' : RefreshCall)
    (total : Money ℚ) (value : ℚ) (hcall' : world'.calls[j]? = some call')
    (hfor : call'.IsFor tenantId runId) (hphase : call'.phase = .summed total)
    (hbind : bindCost total = .ok value) : some value = past.runCost tenantId runId := by
  rcases call_cases hstep hcall' with hsame | hbegun | ⟨call, phase, hcall, hadvance, rfl⟩
  · exact h.writes j call' total value hsame hfor hphase hbind
  · rw [hbegun] at hphase
    cases hphase
  · have hcallFor : call.IsFor tenantId runId := hfor
    rcases hfor with ⟨rfl, rfl⟩
    generalize world'.runs = runs₁ at hadvance
    cases hadvance with
    | @readSum currencyRaw currency _ hread hsum =>
        cases hphase
        -- The call reads the same currency and the same costs as a refresh alone would.
        have hpast := h.reads j call currencyRaw currency hcall hcallFor hread
        rw [h.costEvents] at hsum
        rcases refreshAttributedCost_eq_ok.1 halone with
          ⟨currencyRaw', currency', value', hpast', hsum', hbind', rfl⟩
        rw [hpast] at hpast'
        cases hpast'
        rw [hsum] at hsum'
        cases hsum'
        rw [hbind] at hbind'
        cases hbind'
        rw [← hcurrent]
        exact (attributedCost_setCost value (storedCurrency_of_readCurrency hpast)).symm
    | _ => cases hphase

theorem Covered.locked_step {past world world' : CostWorld} {step : CostStep}
    (h : Covered tenantId runId past world)
    (hstep : costStep decodeNumeric world step = some world')
    (hwritten : WrittenSince tenantId runId past world') (j : Nat) (call' : RefreshCall)
    (attributed : Money ℚ) (value : ℚ) (hcall' : world'.calls[j]? = some call')
    (hfor : call'.IsFor tenantId runId) (hphase : call'.phase = .updated attributed value) :
    some value = past.runCost tenantId runId := by
  rcases call_cases hstep hcall' with hsame | hbegun | ⟨call, phase, hcall, hadvance, rfl⟩
  · rcases writtenSince_of_step hstep hwritten with hbefore | hfree
    · exact h.locked hbefore j call' attributed value hsame hfor hphase
    -- The new call has just come to write the row, which nobody else holds then.
    · exact absurd (locked_of_updated hsame hfor hphase) hfree
  · rw [hbegun] at hphase
    cases hphase
  · have hcallFor : call.IsFor tenantId runId := hfor
    generalize world'.runs = runs' at hadvance
    cases hadvance with
    | update hsummed _ hbind =>
        cases hphase
        exact h.writes j call attributed value hcall hcallFor hsummed hbind
    | _ => cases hphase

theorem Covered.published_step {past world world' : CostWorld} {step : CostStep}
    (h : Covered tenantId runId past world)
    (hstep : costStep decodeNumeric world step = some world')
    (hrefreshed : RefreshedSince tenantId runId past world') :
    world'.attributedCost tenantId runId = past.runCost tenantId runId := by
  -- A value that is owed is what the row holds once it is set.
  have hset : ∀ value, some value = past.runCost tenantId runId →
      world'.runs = setCost tenantId runId value world.runs →
      world'.attributedCost tenantId runId = past.runCost tenantId runId := by
    intro value hvalue hruns
    rcases Option.map_eq_some_iff.1 hvalue.symm with ⟨currency, hcurrency, -⟩
    rw [CostWorld.attributedCost, hruns, ← hvalue]
    exact attributedCost_setCost value (h.currency.trans hcurrency)
  rcases hrefreshed with ⟨j, call', hj, hcall', hfor, hok⟩
  rcases getElem?_of_isOk hstep hcall' hok with
    hsame | ⟨call, attributed, value, hcall, hphase, htenant, hrun, hruns⟩
  -- It had succeeded before; what is committed after it is a total that is owed as well.
  · have hbefore : RefreshedSince tenantId runId past world := ⟨j, call', hj, hsame, hfor, hok⟩
    rcases attributedCost_of_step tenantId runId hstep with
      hkept | ⟨i, call, attributed, value, hcall, hcallFor, hphase, hruns⟩
    · exact hkept.trans (h.published hbefore)
    · exact hset value
        (h.locked hbefore.writtenSince i call attributed value hcall hcallFor hphase) hruns
  · have hcallFor : call.IsFor tenantId runId := ⟨htenant ▸ hfor.1, hrun ▸ hfor.2⟩
    have hbefore : WrittenSince tenantId runId past world :=
      ⟨j, call, hj, hcall, hcallFor, by simp [RefreshCall.HasWritten, RefreshCall.HoldsLock, hphase]⟩
    refine hset value (h.locked hbefore j call attributed value hcall hcallFor hphase) ?_
    rw [hruns, hcallFor.1, hcallFor.2]

theorem Covered.step {past world world' : CostWorld} {step : CostStep} {attributed : Money ℚ}
    {runs' : List RunRow} (h : Covered tenantId runId past world)
    (halone : refreshAttributedCost decodeNumeric tenantId runId past.runs past.costEvents =
      .ok (attributed, runs'))
    (hcurrent : (selectRun tenantId runId runs').map RunRow.attributedCost =
      past.runCost tenantId runId)
    (hupsert : step.IsUpsert = false)
    (hstep : costStep decodeNumeric world step = some world') :
    Covered tenantId runId past world' where
  toFrame := h.toFrame.step hupsert hstep
  reads := h.reads_step hstep
  writes := h.writes_step halone hcurrent hstep
  locked := h.locked_step hstep
  published := h.published_step hstep

/-- A currency that a call has read is still the run's. -/
def ReadsKept (tenantId : TenantId) (runId : RunId) (world : CostWorld) : Prop :=
  ∀ (j : Nat) (call : RefreshCall) (currencyRaw : String) (currency : Currency),
    world.calls[j]? = some call → call.IsFor tenantId runId →
    call.phase = .currencyRead currencyRaw currency →
    readCurrency tenantId runId world.runs = .ok (currencyRaw, currency)

theorem ReadsKept.step {world world' : CostWorld} {step : CostStep}
    (h : ReadsKept tenantId runId world)
    (hstep : costStep decodeNumeric world step = some world') :
    ReadsKept tenantId runId world' := by
  intro j call' currencyRaw currency hcall' hfor hphase
  rw [readCurrency_congr (storedCurrency_of_step hstep)]
  rcases call_cases hstep hcall' with hsame | hbegun | ⟨call, phase, hcall, hadvance, rfl⟩
  · exact h j call' currencyRaw currency hsame hfor hphase
  · rw [hbegun] at hphase
    cases hphase
  · rcases hfor with ⟨rfl, rfl⟩
    generalize world'.runs = runs' at hadvance
    cases hadvance with
    | readCurrency _ hread =>
        cases hphase
        exact hread
    | _ => cases hphase

theorem Covered.start {past : CostWorld} (hreads : ReadsKept tenantId runId past)
    (hwindow : ∀ call ∈ past.calls, call.IsFor tenantId runId → ∀ total value,
      call.phase = .summed total → bindCost total = .ok value →
      some value = past.runCost tenantId runId) :
    Covered tenantId runId past past where
  costEvents := rfl
  currency := rfl
  reads := hreads
  writes := fun _ call total value hcall hfor hphase hbind =>
    hwindow call (List.mem_of_getElem? hcall) hfor total value hphase hbind
  locked := by
    rintro ⟨i, call, hi, hcall, -⟩
    simp [List.getElem?_eq_none hi] at hcall
  published := by
    rintro ⟨i, call, hi, hcall, -⟩
    simp [List.getElem?_eq_none hi] at hcall

/-! ### Runs that end with a stale total -/

variable {runs : List RunRow} {costEvents : List CostRow}

/-- The world with one more call. -/
def CostWorld.withCall (world : CostWorld) (tenantId : TenantId) (runId : RunId)
    (phase : RefreshPhase) : CostWorld :=
  { world with calls := world.calls ++ [{ tenantId := tenantId, runId := runId, phase := phase }] }

theorem costStep_withCall {world : CostWorld} {phase phase' : RefreshPhase}
    {action : RefreshAction}
    (h : RefreshCall.next decodeNumeric { tenantId := tenantId, runId := runId, phase := phase }
      (world.withCall tenantId runId phase) action = some phase') :
    costStep decodeNumeric (world.withCall tenantId runId phase)
        (.act world.calls.length action) =
      some (CostWorld.withCall
        { world with
          runs := RefreshCall.publish { tenantId := tenantId, runId := runId, phase := phase } action
            world.runs }
        tenantId runId phase') := by
  have hcall : (world.withCall tenantId runId phase).calls[world.calls.length]? =
      some { tenantId := tenantId, runId := runId, phase := phase } := by
    simp [CostWorld.withCall]
  simp only [costStep, hcall, h]
  simp [CostWorld.withCall]

/-- The statements of one call, one after the other. -/
def refreshSteps (tenantId : TenantId) (runId : RunId) (i : Nat) : List CostStep :=
  [.start tenantId runId, .act i .readCurrency, .act i .readSum, .act i .update, .act i .commit]

/-- A call whose statements nothing comes between does what `refresh_attributed_cost` does. -/
theorem run_refreshSteps {world : CostWorld} {attributed : Money ℚ} {runs' : List RunRow}
    (hfree : ¬world.Locked tenantId runId)
    (h : refreshAttributedCost decodeNumeric tenantId runId world.runs world.costEvents =
      .ok (attributed, runs')) :
    (costMachine decodeNumeric runs costEvents).run world
        (refreshSteps tenantId runId world.calls.length) =
      some (CostWorld.withCall { world with runs := runs' } tenantId runId
        (.returned (.ok attributed))) := by
  rcases refreshAttributedCost_eq_ok.1 h with
    ⟨currencyRaw, currency, value, hread, hsum, hbind, rfl⟩
  have hunlocked : ¬(world.withCall tenantId runId (.summed attributed)).Locked tenantId runId := by
    rintro ⟨call, hmem, hfor, hlock⟩
    rcases List.mem_append.1 hmem with hmem | hmem
    · exact hfree ⟨call, hmem, hfor, hlock⟩
    · rw [List.mem_singleton.1 hmem] at hlock
      simp [RefreshCall.HoldsLock] at hlock
  have hstart : costStep decodeNumeric world (.start tenantId runId) =
      some (world.withCall tenantId runId .begun) := rfl
  have hcurrency : costStep decodeNumeric (world.withCall tenantId runId .begun)
      (.act world.calls.length .readCurrency) =
        some (world.withCall tenantId runId (.currencyRead currencyRaw currency)) :=
    costStep_withCall (by simp [RefreshCall.next, CostWorld.withCall, hread])
  have hsummed : costStep decodeNumeric
      (world.withCall tenantId runId (.currencyRead currencyRaw currency))
      (.act world.calls.length .readSum) =
        some (world.withCall tenantId runId (.summed attributed)) :=
    costStep_withCall (by simp [RefreshCall.next, CostWorld.withCall, hsum])
  have hupdate : costStep decodeNumeric (world.withCall tenantId runId (.summed attributed))
      (.act world.calls.length .update) =
        some (world.withCall tenantId runId (.updated attributed value)) :=
    costStep_withCall (by simp [RefreshCall.next, hunlocked, hbind])
  have hcommit : costStep decodeNumeric (world.withCall tenantId runId (.updated attributed value))
      (.act world.calls.length .commit) =
        some (CostWorld.withCall { world with runs := setCost tenantId runId value world.runs }
          tenantId runId (.returned (.ok attributed))) :=
    costStep_withCall rfl
  simp [refreshSteps, Machine.run_cons, costMachine, hstart, hcurrency, hsummed, hupdate, hcommit]

/-- Every call but one has returned. -/
def OthersReturned (keep : Nat) (world : CostWorld) : Prop :=
  ∀ (i : Nat) (call : RefreshCall), i ≠ keep → world.calls[i]? = some call →
    call.IsReturned = true

theorem OthersReturned.not_locked {keep : Nat} {world : CostWorld}
    (h : OthersReturned keep world)
    (hkeep : ∀ call, world.calls[keep]? = some call → call.HoldsLock = false) :
    ¬world.Locked tenantId runId := by
  rintro ⟨call, hmem, -, hlock⟩
  rcases List.getElem?_of_mem hmem with ⟨i, hcall⟩
  by_cases hi : i = keep
  · subst hi
    rw [hkeep call hcall] at hlock
    cases hlock
  · have hreturned := h i call hi hcall
    cases hphase : call.phase <;>
      simp [RefreshCall.IsReturned, RefreshCall.HoldsLock, hphase] at hreturned hlock

variable (decodeNumeric runs costEvents) in
/-- All open calls but one may fail, one after the other. -/
theorem run_closeOthers (keep : Nat) (world : CostWorld) :
    ∃ labels calls,
      (∀ step ∈ labels, step.IsUpsert = false) ∧
      (costMachine decodeNumeric runs costEvents).run world labels =
        some { world with calls := calls } ∧
      calls.length = world.calls.length ∧ calls[keep]? = world.calls[keep]? ∧
      OthersReturned keep { world with calls := calls } := by
  -- The calls fail in the order they began; the first `k` of them are done.
  have hfirst : ∀ k, ∃ labels calls,
      (∀ step ∈ labels, step.IsUpsert = false) ∧
      (costMachine decodeNumeric runs costEvents).run world labels =
        some { world with calls := calls } ∧
      calls.length = world.calls.length ∧ calls[keep]? = world.calls[keep]? ∧
      ∀ (i : Nat) (call : RefreshCall), i < k → i ≠ keep → calls[i]? = some call →
        call.IsReturned = true := by
    intro k
    induction k with
    | zero => exact ⟨[], world.calls, by simp, rfl, rfl, rfl, by simp⟩
    | succ k ih =>
        rcases ih with ⟨labels, calls, hlabels, hrun, hlength, hkeep, hclosed⟩
        by_cases hdone : ∀ call, k ≠ keep → calls[k]? = some call → call.IsReturned = true
        · refine ⟨labels, calls, hlabels, hrun, hlength, hkeep, ?_⟩
          intro i call hi hne hcall
          rcases Nat.lt_succ_iff_lt_or_eq.1 hi with hlt | rfl
          · exact hclosed i call hlt hne hcall
          · exact hdone call hne hcall
        · push Not at hdone
          rcases hdone with ⟨call, hne, hcall, hopen⟩
          have hnext : call.next decodeNumeric { world with calls := calls } (.fail "") =
              some (.returned (.error (.backend ""))) := by
            cases hphase : call.phase <;> simp [RefreshCall.next, hphase]
            simp [RefreshCall.IsReturned, hphase] at hopen
          have hpublish : call.publish (.fail "") world.runs = world.runs := by
            cases hphase : call.phase <;> simp [RefreshCall.publish, hphase]
          have hstep : costStep decodeNumeric { world with calls := calls } (.act k (.fail "")) =
              some { world with
                calls := calls.set k
                  { call with phase := .returned (.error (.backend "")) } } := by
            simp [costStep, hcall, hnext, hpublish]
          refine ⟨labels ++ [.act k (.fail "")], calls.set k
            { call with phase := .returned (.error (.backend "")) }, ?_, ?_, by simpa using hlength,
            ?_, ?_⟩
          · intro step hmem
            rcases List.mem_append.1 hmem with hmem | hmem
            · exact hlabels step hmem
            · rw [List.mem_singleton.1 hmem]
              rfl
          · rw [Machine.run_append, hrun]
            simp [Machine.run_cons, costMachine, hstep]
          · rw [List.getElem?_set_ne hne, hkeep]
          · intro i call' hi hne' hcall'
            rcases getElem?_set_cases hcall' with ⟨rfl, rfl⟩ | hsame
            · rfl
            · rcases Nat.lt_succ_iff_lt_or_eq.1 hi with hlt | rfl
              · exact hclosed i call' hlt hne' hsame
              · simp [(List.getElem?_eq_some_iff.1 hcall).1] at hcall'
                rw [← hcall']
                rfl
  rcases hfirst world.calls.length with ⟨labels, calls, hlabels, hrun, hlength, hkeep, hclosed⟩
  refine ⟨labels, calls, hlabels, hrun, hlength, hkeep, ?_⟩
  intro i call hne hcall
  have hlt : i < calls.length := (List.getElem?_eq_some_iff.1 hcall).1
  exact hclosed i call (hlength ▸ hlt) hne hcall

theorem storedCurrency_of_refresh {runs₀ runs' : List RunRow} {costEvents₀ : List CostRow}
    {attributed : Money ℚ}
    (h : refreshAttributedCost decodeNumeric tenantId runId runs₀ costEvents₀ =
      .ok (attributed, runs')) :
    storedCurrency tenantId runId runs' = storedCurrency tenantId runId runs₀ := by
  rcases refreshAttributedCost_eq_ok.1 h with ⟨currencyRaw, currency, value, -, -, -, rfl⟩
  exact storedCurrency_setCost _ _

theorem refreshSteps_isUpsert {i : Nat} :
    ∀ step ∈ refreshSteps tenantId runId i, step.IsUpsert = false := by
  simp [refreshSteps, CostStep.IsUpsert]

variable (runs costEvents) in
/-- The open calls but one may fail, and a new call succeed. -/
theorem run_closeAndRefresh {past : CostWorld} {keep : Nat} {attributed : Money ℚ}
    {runs' : List RunRow}
    (hkeep : ∀ call, past.calls[keep]? = some call → call.HoldsLock = false)
    (halone : refreshAttributedCost decodeNumeric tenantId runId past.runs past.costEvents =
      .ok (attributed, runs')) :
    ∃ labels calls,
      (∀ step ∈ labels, step.IsUpsert = false) ∧
      (costMachine decodeNumeric runs costEvents).run past labels =
        some (CostWorld.withCall { past with runs := runs', calls := calls } tenantId runId
          (.returned (.ok attributed))) ∧
      calls.length = past.calls.length ∧ calls[keep]? = past.calls[keep]? ∧
      OthersReturned keep { past with calls := calls } := by
  rcases run_closeOthers decodeNumeric runs costEvents keep past with
    ⟨labels, calls, hlabels, hrun, hlength, hkept, hclosed⟩
  have hfree : ¬CostWorld.Locked { past with calls := calls } tenantId runId :=
    hclosed.not_locked fun call hcall => hkeep call (hkept ▸ hcall)
  refine ⟨labels ++ refreshSteps tenantId runId calls.length, calls, ?_, ?_, hlength, hkept, hclosed⟩
  · intro step hmem
    rcases List.mem_append.1 hmem with hmem | hmem
    · exact hlabels step hmem
    · exact refreshSteps_isUpsert step hmem
  · rw [Machine.run_append, hrun, Option.bind_some]
    exact run_refreshSteps hfree halone

/-- A refresh that begins when the others are over: the run ends with what it writes. -/
theorem current_of_endsCurrent {past : CostWorld} {attributed : Money ℚ} {runs' : List RunRow}
    (h : EndsCurrent decodeNumeric tenantId runId runs costEvents past)
    (halone : refreshAttributedCost decodeNumeric tenantId runId past.runs past.costEvents =
      .ok (attributed, runs')) :
    (selectRun tenantId runId runs').map RunRow.attributedCost = past.runCost tenantId runId := by
  have hnone : ∀ call, past.calls[past.calls.length]? = some call → call.HoldsLock = false := by
    simp
  rcases run_closeAndRefresh runs costEvents hnone halone with
    ⟨labels, calls, hlabels, hrun, hlength, -, hclosed⟩
  -- In that world no transaction is open and a new refresh has succeeded.
  have hend := h labels _ hlabels hrun ?_ ?_
  · rw [CostWorld.runCost, CostWorld.withCall, storedCurrency_of_refresh halone] at hend
    exact hend
  · intro call hmem
    rcases List.mem_append.1 hmem with hmem | hmem
    · rcases List.getElem?_of_mem hmem with ⟨i, hcall⟩
      have hlt : i < calls.length := (List.getElem?_eq_some_iff.1 hcall).1
      exact hclosed i call (by omega) hcall
    · rw [List.mem_singleton.1 hmem]
      rfl
  · exact ⟨calls.length,
      { tenantId := tenantId, runId := runId, phase := .returned (.ok attributed) }, hlength.ge,
      by simp [CostWorld.withCall], ⟨rfl, rfl⟩, rfl⟩

variable (decodeNumeric runs costEvents) in
/-- The update of a call that the others are done with. -/
theorem run_updateLate {world : CostWorld} {j : Nat} {total : Money ℚ} {value : ℚ}
    (hcall : world.calls[j]? =
      some { tenantId := tenantId, runId := runId, phase := .summed total })
    (hothers : OthersReturned j world) (hbind : bindCost total = .ok value) :
    (costMachine decodeNumeric runs costEvents).run world [.act j .update, .act j .commit] =
      some { world with
        runs := setCost tenantId runId value world.runs
        calls := world.calls.set j
          { tenantId := tenantId, runId := runId, phase := .returned (.ok total) } } := by
  have hfree : ¬world.Locked tenantId runId := by
    refine hothers.not_locked fun call hcall' => ?_
    rw [hcall] at hcall'
    cases hcall'
    rfl
  have hlt : j < world.calls.length := (List.getElem?_eq_some_iff.1 hcall).1
  have hupdate : costStep decodeNumeric world (.act j .update) =
      some { world with
        calls := world.calls.set j
          { tenantId := tenantId, runId := runId, phase := .updated total value } } := by
    simp [costStep, hcall, RefreshCall.next, hfree, hbind, RefreshCall.publish]
  have hcommit : costStep decodeNumeric
      { world with
        calls := world.calls.set j
          { tenantId := tenantId, runId := runId, phase := .updated total value } }
      (.act j .commit) =
      some { world with
        runs := setCost tenantId runId value world.runs
        calls := world.calls.set j
          { tenantId := tenantId, runId := runId, phase := .returned (.ok total) } } := by
    simp [costStep, hlt, RefreshCall.next, RefreshCall.publish]
  simp [Machine.run_cons, costMachine, hupdate, hcommit]

/-- A call between its `SUM` and its `UPDATE` may be the last to write. -/
theorem window_of_endsCurrent {past : CostWorld} {attributed total : Money ℚ} {value : ℚ}
    {runs' : List RunRow} {call : RefreshCall}
    (h : EndsCurrent decodeNumeric tenantId runId runs costEvents past)
    (halone : refreshAttributedCost decodeNumeric tenantId runId past.runs past.costEvents =
      .ok (attributed, runs'))
    (hmem : call ∈ past.calls) (hfor : call.IsFor tenantId runId)
    (hphase : call.phase = .summed total) (hbind : bindCost total = .ok value) :
    some value = past.runCost tenantId runId := by
  rcases List.getElem?_of_mem hmem with ⟨j, hj⟩
  have hkeep : ∀ call, past.calls[j]? = some call → call.HoldsLock = false := by
    intro call' hcall'
    rw [hj] at hcall'
    cases hcall'
    simp [RefreshCall.HoldsLock, hphase]
  rcases run_closeAndRefresh runs costEvents hkeep halone with
    ⟨labels, calls, hlabels, hrun, hlength, hkept, hclosed⟩
  have hcall : calls[j]? =
      some { tenantId := tenantId, runId := runId, phase := .summed total } := by
    rw [hkept, hj, ← hphase, ← hfor.1, ← hfor.2]
  have hlt : j < calls.length := (List.getElem?_eq_some_iff.1 hcall).1
  generalize hworld : CostWorld.withCall { past with runs := runs', calls := calls } tenantId runId
    (.returned (.ok attributed)) = world at hrun
  have hcalls : world.calls = calls ++
      [{ tenantId := tenantId, runId := runId, phase := .returned (.ok attributed) }] := by
    rw [← hworld]
    rfl
  have hothers : OthersReturned j world := by
    intro i call hi hcall
    rw [hcalls] at hcall
    by_cases hilt : i < calls.length
    · rw [List.getElem?_append_left hilt] at hcall
      exact hclosed i call hi hcall
    · rw [List.getElem?_append_right (not_lt.1 hilt)] at hcall
      rw [List.mem_singleton.1 (List.mem_of_getElem? hcall)]
      rfl
  -- All others are done, so the late update goes through, over what the new call wrote.
  have hlate := run_updateLate decodeNumeric runs costEvents
    (by rw [hcalls, List.getElem?_append_left hlt, hcall]) hothers hbind
  have hcurrency : storedCurrency tenantId runId world.runs =
      storedCurrency tenantId runId past.runs := by
    rw [← hworld]
    exact storedCurrency_of_refresh halone
  have hend := h (labels ++ [.act j .update, .act j .commit]) _ ?_
    (by rw [Machine.run_append, hrun, Option.bind_some, hlate]) ?_ ?_
  · rcases refreshAttributedCost_eq_ok.1 halone with ⟨currencyRaw, currency, -, hread, -⟩
    have hstored := storedCurrency_of_readCurrency hread
    have hvalue := attributedCost_setCost value (hcurrency.trans hstored)
    rw [CostWorld.attributedCost, hvalue] at hend
    rw [hend, CostWorld.runCost, CostWorld.runCost, storedCurrency_setCost, hcurrency, ← hworld]
    rfl
  · intro step hstep
    rcases List.mem_append.1 hstep with hstep | hstep
    · exact hlabels step hstep
    · simp only [List.mem_cons, List.not_mem_nil, or_false] at hstep
      rcases hstep with rfl | rfl <;> rfl
  · intro call hcall'
    rcases List.getElem?_of_mem hcall' with ⟨i, hi⟩
    rcases getElem?_set_cases hi with ⟨rfl, rfl⟩ | hsame
    · rfl
    · by_cases hij : i = j
      · subst hij
        have hilt : i < world.calls.length := (List.getElem?_eq_some_iff.1 hsame).1
        simp only [List.getElem?_set_self hilt, Option.some.injEq] at hi
        rw [← hi]
        rfl
      · exact hothers i call hij hsame
  · refine ⟨calls.length,
      { tenantId := tenantId, runId := runId, phase := .returned (.ok attributed) },
      hlength.ge, ?_, ⟨rfl, rfl⟩, rfl⟩
    simp only [List.getElem?_set_ne hlt.ne, hcalls, List.getElem?_concat_length]

/-- A refresh alone succeeds where the run's currency can be read and the column takes the sum. -/
theorem refreshes_of_takesSum {past : CostWorld} {currencyRaw : String} {currency : Currency}
    {value : ℚ} (hread : readCurrency tenantId runId past.runs = .ok (currencyRaw, currency))
    (htakes : TakesSum decodeNumeric (past.costsIn tenantId runId currencyRaw) value) :
    ∃ attributed, refreshAttributedCost decodeNumeric tenantId runId past.runs past.costEvents =
      .ok (attributed, setCost tenantId runId value past.runs) := by
  rcases (takesSum_iff currency).1 htakes with ⟨attributed, hsum, hbind⟩
  exact ⟨attributed, refreshAttributedCost_eq_ok.2 ⟨_, _, _, hread, hsum, hbind, rfl⟩⟩

/-- A refresh that was started after the last upsert and has returned says that one alone would have
succeeded. -/
theorem FreshAlone.refreshes_of_refreshedSince {past world : CostWorld}
    (h : FreshAlone decodeNumeric tenantId runId past world)
    (hrefreshed : RefreshedSince tenantId runId past world) :
    ∃ attributed runs',
      refreshAttributedCost decodeNumeric tenantId runId past.runs past.costEvents =
        .ok (attributed, runs') := by
  rcases hrefreshed with ⟨j, call, hj, hcall, hfor, hok⟩
  have hwhere := h.alone j call hj hcall hfor
  cases hphase : call.phase with
  | returned result =>
      cases result with
      | error e => simp [RefreshCall.IsOk, hphase] at hok
      | ok attributed =>
          rw [hphase] at hwhere
          exact ⟨attributed, hwhere⟩
  | _ => simp [RefreshCall.IsOk, hphase] at hok

theorem settled_of_endsCurrent {past : CostWorld}
    (h : EndsCurrent decodeNumeric tenantId runId runs costEvents past) :
    Settled decodeNumeric tenantId runId past := by
  intro currencyRaw currency value hread htakes
  rcases refreshes_of_takesSum hread htakes with ⟨attributed, halone⟩
  have hcost := runCost_of_readCurrency hread
  constructor
  · have hcurrent := current_of_endsCurrent h halone
    rw [attributedCost_setCost value (storedCurrency_of_readCurrency hread), hcost] at hcurrent
    exact Option.some.inj hcurrent
  · intro call hmem hfor total written hphase hwritten
    have hwindow := window_of_endsCurrent h halone hmem hfor hphase (bindCost_eq_ok.2 hwritten)
    rw [hcost] at hwindow
    exact Option.some.inj hwindow

theorem endsCurrent_of_settled {before : List CostStep} {past : CostWorld}
    (h : (costMachine decodeNumeric runs costEvents).run
      (costMachine decodeNumeric runs costEvents).start before = some past)
    (hsettled : Settled decodeNumeric tenantId runId past) :
    EndsCurrent decodeNumeric tenantId runId runs costEvents past := by
  intro after world hafter hrun hclosed hrefreshed
  have hreads : ReadsKept tenantId runId past :=
    (costMachine decodeNumeric runs costEvents).invariant (ReadsKept tenantId runId)
      (by intro j call currencyRaw currency hcall; simp [costMachine] at hcall)
      (fun _ _ _ hkept hstep => hkept.step hstep) h
  have hfresh : FreshAlone decodeNumeric tenantId runId past world :=
    (costMachine decodeNumeric runs costEvents).run_preserves _ _
      (fun _ _ _ hupsert hfresh hstep => hfresh.step hupsert hstep) after past world hafter
      (FreshAlone.start past) hrun
  rcases hfresh.refreshes_of_refreshedSince hrefreshed with ⟨attributed, runs', halone⟩
  rcases refreshAttributedCost_eq_ok.1 halone with
    ⟨currencyRaw, currency, value, hread, hsum, hbind, rfl⟩
  rcases hsettled currencyRaw currency value hread
    ((takesSum_iff currency).2 ⟨attributed, hsum, hbind⟩) with ⟨hvalue, htotals⟩
  have hcost := runCost_of_readCurrency hread
  have hcurrent : (selectRun tenantId runId (setCost tenantId runId value past.runs)).map
      RunRow.attributedCost = past.runCost tenantId runId := by
    rw [attributedCost_setCost value (storedCurrency_of_readCurrency hread), hcost, hvalue]
  have hwindow : ∀ call ∈ past.calls, call.IsFor tenantId runId → ∀ total value,
      call.phase = .summed total → bindCost total = .ok value →
      some value = past.runCost tenantId runId := by
    intro call hmem hfor total written hphase hwritten
    rw [hcost, htotals call hmem hfor total written hphase (bindCost_eq_ok.1 hwritten)]
  have hcovered : Covered tenantId runId past world :=
    (costMachine decodeNumeric runs costEvents).run_preserves _ _
      (fun _ _ _ hupsert hcovered hstep => hcovered.step halone hcurrent hupsert hstep)
      after past world hafter (Covered.start hreads hwindow) hrun
  rw [hcovered.published hrefreshed, hcovered.runCost]

theorem Settled.iff_totalsAre {past : CostWorld} {currencyRaw : String} {currency : Currency}
    (hread : readCurrency tenantId runId past.runs = .ok (currencyRaw, currency))
    (hkeeps : Keeps decodeNumeric (past.costsIn tenantId runId currencyRaw).sum) :
    Settled decodeNumeric tenantId runId past ↔
      past.TotalsAre tenantId runId (past.costsIn tenantId runId currencyRaw).sum := by
  constructor
  · intro h
    exact (h currencyRaw currency _ hread hkeeps.takesSum).2
  · intro h currencyRaw' currency' value hread' htakes
    cases hread.symm.trans hread'
    exact ⟨hkeeps.eq_of_takesSum htakes, h⟩

/-- The stored cost ends up current, whatever the refreshes do, exactly if the column takes the sum
as it is and after the last upsert no call is left with a total that is another.  Of a sum that the
driver's decimal and the column keep, the second is all that is asked. -/
theorem attributedCost_current_iff {before : List CostStep} {past : CostWorld}
    (h : (costMachine decodeNumeric runs costEvents).run
      (costMachine decodeNumeric runs costEvents).start before = some past) :
    (EndsCurrent decodeNumeric tenantId runId runs costEvents past ↔
        Settled decodeNumeric tenantId runId past) ∧
      ∀ currencyRaw currency,
        readCurrency tenantId runId past.runs = .ok (currencyRaw, currency) →
        Keeps decodeNumeric (past.costsIn tenantId runId currencyRaw).sum →
        (EndsCurrent decodeNumeric tenantId runId runs costEvents past ↔
          past.TotalsAre tenantId runId (past.costsIn tenantId runId currencyRaw).sum) := by
  have hiff : EndsCurrent decodeNumeric tenantId runId runs costEvents past ↔
      Settled decodeNumeric tenantId runId past :=
    ⟨settled_of_endsCurrent, endsCurrent_of_settled h⟩
  exact ⟨hiff, fun currencyRaw currency hread hkeeps =>
    hiff.trans (Settled.iff_totalsAre hread hkeeps)⟩

end Current

/-! ## A slow refresh -/

section SlowRefresh

/-- A charge on run 5 of tenant 1. -/
def runCharge (id : CostEventId) (externalId : String) (amount : ℚ) : CostEvent where
  id := id
  billingAccountId := "111122223333"
  chargePeriodStart := ⟨1785542400000000000⟩
  chargePeriodEnd := ⟨1785546000000000000⟩
  billedCost := { amount := amount, currency := .usd }
  effectiveCost := { amount := amount, currency := .usd }
  listCost := { amount := amount, currency := .usd }
  serviceName := "Amazon EC2"
  serviceCategory := .compute
  chargeCategory := .usage
  resourceId := none
  regionId := none
  tags := .object []
  dims := (Dimensions.new ⟨1⟩ ⟨2⟩ ⟨3⟩ ⟨4⟩ .rnD).withRun ⟨5⟩
  sourceRef :=
    { provider := .aws
      externalId := externalId
      exportRef := "2026-08.csv"
      billingPeriod := "2026-08"
      contentHash := externalId
      ingestedAt := ⟨1785549600000000000⟩ }

def runFive : RunRow where
  id := ⟨5⟩
  tenantId := ⟨1⟩
  attributedCost := 0
  attributedCostCurrency := "USD"

/-- A refresh has read the sum when a second charge arrives. -/
def slowRefresh : List CostStep :=
  [.upsert [runCharge ⟨1⟩ "a" 10] UpsertEnv.ok, .start ⟨1⟩ ⟨5⟩, .act 0 .readCurrency, .act 0 .readSum,
    .upsert [runCharge ⟨2⟩ "b" 5] UpsertEnv.ok]

/-- The same, with the refresh still before its sum. -/
def promptRefresh : List CostStep :=
  [.upsert [runCharge ⟨1⟩ "a" 10] UpsertEnv.ok, .start ⟨1⟩ ⟨5⟩, .act 0 .readCurrency,
    .upsert [runCharge ⟨2⟩ "b" 5] UpsertEnv.ok]

/-- `UPDATE` and commit of the slow refresh come after a whole second refresh. -/
def overtaken : List CostStep :=
  refreshSteps ⟨1⟩ ⟨5⟩ 1 ++ [.act 0 .update, .act 0 .commit]

theorem attributedCost_slowRefresh :
    ∃ past world,
      (costMachine .ok [runFive] []).run (costMachine .ok [runFive] []).start slowRefresh =
        some past ∧
      (costMachine .ok [runFive] []).run past overtaken = some world ∧
      world.Closed ∧ RefreshedSince ⟨1⟩ ⟨5⟩ past world ∧
      world.attributedCost ⟨1⟩ ⟨5⟩ = some 10 ∧ world.runCost ⟨1⟩ ⟨5⟩ = some 15 ∧
      ¬EndsCurrent .ok ⟨1⟩ ⟨5⟩ [runFive] [] past := by
  have hvalues : ((costMachine .ok [runFive] []).run (costMachine .ok [runFive] []).start
      slowRefresh).bind (fun past => ((costMachine .ok [runFive] []).run past overtaken).map
        fun world => (past.calls.length, world.calls, world.attributedCost ⟨1⟩ ⟨5⟩,
          world.runCost ⟨1⟩ ⟨5⟩)) =
      some (1,
        [{ tenantId := ⟨1⟩, runId := ⟨5⟩, phase := .returned (.ok { amount := 10, currency := .usd }) },
          { tenantId := ⟨1⟩, runId := ⟨5⟩,
            phase := .returned (.ok { amount := 15, currency := .usd }) }],
        some 10, some 15) := by
    decide +kernel
  cases hpast : (costMachine .ok [runFive] []).run (costMachine .ok [runFive] []).start
      slowRefresh with
  | none => simp [hpast] at hvalues
  | some past =>
      cases hworld : (costMachine .ok [runFive] []).run past overtaken with
      | none => simp [hpast, hworld] at hvalues
      | some world =>
          simp only [hpast, hworld, Option.bind_some, Option.map_some, Option.some.injEq,
            Prod.mk.injEq] at hvalues
          rcases hvalues with ⟨hlength, hcalls, hattributed, hcost⟩
          have hclosed : world.Closed := by
            simp [CostWorld.Closed, hcalls, RefreshCall.IsReturned]
          have hrefreshed : RefreshedSince ⟨1⟩ ⟨5⟩ past world :=
            ⟨1, ⟨⟨1⟩, ⟨5⟩, .returned (.ok { amount := 15, currency := .usd })⟩, hlength.le,
              by simp [hcalls], ⟨rfl, rfl⟩, rfl⟩
          refine ⟨past, world, rfl, hworld, hclosed, hrefreshed, hattributed, hcost, ?_⟩
          intro hends
          have heq := hends overtaken world (by decide) hworld hclosed hrefreshed
          rw [hattributed, hcost] at heq
          exact absurd heq (by decide +kernel)

theorem attributedCost_promptRefresh :
    ∃ past,
      (costMachine .ok [runFive] []).run (costMachine .ok [runFive] []).start promptRefresh =
        some past ∧
      EndsCurrent .ok ⟨1⟩ ⟨5⟩ [runFive] [] past := by
  have hvalues : ((costMachine .ok [runFive] []).run (costMachine .ok [runFive] []).start
      promptRefresh).map (fun past =>
        (past.calls, past.costsIn ⟨1⟩ ⟨5⟩ "USD", readCurrency ⟨1⟩ ⟨5⟩ past.runs)) =
      some ([{ tenantId := ⟨1⟩, runId := ⟨5⟩, phase := .currencyRead "USD" .usd }], [10, 5],
        .ok ("USD", .usd)) := by
    decide +kernel
  cases hpast : (costMachine .ok [runFive] []).run (costMachine .ok [runFive] []).start
      promptRefresh with
  | none => simp [hpast] at hvalues
  | some past =>
      simp only [hpast, Option.map_some, Option.some.injEq, Prod.mk.injEq] at hvalues
      rcases hvalues with ⟨hcalls, hcosts, hread⟩
      refine ⟨past, rfl, ((attributedCost_current_iff hpast).2 _ _ hread ?_).2 ?_⟩
      · rw [hcosts]
        decide +kernel
      · simp [CostWorld.TotalsAre, hcalls]

end SlowRefresh

end Falkr
