import Falkr.Api.Ledger
import Falkr.Infra.LedgerReplay
import Falkr.Lib.Machine

/-!
# BalanceReads — a balance request among appends

The handler reads the stream twice, each time in a transaction of its own, and calls of any callers
are made before, between and after the two reads.  The accounts, the number of entries and the trial
balance come from the first read, the number of events from the second.

A view `Describes` a table when it is the answer of a request whose reads both find that table.  The
table of the first read is described exactly when nothing was committed to the stream in between
(`describes_iff_of_reads`).
-/

namespace Falkr

open Lib

/-! ## The machine -/

/-- Where a balance request is in its handler. -/
inductive BalanceRequest
  | waiting
  | loaded (state : AggregateState (LedgerState Decimal))
  /-- `none` is a panic. -/
  | answered (answer : Option (Except ApiError BalanceView))
  deriving DecidableEq

structure BalanceWorld (J : Type) where
  /-- The committed rows of `ledger_events`. -/
  table : List (LedgerRow J)
  request : BalanceRequest
  /-- The tables that the request has read; no step depends on them. -/
  reads : List (List (LedgerRow J))
  deriving DecidableEq

inductive BalanceStep
  /-- A call on the store.  Others see its rows from its commit on, so that is when it happens. -/
  | call (call : StoreCall Decimal)
  | load (env : ReadEnv)
  | count (env : ReadEnv)

/-- The request after its first read. -/
def onLoad :
    Option (Except LedgerStoreError (AggregateState (LedgerState Decimal))) → BalanceRequest
  | none => .answered none
  | some (.error e) => .answered (some (.error (.internal e)))
  | some (.ok state) => .loaded state

/-- The request after its second read. -/
def onCount (aggregateId : Uuid) (state : AggregateState (LedgerState Decimal)) :
    Except LedgerStoreError Nat → BalanceRequest
  | .error e => .answered (some (.error (.internal e)))
  | .ok count => .answered ((balanceView aggregateId count state.inner).map Except.ok)

section Machine

variable {J : Type} (codec : Codec (LedgerEvent Decimal) J) (ctx : TenantContext)
  (aggregateId : Uuid)

/-- One step of the request or of a caller; `none` when the request is not there. -/
def balanceStep (world : BalanceWorld J) : BalanceStep → Option (BalanceWorld J)
  | .call call =>
      some { world with table := (perform (m := Option) codec world.table call).1 }
  | .load env =>
      match world.request with
      | .waiting =>
          match ctx.require .read with
          | .error e => some { world with request := .answered (some (.error e)) }
          | .ok () =>
              some
                { world with
                  request := onLoad (load codec ctx.tenantId world.table aggregateId env)
                  reads := world.reads ++ [world.table] }
      | _ => none
  | .count env =>
      match world.request with
      | .loaded state =>
          some
            { world with
              request := onCount aggregateId state
                (eventCount codec ctx.tenantId world.table aggregateId env)
              reads := world.reads ++ [world.table] }
      | _ => none

/-- One request on an aggregate, among calls on a store that starts with some rows. -/
def balanceRequest (table : List (LedgerRow J)) : Machine (BalanceWorld J) BalanceStep where
  start := { table := table, request := .waiting, reads := [] }
  step := balanceStep codec ctx aggregateId

/-- A request whose reads both find one state of the log answers with the view. -/
def Describes (view : BalanceView) (table : List (LedgerRow J)) : Prop :=
  balance codec ctx aggregateId
    { loadTable := table, loadEnv := .ok, countTable := table, countEnv := .ok } = some (.ok view)

instance (view : BalanceView) (table : List (LedgerRow J)) :
    Decidable (Describes codec ctx aggregateId view table) :=
  inferInstanceAs (Decidable (_ = _))

/-- What a request has come to, with what it has read of a log that is now a table. -/
def ReadsOk (table : List (LedgerRow J)) (reads : List (List (LedgerRow J))) :
    BalanceRequest → Prop
  | .waiting => reads = []
  | .loaded state =>
      ∃ loaded env, reads = [loaded] ∧ loaded <+: table ∧ ctx.require .read = .ok () ∧
        load codec ctx.tenantId loaded aggregateId env = some (.ok state)
  | .answered (some (.ok view)) =>
      ∃ loaded loadEnv counted countEnv, reads = [loaded, counted] ∧ loaded <+: counted ∧
        counted <+: table ∧
        balance codec ctx aggregateId
          { loadTable := loaded, loadEnv := loadEnv, countTable := counted,
            countEnv := countEnv } = some (.ok view)
  | .answered _ => True

end Machine

/-! ## Steps -/

section Steps

variable {J : Type} {codec : Codec (LedgerEvent Decimal) J} {ctx : TenantContext}
  {aggregateId : Uuid} {world world' : BalanceWorld J}

/-- What a step can do. -/
theorem balanceStep_cases {step : BalanceStep}
    (h : balanceStep codec ctx aggregateId world step = some world') :
    (∃ call, world' = { world with table := (perform (m := Option) codec world.table call).1 }) ∨
      (∃ e, world.request = .waiting ∧ ctx.require .read = .error e ∧
        world' = { world with request := .answered (some (.error e)) }) ∨
      (∃ env, world.request = .waiting ∧ ctx.require .read = .ok () ∧
        world' =
          { world with
            request := onLoad (load codec ctx.tenantId world.table aggregateId env)
            reads := world.reads ++ [world.table] }) ∨
      ∃ state env, world.request = .loaded state ∧
        world' =
          { world with
            request := onCount aggregateId state
              (eventCount codec ctx.tenantId world.table aggregateId env)
            reads := world.reads ++ [world.table] } := by
  cases step with
  | call call =>
      cases h
      exact Or.inl ⟨call, rfl⟩
  | load env =>
      cases hrequest : world.request with
      | waiting =>
          cases hscope : ctx.require .read with
          | error e =>
              simp only [balanceStep, hrequest, hscope] at h
              cases h
              exact Or.inr (Or.inl ⟨e, rfl, rfl, rfl⟩)
          | ok u =>
              simp only [balanceStep, hrequest, hscope] at h
              cases h
              exact Or.inr (Or.inr (Or.inl ⟨env, rfl, rfl, rfl⟩))
      | loaded state => simp [balanceStep, hrequest] at h
      | answered answer => simp [balanceStep, hrequest] at h
  | count env =>
      cases hrequest : world.request with
      | waiting => simp [balanceStep, hrequest] at h
      | loaded state =>
          simp only [balanceStep, hrequest] at h
          cases h
          exact Or.inr (Or.inr (Or.inr ⟨state, env, rfl, rfl⟩))
      | answered answer => simp [balanceStep, hrequest] at h

/-- The log only grows. -/
theorem perform_extends (table : List (LedgerRow J)) (call : StoreCall Decimal) :
    table <+: (perform (m := Option) codec table call).1 := by
  cases call with
  | load caller id env => exact List.prefix_rfl
  | persist caller state events env =>
      rcases persist_table codec caller state events env table with ⟨rows, htable, -⟩
      exact ⟨rows, htable.symm⟩

theorem table_prefix_of_step {step : BalanceStep}
    (h : balanceStep codec ctx aggregateId world step = some world') :
    world.table <+: world'.table := by
  rcases balanceStep_cases h with ⟨call, rfl⟩ | ⟨e, -, -, rfl⟩ | ⟨env, -, -, rfl⟩ |
    ⟨state, env, -, rfl⟩
  · exact perform_extends _ _
  · exact List.prefix_rfl
  · exact List.prefix_rfl
  · exact List.prefix_rfl

theorem ReadsOk.mono {table table' : List (LedgerRow J)} {reads : List (List (LedgerRow J))}
    (hextends : table <+: table') :
    ∀ {request : BalanceRequest}, ReadsOk codec ctx aggregateId table reads request →
      ReadsOk codec ctx aggregateId table' reads request
  | .waiting, h => h
  | .loaded _, ⟨loaded, env, hreads, hloaded, hload⟩ =>
      ⟨loaded, env, hreads, hloaded.trans hextends, hload⟩
  | .answered (some (.ok _)), ⟨loaded, loadEnv, counted, countEnv, hreads, hle, hcounted, h⟩ =>
      ⟨loaded, loadEnv, counted, countEnv, hreads, hle, hcounted.trans hextends, h⟩
  | .answered (some (.error _)), h => h
  | .answered none, h => h

theorem readsOk_step {step : BalanceStep}
    (hok : ReadsOk codec ctx aggregateId world.table world.reads world.request)
    (h : balanceStep codec ctx aggregateId world step = some world') :
    ReadsOk codec ctx aggregateId world'.table world'.reads world'.request := by
  rcases balanceStep_cases h with ⟨call, rfl⟩ | ⟨e, -, -, rfl⟩ | ⟨env, hrequest, hscope, rfl⟩ |
    ⟨state, env, hrequest, rfl⟩
  · exact hok.mono (perform_extends _ _)
  · trivial
  · rw [hrequest] at hok
    have hreads : world.reads = [] := hok
    cases hload : load codec ctx.tenantId world.table aggregateId env with
    | none => trivial
    | some result =>
        cases result with
        | error e => trivial
        | ok state => exact ⟨world.table, env, by simp [hreads], List.prefix_rfl, hscope, hload⟩
  · rw [hrequest] at hok
    rcases hok with ⟨loaded, loadEnv, hreads, hloaded, hscope, hload⟩
    cases hcount : eventCount codec ctx.tenantId world.table aggregateId env with
    | error e => trivial
    | ok count =>
        cases hview : balanceView aggregateId count state.inner with
        | none => simp [ReadsOk, onCount, hview]
        | some view =>
            simp only [onCount, hview, Option.map_some]
            refine ⟨loaded, loadEnv, world.table, env, by simp [hreads], hloaded,
              List.prefix_rfl, ?_⟩
            simp [balance, hscope, hload, hcount, hview]

end Steps

/-! ## Runs -/

section Runs

variable {J : Type} {codec : Codec (LedgerEvent Decimal) J} {ctx : TenantContext}
  {aggregateId : Uuid} {table : List (LedgerRow J)} {steps : List BalanceStep}
  {world : BalanceWorld J} {view : BalanceView}

theorem readsOk_run
    (h : (balanceRequest codec ctx aggregateId table).run
      (balanceRequest codec ctx aggregateId table).start steps = some world) :
    ReadsOk codec ctx aggregateId world.table world.reads world.request := by
  have hstart : ReadsOk codec ctx aggregateId table [] .waiting := rfl
  exact (balanceRequest codec ctx aggregateId table).invariant
    (fun world => ReadsOk codec ctx aggregateId world.table world.reads world.request) hstart
    (fun _ _ _ hok hstep => readsOk_step hok hstep) h

/-- Later tables of a run extend earlier ones. -/
theorem table_prefix_of_run {moment : BalanceWorld J} {rest : List BalanceStep}
    (h : (balanceRequest codec ctx aggregateId table).run moment rest = some world) :
    moment.table <+: world.table :=
  (balanceRequest codec ctx aggregateId table).run_preserves
    (fun world => moment.table <+: world.table) (fun _ => True)
    (fun _ _ _ _ hle hstep => hle.trans (table_prefix_of_step hstep)) rest moment world
    (fun _ _ => trivial) List.prefix_rfl h

/-- A request reads tables that the run passes through. -/
theorem passes_of_mem_reads
    (h : (balanceRequest codec ctx aggregateId table).run
      (balanceRequest codec ctx aggregateId table).start steps = some world) :
    ∀ read ∈ world.reads, ∃ moment,
      (balanceRequest codec ctx aggregateId table).Passes steps moment ∧ moment.table = read := by
  refine (balanceRequest codec ctx aggregateId table).run_induction
    (fun steps world => ∀ read ∈ world.reads, ∃ moment,
      (balanceRequest codec ctx aggregateId table).Passes steps moment ∧ moment.table = read)
    ?_ ?_ steps world h
  · simp [balanceRequest]
  · intro steps world step world' hrun ih hstep
    -- A read is of the table at the end of the run so far.
    have hread : ∀ read ∈ world.reads ++ [world.table], ∃ moment,
        (balanceRequest codec ctx aggregateId table).Passes (steps ++ [step]) moment ∧
          moment.table = read := by
      intro read hmem
      rcases List.mem_append.1 hmem with hmem | hmem
      · rcases ih read hmem with ⟨moment, hpasses, htable⟩
        exact ⟨moment, hpasses.append _, htable⟩
      · exact ⟨world, (Machine.passes_end hrun).append _, (List.mem_singleton.1 hmem).symm⟩
    have hbefore : ∀ read ∈ world.reads, ∃ moment,
        (balanceRequest codec ctx aggregateId table).Passes (steps ++ [step]) moment ∧
          moment.table = read := fun read hmem => hread read (List.mem_append_left _ hmem)
    rcases balanceStep_cases hstep with ⟨call, rfl⟩ | ⟨e, -, -, rfl⟩ | ⟨env, -, -, rfl⟩ |
      ⟨state, env, -, rfl⟩
    · exact hbefore
    · exact hbefore
    · exact hread
    · exact hread

end Runs

/-! ## What a view describes -/

section Views

variable {J : Type} {codec : Codec (LedgerEvent Decimal) J} {ctx : TenantContext}
  {aggregateId : Uuid} {view : BalanceView}

theorem length_of_byAggregateId {table : List (LedgerRow J)} {env : ReadEnv}
    {events : List (StoreEvent (LedgerEvent Decimal))}
    (h : byAggregateId codec ctx.tenantId table aggregateId env = .ok events) :
    events.length = (stream ctx.tenantId aggregateId table).length := by
  have hnumbers := congrArg List.length (sequenceNumbers_of_mapM (byAggregateId_ok h))
  simpa [selectStream, stream] using hnumbers

theorem byAggregateId_congr {table table' : List (LedgerRow J)}
    (h : stream ctx.tenantId aggregateId table = stream ctx.tenantId aggregateId table')
    (env : ReadEnv) :
    byAggregateId codec ctx.tenantId table aggregateId env =
      byAggregateId codec ctx.tenantId table' aggregateId env := by
  have hselect : selectStream ctx.tenantId aggregateId table =
      selectStream ctx.tenantId aggregateId table' := by
    unfold stream at h
    unfold selectStream
    rw [h]
  simp only [byAggregateId, hselect]

theorem Describes.congr {table table' : List (LedgerRow J)}
    (hdescribes : Describes codec ctx aggregateId view table)
    (h : stream ctx.tenantId aggregateId table = stream ctx.tenantId aggregateId table') :
    Describes codec ctx aggregateId view table' := by
  rcases balance_eq_ok_iff.1 hdescribes with
    ⟨hscope, events, s, counted, hread, hreplay, hcounted, hview⟩
  have hcongr : byAggregateId codec ctx.tenantId table aggregateId ReadEnv.ok =
      byAggregateId codec ctx.tenantId table' aggregateId ReadEnv.ok := byAggregateId_congr h _
  exact balance_eq_ok_iff.2 ⟨hscope, events, s, counted, hcongr ▸ hread, hreplay,
    hcongr ▸ hcounted, hview⟩

theorem eventCount_of_balanceView {count : Nat} {s : LedgerState Decimal}
    (h : balanceView aggregateId count s = some view) : view.eventCount = count := by
  rcases Option.bind_eq_some_iff.1 h with ⟨trialBalance, -, hview⟩
  cases hview
  rfl

/-- A view counts the stream that its second read found. -/
theorem eventCount_of_balance {env : BalanceEnv J}
    (h : balance codec ctx aggregateId env = some (.ok view)) :
    view.eventCount = (stream ctx.tenantId aggregateId env.countTable).length := by
  rcases balance_eq_ok_iff.1 h with ⟨-, events, s, counted, -, -, hcounted, hview⟩
  exact (eventCount_of_balanceView hview).trans (length_of_byAggregateId hcounted)

/-- Statements that succeed return what they return when none fails. -/
theorem balance_ok_env {env : BalanceEnv J}
    (h : balance codec ctx aggregateId env = some (.ok view)) :
    balance codec ctx aggregateId { env with loadEnv := .ok, countEnv := .ok } =
      some (.ok view) := by
  rcases balance_eq_ok_iff.1 h with ⟨hscope, events, s, counted, hread, hreplay, hcounted, hview⟩
  exact balance_eq_ok_iff.2 ⟨hscope, events, s, counted, byAggregateId_ok hread, hreplay,
    byAggregateId_ok hcounted, hview⟩

/-- A view describes the table whose stream was replayed for it exactly when its second read found
the same stream. -/
theorem describes_iff_of_balance {env : BalanceEnv J}
    (h : balance codec ctx aggregateId env = some (.ok view))
    (hextends : env.loadTable <+: env.countTable) :
    Describes codec ctx aggregateId view env.loadTable ↔
      stream ctx.tenantId aggregateId env.countTable =
        stream ctx.tenantId aggregateId env.loadTable := by
  have hstream : stream ctx.tenantId aggregateId env.loadTable <+:
      stream ctx.tenantId aggregateId env.countTable := hextends.filter _
  constructor
  · intro hdescribes
    have hcount := (eventCount_of_balance h).symm.trans (eventCount_of_balance hdescribes)
    exact (hstream.eq_of_length hcount.symm).symm
  · intro heq
    rcases balance_eq_ok_iff.1 (balance_ok_env h) with
      ⟨hscope, events, s, counted, hread, hreplay, hcounted, hview⟩
    rw [byAggregateId_congr heq] at hcounted
    exact balance_eq_ok_iff.2 ⟨hscope, events, s, counted, hread, hreplay, hcounted, hview⟩

/-- Two states of one log in which a stream is as long are the same to it. -/
theorem stream_eq_of_eventCount {table table' log : List (LedgerRow J)} (h : table <+: log)
    (h' : table' <+: log)
    (hcount : (stream ctx.tenantId aggregateId table).length =
      (stream ctx.tenantId aggregateId table').length) :
    stream ctx.tenantId aggregateId table = stream ctx.tenantId aggregateId table' := by
  rcases List.prefix_or_prefix_of_prefix h h' with hle | hle
  · exact (hle.filter _).eq_of_length hcount
  · exact ((hle.filter _).eq_of_length hcount.symm).symm

/-- If a moment of a run has a view, so does a later table in which the stream is as long. -/
theorem Describes.of_passes {table counted : List (LedgerRow J)} {steps : List BalanceStep}
    {world moment : BalanceWorld J}
    (hdescribes : Describes codec ctx aggregateId view moment.table)
    (hpasses : (balanceRequest codec ctx aggregateId table).Passes steps moment)
    (hrun : (balanceRequest codec ctx aggregateId table).run
      (balanceRequest codec ctx aggregateId table).start steps = some world)
    (hcounted : counted <+: world.table)
    (hcount : view.eventCount = (stream ctx.tenantId aggregateId counted).length) :
    Describes codec ctx aggregateId view counted := by
  rcases hpasses.exists_rest hrun with ⟨rest, hrest⟩
  have hlength := (eventCount_of_balance hdescribes).symm.trans hcount
  exact hdescribes.congr (stream_eq_of_eventCount (table_prefix_of_run hrest) hcounted hlength)

end Views

/-- In every run that answers, the view is that of the table it was folded from exactly when nothing
was committed to the stream before the second read; and some moment of the run has that view exactly
when what was committed changes nothing in it. -/
theorem describes_iff_of_reads {J : Type} {codec : Codec (LedgerEvent Decimal) J}
    {ctx : TenantContext} {aggregateId : Uuid} {table : List (LedgerRow J)}
    {steps : List BalanceStep} {world : BalanceWorld J} {view : BalanceView}
    (hrun : (balanceRequest codec ctx aggregateId table).run
      (balanceRequest codec ctx aggregateId table).start steps = some world)
    (hanswer : world.request = .answered (some (.ok view))) :
    ∃ loaded counted, world.reads = [loaded, counted] ∧
      (Describes codec ctx aggregateId view loaded ↔
        stream ctx.tenantId aggregateId counted = stream ctx.tenantId aggregateId loaded) ∧
      ((∃ moment, (balanceRequest codec ctx aggregateId table).Passes steps moment ∧
          Describes codec ctx aggregateId view moment.table) ↔
        balance codec ctx aggregateId
            { loadTable := counted, loadEnv := .ok, countTable := counted, countEnv := .ok } =
          balance codec ctx aggregateId
            { loadTable := loaded, loadEnv := .ok, countTable := counted, countEnv := .ok }) := by
  have hok := readsOk_run hrun
  rw [hanswer] at hok
  rcases hok with ⟨loaded, loadEnv, counted, countEnv, hreads, hloaded, hcounted, hbalance⟩
  refine ⟨loaded, counted, hreads, describes_iff_of_balance hbalance hloaded, ?_⟩
  rw [balance_ok_env hbalance]
  constructor
  · rintro ⟨moment, hpasses, hdescribes⟩
    exact hdescribes.of_passes hpasses hrun hcounted (eventCount_of_balance hbalance)
  · intro hdescribes
    rcases passes_of_mem_reads hrun counted (by simp [hreads]) with ⟨moment, hpasses, rfl⟩
    exact ⟨moment, hpasses, hdescribes⟩

/-! ## An entry posted between the reads -/

/-- One writer posts an entry, and another a second one. -/
def firstPosted : BalanceStep :=
  .call (.persist ⟨1⟩ newState [twentyMoved ⟨1⟩ .usd ⟨10⟩ ⟨11⟩] (.ok ⟨0⟩ fun _ => 100))

def secondPosted : BalanceStep :=
  .call (.persist ⟨1⟩ { newState with sequenceNumber := 1 } [twentyMoved ⟨2⟩ .usd ⟨10⟩ ⟨11⟩]
    (.ok ⟨0⟩ fun _ => 101))

/-- The second entry is committed after the request has loaded the stream and before it counts. -/
def tornSteps : List BalanceStep :=
  [firstPosted, .load .ok, secondPosted, .count .ok]

/-- Both reads come before the second entry. -/
def wholeSteps : List BalanceStep :=
  [firstPosted, .load .ok, .count .ok, secondPosted]

/-- The balances after the first entry, with a number of events. -/
def firstView (eventCount : Nat) : BalanceView where
  aggregateId := 7
  entryCount := 1
  eventCount := eventCount
  accounts :=
    [{ account := 10, balance := "-20", currency := "USD" },
      { account := 11, balance := "20", currency := "USD" }]
  trialBalance := "0"

def firstRow : LedgerRow (LedgerEvent Decimal) :=
  storedTransfer 1 100 (twentyMoved ⟨1⟩ .usd ⟨10⟩ ⟨11⟩)

def secondRow : LedgerRow (LedgerEvent Decimal) :=
  storedTransfer 2 101 (twentyMoved ⟨2⟩ .usd ⟨10⟩ ⟨11⟩)

theorem describes_iff_of_reads_whole :
    ∃ world, (balanceRequest Codec.plain reader 7 []).run
        (balanceRequest Codec.plain reader 7 []).start wholeSteps = some world ∧
      ∃ loaded counted, world.reads = [loaded, counted] ∧
        (Describes Codec.plain reader 7 (firstView 1) loaded ↔
          stream reader.tenantId 7 counted = stream reader.tenantId 7 loaded) ∧
        ((∃ moment, (balanceRequest Codec.plain reader 7 []).Passes wholeSteps moment ∧
            Describes Codec.plain reader 7 (firstView 1) moment.table) ↔
          balance Codec.plain reader 7
              { loadTable := counted, loadEnv := .ok, countTable := counted, countEnv := .ok } =
            balance Codec.plain reader 7
              { loadTable := loaded, loadEnv := .ok, countTable := counted, countEnv := .ok }) := by
  have hrun : (balanceRequest Codec.plain reader 7 []).run
      (balanceRequest Codec.plain reader 7 []).start wholeSteps =
        some
          { table := [firstRow, secondRow]
            request := .answered (some (.ok (firstView 1)))
            reads := [[firstRow], [firstRow]] } := by
    decide +kernel
  exact ⟨_, hrun, describes_iff_of_reads hrun rfl⟩

/-- The view counts two events and shows one entry, and no moment of the run has it. -/
theorem tornSteps_describe_nothing :
    ∃ world, (balanceRequest Codec.plain reader 7 []).run
        (balanceRequest Codec.plain reader 7 []).start tornSteps = some world ∧
      world.request = .answered (some (.ok (firstView 2))) ∧
      world.reads = [[firstRow], [firstRow, secondRow]] ∧
      ¬Describes Codec.plain reader 7 (firstView 2) [firstRow] ∧
      ¬∃ moment, (balanceRequest Codec.plain reader 7 []).Passes tornSteps moment ∧
        Describes Codec.plain reader 7 (firstView 2) moment.table := by
  have hrun : (balanceRequest Codec.plain reader 7 []).run
      (balanceRequest Codec.plain reader 7 []).start tornSteps =
        some
          { table := [firstRow, secondRow]
            request := .answered (some (.ok (firstView 2)))
            reads := [[firstRow], [firstRow, secondRow]] } := by
    decide +kernel
  refine ⟨_, hrun, rfl, rfl, by decide +kernel, ?_⟩
  rintro ⟨moment, hpasses, hdescribes⟩
  -- A moment with two events has both entries.
  have hlast : Describes Codec.plain reader 7 (firstView 2) [firstRow, secondRow] :=
    hdescribes.of_passes hpasses hrun List.prefix_rfl (by decide +kernel)
  revert hlast
  decide +kernel

end Falkr
