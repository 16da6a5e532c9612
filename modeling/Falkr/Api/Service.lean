import Falkr.Api.Router
import Falkr.Infra.RunTenancy

/-!
# Service — the requests and writes of a running service

The requests of all callers and the writes of all tenants' workers take turns, one transaction at a
time.  A request with a second transaction stays in flight until it is resumed.

Requests write the attributed costs of runs and nothing else (`requests_write_costs`).
-/

namespace Falkr

open Lib

/-! ## Calls -/

def Pending.tenantId : Pending → TenantId
  | .runCost tenantId _ => tenantId
  | .balance tenantId _ _ => tenantId

/-- A request between its two transactions. -/
structure InFlight where
  id : Nat
  method : HttpMethod
  pending : Pending

def InFlight.tenantId (self : InFlight) : TenantId :=
  self.pending.tenantId

structure Service (J : Type) where
  db : Database J
  inFlight : List InFlight

/-- The transactions of requests, which are told by a number of their caller's, and of workers. -/
inductive ServiceCall
  | request (id : Nat) (request : HttpRequest) (now : DateTimeUtc) (env : ReadEnv)
  | resume (tenantId : TenantId) (id : Nat) (env : ReadEnv)
  | persist (tenantId : TenantId) (state : AggregateState (LedgerState Decimal))
      (events : List (LedgerEvent Decimal)) (env : PersistEnv)
  | upsertCosts (events : List CostEvent) (env : UpsertEnv)
  | upsertExperiment (experiment : Experiment) (env : GraphEnv)
  | upsertRun (run : Run) (env : GraphEnv)

/-- The call writes for a worker. -/
def ServiceCall.IsWrite : ServiceCall → Bool
  | .request _ _ _ _ => false
  | .resume _ _ _ => false
  | _ => true

inductive ServiceResult
  | answered (response : Option Response)
  | started
  | notInFlight
  | persisted (stored : Except LedgerStoreError (List (StoreEvent (LedgerEvent Decimal))))
  | upserted (outcome : Except StoreError UpsertOutcome)
  | experiment (result : Except ResearchStoreError Unit)
  | run (outcome : Except ResearchStoreError RunUpsert)

/-- The responses that a result is. -/
def ServiceResult.response : ServiceResult → Option Response
  | .answered response => response
  | _ => none

/-- `HEAD` is routed as `GET`, and its answer loses the body. -/
def HttpMethod.send (self : HttpMethod) (response : Option Response) : Option Response :=
  if self = .head then response.map fun response => { response with body := .empty } else response

section Calls

variable {J : Type} (libs : ApiLibraries J) (resolve : String → Option TenantContext)

def Service.call (self : Service J) : ServiceCall → Service J × ServiceResult
  | .request id request now env =>
      match serve libs resolve self.db request now env with
      | .answered response => (self, .answered (request.method.send response))
      | .waiting pending =>
          let entry := { id := id, method := request.method, pending := pending }
          ({ self with inFlight := self.inFlight ++ [entry] }, .started)
  | .resume tenantId id env =>
      match self.inFlight.find? fun entry => entry.tenantId = tenantId ∧ entry.id = id with
      | none => (self, .notInFlight)
      | some entry =>
          -- The request is over after its second transaction, however that ends.
          let rest := self.inFlight.eraseP fun entry => entry.tenantId = tenantId ∧ entry.id = id
          match finish libs self.db env entry.pending with
          | (db, response) =>
              ({ db := db, inFlight := rest }, .answered (entry.method.send response))
  | .persist tenantId state events env =>
      match persist libs.codec tenantId self.db.ledger state events env with
      | (ledger, _, stored) => ({ self with db := { self.db with ledger := ledger } }, .persisted stored)
  | .upsertCosts events env =>
      match upsert self.db.costs events env with
      | (costs, outcome) => ({ self with db := { self.db with costs := costs } }, .upserted outcome)
  | .upsertExperiment experiment env =>
      match upsertExperiment self.db.graph experiment env with
      | (graph, result) => ({ self with db := { self.db with graph := graph } }, .experiment result)
  | .upsertRun run env =>
      match upsertRun self.db.graph run env with
      | (graph, outcome) => ({ self with db := { self.db with graph := graph } }, .run outcome)

variable {libs resolve} {service : Service J}

namespace Service

theorem call_request_of_answered {id : Nat} {httpRequest : HttpRequest} {now : DateTimeUtc}
    {env : ReadEnv} {response : Option Response}
    (h : serve libs resolve service.db httpRequest now env = .answered response) :
    service.call libs resolve (.request id httpRequest now env) =
      (service, .answered (httpRequest.method.send response)) := by
  simp only [call, h]

theorem call_request_of_waiting {id : Nat} {httpRequest : HttpRequest} {now : DateTimeUtc}
    {env : ReadEnv} {pending : Pending}
    (h : serve libs resolve service.db httpRequest now env = .waiting pending) :
    service.call libs resolve (.request id httpRequest now env) =
      ({ service with inFlight := service.inFlight ++
          [{ id := id, method := httpRequest.method, pending := pending }] }, .started) := by
  simp only [call, h]

theorem call_resume_of_none {tenantId : TenantId} {id : Nat} {env : ReadEnv}
    (h : (service.inFlight.find? fun entry => entry.tenantId = tenantId ∧ entry.id = id) = none) :
    service.call libs resolve (.resume tenantId id env) = (service, .notInFlight) := by
  simp only [call, h]

theorem call_resume_of_some {tenantId : TenantId} {id : Nat} {env : ReadEnv} {entry : InFlight}
    (h : (service.inFlight.find? fun entry => entry.tenantId = tenantId ∧ entry.id = id) =
      some entry) :
    service.call libs resolve (.resume tenantId id env) =
      ({ db := (finish libs service.db env entry.pending).1
         inFlight := service.inFlight.eraseP fun entry =>
           entry.tenantId = tenantId ∧ entry.id = id },
        .answered (entry.method.send (finish libs service.db env entry.pending).2)) := by
  simp only [call, h]

end Service

variable (libs resolve)

/-- The service after some calls. -/
def Service.after (self : Service J) (calls : List ServiceCall) : Service J :=
  calls.foldl (fun service call => (service.call libs resolve call).1) self

end Calls

/-! ## Who is answered -/

/-- The request carries a token that was issued with a scope, for a tenant. -/
def HttpRequest.Authorized (tokens : List (String × TenantContext)) (scope : Scope)
    (tenantId : TenantId) (self : HttpRequest) : Prop :=
  ∃ token ctx, bearerToken self.headers = some token ∧ tokens.lookup token = some ctx ∧
    ctx.tenantId = tenantId ∧ scope ∈ ctx.scopes

/-- The answers that a request can be refused with. -/
inductive Refusal {J : Type} (libs : ApiLibraries J) (request : HttpRequest) : Response → Prop
  | noRoute : matchPath request.path = none → Refusal libs request { status := 404, body := .empty }
  | noMethod : request.method = .other → Refusal libs request { status := 405, body := .empty }
  | badPath (segment text : String) : segment ∈ request.path → libs.pathUuid segment = .error text →
      Refusal libs request { status := 400, body := .text text }
  | badQuery (text : String) : libs.queryTime request.query = .error text →
      Refusal libs request { status := 400, body := .text text }
  | unauthenticated : Refusal libs request ApiError.unauthenticated.intoResponse
  | forbidden : Refusal libs request (ApiError.forbidden .read).intoResponse
  | runNotFound : Refusal libs request (ApiError.notFound "run").intoResponse
  | internal : Refusal libs request
      { status := 500, body := .error { error := "internal", message := "an internal error occurred" } }

section Answers

variable {J : Type} {libs : ApiLibraries J} {resolve : String → Option TenantContext}
  {request : HttpRequest} {db : Database J} {ctx : TenantContext} {env : ReadEnv}

/-- The credential of the request has the scope to read, for a tenant. -/
def Reads (resolve : String → Option TenantContext) (request : HttpRequest) (tenantId : TenantId) :
    Prop :=
  ∃ ctx, fromRequestParts resolve request.headers = .ok ctx ∧ ctx.tenantId = tenantId ∧
    Scope.read ∈ ctx.scopes

/-- An answer is a refusal, a sign of life, or data for a reader. -/
def IsAnswer (libs : ApiLibraries J) (resolve : String → Option TenantContext)
    (request : HttpRequest) (response : Response) : Prop :=
  Refusal libs request response ∨
    (matchPath request.path = some .health ∧ response = { status := 200, body := .text "ok" }) ∨
    (response.status = 200 ∧ ∃ tenantId, Reads resolve request tenantId)

/-- What a first transaction may come to. -/
def Progress.Allowed (libs : ApiLibraries J) (resolve : String → Option TenantContext)
    (request : HttpRequest) : Progress → Prop
  | .answered response => ∀ answer, response = some answer → IsAnswer libs resolve request answer
  | .waiting pending => Reads resolve request pending.tenantId

theorem mem_of_matchPath {path : List String} {route : Route} {raw : String}
    (h : matchPath path = some route)
    (hraw : route = .run raw ∨ route = .runCost raw ∨ route = .balance raw) : raw ∈ path := by
  -- A route has the segment it was matched with as its parameter.
  have hparameter : ∀ {segment : String} {f : String → Route},
      parameter segment f = some route → route = f segment := by
    intro segment f hsome
    unfold parameter at hsome
    split_ifs at hsome
    exact (Option.some.inj hsome).symm
  unfold matchPath at h
  split at h
  · cases h
    simp at hraw
  · rcases hraw with rfl | rfl | rfl <;> cases hparameter h
    simp
  · rcases hraw with rfl | rfl | rfl <;> cases hparameter h
    simp
  · cases h
    simp at hraw
  · rcases hraw with rfl | rfl | rfl <;> cases hparameter h
    simp
  · cases h

theorem require_eq_ok {scope : Scope} {u : Unit} (h : ctx.require scope = .ok u) :
    scope ∈ ctx.scopes := by
  unfold TenantContext.require at h
  split_ifs at h with hhas
  simpa [TenantContext.has] using hhas

theorem require_eq_error {scope : Scope} {e : ApiError} (h : ctx.require scope = .error e) :
    e = .forbidden scope := by
  unfold TenantContext.require at h
  split_ifs at h
  exact (Except.error.inj h).symm

/-- The ways a handler's transaction fails, and what is left when it does not. -/
theorem requireRun_cases (libs : ApiLibraries J) (request : HttpRequest) (db : Database J)
    (ctx : TenantContext) (env : ReadEnv) (runId : RunId) :
    (∃ run, requireRun libs db ctx runId env = .ok run ∧ Scope.read ∈ ctx.scopes) ∨
      ∃ e, requireRun libs db ctx runId env = .error e ∧ Refusal libs request e.intoResponse := by
  -- The scope is checked before the database is asked.
  cases hrequire : ctx.require .read with
  | error e =>
      cases require_eq_error hrequire
      exact Or.inr ⟨_, by simp only [requireRun, hrequire]; rfl, .forbidden⟩
  | ok u =>
      cases hfind : findRun libs.decodeNumeric db.graph ctx.tenantId runId env with
      | error e => exact Or.inr ⟨_, by simp only [requireRun, hrequire, hfind]; rfl, .internal⟩
      | ok found =>
          cases found with
          | none => exact Or.inr ⟨_, by simp only [requireRun, hrequire, hfind]; rfl, .runNotFound⟩
          | some run =>
              exact Or.inl ⟨run, by simp only [requireRun, hrequire, hfind]; rfl,
                require_eq_ok hrequire⟩

/-- A handler that has checked the scope answers with a view, an internal error or a panic. -/
theorem respond_allowed {α : Type} {body : α → Body} {result : Option (Except ApiError α)}
    (hreads : ∀ view, result = some (.ok view) → ∃ tenantId, Reads resolve request tenantId)
    (herror : ∀ e, result = some (.error e) → Refusal libs request e.intoResponse) :
    (Progress.answered (respond body result)).Allowed libs resolve request := by
  intro answer hanswer
  cases result with
  | none => cases hanswer
  | some result =>
      cases result with
      | error e =>
          cases hanswer
          exact Or.inl (herror e rfl)
      | ok view =>
          cases hanswer
          exact Or.inr (Or.inr ⟨rfl, hreads view rfl⟩)

theorem refused_allowed {response : Response} (h : Refusal libs request response) :
    (Progress.answered (some response)).Allowed libs resolve request := by
  rintro answer ⟨⟩
  exact Or.inl h

theorem handle_allowed {route : Route} {now : DateTimeUtc}
    (hroute : matchPath request.path = some route)
    (hctx : fromRequestParts resolve request.headers = .ok ctx) :
    (handle libs db ctx request.query now env route).Allowed libs resolve request := by
  cases route with
  | health =>
      rintro answer ⟨⟩
      exact Or.inr (Or.inl ⟨hroute, rfl⟩)
  | run raw =>
      cases hraw : libs.pathUuid raw with
      | error text =>
          simp only [handle, hraw]
          exact refused_allowed (.badPath raw text (mem_of_matchPath hroute (by simp)) hraw)
      | ok runId =>
          simp only [handle, hraw]
          rcases requireRun_cases libs request db ctx env ⟨runId⟩ with
            ⟨run, hrun, hread⟩ | ⟨e, hrun, hrefused⟩
          · rw [hrun]
            exact respond_allowed (fun _ _ => ⟨_, ctx, hctx, rfl, hread⟩)
              (fun e h => by cases h)
          · rw [hrun]
            exact respond_allowed (fun view h => by cases h) (fun e' h => by cases h; exact hrefused)
  | runCost raw =>
      cases hraw : libs.pathUuid raw with
      | error text =>
          simp only [handle, hraw]
          exact refused_allowed (.badPath raw text (mem_of_matchPath hroute (by simp)) hraw)
      | ok runId =>
          simp only [handle, hraw]
          rcases requireRun_cases libs request db ctx env ⟨runId⟩ with
            ⟨run, hrun, hread⟩ | ⟨e, hrun, hrefused⟩
          · rw [hrun]
            exact ⟨ctx, hctx, rfl, hread⟩
          · rw [hrun]
            exact refused_allowed hrefused
  | coverage =>
      cases hquery : libs.queryTime request.query with
      | error text =>
          simp only [handle, hquery]
          exact refused_allowed (.badQuery text hquery)
      | ok since =>
          simp only [handle, hquery]
          cases hrequire : ctx.require .read with
          | error e =>
              cases require_eq_error hrequire
              simp only [getCoverage, hrequire]
              exact respond_allowed (fun view h => by cases h)
                (fun e h => by cases h; exact .forbidden)
          | ok u =>
              apply respond_allowed
              · intro _ _
                exact ⟨_, ctx, hctx, rfl, require_eq_ok hrequire⟩
              · intro e he
                simp only [getCoverage, hrequire] at he
                split at he
                · cases he
                  exact .internal
                · rcases Option.bind_eq_some_iff.1 he with ⟨view, -, hview⟩
                  cases hview
  | balance raw =>
      cases hraw : libs.pathUuid raw with
      | error text =>
          simp only [handle, hraw]
          exact refused_allowed (.badPath raw text (mem_of_matchPath hroute (by simp)) hraw)
      | ok aggregateId =>
          simp only [handle, hraw]
          cases hrequire : ctx.require .read with
          | error e =>
              cases require_eq_error hrequire
              simp only [balanceLoad, hrequire]
              exact refused_allowed .forbidden
          | ok u =>
              simp only [balanceLoad, hrequire]
              cases hload : load (m := Option) libs.codec ctx.tenantId db.ledger aggregateId env with
              | none =>
                  intro answer hanswer
                  cases hanswer
              | some loaded =>
                  cases loaded with
                  | error e => exact refused_allowed .internal
                  | ok state => exact ⟨ctx, hctx, rfl, require_eq_ok hrequire⟩

theorem fromRequestParts_error {e : ApiError}
    (h : fromRequestParts resolve request.headers = .error e) : e = .unauthenticated := by
  unfold fromRequestParts at h
  split at h
  · exact (Except.error.inj h).symm
  · split at h
    · exact (Except.error.inj h).symm
    · cases h

theorem serve_allowed (now : DateTimeUtc) :
    (serve libs resolve db request now env).Allowed libs resolve request := by
  unfold serve
  cases hroute : matchPath request.path with
  | none => exact refused_allowed (.noRoute hroute)
  | some route =>
      by_cases hmethod : request.method = .other
      · simp only [hmethod, if_true]
        exact refused_allowed (.noMethod hmethod)
      · simp only [hmethod, if_false]
        cases hctx : fromRequestParts resolve request.headers with
        | error e =>
            cases fromRequestParts_error hctx
            cases route with
            | health =>
                rintro answer ⟨⟩
                exact Or.inr (Or.inl ⟨hroute, rfl⟩)
            | run | runCost | coverage | balance => exact refused_allowed .unauthenticated
        | ok ctx =>
            -- Behind a valid credential the handler decides.
            have hallowed : (handle libs db ctx request.query now env route).Allowed libs resolve
                request :=
              handle_allowed hroute hctx
            cases route <;> exact hallowed

/-- The second transaction ends with a view, an internal error or a panic. -/
theorem finish_answers {pending : Pending} {response : Response}
    (hreads : Reads resolve request pending.tenantId)
    (h : (finish libs db env pending).2 = some response) : IsAnswer libs resolve request response := by
  -- The scope was checked in the first transaction; the second one can only fail inside.
  have hallowed : (Progress.answered (some response)).Allowed libs resolve request := by
    cases pending with
    | runCost tenantId runId =>
        rw [← h]
        apply respond_allowed
        · exact fun _ _ => ⟨tenantId, hreads⟩
        · intro e he
          have herror : (refresh libs db tenantId runId env).2 = .error e := Option.some.inj he
          unfold refresh at herror
          split at herror
          · cases herror
            exact .internal
          · split at herror
            · cases herror
              exact .internal
            · cases herror
    | balance tenantId aggregateId state =>
        rw [← h]
        apply respond_allowed
        · exact fun _ _ => ⟨tenantId, hreads⟩
        · intro e he
          unfold balanceCount at he
          split at he
          · cases he
            exact .internal
          · rcases Option.bind_eq_some_iff.1 he with ⟨view, -, hview⟩
            cases hview
  exact hallowed response rfl

end Answers

/-! ## What requests write -/

section Costs

variable {J : Type} {libs : ApiLibraries J} {resolve : String → Option TenantContext}

/-- A row that is as it was, or holds the sum of the costs of its run. -/
def AtMostRefreshed (libs : ApiLibraries J) (db : Database J) (row row' : StoredRun) : Prop :=
  row' = row ∨ ∃ attributed value,
    refreshedCost libs.decodeNumeric row.tenantId row.id db.graph.runs db.costs =
        .ok (attributed, value) ∧
      row' = { row with attributedCost := value }

/-- The databases differ in the attributed costs of runs that were refreshed. -/
structure Database.Refreshed (libs : ApiLibraries J) (db db' : Database J) : Prop where
  costs : db'.costs = db.costs
  ledger : db'.ledger = db.ledger
  experiments : db'.graph.experiments = db.graph.experiments
  runs : List.Forall₂ (AtMostRefreshed libs db) db.graph.runs db'.graph.runs
  /-- What any refresh would write is the same. -/
  refreshedCost : ∀ tenantId runId,
    Falkr.refreshedCost libs.decodeNumeric tenantId runId db'.graph.runs db.costs =
      Falkr.refreshedCost libs.decodeNumeric tenantId runId db.graph.runs db.costs

theorem Database.Refreshed.refl (db : Database J) : db.Refreshed libs db where
  costs := rfl
  ledger := rfl
  experiments := rfl
  runs := List.forall₂_same.2 fun _ _ => Or.inl rfl
  refreshedCost := fun _ _ => rfl

theorem Database.Refreshed.refresh {db db' : Database J} (h : db.Refreshed libs db')
    (tenantId : TenantId) (runId : RunId) (env : ReadEnv) :
    db.Refreshed libs (Falkr.refresh libs db' tenantId runId env).1 := by
  unfold Falkr.refresh
  cases env.failure with
  | some e => exact h
  | none =>
      simp only [refreshRun_eq, h.costs, h.refreshedCost]
      cases hcost : Falkr.refreshedCost libs.decodeNumeric tenantId runId db.graph.runs db.costs with
      | error e => exact ⟨rfl, h.ledger, h.experiments, h.runs, h.refreshedCost⟩
      | ok refreshed =>
          rcases refreshed with ⟨attributed, value⟩
          refine ⟨rfl, h.ledger, h.experiments, ?_, ?_⟩
          · apply List.forall₂_map_right_iff.2
            refine h.runs.imp ?_
            intro row row' hrow
            -- Whether or not it was refreshed before, the row is found under the same key.
            have hkey : row'.id = row.id ∧ row'.tenantId = row.tenantId := by
              rcases hrow with rfl | ⟨-, -, -, rfl⟩ <;> exact ⟨rfl, rfl⟩
            by_cases hsame : row'.id = runId ∧ row'.tenantId = tenantId
            · refine Or.inr ⟨attributed, value, ?_, ?_⟩
              · rw [← hkey.1, ← hkey.2, hsame.1, hsame.2, hcost]
              · rw [setStoredCost, if_pos hsame]
                rcases hrow with rfl | ⟨-, -, -, rfl⟩ <;> rfl
            · rw [setStoredCost, if_neg hsame]
              exact hrow
          · intro tenantId' runId'
            -- No refresh reads the column that refreshes write.
            rw [refreshedCost_setStoredCost, h.refreshedCost]

theorem Database.Refreshed.finish {db db' : Database J} (h : db.Refreshed libs db') (env : ReadEnv)
    (pending : Pending) : db.Refreshed libs (Falkr.finish libs db' env pending).1 := by
  cases pending with
  | runCost tenantId runId => exact h.refresh tenantId runId env
  | balance tenantId aggregateId state => exact h

theorem Database.Refreshed.call {db : Database J} {service : Service J}
    (h : db.Refreshed libs service.db) {call : ServiceCall} (hcall : call.IsWrite = false) :
    db.Refreshed libs (service.call libs resolve call).1.db := by
  cases call with
  | request id httpRequest now env =>
      cases hserve : serve libs resolve service.db httpRequest now env with
      | answered response =>
          rw [Service.call_request_of_answered hserve]
          exact h
      | waiting pending =>
          rw [Service.call_request_of_waiting hserve]
          exact h
  | resume tenantId id env =>
      cases hfind : service.inFlight.find? fun entry =>
          entry.tenantId = tenantId ∧ entry.id = id with
      | none =>
          rw [Service.call_resume_of_none hfind]
          exact h
      | some entry =>
          rw [Service.call_resume_of_some hfind]
          exact h.finish env entry.pending
  | persist | upsertCosts | upsertExperiment | upsertRun => cases hcall

theorem refreshed_after (service : Service J) (calls : List ServiceCall)
    (hcalls : ∀ call ∈ calls, call.IsWrite = false) :
    service.db.Refreshed libs (service.after libs resolve calls).db := by
  induction calls using List.reverseRecOn with
  | nil => exact .refl service.db
  | append_singleton calls call ih =>
      rw [Service.after, List.foldl_append]
      exact (ih fun call hmem => hcalls call (List.mem_append_left _ hmem)).call
        (hcalls call (by simp))

/-- However many requests are made, in whatever turns: they leave the cost events, the ledger and the
experiments as they are, and of the runs they change the attributed costs alone, each into the sum
that the cost events give. -/
theorem requests_write_costs (libs : ApiLibraries J) (resolve : String → Option TenantContext)
    (service : Service J) (calls : List ServiceCall) :
    service.db.Refreshed libs
      (service.after libs resolve (calls.filter fun call => !call.IsWrite)).db := by
  apply refreshed_after
  intro call hmem
  simpa using List.of_mem_filter hmem

end Costs

end Falkr
