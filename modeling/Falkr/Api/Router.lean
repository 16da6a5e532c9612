import Falkr.Api.Auth
import Falkr.Infra.CostCoverage
import Falkr.Infra.RunReads

/-!
# Router — the requests that the service answers

A request is matched by its path, then by its method.  Its credential is read before the parameters
of its path, and its scope is checked by the handler.  A handler runs one transaction or two; between
two the request is `Pending`, and other calls go through.

Amounts in the views are the numbers that their texts denote.
-/

namespace Falkr

open Lib

/-! ## Requests and responses -/

inductive HttpMethod
  | get
  | head
  | other
  deriving DecidableEq

structure HttpRequest where
  method : HttpMethod
  /-- What stands between the slashes of the path, not decoded. -/
  path : List String
  query : String
  headers : HeaderMap

structure RunView where
  id : Uuid
  experimentId : Uuid
  externalSource : String
  externalId : String
  status : String
  startedAt : DateTimeUtc
  endedAt : Option DateTimeUtc
  functionCode : String
  capitalizationStatus : String
  attributedCost : ℚ
  currency : String
  deriving DecidableEq

structure RunCostView where
  runId : Uuid
  attributedCost : ℚ
  currency : String
  deriving DecidableEq

structure CoverageView where
  totalEvents : Int64
  runAttributed : Int64
  fraction : String
  belowBuildGate : Bool
  deriving DecidableEq

structure ErrorBody where
  error : String
  message : String
  deriving DecidableEq

inductive Body
  | empty
  | text (text : String)
  | run (view : RunView)
  | runCost (view : RunCostView)
  | coverage (view : CoverageView)
  | balance (view : BalanceView)
  | error (body : ErrorBody)
  deriving DecidableEq

structure Response where
  status : Nat
  body : Body
  deriving DecidableEq

/-! ## Errors -/

namespace ApiError

def display : ApiError → String
  | unauthenticated => "authentication required"
  | forbidden missingScope => "missing required scope: " ++ missingScope.display
  | notFound what => what ++ " not found"
  | badRequest message => message
  | unprocessable message => message
  | internal _ => "internal error"

def status : ApiError → Nat
  | unauthenticated => 401
  | forbidden _ => 403
  | notFound _ => 404
  | badRequest _ => 400
  | unprocessable _ => 422
  | internal _ => 500

def code : ApiError → String
  | unauthenticated => "unauthenticated"
  | forbidden _ => "forbidden"
  | notFound _ => "not_found"
  | badRequest _ => "bad_request"
  | unprocessable _ => "unprocessable"
  | internal _ => "internal"

/-- Internal errors are logged in full and reported as a bare string. -/
def message : ApiError → String
  | internal _ => "an internal error occurred"
  | other => other.display

def intoResponse (e : ApiError) : Response where
  status := e.status
  body := .error { error := e.code, message := e.message }

end ApiError

/-- `storage`: the cause that is logged is the text of the error. -/
def storage (text : String) : ApiError :=
  .internal (.backend text)

def StoreError.display : StoreError → String
  | backend detail => "storage backend failed: " ++ detail
  | missingTenantContext =>
      "tenant context was not set on the connection; RLS would silently return nothing"

def ResearchStoreError.display : ResearchStoreError → String
  | backend detail => "storage backend failed: " ++ detail
  | unknownExperiment id => "experiment " ++ id ++ " does not exist"

/-! ## Routes -/

inductive Route
  | health
  | run (runId : String)
  | runCost (runId : String)
  | coverage
  | balance (aggregateId : String)
  deriving DecidableEq

/-- A parameter takes one segment of the path, which is not empty. -/
def parameter (segment : String) (route : String → Route) : Option Route :=
  if segment.isEmpty then none else some (route segment)

def matchPath : List String → Option Route
  | ["health"] => some .health
  | ["v1", "runs", runId] => parameter runId .run
  | ["v1", "runs", runId, "cost"] => parameter runId .runCost
  | ["v1", "cost", "coverage"] => some .coverage
  | ["v1", "ledger", aggregateId, "balance"] => parameter aggregateId .balance
  | _ => none

/-- What the handlers' libraries do: the extractors of the path and the query, each with the text of
its rejection, and the driver. -/
structure ApiLibraries (J : Type) where
  pathUuid : String → Except String Uuid
  queryTime : String → Except String (Option DateTimeUtc)
  decodeNumeric : ℚ → Except String ℚ
  codec : Codec (LedgerEvent Decimal) J

/-- What the service stores, of all tenants. -/
structure Database (J : Type) where
  costs : List CostRow
  graph : GraphStore
  ledger : List (LedgerRow J)

/-! ## Handlers -/

/-- What a request that has run its first transaction waits to do in its second. -/
inductive Pending
  | runCost (tenantId : TenantId) (runId : RunId)
  | balance (tenantId : TenantId) (aggregateId : Uuid) (state : AggregateState (LedgerState Decimal))

inductive Progress
  /-- `none` is a panic, which closes the connection. -/
  | answered (response : Option Response)
  | waiting (pending : Pending)

/-- What a handler that has returned is answered with. -/
def respond {α : Type} (body : α → Body) : Option (Except ApiError α) → Option Response
  | none => none
  | some (.ok view) => some { status := 200, body := body view }
  | some (.error e) => some e.intoResponse

def rejected (text : String) : Progress :=
  .answered (some { status := 400, body := .text text })

def runView (run : Run) : RunView where
  id := run.id.asUuid
  experimentId := run.experimentId.asUuid
  externalSource := run.externalRef.source.asStr
  externalId := run.externalRef.externalId
  status := run.status.asStr
  startedAt := run.startedAt
  endedAt := run.endedAt
  functionCode := run.functionCode.asStr
  capitalizationStatus := run.capitalizationStatus.asStr
  attributedCost := run.attributedCost.amount
  currency := run.attributedCost.currency.code

def runCostView (runId : RunId) (cost : Money ℚ) : RunCostView where
  runId := runId.asUuid
  attributedCost := cost.amount
  currency := cost.currency.code

/-- The view of a coverage; `none` is the panic of the division. -/
def coverageView (coverage : Coverage) : Option CoverageView := do
  let fraction ← coverage.fraction
  let belowBuildGate ← coverage.belowBuildGate
  pure
    { totalEvents := coverage.totalEvents
      runAttributed := coverage.runAttributed
      fraction := fraction.display
      belowBuildGate := belowBuildGate }

section Handlers

variable {J : Type} (libs : ApiLibraries J)

/-- The first transaction of `get_run` and of `get_run_cost`. -/
def requireRun (db : Database J) (ctx : TenantContext) (runId : RunId) (env : ReadEnv) :
    Except ApiError Run := do
  ctx.require .read
  let found ← (findRun libs.decodeNumeric db.graph ctx.tenantId runId env).mapError
    fun e => storage e.display
  match found with
  | some run => pure run
  -- Another tenant's run is not found either.
  | none => throw (.notFound "run")

/-- `attribution_coverage`, since a time that defaults to 24 hours ago. -/
def getCoverage (db : Database J) (ctx : TenantContext) (since : Option DateTimeUtc)
    (now : DateTimeUtc) (env : ReadEnv) : Option (Except ApiError CoverageView) :=
  match ctx.require .read with
  | .error e => pure (.error e)
  | .ok () =>
      let since := since.getD { nanos := now.nanos - 24 * 3600 * 1000000000 }
      match attributionCoverage db.costs ctx.tenantId since env with
      | .error e => pure (.error (storage e.display))
      | .ok coverage => do
          let view ← coverageView coverage
          pure (.ok view)

/-- The first transaction of `balance`. -/
def balanceLoad (db : Database J) (ctx : TenantContext) (aggregateId : Uuid) (env : ReadEnv) :
    Option (Except ApiError (AggregateState (LedgerState Decimal))) :=
  match ctx.require .read with
  | .error e => pure (.error e)
  | .ok () => do
      match ← load libs.codec ctx.tenantId db.ledger aggregateId env with
      | .error e => pure (.error (.internal e))
      | .ok state => pure (.ok state)

/-- The second transaction of `balance`. -/
def balanceCount (db : Database J) (tenantId : TenantId) (aggregateId : Uuid)
    (state : AggregateState (LedgerState Decimal)) (env : ReadEnv) :
    Option (Except ApiError BalanceView) :=
  match eventCount libs.codec tenantId db.ledger aggregateId env with
  | .error e => pure (.error (.internal e))
  | .ok count => do
      let view ← balanceView aggregateId count state.inner
      pure (.ok view)

/-- The handler of a route, as far as its first transaction. -/
def handle (db : Database J) (ctx : TenantContext) (query : String) (now : DateTimeUtc)
    (env : ReadEnv) : Route → Progress
  | .health => .answered (some { status := 200, body := .text "ok" })
  | .run raw =>
      match libs.pathUuid raw with
      | .error text => rejected text
      | .ok runId =>
          .answered (respond .run (some ((requireRun libs db ctx ⟨runId⟩ env).map runView)))
  | .runCost raw =>
      match libs.pathUuid raw with
      | .error text => rejected text
      | .ok runId =>
          match requireRun libs db ctx ⟨runId⟩ env with
          | .error e => .answered (some e.intoResponse)
          | .ok _ => .waiting (.runCost ctx.tenantId ⟨runId⟩)
  | .coverage =>
      match libs.queryTime query with
      | .error text => rejected text
      | .ok since => .answered (respond .coverage (getCoverage db ctx since now env))
  | .balance raw =>
      match libs.pathUuid raw with
      | .error text => rejected text
      | .ok aggregateId =>
          match balanceLoad libs db ctx aggregateId env with
          | none => .answered none
          | some (.error e) => .answered (some e.intoResponse)
          | some (.ok state) => .waiting (.balance ctx.tenantId aggregateId state)

/-- The router, as far as the first transaction.  Liveness is the one route without a credential. -/
def serve (resolve : String → Option TenantContext) (db : Database J) (request : HttpRequest)
    (now : DateTimeUtc) (env : ReadEnv) : Progress :=
  match matchPath request.path with
  | none => .answered (some { status := 404, body := .empty })
  | some route =>
      if request.method = .other then .answered (some { status := 405, body := .empty })
      else
        match route, fromRequestParts resolve request.headers with
        | .health, _ => .answered (some { status := 200, body := .text "ok" })
        | _, .error e => .answered (some e.intoResponse)
        | route, .ok ctx => handle libs db ctx request.query now env route

/-- The error, if any, of a transaction none of whose statements says more. -/
def ReadEnv.failure (env : ReadEnv) : Option String :=
  env.beginError <|> env.selectError <|> env.commitError

/-- The second transaction of `get_run_cost`. -/
def refresh (db : Database J) (tenantId : TenantId) (runId : RunId) (env : ReadEnv) :
    Database J × Except ApiError RunCostView :=
  match env.failure with
  -- Whichever statement fails, nothing has been committed.
  | some e => (db, .error (storage (ResearchStoreError.backend e).display))
  | none =>
      match refreshRun libs.decodeNumeric db.graph tenantId runId db.costs with
      | (graph, .error e) => ({ db with graph := graph }, .error (storage e.display))
      | (graph, .ok cost) => ({ db with graph := graph }, .ok (runCostView runId cost))

/-- The second transaction of a request, and its answer. -/
def finish (db : Database J) (env : ReadEnv) : Pending → Database J × Option Response
  | .runCost tenantId runId =>
      match refresh libs db tenantId runId env with
      | (db, result) => (db, respond .runCost (some result))
  | .balance tenantId aggregateId state =>
      (db, respond .balance (balanceCount libs db tenantId aggregateId state env))

/-- The two transactions of a request for a balance make up its handler. -/
theorem balance_eq (ctx : TenantContext) (aggregateId : Uuid) (env : BalanceEnv J)
    (db db' : Database J) (hload : db.ledger = env.loadTable) (hcount : db'.ledger = env.countTable) :
    balance libs.codec ctx aggregateId env =
      (balanceLoad libs db ctx aggregateId env.loadEnv).bind fun loaded =>
        match loaded with
        | .error e => some (.error e)
        | .ok state => balanceCount libs db' ctx.tenantId aggregateId state env.countEnv := by
  unfold balance balanceLoad balanceCount
  rw [hload, hcount]
  cases ctx.require .read with
  | error e => rfl
  | ok _ =>
      cases load (m := Option) libs.codec ctx.tenantId env.loadTable aggregateId env.loadEnv with
      | none => rfl
      | some loaded => cases loaded <;> rfl

end Handlers

end Falkr
