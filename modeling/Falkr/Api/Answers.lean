import Falkr.Api.Isolation

/-!
# Answers — what the callers of the service are told

An answer goes to a request that was made, and is a refusal, a sign of life, or data for a caller
whose token was issued with the scope to read.  Whichever it is, the transactions of the request
have read the rows of its caller's tenant alone (`answers_of_calls`).
-/

namespace Falkr

open Lib

/-! ## Callers -/

/-- The tenant that the token of the request was issued for. -/
def HttpRequest.caller (tokens : List (String × TenantContext)) (self : HttpRequest) :
    Option TenantId := do
  let token ← bearerToken self.headers
  let ctx ← tokens.lookup token
  pure ctx.tenantId

/-- The rows of a caller's tenant; of nobody, none. -/
def Database.readBy {J : Type} (caller : Option TenantId) (self : Database J) : Database J :=
  match caller with
  | some tenantId => self.own tenantId
  | none => { costs := [], graph := { experiments := [], runs := [] }, ledger := [] }

section Callers

variable {J : Type} {libs : ApiLibraries J} {resolver : StaticTokenResolver} {request : HttpRequest}

theorem caller_of_ok {ctx : TenantContext}
    (h : fromRequestParts resolver.resolve request.headers = .ok ctx) :
    request.caller resolver.tokens = some ctx.tenantId := by
  rcases fromRequestParts_eq_ok.1 h with ⟨token, htoken, hlookup⟩
  simp [HttpRequest.caller, htoken, hlookup]

theorem reads_iff {tenantId : TenantId} :
    Reads resolver.resolve request tenantId ↔
      request.Authorized resolver.tokens .read tenantId := by
  constructor
  · rintro ⟨ctx, hctx, htenant, hread⟩
    rcases fromRequestParts_eq_ok.1 hctx with ⟨token, htoken, hlookup⟩
    exact ⟨token, ctx, htoken, hlookup, htenant, hread⟩
  · rintro ⟨token, ctx, htoken, hlookup, htenant, hread⟩
    exact ⟨ctx, fromRequestParts_eq_ok.2 ⟨token, htoken, hlookup⟩, htenant, hread⟩

theorem Reads.caller {tenantId : TenantId} (h : Reads resolver.resolve request tenantId) :
    request.caller resolver.tokens = some tenantId := by
  rcases h with ⟨ctx, hctx, rfl, -⟩
  exact caller_of_ok hctx

/-- The first transaction of a request reads its caller's rows alone. -/
theorem serve_readBy (db : Database J) (now : DateTimeUtc) (env : ReadEnv) :
    serve libs resolver.resolve (db.readBy (request.caller resolver.tokens)) request now env =
      serve libs resolver.resolve db request now env := by
  cases hctx : fromRequestParts resolver.resolve request.headers with
  | ok ctx =>
      rw [caller_of_ok hctx]
      exact serve_own hctx db now env
  | error e =>
      -- Without a credential no handler is reached that asks the database.
      unfold serve
      rw [hctx]
      cases matchPath request.path with
      | none => rfl
      | some route => cases route <;> rfl

/-- So does the second. -/
theorem finish_readBy {pending : Pending} (h : Reads resolver.resolve request pending.tenantId)
    (db : Database J) (env : ReadEnv) :
    (finish libs (db.readBy (request.caller resolver.tokens)) env pending).2 =
      (finish libs db env pending).2 := by
  rw [h.caller]
  exact (congrArg Prod.snd (own_finish rfl db env)).symm

end Callers

/-! ## Answers -/

section Histories

variable {J : Type} (libs : ApiLibraries J) (resolver : StaticTokenResolver) (db : Database J)

/-- What a request can read after some calls. -/
def rowsRead (made : List ServiceCall) (request : HttpRequest) : Database J :=
  (Service.after libs resolver.resolve ⟨db, []⟩ made).db.readBy (request.caller resolver.tokens)

/-- The request was made under a number, and its first transaction left something to do. -/
def Awaits (made : List ServiceCall) (id : Nat) (request : HttpRequest) (pending : Pending) :
    Prop :=
  ∃ before now env later, made = before ++ .request id request now env :: later ∧
    serve libs resolver.resolve (rowsRead libs resolver db before request) request now env =
      .waiting pending

/-- The call comes to the answer of the request, in its first transaction or in its second, from the
rows that the request can read. -/
inductive ServiceCall.Answers (made : List ServiceCall) :
    ServiceCall → HttpRequest → Response → Prop
  | request {id : Nat} {request : HttpRequest} {now : DateTimeUtc} {env : ReadEnv}
      {answer : Response}
      (hserve : serve libs resolver.resolve (rowsRead libs resolver db made request) request now
        env = .answered (some answer)) :
      Answers made (.request id request now env) request answer
  | resume {tenantId : TenantId} {id : Nat} {env : ReadEnv} {request : HttpRequest}
      {pending : Pending} {answer : Response}
      (hcaller : request.caller resolver.tokens = some tenantId)
      (hawaits : Awaits libs resolver db made id request pending)
      (hfinish : (finish libs (rowsRead libs resolver db made request) env pending).2 =
        some answer) :
      Answers made (.resume tenantId id env) request answer

/-- What is in flight is left by a request of someone who may read. -/
def InFlight.Made (made : List ServiceCall) (entry : InFlight) : Prop :=
  ∃ request, Awaits libs resolver db made entry.id request entry.pending ∧
    request.method = entry.method ∧ Reads resolver.resolve request entry.tenantId

variable {libs resolver db}

theorem InFlight.Made.append {made : List ServiceCall} {entry : InFlight}
    (h : entry.Made libs resolver db made) (call : ServiceCall) :
    entry.Made libs resolver db (made ++ [call]) := by
  rcases h with ⟨request, ⟨before, now, env, later, rfl, hserve⟩, hmethod, hreads⟩
  exact ⟨request, ⟨before, now, env, later ++ [call], by simp, hserve⟩, hmethod, hreads⟩

theorem made_call {made : List ServiceCall}
    (h : ∀ entry ∈ (Service.after libs resolver.resolve ⟨db, []⟩ made).inFlight,
      entry.Made libs resolver db made) (call : ServiceCall) :
    ∀ entry ∈ ((Service.after libs resolver.resolve ⟨db, []⟩ made).call libs resolver.resolve
      call).1.inFlight, entry.Made libs resolver db (made ++ [call]) := by
  have hkept : ∀ entry ∈ (Service.after libs resolver.resolve ⟨db, []⟩ made).inFlight,
      entry.Made libs resolver db (made ++ [call]) :=
    fun entry hmem => (h entry hmem).append call
  cases call with
  | request id request now env =>
      have hallowed : (serve libs resolver.resolve
          (Service.after libs resolver.resolve ⟨db, []⟩ made).db request now env).Allowed libs
            resolver.resolve request :=
        serve_allowed now
      intro entry hmem
      cases hserve : serve libs resolver.resolve
          (Service.after libs resolver.resolve ⟨db, []⟩ made).db request now env with
      | answered response =>
          rw [Service.call_request_of_answered hserve] at hmem
          exact hkept entry hmem
      | waiting pending =>
          rw [hserve] at hallowed
          rw [Service.call_request_of_waiting hserve] at hmem
          rcases List.mem_append.1 hmem with hmem | hmem
          · exact hkept entry hmem
          · cases List.mem_singleton.1 hmem
            exact ⟨request, ⟨made, now, env, [], rfl, (serve_readBy _ now env).trans hserve⟩, rfl,
              hallowed⟩
  | resume tenantId id env =>
      intro entry hmem
      cases hfind : (Service.after libs resolver.resolve ⟨db, []⟩ made).inFlight.find? fun entry =>
          entry.tenantId = tenantId ∧ entry.id = id with
      | none =>
          rw [Service.call_resume_of_none hfind] at hmem
          exact hkept entry hmem
      | some found =>
          rw [Service.call_resume_of_some hfind] at hmem
          -- Resuming takes an entry away and adds none.
          exact hkept entry (List.mem_of_mem_eraseP hmem)
  | persist | upsertCosts | upsertExperiment | upsertRun => exact hkept

theorem made_after (made : List ServiceCall) :
    ∀ entry ∈ (Service.after libs resolver.resolve ⟨db, []⟩ made).inFlight,
      entry.Made libs resolver db made := by
  induction made using List.reverseRecOn with
  | nil =>
      intro entry hmem
      cases hmem
  | append_singleton made call ih =>
      rw [Service.after, List.foldl_append]
      exact made_call ih call

/-- A `HEAD` changes what is sent, not whether anything is. -/
theorem exists_of_send {method : HttpMethod} {sent : Option Response} {response : Response}
    (h : method.send sent = some response) : ∃ answer, sent = some answer := by
  cases sent with
  | some answer => exact ⟨answer, rfl⟩
  | none =>
      unfold HttpMethod.send at h
      split_ifs at h
      cases h

/-- Whoever a call answers, and from which rows. -/
theorem answers_call (made : List ServiceCall) (call : ServiceCall) {response : Response}
    (h : ((Service.after libs resolver.resolve ⟨db, []⟩ made).call libs resolver.resolve call).2 =
      .answered (some response)) :
    ∃ request answer, call.Answers libs resolver db made request answer ∧
      request.method.send (some answer) = some response ∧
      IsAnswer libs resolver.resolve request answer := by
  cases call with
  | request id request now env =>
      have hallowed : (serve libs resolver.resolve
          (Service.after libs resolver.resolve ⟨db, []⟩ made).db request now env).Allowed libs
            resolver.resolve request :=
        serve_allowed now
      cases hserve : serve libs resolver.resolve
          (Service.after libs resolver.resolve ⟨db, []⟩ made).db request now env with
      | waiting pending =>
          rw [Service.call_request_of_waiting hserve] at h
          cases h
      | answered sent =>
          rw [hserve] at hallowed
          rw [Service.call_request_of_answered hserve, ServiceResult.answered.injEq] at h
          rcases exists_of_send h with ⟨answer, rfl⟩
          exact ⟨request, answer, .request ((serve_readBy _ now env).trans hserve), h,
            hallowed answer rfl⟩
  | resume tenantId id env =>
      cases hfind : (Service.after libs resolver.resolve ⟨db, []⟩ made).inFlight.find? fun entry =>
          entry.tenantId = tenantId ∧ entry.id = id with
      | none =>
          rw [Service.call_resume_of_none hfind] at h
          cases h
      | some entry =>
          rw [Service.call_resume_of_some hfind, ServiceResult.answered.injEq] at h
          have hentry : entry.tenantId = tenantId ∧ entry.id = id := by
            simpa using List.find?_some hfind
          rcases hentry with ⟨rfl, rfl⟩
          rcases made_after made entry (List.mem_of_find?_eq_some hfind) with
            ⟨request, hawaits, hmethod, hreads⟩
          rcases exists_of_send h with ⟨answer, hanswer⟩
          refine ⟨request, answer, .resume hreads.caller hawaits ?_, ?_,
            finish_answers hreads hanswer⟩
          · exact (finish_readBy hreads _ env).trans hanswer
          · rw [hmethod, ← hanswer]
            exact h
  | persist | upsertCosts | upsertExperiment | upsertRun => cases h

end Histories

/-- However requests and writes take turns: an answer goes to a request that was made, from the rows
of its caller's tenant alone, and is a sign of life, data for a caller whose token was issued with
the scope to read, or a refusal.  What stays in flight belongs to such a caller as well. -/
theorem answers_of_calls {J : Type} (libs : ApiLibraries J) (resolver : StaticTokenResolver)
    (db : Database J) (made : List ServiceCall) (call : ServiceCall) :
    let service := Service.after libs resolver.resolve ⟨db, []⟩ made
    (∀ response ∈ (service.call libs resolver.resolve call).2.response,
      ∃ request answer, call.Answers libs resolver db made request answer ∧
        request.method.send (some answer) = some response ∧
        (Refusal libs request answer ∨
          (matchPath request.path = some .health ∧
            answer = { status := 200, body := .text "ok" }) ∨
          (answer.status = 200 ∧ ∃ tenantId, request.caller resolver.tokens = some tenantId ∧
            request.Authorized resolver.tokens .read tenantId))) ∧
      ∀ entry ∈ service.inFlight, ∃ request,
        Awaits libs resolver db made entry.id request entry.pending ∧
          request.method = entry.method ∧
          request.caller resolver.tokens = some entry.tenantId ∧
          request.Authorized resolver.tokens .read entry.tenantId := by
  intro service
  constructor
  · intro response hresponse
    have hanswered : (service.call libs resolver.resolve call).2 = .answered (some response) := by
      revert hresponse
      cases (service.call libs resolver.resolve call).2 with
      | answered sent =>
          intro hresponse
          exact congrArg ServiceResult.answered (Option.mem_def.1 hresponse)
      | _ =>
          intro hresponse
          cases hresponse
    rcases answers_call made call hanswered with ⟨request, answer, hanswers, hsend, hanswer⟩
    refine ⟨request, answer, hanswers, hsend, ?_⟩
    rcases hanswer with hrefused | hhealth | ⟨hok, tenantId, hreads⟩
    · exact Or.inl hrefused
    · exact Or.inr (Or.inl hhealth)
    · exact Or.inr (Or.inr ⟨hok, tenantId, hreads.caller, reads_iff.1 hreads⟩)
  · intro entry hmem
    rcases made_after made entry hmem with ⟨request, hawaits, hmethod, hreads⟩
    exact ⟨request, hawaits, hmethod, hreads.caller, reads_iff.1 hreads⟩

end Falkr
