import Falkr.Infra.RunStore
import Falkr.ResearchGraph.Wandb

/-!
# RunRedelivery — tracker records that come again

Polls and webhooks deliver the versions of a run at least once and in any order.  The `WHERE` of
`upsert_run` compares contents, not recency: whatever is delivered last is stored, be it older than
what it replaces.  So a record that comes again leaves the row alone exactly if it says what the
record taken last said (`redeliveries_harmless_iff`).
-/

namespace Falkr

open Lib

/-! ## Deliveries -/

/-- A record on its way to `upsert_run`, with the fresh identifier and the errors it meets. -/
structure Delivery where
  connector : WandbConnector
  raw : RawRunRecord
  runId : RunId
  env : GraphEnv

/-- The columns that say how far a run is. -/
def StoredRun.timeline (self : StoredRun) : String × Int × Option Int :=
  (self.status, self.startedAt, self.endedAt)

/-- How far a run is, as its row keeps it. -/
def Run.timeline (self : Run) : String × Int × Option Int :=
  (self.status.asStr, toMicros self.startedAt, self.endedAt.map toMicros)

def timelineOf (identity : TenantId × String × String) (store : GraphStore) :
    Option (String × Int × Option Int) :=
  (findIdentity identity store.runs).map StoredRun.timeline

section Deliveries

variable (parse : String → Option DateTimeUtc)

namespace Delivery

def run (self : Delivery) : Option Run :=
  (self.connector.normalize parse self.runId self.raw).toOption

/-- What the record says of the run. -/
def timeline (self : Delivery) : Option (String × Int × Option Int) :=
  (self.run parse).map Run.timeline

/-- The delivery's `upsert_run` succeeds. -/
def taken (self : Delivery) (store : GraphStore) : Bool :=
  match self.run parse with
  | some run => (upsertRun store run self.env).2.isOk
  | none => false

end Delivery

def deliver (store : GraphStore) (delivery : Delivery) : GraphStore :=
  match delivery.run parse with
  | some run => (upsertRun store run delivery.env).1
  | none => store

def deliverAll (store : GraphStore) (deliveries : List Delivery) : GraphStore :=
  deliveries.foldl (deliver parse) store

/-- The deliveries that succeed, in order. -/
def takenOf : GraphStore → List Delivery → List Delivery
  | _, [] => []
  | store, delivery :: rest =>
      if delivery.taken parse store then delivery :: takenOf (deliver parse store delivery) rest
      else takenOf (deliver parse store delivery) rest

/-- All records are of one run. -/
def OneRun (identity : TenantId × String × String) (deliveries : List Delivery) : Prop :=
  ∀ delivery ∈ deliveries, (delivery.run parse).map Run.identity = some identity

instance (identity : TenantId × String × String) (deliveries : List Delivery) :
    Decidable (OneRun parse identity deliveries) :=
  inferInstanceAs (Decidable (∀ delivery ∈ deliveries, _))

/-- The record of the delivery was delivered before. -/
def Redelivered (store : GraphStore) (older : List Delivery) (delivery : Delivery) : Prop :=
  ∃ earlier first later, older = earlier ++ first :: later ∧
    first.raw.payload = delivery.raw.payload ∧ first.taken parse (deliverAll parse store earlier)

/-- Whenever a record is delivered again, status, start and end of the run stay as they are. -/
def HarmlessRedeliveries (identity : TenantId × String × String) (store : GraphStore)
    (deliveries : List Delivery) : Prop :=
  ∀ older delivery newer, deliveries = older ++ delivery :: newer →
    Redelivered parse store older delivery →
      timelineOf identity (deliverAll parse store (older ++ [delivery])) =
        timelineOf identity (deliverAll parse store older)

/-- Whenever a record is delivered again and no statement fails, it agrees in status, start and end
with the record taken last. -/
def NothingNewer (store : GraphStore) (deliveries : List Delivery) : Prop :=
  ∀ older delivery newer, deliveries = older ++ delivery :: newer →
    Redelivered parse store older delivery → delivery.env.Quiet →
      (takenOf parse store older).getLast?.bind (Delivery.timeline parse) =
        delivery.timeline parse

end Deliveries

variable {parse : String → Option DateTimeUtc}

/-! ## One record, read twice -/

/-- Of a run that is read from a record, only identifiers and currency are the reader's. -/
theorem normalize_congr (connector' : WandbConnector) (runId' : RunId) {connector : WandbConnector}
    {runId : RunId} {raw raw' : RawRunRecord} {run : Run} (hraw : raw.payload = raw'.payload)
    (h : connector.normalize parse runId raw = .ok run) :
    run.tenantId = connector.tenantId ∧ run.attributedCost = Money.zero connector.currency ∧
      connector'.normalize parse runId' raw' = .ok { run with
        id := runId'
        tenantId := connector'.tenantId
        experimentId := connector'.experimentId
        attributedCost := Money.zero connector'.currency } := by
  rcases WandbConnector.exists_fields_of_normalize h with
    ⟨status, createdAt, startedAt, heartbeat, endedAt, ref, hstatus, hcreated, hstarted, hheartbeat,
      hended, hexternal, rfl⟩
  refine ⟨rfl, rfl, ?_⟩
  rw [hraw] at hstatus hcreated hheartbeat hended hexternal
  simp [WandbConnector.normalize, hstatus, hcreated, hstarted, hheartbeat, hended, hexternal, bind,
    Except.bind]

/-! ## What is stored -/

theorem timeline_of_progress {row row' : StoredRun} (h : row.progress = row'.progress) :
    row.timeline = row'.timeline := by
  simp only [StoredRun.progress, Prod.mk.injEq] at h
  simp [StoredRun.timeline, h]

/-- An upsert that succeeds stores what the run says. -/
theorem exists_stored_of_upsertRun {store store' : GraphStore} {run : Run} {env : GraphEnv}
    {outcome : RunUpsert} (h : upsertRunTx store run env = .ok (store', outcome)) :
    ∃ stored attributedCost, findIdentity run.identity store'.runs = some stored ∧
      stored.progress = (run.row attributedCost).progress := by
  rcases upsertRunTx_eq_ok.1 h with ⟨-, row, runs, returned, hrow, hruns, -, rfl⟩
  rcases encodeRun_eq_ok.1 hrow with ⟨-, -, attributedCost, -, rfl⟩
  rcases findIdentity_insertRun hruns with ⟨stored, hstored, hprogress⟩
  exact ⟨stored, attributedCost, hstored, hprogress⟩

theorem timelineOf_of_upsertRun {store store' : GraphStore} {run : Run} {env : GraphEnv}
    {outcome : RunUpsert} (h : upsertRunTx store run env = .ok (store', outcome)) :
    timelineOf run.identity store' = some run.timeline := by
  rcases exists_stored_of_upsertRun h with ⟨stored, attributedCost, hstored, hprogress⟩
  have htimeline : stored.timeline = run.timeline := timeline_of_progress hprogress
  exact Option.map_eq_some_iff.2 ⟨stored, hstored, htimeline⟩

theorem deliver_of_not_taken {store : GraphStore} {delivery : Delivery}
    (h : delivery.taken parse store = false) : deliver parse store delivery = store := by
  cases hrun : delivery.run parse with
  | none => simp [deliver, hrun]
  | some run =>
      rcases upsertRun_cases store run delivery.env with ⟨e, -, hcall⟩ | ⟨store', outcome, -, hcall⟩
      · simp [deliver, hrun, hcall]
      · simp [Delivery.taken, hrun, hcall, Except.isOk, Except.toBool] at h

theorem timelineOf_of_taken {identity : TenantId × String × String} {store : GraphStore}
    {delivery : Delivery} (h : delivery.taken parse store = true)
    (hone : (delivery.run parse).map Run.identity = some identity) :
    timelineOf identity (deliver parse store delivery) = delivery.timeline parse := by
  rcases Option.map_eq_some_iff.1 hone with ⟨run, hrun, rfl⟩
  rcases upsertRun_cases store run delivery.env with ⟨e, -, hcall⟩ | ⟨store', outcome, htx, hcall⟩
  · simp [Delivery.taken, hrun, hcall, Except.isOk, Except.toBool] at h
  · have hstored := timelineOf_of_upsertRun htx
    simpa [deliver, Delivery.timeline, hrun, hcall] using hstored

theorem deliverAll_append (store : GraphStore) (older newer : List Delivery) :
    deliverAll parse store (older ++ newer) = deliverAll parse (deliverAll parse store older) newer :=
  List.foldl_append

theorem takenOf_append (newer : List Delivery) :
    ∀ (older : List Delivery) (store : GraphStore),
      takenOf parse store (older ++ newer) =
        takenOf parse store older ++ takenOf parse (deliverAll parse store older) newer
  | [], store => rfl
  | first :: rest, store => by
      have ih := takenOf_append newer rest (deliver parse store first)
      have hcons : deliverAll parse store (first :: rest) =
          deliverAll parse (deliver parse store first) rest := rfl
      by_cases h : first.taken parse store = true <;> simp [takenOf, h, ih, hcons]

/-- The row says what the record taken last said. -/
theorem timelineOf_deliverAll {identity : TenantId × String × String} {store : GraphStore}
    {deliveries : List Delivery} (hone : OneRun parse identity deliveries) {last : Delivery}
    (hlast : (takenOf parse store deliveries).getLast? = some last) :
    timelineOf identity (deliverAll parse store deliveries) = last.timeline parse := by
  -- On the delivery that came last: either it was taken, or the row is as the others left it.
  induction deliveries using List.reverseRecOn with
  | nil => simp [takenOf] at hlast
  | append_singleton older delivery ih =>
      have hrun := hone delivery (by simp)
      have hold : OneRun parse identity older := fun d hd => hone d (by simp [hd])
      have hstep : deliverAll parse store (older ++ [delivery]) =
          deliver parse (deliverAll parse store older) delivery := deliverAll_append _ _ _
      rw [takenOf_append] at hlast
      rw [hstep]
      by_cases htaken : delivery.taken parse (deliverAll parse store older) = true
      · have heq : delivery = last := by simpa [takenOf, htaken] using hlast
        rw [timelineOf_of_taken htaken hrun, heq]
      · rw [Bool.not_eq_true] at htaken
        rw [deliver_of_not_taken htaken]
        exact ih hold (by simpa [takenOf, htaken] using hlast)

theorem Redelivered.exists_last {store : GraphStore} {older : List Delivery} {delivery : Delivery}
    (h : Redelivered parse store older delivery) :
    ∃ last, (takenOf parse store older).getLast? = some last := by
  rcases h with ⟨earlier, first, later, rfl, -, htaken⟩
  have hne : takenOf parse store (earlier ++ first :: later) ≠ [] := by
    rw [takenOf_append]
    simp [takenOf, htaken]
  exact ⟨_, List.getLast?_eq_some_getLast hne⟩

/-! ## Records that come again -/

theorem encodeRun_congr {run run' : Run} {row : StoredRun} (h : encodeRun run = .ok row)
    (htext : run'.externalRef.externalId = run.externalRef.externalId)
    (hstart : run'.startedAt = run.startedAt) (hend : run'.endedAt = run.endedAt)
    (hcost : run'.attributedCost.amount = run.attributedCost.amount) :
    ∃ row', encodeRun run' = .ok row' := by
  rcases encodeRun_eq_ok.1 h with ⟨hok, hends, attributedCost, hnumeric, -⟩
  have hends' : ¬run'.EndsBeforeStart := by
    -- Both runs have the same start and end, so the same check decides.
    rintro ⟨endedAt, hsome, hlt⟩
    exact hends ⟨endedAt, hend ▸ hsome, hstart ▸ hlt⟩
  exact ⟨_, encodeRun_eq_ok.2 ⟨htext ▸ hok, hends', attributedCost, hcost ▸ hnumeric, rfl⟩⟩

theorem run_eq_some {delivery : Delivery} {run : Run} :
    delivery.run parse = some run ↔
      delivery.connector.normalize parse delivery.runId delivery.raw = .ok run := by
  cases h : delivery.connector.normalize parse delivery.runId delivery.raw <;>
    simp [Delivery.run, h, Except.toOption]

theorem mem_of_mem_takenOf {delivery : Delivery} :
    ∀ {deliveries : List Delivery} {store : GraphStore},
      delivery ∈ takenOf parse store deliveries → delivery ∈ deliveries
  | [], _, h => h
  | first :: rest, store, h => by
      by_cases htaken : first.taken parse store = true
      · rcases (by simpa [takenOf, htaken] using h :
          delivery = first ∨ delivery ∈ takenOf parse (deliver parse store first) rest) with rfl | h
        · exact List.mem_cons_self
        · exact List.mem_cons_of_mem _ (mem_of_mem_takenOf h)
      · exact List.mem_cons_of_mem _ (mem_of_mem_takenOf (by simpa [takenOf, htaken] using h))

theorem not_taken_of_not_quiet {store : GraphStore} {delivery : Delivery}
    (h : ¬delivery.env.Quiet) : delivery.taken parse store = false := by
  cases hrun : delivery.run parse with
  | none => simp [Delivery.taken, hrun]
  | some run =>
      rcases upsertRun_cases store run delivery.env with ⟨e, -, hcall⟩ | ⟨store', outcome, htx, -⟩
      · simp [Delivery.taken, hrun, hcall, Except.isOk, Except.toBool]
      · exact absurd (upsertRunTx_eq_ok.1 htx).1 h

/-- A record that was taken once is encoded again without an error. -/
theorem Redelivered.encodes {store : GraphStore} {older : List Delivery} {delivery : Delivery}
    {run : Run} (h : Redelivered parse store older delivery)
    (hrun : delivery.run parse = some run) : ∃ row, encodeRun run = .ok row := by
  rcases h with ⟨earlier, first, later, -, hpayload, htaken⟩
  cases hfirst : first.run parse with
  | none => simp [Delivery.taken, hfirst] at htaken
  | some firstRun =>
      rcases upsertRun_cases (deliverAll parse store earlier) firstRun first.env with
        ⟨e, -, hcall⟩ | ⟨store', outcome, htx, -⟩
      · simp [Delivery.taken, hfirst, hcall, Except.isOk, Except.toBool] at htaken
      · rcases upsertRunTx_eq_ok.1 htx with ⟨-, row, -, -, hrow, -⟩
        rcases normalize_congr delivery.connector delivery.runId hpayload
          (run_eq_some.1 hfirst) with ⟨-, hcost, hagain⟩
        -- The reader's own columns, identifiers and currency, do not enter the encoding.
        cases hrun.symm.trans (run_eq_some.2 hagain)
        exact encodeRun_congr hrow rfl rfl rfl (by rw [hcost]; rfl)

/-- Of a run that is there, an upsert stores what it says unless the connection fails. -/
theorem exists_stored_of_quiet {store : GraphStore} {run : Run} {env : GraphEnv}
    {row existing : StoredRun} (hrow : encodeRun run = .ok row) (henv : env.Quiet)
    (hexisting : findIdentity run.identity store.runs = some existing) :
    ∃ stored attributedCost,
      findIdentity run.identity (upsertRun store run env).1.runs = some stored ∧
        stored.progress = (run.row attributedCost).progress := by
  rcases upsertRun_cases store run env with ⟨e, htx, hcall⟩ | ⟨store', outcome, htx, hcall⟩
  · rcases encodeRun_eq_ok.1 hrow with ⟨-, -, attributedCost, -, rfl⟩
    by_cases hsame : existing.progress = (run.row attributedCost).progress
    · exact ⟨existing, attributedCost, by rw [hcall]; exact hexisting, hsame⟩
    · -- The update goes through, so the call does.
      have hidentity : findIdentity (run.row attributedCost).identity store.runs = some existing :=
        hexisting
      have hinsert := insertRun_of_findIdentity hidentity
      rw [if_neg hsame] at hinsert
      have hok := upsertRunTx_eq_ok.2 ⟨henv, _, _, _, hrow, hinsert, rfl, rfl⟩
      rw [htx] at hok
      cases hok
  · rw [hcall]
    exact exists_stored_of_upsertRun htx

theorem timelineOf_of_quiet {store : GraphStore} {run : Run} {env : GraphEnv}
    {row existing : StoredRun} (hrow : encodeRun run = .ok row) (henv : env.Quiet)
    (hexisting : findIdentity run.identity store.runs = some existing) :
    timelineOf run.identity (upsertRun store run env).1 = some run.timeline := by
  rcases exists_stored_of_quiet hrow henv hexisting with
    ⟨stored, attributedCost, hstored, hprogress⟩
  have htimeline : stored.timeline = run.timeline := timeline_of_progress hprogress
  exact Option.map_eq_some_iff.2 ⟨stored, hstored, htimeline⟩

/-- What is stored when a record has come again, and no statement failed, is what it says. -/
theorem Redelivered.timelineOf_deliver {identity : TenantId × String × String} {store : GraphStore}
    {older : List Delivery} {delivery : Delivery} (h : Redelivered parse store older delivery)
    (hone : OneRun parse identity (older ++ [delivery])) (henv : delivery.env.Quiet) :
    timelineOf identity (deliverAll parse store (older ++ [delivery])) =
      delivery.timeline parse := by
  have hold : OneRun parse identity older := fun d hd => hone d (by simp [hd])
  rcases Option.map_eq_some_iff.1 (hone delivery (by simp)) with ⟨run, hrun, rfl⟩
  rcases h.encodes hrun with ⟨row, hrow⟩
  rcases h.exists_last with ⟨last, hlast⟩
  have hlastRun : last ∈ older := mem_of_mem_takenOf (List.mem_of_getLast? hlast)
  have hstored := timelineOf_deliverAll hold hlast
  rcases Option.map_eq_some_iff.1 (hold last hlastRun) with ⟨lastRun, hlastRun, -⟩
  have hsome : timelineOf run.identity (deliverAll parse store older) = some lastRun.timeline := by
    simpa [Delivery.timeline, hlastRun] using hstored
  rcases Option.map_eq_some_iff.1 hsome with ⟨stored, hfind, -⟩
  have hafter := timelineOf_of_quiet hrow henv hfind
  rw [deliverAll_append]
  simpa [deliverAll, deliver, Delivery.timeline, hrun] using hafter

/-- A record that comes again leaves the row as it is if a statement fails, or if it says what was
taken last. -/
theorem Redelivered.unchanged_iff {identity : TenantId × String × String} {store : GraphStore}
    {older : List Delivery} {delivery : Delivery} (h : Redelivered parse store older delivery)
    (hone : OneRun parse identity (older ++ [delivery])) :
    timelineOf identity (deliverAll parse store (older ++ [delivery])) =
        timelineOf identity (deliverAll parse store older) ↔
      (delivery.env.Quiet →
        (takenOf parse store older).getLast?.bind (Delivery.timeline parse) =
          delivery.timeline parse) := by
  have hold : OneRun parse identity older := fun d hd => hone d (by simp [hd])
  rcases h.exists_last with ⟨last, hlast⟩
  rw [hlast, Option.bind_some, timelineOf_deliverAll hold hlast]
  by_cases henv : delivery.env.Quiet
  · rw [h.timelineOf_deliver hone henv]
    simp [henv, eq_comm]
  · have hfailed : delivery.taken parse (deliverAll parse store older) = false :=
      not_taken_of_not_quiet henv
    have hsame : deliverAll parse store (older ++ [delivery]) = deliverAll parse store older := by
      rw [deliverAll_append]
      exact deliver_of_not_taken hfailed
    simp [henv, hsame, timelineOf_deliverAll hold hlast]

/-- Records that come again are harmless exactly if none of them is older than what was taken
last. -/
theorem redeliveries_harmless_iff {identity : TenantId × String × String} (store : GraphStore)
    {deliveries : List Delivery} (hone : OneRun parse identity deliveries) :
    HarmlessRedeliveries parse identity store deliveries ↔ NothingNewer parse store deliveries := by
  have hstep : ∀ older delivery newer, deliveries = older ++ delivery :: newer →
      OneRun parse identity (older ++ [delivery]) := by
    rintro older delivery newer rfl d hd
    rcases List.mem_append.1 hd with hd | hd
    · exact hone d (by simp [hd])
    · exact hone d (by simp [List.mem_singleton.1 hd])
  constructor
  · intro h older delivery newer heq hagain
    exact (hagain.unchanged_iff (hstep older delivery newer heq)).1
      (h older delivery newer heq hagain)
  · intro h older delivery newer heq hagain
    exact (hagain.unchanged_iff (hstep older delivery newer heq)).2
      (h older delivery newer heq hagain)

/-! ## A late delivery -/

/-- The two timestamps below, parsed. -/
def wandbTimes (s : String) : Option DateTimeUtc :=
  if s = "2026-08-01T00:00:00Z" then some ⟨1785542400000000000⟩
  else if s = "2026-08-01T06:30:00Z" then some ⟨1785565800000000000⟩
  else none

/-- The record of one run in a given state. -/
def wandbRecord (state : String) : RawRunRecord where
  source := .wandb
  payload := .object [("createdAt", .string "2026-08-01T00:00:00Z"), ("entity", .string "acme-ai"),
    ("heartbeatAt", .string "2026-08-01T06:30:00Z"), ("id", .string "abc123"),
    ("project", .string "llm-pretrain"), ("state", .string state)]

def wandbDelivery (state : String) (runId : RunId) : Delivery where
  connector := { tenantId := ⟨1⟩, experimentId := ⟨2⟩, currency := .usd }
  raw := wandbRecord state
  runId := runId
  env := .ok

def wandbIdentity : TenantId × String × String :=
  (⟨1⟩, "wandb", "acme-ai/llm-pretrain/abc123")

def oneExperiment : GraphStore where
  experiments := [{ id := ⟨2⟩, tenantId := ⟨1⟩, projectId := ⟨3⟩, name := "pretraining" }]
  runs := []

/-- The webhook's `running` record arrives once more after the poll's `finished` record. -/
def lateRunning : List Delivery :=
  [wandbDelivery "running" ⟨10⟩, wandbDelivery "finished" ⟨11⟩, wandbDelivery "running" ⟨12⟩]

theorem not_harmless_lateRunning :
    OneRun wandbTimes wandbIdentity lateRunning ∧
      ¬HarmlessRedeliveries wandbTimes wandbIdentity oneExperiment lateRunning := by
  refine ⟨by decide +kernel, fun h => ?_⟩
  have hagain : Redelivered wandbTimes oneExperiment
      [wandbDelivery "running" ⟨10⟩, wandbDelivery "finished" ⟨11⟩]
      (wandbDelivery "running" ⟨12⟩) :=
    ⟨[], wandbDelivery "running" ⟨10⟩, [wandbDelivery "finished" ⟨11⟩], rfl, rfl,
      by decide +kernel⟩
  exact absurd (h _ _ [] rfl hagain) (by decide +kernel)

example : timelineOf wandbIdentity (deliverAll wandbTimes oneExperiment lateRunning) =
    some ("running", 838857600000000, none) := by decide +kernel

/-- The `finished` record twice, after the `running` one. -/
def finishedTwice : List Delivery :=
  [wandbDelivery "running" ⟨10⟩, wandbDelivery "finished" ⟨11⟩, wandbDelivery "finished" ⟨12⟩]

theorem harmless_finishedTwice :
    HarmlessRedeliveries wandbTimes wandbIdentity oneExperiment finishedTwice ↔
      NothingNewer wandbTimes oneExperiment finishedTwice :=
  redeliveries_harmless_iff oneExperiment (by decide +kernel)

end Falkr
