import Falkr.Lib.Json
import Falkr.Lib.Returning
import Falkr.ResearchGraph.Entities

/-!
# Wandb — Weights & Biases runs

Maps a W&B run object onto a `Run`.  How a timestamp is parsed is a parameter; the fresh run
identifier is an argument.
-/

namespace Falkr

open Lib

inductive TrackerError
  | transport (tracker : TrackerSource) (detail : String)
  | unauthorized (tracker : TrackerSource)
  | missingField (field : String)
  | unusableField (field value : String)
  deriving DecidableEq, Repr

/-- One untouched tracker record. -/
structure RawRunRecord where
  source : TrackerSource
  payload : Json

structure WandbConnector where
  tenantId : TenantId
  experimentId : ExperimentId
  currency : Currency

namespace WandbConnector

/-- A text field, trimmed, if there is anything in it. -/
def optionalStr (v : Json) (name : String) : Option String :=
  (((v.get name).bind Json.asStr).map trim).filter fun s => !s.isEmpty

def strField (v : Json) (name : String) : Except TrackerError String :=
  match optionalStr v name with
  | some s => .ok s
  | none => .error (.missingField name)

/-- The identity used for idempotent upsert: W&B run ids are unique per project, not globally. -/
def externalId (run : Json) : Except TrackerError String := do
  let entity ← strField run "entity"
  let project ← strField run "project"
  let id ← strField run "id"
  .ok (entity ++ "/" ++ project ++ "/" ++ id)

/-- An unrecognized state is an error, not a guess. -/
def statusField (p : Json) : Except TrackerError RunStatus := do
  let state ← strField p "state"
  match RunStatus.fromStored state with
  | some status => .ok status
  | none => .error (.unusableField "state" state)

section Connector

variable (parseFromRfc3339 : String → Option DateTimeUtc)

def timestamp (value field : String) : Except TrackerError DateTimeUtc :=
  match parseFromRfc3339 value with
  | some time => .ok time
  | none => .error (.unusableField field value)

/-- An optional timestamp; one that is there must parse. -/
def optionalTimestamp (p : Json) (name : String) : Except TrackerError (Option DateTimeUtc) :=
  match optionalStr p name with
  | some s => (timestamp parseFromRfc3339 s name).map some
  | none => .ok none

/-- A terminal run ends at its last heartbeat when W&B omits an explicit end. -/
def endedAtField (p : Json) (status : RunStatus) (heartbeat : Option DateTimeUtc) :
    Except TrackerError (Option DateTimeUtc) :=
  match optionalStr p "endedAt" with
  | some s => (timestamp parseFromRfc3339 s "endedAt").map some
  | none => .ok (if status.isTerminal then heartbeat else none)

/-- `TrackerConnector::normalize`; `runId` is what `RunId::new()` returns. -/
def normalize (self : WandbConnector) (runId : RunId) (raw : RawRunRecord) :
    Except TrackerError Run := do
  let status ← statusField raw.payload
  let createdAt ← strField raw.payload "createdAt"
  let startedAt ← timestamp parseFromRfc3339 createdAt "createdAt"
  let heartbeat ← optionalTimestamp parseFromRfc3339 raw.payload "heartbeatAt"
  let endedAt ← endedAtField parseFromRfc3339 raw.payload status heartbeat
  let externalId ← externalId raw.payload
  .ok
    { id := runId
      tenantId := self.tenantId
      experimentId := self.experimentId
      externalRef := { source := .wandb, externalId := externalId }
      status := status
      startedAt := startedAt
      endedAt := endedAt
      attributedCost := Money.zero self.currency
      -- Research and development by default; capitalization is decided through the ledger.
      functionCode := .rnD
      capitalizationStatus := .pendingReview }

end Connector

/-- The fields that a record which is read must have, and the run they make. -/
theorem exists_fields_of_normalize {parse : String → Option DateTimeUtc} {self : WandbConnector}
    {runId : RunId} {raw : RawRunRecord} {run : Run}
    (h : self.normalize parse runId raw = .ok run) :
    ∃ status createdAt startedAt heartbeat endedAt ref,
      statusField raw.payload = .ok status ∧
        strField raw.payload "createdAt" = .ok createdAt ∧
          timestamp parse createdAt "createdAt" = .ok startedAt ∧
            optionalTimestamp parse raw.payload "heartbeatAt" = .ok heartbeat ∧
              endedAtField parse raw.payload status heartbeat = .ok endedAt ∧
                externalId raw.payload = .ok ref ∧
                  run =
                    { id := runId
                      tenantId := self.tenantId
                      experimentId := self.experimentId
                      externalRef := { source := .wandb, externalId := ref }
                      status := status
                      startedAt := startedAt
                      endedAt := endedAt
                      attributedCost := Money.zero self.currency
                      functionCode := .rnD
                      capitalizationStatus := .pendingReview } := by
  rcases bind_eq_ok h with ⟨status, hstatus, h⟩
  rcases bind_eq_ok h with ⟨createdAt, hcreated, h⟩
  rcases bind_eq_ok h with ⟨startedAt, hstarted, h⟩
  rcases bind_eq_ok h with ⟨heartbeat, hheartbeat, h⟩
  rcases bind_eq_ok h with ⟨endedAt, hended, h⟩
  rcases bind_eq_ok h with ⟨ref, hexternal, h⟩
  exact ⟨status, createdAt, startedAt, heartbeat, endedAt, ref, hstatus, hcreated, hstarted,
    hheartbeat, hended, hexternal, (Except.ok.inj h).symm⟩

/-- A required field is there exactly with something in it. -/
theorem strField_eq_ok {v : Json} {name s : String} :
    strField v name = .ok s ↔ optionalStr v name = some s := by
  unfold strField
  cases optionalStr v name <;> simp

theorem timestamp_eq_ok {parse : String → Option DateTimeUtc} {value field : String}
    {time : DateTimeUtc} : timestamp parse value field = .ok time ↔ parse value = some time := by
  unfold timestamp
  cases parse value <;> simp

end WandbConnector

end Falkr
