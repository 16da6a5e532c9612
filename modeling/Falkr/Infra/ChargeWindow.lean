import Falkr.Infra.RunStore
import Falkr.ResearchGraph.RunIdentity

/-!
# ChargeWindow — when a W&B run starts and ends

The end of a run is chosen by its state from an explicit field and the last heartbeat.  An explicit
end is compared with neither the state nor the start, and a heartbeat not with the start; the store
does the latter, and refuses the run.
-/

namespace Falkr

open Lib

/-- The window of a run is open until it stops, does not end before it starts, and is stored. -/
structure Run.HasWindow (run : Run) : Prop where
  running : run.status.isTerminal = false → run.endedAt = none
  ordered : ∀ endedAt, run.endedAt = some endedAt → run.startedAt.nanos ≤ endedAt.nanos
  stored : ∀ store, (upsertRun store run .ok).2 ≠ .error (.backend "runs_end_after_start")

/-! ## The constraint -/

theorem toMicros_mono {a b : DateTimeUtc} (h : a.nanos ≤ b.nanos) : toMicros a ≤ toMicros b :=
  Int.tdiv_le_tdiv (by norm_num) (Int.sub_le_sub_right h _)

theorem encodeRun_eq_constraint {run : Run} (h : encodeRun run = .error "runs_end_after_start") :
    run.EndsBeforeStart := by
  unfold encodeRun at h
  split at h
  · simp at h
  · split at h
    · simp at h
    · split at h
      next hends => exact hends
      · cases h

theorem insertRun_ne_constraint (store : GraphStore) (row : StoredRun) :
    insertRun store row ≠ .error "runs_end_after_start" := by
  unfold insertRun
  split
  · split <;> simp
  · split
    · simp
    · split <;> simp

theorem selectRunId_ne_constraint (run : Run) (runs : List StoredRun) :
    selectRunId run runs ≠ .error "runs_end_after_start" := by
  unfold selectRunId
  split <;> simp

/-- No other statement of the call answers with the constraint. -/
theorem endsBeforeStart_of_upsertRun {store : GraphStore} {run : Run}
    (h : (upsertRun store run .ok).2 = .error (.backend "runs_end_after_start")) :
    run.EndsBeforeStart := by
  have htx : upsertRunTx store run .ok = .error (.backend "runs_end_after_start") := by
    unfold upsertRun at h
    split at h
    · cases h
    next e herror =>
      rw [herror, Except.error.inj h]
  simp only [upsertRunTx, GraphEnv.ok, raise, bind, Except.bind] at htx
  cases hrow : encodeRun run with
  | error e =>
      obtain rfl : e = "runs_end_after_start" := by simpa [hrow, Except.mapError] using htx
      exact encodeRun_eq_constraint hrow
  | ok row =>
      exfalso
      cases hruns : insertRun store row with
      | error e =>
          obtain rfl : e = "runs_end_after_start" := by
            simpa [hrow, hruns, Except.mapError] using htx
          exact insertRun_ne_constraint store row hruns
      | ok inserted =>
          rcases inserted with ⟨runs, _ | ⟨id, _ | _⟩⟩
          · cases hselect : selectRunId run runs with
            | error e =>
                obtain rfl : e = "runs_end_after_start" := by
                  simpa [hrow, hruns, hselect, runOutcome, raise, bind, Except.bind,
                    Except.mapError] using htx
                exact selectRunId_ne_constraint run runs hselect
            | ok id =>
                simp [hrow, hruns, hselect, runOutcome, raise, bind, Except.bind,
                  Except.mapError] at htx
          · simp [hrow, hruns, runOutcome, Except.mapError] at htx
          · simp [hrow, hruns, runOutcome, Except.mapError] at htx

/-- A run that ends no earlier than it starts is not refused by the constraint. -/
theorem hasWindow_of_ordered {run : Run} (hrunning : run.status.isTerminal = false →
    run.endedAt = none) (hordered : ∀ endedAt, run.endedAt = some endedAt →
      run.startedAt.nanos ≤ endedAt.nanos) : run.HasWindow where
  running := hrunning
  ordered := hordered
  stored := by
    intro store herror
    rcases endsBeforeStart_of_upsertRun herror with ⟨endedAt, hended, hlt⟩
    exact absurd (toMicros_mono (hordered endedAt hended)) (not_le.2 hlt)

/-! ## The fields of a record -/

/-- The state of a record, and its timestamps, as far as they can be read. -/
def stateOf (p : Json) : Option RunStatus :=
  (WandbConnector.optionalStr p "state").bind RunStatus.fromStored

def timeOf (parse : String → Option DateTimeUtc) (p : Json) (name : String) : Option DateTimeUtc :=
  (WandbConnector.optionalStr p name).bind parse

/-- A record that is running names no end; an end that it names, or the last heartbeat of a stopped
run that names none, is not before its creation. -/
structure FieldsInOrder (parse : String → Option DateTimeUtc) (p : Json) : Prop where
  running : ∀ status, stateOf p = some status → status.isTerminal = false →
    WandbConnector.optionalStr p "endedAt" = none
  ended : ∀ start stop, timeOf parse p "createdAt" = some start →
    timeOf parse p "endedAt" = some stop → start.nanos ≤ stop.nanos
  lastSeen : ∀ status start stop, stateOf p = some status → status.isTerminal = true →
    WandbConnector.optionalStr p "endedAt" = none → timeOf parse p "createdAt" = some start →
      timeOf parse p "heartbeatAt" = some stop → start.nanos ≤ stop.nanos

variable {parse : String → Option DateTimeUtc}

theorem stateOf_of_statusField {p : Json} {status : RunStatus}
    (h : WandbConnector.statusField p = .ok status) : stateOf p = some status := by
  rcases bind_eq_ok h with ⟨state, hstate, h⟩
  rw [stateOf, WandbConnector.strField_eq_ok.1 hstate, Option.bind_some]
  cases hstatus : RunStatus.fromStored state with
  | none => simp [hstatus] at h
  | some status' =>
      simp only [hstatus] at h
      rw [Except.ok.inj h]

theorem timeOf_of_optionalTimestamp {p : Json} {name : String} {time : Option DateTimeUtc}
    (h : WandbConnector.optionalTimestamp parse p name = .ok time) :
    timeOf parse p name = time := by
  unfold WandbConnector.optionalTimestamp at h
  cases hvalue : WandbConnector.optionalStr p name with
  | none =>
      simp only [hvalue] at h
      rw [timeOf, hvalue, Option.bind_none]
      exact Except.ok.inj h
  | some value =>
      simp only [hvalue] at h
      cases hparse : parse value with
      | none => simp [WandbConnector.timestamp, hparse, Except.map] at h
      | some t =>
          simp only [WandbConnector.timestamp, hparse, Except.map] at h
          rw [timeOf, hvalue, Option.bind_some, hparse]
          exact Except.ok.inj h

/-- The end of a run: the one named, else the last heartbeat if it has stopped. -/
theorem window_of_normalize {connector : WandbConnector} {runId : RunId} {raw : RawRunRecord}
    {run : Run} (h : connector.normalize parse runId raw = .ok run) :
    stateOf raw.payload = some run.status ∧
      timeOf parse raw.payload "createdAt" = some run.startedAt ∧
        (WandbConnector.optionalStr raw.payload "endedAt" = none ∧
            run.endedAt = (if run.status.isTerminal then timeOf parse raw.payload "heartbeatAt"
              else none) ∨
          WandbConnector.optionalStr raw.payload "endedAt" ≠ none ∧ run.endedAt.isSome ∧
            run.endedAt = timeOf parse raw.payload "endedAt") := by
  rcases WandbConnector.exists_fields_of_normalize h with
    ⟨status, createdAt, startedAt, heartbeat, endedAt, ref, hstatus, hcreated, hstarted, hheartbeat,
      hended, -, rfl⟩
  refine ⟨stateOf_of_statusField hstatus, ?_, ?_⟩
  · rw [timeOf, WandbConnector.strField_eq_ok.1 hcreated, Option.bind_some,
      WandbConnector.timestamp_eq_ok.1 hstarted]
  · unfold WandbConnector.endedAtField at hended
    cases hvalue : WandbConnector.optionalStr raw.payload "endedAt" with
    | none =>
        simp only [hvalue] at hended
        rw [timeOf_of_optionalTimestamp hheartbeat]
        exact Or.inl ⟨rfl, (Except.ok.inj hended).symm⟩
    | some value =>
        simp only [hvalue] at hended
        refine Or.inr ⟨by simp, ?_⟩
        cases hparse : parse value with
        | none => simp [WandbConnector.timestamp, hparse, Except.map] at hended
        | some t =>
            simp only [WandbConnector.timestamp, hparse, Except.map] at hended
            rcases Except.ok.inj hended with rfl
            exact ⟨rfl, by rw [timeOf, hvalue, Option.bind_some, hparse]⟩

/-- A run has a window exactly when the fields of its record are in order. -/
theorem hasWindow_iff {connector : WandbConnector} {runId : RunId} {raw : RawRunRecord} {run : Run}
    (h : connector.normalize parse runId raw = .ok run) :
    run.HasWindow ↔ FieldsInOrder parse raw.payload := by
  rcases window_of_normalize h with ⟨hstate, hcreated, hwindow⟩
  constructor
  · intro hrun
    constructor
    case running =>
      intro status hstatus hrunning
      rcases Option.some.inj (hstate.symm.trans hstatus) with rfl
      rcases hwindow with ⟨hnone, -⟩ | ⟨-, hsome, -⟩
      · exact hnone
      · rw [hrun.running hrunning] at hsome
        cases hsome
    case ended =>
      intro start stop hstart hstop
      rcases Option.some.inj (hcreated.symm.trans hstart) with rfl
      rcases hwindow with ⟨hnone, -⟩ | ⟨-, -, hended⟩
      · simp [timeOf, hnone] at hstop
      · exact hrun.ordered stop (hended.trans hstop)
    case lastSeen =>
      intro status start stop hstatus hstopped hnone hstart hstop
      rcases Option.some.inj (hstate.symm.trans hstatus) with rfl
      rcases Option.some.inj (hcreated.symm.trans hstart) with rfl
      rcases hwindow with ⟨-, hended⟩ | ⟨hsome, -⟩
      · rw [if_pos hstopped] at hended
        exact hrun.ordered stop (hended.trans hstop)
      · exact absurd hnone hsome
  · intro hfields
    apply hasWindow_of_ordered
    · intro hrunning
      rcases hwindow with ⟨-, hended⟩ | ⟨hsome, -⟩
      · simpa [hrunning] using hended
      · exact absurd (hfields.running run.status hstate hrunning) hsome
    · intro endedAt hsome
      rcases hwindow with ⟨hnone, hended⟩ | ⟨-, -, hended⟩
      -- Without an explicit end only a stopped run has one, its last heartbeat.
      · cases hstopped : run.status.isTerminal with
        | false => simp [hended, hstopped] at hsome
        | true =>
            rw [hended, hstopped, if_pos rfl] at hsome
            exact hfields.lastSeen run.status run.startedAt endedAt hstate hstopped hnone hcreated
              hsome
      · exact hfields.ended run.startedAt endedAt hcreated (hended.symm.trans hsome)

/-! ## An open run that ended, and one that ended before it began -/

/-- Three instants, an hour apart. -/
def hourly (s : String) : Option DateTimeUtc :=
  if s = "2026-08-01T00:00:00Z" then some ⟨1785542400000000000⟩
  else if s = "2026-08-01T01:00:00Z" then some ⟨1785546000000000000⟩
  else if s = "2026-08-01T02:00:00Z" then some ⟨1785549600000000000⟩
  else none

/-- The record of a run created at one o'clock. -/
def recordEnding (state endedAt : String) : RawRunRecord where
  source := .wandb
  payload := .object [("createdAt", .string "2026-08-01T01:00:00Z"), ("endedAt", .string endedAt),
    ("entity", .string "acme"), ("id", .string "abc"), ("project", .string "vision"),
    ("state", .string state)]

/-- The run that is read from it. -/
def runEnding (status : RunStatus) (endedAt : DateTimeUtc) : Run :=
  { finishedRun ⟨10⟩ "acme/vision/abc" with
    status := status
    startedAt := ⟨1785546000000000000⟩
    endedAt := some endedAt }

theorem hasWindow_runEnding : (runEnding .finished ⟨1785549600000000000⟩).HasWindow := by
  have hread : wandb.normalize hourly ⟨10⟩ (recordEnding "finished" "2026-08-01T02:00:00Z") =
      .ok (runEnding .finished ⟨1785549600000000000⟩) := by decide +kernel
  refine (hasWindow_iff hread).2 ⟨?_, ?_, ?_⟩
  · intro status hstatus hrunning
    obtain rfl : status = .finished :=
      Option.some.inj (hstatus.symm.trans (by decide +kernel))
    cases hrunning
  · intro start stop hstart hstop
    obtain rfl : start = ⟨1785546000000000000⟩ :=
      Option.some.inj (hstart.symm.trans (by decide +kernel))
    obtain rfl : stop = ⟨1785549600000000000⟩ :=
      Option.some.inj (hstop.symm.trans (by decide +kernel))
    decide
  · intro status start stop _ _ hnone
    exact absurd hnone (by decide +kernel)

/-- A run that ended before it was created is read, and then refused; a running run that names an
end is stored as ended. -/
theorem not_hasWindow_runEnding :
    (wandb.normalize hourly ⟨10⟩ (recordEnding "finished" "2026-08-01T00:00:00Z") =
        .ok (runEnding .finished ⟨1785542400000000000⟩) ∧
      (upsertRun ⟨[⟨⟨2⟩, ⟨1⟩, ⟨3⟩, "pretraining"⟩], []⟩
          (runEnding .finished ⟨1785542400000000000⟩) .ok).2 =
        .error (.backend "runs_end_after_start") ∧
      ¬(runEnding .finished ⟨1785542400000000000⟩).HasWindow) ∧
    wandb.normalize hourly ⟨10⟩ (recordEnding "running" "2026-08-01T02:00:00Z") =
        .ok (runEnding .running ⟨1785549600000000000⟩) ∧
      ¬(runEnding .running ⟨1785549600000000000⟩).HasWindow := by
  have hrefused : (upsertRun ⟨[⟨⟨2⟩, ⟨1⟩, ⟨3⟩, "pretraining"⟩], []⟩
      (runEnding .finished ⟨1785542400000000000⟩) .ok).2 =
        .error (.backend "runs_end_after_start") := by decide +kernel
  refine ⟨⟨by decide +kernel, hrefused, fun h => h.stored _ hrefused⟩, by decide +kernel, ?_⟩
  intro h
  exact absurd (h.running rfl) (by decide +kernel)

end Falkr
