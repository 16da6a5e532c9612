import Falkr.Lib.Joined
import Falkr.ResearchGraph.Wandb

/-!
# RunIdentity — what a W&B run is known by

The external identity joins entity, project and run id by a slash.  A slash inside a field is not
told apart from the ones between the fields.
-/

namespace Falkr

open Lib

/-- The fields that name a W&B run. -/
structure RunKey where
  entity : String
  project : String
  id : String
  deriving DecidableEq

/-- The fields of a record that name its run, trimmed. -/
def runKey (p : Json) : RunKey where
  entity := (WandbConnector.optionalStr p "entity").getD ""
  project := (WandbConnector.optionalStr p "project").getD ""
  id := (WandbConnector.optionalStr p "id").getD ""

def RunKey.parts (self : RunKey) : List (List Char) :=
  [self.entity.toList, self.project.toList, self.id.toList]

/-- Two keys hold the same segments between slashes, in one row, but not the same number of them in
each field. -/
def RunKey.CutElsewhere (self other : RunKey) : Prop :=
  Regrouped '/' self.parts other.parts

instance (a b : RunKey) : Decidable (a.CutElsewhere b) :=
  inferInstanceAs (Decidable (Regrouped _ _ _))

theorem RunKey.parts_injective : Function.Injective RunKey.parts := by
  rintro ⟨entity, project, id⟩ ⟨entity', project', id'⟩ h
  simpa [RunKey.parts, String.toList_inj] using h

/-- The external id of a record that is read is its key, joined. -/
theorem toList_externalId {p : Json} {ref : String} (h : WandbConnector.externalId p = .ok ref) :
    ref.toList = ['/'].intercalate (runKey p).parts := by
  rcases bind_eq_ok h with ⟨entity, hentity, h⟩
  rcases bind_eq_ok h with ⟨project, hproject, h⟩
  rcases bind_eq_ok h with ⟨id, hid, h⟩
  rcases Except.ok.inj h with rfl
  simp [runKey, RunKey.parts, WandbConnector.strField_eq_ok.1 hentity,
    WandbConnector.strField_eq_ok.1 hproject, WandbConnector.strField_eq_ok.1 hid]

/-- Two runs have one external id when their keys are equal, or cut elsewhere. -/
theorem externalId_eq_iff {p p' : Json} {ref ref' : String}
    (h : WandbConnector.externalId p = .ok ref) (h' : WandbConnector.externalId p' = .ok ref') :
    ref = ref' ↔ runKey p = runKey p' ∨ (runKey p).CutElsewhere (runKey p') := by
  rw [← String.toList_inj, toList_externalId h, toList_externalId h',
    joined_eq_iff '/' (by simp [RunKey.parts]) (by simp [RunKey.parts]),
    RunKey.parts_injective.eq_iff]
  rfl

theorem RunKey.not_cutElsewhere_self (key : RunKey) : ¬key.CutElsewhere key :=
  fun h => h.2 rfl

/-- Keys without a slash in entity and project are never cut elsewhere. -/
theorem RunKey.not_cutElsewhere_of_slashless {a b : RunKey} (ha : '/' ∉ a.entity.toList)
    (ha' : '/' ∉ a.project.toList) (hb : '/' ∉ b.entity.toList) (hb' : '/' ∉ b.project.toList) :
    ¬a.CutElsewhere b := by
  rintro ⟨hrow, hcounts⟩
  have hlength := congrArg List.length hrow
  simp only [segmentRow, RunKey.parts, List.flatMap_cons, List.flatMap_nil, List.length_append,
    List.splitOn_eq_singleton ha, List.splitOn_eq_singleton ha', List.splitOn_eq_singleton hb,
    List.splitOn_eq_singleton hb'] at hlength
  refine hcounts ?_
  -- The first two fields are one segment each, so the rest of the row is the run id.
  simp [RunKey.parts, List.splitOn_eq_singleton ha, List.splitOn_eq_singleton ha',
    List.splitOn_eq_singleton hb, List.splitOn_eq_singleton hb']
  simpa using hlength

section Runs

variable {parse : String → Option DateTimeUtc} {connector connector' : WandbConnector}
  {runId runId' : RunId} {raw raw' : RawRunRecord} {run run' : Run}

/-- The external refs of two runs tell their keys apart exactly when these are not cut elsewhere. -/
theorem externalRef_identifies_iff (h : connector.normalize parse runId raw = .ok run)
    (h' : connector'.normalize parse runId' raw' = .ok run') :
    (run.externalRef = run'.externalRef ↔ runKey raw.payload = runKey raw'.payload) ↔
      ¬(runKey raw.payload).CutElsewhere (runKey raw'.payload) := by
  rcases WandbConnector.exists_fields_of_normalize h with
    ⟨-, -, -, -, -, ref, -, -, -, -, -, href, rfl⟩
  rcases WandbConnector.exists_fields_of_normalize h' with
    ⟨-, -, -, -, -, ref', -, -, -, -, -, href', rfl⟩
  have hrefs : (⟨.wandb, ref⟩ : ExternalRef) = ⟨.wandb, ref'⟩ ↔ ref = ref' := by simp
  rw [hrefs, externalId_eq_iff href href', or_iff_left_iff_imp]
  constructor
  · intro hsame hcut
    have hkey := hsame hcut
    rw [hkey] at hcut
    exact (runKey raw'.payload).not_cutElsewhere_self hcut
  · intro hnot hcut
    exact absurd hcut hnot

end Runs

/-! ## Two runs -/

/-- The record of a finished run. -/
def finishedRecord (entity project id : String) : RawRunRecord where
  source := .wandb
  payload := .object [("createdAt", .string "2026-08-01T00:00:00Z"), ("entity", .string entity),
    ("id", .string id), ("project", .string project), ("state", .string "finished")]

/-- The run that is read from it. -/
def finishedRun (runId : RunId) (externalId : String) : Run where
  id := runId
  tenantId := ⟨1⟩
  experimentId := ⟨2⟩
  externalRef := { source := .wandb, externalId := externalId }
  status := .finished
  startedAt := ⟨1785542400000000000⟩
  endedAt := none
  attributedCost := Money.zero .usd
  functionCode := .rnD
  capitalizationStatus := .pendingReview

/-- The one timestamp, parsed. -/
def createdTime (s : String) : Option DateTimeUtc :=
  if s = "2026-08-01T00:00:00Z" then some ⟨1785542400000000000⟩ else none

def wandb : WandbConnector where
  tenantId := ⟨1⟩
  experimentId := ⟨2⟩
  currency := .usd

theorem externalRef_identifies_projects :
    (finishedRun ⟨10⟩ "acme/vision/abc").externalRef =
        (finishedRun ⟨11⟩ "acme/speech/abc").externalRef ↔
      runKey (finishedRecord "acme" "vision" "abc").payload =
        runKey (finishedRecord "acme" "speech" "abc").payload := by
  have hvision : wandb.normalize createdTime ⟨10⟩ (finishedRecord "acme" "vision" "abc") =
      .ok (finishedRun ⟨10⟩ "acme/vision/abc") := by decide +kernel
  have hspeech : wandb.normalize createdTime ⟨11⟩ (finishedRecord "acme" "speech" "abc") =
      .ok (finishedRun ⟨11⟩ "acme/speech/abc") := by decide +kernel
  refine (externalRef_identifies_iff hvision hspeech).2 ?_
  exact RunKey.not_cutElsewhere_of_slashless (by decide +kernel) (by decide +kernel)
    (by decide +kernel) (by decide +kernel)

/-- A slash in the entity of one run, and in the project of the other. -/
theorem externalRef_not_identifies :
    wandb.normalize createdTime ⟨10⟩ (finishedRecord "a/b" "c" "x") =
        .ok (finishedRun ⟨10⟩ "a/b/c/x") ∧
      wandb.normalize createdTime ⟨11⟩ (finishedRecord "a" "b/c" "x") =
          .ok (finishedRun ⟨11⟩ "a/b/c/x") ∧
        ¬((finishedRun ⟨10⟩ "a/b/c/x").externalRef = (finishedRun ⟨11⟩ "a/b/c/x").externalRef ↔
          runKey (finishedRecord "a/b" "c" "x").payload =
            runKey (finishedRecord "a" "b/c" "x").payload) := by
  refine ⟨by decide +kernel, by decide +kernel, ?_⟩
  intro hiff
  exact absurd (hiff.1 rfl) (by decide +kernel)

end Falkr
