import Falkr.CostSpine.Exact
import Falkr.CostSpine.Normalized

/-!
# TagEvidence — what an event makes of the tags of its row

A tag is looked up among candidate keys, and only texts are looked at: a value of another kind is
passed over, and so is a `Tags` cell that holds no object.  The tags of a row that normalizes are
all heeded exactly when there are none of either (`evidenceHeeded_iff`).
-/

namespace Falkr

open Lib

/-! ## Evidence -/

/-- Whether a value says something: it is not null and not a blank text. -/
def isEvidence : Json → Bool
  | .null => false
  | .string s => !(trim s).isEmpty
  | _ => true

/-- The value under the first of the candidate keys that has one. -/
def evidence (map : List (String × Json)) (candidates : List String) : Option Json :=
  candidates.findSome? fun k => (SortedMap.lookup k map).filter isEvidence

/-- What the evidence says is the value; without any it is the default. -/
structure Attributed (parseUuid : String → Option Uuid) (found : Option Json)
    (fallback value : Option Uuid) : Prop where
  of_none : found = none → value = fallback
  of_some : ∀ v, found = some v → ∃ s id, v = .string s ∧ parseUuid (trim s) = some id ∧
    value = some id

section Lookup

variable {map : List (String × Json)} {candidates : List String}

/-- What is looked at under one key. -/
def tagAt (map : List (String × Json)) (k : String) : Option (String × String) :=
  match ((SortedMap.lookup k map).bind Json.asStr).map trim with
  | none => none
  | some v => if v.isEmpty then none else some (k, v)

theorem lookupTag_eq_findSome? : lookupTag map candidates = candidates.findSome? (tagAt map) := rfl

theorem tagAt_eq_none {k : String} (h : (SortedMap.lookup k map).filter isEvidence = none) :
    tagAt map k = none := by
  unfold tagAt
  cases hvalue : SortedMap.lookup k map with
  | none => rfl
  | some v =>
      rw [hvalue, Option.filter_eq_none_iff] at h
      have hnone := h v rfl
      cases v with
      | string s =>
          simp only [isEvidence, Bool.not_eq_true', Bool.not_eq_false] at hnone
          simp [Json.asStr, hnone]
      | _ => rfl

theorem tagAt_of_text {k s : String}
    (h : (SortedMap.lookup k map).filter isEvidence = some (.string s)) :
    tagAt map k = some (k, trim s) := by
  rcases Option.filter_eq_some_iff.1 h with ⟨hvalue, hevidence⟩
  simp only [isEvidence, Bool.not_eq_true'] at hevidence
  unfold tagAt
  simp [hvalue, Json.asStr, hevidence]

theorem lookupTag_of_none (h : evidence map candidates = none) :
    lookupTag map candidates = none := by
  rw [lookupTag_eq_findSome?, List.findSome?_eq_none_iff]
  intro k hk
  exact tagAt_eq_none (List.findSome?_eq_none_iff.1 h k hk)

/-- A text is found before the keys of lower priority, and after keys without evidence. -/
theorem lookupTag_of_text {s : String} (h : evidence map candidates = some (.string s)) :
    ∃ k, lookupTag map candidates = some (k, trim s) := by
  rcases List.findSome?_eq_some_iff.1 h with ⟨before, k, after, hkeys, hfound, hbefore⟩
  refine ⟨k, ?_⟩
  rw [lookupTag_eq_findSome?, List.findSome?_eq_some_iff]
  exact ⟨before, k, after, hkeys, tagAt_of_text hfound,
    fun k' hk' => tagAt_eq_none (hbefore k' hk')⟩

end Lookup

/-! ## Dimensions -/

/-- The dimensions that tags carry. -/
inductive TagDimension
  | project
  | team
  | run
  | customer
  | model
  | dataset
  | commitment
  deriving DecidableEq

namespace TagDimension

/-- The candidate keys in priority order. -/
def keys (rules : TagAttributionRules) : TagDimension → List String
  | project => rules.projectKeys
  | team => rules.teamKeys
  | run => rules.runKeys
  | customer => rules.customerKeys
  | model => rules.modelKeys
  | dataset => rules.datasetKeys
  | commitment => rules.commitmentKeys

/-- The value without a tag; the optional dimensions have none. -/
def fallback (ctx : AttributionContext) : TagDimension → Option Uuid
  | project => ctx.defaultProjectId.map DomainId.asUuid
  | team => ctx.defaultTeamId.map DomainId.asUuid
  | _ => none

def value (dims : Dimensions) : TagDimension → Option Uuid
  | project => some dims.projectId.asUuid
  | team => some dims.teamId.asUuid
  | run => dims.runId.map DomainId.asUuid
  | customer => dims.customerId.map DomainId.asUuid
  | model => dims.modelId.map DomainId.asUuid
  | dataset => dims.datasetId.map DomainId.asUuid
  | commitment => dims.commitmentId.map DomainId.asUuid

/-- What an unparseable tag is said to be. -/
def expected : TagDimension → String
  | project => "project id"
  | team => "team id"
  | run => "run id"
  | customer => "customer id"
  | model => "model id"
  | dataset => "dataset id"
  | commitment => "commitment id"

end TagDimension

section Attribution

variable {parseUuid : String → Option Uuid} {map : List (String × Json)}
  {rules : TagAttributionRules} {ctx : AttributionContext} {dims : Dimensions}

theorem required_eq_ok {kind : IdKind} {found : Option Uuid} {fallback : Option (DomainId kind)}
    {dimension : String} {id : DomainId kind} (h : required found fallback dimension = .ok id) :
    some id.asUuid = found.or (fallback.map DomainId.asUuid) := by
  unfold required at h
  split at h
  · rename_i found' hfound
    cases h
    cases found with
    | none =>
        rw [Option.map_none, Option.none_or] at hfound
        rw [hfound]
        rfl
    | some uuid =>
        cases hfound
        rfl
  · cases h

/-- An optional dimension has no default. -/
theorem optional_eq {kind : IdKind} {found : Option Uuid} {id : Option (DomainId kind)}
    (h : id = found.map DomainId.mk) : id.map DomainId.asUuid = found.or none := by
  subst h
  cases found <;> rfl

/-- Every dimension is what was parsed for it, or else its default. -/
theorem AttributedFrom.value_eq (h : AttributedFrom parseUuid map rules ctx dims)
    (d : TagDimension) :
    ∃ found, parseId parseUuid (lookupTag map (d.keys rules)) d.expected = .ok found ∧
      d.value dims = found.or (d.fallback ctx) := by
  cases d with
  | project => exact h.project.imp fun _ hfound => ⟨hfound.1, required_eq_ok hfound.2⟩
  | team => exact h.team.imp fun _ hfound => ⟨hfound.1, required_eq_ok hfound.2⟩
  | run => exact h.run.imp fun _ hfound => ⟨hfound.1, optional_eq hfound.2⟩
  | customer => exact h.customer.imp fun _ hfound => ⟨hfound.1, optional_eq hfound.2⟩
  | model => exact h.model.imp fun _ hfound => ⟨hfound.1, optional_eq hfound.2⟩
  | dataset => exact h.dataset.imp fun _ hfound => ⟨hfound.1, optional_eq hfound.2⟩
  | commitment => exact h.commitment.imp fun _ hfound => ⟨hfound.1, optional_eq hfound.2⟩

/-- A dimension is as its evidence says exactly when the evidence is a text. -/
theorem attributed_iff (h : attributeTags parseUuid (.object map) rules ctx = .ok dims)
    (d : TagDimension) :
    Attributed parseUuid (evidence map (d.keys rules)) (d.fallback ctx) (d.value dims) ↔
      ∀ v, evidence map (d.keys rules) = some v → ∃ s, v = .string s := by
  rcases (attributedFrom_of_attributeTags h).value_eq d with ⟨found, hparse, hvalue⟩
  constructor
  · intro hattributed v hv
    rcases hattributed.of_some v hv with ⟨s, id, hs, -⟩
    exact ⟨s, hs⟩
  · intro htexts
    constructor
    · intro hnone
      rw [lookupTag_of_none hnone] at hparse
      cases hparse
      exact hvalue
    · intro v hv
      rcases htexts v hv with ⟨s, rfl⟩
      rcases lookupTag_of_text hv with ⟨k, hlookup⟩
      rw [hlookup] at hparse
      unfold parseId at hparse
      dsimp only at hparse
      cases hid : parseUuid (trim s) with
      | none => simp [hid] at hparse
      | some id =>
          rw [hid] at hparse
          cases hparse
          exact ⟨s, id, rfl, hid, hvalue⟩

end Attribution

/-! ## Rows -/

/-- A cell that is an object of tags, or a text that holds one. -/
def HoldsTags (libs : Libraries) : Json → Prop
  | .object _ => True
  | .string s => ∃ map, libs.jsonFromStr s = some (.object map)
  | _ => False

def isBlank : Json → Bool
  | .string s => (trim s).isEmpty
  | _ => false

/-- The `Tags` cell, where there is one that is not blank, holds tags. -/
def TagsCellHolds (libs : Libraries) (row : Json) : Prop :=
  ∀ cell, row.get "Tags" = some cell → isBlank cell = false → HoldsTags libs cell

/-- The tags that are collected from both shapes. -/
def collectedTags (libs : Libraries) (row : Json) : List (String × Json) :=
  ((collectTags libs row).asObject).getD []

theorem collectTags_eq (libs : Libraries) (row : Json) :
    collectTags libs row = .object (collectedTags libs row) := by
  unfold collectedTags collectTags
  cases row.asObject <;> rfl

/-- Nothing a row says about its dimensions is ignored. -/
structure EvidenceHeeded (libs : Libraries) (connector : AwsFocusConnector) (raw : RawCostRecord)
    (event : CostEvent) : Prop where
  cell : TagsCellHolds libs raw.row
  attributed : ∀ d : TagDimension, Attributed libs.parseUuid
    (evidence (collectedTags libs raw.row) (d.keys connector.rules)) (d.fallback connector.ctx)
    (d.value event.dims)

/-- The cell holds tags, and the evidence for each dimension is a text. -/
structure EvidenceReadable (libs : Libraries) (connector : AwsFocusConnector)
    (raw : RawCostRecord) : Prop where
  cell : TagsCellHolds libs raw.row
  texts : ∀ (d : TagDimension) (v : Json),
    evidence (collectedTags libs raw.row) (d.keys connector.rules) = some v → ∃ s, v = .string s

/-- The tags of a row that normalizes are heeded exactly when they are readable. -/
theorem evidenceHeeded_iff {libs : Libraries} {connector : AwsFocusConnector} {raw : RawCostRecord}
    {now : DateTimeUtc} {newId : CostEventId} {event : CostEvent}
    (h : normalize libs connector raw now newId = .ok event) :
    EvidenceHeeded libs connector raw event ↔ EvidenceReadable libs connector raw := by
  have hdims := (readFrom_of_normalize h).dims
  rw [collectTags_eq] at hdims
  constructor
  · intro hheeded
    exact ⟨hheeded.cell, fun d => (attributed_iff hdims d).1 (hheeded.attributed d)⟩
  · intro hreadable
    exact ⟨hreadable.cell, fun d => (attributed_iff hdims d).2 (hreadable.texts d)⟩

/-! ### Rows with a cell of tags -/

/-- A charge of ten dollars with a `Tags` cell. -/
def taggedRow (tags : Json) : RawCostRecord :=
  { chargeRow "USD" "10.00" with
    row := .object
      (Json.extend (((chargeRow "USD" "10.00").row.asObject).getD []) [("Tags", tags)]) }

/-- The project that the row is booked to. -/
def taggedProject (tags : Json) : Option ProjectId :=
  (normalize roundingLibraries dollarConnector (taggedRow tags) ⟨0⟩ ⟨1⟩).toOption.map fun event =>
    event.dims.projectId

theorem exists_taggedEvent {tags : Json} {project : ProjectId}
    (h : taggedProject tags = some project) :
    ∃ event, normalize roundingLibraries dollarConnector (taggedRow tags) ⟨0⟩ ⟨1⟩ = .ok event ∧
      event.dims.projectId = project := by
  unfold taggedProject at h
  cases hevent : normalize roundingLibraries dollarConnector (taggedRow tags) ⟨0⟩ ⟨1⟩ with
  | error e => simp [hevent, Except.toOption] at h
  | ok event => exact ⟨event, rfl, by simpa [hevent, Except.toOption] using h⟩

theorem get_taggedRow (tags : Json) : (taggedRow tags).row.get "Tags" = some tags :=
  Json.lookup_extend_of_mem _ (List.mem_singleton_self _) fun _ hother =>
    (Prod.mk.inj (List.mem_singleton.1 hother)).2

def projectTag : Json :=
  .object [("falkr:project", .string "0198e000-0000-7000-8000-000000000001")]

theorem evidenceHeeded_projectTag :
    ∃ event, normalize roundingLibraries dollarConnector (taggedRow projectTag) ⟨0⟩ ⟨1⟩ =
        .ok event ∧
      EvidenceHeeded roundingLibraries dollarConnector (taggedRow projectTag) event := by
  have hproject : taggedProject projectTag = some ⟨0x0198e000000070008000000000000001⟩ := by
    decide +kernel
  rcases exists_taggedEvent hproject with ⟨event, hevent, -⟩
  have hcollected : collectedTags roundingLibraries (taggedRow projectTag).row =
      [("falkr:project", .string "0198e000-0000-7000-8000-000000000001")] := rfl
  have htexts : ∀ d : TagDimension,
      ((evidence (collectedTags roundingLibraries (taggedRow projectTag).row)
        (d.keys dollarConnector.rules)).all fun v => v.asStr.isSome) = true := by
    intro d
    rw [hcollected]
    cases d <;> decide +kernel
  refine ⟨event, hevent, (evidenceHeeded_iff hevent).2 ⟨?_, ?_⟩⟩
  · intro cell hcell _
    rw [get_taggedRow] at hcell
    cases hcell
    trivial
  · intro d v hv
    have htext := htexts d
    rw [hv] at htext
    cases v with
    | string s => exact ⟨s, rfl⟩
    | _ => cases htext

/-- A cell that is no JSON is ignored, and so is a project that is a number. -/
theorem not_evidenceHeeded :
    (∃ event, normalize roundingLibraries dollarConnector (taggedRow (.string "not json")) ⟨0⟩ ⟨1⟩ =
        .ok event ∧ event.dims.projectId = ⟨3⟩ ∧
      ¬ EvidenceHeeded roundingLibraries dollarConnector (taggedRow (.string "not json")) event) ∧
    ∃ event, normalize roundingLibraries dollarConnector
        (taggedRow (.object [("falkr:project", .number "42")])) ⟨0⟩ ⟨1⟩ = .ok event ∧
      event.dims.projectId = ⟨3⟩ ∧
      ¬ EvidenceHeeded roundingLibraries dollarConnector
        (taggedRow (.object [("falkr:project", .number "42")])) event := by
  have htext : taggedProject (.string "not json") = some ⟨3⟩ := by decide +kernel
  have hnumber : taggedProject (.object [("falkr:project", .number "42")]) = some ⟨3⟩ := by
    decide +kernel
  rcases exists_taggedEvent htext with ⟨event, hevent, hproject⟩
  rcases exists_taggedEvent hnumber with ⟨event', hevent', hproject'⟩
  refine ⟨⟨event, hevent, hproject, fun h => ?_⟩, event', hevent', hproject', fun h => ?_⟩
  · rcases h.cell _ (get_taggedRow _) (by decide +kernel) with ⟨map, hmap⟩
    cases hmap
  · rcases (h.attributed .project).of_some (.number "42") rfl with ⟨s, id, hs, -⟩
    cases hs

end Falkr
