import Falkr.CostSpine.Normalized
import Falkr.Lib.Joined
import Falkr.Lib.JsonText

/-!
# LineIdentity — what a FOCUS line is known by

The external id is a hash of the trimmed cells, joined by the unit separator.  One line can be
written in two ways, and a cell may hold the separator.
-/

namespace Falkr

open Lib

/-- The identifying values of a line, as its event holds them. -/
structure LineIdentity where
  billingPeriod : String
  billingAccountId : String
  chargePeriodStart : DateTimeUtc
  chargePeriodEnd : DateTimeUtc
  serviceName : String
  chargeCategory : ChargeCategory
  resourceId : Option String
  regionId : Option String
  deriving DecidableEq

def CostEvent.lineIdentity (self : CostEvent) : LineIdentity where
  billingPeriod := trim self.sourceRef.billingPeriod
  billingAccountId := trim self.billingAccountId
  chargePeriodStart := self.chargePeriodStart
  chargePeriodEnd := self.chargePeriodEnd
  serviceName := trim self.serviceName
  chargeCategory := self.chargeCategory
  resourceId := self.resourceId
  regionId := self.regionId

/-! ## Cells -/

/-- The trimmed text of a cell; a missing one reads as a blank one. -/
def cellText (row : Json) (name : String) : String :=
  (optionalField row name).getD ""

/-- The texts that are hashed together. -/
def identityCells (raw : RawCostRecord) : List (List Char) :=
  raw.billingPeriod.toList :: identityColumns.map fun name => (cellText raw.row name).toList

theorem toList_identityText (raw : RawCostRecord) :
    (identityText raw.row raw.billingPeriod).toList =
      ['\x1f'].intercalate (identityCells raw) := by
  have hsep : ("\x1f" : String).toList = ['\x1f'] := rfl
  simp [identityText, identityCells, identityColumns, cellText, hsep]

theorem cellText_of_field {row : Json} {name text : String} (h : field row name = .ok text) :
    cellText row name = trim text := by
  have hcell : (row.get name).bind Json.asStr = some text := by
    unfold field at h
    split at h
    · rename_i value hvalue
      cases h
      exact hvalue
    · cases h
  by_cases hblank : (trim text).isEmpty
  · simp [cellText, optionalField, hcell, String.isEmpty_iff.1 hblank]
  · simp [cellText, optionalField, hcell, hblank]

/-- An optional cell is determined by its text. -/
theorem optionalField_eq_iff {row row' : Json} {name name' : String} :
    optionalField row name = optionalField row' name' ↔
      cellText row name = cellText row' name' := by
  have hne : ∀ (row : Json) (name : String), optionalField row name ≠ some "" := by
    intro row name h
    unfold optionalField at h
    split at h
    · split at h
      · cases h
      next hblank =>
        rcases Option.some.inj h with rfl
        exact hblank rfl
    · cases h
  constructor
  · intro h
    rw [cellText, cellText, h]
  · intro h
    cases ha : optionalField row name with
    | none =>
        cases hb : optionalField row' name' with
        | none => rfl
        | some b =>
            obtain rfl : b = "" := by simpa [cellText, ha, hb, eq_comm] using h
            exact absurd hb (hne row' name')
    | some a =>
        cases hb : optionalField row' name' with
        | none =>
            obtain rfl : a = "" := by simpa [cellText, ha, hb] using h
            exact absurd ha (hne row name)
        | some b => simpa [cellText, ha, hb] using h

/-- A category is parsed from its name, in any case of letters. -/
theorem parseChargeCategory_eq_ok {value : String} {category : ChargeCategory} :
    parseChargeCategory value = .ok category ↔ toAsciiLowercase (trim value) = category.asStr := by
  unfold parseChargeCategory
  generalize toAsciiLowercase (trim value) = lower
  constructor
  · intro h
    split at h <;> first | (obtain rfl := Except.ok.inj h; rfl) | cases h
  · rintro rfl
    cases category <;> rfl

theorem ChargeCategory.asStr_inj {a b : ChargeCategory} : a.asStr = b.asStr ↔ a = b := by
  constructor
  · intro h
    cases a <;> cases b <;> first | rfl | (revert h; decide)
  · rintro rfl
    rfl

/-! ## One line, written in two ways -/

/-- The two rows have the same identifying values. -/
structure SameLine (libs : Libraries) (a b : RawCostRecord) : Prop where
  period : trim a.billingPeriod = trim b.billingPeriod
  texts : ∀ name ∈ ["BillingAccountId", "ServiceName", "ResourceId", "RegionId"],
    cellText a.row name = cellText b.row name
  times : ∀ name ∈ ["ChargePeriodStart", "ChargePeriodEnd"],
    libs.parseFromRfc3339 (cellText a.row name) = libs.parseFromRfc3339 (cellText b.row name)
  category : toAsciiLowercase (cellText a.row "ChargeCategory") =
    toAsciiLowercase (cellText b.row "ChargeCategory")

/-- They have the same values, but white space around the billing period, a timestamp or the
category is written differently. -/
def Respelled (libs : Libraries) (a b : RawCostRecord) : Prop :=
  SameLine libs a b ∧ (a.billingPeriod ≠ b.billingPeriod ∨
    ∃ name ∈ ["ChargePeriodStart", "ChargePeriodEnd", "ChargeCategory"],
      cellText a.row name ≠ cellText b.row name)

/-- Their cells hold the same segments between unit separators, in one row, but some cell another
number of them. -/
def CellsRegrouped (a b : RawCostRecord) : Prop :=
  Regrouped '\x1f' (identityCells a) (identityCells b)

variable {libs : Libraries} {connector connector' : AwsFocusConnector} {raw raw' : RawCostRecord}
  {event event' : CostEvent}

theorem sameLine_of_cells (h : identityCells raw = identityCells raw') :
    SameLine libs raw raw' ∧ ¬Respelled libs raw raw' := by
  simp only [identityCells, identityColumns, List.map_cons, List.map_nil, List.cons.injEq,
    String.toList_inj, and_true] at h
  rcases h with ⟨hperiod, haccount, hstart, hstop, hservice, hcategory, hresource, hregion⟩
  refine ⟨⟨congrArg trim hperiod, ?_, ?_, congrArg toAsciiLowercase hcategory⟩, ?_⟩
  · simp [haccount, hservice, hresource, hregion]
  · simp [hstart, hstop]
  · rintro ⟨-, hne | ⟨name, hname, hne⟩⟩
    · exact hne hperiod
    · simp only [List.mem_cons, List.not_mem_nil, or_false] at hname
      rcases hname with rfl | rfl | rfl
      · exact hne hstart
      · exact hne hstop
      · exact hne hcategory

theorem cells_of_sameLine (h : SameLine libs raw raw') (hspelled : ¬Respelled libs raw raw') :
    identityCells raw = identityCells raw' := by
  have hwritten : ¬(raw.billingPeriod ≠ raw'.billingPeriod ∨
      ∃ name ∈ ["ChargePeriodStart", "ChargePeriodEnd", "ChargeCategory"],
        cellText raw.row name ≠ cellText raw'.row name) := fun hne => hspelled ⟨h, hne⟩
  have htexts := h.texts
  simp only [not_or, not_not, not_exists, not_and, List.forall_mem_cons, List.not_mem_nil,
    false_imp_iff, implies_true, and_true] at hwritten htexts
  simp [identityCells, identityColumns, hwritten, htexts]

theorem parseTimestamp_eq_ok {value column : String} {time : DateTimeUtc} :
    parseTimestamp libs value column = .ok time ↔
      libs.parseFromRfc3339 (trim value) = some time := by
  unfold parseTimestamp
  cases libs.parseFromRfc3339 (trim value) <;> simp

/-- What the identity of an event is read from. -/
structure IdentityRead (libs : Libraries) (raw : RawCostRecord) (event : CostEvent) : Prop where
  period : trim event.sourceRef.billingPeriod = trim raw.billingPeriod
  account : trim event.billingAccountId = cellText raw.row "BillingAccountId"
  start : libs.parseFromRfc3339 (cellText raw.row "ChargePeriodStart") =
    some event.chargePeriodStart
  stop : libs.parseFromRfc3339 (cellText raw.row "ChargePeriodEnd") = some event.chargePeriodEnd
  service : trim event.serviceName = cellText raw.row "ServiceName"
  category : toAsciiLowercase (cellText raw.row "ChargeCategory") = event.chargeCategory.asStr
  resource : event.resourceId = optionalField raw.row "ResourceId"
  region : event.regionId = optionalField raw.row "RegionId"

theorem identityRead_of_readFrom (h : ReadFrom libs connector raw event) :
    IdentityRead libs raw event := by
  rcases h.start with ⟨startText, hstartText, hstart⟩
  rcases h.stop with ⟨stopText, hstopText, hstop⟩
  rcases h.category with ⟨category, hcategory, hcharge⟩
  exact
    { period := by rw [h.billingPeriod]
      account := (cellText_of_field h.account).symm
      start := by rw [cellText_of_field hstartText]; exact parseTimestamp_eq_ok.1 hstart
      stop := by rw [cellText_of_field hstopText]; exact parseTimestamp_eq_ok.1 hstop
      service := (cellText_of_field h.service).symm
      category := by rw [cellText_of_field hcategory]; exact parseChargeCategory_eq_ok.1 hcharge
      resource := h.resource
      region := h.region }

/-- Two events have one identity exactly when their rows have the same identifying values. -/
theorem lineIdentity_eq_iff (h : IdentityRead libs raw event) (h' : IdentityRead libs raw' event') :
    event.lineIdentity = event'.lineIdentity ↔ SameLine libs raw raw' := by
  have hstart : event.chargePeriodStart = event'.chargePeriodStart ↔
      libs.parseFromRfc3339 (cellText raw.row "ChargePeriodStart") =
        libs.parseFromRfc3339 (cellText raw'.row "ChargePeriodStart") := by
    rw [h.start, h'.start, Option.some_inj]
  have hstop : event.chargePeriodEnd = event'.chargePeriodEnd ↔
      libs.parseFromRfc3339 (cellText raw.row "ChargePeriodEnd") =
        libs.parseFromRfc3339 (cellText raw'.row "ChargePeriodEnd") := by
    rw [h.stop, h'.stop, Option.some_inj]
  simp only [CostEvent.lineIdentity, LineIdentity.mk.injEq, hstart, hstop, h.period, h'.period,
    h.account, h'.account, h.service, h'.service, h.resource, h'.resource, h.region, h'.region,
    optionalField_eq_iff, ← ChargeCategory.asStr_inj, ← h.category, ← h'.category]
  constructor
  · rintro ⟨hperiod, haccount, hstart, hstop, hservice, hcategory, hresource, hregion⟩
    exact ⟨hperiod, by simp [haccount, hservice, hresource, hregion], by simp [hstart, hstop],
      hcategory⟩
  · intro hsame
    have htexts := hsame.texts
    have htimes := hsame.times
    simp only [List.forall_mem_cons, List.not_mem_nil, false_imp_iff, implies_true, and_true]
      at htexts htimes
    exact ⟨hsame.period, htexts.1, htimes.1, htimes.2, htexts.2.1, hsame.category, htexts.2.2.1,
      htexts.2.2.2⟩

/-! ## The separator -/

/-- Timestamps and categories are accepted without the separator in them, and trimming leaves it, so
the cells of one line hold equally many. -/
theorem not_regrouped_of_sameLine (h : IdentityRead libs raw event)
    (h' : IdentityRead libs raw' event')
    (hrfc : ∀ text time, libs.parseFromRfc3339 text = some time → '\x1f' ∉ text.toList)
    (hsame : SameLine libs raw raw') : ¬CellsRegrouped raw raw' := by
  have hcategory : ∀ {row : Json} {category : ChargeCategory},
      toAsciiLowercase (cellText row "ChargeCategory") = category.asStr →
        (cellText row "ChargeCategory").toList.count '\x1f' = 0 := by
    intro row category hlower
    refine List.count_eq_zero.2 fun hmem => ?_
    have hkept : '\x1f' ∈ category.asStr.toList := by
      rw [← hlower, toAsciiLowercase, String.toList_ofList]
      exact List.mem_map.2 ⟨'\x1f', hmem, by decide⟩
    revert hkept
    cases category <;> decide
  have hperiod :
      raw.billingPeriod.toList.count '\x1f' = raw'.billingPeriod.toList.count '\x1f' := by
    rw [← count_trim (by decide) raw.billingPeriod, ← count_trim (by decide) raw'.billingPeriod,
      hsame.period]
  have htexts := hsame.texts
  simp only [List.forall_mem_cons, List.not_mem_nil, false_imp_iff, implies_true, and_true]
    at htexts
  rintro ⟨-, hcounts⟩
  refine hcounts ?_
  simp only [identityCells, identityColumns, List.map_cons, List.map_nil, length_splitOn, hperiod,
    htexts, List.count_eq_zero.2 (hrfc _ _ h.start), List.count_eq_zero.2 (hrfc _ _ h.stop),
    List.count_eq_zero.2 (hrfc _ _ h'.start), List.count_eq_zero.2 (hrfc _ _ h'.stop),
    hcategory h.category, hcategory h'.category]

/-- The external ids of two lines tell their identities apart exactly when they are not one line
written in two ways, nor two lines whose cells run into each other. -/
theorem externalId_identifies_iff {now now' : DateTimeUtc} {newId newId' : CostEventId}
    (hcollisionFree : libs.sha256 (identityText raw.row raw.billingPeriod) =
        libs.sha256 (identityText raw'.row raw'.billingPeriod) →
      identityText raw.row raw.billingPeriod = identityText raw'.row raw'.billingPeriod)
    (hrfc : ∀ text time, libs.parseFromRfc3339 text = some time → '\x1f' ∉ text.toList)
    (h : normalize libs connector raw now newId = .ok event)
    (h' : normalize libs connector' raw' now' newId' = .ok event') :
    (event.sourceRef.externalId = event'.sourceRef.externalId ↔
        event.lineIdentity = event'.lineIdentity) ↔
      ¬Respelled libs raw raw' ∧ ¬CellsRegrouped raw raw' := by
  have hread := readFrom_of_normalize h
  have hread' := readFrom_of_normalize h'
  have hidentity := identityRead_of_readFrom hread
  have hidentity' := identityRead_of_readFrom hread'
  have hids : event.sourceRef.externalId = event'.sourceRef.externalId ↔
      identityCells raw = identityCells raw' ∨ CellsRegrouped raw raw' := by
    rw [hread.externalId, hread'.externalId, deriveExternalId, deriveExternalId]
    have htexts : libs.sha256 (identityText raw.row raw.billingPeriod) =
        libs.sha256 (identityText raw'.row raw'.billingPeriod) ↔
          (identityText raw.row raw.billingPeriod).toList =
            (identityText raw'.row raw'.billingPeriod).toList := by
      rw [String.toList_inj]
      exact ⟨hcollisionFree, congrArg libs.sha256⟩
    rw [htexts, toList_identityText, toList_identityText]
    exact joined_eq_iff '\x1f' (List.cons_ne_nil _ _) (List.cons_ne_nil _ _)
  rw [hids, lineIdentity_eq_iff hidentity hidentity']
  constructor
  · intro hiff
    have hregrouped : ¬CellsRegrouped raw raw' := fun hcut =>
      not_regrouped_of_sameLine hidentity hidentity' hrfc (hiff.1 (Or.inr hcut)) hcut
    refine ⟨fun hspelled => ?_, hregrouped⟩
    rcases hiff.2 hspelled.1 with hcells | hcut
    · exact (sameLine_of_cells hcells).2 hspelled
    · exact hregrouped hcut
  · rintro ⟨hspelled, hregrouped⟩
    rw [or_iff_left hregrouped]
    exact ⟨fun hcells => (sameLine_of_cells hcells).1,
      fun hsame => cells_of_sameLine hsame hspelled⟩

/-! ## Volumes and a snapshot -/

/-- A line for an hour of storage. -/
def focusRow (category resourceId regionId : String) : RawCostRecord where
  provider := .aws
  exportRef := "2026-08.csv"
  billingPeriod := "2026-08"
  row := .object (Json.extend []
    [("BillingAccountId", .string "111122223333"), ("BillingCurrency", .string "USD"),
      ("ChargePeriodStart", .string "2026-08-01T00:00:00Z"),
      ("ChargePeriodEnd", .string "2026-08-01T01:00:00Z"), ("BilledCost", .string "10.00"),
      ("EffectiveCost", .string "10.00"), ("ListCost", .string "10.00"),
      ("ServiceName", .string "Amazon EBS"), ("ChargeCategory", .string category),
      ("ResourceId", .string resourceId), ("RegionId", .string regionId)])

/-- The digests of the texts that are hashed below: the joined cells of a line, and its row. -/
def focusDigests : List (String × String) :=
  [(identityText (focusRow "Usage" "vol-1" "us-east-1").row "2026-08",
    "f9d4f6a4d5f895a8def33eca0c36b2c37c5420838aed8adb540a8eeef357fde2"),
  (identityText (focusRow "usage" "vol-1" "us-east-1").row "2026-08",
    "3f32c6882efed0d759603e2c4230fe4b62d144df4ee4289d6eef7a5c4a034503"),
  (identityText (focusRow "Usage" "vol-2" "us-east-1").row "2026-08",
    "74a188ffb316248b64efe2d816d220a3b513aa538be7887879801bab85e5028c"),
  (identityText (focusRow "Usage" "vol-1\x1fsnap" "us-east-1").row "2026-08",
    "806283c3af2493505585c33262ba79aa20558b23b3596621ac4ac2f408dcc146"),
  ((focusRow "Usage" "vol-1" "us-east-1").row.compact,
    "fd62d65dc6aba32cec42fd0c573f9be9dab60ccb6abd321fc861f0915f780325"),
  ((focusRow "usage" "vol-1" "us-east-1").row.compact,
    "13ca3b5c48d559a45c5618b27b4cf7f9f55f0dbcba3213ad31d5dea965b7b007"),
  ((focusRow "Usage" "vol-2" "us-east-1").row.compact,
    "e827f42773764f858e9e96d6c6b1c7dd97bcf08a75678deee3cb96c633d5b6bb"),
  ((focusRow "Usage" "vol-1\x1fsnap" "us-east-1").row.compact,
    "545149b65ce7d0eb207b7ef6861ef37875bee9605c6a2b3da509725af6d2aea4"),
  ((focusRow "Usage" "vol-1" "snap\x1fus-east-1").row.compact,
    "bba912b81aad8a89cec9dfc10e8f642f9714c43322aa6704efa8ea55ae6b0d1d")]

/-- The libraries on the texts of these lines. -/
def focusLibraries : Libraries where
  sha256 := fun text => (focusDigests.lookup text).getD ""
  parseDecimal := fun text => [("10.00", (10 : ℚ))].lookup text
  parseFromRfc3339 := fun text =>
    [("2026-08-01T00:00:00Z", DateTimeUtc.mk 1785542400000000000),
      ("2026-08-01T01:00:00Z", DateTimeUtc.mk 1785546000000000000)].lookup text
  parseUuid := fun _ => none
  jsonFromStr := fun _ => none
  jsonToString := Json.compact

def focusConnector : AwsFocusConnector where
  rules := TagAttributionRules.default
  ctx :=
    { tenantId := ⟨1⟩
      providerId := ⟨2⟩
      defaultProjectId := some ⟨3⟩
      defaultTeamId := some ⟨4⟩ }
  defaultCurrency := .usd

def focusEvent (category resourceId regionId : String) : Except NormalizeError CostEvent :=
  normalize focusLibraries focusConnector (focusRow category resourceId regionId) ⟨0⟩ ⟨1⟩

/-- The identity of a line of these. -/
def focusIdentity (category : ChargeCategory) (resourceId regionId : String) : LineIdentity where
  billingPeriod := "2026-08"
  billingAccountId := "111122223333"
  chargePeriodStart := ⟨1785542400000000000⟩
  chargePeriodEnd := ⟨1785546000000000000⟩
  serviceName := "Amazon EBS"
  chargeCategory := category
  resourceId := some resourceId
  regionId := some regionId

theorem exists_focusEvent {category resourceId regionId externalId : String}
    {identity : LineIdentity}
    (h : (focusEvent category resourceId regionId).toOption.map (fun event =>
      (event.sourceRef.externalId, event.lineIdentity)) = some (externalId, identity)) :
    ∃ event, focusEvent category resourceId regionId = .ok event ∧
      event.sourceRef.externalId = externalId ∧ event.lineIdentity = identity := by
  cases hevent : focusEvent category resourceId regionId with
  | error e => simp [hevent, Except.toOption] at h
  | ok event =>
      rw [hevent] at h
      rcases Prod.mk.inj (Option.some.inj h) with ⟨hid, hidentity⟩
      exact ⟨event, rfl, hid, hidentity⟩

theorem focus_times : ∀ text time, focusLibraries.parseFromRfc3339 text = some time →
    '\x1f' ∉ text.toList := by
  intro text time h
  simp only [focusLibraries, List.lookup_cons, List.lookup_nil] at h
  split at h
  next heq =>
    rw [beq_iff_eq.1 heq]
    decide +kernel
  split at h
  next heq =>
    rw [beq_iff_eq.1 heq]
    decide +kernel
  cases h

theorem focusEvent_volume :
    (focusEvent "Usage" "vol-1" "us-east-1").toOption.map (fun event =>
      (event.sourceRef.externalId, event.lineIdentity)) =
        some ("f9d4f6a4d5f895a8def33eca0c36b2c37c5420838aed8adb540a8eeef357fde2",
          focusIdentity .usage "vol-1" "us-east-1") := by
  decide +kernel

/-- Two volumes are told apart. -/
theorem externalId_identifies_volumes :
    ∃ one two, focusEvent "Usage" "vol-1" "us-east-1" = .ok one ∧
      focusEvent "Usage" "vol-2" "us-east-1" = .ok two ∧
        (one.sourceRef.externalId = two.sourceRef.externalId ↔
          one.lineIdentity = two.lineIdentity) := by
  have htwo : (focusEvent "Usage" "vol-2" "us-east-1").toOption.map (fun event =>
      (event.sourceRef.externalId, event.lineIdentity)) =
        some ("74a188ffb316248b64efe2d816d220a3b513aa538be7887879801bab85e5028c",
          focusIdentity .usage "vol-2" "us-east-1") := by decide +kernel
  rcases exists_focusEvent focusEvent_volume with ⟨one, hok, -, -⟩
  rcases exists_focusEvent htwo with ⟨two, hok', -, -⟩
  refine ⟨one, two, hok, hok', (externalId_identifies_iff ?_ focus_times hok hok').2 ⟨?_, ?_⟩⟩
  · decide +kernel
  · intro hspelled
    exact absurd (hspelled.1.texts "ResourceId" (by decide)) (by decide +kernel)
  · intro hcut
    exact absurd hcut.1 (by decide +kernel)

/-- A category in another case of letters makes two lines of one, and a cell that holds the
separator one of two. -/
theorem externalId_not_identifies :
    (∃ one two, focusEvent "Usage" "vol-1" "us-east-1" = .ok one ∧
      focusEvent "usage" "vol-1" "us-east-1" = .ok two ∧
        one.sourceRef.externalId ≠ two.sourceRef.externalId ∧
          one.lineIdentity = two.lineIdentity) ∧
    ∃ one two, focusEvent "Usage" "vol-1\x1fsnap" "us-east-1" = .ok one ∧
      focusEvent "Usage" "vol-1" "snap\x1fus-east-1" = .ok two ∧
        one.sourceRef.externalId = two.sourceRef.externalId ∧
          one.lineIdentity ≠ two.lineIdentity := by
  have hlower : (focusEvent "usage" "vol-1" "us-east-1").toOption.map (fun event =>
      (event.sourceRef.externalId, event.lineIdentity)) =
        some ("3f32c6882efed0d759603e2c4230fe4b62d144df4ee4289d6eef7a5c4a034503",
          focusIdentity .usage "vol-1" "us-east-1") := by decide +kernel
  have hresource : (focusEvent "Usage" "vol-1\x1fsnap" "us-east-1").toOption.map (fun event =>
      (event.sourceRef.externalId, event.lineIdentity)) =
        some ("806283c3af2493505585c33262ba79aa20558b23b3596621ac4ac2f408dcc146",
          focusIdentity .usage "vol-1\x1fsnap" "us-east-1") := by decide +kernel
  have hregion : (focusEvent "Usage" "vol-1" "snap\x1fus-east-1").toOption.map (fun event =>
      (event.sourceRef.externalId, event.lineIdentity)) =
        some ("806283c3af2493505585c33262ba79aa20558b23b3596621ac4ac2f408dcc146",
          focusIdentity .usage "vol-1" "snap\x1fus-east-1") := by decide +kernel
  rcases exists_focusEvent focusEvent_volume with ⟨upper, hok, hid, hidentity⟩
  rcases exists_focusEvent hlower with ⟨lower, hok', hid', hidentity'⟩
  rcases exists_focusEvent hresource with ⟨resource, hok₂, hid₂, hidentity₂⟩
  rcases exists_focusEvent hregion with ⟨region, hok₃, hid₃, hidentity₃⟩
  refine ⟨⟨upper, lower, hok, hok', ?_, hidentity.trans hidentity'.symm⟩,
    ⟨resource, region, hok₂, hok₃, hid₂.trans hid₃.symm, ?_⟩⟩
  · rw [hid, hid']
    decide
  · rw [hidentity₂, hidentity₃]
    decide +kernel

end Falkr
