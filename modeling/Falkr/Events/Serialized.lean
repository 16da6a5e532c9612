import Falkr.Core.Texts
import Falkr.Events.Ledger
import Falkr.Lib.Serde

/-!
# Serialized — ledger events as JSON values

What `Serialize` and `Deserialize`, as derived, do to an event: fields under their own names, an
absent `Option` as `null`, a variant as an object of one field.  Decimals, identifiers and times are
texts, which their own libraries read; as long as those read what they have written
(`Leaves.Lawful`), an event is read back as it was (`LedgerEvent.serde_lawful`).
-/

namespace Falkr

open Lib

/-! ## Leaves -/

/-- How the libraries of decimals, identifiers and times read a JSON value. -/
structure Leaves where
  decimal : Json → Except String Decimal
  uuid : Json → Except String Uuid
  dateTime : Json → Except String DateTimeUtc

/-- The libraries read the texts that they write. -/
structure Leaves.Lawful (leaves : Leaves) : Prop where
  decimal : ∀ d : Decimal, leaves.decimal (.string d.display) = .ok d
  uuid : ∀ id : Uuid, leaves.uuid (.string id.hyphenated) = .ok id
  dateTime : ∀ time : DateTimeUtc, leaves.dateTime (.string time.toRfc3339) = .ok time

/-- Reads a text that is written just so. -/
def readExactly {α : Type} (display : α → String) (read : String → Option α) (value : Json) :
    Except String α :=
  match value with
  | .string s =>
      match (read s).filter fun a => display a = s with
      | some a => .ok a
      | none => .error ("invalid value: " ++ s)
  | _ => .error "invalid type, expected a string"

theorem readExactly_display {α : Type} (display : α → String) (read : String → Option α)
    (h : ∀ a, read (display a) = some a) (a : α) :
    readExactly display read (.string (display a)) = .ok a := by
  simp [readExactly, h a, Option.filter]

/-- Readers of the texts as they are written, and of no others. -/
def Leaves.exact : Leaves where
  decimal := readExactly Decimal.display Decimal.read
  uuid := readExactly Uuid.hyphenated Uuid.read
  dateTime := readExactly DateTimeUtc.toRfc3339 DateTimeUtc.read

theorem Leaves.exact_lawful : Leaves.exact.Lawful := by
  constructor
  · simp only [Leaves.exact]
    exact readExactly_display _ _ Decimal.read_display
  · simp only [Leaves.exact]
    exact readExactly_display _ _ Uuid.read_hyphenated
  · simp only [Leaves.exact]
    exact readExactly_display _ _ DateTimeUtc.read_toRfc3339

/-! ## Enumerations -/

namespace Currency

def variant : Currency → String
  | usd => "Usd"
  | eur => "Eur"
  | gbp => "Gbp"
  | chf => "Chf"
  | jpy => "Jpy"
  | cad => "Cad"
  | aud => "Aud"
  | sek => "Sek"
  | nok => "Nok"
  | dkk => "Dkk"
  | sgd => "Sgd"
  | inr => "Inr"

def serde : Serde Currency :=
  .unitVariants variant [usd, eur, gbp, chf, jpy, cad, aud, sek, nok, dkk, sgd, inr]

theorem serde_lawful : serde.Lawful := by
  apply Serde.unitVariants_lawful
  · intro a b h
    cases a <;> cases b <;> first | rfl | (revert h; decide)
  · intro a
    cases a <;> decide

end Currency

namespace FunctionCode

def variant : FunctionCode → String
  | cogs => "Cogs"
  | rnD => "RnD"
  | opEx => "OpEx"

def serde : Serde FunctionCode :=
  .unitVariants variant [cogs, rnD, opEx]

theorem serde_lawful : serde.Lawful := by
  apply Serde.unitVariants_lawful
  · intro a b h
    cases a <;> cases b <;> first | rfl | (revert h; decide)
  · intro a
    cases a <;> decide

end FunctionCode

namespace CapitalizationStatus

def variant : CapitalizationStatus → String
  | expensed => "Expensed"
  | capitalized => "Capitalized"
  | pendingReview => "PendingReview"

def serde : Serde CapitalizationStatus :=
  .unitVariants variant [expensed, capitalized, pendingReview]

theorem serde_lawful : serde.Lawful := by
  apply Serde.unitVariants_lawful
  · intro a b h
    cases a <;> cases b <;> first | rfl | (revert h; decide)
  · intro a
    cases a <;> decide

end CapitalizationStatus

/-! ## Records -/

section Records

variable (leaves : Leaves)

def decimalSerde : Serde Decimal :=
  .text Decimal.display leaves.decimal

def dateTimeSerde : Serde DateTimeUtc :=
  .text DateTimeUtc.toRfc3339 leaves.dateTime

/-- `#[serde(transparent)]`: the text of the UUID. -/
def idSerde (kind : IdKind) : Serde (DomainId kind) :=
  (Serde.text Uuid.hyphenated leaves.uuid).transparent DomainId.mk DomainId.asUuid

def Money.serde : Serde (Money Decimal) :=
  ((Fields.of Money.mk)
    |>.field "amount" (decimalSerde leaves) Money.amount
    |>.field "currency" Currency.serde Money.currency).struct

def JournalLine.serde : Serde (JournalLine Decimal) :=
  ((Fields.of JournalLine.mk)
    |>.field "account" (idSerde leaves .account) JournalLine.account
    |>.optionField "debit" (Money.serde leaves) JournalLine.debit
    |>.optionField "credit" (Money.serde leaves) JournalLine.credit
    |>.vecField "source_usage_event_ids" (idSerde leaves .usageEvent)
        JournalLine.sourceUsageEventIds).struct

def Dimensions.serde : Serde Dimensions :=
  ((Fields.of Dimensions.mk)
    |>.field "tenant_id" (idSerde leaves .tenant) Dimensions.tenantId
    |>.field "project_id" (idSerde leaves .project) Dimensions.projectId
    |>.optionField "run_id" (idSerde leaves .run) Dimensions.runId
    |>.field "team_id" (idSerde leaves .team) Dimensions.teamId
    |>.optionField "customer_id" (idSerde leaves .customer) Dimensions.customerId
    |>.optionField "model_id" (idSerde leaves .model) Dimensions.modelId
    |>.optionField "dataset_id" (idSerde leaves .dataset) Dimensions.datasetId
    |>.field "provider_id" (idSerde leaves .provider) Dimensions.providerId
    |>.field "function_code" FunctionCode.serde Dimensions.functionCode
    |>.optionField "commitment_id" (idSerde leaves .commitment) Dimensions.commitmentId).struct

/-! ## Events -/

/-- The fields of `JournalEntryPosted`. -/
def postedFields :
    Fields (EntryId × List (JournalLine Decimal) × Dimensions × DateTimeUtc)
      (LedgerEvent Decimal) :=
  (Fields.of LedgerEvent.journalEntryPosted)
    |>.field "id" (idSerde leaves .entry) (fun posted => posted.1)
    |>.field "lines" (JournalLine.serde leaves).vec (fun posted => posted.2.1)
    |>.field "dims" (Dimensions.serde leaves) (fun posted => posted.2.2.1)
    |>.field "posted_at" (dateTimeSerde leaves) (fun posted => posted.2.2.2)

/-- The fields of `EntryReversed`. -/
def reversedFields : Fields (EntryId × EntryId × String) (LedgerEvent Decimal) :=
  (Fields.of LedgerEvent.entryReversed)
    |>.field "original_id" (idSerde leaves .entry) (fun reversed => reversed.1)
    |>.field "reversal_id" (idSerde leaves .entry) (fun reversed => reversed.2.1)
    |>.field "reason" Serde.string (fun reversed => reversed.2.2)

/-- The fields of `CapitalizationStatusChanged`. -/
def changedFields :
    Fields (RunId × CapitalizationStatus × CapitalizationStatus × PolicyId)
      (LedgerEvent Decimal) :=
  (Fields.of LedgerEvent.capitalizationStatusChanged)
    |>.field "run_id" (idSerde leaves .run) (fun changed => changed.1)
    |>.field "from" CapitalizationStatus.serde (fun changed => changed.2.1)
    |>.field "to" CapitalizationStatus.serde (fun changed => changed.2.2.1)
    |>.field "policy_ref" (idSerde leaves .policy) (fun changed => changed.2.2.2)

/-- An event is an object whose one field is named after the variant. -/
def LedgerEvent.toValue : LedgerEvent Decimal → Json
  | .journalEntryPosted id lines dims postedAt =>
      .object [("JournalEntryPosted", (postedFields leaves).toObject (id, lines, dims, postedAt))]
  | .entryReversed originalId reversalId reason =>
      .object [("EntryReversed",
        (reversedFields leaves).toObject (originalId, reversalId, reason))]
  | .capitalizationStatusChanged runId fromStatus toStatus policyRef =>
      .object [("CapitalizationStatusChanged",
        (changedFields leaves).toObject (runId, fromStatus, toStatus, policyRef))]

def LedgerEvent.fromValue (value : Json) : Except String (LedgerEvent Decimal) :=
  match value with
  -- An externally tagged variant is a map of exactly one key.
  | .object [(name, body)] =>
      if name = "JournalEntryPosted" then (postedFields leaves).fromObject body
      else if name = "EntryReversed" then (reversedFields leaves).fromObject body
      else if name = "CapitalizationStatusChanged" then (changedFields leaves).fromObject body
      else
        .error ("unknown variant `" ++ name ++ "`, expected one of `JournalEntryPosted`, " ++
          "`EntryReversed`, `CapitalizationStatusChanged`")
  | _ => .error "invalid value, expected a map with a single key"

def LedgerEvent.serde : Serde (LedgerEvent Decimal) where
  toValue := LedgerEvent.toValue leaves
  fromValue := LedgerEvent.fromValue leaves

/-! ## Round trip -/

variable {leaves} (h : leaves.Lawful)

theorem idSerde_nonNull (kind : IdKind) : (idSerde leaves kind).NonNull := by
  intro id hnull
  cases hnull

include h

theorem decimalSerde_lawful : (decimalSerde leaves).Lawful := h.decimal

theorem dateTimeSerde_lawful : (dateTimeSerde leaves).Lawful := h.dateTime

theorem idSerde_lawful (kind : IdKind) : (idSerde leaves kind).Lawful := by
  have huuid : (Serde.text Uuid.hyphenated leaves.uuid).Lawful := h.uuid
  exact huuid.transparent fun _ => rfl

theorem Money.serde_lawful : (Money.serde leaves).Lawful := by
  apply Fields.struct_lawful
  · exact ((Fields.reads_of _).field (decimalSerde_lawful h) _ _).field Currency.serde_lawful _ _
  · intro amount
    simp [Fields.field, Fields.fieldOr, Fields.of]

theorem JournalLine.serde_lawful : (JournalLine.serde leaves).Lawful := by
  have hmoney := Money.serde_lawful h
  have hmoney' : (Money.serde leaves).NonNull := Fields.struct_nonNull _
  apply Fields.struct_lawful
  · exact ((((Fields.reads_of _).field (idSerde_lawful h _) _ _).optionField hmoney hmoney' _
      _).optionField hmoney hmoney' _ _).vecField (idSerde_lawful h _) _ _
  · intro line
    simp [Fields.field, Fields.optionField, Fields.vecField, Fields.fieldOr, Fields.of]

theorem Dimensions.serde_lawful : (Dimensions.serde leaves).Lawful := by
  have hid : ∀ kind, (idSerde leaves kind).Lawful := idSerde_lawful h
  have hid' : ∀ kind, (idSerde leaves kind).NonNull := idSerde_nonNull
  apply Fields.struct_lawful
  · exact ((((((((((Fields.reads_of _).field (hid _) _ _).field (hid _) _ _).optionField (hid _)
      (hid' _) _ _).field (hid _) _ _).optionField (hid _) (hid' _) _ _).optionField (hid _)
      (hid' _) _ _).optionField (hid _) (hid' _) _ _).field (hid _) _ _).field
      FunctionCode.serde_lawful _ _).optionField (hid _) (hid' _) _ _
  · intro dims
    simp [Fields.field, Fields.optionField, Fields.fieldOr, Fields.of]

theorem reads_postedFields : (postedFields leaves).Reads fun posted =>
    .journalEntryPosted posted.1 posted.2.1 posted.2.2.1 posted.2.2.2 :=
  ((((Fields.reads_of _).field (idSerde_lawful h _) _ _).field
    (JournalLine.serde_lawful h).vec _ _).field (Dimensions.serde_lawful h) _ _).field
    (dateTimeSerde_lawful h) _ _

theorem reads_reversedFields : (reversedFields leaves).Reads fun reversed =>
    .entryReversed reversed.1 reversed.2.1 reversed.2.2 :=
  (((Fields.reads_of _).field (idSerde_lawful h _) _ _).field (idSerde_lawful h _) _ _).field
    Serde.string_lawful _ _

theorem reads_changedFields : (changedFields leaves).Reads fun changed =>
    .capitalizationStatusChanged changed.1 changed.2.1 changed.2.2.1 changed.2.2.2 :=
  ((((Fields.reads_of _).field (idSerde_lawful h _) _ _).field
    CapitalizationStatus.serde_lawful _ _).field CapitalizationStatus.serde_lawful _ _).field
    (idSerde_lawful h _) _ _

/-- An event is read back as it was. -/
theorem LedgerEvent.serde_lawful : (LedgerEvent.serde leaves).Lawful := by
  intro event
  cases event with
  | journalEntryPosted id lines dims postedAt =>
      have hnames : ∀ posted, (((postedFields leaves).write posted).map Prod.fst).Nodup := by
        intro posted
        simp [postedFields, Fields.field, Fields.fieldOr, Fields.of]
      exact Fields.fromObject_toObject (reads_postedFields h) hnames (id, lines, dims, postedAt)
  | entryReversed originalId reversalId reason =>
      have hnames : ∀ reversed, (((reversedFields leaves).write reversed).map Prod.fst).Nodup := by
        intro reversed
        simp [reversedFields, Fields.field, Fields.fieldOr, Fields.of]
      exact Fields.fromObject_toObject (reads_reversedFields h) hnames
        (originalId, reversalId, reason)
  | capitalizationStatusChanged runId fromStatus toStatus policyRef =>
      have hnames : ∀ changed, (((changedFields leaves).write changed).map Prod.fst).Nodup := by
        intro changed
        simp [changedFields, Fields.field, Fields.fieldOr, Fields.of]
      exact Fields.fromObject_toObject (reads_changedFields h) hnames
        (runId, fromStatus, toStatus, policyRef)

end Records

/-- A line without sources is written without the field. -/
example : (JournalLine.serde Leaves.exact).toValue ⟨⟨10⟩, none, none, []⟩ =
    .object [("account", .string "00000000-0000-0000-0000-00000000000a"), ("credit", .null),
      ("debit", .null)] := by
  rfl

end Falkr
