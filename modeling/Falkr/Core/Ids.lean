import Mathlib.Algebra.GroupWithZero.Nat
import Mathlib.Order.Basic
import Mathlib.Order.Fin.Basic

/-!
# Ids — domain identifiers

Every identifier is a newtype over a UUID, one type per kind, so that identifiers of two kinds
cannot be confused.  The source declares them with one macro; here they are one structure indexed
by its kind.
-/

namespace Falkr

/-- A 128-bit UUID, ordered as its bytes are. -/
abbrev Uuid := Fin (2 ^ 128)

instance neZeroUuids : NeZero (2 ^ 128) := ⟨by decide⟩

/-- The text of a UUID: 32 lower-case hexadecimal digits in groups of 8, 4, 4, 4 and 12. -/
def Uuid.hyphenated (id : Uuid) : String :=
  let significant := Nat.toDigits 16 id.val
  let digits := List.replicate (32 - significant.length) '0' ++ significant
  let group (first length : Nat) := String.ofList ((digits.drop first).take length)
  String.intercalate "-" [group 0 8, group 8 4, group 12 4, group 16 4, group 20 12]

inductive IdKind
  | tenant
  | project
  | run
  | team
  | customer
  | model
  | dataset
  | provider
  | commitment
  | costEvent
  | experiment
  | entry
  | account
  | policy
  | usageEvent
  deriving DecidableEq, Repr

/-- `domain_id!`: an identifier of one kind. -/
structure DomainId (kind : IdKind) where
  asUuid : Uuid
  deriving Repr

namespace DomainId

variable {kind : IdKind}

theorem asUuid_injective : Function.Injective (@DomainId.asUuid kind) := by
  rintro ⟨a⟩ ⟨b⟩ h
  cases h
  rfl

instance : LinearOrder (DomainId kind) :=
  LinearOrder.lift' DomainId.asUuid asUuid_injective

end DomainId

abbrev TenantId := DomainId .tenant
abbrev ProjectId := DomainId .project
abbrev RunId := DomainId .run
abbrev TeamId := DomainId .team
abbrev CustomerId := DomainId .customer
abbrev ModelId := DomainId .model
abbrev DatasetId := DomainId .dataset
abbrev ProviderId := DomainId .provider
abbrev CommitmentId := DomainId .commitment
abbrev CostEventId := DomainId .costEvent
abbrev ExperimentId := DomainId .experiment
abbrev EntryId := DomainId .entry
abbrev AccountId := DomainId .account
abbrev PolicyId := DomainId .policy
abbrev UsageEventId := DomainId .usageEvent

/-- `DateTime<Utc>`: nanoseconds since the Unix epoch. -/
structure DateTimeUtc where
  nanos : Int
  deriving DecidableEq, Repr

end Falkr
