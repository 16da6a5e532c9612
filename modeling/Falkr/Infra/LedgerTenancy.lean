import Falkr.Infra.LedgerReplay

/-!
# LedgerTenancy — the tenant of a row and the tenant of its posting

A row carries the tenant of the store that inserted it, its posting the tenant of its dimensions.
The command handler checks neither, and row-level security the row's only, so that the two are the
same in every stored row exactly if they are in every batch that is stored (`ownPostings_iff`).
-/

namespace Falkr

open Lib

section Tenancy

variable {α J : Type}

/-- A posting is dimensioned to a tenant. -/
def OwnEvent (tenantId : TenantId) : LedgerEvent α → Prop
  | .journalEntryPosted _ _ dims _ => dims.tenantId = tenantId
  | .entryReversed _ _ _ => True
  | .capitalizationStatusChanged _ _ _ _ => True

instance (tenantId : TenantId) : ∀ event : LedgerEvent α, Decidable (OwnEvent tenantId event)
  | .journalEntryPosted _ _ dims _ => inferInstanceAs (Decidable (dims.tenantId = tenantId))
  | .entryReversed _ _ _ => inferInstanceAs (Decidable True)
  | .capitalizationStatusChanged _ _ _ _ => inferInstanceAs (Decidable True)

variable (codec : Codec (LedgerEvent α) J)

/-- A row whose payload is a posting is the row of the tenant that the posting names. -/
def OwnPosting (row : LedgerRow J) : Prop :=
  ∀ id lines dims postedAt,
    codec.fromValue row.payload = .ok (.journalEntryPosted id lines dims postedAt) →
      dims.tenantId = row.tenantId

/-- A call that goes through carries postings of its own tenant only. -/
def OwnBatch (table : List (LedgerRow J)) : StoreCall α → Prop
  | .load _ _ _ => True
  | .persist caller state events env =>
      env.beginError = none → GoesThrough codec caller table state events env →
        ∀ event ∈ events, OwnEvent caller event

variable {codec}

theorem ownPosting_iff {row : LedgerRow J} {event : LedgerEvent α}
    (h : codec.fromValue row.payload = .ok event) :
    OwnPosting codec row ↔ OwnEvent row.tenantId event := by
  cases event with
  | journalEntryPosted id lines dims postedAt =>
      constructor
      · intro hrow
        exact hrow id lines dims postedAt h
      · rintro hevent id' lines' dims' postedAt' h'
        cases h.symm.trans h'
        exact hevent
  | entryReversed | capitalizationStatusChanged =>
      refine iff_of_true ?_ trivial
      intro id lines dims postedAt h'
      cases h.symm.trans h'

/-- Rows that decode to a batch carry the postings of the batch. -/
theorem ownPostings_of_decodes {tenantId : TenantId} {rows : List (LedgerRow J)}
    {events : List (LedgerEvent α)} (h : List.Forall₂ (Decodes codec) rows events)
    (hrows : ∀ row ∈ rows, row.tenantId = tenantId) :
    (∀ row ∈ rows, OwnPosting codec row) ↔ ∀ event ∈ events, OwnEvent tenantId event := by
  induction h with
  | nil => simp
  | cons hrow hrest ih =>
      rcases List.forall_mem_cons.1 hrows with ⟨hfirst, hothers⟩
      rw [List.forall_mem_cons, List.forall_mem_cons, ih hothers, ownPosting_iff hrow, hfirst]

variable {m : Type → Type} [Monad m] [Amount m α]

/-- A call keeps to its tenant exactly if its batch does. -/
theorem ownPostings_perform (hcodec : codec.Lawful) (table : List (LedgerRow J))
    (call : StoreCall α) :
    (∀ row ∈ (perform (m := m) codec table call).1, OwnPosting codec row) ↔
      (∀ row ∈ table, OwnPosting codec row) ∧ OwnBatch codec table call := by
  cases call with
  | load caller id env => simp [perform, OwnBatch]
  | persist caller state events env =>
      show (∀ row ∈ (persist codec caller table state events env).1, OwnPosting codec row) ↔ _
      have hok : (∃ stored, (persist codec caller table state events env).2.2 = .ok stored) ↔
          env.beginError = none ∧ GoesThrough codec caller table state events env :=
        persist_ok_iff state events table
      cases hresult : (persist codec caller table state events env).2.2 with
      | error e =>
          rw [persist_error_table hresult]
          refine (and_iff_left ?_).symm
          -- A call that fails does not go through, whatever it carries.
          intro hbegin hgoes
          rcases hok.2 ⟨hbegin, hgoes⟩ with ⟨stored, hstored⟩
          rw [hresult] at hstored
          cases hstored
      | ok stored =>
          rcases persist_ok_table hresult with ⟨htable, result, hloop⟩
          rcases hok.1 ⟨stored, hresult⟩ with ⟨hbegin, hgoes⟩
          have hbatch := ownPostings_of_decodes
            (decodes_insertable hcodec events 0 state table [] hloop)
            (tenantId_of_insertable events 0 state table)
          rw [htable, List.forall_mem_append, hbatch]
          simp [OwnBatch, hbegin, hgoes]

variable (m) in
theorem ownPostings_afterCalls (hcodec : codec.Lawful) :
    ∀ (calls : List (StoreCall α)) (table : List (LedgerRow J)),
      (∀ row ∈ afterCalls m codec table calls, OwnPosting codec row) ↔
        (∀ row ∈ table, OwnPosting codec row) ∧
          Throughout m codec (OwnBatch codec) table calls := by
  intro calls
  induction calls with
  | nil => simp [afterCalls, Throughout]
  | cons call calls ih =>
      intro table
      simp only [afterCalls, Throughout, ih, ownPostings_perform hcodec, and_assoc]

end Tenancy

/-- After a history of calls, every row whose payload is a posting is the row of the tenant that the
posting names exactly if every batch that went through was of its own tenant. -/
theorem ownPostings_iff {leaves : Leaves} (h : leaves.Lawful) (calls : List (StoreCall Decimal)) :
    (∀ row ∈ afterCalls Option (eventCodec leaves) [] calls,
        ∀ id lines dims postedAt,
          LedgerEvent.fromValue leaves row.payload =
              .ok (.journalEntryPosted id lines dims postedAt) →
            dims.tenantId = row.tenantId) ↔
      Throughout Option (eventCodec leaves) (OwnBatch (eventCodec leaves)) [] calls := by
  have hall := ownPostings_afterCalls Option (eventCodec_lawful h) calls []
  exact hall.trans (and_iff_right (by simp))

/-! ## A posting to another tenant -/

def fiveDollarLines : List (JournalLine Decimal) :=
  let amount : Money Decimal := { amount := Decimal.ofInt 5 (by decide), currency := .usd }
  [.mk ⟨10⟩ (some amount) none [], .mk ⟨11⟩ none (some amount) []]

/-- A posting dimensioned to a tenant. -/
def postingFor (tenantId : TenantId) : LedgerEvent Decimal :=
  .journalEntryPosted ⟨1⟩ fiveDollarLines (Dimensions.new tenantId ⟨2⟩ ⟨3⟩ ⟨4⟩ .opEx) ⟨0⟩

/-- The store of the first tenant is given a posting. -/
def postingCalls (tenantId : TenantId) : List (StoreCall Decimal) :=
  [.persist ⟨1⟩ newState [postingFor tenantId] (.ok ⟨0⟩ fun _ => 100)]

theorem not_ownPostings_postingCalls :
    handleCommand newState.inner
          (.postJournalEntry fiveDollarLines (Dimensions.new ⟨9⟩ ⟨2⟩ ⟨3⟩ ⟨4⟩ .opEx)) ⟨1⟩ ⟨0⟩ =
        some (.ok [postingFor ⟨9⟩]) ∧
      ∃ row ∈ afterCalls Option (eventCodec Leaves.exact) [] (postingCalls ⟨9⟩),
        LedgerEvent.fromValue Leaves.exact row.payload = .ok (postingFor ⟨9⟩) ∧
          row.tenantId = ⟨1⟩ := by
  have hrows : afterCalls Option (eventCodec Leaves.exact) [] (postingCalls ⟨9⟩) =
      [eventRow ⟨1⟩ 7 ⟨0⟩ 100 1 ((postingFor ⟨9⟩).toValue Leaves.exact)] := rfl
  refine ⟨by decide +kernel, ?_⟩
  rw [hrows]
  exact ⟨_, List.mem_singleton.2 rfl,
    LedgerEvent.serde_lawful Leaves.exact_lawful (postingFor ⟨9⟩), rfl⟩

theorem ownPostings_postingCalls :
    (afterCalls Option (eventCodec Leaves.exact) [] (postingCalls ⟨1⟩)).length = 1 ∧
      ∀ row ∈ afterCalls Option (eventCodec Leaves.exact) [] (postingCalls ⟨1⟩),
        ∀ id lines dims postedAt,
          LedgerEvent.fromValue Leaves.exact row.payload =
              .ok (.journalEntryPosted id lines dims postedAt) →
            dims.tenantId = row.tenantId := by
  refine ⟨by decide +kernel, (ownPostings_iff Leaves.exact_lawful (postingCalls ⟨1⟩)).2 ?_⟩
  exact ⟨fun _ _ => by decide +kernel, trivial⟩

end Falkr
