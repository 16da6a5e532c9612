import Falkr.Infra.CostUpserts

/-!
# CostRedelivery — the same batch twice

A row of a batch that carries the key of an earlier one with another content overwrites what the
earlier one wrote, so the second delivery writes both again.  A redelivery is a no-op exactly if a
batch brings one content under one key (`redelivery_noop_iff`).
-/

namespace Falkr

open Lib

/-- The row under an identity carries this content. -/
def Carried (table : List CostRow) (identity : TenantId × String × String)
    (contentHash : String) : Prop :=
  ∃ existing, findRow identity table = some existing ∧ existing.sourceContentHash = contentHash

/-- Two events under one key have one content. -/
def OneContent (events : List CostEvent) : Prop :=
  ∀ event ∈ events, ∀ other ∈ events, event.sourceRef.provider = other.sourceRef.provider →
    event.sourceRef.externalId = other.sourceRef.externalId →
    event.sourceRef.contentHash = other.sourceRef.contentHash

instance (events : List CostEvent) : Decidable (OneContent events) :=
  inferInstanceAs (Decidable (∀ event ∈ events, ∀ other ∈ events, _))

/-- A delivery counts nothing but duplicates and leaves every row as it is. -/
def NoOp (table : List CostRow) (events : List CostEvent) : Prop :=
  upsert table events UpsertEnv.ok =
    (table, .ok { inserted := 0, restated := 0, duplicate := events.length })

/-! ## What a statement leaves -/

theorem carried_of_upsertRow {table table' : List CostRow} {row : CostRow} {step : UpsertResult}
    (h : upsertRow table row = .ok (table', step)) :
    Carried table' row.identity row.sourceContentHash := by
  rcases upsertRow_cases h with ⟨existing, hfind, hhash, rfl, -⟩ | ⟨existing, hfind, -, rfl, -⟩ |
    ⟨hfind, -, rfl, -⟩
  · exact ⟨existing, hfind, hhash⟩
  · exact ⟨{ row with id := existing.id }, by
      simp [findRow_restate, hfind, identity_of_findRow hfind], rfl⟩
  · exact ⟨row, by simp [findRow_append, hfind], rfl⟩

/-- A statement on another key, or one that brings the same content, keeps what is carried. -/
theorem Carried.upsertRow {table table' : List CostRow} {row : CostRow} {step : UpsertResult}
    {identity : TenantId × String × String} {contentHash : String}
    (h : Carried table identity contentHash)
    (hrow : row.identity = identity → row.sourceContentHash = contentHash)
    (hupsert : Falkr.upsertRow table row = .ok (table', step)) :
    Carried table' identity contentHash := by
  by_cases hsame : row.identity = identity
  · rw [← hsame, ← hrow hsame]
    exact carried_of_upsertRow hupsert
  · rcases h with ⟨existing, hfind, hhash⟩
    rcases upsertRow_cases hupsert with ⟨-, -, -, rfl, -⟩ | ⟨-, -, -, rfl, -⟩ | ⟨-, -, rfl, -⟩
    · exact ⟨existing, hfind, hhash⟩
    · have hother : existing.identity ≠ row.identity := by
        rw [identity_of_findRow hfind]
        exact Ne.symm hsame
      exact ⟨existing, by simp [findRow_restate, hfind, hother], hhash⟩
    · exact ⟨existing, by simp [findRow_append, hfind], hhash⟩

/-! ## What the loop leaves -/

/-- The content that the rows of a batch bring under an identity. -/
def Brings (events : List CostEvent) (identity : TenantId × String × String)
    (contentHash : String) : Prop :=
  ∀ event ∈ events, event.identity = identity → event.sourceRef.contentHash = contentHash

theorem Carried.upsertEvents {env : UpsertEnv} {identity : TenantId × String × String}
    {contentHash : String} :
    ∀ {events : List CostEvent} {pass : Nat} {table table' : List CostRow}
      {outcome outcome' : UpsertOutcome}, Carried table identity contentHash →
      Brings events identity contentHash →
      Falkr.upsertEvents env events pass table outcome = .ok (table', outcome') →
      Carried table' identity contentHash := by
  intro events
  induction events with
  | nil =>
      intro pass table table' outcome outcome' h _ hloop
      have hpair : table = table' ∧ outcome = outcome' := by
        simpa [Falkr.upsertEvents] using hloop
      exact hpair.1 ▸ h
  | cons event rest ih =>
      intro pass table table' outcome outcome' h hbrings hloop
      rcases upsertEvents_cons_eq_ok.1 hloop with ⟨-, row, table₁, step, hrow, hupsert, hrest⟩
      rcases identity_of_encodeEvent hrow with ⟨hidentity, hhash, -⟩
      rcases List.forall_mem_cons.1 hbrings with ⟨hfirst, hlater⟩
      refine ih (h.upsertRow ?_ hupsert) hlater hrest
      intro hsame
      rw [hhash]
      exact hfirst (hidentity.symm.trans hsame)

/-- After a batch that brings one content under one key, every event of it is carried. -/
theorem carried_of_upsertEvents {env : UpsertEnv} :
    ∀ {events : List CostEvent} {pass : Nat} {table table' : List CostRow}
      {outcome outcome' : UpsertOutcome},
      (∀ event ∈ events, Brings events event.identity event.sourceRef.contentHash) →
      upsertEvents env events pass table outcome = .ok (table', outcome') →
      ∀ event ∈ events, (∃ row, encodeEvent event = .ok row) ∧
        Carried table' event.identity event.sourceRef.contentHash := by
  intro events
  induction events with
  | nil => simp
  | cons event rest ih =>
      intro pass table table' outcome outcome' hbrings hloop
      rcases upsertEvents_cons_eq_ok.1 hloop with ⟨-, row, table₁, step, hrow, hupsert, hrest⟩
      rcases identity_of_encodeEvent hrow with ⟨hidentity, hhash, -⟩
      have hfirst := carried_of_upsertRow hupsert
      rw [hidentity, hhash] at hfirst
      refine List.forall_mem_cons.2 ⟨⟨⟨row, hrow⟩, ?_⟩, ih ?_ hrest⟩
      -- What the first statement has put there stays for the rest of the batch.
      · exact hfirst.upsertEvents
          (fun later hmem => hbrings event (by simp) later (List.mem_cons_of_mem _ hmem)) hrest
      · intro later hmem other hother
        exact hbrings later (List.mem_cons_of_mem _ hmem) other (List.mem_cons_of_mem _ hother)

/-- A loop over events that are all carried finds them to be duplicates. -/
theorem upsertEvents_of_carried {table : List CostRow} :
    ∀ {events : List CostEvent} (pass : Nat) (outcome : UpsertOutcome),
      (∀ event ∈ events, (∃ row, encodeEvent event = .ok row) ∧
        Carried table event.identity event.sourceRef.contentHash) →
      upsertEvents UpsertEnv.ok events pass table outcome =
        .ok (table, { outcome with duplicate := outcome.duplicate + events.length }) := by
  intro events
  induction events with
  | nil =>
      intro pass outcome _
      rfl
  | cons event rest ih =>
      intro pass outcome h
      rcases List.forall_mem_cons.1 h with ⟨⟨⟨row, hrow⟩, existing, hfind, hhash⟩, hrest⟩
      rcases identity_of_encodeEvent hrow with ⟨hidentity, hcontent, -⟩
      rw [← hidentity] at hfind
      rw [← hcontent] at hhash
      refine upsertEvents_cons_eq_ok.2
        ⟨rfl, row, table, .suppressed, hrow, by simp [upsertRow_of_findRow hfind, hhash], ?_⟩
      have hcount := ih (pass + 1) (outcome.count .suppressed) hrest
      simpa [UpsertOutcome.count, Nat.add_assoc, Nat.add_comm, Nat.add_left_comm] using hcount

/-- A loop that counts nothing but duplicates has met every event's content. -/
theorem carried_of_duplicates {env : UpsertEnv} :
    ∀ {events : List CostEvent} {pass : Nat} {table table' : List CostRow}
      {outcome outcome' : UpsertOutcome},
      upsertEvents env events pass table outcome = .ok (table', outcome') →
      outcome'.inserted = outcome.inserted → outcome'.restated = outcome.restated →
      ∀ event ∈ events, Carried table event.identity event.sourceRef.contentHash := by
  intro events
  induction events with
  | nil => simp
  | cons event rest ih =>
      intro pass table table' outcome outcome' hloop hinserted hrestated
      rcases upsertEvents_cons_eq_ok.1 hloop with ⟨-, row, table₁, step, hrow, hupsert, hrest⟩
      rcases identity_of_encodeEvent hrow with ⟨hidentity, hcontent, -⟩
      rcases count_of_upsertEvents hrest with ⟨hle, hle', -⟩
      rcases upsertRow_cases hupsert with ⟨existing, hfind, hhash, rfl, rfl⟩ |
        ⟨-, -, -, -, rfl⟩ | ⟨-, -, -, rfl⟩
      · refine List.forall_mem_cons.2 ⟨⟨existing, ?_, ?_⟩, ih hrest hinserted hrestated⟩
        · rw [← hidentity, hfind]
        · rw [hhash, hcontent]
      -- Counters never go down, so that one insert or restatement is enough to be seen.
      · simp only [UpsertOutcome.count] at hle'
        omega
      · simp only [UpsertOutcome.count] at hle
        omega

/-! ## A call -/

theorem brings_of_oneContent {events : List CostEvent} (h : OneContent events) :
    ∀ event ∈ events, Brings events event.identity event.sourceRef.contentHash := by
  intro event hevent other hother hsame
  simp only [CostEvent.identity, Prod.mk.injEq] at hsame
  exact h other hother event hevent (ProviderKind.asStr_injective hsame.2.1) hsame.2.2

/-- A batch delivered again is a no-op exactly if it brings one content under one key. -/
theorem redelivery_noop_iff {table : List CostRow} {events : List CostEvent} {env : UpsertEnv}
    {outcome : UpsertOutcome} (h : (upsert table events env).2 = .ok outcome) :
    NoOp (upsert table events env).1 events ↔ OneContent events := by
  rcases upsert_cases table events env with ⟨table', outcome', hcall, hone, hloop⟩ | ⟨e, hcall⟩
  · rw [hcall, NoOp, upsert_of_oneTenant hone]
    constructor
    · intro hagain event hevent other hother hprovider hexternal
      cases hsecond : upsertEvents UpsertEnv.ok events 0 table' UpsertOutcome.default with
      | error e => simp [hsecond] at hagain
      | ok pair =>
          rcases pair with ⟨table'', outcome''⟩
          have hpair : table'' = table' ∧
              outcome'' = { inserted := 0, restated := 0, duplicate := events.length } := by
            simpa [hsecond] using hagain
          have hcarried := carried_of_duplicates hsecond (by rw [hpair.2]; rfl)
            (by rw [hpair.2]; rfl)
          -- One row is found for both, and its hash is that of either.
          rcases hcarried event hevent with ⟨existing, hfind, hhash⟩
          rcases hcarried other hother with ⟨existing', hfind', hhash'⟩
          have hidentity : event.identity = other.identity := by
            simp only [CostEvent.identity, hone event hevent other hother, hprovider, hexternal]
          rw [hidentity, hfind', Option.some.injEq] at hfind
          rw [← hhash, ← hhash', hfind]
    · intro hcontent
      -- The second run meets the rows of the first, whose hashes nothing has changed.
      have hcarried := carried_of_upsertEvents (brings_of_oneContent hcontent) hloop
      rw [upsertEvents_of_carried 0 UpsertOutcome.default hcarried]
      simp [UpsertOutcome.default]
  · rw [hcall] at h
    cases h

/-! ## An export and its restatement -/

/-- One invoice line as two exports give it: the same key, an amount and the content's hash. -/
def invoiceLine (id : CostEventId) (amount : ℚ) (contentHash : String) : CostEvent where
  id := id
  billingAccountId := "111122223333"
  chargePeriodStart := ⟨1785542400000000000⟩
  chargePeriodEnd := ⟨1785546000000000000⟩
  billedCost := ⟨amount, .usd⟩
  effectiveCost := ⟨amount, .usd⟩
  listCost := ⟨amount, .usd⟩
  serviceName := "Amazon EC2"
  serviceCategory := .compute
  chargeCategory := .usage
  resourceId := some "i-1"
  regionId := some "us-east-1"
  tags := .object []
  dims := Dimensions.new ⟨1⟩ ⟨2⟩ ⟨3⟩ ⟨4⟩ .rnD
  sourceRef :=
    { provider := .aws
      externalId := "cda782f3"
      exportRef := "2026-08.csv"
      billingPeriod := "2026-08"
      contentHash := contentHash
      ingestedAt := ⟨1785600000000000000⟩ }

/-- A poll that reads the original export and its restatement. -/
def originalAndRestatement : List CostEvent :=
  [invoiceLine ⟨1⟩ 10 "cf088dab", invoiceLine ⟨2⟩ 12 "26637d5a"]

theorem not_noop_originalAndRestatement :
    (upsert [] originalAndRestatement UpsertEnv.ok).2 =
        .ok { inserted := 1, restated := 1, duplicate := 0 } ∧
      (upsert (upsert [] originalAndRestatement UpsertEnv.ok).1 originalAndRestatement
        UpsertEnv.ok).2 = .ok { inserted := 0, restated := 2, duplicate := 0 } ∧
      ¬NoOp (upsert [] originalAndRestatement UpsertEnv.ok).1 originalAndRestatement := by
  have hagain : (upsert (upsert [] originalAndRestatement UpsertEnv.ok).1 originalAndRestatement
      UpsertEnv.ok).2 = .ok { inserted := 0, restated := 2, duplicate := 0 } := by decide +kernel
  refine ⟨by decide +kernel, hagain, ?_⟩
  intro hnoop
  rw [hnoop] at hagain
  exact absurd hagain (by decide)

theorem noop_originalTwice :
    NoOp (upsert [] [invoiceLine ⟨1⟩ 10 "cf088dab", invoiceLine ⟨2⟩ 10 "cf088dab"] .ok).1
      [invoiceLine ⟨1⟩ 10 "cf088dab", invoiceLine ⟨2⟩ 10 "cf088dab"] := by
  have hfirst : (upsert [] [invoiceLine ⟨1⟩ 10 "cf088dab", invoiceLine ⟨2⟩ 10 "cf088dab"] .ok).2 =
      .ok { inserted := 1, restated := 0, duplicate := 1 } := by decide +kernel
  exact (redelivery_noop_iff hfirst).2 (by decide +kernel)

end Falkr
