import Falkr.Infra.RunRedelivery

/-!
# RunCapitalization — what deliveries do to a policy decision

The connector fills `capitalization_status` with `PENDING_REVIEW`, and a conflicting upsert writes
that column as well.  So the status that a run was given by a policy outlives the deliveries of its
records only if none of them reaches the table (`capitalization_kept_iff`).
-/

namespace Falkr

open Lib

def capitalizationOf (identity : TenantId × String × String) (store : GraphStore) :
    Option String :=
  (findIdentity identity store.runs).map StoredRun.capitalizationStatus

/-- The delivery's statements do not fail, and its record is one that the table admits. -/
def Delivery.Lands (parse : String → Option DateTimeUtc) (self : Delivery) : Prop :=
  self.env.Quiet ∧ ∃ run row, self.run parse = some run ∧ encodeRun run = .ok row

variable {parse : String → Option DateTimeUtc}

theorem capitalizationStatus_of_normalize {connector : WandbConnector} {runId : RunId}
    {raw : RawRunRecord} {run : Run} (h : connector.normalize parse runId raw = .ok run) :
    run.capitalizationStatus = .pendingReview := by
  rcases WandbConnector.exists_fields_of_normalize h with
    ⟨status, createdAt, startedAt, heartbeat, endedAt, ref, -, -, -, -, -, -, rfl⟩
  rfl

theorem capitalizationStatus_of_progress {row row' : StoredRun} (h : row.progress = row'.progress) :
    row.capitalizationStatus = row'.capitalizationStatus := by
  simp only [StoredRun.progress, Prod.mk.injEq] at h
  exact h.2.2.2.2

/-! ## One delivery -/

variable {identity : TenantId × String × String} {store : GraphStore} {status : String}
  {delivery : Delivery}

theorem capitalizationOf_of_lands (hstored : capitalizationOf identity store = some status)
    (hone : (delivery.run parse).map Run.identity = some identity) (h : delivery.Lands parse) :
    capitalizationOf identity (deliver parse store delivery) =
      some CapitalizationStatus.pendingReview.asStr := by
  rcases h with ⟨henv, run, row, hrun, hrow⟩
  have hidentity : run.identity = identity := by simpa [hrun] using hone
  rcases Option.map_eq_some_iff.1 hstored with ⟨existing, hexisting, -⟩
  rw [← hidentity] at hexisting
  rcases exists_stored_of_quiet hrow henv hexisting with ⟨stored, cost, hafter, hprogress⟩
  have hpending := capitalizationStatus_of_normalize (run_eq_some.1 hrun)
  have hdeliver : deliver parse store delivery = (upsertRun store run delivery.env).1 := by
    simp [deliver, hrun]
  rw [hdeliver, ← hidentity]
  refine Option.map_eq_some_iff.2 ⟨stored, hafter, ?_⟩
  -- Updated or up to date already, the row has the progress of the record, status included.
  rw [capitalizationStatus_of_progress hprogress, Run.row, hpending]

/-- A delivery that fails changes nothing. -/
theorem deliver_of_not_lands (h : ¬delivery.Lands parse) :
    deliver parse store delivery = store := by
  cases hrun : delivery.run parse with
  | none => simp [deliver, hrun]
  | some run =>
      rcases upsertRun_cases store run delivery.env with ⟨e, -, hcall⟩ | ⟨store', outcome, htx, -⟩
      · simp [deliver, hrun, hcall]
      · rcases upsertRunTx_eq_ok.1 htx with ⟨henv, row, -, -, hrow, -⟩
        exact absurd ⟨henv, run, row, hrun, hrow⟩ h

/-! ## Every sequence -/

/-- The status that was stored is kept until a delivery lands, and is `PENDING_REVIEW` from then
on. -/
theorem capitalizationOf_deliverAll :
    ∀ (deliveries : List Delivery) {store : GraphStore} {status : String},
      capitalizationOf identity store = some status → OneRun parse identity deliveries →
      ((∀ delivery ∈ deliveries, ¬delivery.Lands parse) ∧
          deliverAll parse store deliveries = store) ∨
        ((∃ delivery ∈ deliveries, delivery.Lands parse) ∧
          capitalizationOf identity (deliverAll parse store deliveries) =
            some CapitalizationStatus.pendingReview.asStr)
  | [], store, status, hstored, _ => Or.inl ⟨by simp, rfl⟩
  | first :: rest, store, status, hstored, hone => by
      have hfirst := hone first List.mem_cons_self
      have hrest : OneRun parse identity rest := fun d hd => hone d (List.mem_cons_of_mem _ hd)
      have hcons : deliverAll parse store (first :: rest) =
          deliverAll parse (deliver parse store first) rest := rfl
      by_cases hlands : first.Lands parse
      · -- What comes after `first` starts from a run under review.
        have hpending := capitalizationOf_of_lands hstored hfirst hlands
        refine Or.inr ⟨⟨first, List.mem_cons_self, hlands⟩, ?_⟩
        rcases capitalizationOf_deliverAll rest hpending hrest with ⟨-, hsame⟩ | ⟨-, hlast⟩
        · rw [hcons, hsame, hpending]
        · rw [hcons, hlast]
      · have hsame : deliver parse store first = store := deliver_of_not_lands hlands
        rw [hcons, hsame]
        rcases capitalizationOf_deliverAll rest hstored hrest with ⟨hnone, hkept⟩ | ⟨hsome, hlast⟩
        · exact Or.inl ⟨List.forall_mem_cons.2 ⟨hlands, hnone⟩, hkept⟩
        · exact Or.inr ⟨List.exists_mem_cons_of_exists hsome, hlast⟩

/-- Deliveries keep the capitalization status of a run exactly if it is under review or none of
them lands. -/
theorem capitalization_kept_iff {stored : StoredRun}
    (hstored : findIdentity identity store.runs = some stored) {deliveries : List Delivery}
    (hone : OneRun parse identity deliveries) :
    capitalizationOf identity (deliverAll parse store deliveries) =
        some stored.capitalizationStatus ↔
      stored.capitalizationStatus = CapitalizationStatus.pendingReview.asStr ∨
        ∀ delivery ∈ deliveries, ¬delivery.Lands parse := by
  have hbefore : capitalizationOf identity store = some stored.capitalizationStatus := by
    rw [capitalizationOf, hstored, Option.map_some]
  rcases capitalizationOf_deliverAll deliveries hbefore hone with ⟨hnone, hsame⟩ | ⟨hsome, hafter⟩
  · rw [hsame, hbefore]
    exact ⟨fun _ => Or.inr hnone, fun _ => rfl⟩
  · rw [hafter]
    constructor
    · intro heq
      exact Or.inl (Option.some.inj heq).symm
    · rintro (hpending | hnone)
      · rw [hpending]
      · rcases hsome with ⟨delivery, hmem, hlands⟩
        exact absurd hlands (hnone delivery hmem)

/-! ## A capitalized run -/

/-- A finished run whose cost was capitalized. -/
def capitalizedRun : StoredRun where
  id := ⟨10⟩
  tenantId := ⟨1⟩
  attributedCost := 0
  attributedCostCurrency := "USD"
  experimentId := ⟨2⟩
  externalSource := "wandb"
  externalId := "acme-ai/llm-pretrain/abc123"
  status := "finished"
  startedAt := 838857600000000
  endedAt := some 838881000000000
  functionCode := FunctionCode.rnD.asStr
  capitalizationStatus := CapitalizationStatus.capitalized.asStr

def capitalizedStore : GraphStore :=
  { oneExperiment with runs := [capitalizedRun] }

theorem capitalization_kept_iff_finished :
    capitalizationOf wandbIdentity (deliverAll wandbTimes capitalizedStore
        [wandbDelivery "finished" ⟨11⟩]) = some capitalizedRun.capitalizationStatus ↔
      capitalizedRun.capitalizationStatus = CapitalizationStatus.pendingReview.asStr ∨
        ∀ delivery ∈ [wandbDelivery "finished" ⟨11⟩], ¬delivery.Lands wandbTimes :=
  capitalization_kept_iff (by decide +kernel) (by decide +kernel)

/-- The next poll puts the run under review again. -/
theorem capitalization_not_kept :
    findIdentity wandbIdentity capitalizedStore.runs = some capitalizedRun ∧
      OneRun wandbTimes wandbIdentity [wandbDelivery "finished" ⟨11⟩] ∧
      capitalizationOf wandbIdentity (deliverAll wandbTimes capitalizedStore
        [wandbDelivery "finished" ⟨11⟩]) ≠ some capitalizedRun.capitalizationStatus := by
  decide +kernel

end Falkr
