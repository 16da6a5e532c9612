import Falkr.Core.Arithmetic
import Falkr.Infra.CostHistory
import Falkr.Infra.LedgerStore
import Mathlib.Data.List.Perm.Lattice

/-!
# CostCoverage — how much of the cost is attributed to a run

Coverage is counted over the stored rows, so over the identities that were delivered and not over
the deliveries.  The share is a decimal quotient, rounded at the last digit it can hold; two counts
of 64 bits cannot be so close to four fifths that this decides on which side of the gate they are
(`coverage_after`).
-/

namespace Falkr

open Lib Decimal

/-! ## The share and the gate -/

/-- Attribution coverage over a window. -/
structure Coverage where
  totalEvents : Int64
  runAttributed : Int64
  deriving DecidableEq

theorem natAbs_toInt_lt (n : Int64) : n.toInt.natAbs < mantissaBound := by
  have hle := n.le_toInt
  have hlt := n.toInt_lt
  have hbound : (2 : ℤ) ^ 63 < mantissaBound := by decide
  omega

/-- `Decimal::from` an `i64`. -/
def Decimal.ofInt64 (n : Int64) : Decimal :=
  ofInt n.toInt (natAbs_toInt_lt n)

/-- The `<` operator compares values. -/
def Decimal.lt (a b : Decimal) : Bool :=
  a.mantissa * 10 ^ b.scale < b.mantissa * 10 ^ a.scale

theorem natAbs_eight_lt : (8 : ℤ).natAbs < mantissaBound := by
  decide

theorem one_le_maxScale : 1 ≤ maxScale := by
  decide

/-- `Decimal::new(8, 1)`. -/
def Decimal.eightTenths : Decimal where
  mantissa := 8
  scale := 1
  mantissa_lt := natAbs_eight_lt
  scale_le := one_le_maxScale

namespace Coverage

/-- Share of events carrying a `run_id`; `none` is a panic.  An empty window reports full
coverage. -/
def fraction (self : Coverage) : Option Decimal :=
  if self.totalEvents = 0 then some Decimal.one
  else Decimal.div (ofInt64 self.runAttributed) (ofInt64 self.totalEvents)

/-- Whether coverage has fallen below the threshold that makes the telemetry path mandatory. -/
def belowBuildGate (self : Coverage) : Option Bool :=
  self.fraction.map fun fraction => fraction.lt eightTenths

end Coverage

/-! ## The query -/

/-- The rows of a tenant that were ingested at some time or later. -/
def ingestedSince (tenantId : TenantId) (since : DateTimeUtc) (table : List CostRow) :
    List CostRow :=
  table.filter fun row => row.dims.tenantId = tenantId ∧ toMicros since ≤ row.sourceIngestedAt

/-- The rows that carry a run. -/
def runAttributed (table : List CostRow) : List CostRow :=
  table.filter fun row => row.dims.runId.isSome

/-- `COUNT(*)`, a `BIGINT`. -/
def countRows (rows : List CostRow) : Except StoreError Int64 :=
  if rows.length < 2 ^ 63 then .ok (Int64.ofNat rows.length)
  else .error (.backend "bigint out of range")

/-- `attribution_coverage`, under the tenant's row-level security. -/
def attributionCoverage (table : List CostRow) (tenantId : TenantId) (since : DateTimeUtc)
    (env : ReadEnv) : Except StoreError Coverage :=
  match env.beginError with
  | some e => .error (.backend e)
  | none =>
      match env.selectError with
      | some e => .error (.backend e)
      | none => do
          let rows := ingestedSince tenantId since table
          let totalEvents ← countRows rows
          let attributed ← countRows (runAttributed rows)
          match env.commitError with
          | some e => .error (.backend e)
          | none => .ok { totalEvents := totalEvents, runAttributed := attributed }

/-! ## Comparing and dividing counts -/

namespace Decimal

theorem lt_iff (a b : Decimal) : a.lt b = true ↔ a.toRat < b.toRat := by
  have ha := pow_scale_pos a
  have hb := pow_scale_pos b
  simp only [lt, decide_eq_true_eq, toRat, div_lt_div_iff₀ ha hb]
  norm_cast

@[simp] theorem toRat_ofInt64 (n : Int64) : (ofInt64 n).toRat = n.toInt := by
  simp [ofInt64, ofInt, toRat]

@[simp] theorem toRat_one : one.toRat = 1 := by
  simp [one, ofInt, toRat]

theorem toRat_eightTenths : eightTenths.toRat = 4 / 5 := by
  norm_num [eightTenths, toRat]

end Decimal

namespace Coverage

/-- The share as a rational number. -/
def share (self : Coverage) : ℚ :=
  self.runAttributed.toInt / self.totalEvents.toInt

variable {coverage : Coverage}

theorem share_mem_unit (hle : coverage.runAttributed.toInt ≤ coverage.totalEvents.toInt)
    (hnonneg : 0 ≤ coverage.runAttributed.toInt) : 0 ≤ coverage.share ∧ coverage.share ≤ 1 := by
  have hrun : (0 : ℚ) ≤ coverage.runAttributed.toInt := by exact_mod_cast hnonneg
  have hrat : (coverage.runAttributed.toInt : ℚ) ≤ coverage.totalEvents.toInt := by
    exact_mod_cast hle
  exact ⟨div_nonneg hrun (hrun.trans hrat), div_le_one_of_le₀ hrat (hrun.trans hrat)⟩

/-- The division does not panic, and rounds the share. -/
theorem exists_fraction (hzero : coverage.totalEvents ≠ 0)
    (hunit : 0 ≤ coverage.share ∧ coverage.share ≤ 1) :
    ∃ fraction, coverage.fraction = some fraction ∧ Rounds coverage.share fraction := by
  have htotal : (ofInt64 coverage.totalEvents).toRat ≠ 0 := by
    rw [toRat_ofInt64]
    have hint : coverage.totalEvents.toInt ≠ 0 := fun h => hzero (Int64.toInt_inj.1 h)
    exact_mod_cast hint
  -- Converting a count is exact; only the division rounds.
  have hshare : (ofInt64 coverage.runAttributed).toRat / (ofInt64 coverage.totalEvents).toRat =
      coverage.share := by
    rw [toRat_ofInt64, toRat_ofInt64, share]
  have hfits : Fits coverage.share := by
    have hone : Fits (1 : ℚ) := by decide +kernel
    unfold Fits at hone ⊢
    rw [abs_of_nonneg hunit.1]
    rw [abs_one] at hone
    linarith [hunit.2]
  rcases Option.isSome_iff_exists.1 ((div_isSome_iff _ htotal).2 (hshare ▸ hfits)) with
    ⟨fraction, hfraction⟩
  refine ⟨fraction, ?_, hshare ▸ rounds_div htotal hfraction⟩
  rw [Coverage.fraction, if_neg hzero, hfraction]

/-- A share below four fifths is below by more than rounding makes up for. -/
theorem gap_of_lt (hpos : 0 < coverage.totalEvents.toInt)
    (hlt : 5 * coverage.runAttributed.toInt < 4 * coverage.totalEvents.toInt) :
    1 / (5 * 2 ^ 63) ≤ 4 / 5 - coverage.share := by
  have hrat : (0 : ℚ) < coverage.totalEvents.toInt := by exact_mod_cast hpos
  have hbound : (coverage.totalEvents.toInt : ℚ) ≤ 2 ^ 63 := by
    exact_mod_cast coverage.totalEvents.toInt_lt.le
  -- The counts are whole, so what they are apart by is at least one.
  have hone : (1 : ℚ) ≤ 4 * coverage.totalEvents.toInt - 5 * coverage.runAttributed.toInt := by
    have hint : (1 : ℤ) ≤ 4 * coverage.totalEvents.toInt - 5 * coverage.runAttributed.toInt := by
      omega
    exact_mod_cast hint
  have hgap : 4 / 5 - coverage.share =
      (4 * coverage.totalEvents.toInt - 5 * coverage.runAttributed.toInt) /
        (5 * coverage.totalEvents.toInt) := by
    rw [share]
    field_simp
  rw [hgap]
  calc
    (1 : ℚ) / (5 * 2 ^ 63) ≤ 1 / (5 * coverage.totalEvents.toInt) := by
      apply one_div_le_one_div_of_le <;> linarith
    _ ≤ (4 * coverage.totalEvents.toInt - 5 * coverage.runAttributed.toInt) /
        (5 * coverage.totalEvents.toInt) := by
      apply div_le_div_of_nonneg_right hone
      linarith

/-- Rounding never moves a share across the gate. -/
theorem lt_eightTenths_iff (hpos : 0 < coverage.totalEvents.toInt)
    (hunit : 0 ≤ coverage.share ∧ coverage.share ≤ 1) {fraction : Decimal}
    (h : Rounds coverage.share fraction) :
    fraction.toRat < 4 / 5 ↔
      5 * coverage.runAttributed.toInt < 4 * coverage.totalEvents.toInt := by
  have hrat : (0 : ℚ) < coverage.totalEvents.toInt := by exact_mod_cast hpos
  constructor
  · intro hlt
    by_contra hge
    have hshare : (4 : ℚ) / 5 ≤ coverage.share := by
      have hcast : (4 : ℚ) * coverage.totalEvents.toInt ≤ 5 * coverage.runAttributed.toInt := by
        exact_mod_cast not_lt.1 hge
      rw [share, div_le_div_iff₀ (by norm_num) hrat]
      linarith
    -- Four fifths is a number itself, so no share above it is rounded below it.
    have hkept := h.ge eightTenths (by rw [toRat_eightTenths]; exact hshare)
    rw [toRat_eightTenths] at hkept
    linarith
  · intro hlt
    have hgap := gap_of_lt hpos hlt
    have hclose := (abs_le.1 h.close).2
    rw [abs_of_nonneg hunit.1] at hclose
    -- No rounding of a share is as large as the gap.
    have hsmall : coverage.share * roundoff + halfDigit < 1 / (5 * 2 ^ 63) := by
      have hle : coverage.share * roundoff ≤ 1 * roundoff :=
        mul_le_mul_of_nonneg_right hunit.2 (by norm_num [roundoff])
      have hnumbers : 1 * roundoff + halfDigit < 1 / (5 * 2 ^ 63) := by
        norm_num [roundoff, halfDigit, maxScale]
      linarith
    linarith

end Coverage

/-- The share is shown within the unit interval, and the gate is decided as by the exact counts. -/
theorem Coverage.gate (coverage : Coverage) (hnonneg : 0 ≤ coverage.runAttributed.toInt)
    (hle : coverage.runAttributed.toInt ≤ coverage.totalEvents.toInt) :
    ∃ fraction, coverage.fraction = some fraction ∧ 0 ≤ fraction.toRat ∧ fraction.toRat ≤ 1 ∧
      coverage.belowBuildGate =
        some (decide (5 * coverage.runAttributed.toInt < 4 * coverage.totalEvents.toInt)) := by
  by_cases hzero : coverage.totalEvents = 0
  · refine ⟨Decimal.one, by rw [fraction, if_pos hzero], by simp, by simp, ?_⟩
    have htotal : coverage.totalEvents.toInt = 0 := by
      rw [hzero]
      rfl
    have hgate : ¬5 * coverage.runAttributed.toInt < 4 * coverage.totalEvents.toInt := by omega
    rw [belowBuildGate, fraction, if_pos hzero, Option.map_some, decide_eq_false hgate]
    decide
  · have hunit := share_mem_unit hle hnonneg
    rcases exists_fraction hzero hunit with ⟨fraction, hfraction, hrounds⟩
    have hpos : 0 < coverage.totalEvents.toInt := by
      have hint : coverage.totalEvents.toInt ≠ 0 := fun h => hzero (Int64.toInt_inj.1 h)
      omega
    refine ⟨fraction, hfraction, hrounds.nonneg hunit.1, ?_, ?_⟩
    · have hone := hrounds.le Decimal.one (by rw [toRat_one]; exact hunit.2)
      rwa [toRat_one] at hone
    · rw [belowBuildGate, hfraction, Option.map_some]
      congr 1
      rw [Bool.eq_iff_iff, Decimal.lt_iff, toRat_eightTenths, lt_eightTenths_iff hpos hunit hrounds,
        decide_eq_true_eq]

/-! ## Coverage of a history -/

theorem countRows_eq_ok {rows : List CostRow} {n : Int64} (h : countRows rows = .ok n) :
    n.toInt = rows.length := by
  unfold countRows at h
  split_ifs at h with hlt
  cases h
  exact Int64.toInt_ofNat_of_lt hlt

theorem attributionCoverage_eq_ok {table : List CostRow} {tenantId : TenantId}
    {since : DateTimeUtc} {env : ReadEnv} {coverage : Coverage}
    (h : attributionCoverage table tenantId since env = .ok coverage) :
    coverage.totalEvents.toInt = (ingestedSince tenantId since table).length ∧
      coverage.runAttributed.toInt =
        (runAttributed (ingestedSince tenantId since table)).length := by
  unfold attributionCoverage at h
  cases hbegin : env.beginError with
  | some e => simp [hbegin] at h
  | none =>
      cases hselect : env.selectError with
      | some e => simp [hbegin, hselect] at h
      | none =>
          simp only [hbegin, hselect] at h
          -- The counts of a statement that failed are not returned, nor those of a failed commit.
          rcases bind_eq_ok h with ⟨total, htotal, h⟩
          rcases bind_eq_ok h with ⟨attributed, hattributed, h⟩
          cases hcommit : env.commitError with
          | some e => simp [hcommit] at h
          | none =>
              simp only [hcommit] at h
              cases h
              exact ⟨countRows_eq_ok htotal, countRows_eq_ok hattributed⟩

/-- Whatever was delivered and redelivered, coverage counts each identity once, by the delivery that
its row stands for; the gate is decided by the exact counts. -/
theorem coverage_after (calls : List CostCall) (tenantId : TenantId) (since : DateTimeUtc)
    (env : ReadEnv) {coverage : Coverage}
    (h : attributionCoverage (CostHistory.after calls).table tenantId since env = .ok coverage) :
    let rows := ingestedSince tenantId since (settledRows (CostHistory.after calls).delivered)
    coverage.totalEvents.toInt = rows.length ∧
      coverage.runAttributed.toInt = (runAttributed rows).length ∧
      ∃ fraction, coverage.fraction = some fraction ∧ 0 ≤ fraction.toRat ∧ fraction.toRat ≤ 1 ∧
        coverage.belowBuildGate =
          some (decide (5 * (runAttributed rows).length < 4 * rows.length)) := by
  intro rows
  -- Counting does not depend on the order of the rows.
  have hperm := (CostHistory.accounted_after calls).registered.perm
  have hrows : (ingestedSince tenantId since (CostHistory.after calls).table).Perm rows :=
    hperm.filter _
  rcases attributionCoverage_eq_ok h with ⟨htotal, hattributed⟩
  have hruns : (runAttributed (ingestedSince tenantId since
      (CostHistory.after calls).table)).length = (runAttributed rows).length :=
    (hrows.filter _).length_eq
  rw [hrows.length_eq] at htotal
  rw [hruns] at hattributed
  have hle : (runAttributed rows).length ≤ rows.length := List.length_filter_le _ _
  rcases Coverage.gate coverage (by omega) (by omega) with
    ⟨fraction, hfraction, hlow, hhigh, hgate⟩
  refine ⟨htotal, hattributed, fraction, hfraction, hlow, hhigh, ?_⟩
  rw [hgate, htotal, hattributed]
  norm_cast

/-! ## A line that is tagged late -/

/-- One line of an export, before and after its run is known. -/
def lateLine (id : CostEventId) (runId : Option RunId) (contentHash : String) : CostEvent where
  id := id
  billingAccountId := "111122223333"
  chargePeriodStart := ⟨0⟩
  chargePeriodEnd := ⟨3600000000000⟩
  billedCost := { amount := 10, currency := .usd }
  effectiveCost := { amount := 10, currency := .usd }
  listCost := { amount := 10, currency := .usd }
  serviceName := "Amazon EC2"
  serviceCategory := .compute
  chargeCategory := .usage
  resourceId := none
  regionId := none
  tags := .object []
  dims := { Dimensions.new ⟨1⟩ ⟨2⟩ ⟨3⟩ ⟨4⟩ .rnD with runId := runId }
  sourceRef :=
    { provider := .aws
      externalId := "line"
      exportRef := "focus"
      billingPeriod := "2026-08"
      contentHash := contentHash
      ingestedAt := ⟨7200000000000⟩ }

/-- The second delivery restates the line, and the third repeats it. -/
def lateCalls : List CostCall :=
  [⟨[lateLine ⟨10⟩ none "untagged"], .ok⟩, ⟨[lateLine ⟨11⟩ (some ⟨9⟩) "tagged"], .ok⟩,
    ⟨[lateLine ⟨12⟩ (some ⟨9⟩) "tagged"], .ok⟩]

theorem coverage_after_late :
    let rows := ingestedSince ⟨1⟩ ⟨0⟩ (settledRows (CostHistory.after lateCalls).delivered)
    (1 : Int64).toInt = rows.length ∧ (1 : Int64).toInt = (runAttributed rows).length ∧
      ∃ fraction, Coverage.fraction ⟨1, 1⟩ = some fraction ∧ 0 ≤ fraction.toRat ∧
        fraction.toRat ≤ 1 ∧
        Coverage.belowBuildGate ⟨1, 1⟩ =
          some (decide (5 * (runAttributed rows).length < 4 * rows.length)) := by
  have hread : attributionCoverage (CostHistory.after lateCalls).table ⟨1⟩ ⟨0⟩ .ok =
      .ok ⟨1, 1⟩ := by
    decide +kernel
  exact coverage_after lateCalls ⟨1⟩ ⟨0⟩ .ok hread

end Falkr
