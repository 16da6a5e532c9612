import Falkr.Core.WholeUnits
import Falkr.Events.Overflow
import Falkr.Testkit.GeneratedBalance

/-!
# GroundTruth — the aggregate against an independent accumulator

`GeneratedLedger::ground_truth` adds up the lines of a generated ledger without commands, events or
a projection, and the test suite compares it with the balances that the aggregate keeps.  They agree
for every seed, and no posting is refused or overflows, as long as all the lines together stay
within a mantissa (`posted_generated`).
-/

namespace Falkr

open Lib Decimal

/-! ## The accumulator -/

/-- The passes of the loops in `ground_truth`. -/
def accumulate (balances : SortedMap AccountId Decimal) (line : JournalLine Decimal) :
    SortedMap AccountId Decimal :=
  let moved (delta : Decimal) :=
    let slot := (balances.get? line.account).getD Amount.zero
    -- An addition that overflows leaves the slot as it is.
    balances.insert line.account ((Decimal.add slot delta).getD slot)
  match line.debit, line.credit with
  | some d, none => moved d.amount
  | none, some c => moved (Decimal.neg c.amount)
  | _, _ => balances

def GeneratedLedger.groundTruth (self : GeneratedLedger) : SortedMap AccountId Decimal :=
  self.entries.foldl (fun balances entry => entry.lines.foldl accumulate balances) .empty

/-! ## The aggregate -/

/-- Posts entries through the aggregate: the log and the state, or the first refusal. -/
def postAll (state : LedgerState Decimal) (events : List (LedgerEvent Decimal)) :
    List (Request Decimal) →
      Option (Except (LedgerError Decimal) (List (LedgerEvent Decimal) × LedgerState Decimal))
  | [] => some (.ok (events, state))
  | request :: rest => do
      match ← handleCommand state request.command request.newId request.now with
      | .error e => some (.error e)
      | .ok produced => do
          let state ← replay state produced
          postAll state (events ++ produced) rest

/-- `LedgerState::accounts`, with the amounts of the balances. -/
def LedgerState.amounts (self : LedgerState Decimal) : SortedMap AccountId Decimal :=
  SortedMap.ofList (self.balances.entries.map fun e => (e.1, e.2.amount))

/-- The single-scope form of the trial balance check. -/
def assertBalancesNetToZero (amounts : SortedMap String Decimal) :
    Except InvariantViolation Unit := do
  let total ← checkedSum .trialBalanceZero amounts.values Amount.zero
  if Amount.eq total (Amount.zero : Decimal) then .ok ()
  else .error {
    invariant := .trialBalanceZero
    detail := "trial balance is out by " ++ Decimal.display total }

/-- The balances under the texts of their accounts. -/
def byText (balances : SortedMap AccountId Decimal) : SortedMap String Decimal :=
  SortedMap.ofList (balances.entries.map fun e => (e.1.asUuid.hyphenated, e.2))

/-! ## One line -/

section Lines

variable {c : Currency}

theorem accumulate_of_signedAmount {balances : SortedMap AccountId Decimal}
    {line : JournalLine Decimal} {q : Decimal} (hline : line.signedAmount = some ⟨q, c⟩) :
    accumulate balances line =
      balances.insert line.account
        ((add ((balances.get? line.account).getD Amount.zero) q).getD
          ((balances.get? line.account).getD Amount.zero)) := by
  rcases line with ⟨account, debit, credit, sources⟩
  cases debit with
  | some d =>
      cases credit with
      | some k => cases hline
      | none =>
          cases hline
          rfl
  | none =>
      cases credit with
      | some k =>
          cases hline
          rfl
      | none => cases hline

/-- A one-sided line passes the check of the command handler. -/
theorem validate_of_signedIn {line : JournalLine Decimal} {q : Decimal}
    (hline : line.signedAmount = some ⟨q, c⟩) :
    ∃ amount, line.validate = .ok amount ∧ amount.currency = c ∧
      q = if line.debit.isSome then amount.amount else neg amount.amount := by
  rcases line with ⟨account, debit, credit, sources⟩
  cases debit with
  | some d =>
      cases credit with
      | some k => cases hline
      | none =>
          cases hline
          exact ⟨⟨q, c⟩, rfl, rfl, rfl⟩
  | none =>
      cases credit with
      | some k =>
          cases hline
          exact ⟨k, rfl, rfl, rfl⟩
      | none => cases hline

theorem signedAmounts_cons {line : JournalLine Decimal} {q : Decimal}
    (hline : line.signedAmount = some ⟨q, c⟩) (rest : List (JournalLine Decimal)) :
    signedAmounts (line :: rest) = q :: signedAmounts rest := by
  simp [signedAmounts, hline]

end Lines

/-! ## One command -/

/-- Lines of one currency in whole units of a scale. -/
structure WholeLines (c : Currency) (scale : Nat) (lines : List (JournalLine Decimal)) : Prop where
  signedIn : ∀ line ∈ lines, SignedIn c line
  whole : ∀ a ∈ signedAmounts lines, Whole scale a.toRat

section Commands

variable {c : Currency} {scale : Nat} (hscale : scale ≤ maxScale)

theorem WholeLines.cons {line : JournalLine Decimal} {rest : List (JournalLine Decimal)}
    (h : WholeLines c scale (line :: rest)) :
    ∃ q, line.signedAmount = some ⟨q, c⟩ ∧ Whole scale q.toRat ∧ WholeLines c scale rest := by
  rcases List.forall_mem_cons.1 h.signedIn with ⟨⟨q, hq⟩, hrest⟩
  have hwhole := h.whole
  rw [signedAmounts_cons hq] at hwhole
  rcases List.forall_mem_cons.1 hwhole with ⟨hfirst, hlater⟩
  exact ⟨q, hq, hfirst, hrest, hlater⟩

include hscale

/-- The two subtotals are exact. -/
theorem subtotals_of_whole : ∀ {lines : List (JournalLine Decimal)}, WholeLines c scale lines →
    ∀ debits credits : Decimal, Whole scale debits.toRat → Whole scale credits.toRat →
      |debits.toRat| + |credits.toRat| + volume (signedAmounts lines) < capacity scale →
      ∃ debits' credits', subtotals lines ⟨debits, c⟩ ⟨credits, c⟩ =
          some (.ok (⟨debits', c⟩, ⟨credits', c⟩)) ∧
        debits'.toRat - credits'.toRat =
          debits.toRat - credits.toRat + ((signedAmounts lines).map toRat).sum
  | [], _, debits, credits, _, _, _ => ⟨debits, credits, rfl, by simp [signedAmounts]⟩
  | line :: rest, h, debits, credits, hdebits, hcredits, hroom => by
      rcases h.cons with ⟨q, hq, hwhole, hrest⟩
      rcases validate_of_signedIn hq with ⟨amount, hvalid, hcurrency, hside⟩
      have hvolume := volume_nonneg (signedAmounts rest)
      rw [signedAmounts_cons hq, volume_cons] at hroom
      rw [signedAmounts_cons hq, List.map_cons, List.sum_cons]
      -- A line moves one of the subtotals, so together they stay within the volume.
      cases hdebit : line.debit.isSome with
      | true =>
          have hamount : q = amount.amount := by simpa [hdebit] using hside
          subst hamount
          rcases exists_add_of_whole hscale hdebits hwhole
            (by linarith [abs_nonneg credits.toRat]) with ⟨sum, hadd, hsum⟩
          have htriangle := abs_add_le debits.toRat amount.amount.toRat
          rw [← hsum] at htriangle
          rcases subtotals_of_whole hrest sum credits (hsum ▸ hdebits.add hwhole) hcredits
            (by linarith) with ⟨debits', credits', hloop, hdifference⟩
          refine ⟨debits', credits', ?_, by rw [hdifference, hsum]; ring⟩
          have hchecked := checkedAdd_decimal (a := ⟨debits, c⟩) (b := amount) hcurrency.symm
          simp [subtotals, hvalid, hdebit, hchecked, hadd, hloop]
      | false =>
          have hamount : q = neg amount.amount := by simpa [hdebit] using hside
          subst hamount
          rw [toRat_neg_eq] at hwhole hroom ⊢
          rw [abs_neg] at hroom
          have hwhole' : Whole scale amount.amount.toRat := by simpa using hwhole.neg
          rcases exists_add_of_whole hscale hcredits hwhole'
            (by linarith [abs_nonneg debits.toRat]) with ⟨sum, hadd, hsum⟩
          have htriangle := abs_add_le credits.toRat amount.amount.toRat
          rw [← hsum] at htriangle
          rcases subtotals_of_whole hrest debits sum hdebits (hsum ▸ hcredits.add hwhole')
            (by linarith) with ⟨debits', credits', hloop, hdifference⟩
          refine ⟨debits', credits', ?_, by rw [hdifference, hsum]; ring⟩
          have hchecked := checkedAdd_decimal (a := ⟨credits, c⟩) (b := amount) hcurrency.symm
          simp [subtotals, hvalid, hdebit, hchecked, hadd, hloop]

/-- An entry of whole units that adds up to zero is accepted. -/
theorem handleCommand_of_whole {lines : List (JournalLine Decimal)} (h : WholeLines c scale lines)
    (hne : lines ≠ []) (hzero : ((signedAmounts lines).map toRat).sum = 0)
    (hroom : volume (signedAmounts lines) < capacity scale) (state : LedgerState Decimal)
    (dims : Dimensions) (newId : EntryId) (now : DateTimeUtc) :
    handleCommand state (.postJournalEntry lines dims) newId now =
      some (.ok [.journalEntryPosted newId lines dims now]) := by
  cases lines with
  | nil => exact absurd rfl hne
  | cons first rest =>
      rcases h.cons with ⟨q, hq, -, -⟩
      rcases validate_of_signedIn hq with ⟨amount, hvalid, hcurrency, -⟩
      have hstart : Whole scale (Amount.zero : Decimal).toRat := by
        rw [toRat_zero]
        exact whole_zero scale
      rcases subtotals_of_whole hscale h Amount.zero Amount.zero hstart hstart
        (by rw [toRat_zero]; simpa using hroom) with ⟨debits, credits, hloop, hdifference⟩
      -- The lines add up to zero, so what the subtotals are apart by is zero.
      have hequal : debits.toRat = credits.toRat := by
        rw [hzero] at hdifference
        linarith
      have hbeq : Money.beq (⟨debits, c⟩ : Money Decimal) ⟨credits, c⟩ = true := by
        simp [Money.beq, eq_iff, hequal]
      have hmoney : (Money.zero c : Money Decimal) = ⟨Amount.zero, c⟩ := rfl
      simp [handleCommand, hvalid, hcurrency, hmoney, hloop, hbeq]

end Commands

/-! ## Posting -/

/-- The aggregate's balances are the accumulator's, in one currency and in whole units; `volume`
bounds their sizes and `net` is their sum. -/
structure FollowsTruth (c : Currency) (scale : Nat) (bound net : ℚ)
    (balances : SortedMap AccountId (Money Decimal)) (truth : SortedMap AccountId Decimal) :
    Prop where
  same : ∀ account, balances.get? account = (truth.get? account).map fun amount => ⟨amount, c⟩
  whole : ∀ account amount, truth.get? account = some amount → Whole scale amount.toRat
  volume_le : volume truth.values ≤ bound
  sum_eq : (truth.values.map toRat).sum = net

section Posting

variable {c : Currency} {scale : Nat} {bound net : ℚ}
  {balances : SortedMap AccountId (Money Decimal)} {truth : SortedMap AccountId Decimal}

theorem followsTruth_empty (c : Currency) (scale : Nat) : FollowsTruth c scale 0 0 .empty .empty where
  same := fun _ => rfl
  whole := by simp
  volume_le := by simp [volume]
  sum_eq := by simp

/-- What a slot holds is a whole number of units within the bound. -/
theorem FollowsTruth.slot (h : FollowsTruth c scale bound net balances truth) (account : AccountId) :
    Whole scale ((truth.get? account).getD Amount.zero).toRat ∧
      |((truth.get? account).getD Amount.zero).toRat| ≤ bound := by
  cases hslot : truth.get? account with
  | none =>
      rw [Option.getD_none, toRat_zero, abs_zero]
      exact ⟨whole_zero scale, (volume_nonneg _).trans h.volume_le⟩
  | some amount =>
      have hmem : amount ∈ truth.values :=
        List.mem_map.2 ⟨(account, amount), SortedMap.get?_eq_some_iff.1 hslot, rfl⟩
      exact ⟨h.whole account amount hslot, (abs_toRat_le_volume hmem).trans h.volume_le⟩

theorem startOf_of_same (h : FollowsTruth c scale bound net balances truth) (account : AccountId) :
    startOf (balances.get? account) = (truth.get? account).getD Amount.zero := by
  rw [h.same]
  cases truth.get? account <;> rfl

/-- A line moves the balance of one account, the same in both. -/
theorem FollowsTruth.line (hscale : scale ≤ maxScale) (h : FollowsTruth c scale bound net balances truth)
    {line : JournalLine Decimal} {q : Decimal} (hline : line.signedAmount = some ⟨q, c⟩)
    (hwhole : Whole scale q.toRat) (hroom : bound + |q.toRat| < capacity scale) :
    ∃ balances', LedgerState.postLine balances line = some balances' ∧
      FollowsTruth c scale (bound + |q.toRat|) (net + q.toRat) balances' (accumulate truth line) := by
  rcases h.slot line.account with ⟨hslot, hsize⟩
  -- Both add the same amount to the same slot, and neither overflows.
  rcases exists_add_of_whole hscale hslot hwhole (by linarith) with ⟨sum, hadd, hsum⟩
  have htakes : Takes c (balances.get? line.account) := by
    intro b hb
    rw [h.same] at hb
    rcases Option.map_eq_some_iff.1 hb with ⟨amount, -, rfl⟩
    rfl
  have htruth : accumulate truth line = truth.insert line.account sum := by
    rw [accumulate_of_signedAmount hline, hadd, Option.getD_some]
  have hpost : LedgerState.postLine balances line =
      some (balances.insert line.account ⟨sum, c⟩) := by
    rw [postLine_of_takes hline htakes, startOf_of_same h, hadd, Option.map_some]
  -- Writing the slot moves both sums over the accounts by what the line adds to it.
  have hold : ∀ f : Decimal → ℚ, f Amount.zero = 0 →
      ((truth.get? line.account).elim 0 fun old => f old) =
        f ((truth.get? line.account).getD Amount.zero) := by
    intro f hf
    cases truth.get? line.account with
    | none => exact hf.symm
    | some old => rfl
  have hmoved : ∀ f : Decimal → ℚ, f Amount.zero = 0 →
      ((truth.insert line.account sum).values.map f).sum =
        (truth.values.map f).sum - f ((truth.get? line.account).getD Amount.zero) + f sum := by
    intro f hf
    have hinsert := truth.sum_insert (fun e => f e.2) line.account sum
    rw [hold f hf] at hinsert
    simpa only [SortedMap.values, List.map_map, Function.comp_def] using hinsert
  refine ⟨_, hpost, ?_⟩
  rw [htruth]
  constructor
  · intro account
    rw [SortedMap.get?_insert, SortedMap.get?_insert]
    split_ifs
    · rfl
    · exact h.same account
  · intro account amount hamount
    rw [SortedMap.get?_insert] at hamount
    split_ifs at hamount
    · cases hamount
      rw [hsum]
      exact hslot.add hwhole
    · exact h.whole account amount hamount
  · have habs := hmoved (fun a => |a.toRat|) (by rw [toRat_zero, abs_zero])
    have htriangle := abs_add_le ((truth.get? line.account).getD Amount.zero).toRat q.toRat
    rw [← hsum] at htriangle
    have hvolume : volume (truth.insert line.account sum).values =
        volume truth.values - |((truth.get? line.account).getD Amount.zero).toRat| +
          |sum.toRat| := habs
    linarith [h.volume_le]
  · rw [hmoved toRat toRat_zero, h.sum_eq, hsum]
    ring

theorem FollowsTruth.lines (hscale : scale ≤ maxScale) :
    ∀ {lines : List (JournalLine Decimal)} {bound net : ℚ}
      {balances : SortedMap AccountId (Money Decimal)} {truth : SortedMap AccountId Decimal},
      FollowsTruth c scale bound net balances truth → WholeLines c scale lines →
      bound + volume (signedAmounts lines) < capacity scale →
      ∃ balances', lines.foldlM LedgerState.postLine balances = some balances' ∧
        FollowsTruth c scale (bound + volume (signedAmounts lines))
          (net + ((signedAmounts lines).map toRat).sum) balances' (lines.foldl accumulate truth)
  | [], bound, net, balances, truth, h, _, _ =>
      ⟨balances, rfl, by simpa [signedAmounts, volume] using h⟩
  | line :: rest, bound, net, balances, truth, h, hlines, hroom => by
      rcases hlines.cons with ⟨q, hq, hwhole, hrest⟩
      rw [signedAmounts_cons hq, volume_cons] at hroom
      have hvolume := volume_nonneg (signedAmounts rest)
      rcases h.line hscale hq hwhole (by linarith) with ⟨balances₁, hpost, hfirst⟩
      rcases FollowsTruth.lines hscale hfirst hrest (by linarith) with ⟨balances', hposts, hagrees⟩
      refine ⟨balances', by simp [hpost, hposts], ?_⟩
      rw [signedAmounts_cons hq, volume_cons, List.map_cons, List.sum_cons, ← add_assoc,
        ← add_assoc]
      exact hagrees

end Posting

/-! ## Whole ledgers -/

/-- The request posts the entry. -/
def PostsEntry (request : Request Decimal) (entry : GeneratedEntry) : Prop :=
  ∃ dims, request.command = .postJournalEntry entry.lines dims

/-- The event that records the entry. -/
def Records (event : LedgerEvent Decimal) (entry : GeneratedEntry) : Prop :=
  ∃ id dims postedAt, event = .journalEntryPosted id entry.lines dims postedAt

/-- An entry of whole units that adds up to zero. -/
structure WholeEntry (c : Currency) (scale : Nat) (entry : GeneratedEntry) : Prop where
  lines : WholeLines c scale entry.lines
  ne_nil : entry.lines ≠ []
  sum_eq : ((signedAmounts entry.lines).map toRat).sum = 0

/-- The sizes of all the lines of the entries, added up. -/
def entriesVolume (entries : List GeneratedEntry) : ℚ :=
  (entries.map fun entry => volume (signedAmounts entry.lines)).sum

theorem entriesVolume_nonneg (entries : List GeneratedEntry) : 0 ≤ entriesVolume entries := by
  apply List.sum_nonneg
  intro x hx
  rcases List.mem_map.1 hx with ⟨entry, -, rfl⟩
  exact volume_nonneg _

section Ledgers

variable {c : Currency} {scale : Nat} (hscale : scale ≤ maxScale)

include hscale

/-- Every entry is accepted, and the balances stay those of the accumulator. -/
theorem postAll_of_whole {requests : List (Request Decimal)} {entries : List GeneratedEntry}
    (hposts : List.Forall₂ PostsEntry requests entries) :
    ∀ {bound : ℚ} {state : LedgerState Decimal} {events : List (LedgerEvent Decimal)}
      {truth : SortedMap AccountId Decimal},
      (∀ entry ∈ entries, WholeEntry c scale entry) →
      FollowsTruth c scale bound 0 state.balances truth →
      bound + entriesVolume entries < capacity scale →
      ∃ log state', postAll state events requests = some (.ok (events ++ log, state')) ∧
        List.Forall₂ Records log entries ∧ replay state log = some state' ∧
        FollowsTruth c scale (bound + entriesVolume entries) 0 state'.balances
          (entries.foldl (fun truth entry => entry.lines.foldl accumulate truth) truth) := by
  induction hposts with
  | nil =>
      intro bound state events truth _ hagrees _
      exact ⟨[], state, by simp [postAll], .nil, rfl, by simpa [entriesVolume] using hagrees⟩
  | @cons request entry requests entries hrequest _ ih =>
      intro bound state events truth hentries hagrees hroom
      rcases List.forall_mem_cons.1 hentries with ⟨hentry, hrest⟩
      rcases hrequest with ⟨dims, hcommand⟩
      have hsplit : entriesVolume (entry :: entries) =
          volume (signedAmounts entry.lines) + entriesVolume entries := rfl
      have hlater := entriesVolume_nonneg entries
      have hfirst := volume_nonneg (signedAmounts entry.lines)
      have hbound : 0 ≤ bound := (volume_nonneg _).trans hagrees.volume_le
      rw [hsplit] at hroom
      -- The entry is accepted in any state: the handler reads its lines only.
      have hanswer : handleCommand state request.command request.newId request.now =
          some (.ok [.journalEntryPosted request.newId entry.lines dims request.now]) := by
        rw [hcommand]
        exact handleCommand_of_whole hscale hentry.lines hentry.ne_nil hentry.sum_eq (by linarith)
          state dims request.newId request.now
      rcases hagrees.lines hscale hentry.lines (by linarith) with ⟨balances, hlines, hposted⟩
      -- An entry that balances leaves the sum over the accounts as it was.
      rw [hentry.sum_eq, add_zero] at hposted
      let next : LedgerState Decimal :=
        { state with balances := balances, entries := state.entries.insert request.newId entry.lines }
      let event : LedgerEvent Decimal :=
        .journalEntryPosted request.newId entry.lines dims request.now
      have happly : applyEvent state event = some next := by
        simp [applyEvent, event, next, LedgerState.post, hlines]
      rcases @ih _ next (events ++ [event]) _ hrest hposted (by linarith) with
        ⟨log, state', hpostAll, hrecords, hreplay, hagrees'⟩
      refine ⟨event :: log, state', ?_, .cons ⟨_, _, _, rfl⟩ hrecords, ?_, ?_⟩
      · simpa [postAll, hanswer, replay, happly, event] using hpostAll
      · simpa [replay, happly] using hreplay
      · rw [hsplit, ← add_assoc]
        exact hagrees'

end Ledgers

/-! ## The comparison -/

section Comparison

variable {c : Currency} {scale : Nat} {bound net : ℚ} {truth : SortedMap AccountId Decimal}

theorem FollowsTruth.amounts_eq {state : LedgerState Decimal}
    (h : FollowsTruth c scale bound net state.balances truth) : state.amounts = truth := by
  apply SortedMap.ext_get?
  intro account
  have hkeys : ((state.balances.entries.map fun e => (e.1, e.2.amount)).map Prod.fst).Nodup := by
    rw [List.map_map]
    exact state.balances.nodup_keys
  apply Option.ext
  intro amount
  rw [LedgerState.amounts, SortedMap.get?_ofList_iff hkeys, List.mem_map]
  constructor
  · rintro ⟨⟨account', money⟩, hmem, heq⟩
    cases heq
    have hget := h.same account'
    rw [SortedMap.get?_eq_some_iff.2 hmem] at hget
    rcases Option.map_eq_some_iff.1 hget.symm with ⟨amount, hamount, rfl⟩
    exact hamount
  · intro hamount
    refine ⟨(account, ⟨amount, c⟩), SortedMap.get?_eq_some_iff.1 ?_, rfl⟩
    rw [h.same, hamount, Option.map_some]

theorem hyphenated_asUuid_injective :
    Function.Injective fun account : AccountId => account.asUuid.hyphenated := by
  intro a b h
  apply DomainId.asUuid_injective
  -- The text of an identifier reads back as the identifier.
  have hread := congrArg Uuid.read h
  simpa only [Uuid.read_hyphenated, Option.some.injEq] using hread

/-- The texts of the accounts lose none of the balances. -/
theorem perm_values_byText (balances : SortedMap AccountId Decimal) :
    (byText balances).values.Perm balances.values := by
  have hkeys : ((balances.entries.map fun e => (e.1.asUuid.hyphenated, e.2)).map Prod.fst).Nodup := by
    have hnodup := balances.nodup_keys.map hyphenated_asUuid_injective
    simpa only [SortedMap.keys, List.map_map, Function.comp_def] using hnodup
  have hperm := (SortedMap.perm_entries_ofList hkeys).map Prod.snd
  simpa only [SortedMap.values, byText, List.map_map, Function.comp_def] using hperm

theorem FollowsTruth.netToZero (hscale : scale ≤ maxScale)
    {balances : SortedMap AccountId (Money Decimal)} (h : FollowsTruth c scale bound 0 balances truth)
    (hroom : bound < capacity scale) : assertBalancesNetToZero (byText truth) = .ok () := by
  have hperm := perm_values_byText truth
  have hwhole : ∀ a ∈ (byText truth).values, Whole scale a.toRat := by
    intro a ha
    rcases List.mem_map.1 (hperm.mem_iff.1 ha) with ⟨⟨account, amount⟩, hmem, rfl⟩
    exact h.whole account amount (SortedMap.get?_eq_some_iff.2 hmem)
  have hzero : Whole scale (Amount.zero : Decimal).toRat := by
    rw [toRat_zero]
    exact whole_zero scale
  have hstart : |(Amount.zero : Decimal).toRat| + volume (byText truth).values < capacity scale := by
    rw [toRat_zero, abs_zero, zero_add, volume_of_perm hperm]
    exact h.volume_le.trans_lt hroom
  rcases foldlM_add_of_whole hscale hzero hwhole hstart with ⟨total, hfold, htotal⟩
  have hsum : checkedSum .trialBalanceZero (byText truth).values (Amount.zero : Decimal) =
      .ok total :=
    checkedSum_eq_ok_iff.2 hfold
  rw [(hperm.map toRat).sum_eq, h.sum_eq, toRat_zero, add_zero] at htotal
  have hequal : Amount.eq total (Amount.zero : Decimal) = true := by
    rw [eq_iff, htotal, toRat_zero]
  unfold assertBalancesNetToZero
  rw [hsum]
  exact if_pos hequal

end Comparison

/-! ## Generated ledgers -/

theorem length_entryStarts (lib : Externals Decimal) (spec : GeneratorSpec) (n : Nat) (rng : Rng) :
    (entryStarts lib spec n rng).length = n := by
  induction n generalizing rng with
  | zero => rfl
  | succ n ih => rw [entryStarts, List.length_cons, ih]

section Generated

variable (lib : Externals Decimal) (spec : GeneratorSpec) (rng : Rng)

/-- What is drawn for an entry, in the worth of units. -/
theorem volume_drawnAmounts_le : volume (drawnAmounts lib spec rng) ≤
    (drawnAmounts lib spec rng).length * ((2 ^ 63 - 1) / 10 ^ spec.scale) := by
  apply volume_le_length_mul
  intro a ha
  rcases (drawn_drawEntry rng).bounded a ha with ⟨hscale, hmantissa⟩
  have hpow : (0 : ℚ) < 10 ^ spec.scale := by positivity
  have hcast : ((a.mantissa.natAbs : Nat) : ℚ) ≤ 2 ^ 63 - 1 := by
    have hle : a.mantissa.natAbs + 1 ≤ 2 ^ 63 := by omega
    have hle' : ((a.mantissa.natAbs + 1 : Nat) : ℚ) ≤ (2 ^ 63 : Nat) := Nat.cast_le.2 hle
    push_cast at hle'
    linarith
  rw [toRat, hscale, abs_div, abs_of_pos hpow, ← Int.cast_abs, ← Nat.cast_natAbs]
  exact (div_le_div_iff_of_pos_right hpow).2 hcast

theorem whole_drawnAmounts : ∀ a ∈ drawnAmounts lib spec rng, Whole spec.scale a.toRat := by
  intro a ha
  rw [← ((drawn_drawEntry rng).bounded a ha).1]
  exact whole_toRat a

variable (h : spec.mostLines.toNat ≤ 2 ^ 33)

include h

/-- The running sum of an entry is exact, so the plug is a whole number of units too. -/
theorem toRat_running : (drawEntry lib spec rng).running.toRat =
    ((drawnAmounts lib spec rng).map toRat).sum := by
  rw [sum_drawnAmounts, lost_eq_zero (runningExact_drawnAmounts lib spec rng h), add_zero]

theorem signedAmounts_generateEntry :
    ∃ plug : List Decimal, signedAmounts (generateEntry lib spec rng).1.lines =
        drawnAmounts lib spec rng ++ plug ∧ (∀ a ∈ plug, Whole spec.scale a.toRat) ∧
      volume plug ≤ volume (drawnAmounts lib spec rng) := by
  rw [lines_generateEntry, signedAmounts_append]
  cases hplug : plugDraw lib spec rng with
  | none =>
      refine ⟨[], by simp [signedAmounts, drawnAmounts], by simp, ?_⟩
      exact volume_nonneg _
  | some code =>
      have hwhole := Whole.sum (whole_drawnAmounts lib spec rng)
      rw [← toRat_running lib spec rng h] at hwhole
      refine ⟨[neg (drawEntry lib spec rng).running], ?_, ?_, ?_⟩
      · rw [Option.map_some, Option.toList_some,
          signedAmounts_singleton (signedAmount_plugLine code _)]
        rfl
      · intro a ha
        rw [List.mem_singleton.1 ha, toRat_neg_eq]
        exact hwhole.neg
      · have hsize := abs_sum_le_volume (drawnAmounts lib spec rng)
        rw [← toRat_running lib spec rng h] at hsize
        simpa [volume, toRat_neg_eq] using hsize

theorem wholeLines_generateEntry :
    WholeLines spec.currency spec.scale (generateEntry lib spec rng).1.lines where
  signedIn := signedIn_generateEntry lib spec rng
  whole := by
    rcases signedAmounts_generateEntry lib spec rng h with ⟨plug, hamounts, hplug, -⟩
    intro a ha
    rw [hamounts] at ha
    rcases List.mem_append.1 ha with hdrawn | hclosing
    · exact whole_drawnAmounts lib spec rng a hdrawn
    · exact hplug a hclosing

/-- An entry moves no more than twice what is drawn for it. -/
theorem volume_generateEntry_le :
    volume (signedAmounts (generateEntry lib spec rng).1.lines) ≤
      (spec.mostLines.toNat - 1) * (2 * ((2 ^ 63 - 1) / 10 ^ spec.scale)) := by
  rcases signedAmounts_generateEntry lib spec rng h with ⟨plug, hamounts, -, hplug⟩
  have hlength := length_drawnAmounts_lt lib spec rng
  -- The plug is one of the lines, so fewer than those are drawn.
  have hcount : ((drawnAmounts lib spec rng).length : ℚ) ≤ spec.mostLines.toNat - 1 := by
    have hcast : (((drawnAmounts lib spec rng).length + 1 : Nat) : ℚ) ≤ spec.mostLines.toNat :=
      Nat.cast_le.2 hlength
    push_cast at hcast
    linarith
  have hunit : (0 : ℚ) ≤ (2 ^ 63 - 1) / 10 ^ spec.scale := div_nonneg (by norm_num) (by positivity)
  have hdrawn := volume_drawnAmounts_le lib spec rng
  have hbound := mul_le_mul_of_nonneg_right hcount hunit
  rw [hamounts, volume_append]
  linarith

end Generated

/-- All the entries of a ledger together stay within a mantissa of units. -/
theorem entriesVolume_generate_lt (lib : Externals Decimal) {spec : GeneratorSpec} (seed : UInt64)
    (hlines : spec.entries * spec.mostLines.toNat ≤ 2 ^ 32)
    (hmost : spec.mostLines.toNat ≤ 2 ^ 33) :
    entriesVolume (generate lib spec seed).entries < capacity spec.scale := by
  have hpow : (0 : ℚ) < 10 ^ spec.scale := by positivity
  have hlength : (entryStarts lib spec spec.entries (.new seed)).length = spec.entries :=
    length_entryStarts lib spec _ _
  have hentries : entriesVolume (generate lib spec seed).entries ≤
      spec.entries * ((spec.mostLines.toNat - 1) * (2 * ((2 ^ 63 - 1) / 10 ^ spec.scale))) := by
    rw [entriesVolume, entries_generate, List.map_map]
    have hsum := List.sum_le_card_nsmul ((entryStarts lib spec spec.entries (.new seed)).map
      fun start => volume (signedAmounts (generateEntry lib spec start).1.lines)) _
      (List.forall_mem_map.2 fun start _ => volume_generateEntry_le lib spec start hmost)
    rw [List.length_map, hlength, nsmul_eq_mul] at hsum
    exact hsum
  have hcast : (spec.entries : ℚ) * spec.mostLines.toNat ≤ 2 ^ 32 := by exact_mod_cast hlines
  have hcount : (0 : ℚ) ≤ spec.entries := Nat.cast_nonneg _
  calc entriesVolume (generate lib spec seed).entries
      ≤ spec.entries * ((spec.mostLines.toNat - 1) * (2 * ((2 ^ 63 - 1) / 10 ^ spec.scale))) :=
        hentries
    _ = (spec.entries * spec.mostLines.toNat - spec.entries) * (2 * (2 ^ 63 - 1)) /
          10 ^ spec.scale := by ring
    _ ≤ 2 ^ 32 * (2 * (2 ^ 63 - 1)) / 10 ^ spec.scale := by
        apply (div_le_div_iff_of_pos_right hpow).2
        exact mul_le_mul_of_nonneg_right (by linarith) (by norm_num)
    _ < capacity spec.scale := by
        apply (div_lt_div_iff_of_pos_right hpow).2
        norm_num [mantissaBound]

/-- For every seed: whatever else the requests carry, every generated entry is accepted, the log
replays into the state, the balances are those of the accumulator, and they net to zero. -/
theorem posted_generated (lib : Externals Decimal) {spec : GeneratorSpec} (seed : UInt64)
    (haccounts : 2 ≤ spec.accounts.length) (hlength : spec.accounts.length < 2 ^ 64)
    (hlines : spec.entries * spec.mostLines.toNat ≤ 2 ^ 32) {requests : List (Request Decimal)}
    (hposts : List.Forall₂ PostsEntry requests (generate lib spec seed).entries) :
    ∃ log state, postAll LedgerState.default [] requests = some (.ok (log, state)) ∧
      List.Forall₂ Records log (generate lib spec seed).entries ∧
      replay LedgerState.default log = some state ∧
      state.amounts = (generate lib spec seed).groundTruth ∧
      assertBalancesNetToZero (byText (generate lib spec seed).groundTruth) = .ok () := by
  have hwhole : (∀ entry ∈ (generate lib spec seed).entries,
      WholeEntry spec.currency spec.scale entry) ∧
        entriesVolume (generate lib spec seed).entries < capacity spec.scale := by
    -- Without entries nothing bounds the lines of one, and nothing has to.
    rcases Nat.eq_zero_or_pos spec.entries with hnone | hsome
    · have hentries : (generate lib spec seed).entries = [] := by
        rw [entries_generate, hnone]
        rfl
      rw [hentries]
      exact ⟨by simp, capacity_pos _⟩
    · have hmost : spec.mostLines.toNat ≤ 2 ^ 33 := by nlinarith
      refine ⟨?_, entriesVolume_generate_lt lib seed hlines hmost⟩
      have hbalanced := generate_balanced lib seed haccounts hlength hmost
      intro entry hentry
      have hbal := hbalanced entry hentry
      rw [entries_generate, List.mem_map] at hentry
      rcases hentry with ⟨start, -, rfl⟩
      exact ⟨wholeLines_generateEntry lib spec start hmost, hbal.ne_nil, hbal.sum_eq⟩
  rcases hwhole with ⟨hentries, hvolume⟩
  have hroom : 0 + entriesVolume (generate lib spec seed).entries < capacity spec.scale := by
    rw [zero_add]
    exact hvolume
  rcases @postAll_of_whole _ _ spec.scale_le _ _ hposts 0 LedgerState.default [] .empty hentries
    (followsTruth_empty _ _) hroom with ⟨log, state, hpost, hrecords, hreplay, hfollows⟩
  exact ⟨log, state, hpost, hrecords, hreplay, hfollows.amounts_eq,
    hfollows.netToZero spec.scale_le hroom⟩

theorem two_le_maxScale : 2 ≤ Decimal.maxScale := by
  decide

/-- Eight accounts, USD, two decimals. -/
def GeneratorSpec.small : GeneratorSpec where
  accounts := ["1000", "1100", "1400", "2000", "2400", "4000", "5000", "6000"]
  currency := .usd
  entries := 25
  minLines := 2
  maxLines := 6
  maxMinorUnits := 5000000
  scale := 2
  scale_le := two_le_maxScale

/-- A request that posts the entry. -/
def postRequest (entry : GeneratedEntry) : Request Decimal where
  command := .postJournalEntry entry.lines (Dimensions.new ⟨1⟩ ⟨2⟩ ⟨3⟩ ⟨4⟩ .opEx)
  newId := ⟨5⟩
  now := ⟨0⟩

theorem posted_generated_small :
    let ledger := generate decimalExternals .small 7
    ∃ log state, postAll LedgerState.default [] (ledger.entries.map postRequest) =
        some (.ok (log, state)) ∧
      List.Forall₂ Records log ledger.entries ∧ replay LedgerState.default log = some state ∧
      state.amounts = ledger.groundTruth ∧
      assertBalancesNetToZero (byText ledger.groundTruth) = .ok () :=
  posted_generated decimalExternals 7 (by decide) (by decide) (by decide +kernel)
    (List.forall₂_map_left_iff.2 (List.forall₂_same.2 fun _ _ => ⟨_, rfl⟩))

end Falkr
