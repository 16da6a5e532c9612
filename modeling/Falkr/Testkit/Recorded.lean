import Falkr.Events.WellFormed
import Falkr.Lib.Lists
import Falkr.Testkit.Runner

/-!
# Recorded — what every executed scenario has on record

An operation is refused, as it declared, or its one event is recorded and applied (`Stepped`).
An invariant of such steps holds of the run a scenario ends in (`invariant_of_run`); the invariants
here say that records and ledger entries are one and the same (`Stored`), and that every account
that has a balance carries the label of an account of the chart (`Labels`).

The proofs use no arithmetic, and hold for either number type.
-/

namespace Falkr

open Lib

/-- The state of the loop that a run ended in. -/
def LedgerRun.progress {α : Type} (self : LedgerRun α) : Runner.Progress α where
  state := self.state
  events := self.events
  entries := self.entries
  labels := self.labels
  rejections := self.rejections

namespace Runner

open Returning

section Model

variable {m : Type → Type} {α : Type} [Amount m α]

/-! ## Steps -/

section Steps

variable (lib : Externals α) (chart : ChartOfAccounts) (scenario : Scenario) (currency : Currency)
  (draws : Draws)

/-- The commands the three handlers build. -/
inductive Built (op : Operation) (entries : List (EntryRecord α))
    (labels : SortedMap AccountId String) :
    LedgerCommand α → SortedMap AccountId String → Prop
  | post {lines : List (JournalLine α)} {labels' : SortedMap AccountId String} :
      op.kind = "post_entry" →
      journalLines lib chart scenario op currency labels = .ok (lines, labels') →
      Built op entries labels (.postJournalEntry lines (dimensions lib scenario)) labels'
  | reverse {target reason : String} {original : EntryRecord α} :
      op.kind = "reverse_entry" → op.strParam "ref" = .ok target →
      findRef entries target = some original →
      Built op entries labels (.reverseEntry original.entryId reason) labels
  | capitalize {run : RunId} {status : CapitalizationStatus} {policy : PolicyId} :
      op.kind = "set_capitalization" →
      Built op entries labels (.changeCapitalizationStatus run status policy) labels

/-- One pass of the loop over the operations that went through. -/
inductive Stepped [Monad m] (index : Nat) (op : Operation) (p : Progress α) : Progress α → Prop
  | refused {command : LedgerCommand α} {labels : SortedMap AccountId String}
      {error : LedgerError α} :
      Built lib chart scenario currency op p.entries p.labels command labels →
      op.expectRejection = true →
      Stepped index op p
        { p with labels := labels, rejections := p.rejections ++ [(op.kind, error)] }
  | accepted {command : LedgerCommand α} {labels : SortedMap AccountId String}
      {event : LedgerEvent α} {state : LedgerState α} :
      Built lib chart scenario currency op p.entries p.labels command labels →
      op.expectRejection = false →
      event = answer p.state command (draws.newId index) (draws.now index) →
      Permits (m := m) p.state event →
      applyEvent p.state event = (pure state : m _) →
      Stepped index op p
        { state := state
          events := p.events ++ [event]
          entries := recordEntry lib p.entries event op scenario index
          labels := labels
          rejections := p.rejections }

end Steps

variable {lib : Externals α} {chart : ChartOfAccounts} {scenario : Scenario} {currency : Currency}
  {draws : Draws}

theorem buildLines_of_journalLines {op : Operation} {labels : SortedMap AccountId String}
    {result : List (JournalLine α) × SortedMap AccountId String}
    (h : journalLines lib chart scenario op currency labels = .ok result) :
    ∃ raw, op.lines lib = .ok raw ∧
      buildLines lib chart scenario currency raw labels = .ok result := by
  unfold journalLines at h
  cases hraw : op.lines lib with
  | error source => simp [hraw] at h
  | ok raw => exact ⟨raw, rfl, by simpa [hraw] using h⟩

theorem built_of_buildCommand {op : Operation} {entries : List (EntryRecord α)}
    {labels labels' : SortedMap AccountId String} {command : LedgerCommand α}
    (h : buildCommand lib chart scenario currency op entries labels = .ok (command, labels')) :
    Built lib chart scenario currency op entries labels command labels' := by
  unfold buildCommand at h
  split at h
  · rename_i hkind
    rcases bind_eq_ok h with ⟨⟨lines, labels''⟩, hlines, hpair⟩
    cases hpair
    exact .post hkind hlines
  · rename_i hkind
    rcases bind_eq_ok h with ⟨built, hbuilt, hpair⟩
    cases hpair
    -- The reference is read first and looked up second; both must have gone well.
    unfold reverseEntry param at hbuilt
    cases htarget : op.strParam "ref" with
    | error source => simp [htarget] at hbuilt
    | ok target =>
        simp only [htarget] at hbuilt
        cases horiginal : findRef entries target with
        | none => simp [horiginal] at hbuilt
        | some original =>
            simp only [horiginal, Except.ok.injEq] at hbuilt
            exact hbuilt ▸ .reverse hkind htarget horiginal
  · rename_i hkind
    rcases bind_eq_ok h with ⟨built, hbuilt, hpair⟩
    cases hpair
    unfold setCapitalization at hbuilt
    rcases bind_eq_ok hbuilt with ⟨run, -, hrest⟩
    rcases bind_eq_ok hrest with ⟨stored, -, hstatus⟩
    cases hread : CapitalizationStatus.fromStored stored with
    | none => simp [hread] at hstatus
    | some status =>
        simp only [hread] at hstatus
        cases hstatus
        exact .capitalize hkind
  · cases h

section Runs

variable [Monad m] [Returning m]

theorem stepped_of_runOperation [LawfulMonad m] {index : Nat} {op : Operation} {p p' : Progress α}
    (h : runOperation lib chart scenario currency draws index op p = (pure (.ok p') : m _)) :
    Stepped (m := m) lib chart scenario currency draws index op p p' := by
  unfold runOperation at h
  cases hbuild : buildCommand lib chart scenario currency op p.entries p.labels with
  | error e =>
      simp only [hbuild] at h
      cases pure_inj h
  | ok built =>
      rcases built with ⟨command, labels⟩
      have hbuilt := built_of_buildCommand hbuild
      simp only [hbuild] at h
      rcases bind_eq_pure h with ⟨result, hhandle, hrest⟩
      cases result with
      | error error =>
          -- A rejected operation goes on only if it was declared to be rejected.
          cases hexpect : op.expectRejection with
          | false =>
              simp only [hexpect] at hrest
              cases pure_inj hrest
          | true =>
              simp only [hexpect, if_true] at hrest
              cases pure_inj hrest
              exact .refused hbuilt hexpect
      | ok produced =>
          rcases answer_of_handleCommand hhandle with ⟨rfl, hpermits⟩
          -- An accepted one only if it was not.
          cases hexpect : op.expectRejection with
          | true =>
              simp only [hexpect, if_true] at hrest
              cases pure_inj hrest
          | false =>
              simp only [hexpect] at hrest
              rcases bind_eq_pure hrest with ⟨absorbed, habsorb, hpair⟩
              cases pure_inj hpair
              -- There is one event, so the inner loop runs once.
              rcases bind_eq_pure habsorb with ⟨state, hstate, hdone⟩
              cases pure_inj hdone
              exact .accepted hbuilt hexpect rfl hpermits hstate

/-- What holds at the start and is kept by every step holds of the progress at the end. -/
theorem invariant_of_runOperations [LawfulMonad m] {Inv : Nat → Progress α → Prop}
    (hstep : ∀ index op p p', scenario.operations[index]? = some op → Inv index p →
      Stepped (m := m) lib chart scenario currency draws index op p p' → Inv (index + 1) p') :
    ∀ (ops : List Operation) (index : Nat) (p p' : Progress α),
      scenario.operations.drop index = ops → Inv index p →
      runOperations lib chart scenario currency draws index ops p = (pure (.ok p') : m _) →
      Inv (index + ops.length) p'
  | [], index, p, p', _, hp, h => by
      cases pure_inj h
      exact hp
  | op :: rest, index, p, p', hops, hp, h => by
      rcases bind_eq_pure h with ⟨result, hfirst, hlater⟩
      cases result with
      | error e => cases pure_inj hlater
      | ok next =>
          -- The first operation takes one step, the rest is the run from there.
          have hnext := hstep index op p next (getElem?_of_drop hops) hp
            (stepped_of_runOperation hfirst)
          have ih := invariant_of_runOperations hstep rest (index + 1) next p'
            (drop_succ_of_drop hops) hnext hlater
          rw [List.length_cons]
          exact (show index + 1 + rest.length = index + (rest.length + 1) by omega) ▸ ih

/-- An executed scenario has gone through all its operations. -/
theorem runOperations_of_run {self : Runner} {run : LedgerRun α}
    (h : self.run lib scenario draws = (pure (.ok (.executed run)) : m _)) :
    Currency.fromCode scenario.setup.functionalCcy = some run.currency ∧
      run.entity = scenario.setup.entity ∧
      runOperations lib self.chart scenario run.currency draws 0 scenario.operations start =
        (pure (.ok run.progress) : m _) := by
  by_cases hblocked : scenario.metadata.status = .blocked
  · rw [run_of_blocked hblocked] at h
    cases pure_inj h
  by_cases hall : ∀ op ∈ scenario.operations, deliverable op = true
  swap
  · have hdeferred : ∃ kinds, self.run lib scenario draws =
        (pure (.ok (.deferred scenario.requiredPhase kinds)) : m _) :=
      run_of_undeliverable hblocked hall
    rcases hdeferred with ⟨kinds, hdeferred⟩
    rw [hdeferred] at h
    cases pure_inj h
  rw [run_of_deliverable hblocked hall] at h
  rcases bind_eq_pure h with ⟨result, hexecute, hpair⟩
  cases result with
  | error e => cases pure_inj hpair
  | ok executed =>
      cases pure_inj hpair
      unfold execute at hexecute
      cases hcurrency : Currency.fromCode scenario.setup.functionalCcy with
      | none =>
          simp only [hcurrency] at hexecute
          cases pure_inj hexecute
      | some currency =>
          simp only [hcurrency] at hexecute
          rcases bind_eq_pure hexecute with ⟨outcome, hrun, hrecord⟩
          cases outcome with
          | error e => cases pure_inj hrecord
          | ok p =>
              cases pure_inj hrecord
              exact ⟨rfl, rfl, hrun⟩

theorem invariant_of_run [LawfulMonad m] {self : Runner} {run : LedgerRun α}
    {Inv : Nat → Progress α → Prop}
    (h : self.run lib scenario draws = (pure (.ok (.executed run)) : m _)) (hstart : Inv 0 start)
    (hstep : ∀ index op p p', scenario.operations[index]? = some op → Inv index p →
      Stepped (m := m) lib self.chart scenario run.currency draws index op p p' →
      Inv (index + 1) p') :
    Inv scenario.operations.length run.progress := by
  rcases runOperations_of_run h with ⟨-, -, hrun⟩
  have hinv := invariant_of_runOperations hstep scenario.operations 0 start run.progress rfl hstart
    hrun
  rwa [Nat.zero_add] at hinv

end Runs

/-! ## Records and ledger entries -/

/-- The event introduces an entry. -/
def isEntry : LedgerEvent α → Bool
  | .journalEntryPosted _ _ _ _ => true
  | .entryReversed _ _ _ => true
  | .capitalizationStatusChanged _ _ _ _ => false

/-- The record of the entry that an event introduces, among all records. -/
def RecordOf (entries : List (EntryRecord α)) : LedgerEvent α → EntryRecord α → Prop
  | .journalEntryPosted id lines _ _, record =>
      record.entryId = id ∧ record.lines = lines ∧ record.reversalOf = none
  | .entryReversed originalId reversalId _, record =>
      record.entryId = reversalId ∧ record.reversalOf = some originalId ∧
        ∃ original, recordedLines entries originalId = some original ∧
          record.lines = Falkr.mirror original
  | .capitalizationStatusChanged _ _ _ _, _ => False

/-- Where a record comes from: the operation at some index. -/
structure DrawnAt (scenario : Scenario) (draws : Draws) (record : EntryRecord α) (i : Nat) :
    Prop where
  entryId : record.entryId = draws.newId i
  journalId : record.journalId = journalId scenario i
  operation : ∃ op, scenario.operations[i]? = some op ∧ op.expectRejection = false ∧
    (record.reversalOf = none → record.entity = postingEntity scenario op) ∧
    (record.reversalOf.isSome → record.entity = scenario.setup.entity ∧ op.kind = "reverse_entry")

/-- Records and ledger entries are one and the same. -/
structure Stored (scenario : Scenario) (draws : Draws) (index : Nat) (p : Progress α) : Prop where
  drawn : ∀ record ∈ p.entries, ∃ i < index, DrawnAt scenario draws record i
  distinct : (p.entries.map EntryRecord.entryId).Nodup
  entries : ∀ id, p.state.entries.get? id = recordedLines p.entries id
  records : List.Forall₂ (RecordOf p.entries) (p.events.filter isEntry) p.entries

/-- The identifiers that the operations draw do not repeat. -/
def FreshIds (scenario : Scenario) (draws : Draws) : Prop :=
  ((List.range scenario.operations.length).map draws.newId).Nodup

instance (scenario : Scenario) (draws : Draws) : Decidable (FreshIds scenario draws) :=
  inferInstanceAs (Decidable (List.Nodup _))

theorem FreshIds.eq {i j : Nat} (h : FreshIds scenario draws) (hi : i < scenario.operations.length)
    (hj : j < scenario.operations.length) (heq : draws.newId i = draws.newId j) : i = j :=
  List.inj_on_of_nodup_map h (List.mem_range.2 hi) (List.mem_range.2 hj) heq

theorem recordedLines_append (entries : List (EntryRecord α)) (record : EntryRecord α)
    (id : EntryId) :
    recordedLines (entries ++ [record]) id =
      (recordedLines entries id).or (if record.entryId = id then some record.lines else none) := by
  unfold recordedLines
  rw [List.find?_append, Option.map_or]
  by_cases hid : record.entryId = id <;> simp [hid]

theorem RecordOf.append {entries : List (EntryRecord α)} {event : LedgerEvent α}
    {record : EntryRecord α} (h : RecordOf entries event record) (last : EntryRecord α) :
    RecordOf (entries ++ [last]) event record := by
  cases event with
  | journalEntryPosted id lines dims postedAt => exact h
  | entryReversed originalId reversalId reason =>
      rcases h with ⟨hid, hof, original, horiginal, hlines⟩
      exact ⟨hid, hof, original, by rw [recordedLines_append, horiginal]; rfl, hlines⟩
  | capitalizationStatusChanged runId fromStatus toStatus policyRef => exact h

/-- A new record under a new identifier, with the same lines in the state. -/
theorem Stored.append {index : Nat} {p : Progress α} (h : Stored scenario draws index p)
    (hfresh : FreshIds scenario draws) (hindex : index < scenario.operations.length)
    {event : LedgerEvent α} {record : EntryRecord α} {state : LedgerState α}
    (hdrawn : DrawnAt scenario draws record index) (hentry : isEntry event = true)
    (hrecord : RecordOf (p.entries ++ [record]) event record)
    (hstate : state.entries = p.state.entries.insert record.entryId record.lines)
    (labels : SortedMap AccountId String) :
    Stored scenario draws (index + 1)
      { p with
        state := state
        events := p.events ++ [event]
        entries := p.entries ++ [record]
        labels := labels } := by
  have hnew : ∀ older ∈ p.entries, older.entryId ≠ record.entryId := by
    intro older hold heq
    rcases h.drawn older hold with ⟨i, hi, hat⟩
    rw [hat.entryId, hdrawn.entryId] at heq
    have hsame := hfresh.eq (hi.trans hindex) hindex heq
    omega
  -- The new record comes last: what is said of the older ones still holds of them.
  refine ⟨?_, ?_, fun id => ?_, ?_⟩
  · intro r hr
    rcases List.mem_append.1 hr with hold | hlast
    · rcases h.drawn r hold with ⟨i, hi, hat⟩
      exact ⟨i, by omega, hat⟩
    · cases List.mem_singleton.1 hlast
      exact ⟨index, by omega, hdrawn⟩
  · rw [List.map_append, List.nodup_append]
    refine ⟨h.distinct, List.nodup_singleton _, fun id hid id' hid' => ?_⟩
    rcases List.mem_map.1 hid with ⟨older, hold, rfl⟩
    have hlast : id' = record.entryId := by simpa using hid'
    exact hlast ▸ hnew older hold
  · rw [hstate, SortedMap.get?_insert, recordedLines_append, h.entries]
    -- No older record has the identifier, so the lookup finds the new one.
    by_cases hid : id = record.entryId
    · subst hid
      have hnone : recordedLines p.entries record.entryId = none := by
        unfold recordedLines
        rw [Option.map_eq_none_iff, List.find?_eq_none]
        intro older hold
        simpa using hnew older hold
      simp [hnone]
    · simp [hid, Ne.symm hid]
  · rw [List.filter_append]
    refine List.rel_append (h.records.imp fun _ _ hr => hr.append record) ?_
    simp [hentry, hrecord]

/-- The corpus and the aggregate mirror alike. -/
theorem mirror_eq (lines : List (JournalLine α)) : mirror lines = Falkr.mirror lines := rfl

theorem drawnAt_postedRecord {index : Nat} {op : Operation}
    (hop : scenario.operations[index]? = some op) (hexpect : op.expectRejection = false)
    (lines : List (JournalLine α)) :
    DrawnAt scenario draws (postedRecord lib op scenario index (draws.newId index) lines)
      index where
  entryId := rfl
  journalId := rfl
  operation := ⟨op, hop, hexpect, fun _ => rfl, fun hsome => by cases hsome⟩

theorem drawnAt_reversalRecord {index : Nat} {op : Operation}
    (hop : scenario.operations[index]? = some op) (hexpect : op.expectRejection = false)
    (hkind : op.kind = "reverse_entry") (originalId : EntryId) (reason : String)
    (lines : List (JournalLine α)) :
    DrawnAt scenario draws
      (reversalRecord lib op scenario index originalId (draws.newId index) reason lines) index where
  entryId := rfl
  journalId := rfl
  operation := ⟨op, hop, hexpect, fun hnone => (by cases hnone), fun _ => ⟨rfl, hkind⟩⟩

section Runs

variable [Monad m] [Returning m]

theorem Stored.stepped {index : Nat} {op : Operation} {p p' : Progress α}
    (h : Stored scenario draws index p) (hfresh : FreshIds scenario draws)
    (hop : scenario.operations[index]? = some op)
    (hstep : Stepped (m := m) lib chart scenario currency draws index op p p') :
    Stored scenario draws (index + 1) p' := by
  have hindex : index < scenario.operations.length := (List.getElem?_eq_some_iff.1 hop).1
  have hlater : ∀ r ∈ p.entries, ∃ i < index + 1, DrawnAt scenario draws r i := by
    intro r hr
    rcases h.drawn r hr with ⟨i, hi, hat⟩
    exact ⟨i, by omega, hat⟩
  cases hstep with
  | refused hbuilt hexpect => exact ⟨hlater, h.distinct, h.entries, h.records⟩
  | accepted hbuilt hexpect hevent hpermits happly =>
      cases hbuilt with
      | @post lines labels hkind hlines =>
          subst hevent
          -- A posting: the record takes the lines of the event.
          let record := postedRecord lib op scenario index (draws.newId index) lines
          have hrecord : RecordOf (p.entries ++ [record])
              (.journalEntryPosted (draws.newId index) lines (dimensions lib scenario)
                (draws.now index)) record := ⟨rfl, rfl, rfl⟩
          exact h.append hfresh hindex (drawnAt_postedRecord hop hexpect lines) rfl hrecord
            (post_eq_pure happly).1 _
      | @reverse target reason named hkind htarget hnamed =>
          subst hevent
          rcases hpermits with ⟨hknown, -⟩
          rcases Option.isSome_iff_exists.1 hknown with ⟨original, hget⟩
          have hrecorded : recordedLines p.entries named.entryId = some original :=
            (h.entries _).symm.trans hget
          simp only [answer, applyEvent, hget] at happly
          rcases bind_eq_pure happly with ⟨posted, hpost, hpair⟩
          cases pure_inj hpair
          -- The copy is mirrored from the record, the ledger's lines from the state.
          let record := reversalRecord lib op scenario index named.entryId (draws.newId index)
            reason (Falkr.mirror original)
          have hentries : recordEntry lib p.entries
              (answer p.state (.reverseEntry named.entryId reason) (draws.newId index)
                (draws.now index)) op scenario index = p.entries ++ [record] := by
            simp [recordEntry, answer, hrecorded, mirror_eq, record]
          have hrecord : RecordOf (p.entries ++ [record])
              (.entryReversed named.entryId (draws.newId index) reason) record :=
            ⟨rfl, rfl, original, by rw [recordedLines_append, hrecorded]; rfl, rfl⟩
          let reversed : LedgerState α :=
            { posted with reversed := posted.reversed.insert named.entryId () }
          have hstate : reversed.entries = p.state.entries.insert record.entryId record.lines :=
            (post_eq_pure hpost).1
          rw [hentries]
          exact h.append hfresh hindex (drawnAt_reversalRecord hop hexpect hkind _ _ _) rfl hrecord
            hstate _
      | capitalize hkind =>
          subst hevent
          cases pure_inj happly
          -- A status change is no entry, and the filter drops it.
          refine ⟨hlater, h.distinct, h.entries, ?_⟩
          rw [List.filter_append]
          simpa [answer, isEntry, recordEntry] using h.records

/-- In every executed scenario records and ledger entries are one and the same. -/
theorem stored_of_run [LawfulMonad m] {self : Runner} {run : LedgerRun α}
    (hfresh : FreshIds scenario draws)
    (h : self.run lib scenario draws = (pure (.ok (.executed run)) : m _)) :
    Stored scenario draws scenario.operations.length run.progress := by
  refine invariant_of_run h ?_ fun index op p p' hop hp hstep => hp.stepped hfresh hop hstep
  exact ⟨by simp [start], List.nodup_nil, fun id => rfl, List.Forall₂.nil⟩

/-- A reversal that is not expected to be rejected is in the log of the run. -/
theorem reversed_of_run [LawfulMonad m] {self : Runner} {run : LedgerRun α}
    (h : self.run lib scenario draws = (pure (.ok (.executed run)) : m _)) {i : Nat}
    {op : Operation} (hop : scenario.operations[i]? = some op) (hkind : op.kind = "reverse_entry")
    (hexpect : op.expectRejection = false) :
    ∃ originalId reason, .entryReversed originalId (draws.newId i) reason ∈ run.events := by
  let Inv : Nat → Progress α → Prop := fun index p =>
    i < index → ∃ originalId reason, .entryReversed originalId (draws.newId i) reason ∈ p.events
  have hend : Inv scenario.operations.length run.progress := by
    refine invariant_of_run h (fun hlt => absurd hlt (Nat.not_lt_zero i)) ?_
    intro index op' p p' hop' hp hstep hlt
    rcases Nat.lt_succ_iff_lt_or_eq.1 hlt with hbefore | rfl
    · rcases hp hbefore with ⟨originalId, reason, hmem⟩
      cases hstep with
      | refused hbuilt hexpect' => exact ⟨originalId, reason, hmem⟩
      | accepted hbuilt hexpect' hevent hpermits happly =>
          exact ⟨originalId, reason, List.mem_append_left _ hmem⟩
    -- The operation in question is the one that is run.
    · cases hop.symm.trans hop'
      cases hstep with
      | refused hbuilt hexpect' => simp [hexpect] at hexpect'
      | accepted hbuilt hexpect' hevent hpermits happly =>
          cases hbuilt with
          | post hkind' hlines => simp [hkind] at hkind'
          | reverse hkind' htarget hnamed =>
              subst hevent
              exact ⟨_, _, List.mem_append_right _ (List.mem_singleton_self _)⟩
          | capitalize hkind' => simp [hkind] at hkind'
  exact hend (List.getElem?_eq_some_iff.1 hop).1

end Runs

theorem Stored.eq {index : Nat} {p : Progress α} (h : Stored scenario draws index p)
    {a b : EntryRecord α} (ha : a ∈ p.entries) (hb : b ∈ p.entries)
    (hid : a.entryId = b.entryId) : a = b :=
  List.inj_on_of_nodup_map h.distinct ha hb hid

/-- The record of an entry is the only one under its identifier. -/
theorem Stored.recordedLines_eq {index : Nat} {p : Progress α}
    (h : Stored scenario draws index p) {record : EntryRecord α} (hrecord : record ∈ p.entries) :
    recordedLines p.entries record.entryId = some record.lines := by
  unfold recordedLines
  cases hfind : p.entries.find? fun e => e.entryId == record.entryId with
  | none =>
      rw [List.find?_eq_none] at hfind
      simpa using hfind record hrecord
  | some found =>
      have hid : found.entryId = record.entryId := by simpa using List.find?_some hfind
      rw [h.eq (List.mem_of_find?_eq_some hfind) hrecord hid]
      rfl

/-- Every entry of the log has a record. -/
theorem Stored.exists_record {index : Nat} {p : Progress α} (h : Stored scenario draws index p)
    {event : LedgerEvent α} (hevent : event ∈ p.events) (hentry : isEntry event = true) :
    ∃ record ∈ p.entries, RecordOf p.entries event record :=
  exists_mem_of_forall₂ h.records event (List.mem_filter.2 ⟨hevent, hentry⟩)

/-- Every record is of an entry of the log. -/
theorem Stored.exists_event {index : Nat} {p : Progress α} (h : Stored scenario draws index p)
    {record : EntryRecord α} (hrecord : record ∈ p.entries) :
    ∃ event ∈ p.events, RecordOf p.entries event record := by
  rcases exists_mem_of_forall₂ h.records.flip record hrecord with ⟨event, hevent, hof⟩
  exact ⟨event, List.mem_of_mem_filter hevent, hof⟩

/-- The record that a reversing record points at, whose lines it mirrors. -/
theorem Stored.exists_original {index : Nat} {p : Progress α} (h : Stored scenario draws index p)
    {reversal : EntryRecord α} (hreversal : reversal ∈ p.entries) {id : EntryId}
    (hid : reversal.reversalOf = some id) :
    ∃ original ∈ p.entries, original.entryId = id ∧
      reversal.lines = Falkr.mirror original.lines ∧
      ∃ reason, .entryReversed id reversal.entryId reason ∈ p.events := by
  rcases h.exists_event hreversal with ⟨event, hevent, hof⟩
  cases event with
  | journalEntryPosted postedId lines dims postedAt =>
      rw [hof.2.2] at hid
      cases hid
  | entryReversed originalId reversalId reason =>
      rcases hof with ⟨hreversalId, hof', lines, hlines, hmirror⟩
      rw [hof'] at hid
      cases hid
      rcases Option.map_eq_some_iff.1 hlines with ⟨original, hfind, rfl⟩
      have hsame : original.entryId = id := by simpa using List.find?_some hfind
      exact ⟨original, List.mem_of_find?_eq_some hfind, hsame, hmirror, reason,
        hreversalId ▸ hevent⟩
  | capitalizationStatusChanged runId fromStatus toStatus policyRef => cases hof

theorem Stored.entity_of_reversal {index : Nat} {p : Progress α} (h : Stored scenario draws index p)
    {entry : EntryRecord α} (hentry : entry ∈ p.entries) (hof : entry.reversalOf.isSome) :
    entry.entity = scenario.setup.entity := by
  rcases h.drawn entry hentry with ⟨i, -, hat⟩
  rcases hat.operation with ⟨op, -, -, -, hbooked⟩
  exact (hbooked hof).1

theorem Stored.entity_of_posting {p : Progress α}
    (h : Stored scenario draws scenario.operations.length p) (hfresh : FreshIds scenario draws)
    {entry : EntryRecord α} (hentry : entry ∈ p.entries) (hnone : entry.reversalOf = none)
    {i : Nat} (hid : entry.entryId = draws.newId i) {op : Operation}
    (hop : scenario.operations[i]? = some op) : entry.entity = postingEntity scenario op := by
  rcases h.drawn entry hentry with ⟨j, hj, hat⟩
  have hij : i = j :=
    hfresh.eq (List.getElem?_eq_some_iff.1 hop).1 hj (hid.symm.trans hat.entryId)
  rcases hat.operation with ⟨op', hop', -, hposting, -⟩
  rw [← hij, hop] at hop'
  cases hop'
  exact hposting hnone

theorem toList_journalId (scenario : Scenario) (index : Nat) :
    (journalId scenario index).toList =
      scenario.metadata.id.toList ++ '-' :: padded 10 3 index := by
  simp [journalId]

theorem not_mem_padded (width n : Nat) : '-' ∉ padded 10 width n := fun hmem =>
  absurd (isDigit_of_mem_padded hmem) (by decide)

theorem journalId_inj {i j : Nat} (h : journalId scenario i = journalId scenario j) : i = j := by
  have htext := congrArg String.toList h
  rw [toList_journalId, toList_journalId] at htext
  have hdigits := eq_of_append_cons_eq (not_mem_padded 3 i) (not_mem_padded 3 j) htext
  rw [← readDigits_padded (show 1 < 10 by omega) (by omega) 3 i, hdigits,
    readDigits_padded (by omega) (by omega)]

theorem Stored.eq_of_journalId {index : Nat} {p : Progress α} (h : Stored scenario draws index p)
    {a b : EntryRecord α} (ha : a ∈ p.entries) (hb : b ∈ p.entries)
    (hid : a.journalId = b.journalId) : a = b := by
  rcases h.drawn a ha with ⟨i, -, hat⟩
  rcases h.drawn b hb with ⟨j, -, hat'⟩
  rw [hat.journalId, hat'.journalId] at hid
  cases journalId_inj hid
  exact h.eq ha hb (hat.entryId.trans hat'.entryId.symm)

/-! ## Labels -/

/-- The account carries the label of an account of the chart, whose code can be read off it. -/
def Labelled (lib : Externals α) (chart : ChartOfAccounts) (labels : SortedMap AccountId String)
    (id : AccountId) : Prop :=
  ∃ account ∈ chart.accounts, '-' ∉ account.code.toList ∧ accountId lib account.code = id ∧
    labels.get? id = some account.label

theorem Labelled.insert {labels : SortedMap AccountId String} {id : AccountId} {account : Account}
    (h : Labelled lib chart labels id) (hmem : account ∈ chart.accounts)
    (hcode : '-' ∉ account.code.toList) :
    Labelled lib chart (labels.insert (accountId lib account.code) account.label) id := by
  by_cases hid : id = accountId lib account.code
  · exact ⟨account, hmem, hcode, hid.symm, by simp [hid]⟩
  · rcases h with ⟨older, hold, hcode', hid', hlabel⟩
    exact ⟨older, hold, hcode', hid', by simp [hid, hlabel]⟩

/-- The accounts of the lines that are built carry labels, and no label is lost. -/
theorem labelled_of_buildLines :
    ∀ (raw : List ScenarioLine) (labels : SortedMap AccountId String)
      (lines : List (JournalLine α)) (labels' : SortedMap AccountId String),
      buildLines lib chart scenario currency raw labels = .ok (lines, labels') →
      (∀ line ∈ lines, Labelled lib chart labels' line.account) ∧
        ∀ id, Labelled lib chart labels id → Labelled lib chart labels' id
  | [], labels, lines, labels', h => by
      cases h
      exact ⟨by simp, fun id hid => hid⟩
  | first :: rest, labels, lines, labels', h => by
      unfold buildLines at h
      cases hresolve : chart.resolve first.account with
      | none => simp [hresolve] at h
      | some account =>
          simp only [hresolve] at h
          rcases bind_eq_ok h with ⟨built, hbuilt, hrest⟩
          rcases bind_eq_ok hrest with ⟨⟨later, labels''⟩, hlater, hpair⟩
          cases hpair
          have hmem := ChartOfAccounts.mem_accounts_of_resolve hresolve
          have hcode := ChartOfAccounts.not_mem_code_of_resolve hresolve
          rcases labelled_of_buildLines rest _ later _ hlater with ⟨hlines, hkept⟩
          -- Whatever the texts of a line are, it is on the account that was resolved.
          have haccount : built.account = accountId lib account.code := by
            rcases bind_eq_ok hbuilt with ⟨c, -, h1⟩
            rcases bind_eq_ok h1 with ⟨debit, -, h2⟩
            rcases bind_eq_ok h2 with ⟨credit, -, h3⟩
            cases h3
            rfl
          refine ⟨List.forall_mem_cons.2 ⟨?_, hlines⟩,
            fun id hid => hkept id (hid.insert hmem hcode)⟩
          rw [haccount]
          exact hkept _ ⟨account, hmem, hcode, rfl, by simp⟩

/-- Lines that the ledger has let through. -/
structure Entered (lines : List (JournalLine α)) : Prop where
  nonempty : lines ≠ []
  sided : ∃ c, ∀ line ∈ lines, OneSidedIn c line

theorem Entered.mirror {lines : List (JournalLine α)} (h : Entered lines) :
    Entered (Falkr.mirror lines) := by
  rcases h.sided with ⟨c, hsided⟩
  refine ⟨by simpa [Falkr.mirror] using h.nonempty, c, fun line hline => ?_⟩
  rcases List.mem_map.1 hline with ⟨original, horiginal, rfl⟩
  have hone := hsided original horiginal
  exact ⟨hone.oneSide.symm, hone.credit, hone.debit⟩

/-- What a state keeps of entries is sided, and its accounts are labelled. -/
structure Labels (lib : Externals α) (chart : ChartOfAccounts) (labels : SortedMap AccountId String)
    (s : LedgerState α) : Prop where
  entered : ∀ id lines, s.entries.get? id = some lines → Entered lines
  entries : ∀ id lines, s.entries.get? id = some lines →
    ∀ line ∈ lines, Labelled lib chart labels line.account
  balances : ∀ a b, s.balance a = some b → Labelled lib chart labels a

/-- What is on record has gone through the ledger. -/
theorem Stored.entered {index : Nat} {p : Progress α} (h : Stored scenario draws index p)
    {labels : SortedMap AccountId String} (hlabels : Labels lib chart labels p.state)
    {record : EntryRecord α} (hrecord : record ∈ p.entries) :
    Entered record.lines ∧ ∀ line ∈ record.lines, Labelled lib chart labels line.account := by
  have hget : p.state.entries.get? record.entryId = some record.lines :=
    (h.entries _).trans (h.recordedLines_eq hrecord)
  exact ⟨hlabels.entered _ _ hget, hlabels.entries _ _ hget⟩

section Runs

variable [Monad m] [Returning m]

/-- A line moves no other account than its own. -/
theorem get?_of_postLine {balances balances' : SortedMap AccountId (Money α)} {line : JournalLine α}
    (h : LedgerState.postLine balances line = (pure balances' : m _)) {a : AccountId}
    (ha : a ≠ line.account) : balances'.get? a = balances.get? a := by
  unfold LedgerState.postLine at h
  cases hsigned : line.signedAmount with
  | none =>
      simp only [hsigned] at h
      cases pure_inj h
      rfl
  | some delta =>
      simp only [hsigned] at h
      rcases bind_eq_pure h with ⟨result, -, hpair⟩
      cases result with
      | ok updated =>
          cases pure_inj hpair
          simp [ha]
      | error e =>
          cases pure_inj hpair
          simp [ha]

theorem balance_of_postLines {a : AccountId} :
    ∀ {lines : List (JournalLine α)} {balances balances' : SortedMap AccountId (Money α)},
      lines.foldlM LedgerState.postLine balances = (pure balances' : m _) →
      (∀ line ∈ lines, a ≠ line.account) → balances'.get? a = balances.get? a
  | [], _, _, h, _ => by
      cases pure_inj h
      rfl
  | line :: rest, balances, balances', h, hlines => by
      rcases List.forall_mem_cons.1 hlines with ⟨hline, hrest⟩
      rw [List.foldlM_cons] at h
      rcases bind_eq_pure h with ⟨next, hnext, hlater⟩
      rw [balance_of_postLines hlater hrest, get?_of_postLine hnext hline]

end Runs

theorem Labels.mono {labels labels' : SortedMap AccountId String} {s : LedgerState α}
    (h : Labels lib chart labels s)
    (hkept : ∀ id, Labelled lib chart labels id → Labelled lib chart labels' id) :
    Labels lib chart labels' s where
  entered := h.entered
  entries := fun id lines hget line hline => hkept _ (h.entries id lines hget line hline)
  balances := fun a b hb => hkept a (h.balances a b hb)

section Runs

variable [Monad m] [Returning m]

/-- Posting lines on labelled accounts. -/
theorem Labels.post {labels : SortedMap AccountId String} {s s' : LedgerState α}
    (h : Labels lib chart labels s) {id : EntryId} {lines : List (JournalLine α)}
    (hentered : Entered lines) (hlines : ∀ line ∈ lines, Labelled lib chart labels line.account)
    (hpost : s.post id lines = (pure s' : m _)) : Labels lib chart labels s' := by
  have hentries := (post_eq_pure hpost).1
  -- An entry of the new state is the one just posted or an older one.
  have hget : ∀ id' lines', s'.entries.get? id' = some lines' →
      lines' = lines ∨ s.entries.get? id' = some lines' := by
    intro id' lines' hsome
    rw [hentries, SortedMap.get?_insert] at hsome
    by_cases hid : id' = id
    · exact Or.inl (by simpa [hid] using hsome.symm)
    · exact Or.inr (by simpa [hid] using hsome)
  rcases bind_eq_pure hpost with ⟨balances, hfold, hpair⟩
  cases pure_inj hpair
  refine ⟨fun id' lines' hsome => ?_, fun id' lines' hsome => ?_, fun a b hb => ?_⟩
  · rcases hget id' lines' hsome with rfl | hold
    · exact hentered
    · exact h.entered id' lines' hold
  · rcases hget id' lines' hsome with rfl | hold
    · exact hlines
    · exact h.entries id' lines' hold
  -- An account that no line names has kept the balance it had.
  · by_cases hnamed : ∃ line ∈ lines, a = line.account
    · rcases hnamed with ⟨line, hline, rfl⟩
      exact hlines line hline
    · have hsame := balance_of_postLines hfold fun line hline heq => hnamed ⟨line, hline, heq⟩
      exact h.balances a b (by rw [LedgerState.balance, ← hsame]; exact hb)

theorem Labels.stepped {index : Nat} {op : Operation} {p p' : Progress α}
    (h : Labels lib chart p.labels p.state)
    (hstep : Stepped (m := m) lib chart scenario currency draws index op p p') :
    Labels lib chart p'.labels p'.state := by
  have hbuilt : ∀ {command : LedgerCommand α} {labels : SortedMap AccountId String},
      Built lib chart scenario currency op p.entries p.labels command labels →
      ∀ id, Labelled lib chart p.labels id → Labelled lib chart labels id := by
    intro command labels hbuilt
    cases hbuilt with
    | post hkind hlines =>
        rcases buildLines_of_journalLines hlines with ⟨raw, -, hraw⟩
        exact (labelled_of_buildLines raw _ _ _ hraw).2
    | reverse => exact fun id hid => hid
    | capitalize => exact fun id hid => hid
  cases hstep with
  | refused hcommand hexpect => exact h.mono (hbuilt hcommand)
  | accepted hcommand hexpect hevent hpermits happly =>
      have hmono := h.mono (hbuilt hcommand)
      cases hcommand with
      | post hkind hlines =>
          subst hevent
          rcases buildLines_of_journalLines hlines with ⟨raw, -, hraw⟩
          have hlabelled := (labelled_of_buildLines raw _ _ _ hraw).1
          exact hmono.post ⟨hpermits.nonempty, hpermits.sided⟩ hlabelled happly
      | @reverse target reason named hkind htarget hnamed =>
          subst hevent
          rcases hpermits with ⟨hknown, -⟩
          rcases Option.isSome_iff_exists.1 hknown with ⟨original, hget⟩
          simp only [answer, applyEvent, hget] at happly
          rcases bind_eq_pure happly with ⟨posted, hpost, hpair⟩
          cases pure_inj hpair
          -- The mirrored lines are on the accounts of the original, which are labelled already.
          have hmirrored : ∀ line ∈ Falkr.mirror original,
              Labelled lib chart p.labels line.account := by
            intro line hline
            rcases List.mem_map.1 hline with ⟨older, holder, rfl⟩
            exact h.entries _ original hget older holder
          have hposted := h.post (h.entered _ original hget).mirror hmirrored hpost
          exact ⟨hposted.entered, hposted.entries, hposted.balances⟩
      | capitalize hkind =>
          subst hevent
          cases pure_inj happly
          exact ⟨h.entered, h.entries, h.balances⟩

/-- In every executed scenario the accounts are labelled. -/
theorem labels_of_run [LawfulMonad m] {self : Runner} {run : LedgerRun α}
    (h : self.run lib scenario draws = (pure (.ok (.executed run)) : m _)) :
    Labels lib self.chart run.labels run.state := by
  let Inv : Nat → Progress α → Prop := fun _ p => Labels lib self.chart p.labels p.state
  have hstart : Inv 0 start :=
    ⟨by simp [start, LedgerState.default], by simp [start, LedgerState.default],
      by simp [start, LedgerState.default, LedgerState.balance]⟩
  have hend : Inv scenario.operations.length run.progress :=
    invariant_of_run h hstart fun index op p p' hop hp hstep => Labels.stepped hp hstep
  exact hend

end Runs

end Model

end Runner

end Falkr
