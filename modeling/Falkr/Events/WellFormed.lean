import Falkr.Events.Accepted

/-!
# WellFormed — the shape of every log

Three kinds of events share one state, and each check of `handleCommand` reads a map that
`applyEvent` keeps in step with the log (`InStep`).  From this the log is well formed at every
position (`WellFormedLog`): posted entries balance, a reversal names an entry of the past that was
not reversed before, and the status changes of a run form a chain.

The proofs use no arithmetic, and hold for either number type.
-/

namespace Falkr

open Lib

section Model

variable {m : Type → Type} {α : Type} [Amount m α]

/-! ## Well-formed logs -/

/-- The event introduces the entry, as a posting or as a reversal. -/
def LedgerEvent.Introduces (id : EntryId) : LedgerEvent α → Prop
  | .journalEntryPosted id' _ _ _ => id' = id
  | .entryReversed _ reversalId _ => reversalId = id
  | .capitalizationStatusChanged _ _ _ _ => False

/-- The event reverses the entry. -/
def LedgerEvent.Reverses (id : EntryId) : LedgerEvent α → Prop
  | .entryReversed originalId _ _ => originalId = id
  | _ => False

/-- The status changes of one run, in order. -/
def statusChanges (runId : RunId) (log : List (LedgerEvent α)) :
    List (CapitalizationStatus × CapitalizationStatus) :=
  log.filterMap fun
    | .capitalizationStatusChanged runId' fromStatus toStatus _ =>
        if runId' = runId then some (fromStatus, toStatus) else none
    | _ => none

/-- Every change starts where the one before it ended, and changes something. -/
def StatusChain : CapitalizationStatus → List (CapitalizationStatus × CapitalizationStatus) → Prop
  | _, [] => True
  | status, (fromStatus, toStatus) :: rest =>
      fromStatus = status ∧ fromStatus ≠ toStatus ∧ StatusChain toStatus rest

/-- The status the changes end in. -/
def endStatus (status : CapitalizationStatus)
    (changes : List (CapitalizationStatus × CapitalizationStatus)) : CapitalizationStatus :=
  (changes.getLast?.map Prod.snd).getD status

structure WellFormedLog [Monad m] (log : List (LedgerEvent α)) : Prop where
  posted : ∀ id lines dims postedAt, .journalEntryPosted id lines dims postedAt ∈ log →
    WellFormedEntry lines
  reversed : ∀ older originalId reversalId reason newer,
    log = older ++ .entryReversed originalId reversalId reason :: newer →
      (∃ event ∈ older, event.Introduces originalId) ∧ ∀ event ∈ older, ¬event.Reverses originalId
  chained : ∀ runId, StatusChain .pendingReview (statusChanges runId log)

/-! ## The maps keep step with the log -/

variable [Monad m] [Returning m]

open Returning

theorem post_eq_pure {s s' : LedgerState α} {id : EntryId} {lines : List (JournalLine α)}
    (h : s.post id lines = (pure s' : m _)) :
    s'.entries = s.entries.insert id lines ∧ s'.reversed = s.reversed ∧
      s'.capitalization = s.capitalization := by
  rcases bind_eq_pure h with ⟨balances, -, hs'⟩
  cases pure_inj hs'
  exact ⟨rfl, rfl, rfl⟩

/-- What the projection of a log knows: which entries exist, which were reversed, and where the
status of each run stands. -/
structure InStep (log : List (LedgerEvent α)) (s : LedgerState α) : Prop where
  entries : ∀ id, s.entries.contains id = true ↔ ∃ event ∈ log, event.Introduces id
  reversed : ∀ id, s.isReversed id = true ↔ ∃ event ∈ log, event.Reverses id
  capitalization : ∀ runId, (s.capitalizationStatus runId).getD .pendingReview =
    endStatus .pendingReview (statusChanges runId log)

theorem statusChanges_append (runId : RunId) (log log' : List (LedgerEvent α)) :
    statusChanges runId (log ++ log') = statusChanges runId log ++ statusChanges runId log' :=
  List.filterMap_append

theorem endStatus_append (status : CapitalizationStatus)
    (changes : List (CapitalizationStatus × CapitalizationStatus))
    (change : CapitalizationStatus × CapitalizationStatus) :
    endStatus status (changes ++ [change]) = change.2 := by
  simp [endStatus]

theorem endStatus_cons (status : CapitalizationStatus)
    (change : CapitalizationStatus × CapitalizationStatus)
    (changes : List (CapitalizationStatus × CapitalizationStatus)) :
    endStatus status (change :: changes) = endStatus change.2 changes := by
  cases hlast : changes.getLast? <;> simp [endStatus, List.getLast?_cons, hlast]

theorem statusChain_append (change : CapitalizationStatus × CapitalizationStatus) :
    ∀ (changes : List (CapitalizationStatus × CapitalizationStatus))
      (status : CapitalizationStatus), StatusChain status changes →
      change.1 = endStatus status changes → change.1 ≠ change.2 →
      StatusChain status (changes ++ [change])
  | [], status, _, hfrom, hne => ⟨hfrom, hne, trivial⟩
  | first :: rest, status, ⟨hfirst, hchanged, hrest⟩, hfrom, hne => by
      rw [endStatus_cons] at hfrom
      exact ⟨hfirst, hchanged, statusChain_append change rest first.2 hrest hfrom hne⟩

theorem exists_mem_append_singleton {log : List (LedgerEvent α)} {event : LedgerEvent α}
    {p : LedgerEvent α → Prop} :
    (∃ e ∈ log ++ [event], p e) ↔ p event ∨ ∃ e ∈ log, p e := by
  simp [or_and_right, exists_or, or_comm]

theorem InStep.applyEvent {log : List (LedgerEvent α)} {s s' : LedgerState α}
    {event : LedgerEvent α} (hs : InStep log s) (hevent : Permits s event)
    (h : applyEvent s event = (pure s' : m _)) : InStep (log ++ [event]) s' := by
  cases event with
  | journalEntryPosted newId lines dims postedAt =>
      rcases post_eq_pure h with ⟨hentries, hreversed, hcap⟩
      refine ⟨fun id => ?_, fun id => ?_, fun runId => ?_⟩
      · rw [hentries, SortedMap.contains_insert, Bool.or_eq_true, decide_eq_true_iff, hs.entries,
          exists_mem_append_singleton, @eq_comm _ id]
        exact Iff.rfl
      · have hold := hs.reversed id
        rw [exists_mem_append_singleton]
        simpa [LedgerState.isReversed, hreversed, LedgerEvent.Reverses] using hold
      · have hold := hs.capitalization runId
        simpa [LedgerState.capitalizationStatus, hcap, statusChanges] using hold
  | entryReversed originalId reversalId reason =>
      rcases hevent with ⟨hknown, -⟩
      rcases Option.isSome_iff_exists.1 hknown with ⟨original, horiginal⟩
      simp only [Falkr.applyEvent, horiginal] at h
      rcases bind_eq_pure h with ⟨posted, hpost, hs'⟩
      rcases post_eq_pure hpost with ⟨hentries, hreversed, hcap⟩
      cases pure_inj hs'
      refine ⟨fun id => ?_, fun id => ?_, fun runId => ?_⟩
      · rw [hentries, SortedMap.contains_insert, Bool.or_eq_true, decide_eq_true_iff, hs.entries,
          exists_mem_append_singleton, @eq_comm _ id]
        exact Iff.rfl
      · have hold := hs.reversed id
        rw [exists_mem_append_singleton, ← hold, LedgerState.isReversed, LedgerState.isReversed,
          SortedMap.contains_insert, hreversed, Bool.or_eq_true, decide_eq_true_iff,
          @eq_comm _ id]
        exact Iff.rfl
      · have hold := hs.capitalization runId
        simpa [LedgerState.capitalizationStatus, hcap, statusChanges] using hold
  | capitalizationStatusChanged changedRun fromStatus toStatus policyRef =>
      cases pure_inj h
      refine ⟨fun id => ?_, fun id => ?_, fun runId => ?_⟩
      · have hold := hs.entries id
        rw [exists_mem_append_singleton]
        simpa [LedgerEvent.Introduces] using hold
      · have hold := hs.reversed id
        rw [exists_mem_append_singleton]
        simpa [LedgerState.isReversed, LedgerEvent.Reverses] using hold
      · have hold := hs.capitalization runId
        rw [statusChanges_append]
        by_cases hrun : changedRun = runId
        -- The map holds the end of the run's own chain; other runs are not looked at.
        · have hone : statusChanges runId
              [LedgerEvent.capitalizationStatusChanged (α := α) changedRun fromStatus toStatus
                policyRef] = [(fromStatus, toStatus)] := by
            simp [statusChanges, hrun]
          rw [hone, endStatus_append]
          simp [LedgerState.capitalizationStatus, hrun]
        · have hnone : statusChanges runId
              [LedgerEvent.capitalizationStatusChanged (α := α) changedRun fromStatus toStatus
                policyRef] = [] := by
            simp [statusChanges, hrun]
          rw [hnone, List.append_nil, ← hold]
          simp [LedgerState.capitalizationStatus, Ne.symm hrun]

omit [Returning m] in
theorem WellFormedLog.append {log : List (LedgerEvent α)} {s : LedgerState α}
    {event : LedgerEvent α} (hlog : WellFormedLog (m := m) log) (hs : InStep log s)
    (hevent : Permits (m := m) s event) : WellFormedLog (m := m) (log ++ [event]) where
  posted := by
    intro id lines dims postedAt hmem
    rcases List.mem_append.1 hmem with hmem | hmem
    · exact hlog.posted id lines dims postedAt hmem
    · cases List.mem_singleton.1 hmem
      exact hevent
  reversed := by
    intro older originalId reversalId reason newer heq
    -- The reversal is the new event, which the state has checked, or one of the log before it.
    rcases List.eq_nil_or_concat newer with rfl | ⟨newer', last, rfl⟩
    · rcases List.append_inj' heq rfl with ⟨rfl, hlast⟩
      cases hlast
      rcases hevent with ⟨hknown, hrev⟩
      refine ⟨(hs.entries originalId).1 hknown, ?_⟩
      intro e he hreverses
      have htrue := (hs.reversed originalId).2 ⟨e, he, hreverses⟩
      rw [hrev] at htrue
      cases htrue
    · rw [List.concat_eq_append, ← List.cons_append, ← List.append_assoc] at heq
      rcases List.append_inj' heq rfl with ⟨hold, -⟩
      exact hlog.reversed older originalId reversalId reason newer' hold
  chained := by
    intro runId
    rw [statusChanges_append]
    have hold := hlog.chained runId
    cases event with
    | journalEntryPosted id lines dims postedAt => simpa [statusChanges] using hold
    | entryReversed originalId reversalId reason => simpa [statusChanges] using hold
    | capitalizationStatusChanged changedRun fromStatus toStatus policyRef =>
        -- The change starts where the run's chain ends, as the handler has read it from the map.
        by_cases hrun : changedRun = runId
        · rcases hevent with ⟨hfrom, hne⟩
          rw [hrun, hs.capitalization] at hfrom
          simpa [statusChanges, hrun] using
            statusChain_append (fromStatus, toStatus) _ _ hold hfrom hne
        · simpa [statusChanges, hrun] using hold

/-! ## Runs -/

variable [LawfulMonad m]

/-- One request keeps the maps in step and the log well formed. -/
theorem wellFormed_execute {log events : List (LedgerEvent α)} {s s' : LedgerState α}
    {request : Request α} (hs : InStep log s) (hlog : WellFormedLog (m := m) log)
    (h : execute s request = (pure (s', events) : m _)) :
    InStep (log ++ events) s' ∧ WellFormedLog (m := m) (log ++ events) := by
  rcases bind_eq_pure h with ⟨answer, hanswer, happly⟩
  cases answer with
  | error e =>
      cases pure_inj happly
      simpa using ⟨hs, hlog⟩
  | ok accepted =>
      rcases permits_of_handleCommand hanswer with ⟨event, rfl, hevent⟩
      rcases bind_eq_pure happly with ⟨applied, hreplay, hpair⟩
      cases pure_inj hpair
      have hstep : applyEvent s event = (pure s' : m _) := by
        simpa [replay] using hreplay
      exact ⟨hs.applyEvent hevent hstep, hlog.append hs hevent⟩

theorem wellFormed_run :
    ∀ (requests : List (Request α)) (log events : List (LedgerEvent α)) (s s' : LedgerState α),
      InStep log s → WellFormedLog (m := m) log → run s requests = (pure (s', events) : m _) →
      InStep (log ++ events) s' ∧ WellFormedLog (m := m) (log ++ events)
  | [], log, events, s, s', hs, hlog, h => by
      cases pure_inj h
      simpa using ⟨hs, hlog⟩
  | request :: rest, log, events, s, s', hs, hlog, h => by
      rcases bind_eq_pure h with ⟨⟨mid, first⟩, hfirst, hrest⟩
      rcases bind_eq_pure hrest with ⟨⟨last, later⟩, hlater, hpair⟩
      cases pure_inj hpair
      rcases wellFormed_execute hs hlog hfirst with ⟨hmid, hmidLog⟩
      rw [← List.append_assoc]
      exact wellFormed_run rest (log ++ first) later mid s' hmid hmidLog hlater

theorem inStep_default : InStep [] (LedgerState.default : LedgerState α) where
  entries := by simp [LedgerState.default, SortedMap.contains]
  reversed := by simp [LedgerState.default, LedgerState.isReversed, SortedMap.contains]
  capitalization := by
    simp [LedgerState.default, LedgerState.capitalizationStatus, statusChanges, endStatus]

omit [Returning m] [LawfulMonad m] in
theorem wellFormedLog_nil : WellFormedLog (m := m) ([] : List (LedgerEvent α)) where
  posted := by simp
  reversed := by simp
  chained := by simp [statusChanges, StatusChain]

/-- Every log a run writes is well formed, and in its replay an entry is reversed exactly if the
log says so. -/
theorem wellFormed_of_run {requests : List (Request α)} {s : LedgerState α}
    {log : List (LedgerEvent α)} (h : run LedgerState.default requests = (pure (s, log) : m _)) :
    WellFormedLog (m := m) log ∧ replay LedgerState.default log = (pure s : m _) ∧
      ∀ id, s.isReversed id = true ↔
        ∃ reversalId reason, .entryReversed id reversalId reason ∈ log := by
  rcases wellFormed_run requests [] log LedgerState.default s inStep_default wellFormedLog_nil h
    with ⟨hs, hlog⟩
  refine ⟨hlog, replay_of_run requests log _ s h, fun id => ?_⟩
  rw [hs.reversed]
  constructor
  · rintro ⟨event, hmem, hreverses⟩
    cases event with
    | entryReversed originalId reversalId reason => exact ⟨reversalId, reason, hreverses ▸ hmem⟩
    | journalEntryPosted _ _ _ _ => cases hreverses
    | capitalizationStatusChanged _ _ _ _ => cases hreverses
  · rintro ⟨reversalId, reason, hmem⟩
    exact ⟨_, hmem, rfl⟩

end Model

/-- A posting, its reversal and two status changes of one run, with a second reversal refused. -/
def shapeRequests : List (Request ℚ) :=
  [{ command := .postJournalEntry
      [{ account := ⟨10⟩, debit := some ⟨5, .eur⟩, credit := none, sourceUsageEventIds := [] },
        { account := ⟨11⟩, debit := none, credit := some ⟨5, .eur⟩, sourceUsageEventIds := [] }]
      (.new ⟨1⟩ ⟨2⟩ ⟨3⟩ ⟨4⟩ .rnD), newId := ⟨1⟩, now := ⟨0⟩ },
    { command := .reverseEntry ⟨1⟩ "duplicate", newId := ⟨2⟩, now := ⟨1⟩ },
    { command := .reverseEntry ⟨1⟩ "duplicate", newId := ⟨3⟩, now := ⟨2⟩ },
    { command := .changeCapitalizationStatus ⟨7⟩ .capitalized ⟨8⟩, newId := ⟨4⟩, now := ⟨3⟩ },
    { command := .changeCapitalizationStatus ⟨7⟩ .expensed ⟨8⟩, newId := ⟨5⟩, now := ⟨4⟩ }]

def shapeOutcome : LedgerState ℚ × List (LedgerEvent ℚ) :=
  (run LedgerState.default shapeRequests).run

theorem wellFormed_shapeOutcome :
    WellFormedLog shapeOutcome.2 ∧
      replay LedgerState.default shapeOutcome.2 = (pure shapeOutcome.1 : Id _) ∧
      ∀ id, shapeOutcome.1.isReversed id = true ↔
        ∃ reversalId reason, .entryReversed id reversalId reason ∈ shapeOutcome.2 :=
  @wellFormed_of_run Id ℚ _ _ _ _ shapeRequests shapeOutcome.1 shapeOutcome.2 rfl

example : shapeOutcome.2.length = 4 := by decide +kernel

end Falkr
