import Falkr.Events.Accepted
import Falkr.Events.Projection

/-!
# Boundary — runs are replays of accepted logs

`handleCommand` answers an accepted command with one event, and `Accepts` says which event that can
be in which state.  A run of requests is then the replay of the log it wrote, and every event of
that log was accepted in the state its predecessors left (`run_spec`).  The results about runs are
proved over accepted logs.
-/

namespace Falkr

open Lib

/-! ## The two subtotals -/

theorem sidedIn_of_oneSidedIn {c : Currency} {line : JournalLine ℚ} (h : OneSidedIn c line) :
    SidedIn c line := by
  rcases Option.map_eq_some_iff.1 h.currency with ⟨amount, hamount, rfl⟩
  exact sidedIn_of_signedAmount hamount

/-- The signed sum of one-sided lines is the difference of their two sides. -/
theorem sum_lineAmount_eq {c : Currency} :
    ∀ {lines : List (JournalLine ℚ)}, (∀ line ∈ lines, OneSidedIn c line) →
      (lines.map lineAmount).sum = (debitAmounts lines).sum - (creditAmounts lines).sum
  | [], _ => by simp [debitAmounts, creditAmounts]
  | ⟨account, debit, credit, sources⟩ :: rest, h => by
      rcases List.forall_mem_cons.1 h with ⟨⟨hside, -, -⟩, hrest⟩
      have ih := sum_lineAmount_eq hrest
      simp only [debitAmounts, creditAmounts] at ih
      cases debit with
      | none =>
          cases credit with
          | none => simp at hside
          | some k =>
              simp only [debitAmounts, creditAmounts, lineAmount, JournalLine.signedAmount,
                List.map_cons, List.sum_cons, List.filterMap_cons, Option.map_some, Option.map_none,
                Option.getD_some, Money.negate_amount, amount_neg_rat, ih]
              ring
      | some d =>
          cases credit with
          | none =>
              simp only [debitAmounts, creditAmounts, lineAmount, JournalLine.signedAmount,
                List.map_cons, List.sum_cons, List.filterMap_cons, Option.map_some, Option.map_none,
                Option.getD_some, ih]
              ring
          | some k => simp at hside

/-- When the loop gets through, every line was one-sided in the currency of the subtotals, and the
difference of the subtotals moved by the signed sum of the lines. -/
theorem subtotals_spec {c : Currency} (lines : List (JournalLine ℚ)) (debits credits : Money ℚ)
    (sums : Money ℚ × Money ℚ) (hd : debits.currency = c) (hc : credits.currency = c)
    (h : (subtotals lines debits credits).run = .ok sums) :
    AllSidedIn c lines ∧ sums.1.currency = c ∧ sums.2.currency = c ∧
      sums.1.amount - sums.2.amount =
        debits.amount - credits.amount + (lines.map lineAmount).sum := by
  rcases subtotals_eq_ok lines debits credits sums hd hc h with
    ⟨hall, hfirst, hsecond, hdebits, hcredits⟩
  refine ⟨fun line hline => sidedIn_of_oneSidedIn (hall line hline), hfirst, hsecond, ?_⟩
  have hdebit : debits.amount + (debitAmounts lines).sum = sums.1.amount :=
    (run_foldlM_add _ _).symm.trans (congrArg Id.run hdebits)
  have hcredit : credits.amount + (creditAmounts lines).sum = sums.2.amount :=
    (run_foldlM_add _ _).symm.trans (congrArg Id.run hcredits)
  rw [sum_lineAmount_eq hall]
  linarith

/-- Over exact rationals a well-formed entry is one whose signed amounts add up to zero. -/
theorem WellFormedEntry.balanced_rat {lines : List (JournalLine ℚ)} (h : WellFormedEntry lines) :
    ∃ c, Balanced c lines := by
  rcases h.sided with ⟨c, hall⟩
  refine ⟨c, h.nonempty, fun line hline => sidedIn_of_oneSidedIn (hall line hline), ?_⟩
  rw [sum_lineAmount_eq hall, h.sum_eq, sub_self]

/-! ## Accepted events -/

/-- The events an accepted command can answer with in a state. -/
def Accepts (s : LedgerState ℚ) : LedgerEvent ℚ → Prop
  | .journalEntryPosted _ lines _ _ => ∃ c, Balanced c lines
  | .entryReversed originalId _ _ =>
      s.entries.contains originalId = true ∧ s.isReversed originalId = false
  | .capitalizationStatusChanged runId fromStatus toStatus _ =>
      fromStatus = (s.capitalizationStatus runId).getD .pendingReview ∧ fromStatus ≠ toStatus

theorem balanced_of_handleCommand {s : LedgerState ℚ} {lines : List (JournalLine ℚ)}
    {dims : Dimensions} {newId : EntryId} {now : DateTimeUtc} {events : List (LedgerEvent ℚ)}
    (h : (handleCommand s (.postJournalEntry lines dims) newId now).run = .ok events) :
    (∃ c, Balanced c lines) ∧ events = [.journalEntryPosted newId lines dims now] := by
  rcases permits_of_postJournalEntry h with ⟨hevents, hentry⟩
  exact ⟨hentry.balanced_rat, hevents⟩

/-- An accepted command answers with one event, and it is one the state accepts. -/
theorem accepts_of_handleCommand {s : LedgerState ℚ} {command : LedgerCommand ℚ} {newId : EntryId}
    {now : DateTimeUtc} {events : List (LedgerEvent ℚ)}
    (h : (handleCommand s command newId now).run = .ok events) :
    ∃ event, events = [event] ∧ Accepts s event := by
  rcases permits_of_handleCommand h with ⟨event, hevents, hpermits⟩
  refine ⟨event, hevents, ?_⟩
  cases event with
  | journalEntryPosted id lines dims postedAt => exact WellFormedEntry.balanced_rat hpermits
  | entryReversed | capitalizationStatusChanged => exact hpermits

/-! ## Logs -/

/-- Every event of the log is accepted in the state its predecessors leave. -/
def AcceptedLog : LedgerState ℚ → List (LedgerEvent ℚ) → Prop
  | _, [] => True
  | s, event :: rest => Accepts s event ∧ AcceptedLog (applyEvent s event).run rest

theorem replay_append (s : LedgerState ℚ) (log log' : List (LedgerEvent ℚ)) :
    (replay s (log ++ log')).run = (replay (replay s log).run log').run := by
  simp [replay, List.foldlM_append]

theorem acceptedLog_append (log log' : List (LedgerEvent ℚ)) :
    ∀ s : LedgerState ℚ,
      AcceptedLog s (log ++ log') ↔ AcceptedLog s log ∧ AcceptedLog (replay s log).run log' := by
  induction log with
  | nil =>
      intro s
      simp [AcceptedLog, replay]
  | cons event rest ih =>
      intro s
      simp only [List.cons_append, AcceptedLog, ih, and_assoc]
      simp [replay]

/-- A request is rejected and changes nothing, or its one event is accepted and applied. -/
theorem execute_cases (s : LedgerState ℚ) (request : Request ℚ) :
    (∃ error, (handleCommand s request.command request.newId request.now).run = .error error ∧
        (execute s request).run = (s, [])) ∨
      ∃ event, (handleCommand s request.command request.newId request.now).run = .ok [event] ∧
        Accepts s event ∧ (execute s request).run = ((applyEvent s event).run, [event]) := by
  cases h : (handleCommand s request.command request.newId request.now).run with
  | error e => exact Or.inl ⟨e, rfl, by simp [execute, h]⟩
  | ok events =>
      rcases accepts_of_handleCommand h with ⟨event, rfl, hacc⟩
      exact Or.inr ⟨event, rfl, hacc, by simp [execute, h, replay]⟩

/-- Executing a request replays the events it writes, which the state accepts. -/
theorem execute_spec (s : LedgerState ℚ) (request : Request ℚ) :
    (execute s request).run.1 = (replay s (execute s request).run.2).run ∧
      AcceptedLog s (execute s request).run.2 := by
  rcases execute_cases s request with ⟨error, -, heq⟩ | ⟨event, -, hacc, heq⟩
  · simp [heq, replay, AcceptedLog]
  · simp [heq, replay, AcceptedLog, hacc]

/-- A run is the replay of the log it wrote, and the log is an accepted one. -/
theorem run_spec :
    ∀ (requests : List (Request ℚ)) (s : LedgerState ℚ),
      (run s requests).run.1 = (replay s (run s requests).run.2).run ∧
        AcceptedLog s (run s requests).run.2
  | [], s => by simp [run, replay, AcceptedLog]
  | request :: rest, s => by
      rcases execute_spec s request with ⟨hstate, hlog⟩
      rcases run_spec rest (execute s request).run.1 with ⟨ihstate, ihlog⟩
      simp only [run, Id.run_bind, Id.run_pure]
      -- The state after the first request is where the rest of the log is replayed and accepted.
      rw [replay_append, ← hstate, acceptedLog_append, ← hstate]
      exact ⟨ihstate, hlog, ihlog⟩

theorem run_cons (s : LedgerState ℚ) (request : Request ℚ) (rest : List (Request ℚ)) :
    (run s (request :: rest)).run =
      ((run (execute s request).run.1 rest).run.1,
        (execute s request).run.2 ++ (run (execute s request).run.1 rest).run.2) := by
  simp [run]

theorem run_eq {s s' : LedgerState ℚ} {requests : List (Request ℚ)} {log : List (LedgerEvent ℚ)}
    (h : (run s requests).run = (s', log)) : s' = (replay s log).run ∧ AcceptedLog s log := by
  have hspec := run_spec requests s
  rwa [h] at hspec

theorem execute_eq {s s' : LedgerState ℚ} {request : Request ℚ} {log : List (LedgerEvent ℚ)}
    (h : (execute s request).run = (s', log)) : s' = (replay s log).run ∧ AcceptedLog s log := by
  have hspec := execute_spec s request
  rwa [h] at hspec

end Falkr
