import Falkr.Events.Overflow
import Falkr.Testkit.Recorded

/-!
# ValidatedRun — what a scenario without defects can still run into

Validation looks at the accounts and the sides of the lines; amounts, line currencies, references
and statuses are first read when their operation is run.  So a validated scenario ends as the
ledger decides exactly when every operation the run comes to is readable, and its sums stay in the
range of the decimal (`endsAsDecided_iff`).
-/

namespace Falkr

open Lib

/-- The error reports what the ledger decided. -/
def RunError.isVerdict {α : Type} : RunError α → Bool
  | .rejected _ _ => true
  | .expectedRejection _ _ => true
  | .param _ _ => false
  | .unknownAccount _ _ => false
  | .badOperation _ _ => false

namespace Runner

section Model

variable {α : Type} {lib : Externals α} {chart : ChartOfAccounts} {scenario : Scenario}
  {currency : Currency}

/-! ## Errors of the handlers -/

/-- No error of the computation is the ledger's. -/
def NoVerdict {β : Type} (x : Except (RunError α) β) : Prop :=
  ∀ e, x = .error e → e.isVerdict = false

theorem noVerdict_ok {β : Type} (b : β) : NoVerdict (.ok b : Except (RunError α) β) := by
  intro e h
  cases h

theorem noVerdict_error {β : Type} {e : RunError α} (h : e.isVerdict = false) :
    NoVerdict (.error e : Except (RunError α) β) := by
  intro e' heq
  cases heq
  exact h

theorem NoVerdict.bind {β γ : Type} {x : Except (RunError α) β} {f : β → Except (RunError α) γ}
    (hx : NoVerdict x) (hf : ∀ b, NoVerdict (f b)) : NoVerdict (x >>= f) := by
  cases x with
  | error e => exact fun e' heq => hx e' (by simpa [Bind.bind, Except.bind] using heq)
  | ok b => exact hf b

theorem noVerdict_param (op : Operation) (name : String) :
    NoVerdict (param scenario op name : Except (RunError α) String) := by
  unfold param
  split
  · exact noVerdict_ok _
  · exact noVerdict_error rfl

theorem noVerdict_mapM (raw : Option String) :
    NoVerdict (raw.mapM (lineAmount lib scenario currency)) := by
  cases raw with
  | none => exact noVerdict_ok _
  | some text =>
      rw [Option.mapM_some]
      refine NoVerdict.bind ?_ fun _ => noVerdict_ok _
      unfold lineAmount
      split
      · exact noVerdict_ok _
      · exact noVerdict_error rfl

theorem noVerdict_journalLine (id : AccountId) (line : ScenarioLine) :
    NoVerdict (journalLine lib scenario id line currency) := by
  refine NoVerdict.bind ?_ fun c => (noVerdict_mapM line.debit).bind fun debit =>
    (noVerdict_mapM line.credit).bind fun credit => noVerdict_ok _
  unfold lineCurrency
  split
  · split
    · exact noVerdict_ok _
    · exact noVerdict_error rfl
  · exact noVerdict_ok _

theorem noVerdict_buildLines :
    ∀ (raw : List ScenarioLine) (labels : SortedMap AccountId String),
      NoVerdict (buildLines lib chart scenario currency raw labels)
  | [], labels => noVerdict_ok _
  | line :: rest, labels => by
      unfold buildLines
      split
      · exact noVerdict_error rfl
      · exact (noVerdict_journalLine _ line).bind fun built =>
          (noVerdict_buildLines rest _).bind fun _ => noVerdict_ok _

theorem noVerdict_buildCommand (op : Operation) (entries : List (EntryRecord α))
    (labels : SortedMap AccountId String) :
    NoVerdict (buildCommand lib chart scenario currency op entries labels) := by
  unfold buildCommand
  split
  · refine NoVerdict.bind ?_ fun _ => noVerdict_ok _
    unfold journalLines
    split
    · exact noVerdict_error rfl
    · exact noVerdict_buildLines _ _
  · refine NoVerdict.bind ?_ fun _ => noVerdict_ok _
    unfold reverseEntry
    split
    · rename_i e heq
      exact noVerdict_error (noVerdict_param op "ref" e heq)
    · split
      · exact noVerdict_ok _
      · exact noVerdict_error rfl
  · refine NoVerdict.bind ?_ fun _ => noVerdict_ok _
    refine (noVerdict_param op "run").bind fun run => ?_
    refine (noVerdict_param op "to").bind fun stored => ?_
    split
    · exact noVerdict_ok _
    · exact noVerdict_error rfl
  · exact noVerdict_error rfl

/-! ## Readable operations -/

/-- The texts of a line can be read. -/
structure ReadableLine (lib : Externals α) (line : ScenarioLine) : Prop where
  currency : ∀ code, line.currency = some code → ∃ c, Currency.fromCode code = some c
  debit : ∀ text, line.debit = some text → ∃ value, lib.fromStrExact text = .ok value
  credit : ∀ text, line.credit = some text → ∃ value, lib.fromStrExact text = .ok value

/-- The parameters of an operation can be read, after these entries have been recorded. -/
structure Readable (lib : Externals α) (op : Operation) (entries : List (EntryRecord α)) :
    Prop where
  post : op.kind = "post_entry" → ∀ lines, op.lines lib = .ok lines →
    ∀ line ∈ lines, ReadableLine lib line
  reverse : op.kind = "reverse_entry" → ∃ target, op.optStrParam "ref" = some target ∧
    ∃ entry ∈ entries, entry.entryRef = some target
  capitalize : op.kind = "set_capitalization" → (∃ run, op.optStrParam "run" = some run) ∧
    ∃ stored, op.optStrParam "to" = some stored ∧
      ∃ status, CapitalizationStatus.fromStored stored = some status

theorem exists_ok_bind {ε β γ : Type} {x : Except ε β} {f : β → Except ε γ} :
    (∃ c, (x >>= f) = .ok c) ↔ ∃ b, x = .ok b ∧ ∃ c, f b = .ok c := by
  cases x with
  | error e => simp [Bind.bind, Except.bind]
  | ok b => simp [Bind.bind, Except.bind]

theorem param_eq_ok_iff (op : Operation) (name : String) (value : String) :
    (param scenario op name : Except (RunError α) String) = .ok value ↔
      op.optStrParam name = some value := by
  unfold param Operation.strParam Operation.optStrParam
  cases (op.params.get? name).bind Toml.asStr <;> simp

theorem exists_mapM_iff (scenario : Scenario) (currency : Currency) (raw : Option String) :
    (∃ amount, raw.mapM (lineAmount lib scenario currency) = .ok amount) ↔
      ∀ text, raw = some text → ∃ value, lib.fromStrExact text = .ok value := by
  cases raw with
  | none => simp [pure, Except.pure]
  | some text =>
      rw [Option.mapM_some]
      cases hread : lib.fromStrExact text <;>
        simp [lineAmount, hread, Functor.map, Except.map]

theorem exists_journalLine_iff (id : AccountId) (line : ScenarioLine) :
    (∃ built, journalLine lib scenario id line currency = .ok built) ↔ ReadableLine lib line := by
  have hcurrency : (∃ c, lineCurrency lib scenario line currency = .ok c) ↔
      ∀ code, line.currency = some code → ∃ c, Currency.fromCode code = some c := by
    unfold lineCurrency
    cases hcode : line.currency with
    | none => simp
    | some code => cases hread : Currency.fromCode code <;> simp [hread]
  constructor
  · rintro ⟨built, hbuilt⟩
    rcases bind_eq_ok hbuilt with ⟨c, hc, hrest⟩
    rcases bind_eq_ok hrest with ⟨debit, hdebit, hrest⟩
    rcases bind_eq_ok hrest with ⟨credit, hcredit, -⟩
    exact ⟨hcurrency.1 ⟨c, hc⟩, (exists_mapM_iff _ _ _).1 ⟨debit, hdebit⟩,
      (exists_mapM_iff _ _ _).1 ⟨credit, hcredit⟩⟩
  · intro hline
    rcases hcurrency.2 hline.currency with ⟨c, hc⟩
    rcases (exists_mapM_iff scenario c line.debit).2 hline.debit with ⟨debit, hdebit⟩
    rcases (exists_mapM_iff scenario c line.credit).2 hline.credit with ⟨credit, hcredit⟩
    exact exists_ok_bind.2 ⟨c, hc, exists_ok_bind.2 ⟨debit, hdebit,
      exists_ok_bind.2 ⟨credit, hcredit, _, rfl⟩⟩⟩

theorem exists_buildLines_iff :
    ∀ (raw : List ScenarioLine) (labels : SortedMap AccountId String),
      (∀ line ∈ raw, ∃ account, chart.resolve line.account = some account) →
      ((∃ built, buildLines lib chart scenario currency raw labels = .ok built) ↔
        ∀ line ∈ raw, ReadableLine lib line)
  | [], labels, _ => by simp [buildLines]
  | line :: rest, labels, h => by
      rcases List.forall_mem_cons.1 h with ⟨⟨account, hresolve⟩, hrest⟩
      let id := accountId lib account.code
      have ih := exists_buildLines_iff rest (labels.insert id account.label) hrest
      unfold buildLines
      simp only [hresolve, exists_ok_bind]
      rw [List.forall_mem_cons, ← exists_journalLine_iff id line, ← ih]
      constructor
      · rintro ⟨built, hbuilt, later, hlater, -⟩
        exact ⟨⟨built, hbuilt⟩, later, hlater⟩
      · rintro ⟨⟨built, hbuilt⟩, later, hlater⟩
        exact ⟨built, hbuilt, later, hlater, _, rfl⟩

theorem exists_reverseEntry_iff (op : Operation) (entries : List (EntryRecord α)) :
    (∃ command, reverseEntry lib scenario op entries = .ok command) ↔
      ∃ target, op.optStrParam "ref" = some target ∧
        ∃ entry ∈ entries, entry.entryRef = some target := by
  have hfind : ∀ target, (∃ original, findRef entries target = some original) ↔
      ∃ entry ∈ entries, entry.entryRef = some target := by
    intro target
    rw [← Option.isSome_iff_exists, findRef, List.find?_isSome]
    simp
  simp only [← hfind]
  unfold reverseEntry
  cases hparam : (param scenario op "ref" : Except (RunError α) String) with
  | error e =>
      have hnone : ∀ target, op.optStrParam "ref" ≠ some target := by
        intro target htarget
        rw [(param_eq_ok_iff op "ref" target).2 htarget] at hparam
        cases hparam
      simp [hnone]
  | ok target =>
      have htarget := (param_eq_ok_iff op "ref" target).1 hparam
      cases horiginal : findRef entries target <;> simp [htarget, horiginal]

theorem exists_setCapitalization_iff (op : Operation) :
    (∃ command, setCapitalization lib scenario op = .ok command) ↔
      (∃ run, op.optStrParam "run" = some run) ∧
        ∃ stored, op.optStrParam "to" = some stored ∧
          ∃ status, CapitalizationStatus.fromStored stored = some status := by
  unfold setCapitalization
  rw [exists_ok_bind]
  simp only [exists_ok_bind, param_eq_ok_iff]
  constructor
  · rintro ⟨run, hrun, stored, hstored, command, hcommand⟩
    refine ⟨⟨run, hrun⟩, stored, hstored, ?_⟩
    cases hstatus : CapitalizationStatus.fromStored stored with
    | none => simp [hstatus] at hcommand
    | some status => exact ⟨status, rfl⟩
  · rintro ⟨⟨run, hrun⟩, stored, hstored, status, hstatus⟩
    refine ⟨run, hrun, stored, hstored, ?_⟩
    rw [hstatus]
    exact ⟨_, rfl⟩

/-- In a validated scenario a command can be built exactly from a readable operation. -/
theorem exists_buildCommand_iff {op : Operation} (hdeliverable : deliverable op = true)
    (haccounts : op.kind = "post_entry" → ∃ lines, op.lines lib = .ok lines ∧
      ∀ line ∈ lines, ∃ account, chart.resolve line.account = some account)
    (entries : List (EntryRecord α)) (labels : SortedMap AccountId String) :
    (∃ built, buildCommand lib chart scenario currency op entries labels = .ok built) ↔
      Readable lib op entries := by
  obtain ⟨found, hfound, hdelivered⟩ : ∃ found, Catalog.spec op.kind = some found ∧
      found.phase.isDelivered = true := by
    unfold deliverable at hdeliverable
    cases hspec : Catalog.spec op.kind with
    | none => simp [hspec] at hdeliverable
    | some found => exact ⟨found, rfl, by simpa [hspec] using hdeliverable⟩
  have hpaired : ∀ {β γ : Type} {x : Except (RunError α) β} {f : β → γ},
      (∃ built, (x >>= fun b => pure (f b)) = .ok built) ↔ ∃ b, x = .ok b := by
    intro β γ x f
    rw [exists_ok_bind]
    exact ⟨fun ⟨b, hb, _⟩ => ⟨b, hb⟩, fun ⟨b, hb⟩ => ⟨b, hb, _, rfl⟩⟩
  unfold buildCommand
  rcases Catalog.kind_of_delivered hfound hdelivered with hkind | hkind | hkind
  -- Validation has parsed the lines and resolved their accounts.
  · rcases haccounts hkind with ⟨lines, hlines, hresolve⟩
    have hreadable : Readable lib op entries ↔ ∀ line ∈ lines, ReadableLine lib line := by
      refine ⟨fun h => h.post hkind lines hlines, fun h => ⟨fun _ lines' hlines' => ?_, ?_, ?_⟩⟩
      · rw [hlines] at hlines'
        cases hlines'
        exact h
      · simp [hkind]
      · simp [hkind]
    rw [hreadable, ← exists_buildLines_iff lines labels hresolve]
    unfold journalLines
    simp only [hkind, hlines]
    exact hpaired
  · have hreadable : Readable lib op entries ↔ ∃ target, op.optStrParam "ref" = some target ∧
        ∃ entry ∈ entries, entry.entryRef = some target :=
      ⟨fun h => h.reverse hkind, fun h => ⟨by simp [hkind], fun _ => h, by simp [hkind]⟩⟩
    rw [hreadable, ← exists_reverseEntry_iff op entries]
    simp only [hkind]
    exact hpaired
  · have hreadable : Readable lib op entries ↔ (∃ run, op.optStrParam "run" = some run) ∧
        ∃ stored, op.optStrParam "to" = some stored ∧
          ∃ status, CapitalizationStatus.fromStored stored = some status :=
      ⟨fun h => h.capitalize hkind, fun h => ⟨by simp [hkind], by simp [hkind], fun _ => h⟩⟩
    rw [hreadable, ← exists_setCapitalization_iff op]
    simp only [hkind]
    exact hpaired

end Model

/-! ## Runs on the machine decimal -/

section Runs

variable (lib : Externals Decimal) (chart : ChartOfAccounts) (scenario : Scenario)
  (currency : Currency) (draws : Draws)

/-- What the run comes to before the operation at an index. -/
inductive Reached : Nat → Progress Decimal → Prop
  | start : Reached 0 start
  | step {index : Nat} {op : Operation} {p p' : Progress Decimal} :
      Reached index p → scenario.operations[index]? = some op →
      runOperation lib chart scenario currency draws index op p = some (.ok p') →
      Reached (index + 1) p'

/-- The sums formed for an operation stay in range.  An operation that is expected to be rejected
is never posted. -/
def SumsFit (index : Nat) (op : Operation) (p : Progress Decimal) : Prop :=
  ∀ command labels,
    buildCommand lib chart scenario currency op p.entries p.labels = .ok (command, labels) →
      if op.expectRejection = true then CommandFits command
      else StepFits p.state
        { command := command, newId := draws.newId index, now := draws.now index }

/-- The computation returns, and an error of it is a verdict of the ledger. -/
def Answered {β : Type} (result : Option (Except (RunError Decimal) β)) : Prop :=
  ∃ answer, result = some answer ∧ ∀ e, answer = .error e → e.isVerdict = true

variable {lib chart scenario currency draws}

theorem answered_ok {β : Type} (b : β) :
    Answered (some (.ok b) : Option (Except (RunError Decimal) β)) :=
  ⟨_, rfl, fun e h => by cases h⟩

theorem answered_error {β : Type} (e : RunError Decimal) :
    Answered (some (.error e) : Option (Except (RunError Decimal) β)) ↔ e.isVerdict = true := by
  constructor
  · rintro ⟨answer, hanswer, hverdict⟩
    cases hanswer
    exact hverdict e rfl
  · intro he
    refine ⟨_, rfl, fun e' h => ?_⟩
    cases h
    exact he

theorem not_answered_none {β : Type} :
    ¬Answered (none : Option (Except (RunError Decimal) β)) := by
  rintro ⟨answer, hanswer, -⟩
  cases hanswer

/-- Once its command is built, an operation is answered when its sums fit. -/
theorem answered_of_buildCommand {index : Nat} {op : Operation} {p : Progress Decimal}
    (hs : EntriesInCurrency p.state) {command : LedgerCommand Decimal}
    {labels : SortedMap AccountId String}
    (hbuild : buildCommand lib chart scenario currency op p.entries p.labels =
      .ok (command, labels)) :
    Answered (runOperation lib chart scenario currency draws index op p) ↔
      SumsFit lib chart scenario currency draws index op p := by
  let request : Request Decimal :=
    { command := command, newId := draws.newId index, now := draws.now index }
  have hsums : SumsFit lib chart scenario currency draws index op p ↔
      if op.expectRejection = true then CommandFits command else StepFits p.state request := by
    refine ⟨fun h => h command labels hbuild, fun h command' labels' hbuild' => ?_⟩
    rw [hbuild] at hbuild'
    cases hbuild'
    exact h
  -- A panic of the command or of the posting leaves no answer at all.
  rw [hsums, ← handleCommand_isSome_iff p.state command (draws.newId index) (draws.now index),
    ← execute_isSome_iff hs request]
  unfold runOperation
  simp only [hbuild]
  cases hhandle : handleCommand p.state command (draws.newId index) (draws.now index) with
  | none =>
      cases op.expectRejection <;> simp [Falkr.execute, request, hhandle, not_answered_none]
  | some result =>
      cases result with
      | error error =>
          cases op.expectRejection with
          | true => simp [answered_ok]
          | false => simp [Falkr.execute, request, hhandle, answered_error, RunError.isVerdict]
      | ok produced =>
          cases op.expectRejection with
          | true => simp [answered_error, RunError.isVerdict]
          | false =>
              rcases accepted_spec hs hhandle with ⟨event, c, rfl, -⟩
              cases happly : applyEvent p.state event with
              | none =>
                  simp [Falkr.execute, request, hhandle, replay, happly, absorb, not_answered_none]
              | some state =>
                  simp [Falkr.execute, request, hhandle, replay, happly, absorb, answered_ok]

theorem entriesInCurrency_of_labels {labels : SortedMap AccountId String} {s : LedgerState Decimal}
    (h : Labels lib chart labels s) : EntriesInCurrency s := by
  intro id lines hget
  rcases (h.entered id lines hget).sided with ⟨c, hsided⟩
  exact ⟨c, fun line hline => exists_signedAmount (hsided line hline).currency⟩

theorem Reached.labels {index : Nat} {p : Progress Decimal}
    (h : Reached lib chart scenario currency draws index p) :
    Labels lib chart p.labels p.state := by
  induction h with
  | start =>
      exact ⟨by simp [Runner.start, LedgerState.default],
        by simp [Runner.start, LedgerState.default],
        by simp [Runner.start, LedgerState.default, LedgerState.balance]⟩
  | step hreached hop hstep ih => exact ih.stepped (stepped_of_runOperation (m := Option) hstep)

theorem Reached.runOperations_eq {index : Nat} {p : Progress Decimal}
    (h : Reached lib chart scenario currency draws index p) :
    runOperations lib chart scenario currency draws 0 scenario.operations Runner.start =
      runOperations lib chart scenario currency draws index (scenario.operations.drop index) p := by
  induction h with
  | start => rfl
  | @step index op p p' hreached hop hstep ih =>
      rw [ih, drop_eq_cons hop]
      simp [runOperations, hstep]

/-- A run is answered exactly when every operation it comes to is. -/
theorem answered_runOperations_iff :
    Answered (runOperations lib chart scenario currency draws 0 scenario.operations start) ↔
      ∀ index op p, Reached lib chart scenario currency draws index p →
        scenario.operations[index]? = some op →
          Answered (runOperation lib chart scenario currency draws index op p) := by
  constructor
  · intro hrun index op p hreached hop
    rw [hreached.runOperations_eq, drop_eq_cons hop] at hrun
    -- If the operation fails here, so does the run that comes to it.
    cases hstep : runOperation lib chart scenario currency draws index op p with
    | none =>
        simp only [runOperations, hstep] at hrun
        exact absurd hrun not_answered_none
    | some result =>
        cases result with
        | ok p' => exact answered_ok p'
        | error e =>
            simp only [runOperations, hstep] at hrun
            exact (answered_error e).2 ((answered_error e).1 hrun)
  · intro hall
    -- From any point the run comes to, over the operations that remain.
    have hgo : ∀ (ops : List Operation) (index : Nat) (p : Progress Decimal),
        scenario.operations.drop index = ops →
        Reached lib chart scenario currency draws index p →
          Answered (runOperations lib chart scenario currency draws index ops p) := by
      intro ops
      induction ops with
      | nil => exact fun index p _ _ => answered_ok p
      | cons op rest ih =>
          intro index p hdrop hreached
          have hop := getElem?_of_drop hdrop
          rcases hall index op p hreached hop with ⟨answer, hanswer, hverdict⟩
          cases answer with
          | error e =>
              simp only [runOperations, hanswer]
              exact (answered_error e).2 (hverdict e rfl)
          | ok p' =>
              simp only [runOperations, hanswer]
              exact ih (index + 1) p' (drop_succ_of_drop hdrop) (.step hreached hop hanswer)
    exact hgo scenario.operations 0 start rfl .start

/-! ## Validated scenarios -/

/-- The scenario was executed, or the ledger decided on an operation otherwise than it declares. -/
def EndsAsDecided (result : Option (Except (RunError Decimal) (RunOutcome Decimal))) : Prop :=
  (∃ run, result = some (.ok (.executed run))) ∨
    (∃ id error, result = some (.error (.rejected id error))) ∨
      ∃ id index, result = some (.error (.expectedRejection id index))

/-- Every operation that the run comes to can be read, and its sums stay in range. -/
def Runnable (lib : Externals Decimal) (chart : ChartOfAccounts) (scenario : Scenario)
    (draws : Draws) : Prop :=
  ∀ currency index op p, Currency.fromCode scenario.setup.functionalCcy = some currency →
    Reached lib chart scenario currency draws index p → scenario.operations[index]? = some op →
      Readable lib op p.entries ∧ SumsFit lib chart scenario currency draws index op p

theorem answered_runOperation_iff
    (hchecked : scenario.Checked lib chart) {index : Nat} {op : Operation} {p : Progress Decimal}
    (hreached : Reached lib chart scenario currency draws index p)
    (hop : scenario.operations[index]? = some op) (hdeliverable : deliverable op = true) :
    Answered (runOperation lib chart scenario currency draws index op p) ↔
      Readable lib op p.entries ∧ SumsFit lib chart scenario currency draws index op p := by
  have hreadable : (∃ built, buildCommand lib chart scenario currency op p.entries p.labels =
      .ok built) ↔ Readable lib op p.entries :=
    exists_buildCommand_iff hdeliverable (hchecked.accounts op (List.mem_of_getElem? hop))
      p.entries p.labels
  cases hbuild : buildCommand lib chart scenario currency op p.entries p.labels with
  | ok built =>
      rw [answered_of_buildCommand (entriesInCurrency_of_labels hreached.labels) hbuild]
      exact ⟨fun hfits => ⟨hreadable.1 ⟨built, hbuild⟩, hfits⟩, fun h => h.2⟩
  | error e =>
      -- No command could be built, and the error is none of the ledger's.
      have hno : ¬Readable lib op p.entries := by
        rw [← hreadable, hbuild]
        simp
      have hverdict := noVerdict_buildCommand op p.entries p.labels e hbuild
      have hresult : runOperation lib chart scenario currency draws index op p =
          some (.error e) := by
        simp [runOperation, hbuild]
      rw [hresult, answered_error, hverdict]
      simp [hno]

/-- A scenario without defects ends as the ledger decides exactly when it is runnable. -/
theorem endsAsDecided_iff {self : Runner}
    (hvalid : scenario.validate (m := Option) lib self.chart = [])
    (hready : scenario.metadata.status ≠ .blocked)
    (hdeliverable : ∀ op ∈ scenario.operations, deliverable op = true) :
    EndsAsDecided (self.run lib scenario draws) ↔ Runnable lib self.chart scenario draws := by
  have hchecked := Scenario.checked_of_validate (m := Option) hvalid
  rcases hchecked.currency with ⟨currency, hcurrency⟩
  have hrunnable : Runnable lib self.chart scenario draws ↔ Answered (runOperations lib self.chart
      scenario currency draws 0 scenario.operations start) := by
    rw [answered_runOperations_iff]
    constructor
    · intro h index op p hreached hop
      exact (answered_runOperation_iff hchecked hreached hop
        (hdeliverable op (List.mem_of_getElem? hop))).2
          (h currency index op p hcurrency hreached hop)
    · intro h currency' index op p hcurrency' hreached hop
      cases hcurrency.symm.trans hcurrency'
      exact (answered_runOperation_iff hchecked hreached hop
        (hdeliverable op (List.mem_of_getElem? hop))).1 (h index op p hreached hop)
  rw [hrunnable]
  -- Nothing is deferred, so the operations are run.
  rw [run_of_deliverable hready hdeliverable]
  simp only [execute, hcurrency]
  cases hresult : runOperations lib self.chart scenario currency draws 0 scenario.operations
      start with
  | none => simp [EndsAsDecided, not_answered_none]
  | some result =>
      cases result with
      | ok p => simp [EndsAsDecided, answered_ok]
      | error e => cases e <;> simp [EndsAsDecided, answered_error, RunError.isVerdict]

end Runs

/-- A sale of an amount, expected to be one of 1000.00. -/
def sale (amount : String) : Scenario :=
  cashSale [postEntry (saleLines amount) []] "1000.00" "-1000.00"

/-- Validation never reads the amounts of the lines. -/
theorem not_endsAsDecided_sale :
    (sale "n/a").validate (m := Option) decimalExternals smallChart = [] ∧
      (sale "n/a").metadata.status ≠ .blocked ∧
      (∀ op ∈ (sale "n/a").operations, deliverable op = true) ∧
      Runner.run decimalExternals { chart := smallChart } (sale "n/a") countingDraws =
        some (.error (.badOperation "core-001-cash-sale"
          "\"n/a\" is not an exact decimal: Invalid decimal: unknown character")) ∧
      ¬EndsAsDecided
        (Runner.run decimalExternals { chart := smallChart } (sale "n/a") countingDraws) := by
  have hrun : Runner.run decimalExternals { chart := smallChart } (sale "n/a") countingDraws =
      some (.error (.badOperation "core-001-cash-sale"
        "\"n/a\" is not an exact decimal: Invalid decimal: unknown character")) := by
    decide +kernel
  have hvalid : (sale "n/a").validate (m := Option) decimalExternals smallChart = [] :=
    Scenario.validate_eq_nil_iff.2 ⟨checkDocumentation_cashSale _ _ _, by decide +kernel⟩
  refine ⟨hvalid, by decide, by decide +kernel, hrun, ?_⟩
  rw [hrun]
  simp [EndsAsDecided]

theorem runnable_sale :
    Runnable decimalExternals smallChart (sale "1000.00") countingDraws := by
  have hvalid : (sale "1000.00").validate (m := Option) decimalExternals smallChart = [] :=
    Scenario.validate_eq_nil_iff.2 ⟨checkDocumentation_cashSale _ _ _, by decide +kernel⟩
  have hrun := run_of_decimalRun
    (Option.some_get (x := decimalRun (sale "1000.00")) (by decide +kernel)).symm
  exact (@endsAsDecided_iff _ _ _ { chart := smallChart } hvalid (by decide)
    (by decide +kernel)).1 (Or.inl ⟨_, hrun⟩)

end Runner

end Falkr
