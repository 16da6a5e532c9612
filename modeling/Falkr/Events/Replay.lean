import Falkr.Events.Invariant

/-!
# Replay — the projection is a plain sum over the log

`eventLines` reads the lines of an event off the log alone: those of a reversal are the lines of
the entry it names, with debit and credit swapped, however long the chain of reversals is.  When
every account is kept in one currency, a balance is the sum of those lines (`balance_run_eq_sum`),
so it does not depend on the order of entries that do not refer to each other.
-/

namespace Falkr

open Lib

/-! ## Reading the log -/

/-- The lines of an entry, looked up in a log whose newest event comes first. -/
def newestLines : List (LedgerEvent ℚ) → EntryId → Option (List (JournalLine ℚ))
  | [], _ => none
  | .journalEntryPosted id' lines _ _ :: older, id =>
      if id = id' then some lines else newestLines older id
  | .entryReversed originalId reversalId _ :: older, id =>
      if id = reversalId then (newestLines older originalId).map mirror
      else newestLines older id
  | .capitalizationStatusChanged _ _ _ _ :: older, id => newestLines older id

/-- The lines of an entry of the log. -/
def entryLines (log : List (LedgerEvent ℚ)) (id : EntryId) : Option (List (JournalLine ℚ)) :=
  newestLines log.reverse id

/-- The lines an event of the log stands for. -/
def eventLines (log : List (LedgerEvent ℚ)) : LedgerEvent ℚ → List (JournalLine ℚ)
  | .journalEntryPosted _ lines _ _ => lines
  | .entryReversed originalId _ _ => ((entryLines log originalId).map mirror).getD []
  | .capitalizationStatusChanged _ _ _ _ => []

/-- What the lines of the log's events add up to on one account. -/
def logSum (log : List (LedgerEvent ℚ)) (a : AccountId) : ℚ :=
  (log.map fun event => accountSum (eventLines log event) a).sum

/-- Every line of the entry an event posts is in its account's currency. -/
def InCurrencies (currencyOf : AccountId → Currency) : LedgerEvent ℚ → Prop
  | .journalEntryPosted _ lines _ _ =>
      ∀ line ∈ lines, ∀ amount ∈ line.signedAmount, amount.currency = currencyOf line.account
  | _ => True

instance (currencyOf : AccountId → Currency) :
    (event : LedgerEvent ℚ) → Decidable (InCurrencies currencyOf event)
  | .journalEntryPosted _ lines _ _ => inferInstanceAs (Decidable (∀ line ∈ lines,
      ∀ amount ∈ line.signedAmount, amount.currency = currencyOf line.account))
  | .entryReversed _ _ _ => inferInstanceAs (Decidable True)
  | .capitalizationStatusChanged _ _ _ _ => inferInstanceAs (Decidable True)

theorem entryLines_append_singleton (log : List (LedgerEvent ℚ)) (event : LedgerEvent ℚ)
    (id : EntryId) :
    entryLines (log ++ [event]) id =
      match event with
      | .journalEntryPosted id' lines _ _ => if id = id' then some lines else entryLines log id
      | .entryReversed originalId reversalId _ =>
          if id = reversalId then (entryLines log originalId).map mirror else entryLines log id
      | .capitalizationStatusChanged _ _ _ _ => entryLines log id := by
  cases event <;> simp [entryLines, newestLines]

theorem entryLines_append_of_ne {log : List (LedgerEvent ℚ)} {event : LedgerEvent ℚ} {id : EntryId}
    (h : introduces event ≠ some id) : entryLines (log ++ [event]) id = entryLines log id := by
  rw [entryLines_append_singleton]
  cases event with
  | journalEntryPosted id' lines dims postedAt =>
      have hne : id ≠ id' := fun heq => h (by simp [introduces, heq])
      simp [hne]
  | entryReversed originalId reversalId reason =>
      have hne : id ≠ reversalId := fun heq => h (by simp [introduces, heq])
      simp [hne]
  | capitalizationStatusChanged runId fromStatus toStatus policyRef => rfl

/-! ## The joint invariant -/

/-- The account is named by a line of some event of the log. -/
def Touched (log : List (LedgerEvent ℚ)) (a : AccountId) : Prop :=
  ∃ event ∈ log, Names (eventLines log event) a

instance (log : List (LedgerEvent ℚ)) (a : AccountId) : Decidable (Touched log a) :=
  inferInstanceAs (Decidable (∃ event ∈ log, Names (eventLines log event) a))

/-- A balanced entry every account of which is kept in the entry's currency. -/
def KeptIn (currencyOf : AccountId → Currency) (lines : List (JournalLine ℚ)) : Prop :=
  ∃ c, Balanced c lines ∧ ∀ a, Names lines a → currencyOf a = c

theorem KeptIn.mirror {currencyOf : AccountId → Currency} {lines : List (JournalLine ℚ)}
    (h : KeptIn currencyOf lines) : KeptIn currencyOf (mirror lines) := by
  rcases h with ⟨c, hbal, hcur⟩
  exact ⟨c, hbal.mirror, fun a hn => hcur a ((names_mirror lines a).1 hn)⟩

/-- The state says of every entry and every account what the log says. -/
structure Agrees (currencyOf : AccountId → Currency) (log : List (LedgerEvent ℚ))
    (s : LedgerState ℚ) : Prop where
  sound : Sound s
  entries : ∀ id, s.entries.get? id = entryLines log id
  known : ∀ id ∈ introduced log, ∃ lines, entryLines log id = some lines
  kept : ∀ id lines, entryLines log id = some lines → KeptIn currencyOf lines
  balance : ∀ a, s.balance a =
    if Touched log a then some { amount := logSum log a, currency := currencyOf a } else none

theorem agrees_default (currencyOf : AccountId → Currency) :
    Agrees currencyOf [] LedgerState.default where
  sound := sound_default
  entries := fun id => rfl
  known := fun id hid => by simp [introduced] at hid
  kept := fun id lines h => by simp [entryLines, newestLines] at h
  balance := fun a => by simp [Touched, LedgerState.balance, LedgerState.default]

theorem logSum_of_not_touched {log : List (LedgerEvent ℚ)} {a : AccountId} (h : ¬Touched log a) :
    logSum log a = 0 := by
  have hzero : ∀ event ∈ log, accountSum (eventLines log event) a = 0 := by
    intro event hevent
    exact accountSum_of_not_names fun hn => h ⟨event, hevent, hn⟩
  unfold logSum
  rw [List.map_congr_left hzero]
  simp

/-- What an event must satisfy to come next after a log. -/
structure Next (currencyOf : AccountId → Currency) (log : List (LedgerEvent ℚ))
    (event : LedgerEvent ℚ) : Prop where
  kept : ∀ id lines dims postedAt, event = .journalEntryPosted id lines dims postedAt →
    KeptIn currencyOf lines
  refers : ∀ originalId reversalId reason, event = .entryReversed originalId reversalId reason →
    originalId ∈ introduced log
  fresh : ∀ id, introduces event = some id → id ∉ introduced log

section Step

variable {currencyOf : AccountId → Currency} {log : List (LedgerEvent ℚ)}
  {event : LedgerEvent ℚ} {s : LedgerState ℚ}

/-- An entry that earlier events refer to keeps its lines. -/
theorem entryLines_append_of_introduced (hnext : Next currencyOf log event) {id : EntryId}
    (hid : id ∈ introduced log) : entryLines (log ++ [event]) id = entryLines log id :=
  entryLines_append_of_ne fun heq => hnext.fresh id heq hid

theorem eventLines_append (hrefers : RefersBack log) (hnext : Next currencyOf log event)
    {older : LedgerEvent ℚ} (hmem : older ∈ log) :
    eventLines (log ++ [event]) older = eventLines log older := by
  cases older with
  | journalEntryPosted id lines dims postedAt => rfl
  | entryReversed originalId reversalId reason =>
      rcases List.append_of_mem hmem with ⟨before, after, hlog⟩
      have hbefore : originalId ∈ introduced before :=
        hrefers before _ after hlog originalId reversalId reason rfl
      have hin : originalId ∈ introduced log := by
        rw [hlog, introduced_append]
        exact List.mem_append_left _ hbefore
      simp [eventLines, entryLines_append_of_introduced hnext hin]
  | capitalizationStatusChanged runId fromStatus toStatus policyRef => rfl

/-- The projection posts for an event the lines that the log reads for it. -/
theorem posting_eq (h : Agrees currencyOf log s) (hnext : Next currencyOf log event) :
    posting s event =
      (introduces event).map fun id => (id, eventLines (log ++ [event]) event) := by
  cases event with
  | journalEntryPosted id lines dims postedAt => rfl
  | entryReversed originalId reversalId reason =>
      have hin := hnext.refers originalId reversalId reason rfl
      rcases h.known originalId hin with ⟨lines, hlines⟩
      simp [posting, introduces, eventLines, h.entries, hlines,
        entryLines_append_of_introduced hnext hin]
  | capitalizationStatusChanged runId fromStatus toStatus policyRef => rfl

theorem keptIn_eventLines (h : Agrees currencyOf log s) (hnext : Next currencyOf log event)
    {id : EntryId} (hid : introduces event = some id) :
    KeptIn currencyOf (eventLines (log ++ [event]) event) := by
  cases event with
  | journalEntryPosted id' lines dims postedAt => exact hnext.kept id' lines dims postedAt rfl
  | entryReversed originalId reversalId reason =>
      have hin := hnext.refers originalId reversalId reason rfl
      rcases h.known originalId hin with ⟨lines, hlines⟩
      have heq : eventLines (log ++ [.entryReversed originalId reversalId reason])
          (.entryReversed originalId reversalId reason) = mirror lines := by
        simp [eventLines, entryLines_append_of_introduced hnext hin, hlines]
      rw [heq]
      exact (h.kept originalId lines hlines).mirror
  | capitalizationStatusChanged runId fromStatus toStatus policyRef => simp [introduces] at hid

theorem entryLines_append_eq (h : Agrees currencyOf log s) (hnext : Next currencyOf log event)
    (id : EntryId) :
    entryLines (log ++ [event]) id =
      if introduces event = some id then some (eventLines (log ++ [event]) event)
      else entryLines log id := by
  by_cases hid : introduces event = some id
  · rw [if_pos hid, entryLines_append_singleton]
    cases event with
    | journalEntryPosted id' lines dims postedAt =>
        have heq : id' = id := by simpa [introduces] using hid
        simp [eventLines, heq]
    | entryReversed originalId reversalId reason =>
        have heq : reversalId = id := by simpa [introduces] using hid
        subst heq
        have hin := hnext.refers originalId reversalId reason rfl
        rcases h.known originalId hin with ⟨lines, hlines⟩
        simp [eventLines, entryLines_append_of_introduced hnext hin, hlines]
    | capitalizationStatusChanged runId fromStatus toStatus policyRef => simp [introduces] at hid
  · rw [if_neg hid, entryLines_append_of_ne hid]

theorem logSum_append (hrefers : RefersBack log) (hnext : Next currencyOf log event)
    (a : AccountId) :
    logSum (log ++ [event]) a =
      logSum log a + accountSum (eventLines (log ++ [event]) event) a := by
  have hold : log.map (fun e => accountSum (eventLines (log ++ [event]) e) a) =
      log.map fun e => accountSum (eventLines log e) a :=
    List.map_congr_left fun e he => by rw [eventLines_append hrefers hnext he]
  simp [logSum, hold]

theorem touched_append (hrefers : RefersBack log) (hnext : Next currencyOf log event)
    (a : AccountId) :
    Touched (log ++ [event]) a ↔
      Touched log a ∨ Names (eventLines (log ++ [event]) event) a := by
  constructor
  · rintro ⟨e, he, hn⟩
    rcases List.mem_append.1 he with hold | hlast
    · exact Or.inl ⟨e, hold, eventLines_append hrefers hnext hold ▸ hn⟩
    · exact Or.inr (List.mem_singleton.1 hlast ▸ hn)
  · rintro (⟨e, he, hn⟩ | hn)
    · exact ⟨e, by simp [he], (eventLines_append hrefers hnext he).symm ▸ hn⟩
    · exact ⟨event, by simp, hn⟩

theorem balance_next (h : Agrees currencyOf log s) (hrefers : RefersBack log)
    (hnext : Next currencyOf log event) (a : AccountId) :
    (applyEvent s event).run.balance a =
      if Touched (log ++ [event]) a then
        some { amount := logSum (log ++ [event]) a, currency := currencyOf a }
      else none := by
  rw [balance_applyEvent, posting_eq h hnext, logSum_append hrefers hnext,
    if_congr (touched_append hrefers hnext a) rfl rfl]
  cases hid : introduces event with
  | none =>
      -- A status change posts nothing and stands for no lines.
      have hnil : eventLines (log ++ [event]) event = [] := by
        cases event with
        | journalEntryPosted id lines dims postedAt => simp [introduces] at hid
        | entryReversed originalId reversalId reason => simp [introduces] at hid
        | capitalizationStatusChanged runId fromStatus toStatus policyRef => rfl
      simp [hnil, Names, accountSum, h.balance a]
  | some id =>
      rcases keptIn_eventLines h hnext hid with ⟨c, hbal, hcur⟩
      simp only [Option.map_some, LedgerState.balance_post hbal.sided, h.balance a]
      -- The account is moved by this event, or by an older one, by both or by neither.
      by_cases hn : Names (eventLines (log ++ [event]) event) a
      · have hc : currencyOf a = c := hcur a hn
        by_cases ht : Touched log a
        · simp [hn, ht, absorb, hc]
        · simp [hn, ht, absorb, hc, logSum_of_not_touched ht]
      · by_cases ht : Touched log a
        · simp [hn, ht, accountSum_of_not_names hn]
        · simp [hn, ht]

theorem Agrees.applyEvent (h : Agrees currencyOf log s) (hrefers : RefersBack log)
    (hnext : Next currencyOf log event) :
    Agrees currencyOf (log ++ [event]) (applyEvent s event).run where
  sound := by
    refine h.sound.applyEvent ?_
    cases event with
    | journalEntryPosted id lines dims postedAt =>
        rcases hnext.kept id lines dims postedAt rfl with ⟨c, hbal, -⟩
        exact ⟨c, hbal⟩
    | entryReversed originalId reversalId reason => exact trivial
    | capitalizationStatusChanged runId fromStatus toStatus policyRef => exact trivial
  entries := by
    intro id
    rw [entries_applyEvent, posting_eq h hnext, entryLines_append_eq h hnext]
    cases hid : introduces event with
    | none => simp [h.entries]
    | some newId => simp [h.entries, eq_comm]
  known := by
    intro id hid
    rw [entryLines_append_eq h hnext]
    by_cases hnew : introduces event = some id
    · exact ⟨_, if_pos hnew⟩
    · have hold : id ∈ introduced log := by
        rw [introduced_append] at hid
        rcases List.mem_append.1 hid with hold | hlast
        · exact hold
        · exact absurd (by simpa [introduced] using hlast) hnew
      rw [if_neg hnew]
      exact h.known id hold
  kept := by
    intro id lines hlines
    rw [entryLines_append_eq h hnext] at hlines
    by_cases hnew : introduces event = some id
    · have heq : eventLines (log ++ [event]) event = lines := by simpa [hnew] using hlines
      exact heq ▸ keptIn_eventLines h hnext hnew
    · exact h.kept id lines (by simpa [hnew] using hlines)
  balance := balance_next h hrefers hnext

end Step

/-- Replaying a log whose entries are balanced, freshly identified, kept in their accounts'
currencies and refer back, gives the state the log describes. -/
theorem agrees_replay {currencyOf : AccountId → Currency} (log : List (LedgerEvent ℚ))
    (hposts : ∀ event ∈ log, PostsBalanced event) (hfresh : (introduced log).Nodup)
    (hrefers : RefersBack log) (hkeeps : ∀ event ∈ log, InCurrencies currencyOf event) :
    Agrees currencyOf log (replay LedgerState.default log).run := by
  induction log using List.reverseRecOn with
  | nil => exact agrees_default currencyOf
  -- From the end of the log: an event is judged by what comes before it.
  | append_singleton log event ih =>
      rw [introduced_append] at hfresh
      rcases List.nodup_append.1 hfresh with ⟨hnodup, -, hdisjoint⟩
      have ih' := ih (fun e he => hposts e (by simp [he])) hnodup hrefers.of_append
        fun e he => hkeeps e (by simp [he])
      have hnext : Next currencyOf log event := by
        refine ⟨?_, ?_, ?_⟩
        · rintro id lines dims postedAt rfl
          rcases hposts (.journalEntryPosted id lines dims postedAt) (by simp) with ⟨c, hbal⟩
          refine ⟨c, hbal, ?_⟩
          rintro a ⟨line, hline, rfl⟩
          have hkept := hkeeps (.journalEntryPosted id lines dims postedAt) (by simp)
          exact (hkept line hline _ (hbal.sided line hline)).symm
        · rintro originalId reversalId reason rfl
          exact hrefers.last
        · intro id hid hmem
          exact hdisjoint id hmem id (by simp [introduced, hid]) rfl
      have hstep := ih'.applyEvent hrefers.of_append hnext
      have hreplay : (replay LedgerState.default (log ++ [event])).run =
          (applyEvent (replay LedgerState.default log).run event).run := by
        rw [replay_append]
        simp [replay]
      rw [hreplay]
      exact hstep

/-! ## The lines of an entry do not depend on the order of the log -/

/-- The lines of an entry, by membership in the log only. -/
inductive HasLines (log : List (LedgerEvent ℚ)) : EntryId → List (JournalLine ℚ) → Prop
  | posted {id lines dims postedAt} :
      .journalEntryPosted id lines dims postedAt ∈ log → HasLines log id lines
  | reversed {originalId reversalId reason lines} :
      .entryReversed originalId reversalId reason ∈ log → HasLines log originalId lines →
        HasLines log reversalId (mirror lines)

theorem HasLines.mono {log log' : List (LedgerEvent ℚ)} (hsub : ∀ event ∈ log, event ∈ log')
    {id : EntryId} {lines : List (JournalLine ℚ)} (h : HasLines log id lines) :
    HasLines log' id lines := by
  induction h with
  | posted hmem => exact .posted (hsub _ hmem)
  | reversed hmem _ ih => exact .reversed (hsub _ hmem) ih

theorem hasLines_of_newestLines :
    ∀ {log : List (LedgerEvent ℚ)} {id : EntryId} {lines : List (JournalLine ℚ)},
      newestLines log id = some lines → HasLines log id lines
  | [], _, _, h => by simp [newestLines] at h
  | .journalEntryPosted id' lines' dims postedAt :: older, id, lines, h => by
      by_cases hid : id = id'
      · have heq : lines' = lines := by simpa [newestLines, hid] using h
        subst hid heq
        have hmem : .journalEntryPosted id lines' dims postedAt ∈
            .journalEntryPosted id lines' dims postedAt :: older := List.mem_cons_self
        exact .posted hmem
      · have hold : newestLines older id = some lines := by simpa [newestLines, hid] using h
        exact (hasLines_of_newestLines hold).mono fun e he => by simp [he]
  | .entryReversed originalId reversalId reason :: older, id, lines, h => by
      by_cases hid : id = reversalId
      · have hmap : (newestLines older originalId).map mirror = some lines := by
          simpa [newestLines, hid] using h
        rcases Option.map_eq_some_iff.1 hmap with ⟨original, horiginal, rfl⟩
        subst hid
        have hmem : .entryReversed originalId id reason ∈
            .entryReversed originalId id reason :: older := List.mem_cons_self
        exact .reversed hmem ((hasLines_of_newestLines horiginal).mono fun e he => by simp [he])
      · have hold : newestLines older id = some lines := by simpa [newestLines, hid] using h
        exact (hasLines_of_newestLines hold).mono fun e he => by simp [he]
  | .capitalizationStatusChanged runId fromStatus toStatus policyRef :: older, id, lines, h => by
      have hold : newestLines older id = some lines := by simpa [newestLines] using h
      exact (hasLines_of_newestLines hold).mono fun e he => by simp [he]

theorem hasLines_of_entryLines {log : List (LedgerEvent ℚ)} {id : EntryId}
    {lines : List (JournalLine ℚ)} (h : entryLines log id = some lines) :
    HasLines log id lines :=
  (hasLines_of_newestLines h).mono fun _ he => List.mem_reverse.1 he

/-- With fresh identifiers, one event introduces an entry. -/
theorem eq_of_introduces {id : EntryId} {event event' : LedgerEvent ℚ} :
    ∀ {log : List (LedgerEvent ℚ)}, (introduced log).Nodup → event ∈ log → event' ∈ log →
      introduces event = some id → introduces event' = some id → event = event'
  | [], _, hmem, _, _, _ => by simp at hmem
  | first :: rest, hnodup, hmem, hmem', hid, hid' => by
      have hin : ∀ e ∈ rest, introduces e = some id → id ∈ introduced rest :=
        fun e he heq => List.mem_filterMap.2 ⟨e, he, heq⟩
      have hfirst : introduces first = some id → id ∉ introduced rest := by
        intro heq
        have hcons : introduced (first :: rest) = id :: introduced rest := by
          simp [introduced, heq]
        exact (List.nodup_cons.1 (hcons ▸ hnodup)).1
      have hrest : (introduced rest).Nodup := by
        cases hf : introduces first with
        | none => simpa [introduced, hf] using hnodup
        | some first' => exact (List.nodup_cons.1 (by simpa [introduced, hf] using hnodup)).2
      rcases List.mem_cons.1 hmem with rfl | hold <;> rcases List.mem_cons.1 hmem' with rfl | hold'
      · rfl
      · exact absurd (hin event' hold' hid') (hfirst hid)
      · exact absurd (hin event hold hid) (hfirst hid')
      · exact eq_of_introduces hrest hold hold' hid hid'

theorem HasLines.unique {log : List (LedgerEvent ℚ)} (hnodup : (introduced log).Nodup)
    {id : EntryId} {lines lines' : List (JournalLine ℚ)} (h : HasLines log id lines)
    (h' : HasLines log id lines') : lines = lines' := by
  induction h generalizing lines' with
  | posted hmem =>
      cases h' with
      | posted hmem' =>
          cases eq_of_introduces hnodup hmem hmem' rfl rfl
          rfl
      | reversed hmem' _ => cases eq_of_introduces hnodup hmem hmem' rfl rfl
  | reversed hmem _ ih =>
      cases h' with
      | posted hmem' => cases eq_of_introduces hnodup hmem hmem' rfl rfl
      | reversed hmem' horiginal =>
          cases eq_of_introduces hnodup hmem hmem' rfl rfl
          rw [ih horiginal]

/-- A line of any entry, reversal or not, is on an account that a posted entry names. -/
theorem HasLines.exists_posted {log : List (LedgerEvent ℚ)} {id : EntryId}
    {lines : List (JournalLine ℚ)} {a : AccountId} (h : HasLines log id lines)
    (hn : Names lines a) :
    ∃ id' lines' dims postedAt, .journalEntryPosted id' lines' dims postedAt ∈ log ∧
      Names lines' a := by
  induction h with
  | posted hmem => exact ⟨_, _, _, _, hmem, hn⟩
  | reversed _ _ ih => exact ih ((names_mirror _ a).1 hn)

theorem touched_iff (log : List (LedgerEvent ℚ)) (a : AccountId) :
    Touched log a ↔ ∃ id lines dims postedAt,
      .journalEntryPosted id lines dims postedAt ∈ log ∧ Names lines a := by
  constructor
  · rintro ⟨event, hmem, hn⟩
    cases event with
    | journalEntryPosted id lines dims postedAt => exact ⟨id, lines, dims, postedAt, hmem, hn⟩
    | entryReversed originalId reversalId reason =>
        cases hlines : entryLines log originalId with
        | none => simp [eventLines, hlines, Names] at hn
        | some lines =>
            have hnames : Names lines a :=
              (names_mirror lines a).1 (by simpa [eventLines, hlines] using hn)
            exact (hasLines_of_entryLines hlines).exists_posted hnames
    | capitalizationStatusChanged runId fromStatus toStatus policyRef =>
        simp [eventLines, Names] at hn
  · rintro ⟨id, lines, dims, postedAt, hmem, hn⟩
    exact ⟨_, hmem, hn⟩

/-- Two orders of one log read the same lines for every event. -/
theorem eventLines_perm {log log' : List (LedgerEvent ℚ)} (hperm : log'.Perm log)
    (hnodup : (introduced log).Nodup)
    (hknown : ∀ id ∈ introduced log, ∃ lines, entryLines log id = some lines)
    (hknown' : ∀ id ∈ introduced log', ∃ lines, entryLines log' id = some lines)
    (hrefers : RefersBack log) {event : LedgerEvent ℚ} (hmem : event ∈ log) :
    eventLines log' event = eventLines log event := by
  cases event with
  | journalEntryPosted id lines dims postedAt => rfl
  | entryReversed originalId reversalId reason =>
      rcases List.append_of_mem hmem with ⟨older, newer, hlog⟩
      have hin : originalId ∈ introduced log := by
        rw [hlog, introduced_append]
        exact List.mem_append_left _ (hrefers older _ newer hlog _ _ _ rfl)
      have hin' : originalId ∈ introduced log' :=
        (hperm.filterMap introduces).mem_iff.2 hin
      rcases hknown originalId hin with ⟨lines, hlines⟩
      rcases hknown' originalId hin' with ⟨lines', hlines'⟩
      have hsame : HasLines log originalId lines' :=
        (hasLines_of_entryLines hlines').mono fun e he => hperm.mem_iff.1 he
      have heq := (hasLines_of_entryLines hlines).unique hnodup hsame
      simp [eventLines, hlines, hlines', heq]
  | capitalizationStatusChanged runId fromStatus toStatus policyRef => rfl

/-- When every account is used with one currency, an account has a balance exactly when a posted
entry names it, the balance is the sum of the log's lines on the account, and any order of the log
in which reversals still refer back leads to the same balances. -/
theorem balance_run_eq_sum (requests : List (Request ℚ)) (currencyOf : AccountId → Currency)
    (hfresh : (introduced (run LedgerState.default requests).run.2).Nodup)
    (hkeeps : ∀ event ∈ (run LedgerState.default requests).run.2, InCurrencies currencyOf event)
    (a : AccountId) :
    ((run LedgerState.default requests).run.1.balance a = none ↔
        ∀ id lines dims postedAt,
          .journalEntryPosted id lines dims postedAt ∈ (run LedgerState.default requests).run.2 →
            ¬Names lines a) ∧
      (∀ b, (run LedgerState.default requests).run.1.balance a = some b →
        b.amount = logSum (run LedgerState.default requests).run.2 a) ∧
      ∀ log : List (LedgerEvent ℚ), log.Perm (run LedgerState.default requests).run.2 →
        RefersBack log →
          (replay LedgerState.default log).run.balance a =
            (run LedgerState.default requests).run.1.balance a := by
  rcases run_spec requests LedgerState.default with ⟨hstate, haccepted⟩
  -- From here on only the log matters, not the requests that wrote it.
  generalize (run LedgerState.default requests).run.2 = log at *
  have hrefers := haccepted.refersBack
  have hagrees := agrees_replay log haccepted.postsBalanced hfresh hrefers hkeeps
  rw [hstate]
  refine ⟨?_, ?_, ?_⟩
  · have hiff := touched_iff log a
    rw [hagrees.balance a]
    constructor
    · intro hnone id lines dims postedAt hmem hn
      have ht : Touched log a := hiff.2 ⟨id, lines, dims, postedAt, hmem, hn⟩
      simp [ht] at hnone
    · intro hno
      have ht : ¬Touched log a := by
        rw [hiff]
        rintro ⟨id, lines, dims, postedAt, hmem, hn⟩
        exact hno id lines dims postedAt hmem hn
      simp [ht]
  · intro b hb
    rw [hagrees.balance a] at hb
    by_cases ht : Touched log a
    · have heq : { amount := logSum log a, currency := currencyOf a } = b := by
        simpa [ht] using hb
      rw [← heq]
    · simp [ht] at hb
  · intro log' hperm hrefers'
    have hfresh' : (introduced log').Nodup := (hperm.filterMap introduces).nodup_iff.2 hfresh
    have hkeeps' : ∀ event ∈ log', InCurrencies currencyOf event := fun event hmem =>
      hkeeps event (hperm.mem_iff.1 hmem)
    have hposts' : ∀ event ∈ log', PostsBalanced event := fun event hmem =>
      haccepted.postsBalanced event (hperm.mem_iff.1 hmem)
    -- What the induction needs of a log is membership, but for `RefersBack`, which is given.
    have hagrees' := agrees_replay log' hposts' hfresh' hrefers' hkeeps'
    have hlines : ∀ event ∈ log, eventLines log' event = eventLines log event := fun event hmem =>
      eventLines_perm hperm hfresh hagrees.known hagrees'.known hrefers hmem
    have hsum : logSum log' a = logSum log a := by
      unfold logSum
      rw [(hperm.map _).sum_eq]
      exact congrArg List.sum (List.map_congr_left fun event hmem => by rw [hlines event hmem])
    have htouched : Touched log' a ↔ Touched log a := by
      rw [touched_iff, touched_iff]
      simp [hperm.mem_iff]
    rw [hagrees'.balance a, hagrees.balance a, hsum]
    exact if_congr htouched rfl rfl

/-- An entry with two lines on one account, its reversal, and the reversal of the reversal. -/
def reversalChain : List (Request ℚ) :=
  let dims := Dimensions.new ⟨1⟩ ⟨2⟩ ⟨3⟩ ⟨4⟩ .opEx
  let usd (q : ℚ) : Option (Money ℚ) := some { amount := q, currency := .usd }
  [{ command := .postJournalEntry
       [⟨⟨10⟩, usd 30, none, []⟩, ⟨⟨10⟩, usd 12, none, []⟩, ⟨⟨11⟩, none, usd 42, []⟩] dims
     newId := ⟨1⟩
     now := ⟨0⟩ },
    { command := .reverseEntry ⟨1⟩ "duplicate", newId := ⟨2⟩, now := ⟨0⟩ },
    { command := .reverseEntry ⟨2⟩ "not a duplicate", newId := ⟨3⟩, now := ⟨0⟩ }]

theorem balance_reversalChain :
    42 = logSum (run LedgerState.default reversalChain).run.2 ⟨10⟩ :=
  (balance_run_eq_sum reversalChain (fun _ => .usd) (by decide +kernel) (by decide +kernel)
    ⟨10⟩).2.1 ⟨42, .usd⟩ (by decide +kernel)

end Falkr
