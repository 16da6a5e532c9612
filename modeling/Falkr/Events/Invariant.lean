import Falkr.Events.Boundary

/-!
# Invariant — what holds of every replayed log

An event either posts lines under an identifier or leaves balances and entries alone (`posting`).
As long as the posted entries of a log are balanced, every entry the projection stores is balanced,
every account it names has a balance (`Sound`), and an account never leaves the currency of its
first posting (`currency_applyEvent`).
-/

namespace Falkr

open Lib

/-! ## What an event posts -/

/-- The identifier and the lines that `applyEvent` posts for an event, if it posts any. -/
def posting (s : LedgerState ℚ) : LedgerEvent ℚ → Option (EntryId × List (JournalLine ℚ))
  | .journalEntryPosted id lines _ _ => some (id, lines)
  | .entryReversed originalId reversalId _ =>
      (s.entries.get? originalId).map fun original => (reversalId, mirror original)
  | .capitalizationStatusChanged _ _ _ _ => none

/-- An event posts lines of its own, or mirrors those of an entry that is stored. -/
theorem posting_cases {s : LedgerState ℚ} {event : LedgerEvent ℚ} {id : EntryId}
    {lines : List (JournalLine ℚ)} (h : posting s event = some (id, lines)) :
    (∃ dims postedAt, event = .journalEntryPosted id lines dims postedAt) ∨
      ∃ originalId reason original, event = .entryReversed originalId id reason ∧
        s.entries.get? originalId = some original ∧ lines = mirror original := by
  cases event with
  | journalEntryPosted id' lines' dims postedAt =>
      cases h
      exact Or.inl ⟨dims, postedAt, rfl⟩
  | entryReversed originalId reversalId reason =>
      rcases Option.map_eq_some_iff.1 h with ⟨original, hget, heq⟩
      cases heq
      exact Or.inr ⟨originalId, reason, original, rfl, hget, rfl⟩
  | capitalizationStatusChanged runId fromStatus toStatus policyRef => cases h

theorem entries_applyEvent (s : LedgerState ℚ) (event : LedgerEvent ℚ) :
    (applyEvent s event).run.entries =
      match posting s event with
      | none => s.entries
      | some (id, lines) => s.entries.insert id lines := by
  cases event with
  | journalEntryPosted id lines dims postedAt => rfl
  | entryReversed originalId reversalId reason =>
      cases h : s.entries.get? originalId <;> simp [applyEvent, posting, h]
  | capitalizationStatusChanged runId fromStatus toStatus policyRef => rfl

theorem balances_applyEvent (s : LedgerState ℚ) (event : LedgerEvent ℚ) :
    (applyEvent s event).run.balances =
      match posting s event with
      | none => s.balances
      | some (id, lines) => (s.post id lines).run.balances := by
  cases event with
  | journalEntryPosted id lines dims postedAt => rfl
  | entryReversed originalId reversalId reason =>
      cases h : s.entries.get? originalId <;> simp [applyEvent, posting, h]
  | capitalizationStatusChanged runId fromStatus toStatus policyRef => rfl

theorem balance_applyEvent (s : LedgerState ℚ) (event : LedgerEvent ℚ) (a : AccountId) :
    (applyEvent s event).run.balance a =
      match posting s event with
      | none => s.balance a
      | some (id, lines) => (s.post id lines).run.balance a := by
  unfold LedgerState.balance
  rw [balances_applyEvent]
  cases posting s event <;> rfl

/-! ## Sound states -/

/-- The entry an event posts, if it posts one of its own, is balanced. -/
def PostsBalanced : LedgerEvent ℚ → Prop
  | .journalEntryPosted _ lines _ _ => ∃ c, Balanced c lines
  | _ => True

theorem Accepts.postsBalanced {s : LedgerState ℚ} {event : LedgerEvent ℚ} (h : Accepts s event) :
    PostsBalanced event := by
  cases event with
  | journalEntryPosted id lines dims postedAt => exact h
  | entryReversed originalId reversalId reason => exact trivial
  | capitalizationStatusChanged runId fromStatus toStatus policyRef => exact trivial

theorem AcceptedLog.postsBalanced :
    ∀ {s : LedgerState ℚ} {log : List (LedgerEvent ℚ)}, AcceptedLog s log →
      ∀ event ∈ log, PostsBalanced event
  | _, [], _, event, hmem => by simp at hmem
  | _, first :: rest, ⟨hfirst, hrest⟩, event, hmem => by
      rcases List.mem_cons.1 hmem with rfl | hmem
      · exact hfirst.postsBalanced
      · exact hrest.postsBalanced event hmem

/-- What every replayed state satisfies: a stored entry is balanced, and every account it names
has a balance. -/
structure Sound (s : LedgerState ℚ) : Prop where
  balanced : ∀ id lines, s.entries.get? id = some lines → ∃ c, Balanced c lines
  opened : ∀ id lines, s.entries.get? id = some lines → ∀ a, Names lines a →
    ∃ b, s.balance a = some b

theorem sound_default : Sound LedgerState.default where
  balanced := fun id lines h => by simp [LedgerState.default] at h
  opened := fun id lines h => by simp [LedgerState.default] at h

/-- Whatever an event posts is balanced. -/
theorem balanced_of_posting {s : LedgerState ℚ} {event : LedgerEvent ℚ} {id : EntryId}
    {lines : List (JournalLine ℚ)} (hs : Sound s) (hevent : PostsBalanced event)
    (h : posting s event = some (id, lines)) : ∃ c, Balanced c lines := by
  rcases posting_cases h with
    ⟨dims, postedAt, rfl⟩ | ⟨originalId, reason, original, rfl, hget, rfl⟩
  · exact hevent
  · rcases hs.balanced originalId original hget with ⟨c, hbal⟩
    exact ⟨c, hbal.mirror⟩

theorem currency_post {s : LedgerState ℚ} {c : Currency} {lines : List (JournalLine ℚ)}
    (h : AllSidedIn c lines) (id : EntryId) {a : AccountId} {b : Money ℚ}
    (hb : s.balance a = some b) :
    ∃ b', (s.post id lines).run.balance a = some b' ∧ b'.currency = b.currency := by
  rw [LedgerState.balance_post h]
  by_cases hn : Names lines a
  · have hcur := currency_absorb ⟨accountSum lines a, c⟩ hb
    rcases Option.map_eq_some_iff.1 hcur with ⟨b', hb', hcur'⟩
    exact ⟨b', by rw [if_pos hn, hb'], hcur'⟩
  · exact ⟨b, by rw [if_neg hn, hb], rfl⟩

/-- An account, once it has a balance, keeps its currency. -/
theorem currency_applyEvent {s : LedgerState ℚ} {event : LedgerEvent ℚ} (hs : Sound s)
    (hevent : PostsBalanced event) {a : AccountId} {b : Money ℚ} (hb : s.balance a = some b) :
    ∃ b', (applyEvent s event).run.balance a = some b' ∧ b'.currency = b.currency := by
  rw [balance_applyEvent]
  cases hp : posting s event with
  | none => exact ⟨b, hb, rfl⟩
  | some entry =>
      rcases entry with ⟨id, lines⟩
      rcases balanced_of_posting hs hevent hp with ⟨c, hbal⟩
      exact currency_post hbal.sided id hb

theorem opened_post {s : LedgerState ℚ} {c : Currency} {lines : List (JournalLine ℚ)}
    (h : AllSidedIn c lines) (id : EntryId) {a : AccountId} (hn : Names lines a) :
    ∃ b, (s.post id lines).run.balance a = some b := by
  rw [LedgerState.balance_post h, if_pos hn]
  cases s.balance a with
  | none => exact ⟨_, rfl⟩
  | some b => by_cases hc : b.currency = c <;> simp [absorb, hc]

theorem Sound.applyEvent {s : LedgerState ℚ} {event : LedgerEvent ℚ} (hs : Sound s)
    (hevent : PostsBalanced event) : Sound (applyEvent s event).run := by
  cases hp : posting s event with
  | none =>
      have hentries : (Falkr.applyEvent s event).run.entries = s.entries := by
        rw [entries_applyEvent, hp]
      have hbalance : ∀ a, (Falkr.applyEvent s event).run.balance a = s.balance a := by
        intro a
        rw [balance_applyEvent, hp]
      exact ⟨fun id lines h => hs.balanced id lines (hentries ▸ h),
        fun id lines h a hn => (hbalance a).symm ▸ hs.opened id lines (hentries ▸ h) a hn⟩
  | some entry =>
      rcases entry with ⟨newId, newLines⟩
      rcases balanced_of_posting hs hevent hp with ⟨c, hbal⟩
      have hget : ∀ id, (Falkr.applyEvent s event).run.entries.get? id =
          if id = newId then some newLines else s.entries.get? id := by
        intro id
        simp [entries_applyEvent, hp]
      -- The entry just posted replaces what was under its identifier, if anything was.
      refine ⟨fun id lines h => ?_, fun id lines h a hn => ?_⟩
      · rw [hget] at h
        by_cases hid : id = newId
        · have hlines : newLines = lines := by simpa [hid] using h
          exact ⟨c, hlines ▸ hbal⟩
        · exact hs.balanced id lines (by simpa [hid] using h)
      · rw [hget] at h
        by_cases hid : id = newId
        · have hlines : newLines = lines := by simpa [hid] using h
          rw [balance_applyEvent, hp]
          exact opened_post hbal.sided newId (hlines ▸ hn)
        -- A balance once opened stays, whatever is posted.
        · rcases hs.opened id lines (by simpa [hid] using h) a hn with ⟨b, hb⟩
          rcases currency_applyEvent hs hevent hb with ⟨b', hb', -⟩
          exact ⟨b', hb'⟩

theorem replay_cons (s : LedgerState ℚ) (event : LedgerEvent ℚ) (rest : List (LedgerEvent ℚ)) :
    (replay s (event :: rest)).run = (replay (applyEvent s event).run rest).run := by
  simp [replay]

theorem Sound.replay :
    ∀ {s : LedgerState ℚ} {log : List (LedgerEvent ℚ)}, Sound s →
      (∀ event ∈ log, PostsBalanced event) → Sound (replay s log).run
  | _, [], hs, _ => hs
  | _, event :: rest, hs, hlog => by
      rcases List.forall_mem_cons.1 hlog with ⟨hevent, hrest⟩
      rw [replay_cons]
      exact (hs.applyEvent hevent).replay hrest

theorem currency_replay {a : AccountId} :
    ∀ {s : LedgerState ℚ} {log : List (LedgerEvent ℚ)} {b : Money ℚ}, Sound s →
      (∀ event ∈ log, PostsBalanced event) → s.balance a = some b →
      ∃ b', (Falkr.replay s log).run.balance a = some b' ∧ b'.currency = b.currency
  | _, [], b, _, _, hb => ⟨b, hb, rfl⟩
  | s, event :: rest, b, hs, hlog, hb => by
      rcases List.forall_mem_cons.1 hlog with ⟨hevent, hrest⟩
      rcases currency_applyEvent hs hevent hb with ⟨b₁, hb₁, hcur₁⟩
      rcases currency_replay (hs.applyEvent hevent) hrest hb₁ with ⟨b₂, hb₂, hcur₂⟩
      exact ⟨b₂, by rw [replay_cons, hb₂], hcur₂.trans hcur₁⟩

/-- Every state a run ends in is sound. -/
theorem sound_run (requests : List (Request ℚ)) :
    Sound (run LedgerState.default requests).run.1 := by
  rcases run_spec requests LedgerState.default with ⟨hstate, hlog⟩
  rw [hstate]
  exact sound_default.replay hlog.postsBalanced

/-! ## Identifiers -/

/-- The identifier an event introduces. -/
def introduces : LedgerEvent ℚ → Option EntryId
  | .journalEntryPosted id _ _ _ => some id
  | .entryReversed _ reversalId _ => some reversalId
  | .capitalizationStatusChanged _ _ _ _ => none

def introduced (log : List (LedgerEvent ℚ)) : List EntryId :=
  log.filterMap introduces

/-- Every reversal in the log names an entry that an earlier event introduces. -/
def RefersBack (log : List (LedgerEvent ℚ)) : Prop :=
  ∀ older event newer, log = older ++ event :: newer →
    ∀ originalId reversalId reason, event = .entryReversed originalId reversalId reason →
      originalId ∈ introduced older

theorem introduced_append (log log' : List (LedgerEvent ℚ)) :
    introduced (log ++ log') = introduced log ++ introduced log' :=
  List.filterMap_append

theorem RefersBack.of_append {log log' : List (LedgerEvent ℚ)} (h : RefersBack (log ++ log')) :
    RefersBack log := by
  intro older event newer heq
  exact h older event (newer ++ log') (by simp [heq])

theorem RefersBack.last {log : List (LedgerEvent ℚ)} {originalId reversalId : EntryId}
    {reason : String} (h : RefersBack (log ++ [.entryReversed originalId reversalId reason])) :
    originalId ∈ introduced log :=
  h log _ [] rfl originalId reversalId reason rfl

theorem introduces_of_posting {s : LedgerState ℚ} {event : LedgerEvent ℚ} {id : EntryId}
    {lines : List (JournalLine ℚ)} (h : posting s event = some (id, lines)) :
    introduces event = some id := by
  rcases posting_cases h with ⟨dims, postedAt, rfl⟩ | ⟨originalId, reason, original, rfl, -, -⟩
  · rfl
  · rfl

/-- An entry the state knows was introduced by the log. -/
theorem introduced_of_contains (log : List (LedgerEvent ℚ)) (id : EntryId)
    (h : (replay LedgerState.default log).run.entries.contains id = true) :
    id ∈ introduced log := by
  induction log using List.reverseRecOn with
  | nil => simp [replay, LedgerState.default, SortedMap.contains] at h
  | append_singleton log event ih =>
      rw [introduced_append]
      rw [replay_append, replay_cons] at h
      have hnil : ∀ s : LedgerState ℚ, (replay s []).run = s := fun s => by simp [replay]
      rw [hnil, entries_applyEvent] at h
      cases hp : posting (replay LedgerState.default log).run event with
      | none => exact List.mem_append_left _ (ih (by simpa [hp] using h))
      | some entry =>
          rcases entry with ⟨newId, lines⟩
          rcases (by simpa [hp, SortedMap.contains_insert] using h :
            id = newId ∨ (replay LedgerState.default log).run.entries.contains id = true)
            with rfl | hold
          · exact List.mem_append_right _ (by simp [introduced, introduces_of_posting hp])
          · exact List.mem_append_left _ (ih hold)

theorem AcceptedLog.refersBack {log : List (LedgerEvent ℚ)}
    (h : AcceptedLog LedgerState.default log) : RefersBack log := by
  rintro older event newer rfl originalId reversalId reason rfl
  rw [acceptedLog_append] at h
  rcases h with ⟨-, ⟨hknown, -⟩, -⟩
  exact introduced_of_contains older originalId hknown

end Falkr
