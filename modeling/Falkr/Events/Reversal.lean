import Falkr.Events.Invariant

/-!
# Reversal — a reversal is an exact inverse

A posting and its mirror meet different balances, and a line is posted or skipped by the currency
its account holds at that moment.  That currency never changes once set, so what the mirror undoes
is exactly what the posting did (`absorb_of_same_currency`), whatever happened in between
(`reversal_inverts`).
-/

namespace Falkr

open Lib

/-! ## Changes of one balance -/

/-- The amount of a balance, zero when the account has none. -/
def amountOf (balance : Option (Money ℚ)) : ℚ :=
  (balance.map Money.amount).getD 0

/-- What happened to an account's balance from one state to the next. -/
def change (s s' : LedgerState ℚ) (a : AccountId) : ℚ :=
  amountOf (s'.balance a) - amountOf (s.balance a)

/-- A balance moved by an amount in its own currency. -/
def shift (balance : Option (Money ℚ)) (q : ℚ) : Option (Money ℚ) :=
  balance.map fun b => { amount := b.amount + q, currency := b.currency }

theorem shift_zero (balance : Option (Money ℚ)) : shift balance 0 = balance := by
  cases balance <;> simp [shift]

/-- The opposite of a posting, met later by the same account, takes back what the posting did to
it: both are posted or both are skipped. -/
theorem absorb_of_same_currency {b₀ : Option (Money ℚ)} {b₁ b₂ : Money ℚ} {q : ℚ} {c : Currency}
    (h : absorb b₀ ⟨q, c⟩ = some b₁) (hcur : b₂.currency = b₁.currency) :
    absorb (some b₂) ⟨-q, c⟩ = shift (some b₂) (-(b₁.amount - amountOf b₀)) := by
  cases b₀ with
  | none =>
      have heq : b₁ = ⟨q, c⟩ := by simpa [absorb] using h.symm
      subst heq
      have hc : b₂.currency = c := hcur
      simp [absorb, shift, amountOf, hc]
  | some b =>
      by_cases hb : b.currency = c
      · have heq : b₁ = ⟨b.amount + q, b.currency⟩ := by simpa [absorb, hb] using h.symm
        subst heq
        have hc : b₂.currency = c := hcur.trans hb
        simp [absorb, shift, amountOf, hc]
      · have heq : b₁ = b := by simpa [absorb, hb] using h.symm
        subst heq
        have hc : b₂.currency ≠ c := fun heq => hb (hcur ▸ heq)
        simp [absorb, shift, amountOf, hc]

theorem change_of_shift {s s' : LedgerState ℚ} {a : AccountId} {q : ℚ}
    (h : s'.balance a = shift (s.balance a) q) (hnone : s.balance a = none → q = 0) :
    change s s' a = q := by
  cases hb : s.balance a with
  | none => simp [change, h, hb, shift, amountOf, hnone hb]
  | some b => simp [change, h, hb, shift, amountOf]

/-! ## The life of an entry -/

/-- The entry an event reverses. -/
def reverses : LedgerEvent ℚ → Option EntryId
  | .entryReversed originalId _ _ => some originalId
  | _ => none

theorem isReversed_applyEvent (s : LedgerState ℚ) (event : LedgerEvent ℚ) (id : EntryId) :
    (applyEvent s event).run.isReversed id = true ↔
      s.isReversed id = true ∨ reverses event = some id := by
  cases event with
  | journalEntryPosted id' lines dims postedAt =>
      simp [applyEvent, LedgerState.isReversed, reverses]
  | entryReversed originalId reversalId reason =>
      have hreversed : (applyEvent s (.entryReversed originalId reversalId reason)).run.reversed =
          s.reversed.insert originalId () := by
        cases hget : s.entries.get? originalId <;> simp [applyEvent, hget]
      rw [LedgerState.isReversed, hreversed, SortedMap.contains_insert, Bool.or_eq_true,
        decide_eq_true_iff, or_comm]
      exact or_congr Iff.rfl ⟨fun h => congrArg some h.symm, fun h => (Option.some.inj h).symm⟩
  | capitalizationStatusChanged runId fromStatus toStatus policyRef =>
      simp [applyEvent, LedgerState.isReversed, reverses]

theorem isReversed_replay (id : EntryId) :
    ∀ (log : List (LedgerEvent ℚ)) (s : LedgerState ℚ),
      (replay s log).run.isReversed id = true ↔
        s.isReversed id = true ∨ ∃ event ∈ log, reverses event = some id
  | [], s => by simp [replay]
  | event :: rest, s => by
      rw [replay_cons, isReversed_replay id rest, isReversed_applyEvent, or_assoc]
      simp

/-- An entry keeps its lines as long as its identifier is not introduced again. -/
theorem entries_replay_of_not_introduced {id : EntryId} :
    ∀ {log : List (LedgerEvent ℚ)} {s : LedgerState ℚ}, id ∉ introduced log →
      (replay s log).run.entries.get? id = s.entries.get? id
  | [], _, _ => rfl
  | event :: rest, s, hid => by
      have hrest : id ∉ introduced rest := by
        intro hmem
        exact hid (List.mem_filterMap.2
          (let ⟨e, he, heq⟩ := List.mem_filterMap.1 hmem; ⟨e, by simp [he], heq⟩))
      rw [replay_cons, entries_replay_of_not_introduced hrest, entries_applyEvent]
      cases hp : posting s event with
      | none => rfl
      | some entry =>
          rcases entry with ⟨newId, lines⟩
          have hne : id ≠ newId := by
            rintro rfl
            exact hid (List.mem_filterMap.2 ⟨event, by simp, introduces_of_posting hp⟩)
          simp [hne]

section Life

variable {older newer : List (LedgerEvent ℚ)} {event : LedgerEvent ℚ} {id : EntryId}
  {lines : List (JournalLine ℚ)}

/-- The entry is still there after the newer events. -/
theorem entries_of_life (hfresh : (introduced (older ++ event :: newer)).Nodup)
    (hp : posting (replay LedgerState.default older).run event = some (id, lines)) :
    (replay LedgerState.default (older ++ event :: newer)).run.entries.get? id = some lines := by
  have hnew : id ∉ introduced newer := by
    rw [introduced_append] at hfresh
    have hcons : introduced (event :: newer) = id :: introduced newer := by
      simp [introduced, introduces_of_posting hp]
    rw [hcons] at hfresh
    exact (List.nodup_cons.1 (List.nodup_append.1 hfresh).2.1).1
  rw [replay_append, replay_cons, entries_replay_of_not_introduced hnew, entries_applyEvent, hp]
  simp

/-- Nothing up to its own event can have reversed it. -/
theorem not_isReversed_of_life (hlog : AcceptedLog LedgerState.default (older ++ event :: newer))
    (hfresh : (introduced (older ++ event :: newer)).Nodup)
    (hid : introduces event = some id)
    (hkeep : ∀ e ∈ newer, reverses e ≠ some id) :
    (replay LedgerState.default (older ++ event :: newer)).run.isReversed id = false := by
  rw [Bool.eq_false_iff, Ne, isReversed_replay]
  rintro (hdefault | ⟨reversal, hmem, hreverses⟩)
  · simp [LedgerState.isReversed, LedgerState.default, SortedMap.contains] at hdefault
  · rcases List.append_of_mem hmem with ⟨before, after, heq⟩
    -- What a reversal names is introduced before it, and `id` only once, by `event`.
    have hin : id ∈ introduced before := by
      cases reversal with
      | entryReversed originalId reversalId reason =>
          have hid : originalId = id := by simpa [reverses] using hreverses
          exact hid ▸ hlog.refersBack before _ after heq originalId reversalId reason rfl
      | journalEntryPosted id' lines dims postedAt => simp [reverses] at hreverses
      | capitalizationStatusChanged runId fromStatus toStatus policyRef =>
          simp [reverses] at hreverses
    have hnot : id ∉ introduced older := by
      rw [introduced_append] at hfresh
      intro hmem
      exact (List.nodup_append.1 hfresh).2.2 id hmem id (by simp [introduced, hid]) rfl
    rcases List.append_eq_append_iff.1 heq with ⟨l, hbefore, hnewer⟩ | ⟨l, holder, -⟩
    · -- The reversal comes at or after the event that introduces the entry.
      cases l with
      | nil => exact hnot (by simpa [hbefore] using hin)
      | cons first l =>
          have htail : newer = l ++ reversal :: after := by
            simpa using (List.cons.inj hnewer).2
          exact hkeep reversal (by simp [htail]) hreverses
    · exact hnot (by simp [holder, introduced_append, hin])

end Life

/-! ## Reversing -/

/-- A reversal moves each account by the mirrored lines, posted or skipped as the account is. -/
theorem balance_entryReversed {s : LedgerState ℚ} {id : EntryId} {lines : List (JournalLine ℚ)}
    {c : Currency} (hget : s.entries.get? id = some lines) (hlines : AllSidedIn c lines)
    (reversalId : EntryId) (reason : String) (a : AccountId) :
    (applyEvent s (.entryReversed id reversalId reason)).run.balance a =
      if Names lines a then absorb (s.balance a) ⟨-accountSum lines a, c⟩ else s.balance a := by
  rw [balance_applyEvent]
  simp only [posting, hget, Option.map_some]
  rw [LedgerState.balance_post hlines.mirror, accountSum_mirror hlines]
  exact if_congr (names_mirror lines a) rfl rfl

theorem posting_of_accepts {s : LedgerState ℚ} {event : LedgerEvent ℚ} {id : EntryId}
    (h : Accepts s event) (hid : introduces event = some id) :
    ∃ lines, posting s event = some (id, lines) := by
  cases event with
  | journalEntryPosted id' lines dims postedAt =>
      have heq : id' = id := by simpa [introduces] using hid
      exact ⟨lines, by simp [posting, heq]⟩
  | entryReversed originalId reversalId reason =>
      have heq : reversalId = id := by simpa [introduces] using hid
      rcases Option.isSome_iff_exists.1 h.1 with ⟨original, hget⟩
      exact ⟨mirror original, by simp [posting, hget, heq]⟩
  | capitalizationStatusChanged runId fromStatus toStatus policyRef => simp [introduces] at hid

/-- Reversing an entry that is in the ledger and not yet reversed is accepted. -/
theorem execute_reverseEntry {s : LedgerState ℚ} {request : Request ℚ} {id : EntryId}
    {reason : String} {lines : List (JournalLine ℚ)}
    (hcommand : request.command = .reverseEntry id reason)
    (hget : s.entries.get? id = some lines) (hrev : s.isReversed id = false) :
    (execute s request).run =
      ((applyEvent s (.entryReversed id request.newId reason)).run,
        [.entryReversed id request.newId reason]) := by
  simp [execute, handleCommand, hcommand, SortedMap.contains, hget, hrev, replay]

/-- Between the event that introduces an entry and the end of its life so far, an account without
a balance was not moved by the entry. -/
theorem change_eq_zero_of_none {s₀ s₁ s₂ : LedgerState ℚ} {event : LedgerEvent ℚ}
    {newer : List (LedgerEvent ℚ)} (hs₀ : Sound s₀) (hevent : PostsBalanced event)
    (hs₁ : s₁ = (applyEvent s₀ event).run) (hnewer : ∀ e ∈ newer, PostsBalanced e)
    (hs₂ : s₂ = (replay s₁ newer).run) {a : AccountId} (hnone : s₂.balance a = none) :
    change s₀ s₁ a = 0 := by
  have hsound₁ : Sound s₁ := hs₁ ▸ hs₀.applyEvent hevent
  have hnone₁ : s₁.balance a = none := by
    refine Option.eq_none_iff_forall_ne_some.2 ?_
    intro b hb
    rcases currency_replay hsound₁ hnewer hb with ⟨b', hb', -⟩
    rw [← hs₂, hnone] at hb'
    cases hb'
  have hnone₀ : s₀.balance a = none := by
    refine Option.eq_none_iff_forall_ne_some.2 ?_
    intro b hb
    rcases currency_applyEvent hs₀ hevent hb with ⟨b', hb', -⟩
    rw [← hs₁, hnone₁] at hb'
    cases hb'
  simp [change, hnone₀, hnone₁]

/-- Reversing an entry at the end of its life so far: the command is accepted, and takes back from
every account what the entry did to it when it was applied. -/
theorem reverse_of_life {older newer : List (LedgerEvent ℚ)} {event : LedgerEvent ℚ} {id : EntryId}
    {s₀ s₁ s₂ : LedgerState ℚ} {request : Request ℚ} {reason : String}
    (hs₀ : s₀ = (replay LedgerState.default older).run) (hs₁ : s₁ = (applyEvent s₀ event).run)
    (hs₂ : s₂ = (replay s₁ newer).run)
    (hlog : AcceptedLog LedgerState.default (older ++ event :: newer))
    (hfresh : (introduced (older ++ event :: newer)).Nodup) (hid : introduces event = some id)
    (hkeep : ∀ e ∈ newer, reverses e ≠ some id)
    (hcommand : request.command = .reverseEntry id reason) :
    (execute s₂ request).run.2 = [.entryReversed id request.newId reason] ∧
      ∀ a, (execute s₂ request).run.1.balance a = shift (s₂.balance a) (-change s₀ s₁ a) ∧
        change s₂ (execute s₂ request).run.1 a = -change s₀ s₁ a := by
  rcases (acceptedLog_append older (event :: newer) _).1 hlog with ⟨holder, haccepts, hnewer⟩
  rw [← hs₀] at haccepts
  have hsound₀ : Sound s₀ := hs₀ ▸ sound_default.replay holder.postsBalanced
  have hsound₁ : Sound s₁ := hs₁ ▸ hsound₀.applyEvent haccepts.postsBalanced
  rcases posting_of_accepts haccepts hid with ⟨lines, hp⟩
  rcases balanced_of_posting hsound₀ haccepts.postsBalanced hp with ⟨c, hbal⟩
  have hwhole : s₂ = (replay LedgerState.default (older ++ event :: newer)).run := by
    rw [replay_append, ← hs₀, replay_cons, ← hs₁]
    exact hs₂
  have hget : s₂.entries.get? id = some lines := hwhole ▸ entries_of_life hfresh (hs₀ ▸ hp)
  have hrev : s₂.isReversed id = false := hwhole ▸ not_isReversed_of_life hlog hfresh hid hkeep
  have hexec := execute_reverseEntry hcommand hget hrev
  have hshift : ∀ a, (execute s₂ request).run.1.balance a =
      shift (s₂.balance a) (-change s₀ s₁ a) := by
    intro a
    have hpost : s₁.balance a =
        if Names lines a then absorb (s₀.balance a) ⟨accountSum lines a, c⟩
        else s₀.balance a := by
      rw [hs₁, balance_applyEvent, hp]
      exact LedgerState.balance_post hbal.sided id a
    -- The account holds the same currency as when the entry came, so what was skipped then is
    -- skipped now.
    rw [hexec, balance_entryReversed hget hbal.sided]
    by_cases hn : Names lines a
    · obtain ⟨b₁, hb₁⟩ : ∃ b₁, s₁.balance a = some b₁ := by
        rw [hs₁, balance_applyEvent, hp]
        exact opened_post hbal.sided id hn
      rcases currency_replay hsound₁ (hs₁ ▸ hs₀ ▸ hnewer).postsBalanced hb₁ with ⟨b₂, hb₂, hcur⟩
      rw [← hs₂] at hb₂
      have habsorb : absorb (s₀.balance a) ⟨accountSum lines a, c⟩ = some b₁ := by
        rw [← hb₁, hpost, if_pos hn]
      rw [if_pos hn, hb₂, absorb_of_same_currency habsorb hcur]
      simp [change, hb₁, amountOf]
    · have hsame : s₁.balance a = s₀.balance a := by rw [hpost, if_neg hn]
      simp [hn, change, hsame, shift_zero]
  refine ⟨by rw [hexec], fun a => ⟨hshift a, change_of_shift (hshift a) ?_⟩⟩
  intro hnone
  rw [change_eq_zero_of_none hsound₀ haccepts.postsBalanced hs₁
    (hs₁ ▸ hs₀ ▸ hnewer).postsBalanced hs₂ hnone, neg_zero]

/-- Reversing an entry changes every balance by the negation of what the entry did when it was
applied, whatever was accepted in between; reversing the reversal applies it again. -/
theorem reversal_inverts {before between after : List (Request ℚ)} {post undo redo : Request ℚ}
    {s₀ s₁ s₂ s₃ s₄ s₅ : LedgerState ℚ} {log₀ log₂ log₃ log₄ log₅ : List (LedgerEvent ℚ)}
    {event : LedgerEvent ℚ} {id : EntryId} {reason reason' : String}
    (h₀ : (run LedgerState.default before).run = (s₀, log₀))
    (h₁ : (execute s₀ post).run = (s₁, [event])) (hid : introduces event = some id)
    (h₂ : (run s₁ between).run = (s₂, log₂))
    (hkeep : ∀ e ∈ log₂, reverses e ≠ some id)
    (hundo : undo.command = .reverseEntry id reason) (h₃ : (execute s₂ undo).run = (s₃, log₃))
    (h₄ : (run s₃ after).run = (s₄, log₄))
    (hkeep' : ∀ e ∈ log₄, reverses e ≠ some undo.newId)
    (hredo : redo.command = .reverseEntry undo.newId reason')
    (h₅ : (execute s₄ redo).run = (s₅, log₅))
    (hfresh : (introduced (log₀ ++ event :: log₂ ++ log₃ ++ log₄ ++ log₅)).Nodup) :
    log₃ = [.entryReversed id undo.newId reason] ∧
      log₅ = [.entryReversed undo.newId redo.newId reason'] ∧
      ∀ a, (s₃.balance a = shift (s₂.balance a) (-change s₀ s₁ a) ∧
          change s₂ s₃ a = -change s₀ s₁ a) ∧
        s₅.balance a = shift (s₄.balance a) (change s₀ s₁ a) ∧
          change s₄ s₅ a = change s₀ s₁ a := by
  rcases run_eq h₀ with ⟨hs₀, hlog₀⟩
  rcases execute_eq h₁ with ⟨hs₁, haccepts, -⟩
  rcases run_eq h₂ with ⟨hs₂, hlog₂⟩
  rcases execute_eq h₃ with ⟨hs₃, hlog₃⟩
  rcases run_eq h₄ with ⟨hs₄, hlog₄⟩
  have happly : s₁ = (applyEvent s₀ event).run := by simpa [replay] using hs₁
  -- The reversal ends the life of the entry.
  have hlog : AcceptedLog LedgerState.default (log₀ ++ event :: log₂) := by
    rw [acceptedLog_append, ← hs₀]
    exact ⟨hlog₀, haccepts, happly ▸ hlog₂⟩
  have hfresh₂ : (introduced (log₀ ++ event :: log₂)).Nodup := by
    simp only [introduced_append, List.nodup_append] at hfresh ⊢
    exact hfresh.1.1.1
  rcases reverse_of_life hs₀ happly hs₂ hlog hfresh₂ hid hkeep hundo with ⟨hevents, hundone⟩
  rw [h₃] at hevents hundone
  have hlog₃_eq : log₃ = [.entryReversed id undo.newId reason] := hevents
  subst hlog₃_eq
  -- The reversal of the reversal ends the life of the reversal.
  have hreplay : s₂ = (replay LedgerState.default (log₀ ++ event :: log₂)).run := by
    rw [replay_append, ← hs₀, replay_cons, ← happly]
    exact hs₂
  have hlog' : AcceptedLog LedgerState.default
      ((log₀ ++ event :: log₂) ++ .entryReversed id undo.newId reason :: log₄) := by
    rw [acceptedLog_append, ← hreplay]
    refine ⟨hlog, hlog₃.1, ?_⟩
    have hnext : s₃ = (applyEvent s₂ (.entryReversed id undo.newId reason)).run := by
      simpa [replay] using hs₃
    exact hnext ▸ hlog₄
  have hfresh₄ : (introduced
      ((log₀ ++ event :: log₂) ++ .entryReversed id undo.newId reason :: log₄)).Nodup := by
    rw [introduced_append] at hfresh
    simpa using (List.nodup_append.1 hfresh).1
  rcases reverse_of_life hreplay (by simpa [replay] using hs₃) hs₄ hlog'
    hfresh₄ rfl hkeep' hredo with ⟨hevents', hredone⟩
  rw [h₅] at hevents' hredone
  refine ⟨rfl, hevents', fun a => ⟨hundone a, ?_⟩⟩
  have hredone := hredone a
  rw [(hundone a).2, neg_neg] at hredone
  exact hredone

/-- A request to move an amount from one account to another. -/
def transfer (newId : EntryId) (amount : Money ℚ) (debited credited : AccountId) : Request ℚ where
  command := .postJournalEntry
    [⟨debited, some amount, none, []⟩, ⟨credited, none, some amount, []⟩]
    (Dimensions.new ⟨1⟩ ⟨2⟩ ⟨3⟩ ⟨4⟩ .opEx)
  newId := newId
  now := ⟨0⟩

/-- The ledger once account 10 is kept in euros. -/
def euroLedger : LedgerState ℚ × List (LedgerEvent ℚ) :=
  (run LedgerState.default [transfer ⟨1⟩ ⟨100, .eur⟩ ⟨10⟩ ⟨11⟩]).run

/-- A dollar entry whose line on account 10 is skipped. -/
def dollarPosted : LedgerState ℚ × List (LedgerEvent ℚ) :=
  (execute euroLedger.1 (transfer ⟨2⟩ ⟨5, .usd⟩ ⟨10⟩ ⟨12⟩)).run

def dollarLater : LedgerState ℚ × List (LedgerEvent ℚ) :=
  (run dollarPosted.1 [transfer ⟨3⟩ ⟨7, .usd⟩ ⟨12⟩ ⟨13⟩]).run

def undoRequest : Request ℚ where
  command := .reverseEntry ⟨2⟩ "posted twice"
  newId := ⟨4⟩
  now := ⟨0⟩

def redoRequest : Request ℚ where
  command := .reverseEntry ⟨4⟩ "not posted twice"
  newId := ⟨5⟩
  now := ⟨0⟩

def dollarUndone : LedgerState ℚ × List (LedgerEvent ℚ) :=
  (execute dollarLater.1 undoRequest).run

def dollarRedone : LedgerState ℚ × List (LedgerEvent ℚ) :=
  (execute dollarUndone.1 redoRequest).run

theorem reversal_inverts_dollarPosted :
    (dollarUndone.1.balance ⟨12⟩ =
        shift (dollarLater.1.balance ⟨12⟩) (-change euroLedger.1 dollarPosted.1 ⟨12⟩) ∧
        change dollarLater.1 dollarUndone.1 ⟨12⟩ =
          -change euroLedger.1 dollarPosted.1 ⟨12⟩) ∧
      dollarRedone.1.balance ⟨12⟩ =
        shift (dollarUndone.1.balance ⟨12⟩) (change euroLedger.1 dollarPosted.1 ⟨12⟩) ∧
        change dollarUndone.1 dollarRedone.1 ⟨12⟩ =
          change euroLedger.1 dollarPosted.1 ⟨12⟩ := by
  have hevent : dollarPosted.2 = [dollarPosted.2.head (by decide +kernel)] := by decide +kernel
  have hafter : (run dollarUndone.1 []).run = (dollarUndone.1, []) := rfl
  have hid : introduces (dollarPosted.2.head (by decide +kernel)) = some ⟨2⟩ := by decide +kernel
  exact (reversal_inverts rfl (Prod.ext rfl hevent) hid rfl (by decide +kernel) rfl rfl hafter
    (by simp) rfl rfl (by decide +kernel)).2.2 ⟨12⟩

end Falkr
