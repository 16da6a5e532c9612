import Falkr.Events.Invariant

/-!
# TrialBalance — when the trial balance stays zero

An accepted entry is in one currency, but an account may already hold another one; the projection
skips such a line and posts the rest.  The trial balance therefore moves by what was skipped
(`balanceSum_post`), and over a run it stays zero exactly as long as the skipped lines of every
accepted entry cancel among themselves (`trialBalance_zero_iff`).
-/

namespace Falkr

open Lib

/-! ## The trial balance is a sum -/

/-- What one balance adds to the trial balance in currency `c`. -/
def shareIn (c : Currency) (b : Money ℚ) : ℚ :=
  if b.currency = c then b.amount else 0

/-- The sum of the balances kept in currency `c`. -/
def balanceSum (c : Currency) (balances : SortedMap AccountId (Money ℚ)) : ℚ :=
  (balances.entries.map fun e => shareIn c e.2).sum

/-- The shares of the balances in one currency are their amounts, and those of the others nothing. -/
theorem sum_shareIn (c : Currency) (balances : List (Money ℚ)) :
    (balances.map (shareIn c)).sum =
      ((balances.filter fun b => b.currency == c).map Money.amount).sum := by
  induction balances with
  | nil => rfl
  | cons b rest ih => by_cases hb : b.currency = c <;> simp [shareIn, hb, ih]

theorem trialBalance_eq (s : LedgerState ℚ) (c : Currency) :
    (s.trialBalance c).run = ⟨balanceSum c s.balances, c⟩ := by
  have hsum : balanceSum c s.balances = (s.balancesIn c).sum := by
    rw [LedgerState.balancesIn, ← sum_shareIn]
    simp [balanceSum, SortedMap.values, Function.comp_def]
  rw [trialBalance_eq_foldlM, Id.run_bind, run_foldlM_add, hsum]
  simp

/-! ## Skipped lines -/

/-- The signed amount of a line that the projection skips because its account is kept in another
currency; zero for a line that is posted. -/
def skippedAmount (balances : SortedMap AccountId (Money ℚ)) (line : JournalLine ℚ) : ℚ :=
  match balances.get? line.account, line.signedAmount with
  | some b, some delta => if b.currency = delta.currency then 0 else delta.amount
  | _, _ => 0

def skippedSum (balances : SortedMap AccountId (Money ℚ)) (lines : List (JournalLine ℚ)) : ℚ :=
  (lines.map (skippedAmount balances)).sum

theorem skippedAmount_eq {balances : SortedMap AccountId (Money ℚ)} {c : Currency}
    {line : JournalLine ℚ} (h : SidedIn c line) :
    skippedAmount balances line =
      (balances.get? line.account).elim 0 fun b => if b.currency = c then 0 else lineAmount line := by
  have hline : line.signedAmount = some ⟨lineAmount line, c⟩ := h
  cases hb : balances.get? line.account <;> simp [skippedAmount, hline, hb]

/-- Posting in currency `c` does not change which lines in currency `c` are skipped. -/
theorem skippedAmount_postLine {balances : SortedMap AccountId (Money ℚ)} {c : Currency}
    {line other : JournalLine ℚ} (h : SidedIn c line) (hother : SidedIn c other) :
    skippedAmount (LedgerState.postLine balances line).run other =
      skippedAmount balances other := by
  rw [skippedAmount_eq hother, skippedAmount_eq hother, get?_postLine balances h]
  by_cases ha : other.account = line.account
  · rw [if_pos ha]
    cases hb : balances.get? other.account with
    | none => simp [absorb]
    | some b => by_cases hc : b.currency = c <;> simp [absorb, hc]
  · rw [if_neg ha]

theorem balanceSum_postLine {balances : SortedMap AccountId (Money ℚ)} {c : Currency}
    {line : JournalLine ℚ} (h : SidedIn c line) (c' : Currency) :
    balanceSum c' (LedgerState.postLine balances line).run =
      balanceSum c' balances +
        if c' = c then lineAmount line - skippedAmount balances line else 0 := by
  rcases postLine_eq_insert balances h with ⟨v, hv, heq⟩
  rw [heq, skippedAmount_eq h]
  unfold balanceSum
  rw [SortedMap.sum_insert]
  -- A new account takes the whole line, one in `c` too, and one in another currency nothing.
  cases hb : balances.get? line.account with
  | none =>
      have hv' : v = ⟨lineAmount line, c⟩ := by simpa [absorb, hb] using hv.symm
      subst hv'
      by_cases hc : c' = c
      · simp [shareIn, hc]
      · simp [shareIn, hc, Ne.symm hc]
  | some b =>
      by_cases hcur : b.currency = c
      · have hv' : v = ⟨b.amount + lineAmount line, b.currency⟩ := by
          simpa [absorb, hb, hcur] using hv.symm
        subst hv'
        by_cases hc : c' = c
        · simp only [shareIn, Option.elim_some, hcur, hc, if_true]
          ring
        · simp [shareIn, hcur, hc, Ne.symm hc]
      · have hv' : v = b := by simpa [absorb, hb, hcur] using hv.symm
        subst hv'
        by_cases hc : c' = c <;> simp [hcur, hc]

theorem balanceSum_postLines {c : Currency} (c' : Currency) :
    ∀ (lines : List (JournalLine ℚ)) (balances : SortedMap AccountId (Money ℚ)),
      AllSidedIn c lines →
      balanceSum c' (lines.foldlM LedgerState.postLine balances).run =
        balanceSum c' balances +
          if c' = c then (lines.map lineAmount).sum - skippedSum balances lines else 0
  | [], balances, _ => by simp [skippedSum]
  | line :: rest, balances, h => by
      rcases List.forall_mem_cons.1 h with ⟨hline, hrest⟩
      have ih := balanceSum_postLines c' rest (LedgerState.postLine balances line).run hrest
      -- The lines after the first one are skipped as if it had not been posted.
      have hskip : skippedSum (LedgerState.postLine balances line).run rest =
          skippedSum balances rest := by
        refine congrArg List.sum (List.map_congr_left ?_)
        intro other hother
        exact skippedAmount_postLine hline (hrest other hother)
      rw [List.foldlM_cons, Id.run_bind, ih, balanceSum_postLine hline, hskip]
      by_cases hc : c' = c
      · simp only [hc, if_true, skippedSum, List.map_cons, List.sum_cons]
        ring
      · simp [hc]

/-- Posting a balanced entry moves the trial balance by what it skips, in its own currency. -/
theorem balanceSum_post {s : LedgerState ℚ} {c : Currency} {lines : List (JournalLine ℚ)}
    (h : Balanced c lines) (id : EntryId) (c' : Currency) :
    balanceSum c' (s.post id lines).run.balances =
      balanceSum c' s.balances - if c' = c then skippedSum s.balances lines else 0 := by
  have hlines := balanceSum_postLines c' lines s.balances h.sided
  rw [h.sum_eq_zero] at hlines
  have hpost : (s.post id lines).run.balances =
      (lines.foldlM LedgerState.postLine s.balances).run := rfl
  rw [hpost, hlines]
  by_cases hc : c' = c <;> simp [hc, sub_eq_add_neg]

theorem skippedSum_mirror (balances : SortedMap AccountId (Money ℚ)) {c : Currency} :
    ∀ {lines : List (JournalLine ℚ)}, AllSidedIn c lines →
      skippedSum balances (mirror lines) = -skippedSum balances lines
  | [], _ => by simp [skippedSum, mirror]
  | line :: rest, h => by
      rcases List.forall_mem_cons.1 h with ⟨hline, hrest⟩
      have ih := skippedSum_mirror balances hrest
      have hmirror : SidedIn c line.mirror := sidedIn_of_signedAmount (signedAmount_mirror hline)
      have hhead : skippedAmount balances line.mirror = -skippedAmount balances line := by
        rw [skippedAmount_eq hmirror, skippedAmount_eq hline, account_mirror,
          lineAmount_mirror hline]
        cases balances.get? line.account with
        | none => simp
        | some b => by_cases hc : b.currency = c <;> simp [hc]
      have hcons : mirror (line :: rest) = line.mirror :: mirror rest := rfl
      unfold skippedSum at *
      rw [hcons, List.map_cons, List.sum_cons, List.map_cons, List.sum_cons, ih, hhead]
      ring

/-! ## Entries whose skipped lines cancel -/

/-- The skipped lines of every stored entry cancel. -/
def Cancelling (s : LedgerState ℚ) : Prop :=
  ∀ id lines, s.entries.get? id = some lines → skippedSum s.balances lines = 0

/-- In the entry an event posts of its own, the skipped lines cancel. -/
def EventCancels (s : LedgerState ℚ) : LedgerEvent ℚ → Prop
  | .journalEntryPosted _ lines _ _ => skippedSum s.balances lines = 0
  | _ => True

theorem skippedSum_of_posting {s : LedgerState ℚ} {event : LedgerEvent ℚ} {id : EntryId}
    {lines : List (JournalLine ℚ)} (hs : Sound s) (hcancel : Cancelling s)
    (hevent : EventCancels s event) (h : posting s event = some (id, lines)) :
    skippedSum s.balances lines = 0 := by
  rcases posting_cases h with
    ⟨dims, postedAt, rfl⟩ | ⟨originalId, reason, original, rfl, hget, rfl⟩
  · exact hevent
  · rcases hs.balanced originalId original hget with ⟨c, hbal⟩
    rw [skippedSum_mirror _ hbal.sided, hcancel originalId original hget, neg_zero]

theorem skippedSum_postLines {c : Currency} {other : List (JournalLine ℚ)}
    (hother : AllSidedIn c other) :
    ∀ {lines : List (JournalLine ℚ)} {balances : SortedMap AccountId (Money ℚ)},
      AllSidedIn c lines →
      skippedSum (lines.foldlM LedgerState.postLine balances).run other = skippedSum balances other
  | [], _, _ => rfl
  | line :: rest, balances, h => by
      rcases List.forall_mem_cons.1 h with ⟨hline, hrest⟩
      rw [List.foldlM_cons, Id.run_bind, skippedSum_postLines hother hrest]
      refine congrArg List.sum (List.map_congr_left ?_)
      intro l hl
      exact skippedAmount_postLine hline (hother l hl)

/-- On accounts that have a balance, what is skipped does not change: their currency is fixed. -/
theorem skippedSum_applyEvent {s : LedgerState ℚ} {event : LedgerEvent ℚ} {c : Currency}
    {lines : List (JournalLine ℚ)} (hs : Sound s) (hevent : PostsBalanced event)
    (hsided : AllSidedIn c lines) (hopen : ∀ a, Names lines a → ∃ b, s.balance a = some b) :
    skippedSum (applyEvent s event).run.balances lines = skippedSum s.balances lines := by
  refine congrArg List.sum (List.map_congr_left ?_)
  intro line hline
  rcases hopen line.account ⟨line, hline, rfl⟩ with ⟨b, hb⟩
  rcases currency_applyEvent hs hevent hb with ⟨b', hb', hcur⟩
  unfold LedgerState.balance at hb hb'
  rw [skippedAmount_eq (hsided line hline), skippedAmount_eq (hsided line hline), hb, hb']
  simp [hcur]

theorem Cancelling.applyEvent {s : LedgerState ℚ} {event : LedgerEvent ℚ}
    (hcancel : Cancelling s) (hs : Sound s) (hposts : PostsBalanced event)
    (hevent : EventCancels s event) : Cancelling (applyEvent s event).run := by
  intro id lines hget
  rw [entries_applyEvent] at hget
  cases hp : posting s event with
  | none =>
      have hold : s.entries.get? id = some lines := by simpa [hp] using hget
      rcases hs.balanced id lines hold with ⟨c, hbal⟩
      rw [skippedSum_applyEvent hs hposts hbal.sided (hs.opened id lines hold)]
      exact hcancel id lines hold
  | some entry =>
      rcases entry with ⟨newId, newLines⟩
      rcases balanced_of_posting hs hposts hp with ⟨c, hnew⟩
      -- The new entry was judged as it was posted; the older ones are on accounts with a balance.
      by_cases hid : id = newId
      · have hlines : newLines = lines := by simpa [hp, hid] using hget
        subst hlines
        have hbalances : (Falkr.applyEvent s event).run.balances =
            (newLines.foldlM LedgerState.postLine s.balances).run := by
          rw [balances_applyEvent, hp]
          rfl
        rw [hbalances, skippedSum_postLines hnew.sided hnew.sided]
        exact skippedSum_of_posting hs hcancel hevent hp
      · have hold : s.entries.get? id = some lines := by simpa [hp, hid] using hget
        rcases hs.balanced id lines hold with ⟨c', hbal⟩
        rw [skippedSum_applyEvent hs hposts hbal.sided (hs.opened id lines hold)]
        exact hcancel id lines hold

/-- An event whose skipped lines cancel leaves every trial balance where it was. -/
theorem balanceSum_applyEvent {s : LedgerState ℚ} {event : LedgerEvent ℚ} (hcancel : Cancelling s)
    (hs : Sound s) (hposts : PostsBalanced event) (hevent : EventCancels s event) (c : Currency) :
    balanceSum c (applyEvent s event).run.balances = balanceSum c s.balances := by
  rw [balances_applyEvent]
  cases hp : posting s event with
  | none => rfl
  | some entry =>
      rcases entry with ⟨id, lines⟩
      rcases balanced_of_posting hs hposts hp with ⟨c', hbal⟩
      simp [balanceSum_post hbal, skippedSum_of_posting hs hcancel hevent hp]

/-- The trial balance of a posted entry's currency stays only if its skipped lines cancel. -/
theorem eventCancels_of_balanceSum {s : LedgerState ℚ} {event : LedgerEvent ℚ}
    (hposts : PostsBalanced event)
    (h : ∀ c, balanceSum c (applyEvent s event).run.balances = balanceSum c s.balances) :
    EventCancels s event := by
  cases event with
  | journalEntryPosted id lines dims postedAt =>
      rcases hposts with ⟨c, hbal⟩
      have hc := h c
      rw [balances_applyEvent] at hc
      simpa [posting, balanceSum_post hbal, EventCancels] using hc
  | entryReversed originalId reversalId reason => exact trivial
  | capitalizationStatusChanged runId fromStatus toStatus policyRef => exact trivial

/-! ## Runs -/

/-- If the request posts an entry, the lines of it on accounts kept in another currency cancel. -/
def RequestCancels (s : LedgerState ℚ) (request : Request ℚ) : Prop :=
  ∀ lines dims, request.command = .postJournalEntry lines dims →
    (∃ events, (handleCommand s request.command request.newId request.now).run = .ok events) →
    skippedSum s.balances lines = 0

/-- Every entry a run posts meets `RequestCancels` in the state it is posted in. -/
def SkipsCancel : LedgerState ℚ → List (Request ℚ) → Prop
  | _, [] => True
  | s, request :: rest => RequestCancels s request ∧ SkipsCancel (execute s request).run.1 rest

theorem requestCancels_iff {s : LedgerState ℚ} {request : Request ℚ} {event : LedgerEvent ℚ}
    (h : (handleCommand s request.command request.newId request.now).run = .ok [event]) :
    RequestCancels s request ↔ EventCancels s event := by
  rcases request with ⟨command, newId, now⟩
  cases command with
  | postJournalEntry lines dims =>
      rcases balanced_of_handleCommand h with ⟨-, hevent⟩
      have hevent' : event = .journalEntryPosted newId lines dims now := by simpa using hevent
      subst hevent'
      constructor
      · intro hcancel
        exact hcancel lines dims rfl ⟨_, h⟩
      · rintro hcancel lines' dims' heq -
        cases heq
        exact hcancel
  -- Only a posting has lines of its own; the other answers post none or mirrored ones.
  | reverseEntry originalId reason =>
      have hevent : event = .entryReversed originalId newId reason := by
        by_cases hknown : s.entries.contains originalId <;>
          by_cases hrev : s.isReversed originalId <;>
          simp [handleCommand, hknown, hrev] at h
        exact h.symm
      subst hevent
      exact ⟨fun _ => trivial, fun _ lines dims heq => by cases heq⟩
  | changeCapitalizationStatus runId toStatus policyRef =>
      have hevent : event = .capitalizationStatusChanged runId
          ((s.capitalizationStatus runId).getD .pendingReview) toStatus policyRef := by
        by_cases hsame : (s.capitalizationStatus runId).getD .pendingReview = toStatus <;>
          simp [handleCommand, hsame] at h
        exact h.symm
      subst hevent
      exact ⟨fun _ => trivial, fun _ lines dims heq => by cases heq⟩

/-- All trial balances of a state are zero. -/
def ZeroTrialBalances (s : LedgerState ℚ) : Prop :=
  ∀ c, (s.trialBalance c).run = Money.zero c

theorem zeroTrialBalances_iff (s : LedgerState ℚ) :
    ZeroTrialBalances s ↔ ∀ c, balanceSum c s.balances = 0 := by
  simp [ZeroTrialBalances, trialBalance_eq, Money.zero]

/-- One request: the trial balances stay zero exactly when the skipped lines cancel, and then the
stored entries go on cancelling. -/
theorem execute_zero_iff {s : LedgerState ℚ} (hs : Sound s) (hcancel : Cancelling s)
    (hzero : ZeroTrialBalances s) (request : Request ℚ) :
    (ZeroTrialBalances (execute s request).run.1 ↔ RequestCancels s request) ∧
      (RequestCancels s request →
        Sound (execute s request).run.1 ∧ Cancelling (execute s request).run.1) := by
  rcases execute_cases s request with ⟨error, hreject, heq⟩ | ⟨event, hok, hacc, heq⟩
  · have hvacuous : RequestCancels s request := by
      rintro lines dims - ⟨events, hevents⟩
      rw [hreject] at hevents
      cases hevents
    rw [heq]
    exact ⟨⟨fun _ => hvacuous, fun _ => hzero⟩, fun _ => ⟨hs, hcancel⟩⟩
  · rw [heq, requestCancels_iff hok]
    have hposts := hacc.postsBalanced
    rw [zeroTrialBalances_iff] at hzero
    refine ⟨⟨fun h => ?_, fun h => ?_⟩, fun h => ?_⟩
    · rw [zeroTrialBalances_iff] at h
      exact eventCancels_of_balanceSum hposts fun c => (h c).trans (hzero c).symm
    · rw [zeroTrialBalances_iff]
      intro c
      rw [balanceSum_applyEvent hcancel hs hposts h, hzero c]
    · exact ⟨hs.applyEvent hposts, hcancel.applyEvent hs hposts h⟩

theorem run_zero_iff :
    ∀ (requests : List (Request ℚ)) (s : LedgerState ℚ), Sound s → Cancelling s →
      ZeroTrialBalances s →
      ((∀ n, ZeroTrialBalances (run s (requests.take n)).run.1) ↔ SkipsCancel s requests)
  | [], s, _, _, hzero => by simpa [SkipsCancel, run] using hzero
  | request :: rest, s, hs, hcancel, hzero => by
      rcases execute_zero_iff hs hcancel hzero request with ⟨hiff, hkeep⟩
      constructor
      · intro hall
        have hfirst : ZeroTrialBalances (execute s request).run.1 := by
          simpa [run] using hall 1
        have hrequest := hiff.1 hfirst
        rcases hkeep hrequest with ⟨hs', hcancel'⟩
        refine ⟨hrequest, (run_zero_iff rest _ hs' hcancel' hfirst).1 ?_⟩
        intro n
        simpa [run_cons] using hall (n + 1)
      · rintro ⟨hrequest, hrest⟩ n
        rcases hkeep hrequest with ⟨hs', hcancel'⟩
        have hall := (run_zero_iff rest _ hs' hcancel' (hiff.2 hrequest)).2 hrest
        cases n with
        | zero => simpa [run] using hzero
        | succ n => simpa [run_cons] using hall n

/-- After every command of a run every trial balance is zero, exactly when in each entry the run
posts the lines on accounts that already hold another currency cancel. -/
theorem trialBalance_zero_iff (requests : List (Request ℚ)) :
    (∀ n c, ((run LedgerState.default (requests.take n)).run.1.trialBalance c).run =
        Money.zero c) ↔
      SkipsCancel LedgerState.default requests := by
  refine run_zero_iff requests LedgerState.default sound_default ?_ ?_
  · intro id lines h
    simp [LedgerState.default] at h
  · intro c
    simp [LedgerState.trialBalance, LedgerState.default]

/-- A euro entry opens the cash account; a dollar entry then moves the rent account only. -/
def mixedCurrencyRequests : List (Request ℚ) :=
  let dims := Dimensions.new ⟨1⟩ ⟨2⟩ ⟨3⟩ ⟨4⟩ .opEx
  let euro : Money ℚ := { amount := 100, currency := .eur }
  let dollar : Money ℚ := { amount := 5, currency := .usd }
  [{ command := .postJournalEntry
       [⟨⟨10⟩, some euro, none, []⟩, ⟨⟨11⟩, none, some euro, []⟩] dims
     newId := ⟨1⟩
     now := ⟨0⟩ },
    { command := .postJournalEntry
        [⟨⟨10⟩, some dollar, none, []⟩, ⟨⟨12⟩, none, some dollar, []⟩] dims
      newId := ⟨2⟩
      now := ⟨0⟩ }]

/-- Both entries are accepted under fresh identifiers, and the dollar trial balance ends at minus
five. -/
theorem trialBalance_mixedCurrencyRequests :
    (mixedCurrencyRequests.map Request.newId).Nodup ∧
      (run LedgerState.default mixedCurrencyRequests).run.2.length = 2 ∧
      ((run LedgerState.default mixedCurrencyRequests).run.1.trialBalance .usd).run =
        { amount := -5, currency := .usd } ∧
      ((run LedgerState.default mixedCurrencyRequests).run.1.trialBalance .usd).run ≠
        Money.zero .usd := by
  decide +kernel

end Falkr
