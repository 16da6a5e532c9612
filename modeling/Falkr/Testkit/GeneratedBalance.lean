import Falkr.Core.RunningSums
import Falkr.Testkit.Assertions
import Falkr.Testkit.Generator

/-!
# GeneratedBalance — when the generated entries balance

The plug negates the running sum of the drawn lines, which the checker comes to as well.  So an
entry that gets its plug balances as long as adding up what was drawn neither overflows nor rounds;
an entry without one balances only by chance (`entryBalanced_iff`).
-/

namespace Falkr

open Lib Decimal

/-! ## The checker on lines of one currency -/

/-- The line carries one side, in the currency. -/
def SignedIn (c : Currency) (line : JournalLine Decimal) : Prop :=
  ∃ amount, line.signedAmount = some { amount := amount, currency := c }

/-- The signed amounts of the lines. -/
def signedAmounts (lines : List (JournalLine Decimal)) : List Decimal :=
  lines.filterMap fun line => line.signedAmount.map Money.amount

theorem signedAmounts_append (lines lines' : List (JournalLine Decimal)) :
    signedAmounts (lines ++ lines') = signedAmounts lines ++ signedAmounts lines' :=
  List.filterMap_append

theorem signedAmounts_singleton {line : JournalLine Decimal} {amount : Money Decimal}
    (h : line.signedAmount = some amount) : signedAmounts [line] = [amount.amount] := by
  simp [signedAmounts, h]

section Checker

variable {c : Currency} {lines : List (JournalLine Decimal)}

theorem signedAmounts_eq_nil_iff (h : ∀ line ∈ lines, SignedIn c line) :
    signedAmounts lines = [] ↔ lines = [] := by
  constructor
  · intro hnil
    rw [List.eq_nil_iff_forall_not_mem]
    intro line hline
    rcases h line hline with ⟨amount, hamount⟩
    have hnone := List.filterMap_eq_nil_iff.1 hnil line hline
    rw [hamount] at hnone
    cases hnone
  · rintro rfl
    rfl

theorem signedLines_of_signedIn (h : ∀ line ∈ lines, SignedIn c line) {signed : List Decimal}
    {currencies : Finset Currency} (hcurrencies : currencies ⊆ {c}) :
    ∃ currencies' ⊆ {c},
      signedLines lines signed currencies = .ok (signed ++ signedAmounts lines, currencies') := by
  induction lines generalizing signed currencies with
  | nil => exact ⟨currencies, hcurrencies, by simp [signedLines, signedAmounts]⟩
  | cons line rest ih =>
      rcases List.forall_mem_cons.1 h with ⟨⟨amount, hamount⟩, hrest⟩
      have hinsert : insert c currencies ⊆ {c} := by
        rw [Finset.insert_subset_iff]
        exact ⟨Finset.mem_singleton_self c, hcurrencies⟩
      rcases @ih hrest (signed ++ [amount]) _ hinsert with ⟨currencies', hsub, hloop⟩
      refine ⟨currencies', hsub, ?_⟩
      rw [signedLines, hamount]
      dsimp only
      rw [hloop]
      simp [signedAmounts, hamount]

theorem checkedSum_eq_ok_iff {inv : Invariant} {values : List Decimal} {start total : Decimal} :
    checkedSum inv values start = .ok total ↔ values.foldlM Amount.add start = some total := by
  induction values generalizing start with
  | nil => simp [checkedSum]
  | cons value rest ih =>
      have hchecked : CheckedAmount.checkedAdd start value = (Amount.add start value) := rfl
      rw [checkedSum, hchecked, List.foldlM_cons]
      cases (Amount.add start value : Option Decimal) with
      | none => simp
      | some sum => simpa using ih

/-- Lines of one currency pass exactly when there are some and the additions come to zero. -/
theorem assertBalanced_iff_of_signedIn (h : ∀ line ∈ lines, SignedIn c line) :
    assertBalanced lines = .ok () ↔ lines ≠ [] ∧
      ∃ total, (signedAmounts lines).foldlM Amount.add Amount.zero = some total ∧
        total.toRat = 0 := by
  rcases @signedLines_of_signedIn _ _ h [] _ (Finset.empty_subset {c}) with
    ⟨currencies, hsub, hloop⟩
  have hcard : ¬ 1 < currencies.card := not_lt.2 (Finset.card_le_card hsub)
  rw [List.nil_append] at hloop
  unfold assertBalanced
  by_cases hne : lines = []
  · subst hne
    simp
  · rw [if_neg (by simpa using hne), hloop]
    simp only [bind, Except.bind, if_neg hcard]
    simp only [← @checkedSum_eq_ok_iff .balanced]
    cases hsum : checkedSum .balanced (signedAmounts lines) (Amount.zero : Decimal) with
    | error violation => simp
    | ok total =>
        have hzero : Amount.eq total (Amount.zero : Decimal) = true ↔ total.toRat = 0 := by
          rw [eq_iff, toRat_zero]
        by_cases htotal : total.toRat = 0
        · simp [hzero.2 htotal, htotal, hne]
        · simp [mt hzero.1 htotal, htotal]

end Checker

/-! ## The drawn lines -/

section Draws

variable {lib : Externals Decimal} {spec : GeneratorSpec} {code : String}

theorem signedAmount_debitLine (id : AccountId) (amount : Money Decimal) :
    (debitLine id amount).signedAmount = some amount := rfl

theorem signedAmount_creditLine (id : AccountId) (amount : Money Decimal) :
    (creditLine id amount).signedAmount = some amount.negate := rfl

/-- What holds of the variables of the loop: the sum is that of the lines. -/
structure Drawn (spec : GeneratorSpec) (drawing : Drawing) : Prop where
  signedIn : ∀ line ∈ drawing.lines, SignedIn spec.currency line
  running_eq : drawing.running = sumSkipping Amount.zero (signedAmounts drawing.lines)
  /-- Amounts are whole minor units, cut off at `i64::MAX`. -/
  bounded : ∀ a ∈ signedAmounts drawing.lines,
    a.scale = spec.scale ∧ a.mantissa.natAbs ≤ 2 ^ 63 - 1

theorem drawn_start (rng : Rng) : Drawn spec (.start rng) where
  signedIn := by simp [Drawing.start]
  running_eq := rfl
  bounded := by simp [Drawing.start, signedAmounts]

/-- A drawn line is added to the lines and to their sum. -/
theorem Drawn.append {drawing : Drawing} (h : Drawn spec drawing) {line : JournalLine Decimal}
    {amount : Decimal}
    (hline : line.signedAmount = some { amount := amount, currency := spec.currency })
    (hamount : amount.scale = spec.scale ∧ amount.mantissa.natAbs ≤ 2 ^ 63 - 1) (rng : Rng) :
    Drawn spec {
      rng := rng
      lines := drawing.lines ++ [line]
      running := (add drawing.running amount).getD drawing.running } where
  signedIn := by
    intro line' hline'
    rcases List.mem_append.1 hline' with hold | hnew
    · exact h.signedIn line' hold
    · rw [List.mem_singleton.1 hnew]
      exact ⟨amount, hline⟩
  running_eq := by
    rw [signedAmounts_append, signedAmounts_singleton hline, sumSkipping_append_singleton,
      ← h.running_eq]
  bounded := by
    intro a ha
    rw [signedAmounts_append, signedAmounts_singleton hline] at ha
    rcases List.mem_append.1 ha with hold | hnew
    · exact h.bounded a hold
    · rw [List.mem_singleton.1 hnew]
      exact hamount

theorem natAbs_magnitude_le (minor : UInt64) :
    (spec.magnitude minor).mantissa.natAbs ≤ 2 ^ 63 - 1 :=
  Nat.min_le_right _ _

theorem natAbs_neg_magnitude_le (minor : UInt64) :
    (neg (spec.magnitude minor)).mantissa.natAbs ≤ 2 ^ 63 - 1 := by
  rw [neg, Int.natAbs_neg]
  exact natAbs_magnitude_le minor

theorem drawn_drawLine {drawing : Drawing} (h : Drawn spec drawing) :
    Drawn spec (drawLine lib spec drawing) := by
  unfold drawLine
  dsimp only
  split
  · exact ⟨h.signedIn, h.running_eq, h.bounded⟩
  · split_ifs
    · exact h.append (signedAmount_debitLine _ _) ⟨rfl, natAbs_magnitude_le _⟩ _
    · exact h.append (signedAmount_creditLine _ _) ⟨rfl, natAbs_neg_magnitude_le _⟩ _

theorem drawn_drawLines (n : Nat) {drawing : Drawing} (h : Drawn spec drawing) :
    Drawn spec (drawLines lib spec n drawing) := by
  induction n generalizing drawing with
  | zero => exact h
  | succ n ih => exact ih (drawn_drawLine h)

theorem drawn_drawEntry (rng : Rng) : Drawn spec (drawEntry lib spec rng) :=
  drawn_drawLines _ (drawn_start _)

/-! ## The plug -/

/-- The plug carries the running sum with the opposite sign. -/
theorem signedAmount_plugLine (code : String) (running : Decimal) :
    (plugLine lib spec code running).signedAmount =
      some { amount := Amount.neg running, currency := spec.currency } := by
  unfold plugLine
  dsimp only
  split_ifs with hnegative
  · have habs : running.abs = Amount.neg running := by
      have hmantissa : (running.mantissa.natAbs : Int) = -running.mantissa := by omega
      simp [Decimal.abs, Amount.neg, neg, hmantissa]
    rw [signedAmount_debitLine, habs]
  · have habs : Amount.neg running.abs = Amount.neg running := by
      have hmantissa : (running.mantissa.natAbs : Int) = running.mantissa := by omega
      simp [Decimal.abs, Amount.neg, neg, hmantissa]
    rw [signedAmount_creditLine, Money.negate, habs]

theorem exists_add_neg_self (d : Decimal) :
    ∃ total, add d (neg d) = some total ∧ total.toRat = 0 := by
  have hexact : d.toRat + (neg d).toRat = (Amount.zero : Decimal).toRat := by
    rw [toRat_neg_eq, add_neg_cancel, toRat_zero]
  have hrepresentable : Representable (d.toRat + (neg d).toRat) := ⟨Amount.zero, hexact.symm⟩
  rcases exists_add_iff.2 (fits_of_representable hrepresentable) with ⟨total, htotal⟩
  refine ⟨total, htotal, ?_⟩
  rw [(toRat_add_iff htotal).2 hrepresentable, hexact, toRat_zero]

end Draws

/-! ## One entry -/

/-- What the checker looks for: lines of one currency that add up to zero, exactly too. -/
structure EntryBalanced (lines : List (JournalLine Decimal)) : Prop where
  passes : assertBalanced lines = .ok ()
  ne_nil : lines ≠ []
  one_currency : ∃ c, ∀ line ∈ lines, SignedIn c line
  sum_eq : ((signedAmounts lines).map toRat).sum = 0

/-- The signed amounts that are drawn for an entry. -/
def drawnAmounts (lib : Externals Decimal) (spec : GeneratorSpec) (rng : Rng) : List Decimal :=
  signedAmounts (drawEntry lib spec rng).lines

/-- The account that is drawn for the plug of an entry. -/
def plugDraw (lib : Externals Decimal) (spec : GeneratorSpec) (rng : Rng) : Option String :=
  (plugAccount spec (drawEntry lib spec rng).rng).1

/-- Adding up what is drawn neither overflows nor loses anything, and the plug has an account or
is not needed. -/
structure DrawsBalance (lib : Externals Decimal) (spec : GeneratorSpec) (rng : Rng) : Prop where
  fits : RunningFits Amount.zero (drawnAmounts lib spec rng)
  lossless : lost Amount.zero (drawnAmounts lib spec rng) = 0
  closed : (plugDraw lib spec rng).isSome = true ∨
    drawnAmounts lib spec rng ≠ [] ∧ ((drawnAmounts lib spec rng).map toRat).sum = 0

section Entries

variable (lib : Externals Decimal) (spec : GeneratorSpec) (rng : Rng)

theorem lines_generateEntry : (generateEntry lib spec rng).1.lines =
    (drawEntry lib spec rng).lines ++ ((plugDraw lib spec rng).map fun code =>
      plugLine lib spec code (drawEntry lib spec rng).running).toList := by
  unfold generateEntry plugDraw
  cases hplug : plugAccount spec (drawEntry lib spec rng).rng with
  | mk account next => cases account <;> simp [hplug]

theorem signedIn_generateEntry :
    ∀ line ∈ (generateEntry lib spec rng).1.lines, SignedIn spec.currency line := by
  intro line hline
  rw [lines_generateEntry] at hline
  rcases List.mem_append.1 hline with hdrawn | hplug
  · exact (drawn_drawEntry rng).signedIn line hdrawn
  · rcases Option.map_eq_some_iff.1 (Option.mem_toList.1 hplug) with ⟨code, -, rfl⟩
    exact ⟨_, signedAmount_plugLine code _⟩

/-- The exact sum of what is drawn is the running sum and what the additions lost. -/
theorem sum_drawnAmounts : ((drawnAmounts lib spec rng).map toRat).sum =
    (drawEntry lib spec rng).running.toRat + lost Amount.zero (drawnAmounts lib spec rng) := by
  have hsum := toRat_add_lost (drawnAmounts lib spec rng) Amount.zero
  rw [toRat_zero, zero_add] at hsum
  rw [hsum, (drawn_drawEntry rng).running_eq]
  rfl

/-- Where the additions do not overflow, they come to the running sum. -/
theorem foldlM_drawnAmounts (h : RunningFits Amount.zero (drawnAmounts lib spec rng)) :
    (drawnAmounts lib spec rng).foldlM Amount.add Amount.zero =
      some (drawEntry lib spec rng).running := by
  rw [foldlM_add_eq_some h, (drawn_drawEntry rng).running_eq]
  rfl

/-- The currencies are always right; what is left are the lines and their sums. -/
theorem entryBalanced_iff_sums : EntryBalanced (generateEntry lib spec rng).1.lines ↔
    (generateEntry lib spec rng).1.lines ≠ [] ∧
      (∃ total, (signedAmounts (generateEntry lib spec rng).1.lines).foldlM Amount.add
        Amount.zero = some total ∧ total.toRat = 0) ∧
      ((signedAmounts (generateEntry lib spec rng).1.lines).map toRat).sum = 0 := by
  have hsigned := signedIn_generateEntry lib spec rng
  constructor
  · intro h
    rcases (assertBalanced_iff_of_signedIn hsigned).1 h.passes with ⟨hne, htotal⟩
    exact ⟨hne, htotal, h.sum_eq⟩
  · rintro ⟨hne, htotal, hsum⟩
    exact ⟨(assertBalanced_iff_of_signedIn hsigned).2 ⟨hne, htotal⟩, hne, ⟨_, hsigned⟩, hsum⟩

theorem entryBalanced_iff_of_plug {code : String} (hplug : plugDraw lib spec rng = some code) :
    EntryBalanced (generateEntry lib spec rng).1.lines ↔
      RunningFits Amount.zero (drawnAmounts lib spec rng) ∧
        lost Amount.zero (drawnAmounts lib spec rng) = 0 := by
  have hlines := lines_generateEntry lib spec rng
  rw [hplug, Option.map_some, Option.toList_some] at hlines
  have hamounts : signedAmounts (generateEntry lib spec rng).1.lines =
      drawnAmounts lib spec rng ++ [neg (drawEntry lib spec rng).running] := by
    rw [hlines, signedAmounts_append, signedAmounts_singleton (signedAmount_plugLine code _)]
    rfl
  -- The plug leaves of the exact sum what the running sum has lost of it.
  have hexact : ((drawnAmounts lib spec rng ++ [neg (drawEntry lib spec rng).running]).map
      toRat).sum = lost Amount.zero (drawnAmounts lib spec rng) := by
    calc ((drawnAmounts lib spec rng ++ [neg (drawEntry lib spec rng).running]).map toRat).sum
        = ((drawnAmounts lib spec rng).map toRat).sum +
            (neg (drawEntry lib spec rng).running).toRat := by simp
      _ = (drawEntry lib spec rng).running.toRat + lost Amount.zero (drawnAmounts lib spec rng) +
            -(drawEntry lib spec rng).running.toRat := by
          rw [sum_drawnAmounts, toRat_neg_eq]
      _ = lost Amount.zero (drawnAmounts lib spec rng) := by ring
  rw [entryBalanced_iff_sums, hamounts, hexact, List.foldlM_append]
  constructor
  · rintro ⟨-, ⟨total, hfold, -⟩, hlost⟩
    rcases Option.bind_eq_some_iff.1 hfold with ⟨running, hrunning, -⟩
    exact ⟨(foldlM_add_isSome_iff _ _).1 (Option.isSome_iff_exists.2 ⟨running, hrunning⟩), hlost⟩
  · rintro ⟨hfits, hlost⟩
    rcases exists_add_neg_self (drawEntry lib spec rng).running with ⟨total, hadd, htotal⟩
    have hadd' : (Amount.add (drawEntry lib spec rng).running
        (neg (drawEntry lib spec rng).running) : Option Decimal) = some total := hadd
    refine ⟨by simp [hlines], ⟨total, ?_, htotal⟩, hlost⟩
    rw [foldlM_drawnAmounts lib spec rng hfits, Option.bind_eq_bind, Option.bind_some,
      List.foldlM_cons, hadd']
    rfl

theorem entryBalanced_iff_of_no_plug (hplug : plugDraw lib spec rng = none) :
    EntryBalanced (generateEntry lib spec rng).1.lines ↔
      (RunningFits Amount.zero (drawnAmounts lib spec rng) ∧
        lost Amount.zero (drawnAmounts lib spec rng) = 0) ∧
      drawnAmounts lib spec rng ≠ [] ∧ ((drawnAmounts lib spec rng).map toRat).sum = 0 := by
  have hlines := lines_generateEntry lib spec rng
  rw [hplug, Option.map_none, Option.toList_none, List.append_nil] at hlines
  have hnil : drawnAmounts lib spec rng = [] ↔ (drawEntry lib spec rng).lines = [] :=
    signedAmounts_eq_nil_iff (drawn_drawEntry rng).signedIn
  have hsum := sum_drawnAmounts lib spec rng
  rw [entryBalanced_iff_sums, hlines, ne_eq, ← hnil]
  constructor
  · rintro ⟨hne, ⟨total, hfold, htotal⟩, hzero⟩
    have hfits : RunningFits Amount.zero (drawnAmounts lib spec rng) :=
      (foldlM_add_isSome_iff _ _).1 (Option.isSome_iff_exists.2 ⟨total, hfold⟩)
    have hrunning := foldlM_drawnAmounts lib spec rng hfits
    have hfold' : (drawnAmounts lib spec rng).foldlM Amount.add Amount.zero = some total := hfold
    rw [hfold', Option.some.injEq] at hrunning
    have hzero' : ((drawnAmounts lib spec rng).map toRat).sum = 0 := hzero
    rw [hzero', ← hrunning, htotal, zero_add] at hsum
    exact ⟨⟨hfits, hsum.symm⟩, hne, hzero'⟩
  · rintro ⟨⟨hfits, hlost⟩, hne, hzero⟩
    rw [hzero, hlost, add_zero] at hsum
    exact ⟨hne, ⟨_, foldlM_drawnAmounts lib spec rng hfits, hsum.symm⟩, hzero⟩

theorem entryBalanced_iff :
    EntryBalanced (generateEntry lib spec rng).1.lines ↔ DrawsBalance lib spec rng := by
  cases hplug : plugDraw lib spec rng with
  | some code =>
      rw [entryBalanced_iff_of_plug lib spec rng hplug]
      constructor
      · exact fun h => ⟨h.1, h.2, Or.inl (by rw [hplug]; rfl)⟩
      · exact fun h => ⟨h.fits, h.lossless⟩
  | none =>
      rw [entryBalanced_iff_of_no_plug lib spec rng hplug]
      constructor
      · exact fun h => ⟨h.1.1, h.1.2, Or.inr h.2⟩
      · intro h
        refine ⟨⟨h.fits, h.lossless⟩, h.closed.resolve_left ?_⟩
        rw [hplug]
        exact Bool.false_ne_true

end Entries

/-! ### Entries that are not too long -/

theorem Rng.fst_below_lt (rng : Rng) {n : UInt64} (h : 0 < n.toNat) :
    (rng.below n).1.toNat < n.toNat := by
  have hn : n ≠ 0 := by
    rintro rfl
    exact absurd h (by decide)
  rw [below, if_neg hn]
  dsimp only
  rw [UInt64.toNat_mod]
  exact Nat.mod_lt _ h

theorem Rng.fst_between_le (rng : Rng) {low high : UInt64} (hlow : 0 < low.toNat)
    (h : low ≤ high) : (rng.between low high).1 ≤ high := by
  unfold between
  split_ifs with hle
  · exact h
  · have hle' := UInt64.le_iff_toNat_le.1 h
    have hhigh := high.toNat_lt
    -- A positive lower end keeps the size of the range below 2 ^ 64.
    have hrange : (high - low + 1).toNat = high.toNat - low.toNat + 1 := by
      rw [UInt64.toNat_add, UInt64.toNat_sub_of_le _ _ h, UInt64.toNat_one]
      omega
    have hoffset := rng.fst_below_lt (n := high - low + 1) (by omega)
    dsimp only
    rw [UInt64.le_iff_toNat_le, UInt64.toNat_add]
    omega

theorem length_drawLine_le (lib : Externals Decimal) (spec : GeneratorSpec) (drawing : Drawing) :
    (drawLine lib spec drawing).lines.length ≤ drawing.lines.length + 1 := by
  unfold drawLine
  dsimp only
  split
  · exact Nat.le_succ _
  · split_ifs <;> simp

theorem length_drawLines_le (lib : Externals Decimal) (spec : GeneratorSpec) (n : Nat)
    (drawing : Drawing) :
    (drawLines lib spec n drawing).lines.length ≤ drawing.lines.length + n := by
  induction n generalizing drawing with
  | zero => exact le_rfl
  | succ n ih =>
      have hstep := length_drawLine_le lib spec drawing
      have hrest := ih (drawLine lib spec drawing)
      rw [drawLines]
      omega

theorem le_max_uint64 (a b : UInt64) : b ≤ max a b := by
  have hmax : max a b = if a ≤ b then b else a := rfl
  rw [hmax]
  split_ifs with h
  · exact UInt64.le_refl b
  · exact UInt64.le_of_lt (UInt64.not_le.1 h)

section Short

variable (lib : Externals Decimal) (spec : GeneratorSpec) (rng : Rng)

theorem two_le_leastLines : 2 ≤ spec.leastLines.toNat :=
  UInt64.le_iff_toNat_le.1 (le_max_uint64 spec.minLines 2)

theorem length_drawnAmounts_lt : (drawnAmounts lib spec rng).length < spec.mostLines.toNat := by
  have hleast := two_le_leastLines spec
  have hmost : spec.leastLines ≤ spec.mostLines := le_max_uint64 _ _
  have hmost' := UInt64.le_iff_toNat_le.1 hmost
  have hcount := UInt64.le_iff_toNat_le.1
    (rng.fst_between_le (show 0 < spec.leastLines.toNat by omega) hmost)
  have hlines : (drawEntry lib spec rng).lines.length ≤
      0 + ((rng.between spec.leastLines spec.mostLines).1.toNat - 1) :=
    length_drawLines_le lib spec _ _
  have hlength : (drawnAmounts lib spec rng).length ≤ (drawEntry lib spec rng).lines.length :=
    List.length_filterMap_le _ _
  omega

/-- Two to the 33rd amounts of 63 bits do not fill a mantissa. -/
theorem runningExact_drawnAmounts (h : spec.mostLines.toNat ≤ 2 ^ 33) :
    RunningExact (Amount.zero : Decimal).toRat (drawnAmounts lib spec rng) := by
  have hlength := length_drawnAmounts_lt lib spec rng
  have hdrawn : Drawn spec (drawEntry lib spec rng) := drawn_drawEntry rng
  have hbound :
      Int.natAbs 0 + (drawnAmounts lib spec rng).length * (2 ^ 63 - 1) < mantissaBound := by
    have hmantissa : mantissaBound = 2 ^ 33 * 2 ^ 63 := by decide
    rw [hmantissa]
    omega
  have hexact := runningExact_of_bound spec.scale_le hdrawn.bounded hbound
  rw [Int.cast_zero, zero_div] at hexact
  rw [toRat_zero]
  exact hexact

/-- An entry that is not too long balances exactly when its plug has an account or is not
needed. -/
theorem drawsBalance_iff_of_short (h : spec.mostLines.toNat ≤ 2 ^ 33) :
    DrawsBalance lib spec rng ↔ (plugDraw lib spec rng).isSome = true ∨
      drawnAmounts lib spec rng ≠ [] ∧ ((drawnAmounts lib spec rng).map toRat).sum = 0 := by
  have hexact := runningExact_drawnAmounts lib spec rng h
  exact ⟨fun hdraws => hdraws.closed,
    fun hclosed => ⟨runningFits_of_runningExact hexact, lost_eq_zero hexact, hclosed⟩⟩

/-- With two accounts every index is one of an account. -/
theorem isSome_plugDraw (h : 2 ≤ spec.accounts.length) (hlength : spec.accounts.length < 2 ^ 64) :
    (plugDraw lib spec rng).isSome = true := by
  have hcount : spec.accountCount.toNat = spec.accounts.length := by
    rw [GeneratorSpec.accountCount, Nat.max_eq_left h]
    exact UInt64.toNat_ofNat_of_lt' hlength
  have hindex := (drawEntry lib spec rng).rng.fst_below_lt
    (show 0 < spec.accountCount.toNat by omega)
  rw [hcount] at hindex
  unfold plugDraw plugAccount
  dsimp only
  rw [List.getElem?_eq_getElem hindex]
  rfl

end Short

/-! ## The ledger -/

/-- The states of the random stream in which the entries begin. -/
def entryStarts (lib : Externals Decimal) (spec : GeneratorSpec) : Nat → Rng → List Rng
  | 0, _ => []
  | n + 1, rng => rng :: entryStarts lib spec n (generateEntry lib spec rng).2

theorem generateEntries_eq_map (lib : Externals Decimal) (spec : GeneratorSpec) (n : Nat)
    (rng : Rng) : generateEntries lib spec n rng =
      (entryStarts lib spec n rng).map fun start => (generateEntry lib spec start).1 := by
  induction n generalizing rng with
  | zero => rfl
  | succ n ih =>
      rw [entryStarts, List.map_cons, ← ih]
      rfl

theorem entries_generate (lib : Externals Decimal) (spec : GeneratorSpec) (seed : UInt64) :
    (generate lib spec seed).entries =
      (entryStarts lib spec spec.entries (.new seed)).map fun start =>
        (generateEntry lib spec start).1 :=
  generateEntries_eq_map lib spec spec.entries (.new seed)

/-- Every entry of a ledger balances exactly when the draws of every entry do; of entries of at most
2 ^ 33 lines all that is asked is that the plug has an account or is not needed. -/
theorem generate_balanced_iff (lib : Externals Decimal) (spec : GeneratorSpec) (seed : UInt64) :
    ((∀ entry ∈ (generate lib spec seed).entries, EntryBalanced entry.lines) ↔
        ∀ start ∈ entryStarts lib spec spec.entries (.new seed), DrawsBalance lib spec start) ∧
      (spec.mostLines.toNat ≤ 2 ^ 33 →
        ((∀ entry ∈ (generate lib spec seed).entries, EntryBalanced entry.lines) ↔
          ∀ start ∈ entryStarts lib spec spec.entries (.new seed),
            (plugDraw lib spec start).isSome = true ∨
              drawnAmounts lib spec start ≠ [] ∧
                ((drawnAmounts lib spec start).map toRat).sum = 0)) := by
  have hiff : (∀ entry ∈ (generate lib spec seed).entries, EntryBalanced entry.lines) ↔
      ∀ start ∈ entryStarts lib spec spec.entries (.new seed), DrawsBalance lib spec start := by
    rw [entries_generate, List.forall_mem_map]
    exact forall₂_congr fun start _ => entryBalanced_iff lib spec start
  refine ⟨hiff, fun hlines => hiff.trans ?_⟩
  exact forall₂_congr fun start _ => drawsBalance_iff_of_short lib spec start hlines

/-- With two accounts and at most 2 ^ 33 lines an entry every entry balances. -/
theorem generate_balanced (lib : Externals Decimal) {spec : GeneratorSpec} (seed : UInt64)
    (haccounts : 2 ≤ spec.accounts.length) (hlength : spec.accounts.length < 2 ^ 64)
    (hlines : spec.mostLines.toNat ≤ 2 ^ 33) :
    ∀ entry ∈ (generate lib spec seed).entries, EntryBalanced entry.lines := by
  rw [entries_generate, List.forall_mem_map]
  intro start _
  rw [entryBalanced_iff, drawsBalance_iff_of_short lib spec start hlines]
  exact Or.inl (isSome_plugDraw lib spec start haccounts hlength)

/-- One entry of two lines between one account. -/
def oneAccountSpec : GeneratorSpec where
  accounts := ["1000"]
  currency := .usd
  entries := 1
  minLines := 2
  maxLines := 2
  maxMinorUnits := 5000000
  scale := 2
  scale_le := by decide

theorem not_forall_entryBalanced {entries : List GeneratedEntry}
    (h : (entries.all fun entry => (assertBalanced entry.lines).toOption.isSome) = false) :
    ¬ ∀ entry ∈ entries, EntryBalanced entry.lines := by
  intro hall
  have hpasses : (entries.all fun entry => (assertBalanced entry.lines).toOption.isSome) =
      true := by
    refine List.all_eq_true.2 fun entry hentry => ?_
    rw [(hall entry hentry).passes]
    rfl
  rw [hpasses] at h
  cases h

/-- With the seed 1 neither the line nor the plug finds the account, and with the seed 5 only the
line does: an empty entry and one of a single line. -/
theorem not_balanced_oneAccount :
    ((generate decimalExternals oneAccountSpec 1).entries.map fun entry => entry.lines.length) =
        [0] ∧
      (¬ ∀ entry ∈ (generate decimalExternals oneAccountSpec 1).entries,
        EntryBalanced entry.lines) ∧
      ((generate decimalExternals oneAccountSpec 5).entries.map fun entry => entry.lines.length) =
        [1] ∧
      ¬ ∀ entry ∈ (generate decimalExternals oneAccountSpec 5).entries,
        EntryBalanced entry.lines :=
  ⟨by decide +kernel, not_forall_entryBalanced (by decide +kernel), by decide +kernel,
    not_forall_entryBalanced (by decide +kernel)⟩

end Falkr
