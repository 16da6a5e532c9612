import Falkr.Core.Arithmetic
import Falkr.Testkit.Runner

/-!
# Generator — ledgers drawn from a seed

Each entry is built from drawn lines and a closing line, the plug, that negates their sum.  The
random stream is `splitmix64`, which is fixed, so a seed and a specification determine the ledger.
-/

namespace Falkr

open Lib

namespace Decimal

/-- `abs`. -/
def abs (self : Decimal) : Decimal where
  mantissa := self.mantissa.natAbs
  scale := self.scale
  mantissa_lt := self.mantissa_lt
  scale_le := self.scale_le

end Decimal

/-! ## The random stream -/

/-- `splitmix64`. -/
structure Rng where
  state : UInt64
  deriving DecidableEq

namespace Rng

def new (seed : UInt64) : Rng := ⟨seed⟩

def nextU64 (self : Rng) : UInt64 × Rng :=
  let state := self.state + 0x9E3779B97F4A7C15
  let z := (state ^^^ (state >>> 30)) * 0xBF58476D1CE4E5B9
  let z := (z ^^^ (z >>> 27)) * 0x94D049BB133111EB
  (z ^^^ (z >>> 31), ⟨state⟩)

/-- A value below `n`, or zero where there is none. -/
def below (self : Rng) (n : UInt64) : UInt64 × Rng :=
  if n = 0 then (0, self)
  else
    let (z, rng) := self.nextU64
    (z % n, rng)

/-- A value from `low` to `high`; without a draw where there is no choice. -/
def between (self : Rng) (low high : UInt64) : UInt64 × Rng :=
  if high ≤ low then (low, self)
  else
    let (offset, rng) := self.below (high - low + 1)
    (low + offset, rng)

example :
    let first := (new 0).nextU64
    let second := first.2.nextU64
    [first.1, second.1, second.2.nextU64.1] =
      [16294208416658607535, 7960286522194355700, 487617019471545679] := by
  decide +kernel

end Rng

/-! ## Specifications -/

/-- What a generated ledger is allowed to contain; `usize` has 64 bits. -/
structure GeneratorSpec where
  /-- Codes that may be posted to. -/
  accounts : List String
  currency : Currency
  entries : Nat
  minLines : UInt64
  maxLines : UInt64
  /-- The largest amount of one line, in minor units. -/
  maxMinorUnits : UInt64
  scale : Nat
  /-- `Decimal::new` takes no larger scale. -/
  scale_le : scale ≤ Decimal.maxScale

namespace GeneratorSpec

/-- An index below it may name no account: there are always two to draw from. -/
def accountCount (self : GeneratorSpec) : UInt64 :=
  .ofNat (max self.accounts.length 2)

def leastLines (self : GeneratorSpec) : UInt64 :=
  max self.minLines 2

def mostLines (self : GeneratorSpec) : UInt64 :=
  max self.maxLines self.leastLines

theorem natAbs_minor_lt (minor : UInt64) :
    Int.natAbs (min minor.toNat (2 ^ 63 - 1) : Nat) < Decimal.mantissaBound := by
  rw [Int.natAbs_natCast]
  exact lt_of_le_of_lt (Nat.min_le_right _ _) (by decide)

/-- A number of minor units, cut off at `i64::MAX`. -/
def magnitude (self : GeneratorSpec) (minor : UInt64) : Decimal where
  mantissa := (min minor.toNat (2 ^ 63 - 1) : Nat)
  scale := self.scale
  mantissa_lt := natAbs_minor_lt minor
  scale_le := self.scale_le

end GeneratorSpec

/-! ## Entries -/

structure GeneratedEntry where
  lines : List (JournalLine Decimal)
  deriving DecidableEq

structure GeneratedLedger where
  seed : UInt64
  currency : Currency
  entries : List GeneratedEntry
  deriving DecidableEq

def debitLine (account : AccountId) (amount : Money Decimal) : JournalLine Decimal where
  account := account
  debit := some amount
  credit := none
  sourceUsageEventIds := []

def creditLine (account : AccountId) (amount : Money Decimal) : JournalLine Decimal where
  account := account
  debit := none
  credit := some amount
  sourceUsageEventIds := []

/-- The variables of the loop that draws the lines of an entry. -/
structure Drawing where
  rng : Rng
  lines : List (JournalLine Decimal)
  running : Decimal
  deriving DecidableEq

def Drawing.start (rng : Rng) : Drawing where
  rng := rng
  lines := []
  running := Amount.zero

section Draws

variable (lib : Externals Decimal) (spec : GeneratorSpec)

/-- One pass of the loop that draws lines. -/
def drawLine (drawing : Drawing) : Drawing :=
  let (index, rng) := drawing.rng.below spec.accountCount
  match spec.accounts[index.toNat]? with
  -- With one account only, every other index draws nothing.
  | none => { drawing with rng := rng }
  | some code =>
      let (minor, rng) := rng.between 1 (max spec.maxMinorUnits 1)
      let magnitude := spec.magnitude minor
      let money : Money Decimal := { amount := magnitude, currency := spec.currency }
      let id := accountId lib code
      let (coin, rng) := rng.nextU64
      if coin % 2 = 0 then {
        rng := rng
        lines := drawing.lines ++ [debitLine id money]
        -- An overflow keeps the sum and the line.
        running := (Decimal.add drawing.running magnitude).getD drawing.running }
      else {
        rng := rng
        lines := drawing.lines ++ [creditLine id money]
        running := (Decimal.sub drawing.running magnitude).getD drawing.running }

/-- The loop over the lines but the last. -/
def drawLines : Nat → Drawing → Drawing
  | 0, drawing => drawing
  | n + 1, drawing => drawLines n (drawLine lib spec drawing)

/-- The line that closes an entry. -/
def plugLine (code : String) (running : Decimal) : JournalLine Decimal :=
  let id := accountId lib code
  let money : Money Decimal := { amount := running.abs, currency := spec.currency }
  if running.mantissa < 0 then debitLine id money else creditLine id money

/-- The lines that are drawn for an entry. -/
def drawEntry (rng : Rng) : Drawing :=
  let (lineCount, rng) := rng.between spec.leastLines spec.mostLines
  drawLines lib spec (lineCount.toNat - 1) (.start rng)

/-- The account of the plug, if its index is one. -/
def plugAccount (rng : Rng) : Option String × Rng :=
  let (index, rng) := rng.below spec.accountCount
  (spec.accounts[index.toNat]?, rng)

/-- One pass of the loop over the entries. -/
def generateEntry (rng : Rng) : GeneratedEntry × Rng :=
  let drawing := drawEntry lib spec rng
  let (account, rng) := plugAccount spec drawing.rng
  match account with
  | some code => ({ lines := drawing.lines ++ [plugLine lib spec code drawing.running] }, rng)
  | none => ({ lines := drawing.lines }, rng)

def generateEntries : Nat → Rng → List GeneratedEntry
  | 0, _ => []
  | n + 1, rng =>
      let (entry, rng) := generateEntry lib spec rng
      entry :: generateEntries n rng

/-- Generates a ledger from a seed. -/
def generate (seed : UInt64) : GeneratedLedger where
  seed := seed
  currency := spec.currency
  entries := generateEntries lib spec spec.entries (.new seed)

end Draws

end Falkr
