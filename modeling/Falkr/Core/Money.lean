import Falkr.Core.Decimal
import Falkr.Lib.Text

/-!
# Money — exact amounts in one currency

There is no addition of two amounts of different currencies: `checkedAdd` refuses it.
-/

namespace Falkr

/-- An ISO 4217 currency. -/
inductive Currency
  | usd
  | eur
  | gbp
  | chf
  | jpy
  | cad
  | aud
  | sek
  | nok
  | dkk
  | sgd
  | inr
  deriving DecidableEq, Repr

namespace Currency

/-- The ISO 4217 alphabetic code. -/
def code : Currency → String
  | usd => "USD"
  | eur => "EUR"
  | gbp => "GBP"
  | chf => "CHF"
  | jpy => "JPY"
  | cad => "CAD"
  | aud => "AUD"
  | sek => "SEK"
  | nok => "NOK"
  | dkk => "DKK"
  | sgd => "SGD"
  | inr => "INR"

theorem code_injective : Function.Injective code := by
  intro a b h
  cases a <;> cases b <;> first | rfl | (revert h; decide)

/-- Parses an ISO 4217 alphabetic code; an unknown one is `none`, not dollars. -/
def fromCode (code : String) : Option Currency :=
  match Lib.toAsciiUppercase (Lib.trim code) with
  | "USD" => some usd
  | "EUR" => some eur
  | "GBP" => some gbp
  | "CHF" => some chf
  | "JPY" => some jpy
  | "CAD" => some cad
  | "AUD" => some aud
  | "SEK" => some sek
  | "NOK" => some nok
  | "DKK" => some dkk
  | "SGD" => some sgd
  | "INR" => some inr
  | _ => none

theorem fromCode_code (currency : Currency) : fromCode currency.code = some currency := by
  cases currency <;> decide +kernel

end Currency

/-- Attempted arithmetic between two different currencies. -/
structure CurrencyMismatch where
  lhs : Currency
  rhs : Currency
  deriving DecidableEq, Repr

/-- An amount in one currency. -/
structure Money (α : Type) where
  amount : α
  currency : Currency
  deriving DecidableEq, Repr

namespace Money

variable {m : Type → Type} {α : Type} [Amount m α]

def zero (currency : Currency) : Money α where
  amount := Amount.zero
  currency := currency

def sameCurrency (self other : Money α) : Except CurrencyMismatch Unit :=
  if self.currency = other.currency then .ok ()
  else .error { lhs := self.currency, rhs := other.currency }

def checkedAdd [Monad m] (self other : Money α) : m (Except CurrencyMismatch (Money α)) :=
  match sameCurrency self other with
  | .error e => pure (.error e)
  | .ok () => do
      let sum ← Amount.add self.amount other.amount
      pure (.ok { amount := sum, currency := self.currency })

def negate (self : Money α) : Money α where
  amount := Amount.neg self.amount
  currency := self.currency

/-- The derived `==`. -/
def beq (self other : Money α) : Bool :=
  Amount.eq self.amount other.amount && self.currency == other.currency

@[simp] theorem zero_currency (c : Currency) : (zero c : Money α).currency = c := rfl

@[simp] theorem zero_amount (c : Currency) : (zero c : Money α).amount = Amount.zero := rfl

@[simp] theorem negate_currency (a : Money α) : a.negate.currency = a.currency := rfl

@[simp] theorem negate_amount (a : Money α) : a.negate.amount = Amount.neg a.amount := rfl

section Addition

variable [Monad m]

/-- Addition within a currency is the addition of the amounts. -/
theorem checkedAdd_of_eq {a b : Money α} (h : a.currency = b.currency) :
    checkedAdd a b = (do
      let sum ← Amount.add a.amount b.amount
      pure (.ok { amount := sum, currency := a.currency })) := by
  simp [checkedAdd, sameCurrency, h]

theorem checkedAdd_of_ne {a b : Money α} (h : a.currency ≠ b.currency) :
    checkedAdd a b = pure (.error { lhs := a.currency, rhs := b.currency }) := by
  simp [checkedAdd, sameCurrency, h]

end Addition

end Money

end Falkr
