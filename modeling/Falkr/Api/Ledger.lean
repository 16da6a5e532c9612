import Falkr.Core.RunningSums
import Falkr.Core.Texts
import Falkr.Infra.LedgerStream

/-!
# Ledger — the balance endpoint

Balances are replayed from the log on demand.  The handler loads the stream and counts it in two
transactions, so each has its own table and its own errors here.

The view reports one trial balance, that of the dollar accounts.  A zero there hides nothing where
no addition of the dollars is rounded and every other currency is in balance
(`hidesNothing_of_runningExact`).
-/

namespace Falkr

open Lib Decimal

/-! ## The request -/

/-- Coarse capabilities. -/
inductive Scope
  | read
  | ingest
  | post
  deriving DecidableEq, Repr

/-- What a verified credential establishes about the caller. -/
structure TenantContext where
  tenantId : TenantId
  scopes : List Scope

inductive ApiError
  | unauthenticated
  | forbidden (missingScope : Scope)
  | notFound (what : String)
  | badRequest (message : String)
  | unprocessable (message : String)
  /-- The cause is logged and not reported. -/
  | internal (cause : LedgerStoreError)
  deriving DecidableEq

def TenantContext.has (self : TenantContext) (scope : Scope) : Bool :=
  self.scopes.contains scope

def TenantContext.require (self : TenantContext) (scope : Scope) : Except ApiError Unit :=
  if self.has scope then .ok () else .error (.forbidden scope)

/-! ## The view -/

structure AccountBalance where
  account : Uuid
  balance : String
  currency : String
  deriving DecidableEq

structure BalanceView where
  aggregateId : Uuid
  entryCount : Nat
  eventCount : Nat
  accounts : List AccountBalance
  /-- Zero for a well-formed ledger. -/
  trialBalance : String
  deriving DecidableEq

def accountBalance (entry : AccountId × Money Decimal) : AccountBalance where
  account := entry.1.asUuid
  balance := entry.2.amount.display
  currency := entry.2.currency.code

/-- The view of a projection; `none` is the panic of the trial balance on overflow. -/
def balanceView (aggregateId : Uuid) (eventCount : Nat) (projection : LedgerState Decimal) :
    Option BalanceView := do
  let trialBalance ← projection.trialBalance .usd
  pure
    { aggregateId := aggregateId
      entryCount := projection.entryCount
      eventCount := eventCount
      accounts := projection.balances.entries.map accountBalance
      trialBalance := trialBalance.amount.display }

section Handler

variable {J : Type}

/-- `event_count`. -/
def eventCount (codec : Codec (LedgerEvent Decimal) J) (tenantId : TenantId)
    (table : List (LedgerRow J)) (aggregateId : Uuid) (env : ReadEnv) :
    Except LedgerStoreError Nat :=
  (byAggregateId codec tenantId table aggregateId env).map List.length

/-- What the two reads of a request meet: the table and the errors of each. -/
structure BalanceEnv (J : Type) where
  loadTable : List (LedgerRow J)
  loadEnv : ReadEnv
  countTable : List (LedgerRow J)
  countEnv : ReadEnv

/-- The handler of the balance endpoint. -/
def balance (codec : Codec (LedgerEvent Decimal) J) (ctx : TenantContext) (aggregateId : Uuid)
    (env : BalanceEnv J) : Option (Except ApiError BalanceView) :=
  match ctx.require .read with
  | .error e => pure (.error e)
  | .ok () => do
      match ← load codec ctx.tenantId env.loadTable aggregateId env.loadEnv with
      | .error e => pure (.error (.internal e))
      | .ok state =>
          match eventCount codec ctx.tenantId env.countTable aggregateId env.countEnv with
          | .error e => pure (.error (.internal e))
          | .ok count => do
              let view ← balanceView aggregateId count state.inner
              pure (.ok view)

end Handler

/-! ## What a zero says -/

/-- The number that a row shows. -/
def AccountBalance.amount (self : AccountBalance) : ℚ :=
  ((Decimal.read self.balance).map toRat).getD 0

/-- What the rows in one currency add up to. -/
def BalanceView.sumIn (self : BalanceView) (currency : String) : ℚ :=
  ((self.accounts.filter fun row => row.currency = currency).map AccountBalance.amount).sum

/-- When the reported trial balance is zero, the rows of each currency that occurs sum to zero. -/
def HidesNothing (view : BalanceView) : Prop :=
  (Decimal.read view.trialBalance).map toRat = some 0 →
    ∀ row ∈ view.accounts, view.sumIn row.currency = 0

instance (view : BalanceView) : Decidable (HidesNothing view) :=
  inferInstanceAs (Decidable (_ → _))

/-- The exact sum of the balances in one currency. -/
def exactBalance (s : LedgerState Decimal) (currency : Currency) : ℚ :=
  ((s.balancesIn currency).map toRat).sum

theorem amount_accountBalance (entry : AccountId × Money Decimal) :
    (accountBalance entry).amount = entry.2.amount.toRat := by
  simp [AccountBalance.amount, accountBalance, read_display]

theorem filter_accountBalance (currency : Currency) :
    ∀ entries : List (AccountId × Money Decimal),
      (((entries.map accountBalance).filter fun row => row.currency = currency.code).map
          AccountBalance.amount) =
        (((entries.map Prod.snd).filter fun b => b.currency == currency).map Money.amount).map toRat
  | [] => rfl
  | entry :: rest => by
      have ih := filter_accountBalance currency rest
      have hcode : (accountBalance entry).currency = currency.code ↔
          entry.2.currency = currency := by
        exact Currency.code_injective.eq_iff
      by_cases h : entry.2.currency = currency
      · have hrow := hcode.2 h
        simp only [List.map_cons, List.filter_cons, hrow, h, decide_true, if_true, beq_self_eq_true,
          amount_accountBalance, ih]
      · have hrow : ¬(accountBalance entry).currency = currency.code := fun heq => h (hcode.1 heq)
        simpa [hrow, h] using ih

section View

variable {aggregateId : Uuid} {count : Nat} {s : LedgerState Decimal} {view : BalanceView}

theorem balanceView_eq_some (h : balanceView aggregateId count s = some view) :
    ∃ total, (s.balancesIn .usd).foldlM Amount.add Amount.zero = some total ∧
      view.trialBalance = total.display ∧
        view.accounts = s.balances.entries.map accountBalance := by
  rw [balanceView, trialBalance_eq_foldlM] at h
  rcases Option.bind_eq_some_iff.1 h with ⟨trialBalance, htrial, hview⟩
  rcases Option.bind_eq_some_iff.1 htrial with ⟨total, htotal, hamount⟩
  cases hamount
  cases hview
  exact ⟨total, htotal, rfl, rfl⟩

theorem sumIn_balanceView (h : balanceView aggregateId count s = some view) (currency : Currency) :
    view.sumIn currency.code = exactBalance s currency := by
  rcases balanceView_eq_some h with ⟨total, -, -, haccounts⟩
  rw [BalanceView.sumIn, haccounts, filter_accountBalance]
  rfl

/-- The rows are in balance exactly if the balances of the state are. -/
theorem sumIn_eq_zero_iff (h : balanceView aggregateId count s = some view) :
    (∀ row ∈ view.accounts, view.sumIn row.currency = 0) ↔
      ∀ currency, exactBalance s currency = 0 := by
  have haccounts := (balanceView_eq_some h).choose_spec.2.2
  constructor
  · intro hall currency
    -- A currency that no row is in sums to zero by itself.
    by_cases hmem : ∃ row ∈ view.accounts, row.currency = currency.code
    · rcases hmem with ⟨row, hrow, heq⟩
      rw [← sumIn_balanceView h, ← heq]
      exact hall row hrow
    · have hnone : (view.accounts.filter fun row => row.currency = currency.code) = [] := by
        rw [List.filter_eq_nil_iff]
        intro row hrow heq
        exact hmem ⟨row, hrow, by simpa using heq⟩
      rw [← sumIn_balanceView h, BalanceView.sumIn, hnone]
      rfl
  · intro hall row hrow
    rw [haccounts] at hrow
    rcases List.mem_map.1 hrow with ⟨entry, -, rfl⟩
    exact (sumIn_balanceView h entry.2.currency).trans (hall _)

/-- Where no addition of the dollar balances is rounded, the reported number is their sum. -/
theorem trialBalance_balanceView (h : balanceView aggregateId count s = some view)
    (hexact : RunningExact 0 (s.balancesIn .usd)) :
    (Decimal.read view.trialBalance).map toRat = some (exactBalance s .usd) := by
  rcases balanceView_eq_some h with ⟨total, htotal, htext, -⟩
  rw [← toRat_zero] at hexact
  have hsum := toRat_of_runningExact hexact htotal
  rw [toRat_zero, zero_add] at hsum
  rw [htext, read_display, Option.map_some, hsum, exactBalance]

theorem hidesNothing_balanceView (h : balanceView aggregateId count s = some view)
    (hexact : RunningExact 0 (s.balancesIn .usd)) :
    HidesNothing view ↔
      (exactBalance s .usd = 0 → ∀ currency, exactBalance s currency = 0) := by
  rw [HidesNothing, trialBalance_balanceView h hexact, sumIn_eq_zero_iff h, Option.some_inj]

end View

section Answer

variable {J : Type} {codec : Codec (LedgerEvent Decimal) J} {ctx : TenantContext}
  {aggregateId : Uuid} {view : BalanceView}

/-- A load that returns a state returns the replay of what it read. -/
theorem load_eq_some_ok {table : List (LedgerRow J)} {readEnv : ReadEnv}
    {state : AggregateState (LedgerState Decimal)}
    (h : load codec ctx.tenantId table aggregateId readEnv = some (.ok state)) :
    ∃ events, byAggregateId codec ctx.tenantId table aggregateId readEnv = .ok events ∧
      replay LedgerState.default (events.map StoreEvent.payload) = some state.inner := by
  cases hread : byAggregateId codec ctx.tenantId table aggregateId readEnv with
  | error e => simp [load, hread] at h
  | ok events =>
      simp only [load, hread, applyStoreEvents_eq] at h
      rcases Option.bind_eq_some_iff.1 h with ⟨applied, happlied, hload⟩
      rcases Option.bind_eq_some_iff.1 happlied with ⟨s, hreplay, happlied⟩
      cases happlied
      cases hload
      exact ⟨events, rfl, hreplay⟩

/-- The handler shows the replay of what its first read returns and counts what its second does. -/
theorem balance_eq_ok_iff {env : BalanceEnv J} :
    balance codec ctx aggregateId env = some (.ok view) ↔
      ctx.require .read = .ok () ∧ ∃ events s counted,
        byAggregateId codec ctx.tenantId env.loadTable aggregateId env.loadEnv = .ok events ∧
          replay LedgerState.default (events.map StoreEvent.payload) = some s ∧
          byAggregateId codec ctx.tenantId env.countTable aggregateId env.countEnv =
            .ok counted ∧
          balanceView aggregateId counted.length s = some view := by
  constructor
  · intro h
    unfold balance at h
    cases hscope : ctx.require .read with
    | error e => simp [hscope] at h
    | ok u =>
        simp only [hscope] at h
        rcases Option.bind_eq_some_iff.1 h with ⟨loaded, hload, h⟩
        cases loaded with
        | error e => cases h
        | ok state =>
            rcases load_eq_some_ok hload with ⟨events, hread, hreplay⟩
            cases hcounted : byAggregateId codec ctx.tenantId env.countTable aggregateId
                env.countEnv with
            | error e => simp [eventCount, hcounted, Except.map] at h
            | ok counted =>
                simp only [eventCount, hcounted, Except.map] at h
                rcases Option.bind_eq_some_iff.1 h with ⟨view', hview, h⟩
                cases h
                exact ⟨rfl, events, state.inner, counted, hread, hreplay, rfl, hview⟩
  · rintro ⟨hscope, events, s, counted, hread, hreplay, hcounted, hview⟩
    have hfold : (events.map StoreEvent.payload).foldlM applyEvent
        (AggregateState.withId aggregateId LedgerState.default).inner = some s := hreplay
    simp [balance, hscope, load, hread, applyStoreEvents_eq, hfold, eventCount, hcounted,
      Except.map, hview]

/-- The handler reports on the replay of the stream that it loaded. -/
theorem balance_eq_ok {env : BalanceEnv J}
    (h : balance codec ctx aggregateId env = some (.ok view)) :
    ∃ events s count,
      byAggregateId codec ctx.tenantId env.loadTable aggregateId env.loadEnv = .ok events ∧
        replay LedgerState.default (events.map StoreEvent.payload) = some s ∧
        balanceView aggregateId count s = some view := by
  rcases balance_eq_ok_iff.1 h with ⟨-, events, s, counted, hread, hreplay, -, hview⟩
  exact ⟨events, s, counted.length, hread, hreplay, hview⟩

end Answer

/-- Whatever stream is stored: where no addition of the dollar balances is rounded, a zero trial
balance hides nothing if the balances of every other currency sum to zero; and if the dollars do,
then only if. -/
theorem hidesNothing_of_runningExact {J : Type} {codec : Codec (LedgerEvent Decimal) J}
    {ctx : TenantContext} {aggregateId : Uuid} {env : BalanceEnv J}
    {events : List (StoreEvent (LedgerEvent Decimal))} {s : LedgerState Decimal}
    {view : BalanceView}
    (hread : byAggregateId codec ctx.tenantId env.loadTable aggregateId env.loadEnv = .ok events)
    (hreplay : replay LedgerState.default (events.map StoreEvent.payload) = some s)
    (h : balance codec ctx aggregateId env = some (.ok view))
    (hexact : RunningExact 0 (s.balancesIn .usd)) :
    ((∀ currency, currency ≠ .usd → exactBalance s currency = 0) → HidesNothing view) ∧
      (exactBalance s .usd = 0 → HidesNothing view →
        ∀ currency, currency ≠ .usd → exactBalance s currency = 0) := by
  rcases balance_eq_ok h with ⟨events', s', count, hread', hreplay', hview⟩
  cases hread.symm.trans hread'
  cases hreplay.symm.trans hreplay'
  have hiff := hidesNothing_balanceView hview hexact
  constructor
  · intro hothers
    refine hiff.2 fun husd currency => ?_
    by_cases hcurrency : currency = .usd
    · rw [hcurrency, husd]
    · exact hothers currency hcurrency
  · intro husd hhides currency _
    exact hiff.1 hhides husd currency

/-! ## Euros that no trial balance shows -/

def twenty (currency : Currency) : Money Decimal where
  amount := ofInt 20 (by decide)
  currency := currency

/-- Moves twenty units of a currency from one account to another. -/
def twentyMoved (id : EntryId) (currency : Currency) (source target : AccountId) :
    LedgerEvent Decimal :=
  .journalEntryPosted id
    [⟨target, some (twenty currency), none, []⟩, ⟨source, none, some (twenty currency), []⟩]
    (Dimensions.new ⟨1⟩ ⟨2⟩ ⟨3⟩ ⟨4⟩ .opEx) ⟨0⟩

def storedTransfer (sequenceNumber : Int) (id : Uuid) (event : LedgerEvent Decimal) :
    LedgerRow (LedgerEvent Decimal) where
  id := id
  aggregateId := 7
  tenantId := ⟨1⟩
  payload := event
  occurredOn := ⟨0⟩
  sequenceNumber := sequenceNumber
  version := none

/-- The second entry moves euros from a new account to a given one. -/
def eurosTo (target : AccountId) : List (LedgerRow (LedgerEvent Decimal)) :=
  [storedTransfer 1 100 (twentyMoved ⟨1⟩ .usd ⟨10⟩ ⟨11⟩),
    storedTransfer 2 101 (twentyMoved ⟨2⟩ .eur ⟨12⟩ target)]

def reader : TenantContext where
  tenantId := ⟨1⟩
  scopes := [.read]

def eurosEnv (target : AccountId) : BalanceEnv (LedgerEvent Decimal) where
  loadTable := eurosTo target
  loadEnv := .ok
  countTable := eurosTo target
  countEnv := .ok

/-- The balances after the two entries. -/
def eurosState (target : AccountId) : LedgerState Decimal :=
  (replay LedgerState.default ((eurosTo target).map LedgerRow.payload)).getD LedgerState.default

/-- The euros went to an account that is kept in dollars, which skips them. -/
def mixedView : BalanceView where
  aggregateId := 7
  entryCount := 2
  eventCount := 2
  accounts :=
    [{ account := 10, balance := "-20", currency := "USD" },
      { account := 11, balance := "20", currency := "USD" },
      { account := 12, balance := "-20", currency := "EUR" }]
  trialBalance := "0"

/-- They went to an account of their own. -/
def apartView : BalanceView :=
  { mixedView with
    accounts := mixedView.accounts ++ [{ account := 13, balance := "20", currency := "EUR" }] }

theorem balance_mixed : balance Codec.plain reader 7 (eurosEnv ⟨11⟩) = some (.ok mixedView) := by
  decide +kernel

theorem balance_apart : balance Codec.plain reader 7 (eurosEnv ⟨13⟩) = some (.ok apartView) := by
  decide +kernel

theorem runningExact_eurosState {target : AccountId}
    (h : (eurosState target).balancesIn .usd = [(twenty .usd).amount.neg, (twenty .usd).amount]) :
    RunningExact 0 ((eurosState target).balancesIn .usd) := by
  rw [h]
  have hamounts : ∀ a ∈ [(twenty .usd).amount.neg, (twenty .usd).amount],
      a.scale = 0 ∧ a.mantissa.natAbs ≤ 20 := by
    decide
  have hbound : Int.natAbs 0 + [(twenty .usd).amount.neg, (twenty .usd).amount].length * 20 <
      mantissaBound := by
    decide
  simpa using runningExact_of_bound (by decide) hamounts hbound

theorem hidesNothing_apartView : HidesNothing apartView ∧ ¬HidesNothing mixedView := by
  have hread : ∀ target, ∃ events, byAggregateId Codec.plain reader.tenantId
      (eurosEnv target).loadTable 7 (eurosEnv target).loadEnv = .ok events ∧
        events.map StoreEvent.payload = (eurosTo target).map LedgerRow.payload :=
    fun target => ⟨_, rfl, rfl⟩
  constructor
  · rcases hread ⟨13⟩ with ⟨events, hevents, hpayloads⟩
    have hreplay : replay LedgerState.default (events.map StoreEvent.payload) =
        some (eurosState ⟨13⟩) := by
      rw [hpayloads]
      decide +kernel
    refine (hidesNothing_of_runningExact hevents hreplay balance_apart
      (runningExact_eurosState (by decide +kernel))).1 ?_
    intro currency _
    cases currency <;> decide +kernel
  · intro hhides
    rcases hread ⟨11⟩ with ⟨events, hevents, hpayloads⟩
    have hreplay : replay LedgerState.default (events.map StoreEvent.payload) =
        some (eurosState ⟨11⟩) := by
      rw [hpayloads]
      decide +kernel
    have heuros := (hidesNothing_of_runningExact hevents hreplay balance_mixed
      (runningExact_eurosState (by decide +kernel))).2 (by decide +kernel) hhides .eur (by decide)
    exact absurd heuros (by decide +kernel)

/-- The field reads zero while the euros add up to minus twenty. -/
theorem balance_hides_euros :
    balance Codec.plain reader 7 (eurosEnv ⟨11⟩) = some (.ok mixedView) ∧
      mixedView.trialBalance = "0" ∧ mixedView.sumIn "EUR" = -20 ∧ ¬HidesNothing mixedView :=
  ⟨balance_mixed, rfl, by decide +kernel, by decide +kernel⟩

end Falkr
