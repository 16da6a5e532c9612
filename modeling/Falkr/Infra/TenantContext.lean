import Falkr.Core.Texts
import Falkr.Infra.CostCoverage
import Falkr.Infra.ResearchGraph
import Falkr.Lib.Machine
import Falkr.Lib.SessionSettings

/-!
# TenantContext — row-level security over pooled connections

A table's policy compares a row's tenant with a setting of the connection.  `begin_tenant_tx` makes
the setting for its transaction and reads it back; the pool, or a pooler behind it, runs each
transaction on whichever connection is free.  Connections, transactions of any tenants and
statements outside of a transaction interleave in any order, and the setting may be dropped.

Whatever the order, a statement sees the rows of the tenant that it was issued for, and no others
(`tenants_see_their_own_rows`), and what is committed for a tenant are rows of this tenant
(`tenants_write_their_own_rows`).
-/

namespace Falkr

open Lib

/-- The setting that the policies read. -/
def tenantGuc : String :=
  "falkr.tenant_id"

inductive DbError
  | sqlx (detail : String)
  | tenantContextRejected (expected : String) (actual : Option String)
  deriving DecidableEq

/-! ## The context of a connection -/

/-- `NULLIF(value, '')`. -/
def nullIfEmpty (value : Option String) : Option String :=
  value.filter fun text => text ≠ ""

/-- The tenant context visible on a connection. -/
def currentTenantContext (settings : SessionSettings) : Option String :=
  nullIfEmpty (settings.current tenantGuc)

/-- `begin_tenant_tx` after its `BEGIN`: the settings with the tenant's, unless what is read back is
something else.  A pooler that drops the setting leaves the one in effect. -/
def setTenantContext (tenantId : TenantId) (dropped : Bool) (settings : SessionSettings) :
    Except DbError SessionSettings :=
  let expected := tenantId.asUuid.hyphenated
  -- A pooler may drop the statement; what is read back tells.
  let settings := if dropped then settings else settings.setLocal tenantGuc expected
  let applied := settings.current tenantGuc
  if applied = some expected then .ok settings
  else .error (.tenantContextRejected expected applied)

section Policies

variable {ρ : Type} (castUuid : String → Option Uuid) (tenantOf : ρ → TenantId)

/-- `NULLIF(current_setting('falkr.tenant_id', TRUE), '')::UUID`. -/
def policyTenant (settings : SessionSettings) : Except String (Option TenantId) :=
  match nullIfEmpty (settings.current "falkr.tenant_id") with
  | none => .ok none
  | some text =>
      match castUuid text with
      | none => .error ("invalid input syntax for type uuid: \"" ++ text ++ "\"")
      | some id => .ok (some ⟨id⟩)

/-- `USING`: the rows that a statement sees.  A comparison with `NULL` holds of no row. -/
def visibleRows (settings : SessionSettings) (table : List ρ) : Except String (List ρ) :=
  match policyTenant castUuid settings with
  | .error e => .error e
  | .ok none => .ok []
  | .ok (some tenantId) => .ok (table.filter fun row => tenantOf row = tenantId)

/-- `WITH CHECK`: a row that a statement may store. -/
def checkRow (settings : SessionSettings) (row : ρ) : Except String ρ :=
  match policyTenant castUuid settings with
  | .error e => .error e
  | .ok tenantId =>
      if tenantId = some (tenantOf row) then .ok row
      else .error "new row violates row-level security policy"

end Policies

/-! ## Connections -/

/-- A transaction for a tenant. -/
structure TenantTx (ρ : Type) where
  tenantId : TenantId
  /-- `begin_tenant_tx` has returned it. -/
  ready : Bool
  written : List ρ

structure Connection (ρ : Type) where
  settings : SessionSettings
  tx : Option (TenantTx ρ)

/-- What a statement came to. -/
structure Sighting (ρ : Type) where
  /-- The tenant that it was issued for, if it was in a transaction. -/
  asker : Option TenantId
  /-- What had been committed, and what its transaction had written. -/
  commits : List (Option TenantId × List ρ)
  written : List ρ
  result : Except String (List ρ)

structure TenantWorld (ρ : Type) where
  connections : List (Connection ρ)
  /-- The committed rows. -/
  rows : List ρ
  /-- What each committed transaction wrote, with the tenant that it was for, if any. -/
  commits : List (Option TenantId × List ρ)
  seen : List (Sighting ρ)

inductive TenantStep (ρ : Type)
  /-- The pool opens a connection. -/
  | connect
  | begin (connection : Nat) (tenantId : TenantId)
  | setContext (connection : Nat) (dropped : Bool)
  /-- A statement that reads the table, in a transaction or outside of one. -/
  | select (connection : Nat)
  /-- A statement that writes a row. -/
  | insert (connection : Nat) (row : ρ)
  | commit (connection : Nat)
  /-- A rollback, also of a transaction that a statement failed in. -/
  | rollback (connection : Nat)

section Steps

variable {ρ : Type} (castUuid : String → Option Uuid) (tenantOf : ρ → TenantId)

namespace Connection

def fresh : Connection ρ where
  settings := SessionSettings.initial
  tx := none

/-- The connection when its transaction is over. -/
def idle (self : Connection ρ) : Connection ρ where
  settings := self.settings.endTransaction
  tx := none

end Connection

/-- A step on one connection, with the world around it. -/
def onConnection (world : TenantWorld ρ) (i : Nat)
    (step : Connection ρ → Option (Connection ρ × TenantWorld ρ)) : Option (TenantWorld ρ) := do
  let connection ← world.connections[i]?
  let (next, after) ← step connection
  pure { after with connections := world.connections.set i next }

def tenantStep (world : TenantWorld ρ) : TenantStep ρ → Option (TenantWorld ρ)
  | .connect => some { world with connections := world.connections ++ [Connection.fresh] }
  | .begin i tenantId =>
      onConnection world i fun connection =>
        match connection.tx with
        | some _ => none
        | none =>
            let tx : TenantTx ρ := { tenantId := tenantId, ready := false, written := [] }
            some ({ connection with tx := some tx }, world)
  | .setContext i dropped =>
      onConnection world i fun connection =>
        match connection.tx with
        | some { tenantId, ready := false, written } =>
            match setTenantContext tenantId dropped connection.settings with
            -- The transaction is dropped with the error, which rolls it back.
            | .error _ => some (connection.idle, world)
            | .ok settings =>
                some ({ settings := settings, tx := some { tenantId, ready := true, written } }, world)
        | _ => none
  | .select i =>
      onConnection world i fun connection =>
        match connection.tx with
        | some { ready := false, .. } => none
        | tx =>
            let written := (tx.map TenantTx.written).getD []
            let sighting : Sighting ρ :=
              { asker := tx.map TenantTx.tenantId
                commits := world.commits
                written := written
                result := visibleRows castUuid tenantOf connection.settings (world.rows ++ written) }
            some (connection, { world with seen := world.seen ++ [sighting] })
  | .insert i row =>
      onConnection world i fun connection =>
        match connection.tx with
        | some { ready := false, .. } => none
        | some { tenantId, ready := true, written } =>
            match checkRow castUuid tenantOf connection.settings row with
            | .error _ => some (connection.idle, world)
            | .ok row =>
                let tx : TenantTx ρ := { tenantId, ready := true, written := written ++ [row] }
                some ({ connection with tx := some tx }, world)
        | none =>
            match checkRow castUuid tenantOf connection.settings row with
            | .error _ => some (connection, world)
            | .ok row =>
                some (connection, { world with
                  rows := world.rows ++ [row]
                  commits := world.commits ++ [(none, [row])] })
  | .commit i =>
      onConnection world i fun connection =>
        match connection.tx with
        | some { tenantId, ready := true, written } =>
            some (connection.idle, { world with
              rows := world.rows ++ written
              commits := world.commits ++ [(some tenantId, written)] })
        | _ => none
  | .rollback i =>
      onConnection world i fun connection =>
        match connection.tx with
        | some _ => some (connection.idle, world)
        | none => none

/-- Connections over a table that holds these rows. -/
def tenantMachine (rows : List ρ) : Machine (TenantWorld ρ) (TenantStep ρ) where
  start := { connections := [], rows := rows, commits := [], seen := [] }
  step := tenantStep castUuid tenantOf

end Steps

/-! ## The policy on a connection -/

section Context

variable {castUuid : String → Option Uuid} {settings : SessionSettings}

theorem hyphenated_ne_empty (id : Uuid) : id.hyphenated ≠ "" := by
  rcases Uuid.exists_lastGroup id with ⟨groups, last, htext, -⟩
  intro h
  rw [h] at htext
  cases groups <;> cases htext

/-- With no value for the transaction, there is no tenant. -/
theorem currentTenantContext_of_blank (hblank : settings.Blank tenantGuc)
    (hnone : settings.transaction = []) : currentTenantContext settings = none := by
  rw [currentTenantContext, SessionSettings.current_of_no_transaction hnone]
  cases hvalue : settings.session.lookup tenantGuc with
  | none => rfl
  | some value =>
      rw [hblank value hvalue]
      rfl

theorem policyTenant_of_blank (hblank : settings.Blank tenantGuc)
    (hnone : settings.transaction = []) : policyTenant castUuid settings = .ok none := by
  have hcontext := currentTenantContext_of_blank hblank hnone
  rw [currentTenantContext, tenantGuc] at hcontext
  rw [policyTenant, hcontext]

theorem policyTenant_of_context (hcast : ∀ id, castUuid id.hyphenated = some id)
    {tenantId : TenantId}
    (h : settings.current tenantGuc = some tenantId.asUuid.hyphenated) :
    policyTenant castUuid settings = .ok (some tenantId) := by
  rw [tenantGuc] at h
  have hfilter : nullIfEmpty (some tenantId.asUuid.hyphenated) =
      some tenantId.asUuid.hyphenated := by
    simp [nullIfEmpty, hyphenated_ne_empty]
  simp only [policyTenant, h, hfilter, hcast]

/-- A context that is returned is in effect; one that was dropped is not returned. -/
theorem current_of_setTenantContext {tenantId : TenantId} {dropped : Bool}
    {settings' : SessionSettings} (hblank : settings.Blank tenantGuc)
    (h : setTenantContext tenantId dropped settings = .ok settings') :
    settings'.current tenantGuc = some tenantId.asUuid.hyphenated ∧ settings'.Blank tenantGuc := by
  cases dropped with
  | true =>
      -- What was in effect is accepted only if it happens to be this tenant's.
      by_cases hcurrent : settings.current tenantGuc = some tenantId.asUuid.hyphenated
      · have heq : settings = settings' := by simpa [setTenantContext, hcurrent] using h
        exact heq ▸ ⟨hcurrent, hblank⟩
      · simp [setTenantContext, hcurrent] at h
  | false =>
      have heq : settings.setLocal tenantGuc tenantId.asUuid.hyphenated = settings' := by
        simpa [setTenantContext] using h
      exact heq ▸ ⟨SessionSettings.current_setLocal _, hblank.setLocal _ _⟩

end Context

/-! ## What a step can do -/

section Inversion

variable {ρ : Type} {castUuid : String → Option Uuid} {tenantOf : ρ → TenantId}

/-- What a step does to its connection and to the world around it. -/
inductive TenantAdvance (castUuid : String → Option Uuid) (tenantOf : ρ → TenantId)
    (world : TenantWorld ρ) (connection : Connection ρ) :
    Connection ρ → TenantWorld ρ → Prop
  | begin (tenantId : TenantId) :
      connection.tx = none →
      TenantAdvance castUuid tenantOf world connection
        { connection with tx := some { tenantId := tenantId, ready := false, written := [] } } world
  | ready {tenantId : TenantId} {written : List ρ} {dropped : Bool} {settings : SessionSettings} :
      connection.tx = some { tenantId := tenantId, ready := false, written := written } →
      setTenantContext tenantId dropped connection.settings = .ok settings →
      TenantAdvance castUuid tenantOf world connection
        { settings := settings
          tx := some { tenantId := tenantId, ready := true, written := written } } world
  | ended {tx : TenantTx ρ} :
      connection.tx = some tx → TenantAdvance castUuid tenantOf world connection connection.idle world
  | select :
      (∀ tx, connection.tx = some tx → tx.ready = true) →
      TenantAdvance castUuid tenantOf world connection connection
        { world with
          seen := world.seen ++
            [{ asker := connection.tx.map TenantTx.tenantId
               commits := world.commits
               written := (connection.tx.map TenantTx.written).getD []
               result := visibleRows castUuid tenantOf connection.settings
                 (world.rows ++ (connection.tx.map TenantTx.written).getD []) }] }
  | insert {tenantId : TenantId} {written : List ρ} {row : ρ} :
      connection.tx = some { tenantId := tenantId, ready := true, written := written } →
      checkRow castUuid tenantOf connection.settings row = .ok row →
      TenantAdvance castUuid tenantOf world connection
        { connection with
          tx := some { tenantId := tenantId, ready := true, written := written ++ [row] } } world
  | refused :
      connection.tx = none → TenantAdvance castUuid tenantOf world connection connection world
  | unscoped {row : ρ} :
      connection.tx = none → checkRow castUuid tenantOf connection.settings row = .ok row →
      TenantAdvance castUuid tenantOf world connection connection
        { world with
          rows := world.rows ++ [row]
          commits := world.commits ++ [(none, [row])] }
  | commit {tenantId : TenantId} {written : List ρ} :
      connection.tx = some { tenantId := tenantId, ready := true, written := written } →
      TenantAdvance castUuid tenantOf world connection connection.idle
        { world with
          rows := world.rows ++ written
          commits := world.commits ++ [(some tenantId, written)] }

theorem onConnection_eq_some {world world' : TenantWorld ρ} {i : Nat}
    {step : Connection ρ → Option (Connection ρ × TenantWorld ρ)}
    (h : onConnection world i step = some world') :
    ∃ connection connection' mid, world.connections[i]? = some connection ∧
      step connection = some (connection', mid) ∧
      world' = { mid with connections := world.connections.set i connection' } := by
  rcases Option.bind_eq_some_iff.1 h with ⟨connection, hconnection, h⟩
  rcases Option.bind_eq_some_iff.1 h with ⟨⟨connection', mid⟩, hstep, h⟩
  cases h
  exact ⟨connection, connection', mid, hconnection, hstep, rfl⟩

theorem eq_of_checkRow {settings : SessionSettings} {row row' : ρ}
    (h : checkRow castUuid tenantOf settings row = .ok row') : row' = row := by
  unfold checkRow at h
  cases hpolicy : policyTenant castUuid settings with
  | error e => simp [hpolicy] at h
  | ok tenantId =>
      by_cases htenant : tenantId = some (tenantOf row)
      · simp only [hpolicy, htenant, if_true] at h
        exact (Except.ok.inj h).symm
      · simp [hpolicy, htenant] at h

/-- A step opens a connection or advances one. -/
theorem tenantStep_cases {world world' : TenantWorld ρ} {step : TenantStep ρ}
    (h : tenantStep castUuid tenantOf world step = some world') :
    world' = { world with connections := world.connections ++ [Connection.fresh] } ∨
      ∃ i connection connection' mid, world.connections[i]? = some connection ∧
        TenantAdvance castUuid tenantOf world connection connection' mid ∧
        world' = { mid with connections := world.connections.set i connection' } := by
  cases step with
  | connect =>
      cases h
      exact Or.inl rfl
  | begin i tenantId =>
      rcases onConnection_eq_some h with ⟨connection, connection', mid, hi, hstep, rfl⟩
      refine Or.inr ⟨i, connection, connection', mid, hi, ?_, rfl⟩
      cases htx : connection.tx with
      | some tx => simp [htx] at hstep
      | none =>
          simp only [htx, Option.some.injEq, Prod.mk.injEq] at hstep
          rcases hstep with ⟨rfl, rfl⟩
          exact .begin tenantId htx
  | setContext i dropped =>
      rcases onConnection_eq_some h with ⟨connection, connection', mid, hi, hstep, rfl⟩
      refine Or.inr ⟨i, connection, connection', mid, hi, ?_, rfl⟩
      rcases htx : connection.tx with - | ⟨tenantId, ready, written⟩
      · simp [htx] at hstep
      · cases ready with
        | true => simp [htx] at hstep
        | false =>
            cases hset : setTenantContext tenantId dropped connection.settings with
            | error e =>
                simp only [htx, hset, Option.some.injEq, Prod.mk.injEq] at hstep
                rcases hstep with ⟨rfl, rfl⟩
                exact .ended htx
            | ok settings =>
                simp only [htx, hset, Option.some.injEq, Prod.mk.injEq] at hstep
                rcases hstep with ⟨rfl, rfl⟩
                exact .ready htx hset
  | select i =>
      rcases onConnection_eq_some h with ⟨connection, connection', mid, hi, hstep, rfl⟩
      refine Or.inr ⟨i, connection, connection', mid, hi, ?_, rfl⟩
      rcases htx : connection.tx with - | ⟨tenantId, ready, written⟩
      · simp only [htx, Option.some.injEq, Prod.mk.injEq] at hstep
        rcases hstep with ⟨rfl, rfl⟩
        rw [← htx]
        exact .select (by simp [htx])
      · cases ready with
        | false => simp [htx] at hstep
        | true =>
            simp only [htx, Option.some.injEq, Prod.mk.injEq] at hstep
            rcases hstep with ⟨rfl, rfl⟩
            rw [← htx]
            exact .select (by simp [htx])
  | insert i row =>
      rcases onConnection_eq_some h with ⟨connection, connection', mid, hi, hstep, rfl⟩
      refine Or.inr ⟨i, connection, connection', mid, hi, ?_, rfl⟩
      cases hcheck : checkRow castUuid tenantOf connection.settings row with
      | error e =>
          rcases htx : connection.tx with - | ⟨tenantId, ready, written⟩
          · simp only [htx, hcheck, Option.some.injEq, Prod.mk.injEq] at hstep
            rcases hstep with ⟨rfl, rfl⟩
            exact .refused htx
          · cases ready with
            | false => simp [htx] at hstep
            | true =>
                simp only [htx, hcheck, Option.some.injEq, Prod.mk.injEq] at hstep
                rcases hstep with ⟨rfl, rfl⟩
                exact .ended htx
      | ok stored =>
          rcases eq_of_checkRow hcheck with rfl
          rcases htx : connection.tx with - | ⟨tenantId, ready, written⟩
          · simp only [htx, hcheck, Option.some.injEq, Prod.mk.injEq] at hstep
            rcases hstep with ⟨rfl, rfl⟩
            exact .unscoped htx hcheck
          · cases ready with
            | false => simp [htx] at hstep
            | true =>
                simp only [htx, hcheck, Option.some.injEq, Prod.mk.injEq] at hstep
                rcases hstep with ⟨rfl, rfl⟩
                exact .insert htx hcheck
  | commit i =>
      rcases onConnection_eq_some h with ⟨connection, connection', mid, hi, hstep, rfl⟩
      refine Or.inr ⟨i, connection, connection', mid, hi, ?_, rfl⟩
      rcases htx : connection.tx with - | ⟨tenantId, ready, written⟩
      · simp [htx] at hstep
      · cases ready with
        | false => simp [htx] at hstep
        | true =>
            simp only [htx, Option.some.injEq, Prod.mk.injEq] at hstep
            rcases hstep with ⟨rfl, rfl⟩
            exact .commit htx
  | rollback i =>
      rcases onConnection_eq_some h with ⟨connection, connection', mid, hi, hstep, rfl⟩
      refine Or.inr ⟨i, connection, connection', mid, hi, ?_, rfl⟩
      cases htx : connection.tx with
      | none => simp [htx] at hstep
      | some tx =>
          simp only [htx, Option.some.injEq, Prod.mk.injEq] at hstep
          rcases hstep with ⟨rfl, rfl⟩
          exact .ended htx

end Inversion

/-! ## What a run keeps up -/

section Isolation

variable {ρ : Type} {castUuid : String → Option Uuid} {tenantOf : ρ → TenantId}

/-- A connection has a tenant's context in a transaction that was begun for this tenant, and none
otherwise. -/
def Scoped (tenantOf : ρ → TenantId) (connection : Connection ρ) : Prop :=
  connection.settings.Blank tenantGuc ∧
    match connection.tx with
    | none => connection.settings.transaction = []
    | some tx =>
        (∀ row ∈ tx.written, tenantOf row = tx.tenantId) ∧
          if tx.ready then
            connection.settings.current tenantGuc = some tx.tenantId.asUuid.hyphenated
          else connection.settings.transaction = [] ∧ tx.written = []

/-- The rows that a statement should have seen: those that were there of its tenant, those that its
tenant had committed, and those that its transaction had written. -/
def ownRows (tenantOf : ρ → TenantId) (start : List ρ) (sighting : Sighting ρ) : List ρ :=
  match sighting.asker with
  | none => []
  | some tenantId =>
      (start.filter fun row => tenantOf row = tenantId) ++
        ((sighting.commits.filter fun commit => commit.1 = some tenantId).flatMap Prod.snd ++
          sighting.written)

/-- A commit of rows of the tenant that it was for. -/
def WithinTenant (tenantOf : ρ → TenantId) (commit : Option TenantId × List ρ) : Prop :=
  ∃ tenantId, commit.1 = some tenantId ∧ ∀ row ∈ commit.2, tenantOf row = tenantId

/-- All rows that there were for a statement. -/
def Sighting.table (self : Sighting ρ) (start : List ρ) : List ρ :=
  start ++ self.commits.flatMap Prod.snd ++ self.written

/-- A statement saw what it should, which is what belongs to its tenant of all that there was. -/
structure Isolated (tenantOf : ρ → TenantId) (start : List ρ) (sighting : Sighting ρ) : Prop where
  result : sighting.result = .ok (ownRows tenantOf start sighting)
  ownRows : ∀ tenantId, sighting.asker = some tenantId →
    Falkr.ownRows tenantOf start sighting =
      (sighting.table start).filter fun row => tenantOf row = tenantId

structure Contained (tenantOf : ρ → TenantId) (start : List ρ) (world : TenantWorld ρ) : Prop where
  rows : world.rows = start ++ world.commits.flatMap Prod.snd
  commits : ∀ commit ∈ world.commits, WithinTenant tenantOf commit
  connections : ∀ connection ∈ world.connections, Scoped tenantOf connection
  seen : ∀ sighting ∈ world.seen, Isolated tenantOf start sighting

theorem Scoped.fresh : Scoped tenantOf Connection.fresh :=
  ⟨SessionSettings.blank_initial, rfl⟩

theorem Scoped.idle {connection : Connection ρ} (h : Scoped tenantOf connection) :
    Scoped tenantOf connection.idle :=
  ⟨h.1.endTransaction, rfl⟩

/-- The policy admits the rows of the transaction's tenant, or none. -/
theorem Scoped.policyTenant (hcast : ∀ id, castUuid id.hyphenated = some id)
    {connection : Connection ρ} (h : Scoped tenantOf connection)
    (hready : ∀ tx, connection.tx = some tx → tx.ready = true) :
    Falkr.policyTenant castUuid connection.settings =
      .ok (connection.tx.map TenantTx.tenantId) := by
  rcases h with ⟨hblank, htx⟩
  cases hcase : connection.tx with
  | none =>
      rw [hcase] at htx
      exact policyTenant_of_blank hblank htx
  | some tx =>
      rw [hcase] at htx
      -- A transaction that was begun has its tenant's setting in effect.
      have hcurrent := htx.2
      rw [if_pos (hready tx hcase)] at hcurrent
      exact policyTenant_of_context hcast hcurrent

theorem filter_commits {commits : List (Option TenantId × List ρ)}
    (h : ∀ commit ∈ commits, WithinTenant tenantOf commit) (tenantId : TenantId) :
    (commits.flatMap Prod.snd).filter (fun row => tenantOf row = tenantId) =
      (commits.filter fun commit => commit.1 = some tenantId).flatMap Prod.snd := by
  induction commits with
  | nil => rfl
  | cons commit rest ih =>
      rcases List.forall_mem_cons.1 h with ⟨⟨owner, howner, hrows⟩, hrest⟩
      rw [List.flatMap_cons, List.filter_append, ih hrest]
      -- A commit's rows are all of one tenant, so the filter keeps all of them or none.
      by_cases hsame : owner = tenantId
      · subst hsame
        rw [List.filter_cons_of_pos (by simpa using howner), List.flatMap_cons,
          List.filter_eq_self.2 (by simpa using hrows)]
      · have hnone : commit.2.filter (fun row => tenantOf row = tenantId) = [] := by
          rw [List.filter_eq_nil_iff]
          intro row hrow
          simpa [hrows row hrow] using hsame
        rw [List.filter_cons_of_neg (by simpa [howner] using hsame), hnone, List.nil_append]

/-- A statement in a transaction that was begun, or outside of one, is isolated. -/
theorem Contained.select (hcast : ∀ id, castUuid id.hyphenated = some id) {start : List ρ}
    {world : TenantWorld ρ} (h : Contained tenantOf start world) {connection : Connection ρ}
    (hscoped : Scoped tenantOf connection)
    (hready : ∀ tx, connection.tx = some tx → tx.ready = true) :
    Isolated tenantOf start
      { asker := connection.tx.map TenantTx.tenantId
        commits := world.commits
        written := (connection.tx.map TenantTx.written).getD []
        result := visibleRows castUuid tenantOf connection.settings
          (world.rows ++ (connection.tx.map TenantTx.written).getD []) } := by
  have hpolicy := hscoped.policyTenant hcast hready
  cases hcase : connection.tx with
  | none =>
      rw [hcase] at hpolicy
      exact ⟨by simp [visibleRows, hpolicy, ownRows], by simp⟩
  | some tx =>
      rw [hcase] at hpolicy
      have hwritten : tx.written.filter (fun row => tenantOf row = tx.tenantId) = tx.written := by
        have htx := hscoped.2
        rw [hcase] at htx
        exact List.filter_eq_self.2 (by simpa using htx.1)
      have hrows : (start ++ world.commits.flatMap Prod.snd ++ tx.written).filter
          (fun row => tenantOf row = tx.tenantId) =
          (start.filter fun row => tenantOf row = tx.tenantId) ++
            ((world.commits.filter fun commit => commit.1 = some tx.tenantId).flatMap Prod.snd ++
              tx.written) := by
        rw [List.filter_append, List.filter_append, filter_commits h.commits, hwritten,
          List.append_assoc]
      constructor
      · rw [visibleRows, hpolicy, h.rows]
        exact congrArg Except.ok hrows
      · intro tenantId hasker
        cases hasker
        exact hrows.symm

/-- One step on a connection keeps it scoped, and commits for a tenant its own rows. -/
theorem Contained.advance (hcast : ∀ id, castUuid id.hyphenated = some id) {start : List ρ}
    {world mid : TenantWorld ρ} {connection connection' : Connection ρ}
    (h : Contained tenantOf start world) (hscoped : Scoped tenantOf connection)
    (hadvance : TenantAdvance castUuid tenantOf world connection connection' mid) :
    Scoped tenantOf connection' ∧
      Contained tenantOf start { mid with connections := world.connections } := by
  cases hadvance with
  | begin tenantId hnone =>
      have htx := hscoped.2
      rw [hnone] at htx
      exact ⟨⟨hscoped.1, by simp, by simp [htx]⟩, h⟩
  | ready hcase hset =>
      have htx := hscoped.2
      rw [hcase] at htx
      rcases current_of_setTenantContext hscoped.1 hset with ⟨hcurrent, hblank⟩
      exact ⟨⟨hblank, htx.1, by simpa using hcurrent⟩, h⟩
  | ended hcase => exact ⟨hscoped.idle, h⟩
  | select hready =>
      refine ⟨hscoped, h.rows, h.commits, h.connections, ?_⟩
      rw [List.forall_mem_append]
      exact ⟨h.seen, List.forall_mem_singleton.2 (h.select hcast hscoped hready)⟩
  | @insert tenantId written row hcase hcheck =>
      have hpolicy := hscoped.policyTenant hcast (by simp [hcase])
      -- The row passed the check, which compares it with the tenant in effect.
      have htenant : tenantOf row = tenantId := by
        by_contra hne
        simp [checkRow, hpolicy, hcase, Ne.symm hne] at hcheck
      have htx := hscoped.2
      rw [hcase] at htx
      refine ⟨⟨hscoped.1, ?_, by simpa using htx.2⟩, h⟩
      rw [List.forall_mem_append]
      exact ⟨htx.1, List.forall_mem_singleton.2 htenant⟩
  | refused hnone => exact ⟨hscoped, h⟩
  | @unscoped row hnone hcheck =>
      -- Without a context the check fails.
      have hpolicy := hscoped.policyTenant hcast (by simp [hnone])
      simp [checkRow, hpolicy, hnone] at hcheck
  | @commit tenantId written hcase =>
      have htx := hscoped.2
      rw [hcase] at htx
      refine ⟨hscoped.idle, ?_, ?_, h.connections, h.seen⟩
      · simp [h.rows]
      · rw [List.forall_mem_append]
        exact ⟨h.commits, List.forall_mem_singleton.2 ⟨tenantId, rfl, htx.1⟩⟩

theorem Contained.step (hcast : ∀ id, castUuid id.hyphenated = some id) {start : List ρ}
    {world world' : TenantWorld ρ} {step : TenantStep ρ} (h : Contained tenantOf start world)
    (hstep : tenantStep castUuid tenantOf world step = some world') :
    Contained tenantOf start world' := by
  -- A new connection is blank; a step on one leaves the others as they are.
  rcases tenantStep_cases hstep with rfl | ⟨i, connection, connection', mid, hi, hadvance, rfl⟩
  · refine ⟨h.rows, h.commits, ?_, h.seen⟩
    rw [List.forall_mem_append]
    exact ⟨h.connections, List.forall_mem_singleton.2 Scoped.fresh⟩
  · have hscoped := h.connections connection (List.mem_of_getElem? hi)
    rcases h.advance hcast hscoped hadvance with ⟨hscoped', hmid⟩
    refine ⟨hmid.rows, hmid.commits, ?_, hmid.seen⟩
    intro other hother
    -- The other connections have not moved.
    rcases List.mem_or_eq_of_mem_set hother with hold | rfl
    · exact h.connections other hold
    · exact hscoped'

theorem contained_of_run (hcast : ∀ id, castUuid id.hyphenated = some id) {start : List ρ}
    {steps : List (TenantStep ρ)} {world : TenantWorld ρ}
    (h : (tenantMachine castUuid tenantOf start).run
      (tenantMachine castUuid tenantOf start).start steps = some world) :
    Contained tenantOf start world := by
  apply (tenantMachine castUuid tenantOf start).invariant (Contained tenantOf start) ?_ ?_ h
  · exact ⟨by simp [tenantMachine], by simp [tenantMachine], by simp [tenantMachine],
      by simp [tenantMachine]⟩
  · intro mid step mid' hmid hstep
    exact hmid.step hcast hstep

/-- However connections, transactions and stray statements interleave: a statement in a tenant's
transaction sees the tenant's rows, all of them and no others, and one outside sees none.  What other
tenants committed makes no difference. -/
theorem tenants_see_their_own_rows (hcast : ∀ id, castUuid id.hyphenated = some id)
    (start : List ρ) {steps : List (TenantStep ρ)} {world : TenantWorld ρ}
    (h : (tenantMachine castUuid tenantOf start).run
      (tenantMachine castUuid tenantOf start).start steps = some world) :
    ∀ sighting ∈ world.seen, Isolated tenantOf start sighting :=
  (contained_of_run hcast h).seen

/-- Nothing is stored but by a transaction of the tenant that it belongs to, and no connection
without a transaction has a tenant. -/
theorem tenants_write_their_own_rows (hcast : ∀ id, castUuid id.hyphenated = some id)
    (start : List ρ) {steps : List (TenantStep ρ)} {world : TenantWorld ρ}
    (h : (tenantMachine castUuid tenantOf start).run
      (tenantMachine castUuid tenantOf start).start steps = some world) :
    world.rows = start ++ world.commits.flatMap Prod.snd ∧
      (∀ commit ∈ world.commits, WithinTenant tenantOf commit) ∧
      ∀ connection ∈ world.connections, connection.tx = none →
        currentTenantContext connection.settings = none := by
  have hcontained := contained_of_run hcast h
  refine ⟨hcontained.rows, hcontained.commits, ?_⟩
  intro connection hmem hnone
  rcases hcontained.connections connection hmem with ⟨hblank, htx⟩
  rw [hnone] at htx
  exact currentTenantContext_of_blank hblank htx

end Isolation

/-! ## The statements of the stores -/

/-- What the store filters is what the policy leaves of the events that were ingested since. -/
theorem Isolated.ingestedSince {start : List CostRow} {sighting : Sighting CostRow}
    {tenantId : TenantId} (h : Isolated (fun row => row.dims.tenantId) start sighting)
    (hasker : sighting.asker = some tenantId) (since : DateTimeUtc) :
    Falkr.ingestedSince tenantId since (sighting.table start) =
      (Falkr.ownRows (fun row => row.dims.tenantId) start sighting).filter fun row =>
        toMicros since ≤ row.sourceIngestedAt := by
  rw [h.ownRows tenantId hasker, List.filter_filter, Falkr.ingestedSince]
  simp [Bool.and_comm]

/-- The run that the store finds is the one that the policy lets a statement find. -/
theorem Isolated.selectRun {start : List RunRow} {sighting : Sighting RunRow}
    {tenantId : TenantId} (h : Isolated RunRow.tenantId start sighting)
    (hasker : sighting.asker = some tenantId) (runId : RunId) :
    Falkr.selectRun tenantId runId (sighting.table start) =
      (Falkr.ownRows RunRow.tenantId start sighting).find? fun row => row.id = runId := by
  rw [h.ownRows tenantId hasker, List.find?_filter, Falkr.selectRun]
  simp [Bool.and_comm]

/-! ## Two tenants on one connection -/

section OneConnection

def alice : TenantId := ⟨1⟩

def bob : TenantId := ⟨2⟩

def runOf (tenantId : TenantId) (id : RunId) : RunRow where
  id := id
  tenantId := tenantId
  attributedCost := 0
  attributedCostCurrency := "USD"

/-- Two tenants take turns, and Bob tries to store a run of Alice's; the setting of the last
transaction is dropped. -/
def turns : List (TenantStep RunRow) :=
  [.connect, .begin 0 alice, .setContext 0 false, .insert 0 (runOf alice ⟨1⟩), .select 0, .commit 0,
    .select 0, .begin 0 bob, .setContext 0 false, .select 0, .insert 0 (runOf bob ⟨2⟩), .select 0,
    .insert 0 (runOf alice ⟨3⟩), .begin 0 alice, .setContext 0 false, .select 0, .commit 0,
    .begin 0 bob, .setContext 0 true]

def afterTurns : Option (TenantWorld RunRow) :=
  (tenantMachine Uuid.read RunRow.tenantId []).run
    (tenantMachine Uuid.read RunRow.tenantId []).start turns

theorem afterTurns_isSome : afterTurns.isSome = true := by
  decide +kernel

theorem tenants_see_their_own_rows_turns :
    (∀ sighting ∈ (afterTurns.get afterTurns_isSome).seen, Isolated RunRow.tenantId [] sighting) ∧
      (afterTurns.get afterTurns_isSome).seen.map (fun sighting => sighting.result.toOption) =
        [some [runOf alice ⟨1⟩], some [], some [], some [runOf bob ⟨2⟩], some [runOf alice ⟨1⟩]] :=
  ⟨tenants_see_their_own_rows Uuid.read_hyphenated [] (Option.some_get afterTurns_isSome).symm,
    by decide +kernel⟩

theorem tenants_write_their_own_rows_turns :
    ((afterTurns.get afterTurns_isSome).rows =
        [] ++ (afterTurns.get afterTurns_isSome).commits.flatMap Prod.snd ∧
      (∀ commit ∈ (afterTurns.get afterTurns_isSome).commits,
        WithinTenant RunRow.tenantId commit) ∧
      ∀ connection ∈ (afterTurns.get afterTurns_isSome).connections, connection.tx = none →
        currentTenantContext connection.settings = none) ∧
      (afterTurns.get afterTurns_isSome).rows = [runOf alice ⟨1⟩] ∧
      (afterTurns.get afterTurns_isSome).connections.map (fun connection => connection.settings) =
        [⟨[(tenantGuc, "")], []⟩] :=
  ⟨tenants_write_their_own_rows Uuid.read_hyphenated [] (Option.some_get afterTurns_isSome).symm,
    by decide +kernel, by decide +kernel⟩

end OneConnection

end Falkr
