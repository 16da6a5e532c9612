import Falkr.Lib.SortedMap
import Falkr.Lib.Text
import Mathlib.Data.String.Basic
import Mathlib.Logic.Relation

/-!
# CheckDeps — the direction of the dependencies between the crates

The script looks at the direct, normal dependencies that each crate of the workspace declares, one
by one.  What it is after is a property of the workspace as a whole, that no chain of dependencies
leads outward, whatever crates there are besides the ones it names.  For the rules it checks the
two are the same (`main_succeeds_iff`).
-/

namespace Falkr

open Lib

namespace CheckDeps

/-! ## The script -/

def core : String := "falkr-core"

def events : String := "falkr-events"

def domain : List String := ["falkr-cost-spine", "falkr-research-graph"]

def infra : String := "falkr-infra"

def binaries : List String := ["api"]

/-- The golden-ledger corpus, which may depend on anything. -/
def testkit : String := "falkr-testkit"

/-- Libraries that must never be a direct dependency of the domain layer. -/
def persistence : List String :=
  ["sqlx", "sea-orm", "sea-query", "sea-schema", "diesel", "tokio-postgres"]

/-- A dependency as a manifest declares it; a normal one has no kind. -/
structure Dependency where
  name : String
  kind : Option String
  optional : Bool
  deriving DecidableEq, Repr

structure Package where
  name : String
  dependencies : List Dependency
  deriving DecidableEq, Repr

/-- A crate that the script names is not in the workspace. -/
structure KeyError where
  key : String
  deriving DecidableEq, Repr

abbrev Packages := SortedMap String Package

/-- The packages under their names. -/
def packagesOf (packages : List Package) : Packages :=
  SortedMap.ofList (packages.map fun p => (p.name, p))

def lookup (pkgs : Packages) (name : String) : Except KeyError Package :=
  match pkgs.get? name with
  | some p => .ok p
  | none => .error ⟨name⟩

/-- The names of the normal dependencies. -/
def Package.deps (self : Package) : List String :=
  (self.dependencies.filter fun d => d.kind = none).map Dependency.name

/-- The members of the set in their order. -/
def sorted (s : List String) : List String :=
  (SortedMap.ofList (s.map fun name => (name, ()))).keys

def minus (s t : List String) : List String :=
  s.filter fun name => name ∉ t

def depsOf (pkgs : Packages) (name : String) : Except KeyError (List String) := do
  let p ← lookup pkgs name
  pure p.deps

/-- One line for every banned crate that the crate depends on. -/
def forbid (pkgs : Packages) (crate : String) (banned : List String) (why : String) :
    Except KeyError (List String) := do
  let deps ← depsOf pkgs crate
  let found := sorted (deps.filter fun name => name ∈ banned)
  pure (found.map fun bad => crate ++ " -> " ++ bad ++ ": " ++ why)

/-- A persistence library is an optional dependency of core, or none. -/
def forbidRequired (pkgs : Packages) : Except KeyError (List String) := do
  let p ← lookup pkgs core
  let required := p.dependencies.filter fun d =>
    d.name ∈ persistence ∧ d.kind = none ∧ ¬ d.optional
  pure (required.map fun d => core ++ " -> " ++ d.name ++ ": must be optional and off by default")

/-- The checks one after another; the violations are those of all of them. -/
def collect : List (Except KeyError (List String)) → Except KeyError (List String)
  | [] => .ok []
  | check :: rest => do
      let found ← check
      let others ← collect rest
      pure (found ++ others)

/-- The checks of the script in their order. -/
def checks (pkgs : Packages) : List (Except KeyError (List String)) :=
  let workspace := pkgs.keys
  [forbid pkgs core (minus workspace [core]) "core must depend on nothing in this workspace",
    forbid pkgs events (minus workspace [events, core]) "events may depend only on falkr-core"] ++
  (sorted domain).flatMap (fun crate =>
    [forbid pkgs crate (minus workspace [crate, core, events])
        "domain crates may depend only on falkr-core and falkr-events",
      forbid pkgs crate persistence "domain crates define traits; infra implements them"]) ++
  [forbidRequired pkgs,
    forbid pkgs infra binaries "infra must not depend on the binary crates"] ++
  (sorted (minus workspace [testkit])).map (fun crate =>
    forbid pkgs crate [testkit] "nothing may depend on falkr-testkit outside [dev-dependencies]") ++
  (sorted (minus workspace binaries)).map (fun crate =>
    forbid pkgs crate binaries "binary crates are leaves; nothing may depend on them")

def violations (packages : List Package) : Except KeyError (List String) :=
  collect (checks (packagesOf packages))

/-- How the script ends, and what it has printed. -/
structure Exit where
  code : Nat
  stdout : List String
  stderr : List String
  deriving DecidableEq, Repr

/-- `str.isspace`, which takes the four separators of ASCII for white space as well. -/
def isSpace (c : Char) : Bool :=
  isWhiteSpace c || (0x1C ≤ c.toNat && c.toNat ≤ 0x1F)

/-- `str.strip`. -/
def strip (s : String) : String :=
  String.ofList ((s.toList.dropWhile isSpace).reverse.dropWhile isSpace).reverse

/-- The run of the script on what `cargo metadata` answers, its packages or its complaint. -/
def main (metadata : Except String (List Package)) : Except KeyError Exit :=
  match metadata with
  | .error stderr => .ok {
      code := 1
      stdout := []
      stderr := ["cargo metadata failed; the workspace manifests are not valid:", strip stderr] }
  | .ok packages => do
      let found ← violations packages
      if found ≠ [] then
        pure {
          code := 1
          stdout := []
          stderr := ["Dependency direction violations:\n"] ++ found.map ("  ✗ " ++ ·) ++
            ["\n" ++ toString found.length ++ " violation(s). Arrows point inward only."] }
      else
        pure {
          code := 0
          stdout := ["✓ dependency direction OK across " ++
            toString (packagesOf packages).size ++ " workspace crates"]
          stderr := [] }

/-! ## The workspace as a graph -/

/-- The crate of the workspace declares the normal dependency. -/
def DependsOn (pkgs : Packages) (crate dep : String) : Prop :=
  ∃ p, pkgs.get? crate = some p ∧ dep ∈ p.deps

/-- A chain of normal dependencies leads from the crate to the other. -/
def Reaches (pkgs : Packages) : String → String → Prop :=
  Relation.TransGen (DependsOn pkgs)

/-- Which chains of dependencies there are, besides what the domain layer and core declare about
persistence themselves. -/
structure Inward (pkgs : Packages) : Prop where
  core_reaches : ∀ c ∈ pkgs.keys, Reaches pkgs core c → c = core
  events_reaches : ∀ c ∈ pkgs.keys, Reaches pkgs events c → c ∈ [events, core]
  domain_reaches : ∀ d ∈ domain, ∀ c ∈ pkgs.keys, Reaches pkgs d c →
    c ∈ [d, core, events]
  reaches_testkit : ∀ c, Reaches pkgs c testkit → c = testkit
  reaches_binary : ∀ b ∈ binaries, ∀ c, Reaches pkgs c b → c ∈ binaries
  domain_persistence : ∀ d ∈ domain, ∀ lib ∈ persistence, ¬ DependsOn pkgs d lib
  core_persistence : ∀ p, pkgs.get? core = some p → ∀ d ∈ p.dependencies, d.name ∈ persistence →
    d.kind = none → d.optional = true

/-- The crates that the script looks up are in the workspace. -/
def Present (pkgs : Packages) : Prop :=
  core ∈ pkgs.keys ∧ events ∈ pkgs.keys ∧ (∀ d ∈ domain, d ∈ pkgs.keys) ∧ infra ∈ pkgs.keys

section Graph

variable {pkgs : Packages} {a b : String}

theorem DependsOn.mem_keys (h : DependsOn pkgs a b) : a ∈ pkgs.keys := by
  rcases h with ⟨p, hp, -⟩
  rw [SortedMap.mem_keys_iff, hp]
  rfl

/-- A set of crates that no dependency leaves for another crate of the workspace is left by no
chain either: what is reached outside the workspace has no dependencies. -/
theorem Reaches.mem_of_closed {s : Set String}
    (hclosed : ∀ x ∈ s, ∀ y ∈ pkgs.keys, DependsOn pkgs x y → y ∈ s) (ha : a ∈ s)
    (h : Reaches pkgs a b) (hb : b ∈ pkgs.keys) : b ∈ s := by
  induction h with
  | single hdep => exact hclosed _ ha _ hb hdep
  -- What depends on something is in the workspace, so the chain so far stays inside.
  | tail _ hdep ih => exact hclosed _ (ih hdep.mem_keys) _ hb hdep

/-- A set of crates that no dependency enters is entered by no chain. -/
theorem Reaches.mem_of_entered {s : Set String}
    (hentered : ∀ x y, y ∈ s → DependsOn pkgs x y → x ∈ s) (hb : b ∈ s)
    (h : Reaches pkgs a b) : a ∈ s := by
  induction h using Relation.TransGen.head_induction_on with
  | single hdep => exact hentered _ _ hb hdep
  | head hdep _ ih => exact hentered _ _ ih hdep

end Graph

/-! ## What the checks find -/

section Checks

variable {pkgs : Packages}

@[simp] theorem mem_sorted {s : List String} {name : String} : name ∈ sorted s ↔ name ∈ s := by
  rw [sorted, SortedMap.mem_keys_ofList]
  simp

@[simp] theorem mem_minus {s t : List String} {name : String} :
    name ∈ minus s t ↔ name ∈ s ∧ name ∉ t := by
  simp [minus]

theorem collect_eq_nil_iff {l : List (Except KeyError (List String))} :
    collect l = .ok [] ↔ ∀ check ∈ l, check = .ok [] := by
  induction l with
  | nil => simp [collect]
  | cons check rest ih =>
      rw [List.forall_mem_cons, ← ih, collect]
      cases check with
      | error e => simp [bind, Except.bind]
      | ok found =>
          cases hrest : collect rest <;>
            simp [bind, Except.bind, pure, Except.pure, List.append_eq_nil_iff]

/-- Nothing is found exactly if the crate is there and depends on nothing that is banned. -/
theorem forbid_eq_nil_iff {crate why : String} {banned : List String} :
    forbid pkgs crate banned why = .ok [] ↔
      crate ∈ pkgs.keys ∧ ∀ bad ∈ banned, ¬ DependsOn pkgs crate bad := by
  rw [forbid, depsOf, lookup, SortedMap.mem_keys_iff]
  unfold DependsOn
  cases hget : pkgs.get? crate with
  | none => simp [bind, Except.bind]
  | some p =>
      -- The set of what is found is empty if its members are none.
      have hempty : sorted (p.deps.filter fun name => name ∈ banned) = [] ↔
          ∀ bad ∈ banned, bad ∉ p.deps := by
        rw [List.eq_nil_iff_forall_not_mem]
        simp only [mem_sorted, List.mem_filter, decide_eq_true_eq, not_and]
        exact forall_congr' fun bad => imp_not_comm
      simp [bind, Except.bind, pure, Except.pure, hempty]

theorem forbidRequired_eq_nil_iff :
    forbidRequired pkgs = .ok [] ↔ core ∈ pkgs.keys ∧ ∀ p, pkgs.get? core = some p →
      ∀ d ∈ p.dependencies, d.name ∈ persistence → d.kind = none → d.optional = true := by
  rw [forbidRequired, lookup, SortedMap.mem_keys_iff]
  cases hget : pkgs.get? core with
  | none => simp [bind, Except.bind]
  | some p => simp [bind, Except.bind, pure, Except.pure]

/-- The rules one dependency at a time, as the script checks them. -/
structure DirectlyInward (pkgs : Packages) : Prop where
  core_dep : ∀ c ∈ pkgs.keys, DependsOn pkgs core c → c = core
  events_dep : ∀ c ∈ pkgs.keys, DependsOn pkgs events c → c ∈ [events, core]
  domain_dep : ∀ d ∈ domain, ∀ c ∈ pkgs.keys, DependsOn pkgs d c →
    c ∈ [d, core, events]
  domain_persistence : ∀ d ∈ domain, ∀ lib ∈ persistence, ¬ DependsOn pkgs d lib
  core_persistence : ∀ p, pkgs.get? core = some p → ∀ d ∈ p.dependencies, d.name ∈ persistence →
    d.kind = none → d.optional = true
  infra_binary : ∀ b ∈ binaries, ¬ DependsOn pkgs infra b
  dep_testkit : ∀ c ∈ pkgs.keys, c ≠ testkit → ¬ DependsOn pkgs c testkit
  dep_binary : ∀ c ∈ pkgs.keys, c ∉ binaries → ∀ b ∈ binaries, ¬ DependsOn pkgs c b

theorem not_dependsOn_minus_iff {crate : String} {allowed : List String} :
    (∀ bad ∈ minus pkgs.keys allowed, ¬ DependsOn pkgs crate bad) ↔
      ∀ c ∈ pkgs.keys, DependsOn pkgs crate c → c ∈ allowed := by
  simp only [mem_minus, and_imp]
  exact forall₂_congr fun c _ => not_imp_not

theorem violations_eq_nil_iff {packages : List Package} :
    violations packages = .ok [] ↔
      Present (packagesOf packages) ∧ DirectlyInward (packagesOf packages) := by
  rw [violations, collect_eq_nil_iff]
  -- What follows is about the table alone, not about how it came from the list.
  generalize packagesOf packages = pkgs
  -- Every check turns into the condition under which it finds nothing, in the script's order.
  simp only [checks, List.forall_mem_append, List.forall_mem_cons, List.forall_mem_map,
    List.forall_mem_flatMap, mem_sorted, forbid_eq_nil_iff, forbidRequired_eq_nil_iff,
    not_dependsOn_minus_iff, List.not_mem_nil, false_implies, implies_true, and_true]
  constructor
  · rintro ⟨⟨⟨⟨⟨hcore, hevents⟩, hdomain⟩, hrequired, hinfra⟩, htestkit⟩, hbinary⟩
    refine ⟨⟨hcore.1, hevents.1, fun d hd => (hdomain d hd).1.1, hinfra.1⟩, ?_⟩
    exact {
      core_dep := fun c hc hdep => List.mem_singleton.1 (hcore.2 c hc hdep)
      events_dep := hevents.2
      domain_dep := fun d hd => (hdomain d hd).1.2
      domain_persistence := fun d hd => (hdomain d hd).2.2
      core_persistence := hrequired.2
      infra_binary := hinfra.2
      dep_testkit := fun c hc hne => (htestkit c (mem_minus.2 ⟨hc, by simpa using hne⟩)).2
      dep_binary := fun c hc hnot => (hbinary c (mem_minus.2 ⟨hc, hnot⟩)).2 }
  · rintro ⟨⟨hcore, hevents, hdomain, hinfra⟩, h⟩
    refine ⟨⟨⟨⟨⟨⟨hcore, ?_⟩, hevents, h.events_dep⟩, ?_⟩, ⟨hcore, h.core_persistence⟩, hinfra,
      h.infra_binary⟩, ?_⟩, ?_⟩
    · exact fun c hc hdep => List.mem_singleton.2 (h.core_dep c hc hdep)
    · exact fun d hd => ⟨⟨hdomain d hd, h.domain_dep d hd⟩, hdomain d hd, h.domain_persistence d hd⟩
    · intro c hc
      rcases mem_minus.1 hc with ⟨hmem, hne⟩
      exact ⟨hmem, h.dep_testkit c hmem fun heq => hne (List.mem_singleton.2 heq)⟩
    · intro c hc
      rcases mem_minus.1 hc with ⟨hmem, hnot⟩
      exact ⟨hmem, h.dep_binary c hmem hnot⟩

end Checks

/-! ## From single dependencies to chains -/

section Chains

variable {pkgs : Packages}

theorem Inward.directlyInward (h : Inward pkgs) (hinfra : infra ∉ binaries) :
    DirectlyInward pkgs where
  core_dep := fun c hc hdep => h.core_reaches c hc (.single hdep)
  events_dep := fun c hc hdep => h.events_reaches c hc (.single hdep)
  domain_dep := fun d hd c hc hdep => h.domain_reaches d hd c hc (.single hdep)
  domain_persistence := h.domain_persistence
  core_persistence := h.core_persistence
  infra_binary := fun b hb hdep => hinfra (h.reaches_binary b hb infra (.single hdep))
  dep_testkit := fun c _ hne hdep => hne (h.reaches_testkit c (.single hdep))
  dep_binary := fun c _ hnot b hb hdep => hnot (h.reaches_binary b hb c (.single hdep))

/-- Each layer is closed in the workspace once the layers below it are. -/
theorem DirectlyInward.inward (h : DirectlyInward pkgs) : Inward pkgs where
  core_reaches := by
    intro c hc hreaches
    refine hreaches.mem_of_closed (s := {core}) ?_ rfl hc
    rintro x rfl y hy hdep
    exact h.core_dep y hy hdep
  events_reaches := by
    intro c hc hreaches
    refine hreaches.mem_of_closed (s := {x | x ∈ [events, core]}) ?_ (by simp) hc
    intro x hx y hy hdep
    simp only [Set.mem_ofPred_eq, List.mem_cons, List.not_mem_nil, or_false] at hx
    rcases hx with rfl | rfl
    · exact h.events_dep y hy hdep
    · simp [h.core_dep y hy hdep]
  domain_reaches := by
    intro d hd c hc hreaches
    refine hreaches.mem_of_closed (s := {x | x ∈ [d, core, events]}) ?_ (by simp) hc
    intro x hx y hy hdep
    simp only [Set.mem_ofPred_eq, List.mem_cons, List.not_mem_nil, or_false] at hx
    rcases hx with rfl | rfl | rfl
    · exact h.domain_dep x hd y hy hdep
    · simp [h.core_dep y hy hdep]
    -- From events the chain may go on to core, which the domain may reach as well.
    · have hy' := h.events_dep y hy hdep
      simp only [List.mem_cons, List.not_mem_nil, or_false] at hy'
      rcases hy' with rfl | rfl <;> simp
  reaches_testkit := by
    intro c hreaches
    refine hreaches.mem_of_entered (s := {testkit}) ?_ rfl
    rintro x y rfl hdep
    by_contra hne
    exact h.dep_testkit x hdep.mem_keys hne hdep
  reaches_binary := by
    intro b hb c hreaches
    refine hreaches.mem_of_entered (s := {x | x ∈ binaries}) ?_ hb
    intro x y hy hdep
    by_contra hnot
    exact h.dep_binary x hdep.mem_keys hnot y hy hdep
  domain_persistence := h.domain_persistence
  core_persistence := h.core_persistence

theorem inward_iff : Inward pkgs ↔ DirectlyInward pkgs :=
  ⟨fun h => h.directlyInward (by decide), DirectlyInward.inward⟩

end Chains

/-- The script succeeds exactly if the crates it names are in the workspace, and every chain of
dependencies in it, of whatever length and through whatever other crates, points inward. -/
theorem main_succeeds_iff (packages : List Package) :
    (∃ out, main (.ok packages) = .ok out ∧ out.code = 0) ↔
      Present (packagesOf packages) ∧ Inward (packagesOf packages) := by
  rw [inward_iff, ← violations_eq_nil_iff, main]
  cases hfound : violations packages with
  | error e => simp [bind, Except.bind]
  | ok found =>
      by_cases hnil : found = []
      · simp [bind, Except.bind, pure, Except.pure, hnil]
      · simp [bind, Except.bind, pure, Except.pure, hnil]

/-- The dependencies of the crates on one another, and that of core on `sqlx`. -/
def workspace : List Package :=
  let normal := fun name => { name := name, kind := none, optional := false : Dependency }
  [⟨core, [{ name := "sqlx", kind := none, optional := true }]⟩,
    ⟨events, [normal core]⟩,
    ⟨"falkr-cost-spine", [normal core, normal events]⟩,
    ⟨"falkr-research-graph", [normal core, normal events]⟩,
    ⟨infra, [normal core, normal events, normal "falkr-cost-spine", normal "falkr-research-graph",
      normal "sqlx", { name := infra, kind := some "dev", optional := false }]⟩,
    ⟨"api", [normal core, normal events, normal "falkr-research-graph", normal "falkr-cost-spine",
      normal infra]⟩,
    ⟨testkit, [normal core, normal events, { name := infra, kind := some "dev", optional := false }]⟩]

example : main (.ok workspace) = .ok {
    code := 0
    stdout := ["✓ dependency direction OK across 7 workspace crates"]
    stderr := [] } := by
  decide +kernel

end CheckDeps

end Falkr
