import ClashMeta.Core.Dns.Resolver
import ClashMeta.Core.UrlTest
import ClashMeta.Lib.Attempt

/-!
# The core and its calls

The shared state of a running core (core/src/lib.rs:30-52) and the calls that change it:
`Core::new`, `select`, `set_mode`, `update_policy`, `prepare_resources` (lib.rs:162-209,
385-398, 486-533), `load_profile` (profile.rs:12-41) and `Resolver::configure` (dns.rs:84-140).
A call is an `Attempt`: it makes its reads, checks and writes in the order of the source. What
loading a snapshot and reading or writing the profile file return is given to it.
-/

namespace ClashMeta

open Attempt

/-- The shared state of the core. -/
structure CoreState where
  policy : Policy
  resources : Resources
  resolver : Dns.Resolver

/-- A call on the core. -/
abbrev Call := Attempt CoreState String

/-- `Saved`: the contents of the profile file. -/
structure Saved where
  selection : List (Str × Str)
  fake : List (Str × IpAddr)

namespace CoreState

/-- The state with another policy. -/
def withPolicy (s : CoreState) (f : Policy → Policy) : CoreState := { s with policy := f s.policy }

end CoreState

namespace Core

/-- The first member of each group (lib.rs:175-178); `proxies[0]` panics on an empty group. -/
def firstMembers : List Group → Table Str Str → Except Abrupt (Table Str Str)
  | [], selection => .ok selection
  | g :: rest, selection =>
    match g.proxies with
    | [] => .error .panic
    | m :: _ => firstMembers rest (selection.insert g.name m)

section

variable [ConfigText]

/-- `Core::new`. -/
def new (c : Config) : Except Abrupt CoreState := do
  c.validate.mapError .error
  let selection ← firstMembers c.core.proxyGroups ∅
  let rules ← (c.rules.mapM Rule.parse).mapError .error
  return {
    policy := ⟨c.mode, rules, c.rules, selection, ∅⟩
    resources := .empty
    resolver := ⟨⟨c.hosts, [], []⟩, .empty, 0⟩ }

/-- The section of `update_policy` that writes (lib.rs:524-531): the rules with their texts if
rules were given, and the mode if one was given. -/
def installPolicy (mode : Option Mode) (updateRules : Bool) (raw : List Str) (bound : List Rule)
    (p : Policy) : Policy :=
  let p := if updateRules then { p with rules := bound, rawRules := raw } else p
  match mode with
  | some mode => { p with mode := mode }
  | none => p

/-- `Core::update_policy` (lib.rs:511-533). -/
def updatePolicy (c : Config) (mode : Option Mode) (rules : Option (List Str)) : Call Unit := do
  let raw ← Attempt.read fun s => rules.getD s.policy.rawRules
  Attempt.lift ({ c with rules := raw, mode := mode.getD c.mode } : Config).validate
  let resources ← Attempt.read CoreState.resources
  let bound ← Attempt.lift (resources.rules raw)
  Attempt.write fun s => s.withPolicy (installPolicy mode rules.isSome raw bound)

/-- `Resolver::configure` (dns.rs:84-140): the policy is built, installed, and the cache
cleared. -/
def configure (c : Config) (resources : Resources) : Call Unit := do
  let policy ← Attempt.lift (Dns.buildPolicy c.dns c.hosts resources)
  Attempt.write fun s => { s with resolver := s.resolver.install policy }
  Attempt.write fun s => { s with resolver := s.resolver.clearCache }

/-- `Resources::load`, for what it returns. It resolves the hosts it downloads from, so the
resolver's cache may be another one behind it. -/
def loadResources (c : Config)
    (load : Config → Dns.Resolver → Except String Resources × Dns.Cache) : Call Resources := do
  let outcome ← Attempt.read fun s => load c s.resolver
  Attempt.write fun s => { s with resolver := { s.resolver with cache := outcome.2 } }
  Attempt.lift outcome.1

/-- The section of `prepare_resources` under both write locks (lib.rs:391-397). -/
def commitResources (c : Config) (next : Resources) : Call Unit := do
  let raw ← Attempt.read fun s => s.policy.rawRules
  let rules ← Attempt.lift (next.rules raw)
  configure c next
  Attempt.write fun s => s.withPolicy fun p => { p with rules := rules }
  Attempt.write fun s => { s with resources := next }

/-- `Core::prepare_resources` (lib.rs:385-398). -/
def prepareResources (c : Config)
    (load : Config → Dns.Resolver → Except String Resources × Dns.Cache) : Call Unit := do
  let raw ← Attempt.read fun s => s.policy.rawRules
  let next ← loadResources { c with rules := raw } load
  commitResources c next

end

/-- `Core::set_mode`. -/
def setMode (mode : Mode) : Call Unit :=
  Attempt.write fun s => s.withPolicy fun p => { p with mode := mode }

/-- `Core::select` (lib.rs:486-504), for what `save_profile` returns. -/
def select (c : CoreConfig) (group name : Str) (saved : Except String Unit) : Call Unit := do
  match c.proxyGroups.find? fun g => g.name = group with
  | none => Attempt.lift (.error "group not found")
  | some g => do
    Attempt.lift (ensure (name ∈ g.proxies) "node not in group")
    Attempt.write fun s => s.withPolicy fun p =>
      { p with selection := p.selection.insert group name }
    Attempt.lift saved

/-- The loop over a saved selection (profile.rs:29-38): unknown groups and members are
skipped. -/
def loadSelection (c : CoreConfig) : List (Str × Str) → Table Str Str → Table Str Str
  | [], selection => selection
  | (group, node) :: rest, selection =>
    if c.proxyGroups.any fun g => g.name = group ∧ node ∈ g.proxies then
      loadSelection c rest (selection.insert group node)
    else loadSelection c rest selection

/-- `Core::load_profile`, for what reading the file and `import_fake` return; there may be
no file. -/
def loadProfile (c : Config) (file : Except String (Option Saved))
    (importFake : List (Str × IpAddr) → Except String Unit) : Call Unit :=
  if c.profile.storeSelected = false ∧ c.profile.storeFakeIp = false then pure ()
  else do
    match ← Attempt.lift file with
    | none => pure ()
    | some saved => do
      Attempt.lift (if c.profile.storeFakeIp then importFake saved.fake else .ok ())
      if c.profile.storeSelected then
        Attempt.write fun s => s.withPolicy fun p =>
          { p with selection := loadSelection c.core saved.selection p.selection }
      else pure ()

/-! ## Failed changes -/

section

variable [ConfigText]

/-- What a policy change replaces: the mode, the rules and their texts, the snapshot and the
policy of the resolver. -/
def active (s : CoreState) : Mode × List Rule × List Str × Resources × Dns.DnsPolicy :=
  (s.policy.mode, s.policy.rules, s.policy.rawRules, s.resources, s.resolver.policy)

theorem updatePolicy_atomic (c : Config) (mode : Option Mode) (rules : Option (List Str)) :
    (updatePolicy c mode rules).Atomic active := by
  refine (keeps_read active _).bind fun raw => ?_
  refine (keeps_lift active _).bind fun _ => ?_
  refine (keeps_read active _).bind fun resources => ?_
  refine (keeps_lift active _).bind fun bound => ?_
  exact (sure_write _).atomic

omit [ConfigText] in
theorem loadResources_keeps (c : Config)
    (load : Config → Dns.Resolver → Except String Resources × Dns.Cache) :
    (loadResources c load).Keeps active := by
  refine (keeps_read active _).andThen fun outcome => ?_
  refine Keeps.andThen ?_ fun _ => keeps_lift active _
  exact keeps_write active fun s => rfl

theorem configure_atomic (c : Config) (resources : Resources) :
    (configure c resources).Atomic active := by
  refine (keeps_lift active _).bind fun policy => ?_
  exact ((sure_write _).bind fun _ => sure_write _).atomic

theorem commitResources_atomic (c : Config) (next : Resources) :
    (commitResources c next).Atomic active := by
  refine (keeps_read active _).bind fun raw => ?_
  refine (keeps_lift active _).bind fun rules => ?_
  refine (configure_atomic c next).bind fun _ => ?_
  exact (sure_write _).bind fun _ => sure_write _

theorem prepareResources_atomic (c : Config)
    (load : Config → Dns.Resolver → Except String Resources × Dns.Cache) :
    (prepareResources c load).Atomic active := by
  refine (keeps_read active _).bind fun raw => ?_
  exact (loadResources_keeps _ load).bind fun next => commitResources_atomic c next

theorem updatePolicy_ok {c : Config} {mode : Option Mode} {rules : Option (List Str)}
    {s t : CoreState} (h : (updatePolicy c mode rules).exec s = (.ok (), t)) :
    ({ c with rules := rules.getD s.policy.rawRules, mode := mode.getD c.mode } : Config).validate =
        .ok () ∧
      ∃ bound, s.resources.rules (rules.getD s.policy.rawRules) = .ok bound ∧
        t = s.withPolicy
          (installPolicy mode rules.isSome (rules.getD s.policy.rawRules) bound) := by
  obtain ⟨raw, u, hraw, h⟩ := exec_bind_eq_ok h
  cases hraw
  obtain ⟨⟨⟩, u, hcheck, h⟩ := exec_bind_eq_ok h
  obtain ⟨hvalid, rfl⟩ := exec_lift_eq_ok hcheck
  obtain ⟨resources, u, hres, h⟩ := exec_bind_eq_ok h
  cases hres
  obtain ⟨bound, u, hbind, h⟩ := exec_bind_eq_ok h
  obtain ⟨hbound, rfl⟩ := exec_lift_eq_ok hbind
  cases h
  exact ⟨hvalid, bound, hbound, rfl⟩

theorem commitResources_ok {c : Config} {next : Resources} {s t : CoreState}
    (h : (commitResources c next).exec s = (.ok (), t)) :
    ∃ rules policy, next.rules s.policy.rawRules = .ok rules ∧
      Dns.buildPolicy c.dns c.hosts next = .ok policy ∧
      t = { s with
        policy := { s.policy with rules := rules }
        resources := next
        resolver := (s.resolver.install policy).clearCache } := by
  obtain ⟨raw, u, hraw, h⟩ := exec_bind_eq_ok h
  cases hraw
  obtain ⟨rules, u, hbind, h⟩ := exec_bind_eq_ok h
  obtain ⟨hrules, rfl⟩ := exec_lift_eq_ok hbind
  obtain ⟨⟨⟩, u, hconfigure, h⟩ := exec_bind_eq_ok h
  obtain ⟨policy, v, hbuild, hconfigure⟩ := exec_bind_eq_ok hconfigure
  obtain ⟨hpolicy, rfl⟩ := exec_lift_eq_ok hbuild
  cases hconfigure
  cases h
  exact ⟨rules, policy, hrules, hpolicy, rfl⟩

/-- **Failed policy changes change nothing, and successful ones are applied as a whole.** For
every configuration, every state, every mode and rules and every outcome of loading: when
`update_policy` or `prepare_resources` returns an error, the mode, the rules, their texts,
the snapshot and the DNS policy are what they were; when an update with a mode and rules
succeeds, the state differs from the one before in that mode, those texts and the rules
that the snapshot produces for them. -/
theorem policy_change_atomic (c : Config) (s t : CoreState) :
    (∀ mode rules e, (updatePolicy c mode rules).exec s = (.error e, t) → active t = active s) ∧
    (∀ load e, (prepareResources c load).exec s = (.error e, t) → active t = active s) ∧
    ∀ mode rules, (updatePolicy c (some mode) (some rules)).exec s = (.ok (), t) →
      ∃ bound, s.resources.rules rules = .ok bound ∧
        t = { s with
          policy := { s.policy with mode := mode, rules := bound, rawRules := rules } } := by
  refine ⟨fun mode rules e h => ?_, fun load e h => ?_, fun mode rules h => ?_⟩
  · have hkeep := updatePolicy_atomic c mode rules s e
    rw [h] at hkeep
    exact hkeep rfl
  · have hkeep := prepareResources_atomic c load s e
    rw [h] at hkeep
    exact hkeep rfl
  · exact (updatePolicy_ok h).2

end

section

/-- A core with the defaults and nothing loaded. -/
def idle : CoreState := ⟨⟨.rule, [], [], ∅, ∅⟩, .empty, ⟨⟨[], [], []⟩, .empty, 0⟩⟩

/-- No text is known to the external parsers. -/
local instance : ConfigText := .none

/-- A rule without a target is refused, a refresh cannot be loaded, and a rule for everything
is applied together with the global mode. -/
theorem policy_change_atomic_idle :
    ((updatePolicy {} (some .global) (some ["MATCH"])).exec idle).2.policy.mode = .rule ∧
    active ((prepareResources {} fun _ _ => (.error "offline", .empty)).exec idle).2 = active idle ∧
    ∃ bound, idle.resources.rules ["MATCH,DIRECT"] = .ok bound ∧
      ((updatePolicy {} (some .global) (some ["MATCH,DIRECT"])).exec idle).2.policy =
        ⟨.global, bound, ["MATCH,DIRECT"], ∅, ∅⟩ := by
  refine ⟨?_, ?_, ?_⟩
  · obtain ⟨e, he⟩ : ∃ e,
        ((updatePolicy {} (some .global) (some ["MATCH"])).exec idle).1 = .error e :=
      ⟨_, rfl⟩
    have hkeep := (policy_change_atomic {} idle _).1 _ _ e (Prod.ext he rfl)
    exact congrArg Prod.fst hkeep
  · exact (policy_change_atomic {} idle _).2.1 _ "offline" (Prod.ext rfl rfl)
  · obtain ⟨bound, hbound, ht⟩ := (policy_change_atomic {} idle _).2.2 .global
      ["MATCH,DIRECT"] (Prod.ext rfl rfl)
    exact ⟨bound, hbound, congrArg CoreState.policy ht⟩

end

end Core

end ClashMeta
