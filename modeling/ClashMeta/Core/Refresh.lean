import ClashMeta.Core.State
import ClashMeta.Lib.Lts

/-!
# Updating and refreshing rules at the same time

`update_policy` and `prepare_resources` (core/src/lib.rs:385-398, 511-533) run in any number of
tasks. What one of them does under a lock is one step; between its steps the others go on.
`update_policy` binds its rules under the read lock of the snapshot, gives the lock back, and
installs them under the write lock of the policy. `prepare_resources` takes the write lock
of the snapshot, then that of the policy, and commits under both.
-/

namespace ClashMeta.Refresh

open Except

/-- Where a call is. -/
inductive Phase where
  /-- `update_policy` has been called. -/
  | called (mode : Option Mode) (rules : Option (List Str))
  /-- Its texts have passed the checks. -/
  | checked (mode : Option Mode) (updateRules : Bool) (raw : List Str)
  /-- Its rules are bound, with the snapshot of that moment. -/
  | bound (mode : Option Mode) (updateRules : Bool) (raw : List Str) (resources : Resources)
      (rules : List Rule)
  /-- `prepare_resources` has read the texts and loads a snapshot. -/
  | loading (raw : List Str)
  /-- It waits for the write lock of the snapshot. -/
  | loaded (next : Resources)
  /-- It has that lock and waits for the one of the policy. -/
  | locking (next : Resources)
  /-- It has both. -/
  | committing (next : Resources)

/-- The core, the calls in progress and the holders of the write locks. -/
structure State where
  core : CoreState
  calls : Table Nat Phase
  resourcesLock : Option Nat
  policyLock : Option Nat
  /-- A refresh has succeeded. -/
  prepared : Bool

/-- The steps of the calls, by the number of the call. -/
inductive Act where
  | update (call : Nat) (mode : Option Mode) (rules : Option (List Str))
  | check (call : Nat)
  | bind (call : Nat)
  | install (call : Nat)
  | prepare (call : Nat)
  | load (call : Nat) (load : Config → Dns.Resolver → Except String Resources × Dns.Cache)
  | lockResources (call : Nat)
  | lockPolicy (call : Nat)
  | commit (call : Nat)

namespace State

variable (s : State)

/-- The call goes on. -/
def put (i : Nat) (p : Phase) : State := { s with calls := s.calls.insert i p }

/-- The call returns. -/
def drop (i : Nat) : State := { s with calls := s.calls.erase i }

end State

section

variable [ConfigText] (c : Config) (s : State)

/-- The texts are read and checked; without rules of its own the call reads the policy. -/
def check (i : Nat) (mode : Option Mode) (rules : Option (List Str)) : Option State :=
  if rules.isSome ∨ s.policyLock = none then
    match ({ c with rules := rules.getD s.core.policy.rawRules, mode := mode.getD c.mode } :
        Config).validate with
    | .ok () =>
      some (s.put i (.checked mode rules.isSome (rules.getD s.core.policy.rawRules)))
    | .error _ => some (s.drop i)
  else none

/-- The rules are bound under the read lock of the snapshot. -/
def bindRules (i : Nat) (mode : Option Mode) (updateRules : Bool) (raw : List Str) :
    Option State :=
  if s.resourcesLock = none then
    match s.core.resources.rules raw with
    | .ok rules => some (s.put i (.bound mode updateRules raw s.core.resources rules))
    | .error _ => some (s.drop i)
  else none

/-- The bound rules and the mode are installed under the write lock of the policy. -/
def install (i : Nat) (mode : Option Mode) (updateRules : Bool) (raw : List Str)
    (rules : List Rule) : Option State :=
  if s.policyLock = none then
    some { s.drop i with
      core := s.core.withPolicy (Core.installPolicy mode updateRules raw rules) }
  else none

/-- A snapshot is loaded, or not. -/
def load (i : Nat) (raw : List Str)
    (load : Config → Dns.Resolver → Except String Resources × Dns.Cache) : State :=
  match (Core.loadResources { c with rules := raw } load).exec s.core with
  | (.ok next, core) => { s.put i (.loaded next) with core := core }
  | (.error _, core) => { s.drop i with core := core }

/-- The section under both locks. -/
def commit (i : Nat) (next : Resources) : State :=
  { s.drop i with
    core := ((Core.commitResources c next).exec s.core).2
    resourcesLock := none
    policyLock := none
    prepared := s.prepared || ((Core.commitResources c next).exec s.core).1.isOk }

/-- One step. -/
def step : Act → Option State
  | .update i mode rules =>
    if s.calls.lookup i = none then some (s.put i (.called mode rules)) else none
  | .check i =>
    match s.calls.lookup i with
    | some (.called mode rules) => check c s i mode rules
    | _ => none
  | .bind i =>
    match s.calls.lookup i with
    | some (.checked mode updateRules raw) => bindRules s i mode updateRules raw
    | _ => none
  | .install i =>
    match s.calls.lookup i with
    | some (.bound mode updateRules raw _ rules) => install s i mode updateRules raw rules
    | _ => none
  | .prepare i =>
    if s.calls.lookup i = none ∧ s.policyLock = none then
      some (s.put i (.loading s.core.policy.rawRules))
    else none
  | .load i outcome =>
    match s.calls.lookup i with
    | some (.loading raw) => some (load c s i raw outcome)
    | _ => none
  | .lockResources i =>
    match s.calls.lookup i with
    | some (.loaded next) =>
      if s.resourcesLock = none then
        some { s.put i (.locking next) with resourcesLock := some i }
      else none
    | _ => none
  | .lockPolicy i =>
    match s.calls.lookup i with
    | some (.locking next) =>
      if s.policyLock = none then
        some { s.put i (.committing next) with policyLock := some i }
      else none
    | _ => none
  | .commit i =>
    match s.calls.lookup i with
    | some (.committing next) => some (commit c s i next)
    | _ => none

end

/-- The calls on a core. -/
def system [ConfigText] (c : Config) (s₀ : CoreState) : Lts State Act where
  init := ⟨s₀, ∅, none, none, false⟩
  step := step c

/-- The condition on a step: when an update installs rules, the snapshot that it bound them
with is still the installed one. -/
def Current (s : State) : Act → Prop
  | .install i => ∀ mode raw resources rules,
    s.calls.lookup i = some (.bound mode true raw resources rules) → resources = s.core.resources
  | _ => True

/-- The rules are those that the installed snapshot produces for their texts. -/
def Corresponds [RuleText] (s : State) : Prop :=
  s.core.resources.rules s.core.policy.rawRules = .ok s.core.policy.rules

/-! ## What a step does -/

section

variable [ConfigText] {c : Config} {s t : State} {a : Act}

/-- The rules, their texts and the snapshot. -/
def ruleView (s : CoreState) : List Rule × List Str × Resources :=
  (s.policy.rules, s.policy.rawRules, s.resources)

/-- Bound rules are what their snapshot produces. -/
def Phase.Good : Phase → Prop
  | .bound _ _ raw resources rules => resources.rules raw = .ok rules
  | _ => True

/-- All calls under way are good. -/
def CallsGood (s : State) : Prop := ∀ i p, s.calls.lookup i = some p → p.Good

theorem CallsGood.put (h : CallsGood s) (i : Nat) {p : Phase} (hp : p.Good) :
    CallsGood (s.put i p) := by
  intro j q hq
  rcases Table.lookup_insert_cases hq with ⟨-, rfl⟩ | ⟨-, hq⟩
  · exact hp
  · exact h j q hq

theorem CallsGood.drop (h : CallsGood s) (i : Nat) : CallsGood (s.drop i) :=
  fun j q hq => h j q (Table.lookup_erase_some hq).2

theorem CallsGood.of_calls_eq (h : CallsGood s) (heq : t.calls = s.calls) : CallsGood t := by
  intro i p hp
  rw [heq] at hp
  exact h i p hp

/-- **What a step does to the rules**: nothing, or an update installs what it has bound, or a
refresh installs its snapshot with the rules that it produces. -/
inductive Effect (c : Config) (s : State) (a : Act) (t : State) : Prop
  | quiet (hview : ruleView t.core = ruleView s.core) (hprepared : t.prepared = s.prepared)
  | installed (i : Nat) (mode : Option Mode) (updateRules : Bool) (raw : List Str)
      (resources : Resources) (rules : List Rule) (hact : a = .install i)
      (hcall : s.calls.lookup i = some (.bound mode updateRules raw resources rules))
      (hcore : t.core = s.core.withPolicy (Core.installPolicy mode updateRules raw rules))
      (hprepared : t.prepared = s.prepared)
  | committed (next : Resources) (rules : List Rule)
      (hrules : next.rules s.core.policy.rawRules = .ok rules)
      (hview : ruleView t.core = (rules, s.core.policy.rawRules, next))

theorem commit_effect (i : Nat) (next : Resources) : Effect c s a (commit c s i next) := by
  cases hexec : (Core.commitResources c next).exec s.core with
  | mk result core =>
    cases result with
    | error e =>
      have hkeep := Core.commitResources_atomic c next s.core e
      rw [hexec] at hkeep
      have hactive := hkeep rfl
      simp only [Core.active, Prod.mk.injEq] at hactive
      refine .quiet ?_ ?_
      · show ruleView ((Core.commitResources c next).exec s.core).2 = _
        rw [hexec]
        unfold ruleView
        rw [hactive.2.1, hactive.2.2.1, hactive.2.2.2.1]
      · show (s.prepared || ((Core.commitResources c next).exec s.core).1.isOk) = _
        rw [hexec]
        exact Bool.or_false _
    | ok u =>
      obtain ⟨rules, policy, hrules, -, hcore⟩ := Core.commitResources_ok hexec
      refine .committed next rules hrules ?_
      show ruleView ((Core.commitResources c next).exec s.core).2 = _
      rw [hexec, hcore]
      rfl

theorem load_effect (i : Nat) (raw : List Str)
    (outcome : Config → Dns.Resolver → Except String Resources × Dns.Cache) :
    Effect c s a (load c s i raw outcome) := by
  have hkeep := Core.loadResources_keeps { c with rules := raw } outcome s.core
  simp only [Core.active, Prod.mk.injEq] at hkeep
  unfold load
  split
  all_goals
    rename_i core hexec
    rw [hexec] at hkeep
    refine .quiet ?_ rfl
    unfold ruleView
    rw [hkeep.2.1, hkeep.2.2.1, hkeep.2.2.2.1]

theorem CallsGood.load (h : CallsGood s) (i : Nat) (raw : List Str)
    (outcome : Config → Dns.Resolver → Except String Resources × Dns.Cache) :
    CallsGood (load c s i raw outcome) := by
  unfold Refresh.load
  split
  · exact (h.put i (p := .loaded _) trivial).of_calls_eq rfl
  · exact (h.drop i).of_calls_eq rfl

/-- **One step**: its effect on the rules, and bound rules stay what their snapshots produce. -/
theorem step_effect (h : step c s a = some t) : Effect c s a t ∧ (CallsGood s → CallsGood t) := by
  -- a call that is elsewhere, or a lock that is taken, leaves the step without a successor
  cases a with
  | update i mode rules | prepare i =>
    rw [step] at h
    split at h
    · cases h
      exact ⟨.quiet rfl rfl, fun hg => hg.put i trivial⟩
    · cases h
  | check i =>
    rw [step] at h
    split at h
    · unfold check at h
      split at h
      · split at h
        · cases h
          exact ⟨.quiet rfl rfl, fun hg => hg.put i trivial⟩
        · cases h
          exact ⟨.quiet rfl rfl, fun hg => hg.drop i⟩
      · cases h
    · cases h
  | bind i =>
    rw [step] at h
    split at h
    · unfold bindRules at h
      split at h
      · split at h
        · rename_i hrules
          cases h
          exact ⟨.quiet rfl rfl, fun hg => hg.put i hrules⟩
        · cases h
          exact ⟨.quiet rfl rfl, fun hg => hg.drop i⟩
      · cases h
    · cases h
  | install i =>
    rw [step] at h
    split at h
    · rename_i mode updateRules raw resources rules hcall
      unfold install at h
      split at h
      · cases h
        exact ⟨.installed i mode updateRules raw resources rules rfl hcall rfl rfl,
          fun hg => (hg.drop i).of_calls_eq rfl⟩
      · cases h
    · cases h
  | load i outcome =>
    rw [step] at h
    split at h
    · cases h
      exact ⟨load_effect i _ outcome, fun hg => hg.load i _ outcome⟩
    · cases h
  | lockResources i =>
    rw [step] at h
    split at h
    · split at h
      · cases h
        exact ⟨.quiet rfl rfl, fun hg => (hg.put i (p := .locking _) trivial).of_calls_eq rfl⟩
      · cases h
    · cases h
  | lockPolicy i =>
    rw [step] at h
    split at h
    · split at h
      · cases h
        exact ⟨.quiet rfl rfl, fun hg => (hg.put i (p := .committing _) trivial).of_calls_eq rfl⟩
      · cases h
    · cases h
  | commit i =>
    rw [step] at h
    split at h
    · cases h
      exact ⟨commit_effect i _, fun hg => (hg.drop i).of_calls_eq rfl⟩
    · cases h

end

/-! ## Whole runs -/

section

variable [ConfigText] {c : Config} {s t : State} {a : Act}

/-- The rules stand for their texts, in order. -/
def InOrder (s : State) : Prop :=
  List.Forall₂ Resources.StandsFor s.core.policy.rawRules s.core.policy.rules

theorem InOrder.step (hgood : CallsGood s) (h : InOrder s) (hstep : step c s a = some t) :
    InOrder t := by
  unfold InOrder at h ⊢
  cases (step_effect hstep).1 with
  | quiet hview _ =>
    simp only [ruleView, Prod.mk.injEq] at hview
    rw [hview.1, hview.2.1]
    exact h
  | installed i mode updateRules raw resources rules _ hcall hcore _ =>
    have hrules : resources.rules raw = .ok rules := hgood i _ hcall
    rw [hcore]
    cases updateRules with
    | false => cases mode <;> exact h
    | true => cases mode <;> exact Resources.standsFor_of_rules hrules
  | committed next rules hrules hview =>
    simp only [ruleView, Prod.mk.injEq] at hview
    rw [hview.1, hview.2.1]
    exact Resources.standsFor_of_rules hrules

/-- **A step that meets the condition** keeps the rules those of the snapshot. -/
theorem Corresponds.step (hgood : CallsGood s) (h : s.prepared = true → Corresponds s)
    (hcurrent : Current s a) (hstep : step c s a = some t) (hprepared : t.prepared) :
    Corresponds t := by
  unfold Corresponds at h ⊢
  cases (step_effect hstep).1 with
  | quiet hview hsame =>
    simp only [ruleView, Prod.mk.injEq] at hview
    rw [hview.1, hview.2.1, hview.2.2]
    exact h (hsame ▸ hprepared)
  | installed i mode updateRules raw resources rules hact hcall hcore hsame =>
    have hrules : resources.rules raw = .ok rules := hgood i _ hcall
    rw [hcore]
    cases updateRules with
    | false => cases mode <;> exact h (hsame ▸ hprepared)
    | true =>
      -- the condition: bound with the snapshot that is installed
      subst hact
      rw [hcurrent mode raw resources rules hcall] at hrules
      cases mode <;> exact hrules
  | committed next rules hrules hview =>
    simp only [ruleView, Prod.mk.injEq] at hview
    rw [hview.1, hview.2.1, hview.2.2]
    exact hrules

theorem new_inOrder {s₀ : CoreState} (h : Core.new c = .ok s₀) : InOrder (system c s₀).init := by
  obtain ⟨⟨⟩, -, h⟩ := bind_eq_ok_iff.mp h
  obtain ⟨selection, -, h⟩ := bind_eq_ok_iff.mp h
  obtain ⟨rules, hrules, h⟩ := bind_eq_ok_iff.mp h
  cases h
  refine (mapM_eq_ok_iff.mp (mapError_eq_ok_iff.mp hrules)).imp fun raw r hr => ?_
  exact ⟨r, hr, rfl, rfl⟩

/-- **Active rules correspond to the active snapshot when updates are current.** For every core
and any number of calls of `update_policy` and `prepare_resources` in any interleaving: if at
every installation of rules the snapshot they were bound with is still the installed one,
then from the first successful refresh on the rules are what the installed snapshot
produces for their texts. In every interleaving the rules stand for their texts, as many and
in the same order. -/
theorem active_rules_correspond {s₀ : CoreState} (h : Core.new c = .ok s₀) :
    (∀ s, (system c s₀).Reaches Current (system c s₀).init s → s.prepared = true →
      Corresponds s) ∧
    ∀ s, (system c s₀).Reaches Lts.anyStep (system c s₀).init s → InOrder s := by
  have hcalls : CallsGood (system c s₀).init := nofun
  constructor
  · intro s hs
    have hinv : CallsGood s ∧ (s.prepared = true → Corresponds s) := by
      refine hs.invariant (I := fun s => CallsGood s ∧ (s.prepared = true → Corresponds s))
        ⟨hcalls, nofun⟩ fun hinv hcurrent hstep => ?_
      exact ⟨(step_effect hstep).2 hinv.1, Corresponds.step hinv.1 hinv.2 hcurrent hstep⟩
    exact hinv.2
  · intro s hs
    have hinv : CallsGood s ∧ InOrder s := by
      refine hs.invariant (I := fun s => CallsGood s ∧ InOrder s) ⟨hcalls, new_inOrder h⟩
        fun hinv _ hstep => ?_
      exact ⟨(step_effect hstep).2 hinv.1, InOrder.step hinv.1 hinv.2 hstep⟩
    exact hinv.2

end

/-! ## An update across a refresh -/

/-- One rule set, from a file, and one rule for it. -/
def oneSet : Config :=
  { ruleProviders := [("ads", { kind := "file", path := "ads.yaml" })]
    rules := ["RULE-SET,ads,DIRECT"]
    dns := { fakeIpFilter := [] } }

/-- A snapshot with that matcher for the rule set. -/
def snapshot (m : Matcher) : Resources :=
  ⟨(∅ : Table (RefKind × Str) Matcher).insert (.ruleSet, "ads") m⟩

/-- A refresh from beginning to end. -/
def refresh (i : Nat) (m : Matcher) : List Act :=
  [.prepare i, .load i fun _ _ => (.ok (snapshot m), .empty), .lockResources i, .lockPolicy i,
    .commit i]

/-- The matcher of the file while it has one line, `ads.test`. -/
def oneLine : Matcher := .or [.domain "ads.test"]

/-- A refresh, and an update behind it that has bound its rules. -/
def boundUpdate : List Act :=
  refresh 0 oneLine ++ [.update 1 none (some ["RULE-SET,ads,DIRECT"]), .check 1, .bind 1]

/-- The update installs its rules under the snapshot with which it bound them. -/
theorem active_rules_correspond_refresh :
    ∃ s₀ s, @Core.new .none oneSet = .ok s₀ ∧
      (@system .none oneSet s₀).Reaches Current (@system .none oneSet s₀).init s ∧
      s.prepared = true ∧ s.core.policy.rules = [⟨oneLine, "DIRECT", false⟩] ∧
      @Corresponds ConfigText.none.toRuleText s ∧ @InOrder .none s := by
  have hquiet : ∀ a ∈ boundUpdate, ∀ u, Current u a := by simp [boundUpdate, refresh, Current]
  have hrun : ∀ {s₀}, @Core.new .none oneSet = .ok s₀ →
      ∃ s, (@system .none oneSet s₀).Reaches Current (@system .none oneSet s₀).init s ∧
        (@system .none oneSet s₀).Reaches Lts.anyStep (@system .none oneSet s₀).init s ∧
        s.prepared = true ∧ s.core.policy.rules = [⟨oneLine, "DIRECT", false⟩] := by
    rintro _ ⟨⟩
    exact ⟨_, (Lts.run_reaches_of_forall boundUpdate hquiet rfl).tail
      ⟨.install 1, fun _ _ _ _ hcall => by cases hcall; rfl, rfl⟩,
      Lts.run_reaches (boundUpdate ++ [.install 1]) rfl, rfl, rfl⟩
  obtain ⟨s, hs, hany, hprepared, hrules⟩ := hrun rfl
  exact ⟨_, s, rfl, hs, hprepared, hrules,
    (@active_rules_correspond .none _ _ rfl).1 s hs hprepared,
    (@active_rules_correspond .none _ _ rfl).2 s hany⟩

/-- The file is emptied and refreshed before the update installs: the rule stays bound to the
matcher of the first refresh. -/
theorem update_across_refresh_is_stale :
    ∃ s₀ s, @Core.new .none oneSet = .ok s₀ ∧
      (@system .none oneSet s₀).Reaches Lts.anyStep (@system .none oneSet s₀).init s ∧
      s.prepared = true ∧ s.resourcesLock = none ∧ s.policyLock = none ∧
      s.core.policy.rules = [⟨oneLine, "DIRECT", false⟩] ∧
      @Resources.rules s.core.resources ConfigText.none.toRuleText s.core.policy.rawRules =
        .ok [⟨.or [], "DIRECT", false⟩] :=
  ⟨_, _, rfl, Lts.run_reaches (boundUpdate ++ refresh 2 (.or []) ++ [.install 1]) rfl, rfl, rfl,
    rfl, rfl, rfl⟩

end ClashMeta.Refresh
