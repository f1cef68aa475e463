import ClashMeta.Core.State
import ClashMeta.Config.RetainVless
import ClashMeta.Lib.Lts

/-!
# Groups resolve to outbounds

`Core::leaf` follows selections for at most one round more than there are groups
(core/src/lib.rs:465-485). The walk of `Config::validate` refuses member cycles, and every
writer of the selection map (`Core::new`, `select`, the url-test tasks, `load_profile`)
puts a member of the group there.
-/

namespace ClashMeta

open List Attempt

/-! ## Selections -/

section

variable {groups : List Group} {selection : Table Str Str}

/-- Every group has one of its members selected, and only groups have a selection. -/
structure Chosen (groups : List Group) (selection : Table Str Str) : Prop where
  member : ∀ name g, findGroup groups name = some g →
    ∃ m ∈ g.proxies, selection.lookup name = some m
  only : ∀ name, findGroup groups name = none → selection.lookup name = none

variable {name : Str}

theorem Chosen.insert (h : Chosen groups selection) {m : Str} {g : Group}
    (hg : findGroup groups name = some g) (hm : m ∈ g.proxies) :
    Chosen groups (selection.insert name m) where
  member := by
    intro other g' hg'
    rw [Table.lookup_insert_if]
    by_cases heq : other = name
    · rw [if_pos heq]
      rw [heq, hg] at hg'
      cases hg'
      exact ⟨m, hm, rfl⟩
    · rw [if_neg heq]
      exact h.member other g' hg'
  only := by
    intro other hnone
    rw [Table.lookup_insert_if]
    by_cases heq : other = name
    · rw [heq, hg] at hnone
      cases hnone
    · rw [if_neg heq]
      exact h.only other hnone

theorem Chosen.loadSelection {c : CoreConfig} (hnodup : (c.proxyGroups.map Group.name).Nodup)
    (saved : List (Str × Str)) (h : Chosen c.proxyGroups selection) :
    Chosen c.proxyGroups (Core.loadSelection c saved selection) := by
  induction saved generalizing selection with
  | nil => exact h
  | cons entry saved ih =>
    obtain ⟨group, node⟩ := entry
    rw [Core.loadSelection]
    split
    · rename_i hany
      obtain ⟨g, hg, htest⟩ := any_eq_true.mp hany
      obtain ⟨rfl, hnode⟩ := of_decide_eq_true htest
      exact ih (h.insert (findGroup_of_mem hnodup hg) hnode)
    · exact ih h

theorem firstMembers_lookup {gs : List Group} (selection : Table Str Str)
    (hgs : ∀ g ∈ gs, g.proxies ≠ []) (hnodup : (gs.map Group.name).Nodup) :
    ∃ selected, Core.firstMembers gs selection = .ok selected ∧
      (∀ g ∈ gs, selected.lookup g.name = g.proxies.head?) ∧
      ∀ name ∉ gs.map Group.name, selected.lookup name = selection.lookup name := by
  induction gs generalizing selection with
  | nil => exact ⟨selection, rfl, nofun, fun _ _ => rfl⟩
  | cons g gs ih =>
    rw [forall_mem_cons] at hgs
    rw [map_cons, nodup_cons] at hnodup
    obtain ⟨m, rest, hm⟩ := exists_cons_of_ne_nil hgs.1
    obtain ⟨selected, hok, hin, hout⟩ := ih (selection.insert g.name m) hgs.2 hnodup.2
    refine ⟨selected, ?_, ?_, ?_⟩
    · rw [Core.firstMembers, hm]
      exact hok
    · intro g' hg'
      rcases mem_cons.mp hg' with rfl | hg'
      · -- no later group has the name
        rw [hout _ hnodup.1, Table.lookup_insert_if, if_pos rfl, hm]
        rfl
      · exact hin g' hg'
    · intro name hname
      rw [map_cons, mem_cons, not_or] at hname
      rw [hout name hname.2, Table.lookup_insert_if, if_neg hname.1]

/-- **Following selections ends where the walk succeeds**: within the depth of the walk, at a
known name other than `GLOBAL` that is no group. -/
theorem leafLoop_of_visit {names : List Str} (h : Chosen groups selection) {fuel : Nat}
    {path : List Str} (hvisit : visit groups names fuel path name = .ok ()) :
    ∃ leaf, leafLoop selection fuel name = .ok leaf ∧ leaf ∈ names ∧ leaf ≠ "GLOBAL" ∧
      findGroup groups leaf = none := by
  -- one round of the loop for one level of the walk
  induction fuel generalizing path name with
  | zero => cases hvisit
  | succ fuel ih =>
    obtain ⟨hknown, hglobal, hmembers⟩ := visit_succ_eq_ok_iff.mp hvisit
    rw [leafLoop]
    cases hfind : findGroup groups name with
    | none =>
      rw [h.only name hfind]
      exact ⟨name, rfl, hknown, hglobal, hfind⟩
    | some g =>
      obtain ⟨m, hm, hsel⟩ := h.member name g hfind
      rw [hsel]
      exact ih ((hmembers g hfind).2 m hm)

end

/-! ## Calls -/

/-- The end of the round (`settle`) of the url-test group at that position. -/
def settleGroup (c : CoreConfig) (index : Nat) (outcomes : Outcomes) : Call Unit :=
  match c.proxyGroups[index]? with
  | none => pure ()
  | some g =>
    if g.kind = .urlTest then
      Attempt.write fun s => s.withPolicy
        (settle g · (probeLoop outcomes 0 g.proxies s.policy.delay none).2)
    else pure ()

variable {outcomes : Outcomes}

theorem mem_of_mem_answersFrom {i : Nat} {names : List Str} {x : Str × UInt64}
    (h : x ∈ answersFrom outcomes i names) : x.1 ∈ names := by
  induction names generalizing i with
  | nil => cases h
  | cons name rest ih =>
    rw [answersFrom] at h
    split at h
    · exact mem_cons_of_mem _ (ih h)
    · rcases mem_cons.mp h with rfl | h
      · exact mem_cons_self
      · exact mem_cons_of_mem _ (ih h)

theorem best_mem {g : Group} {delay : Table Str UInt64} {target : Str} {d : UInt64}
    (h : (probeLoop outcomes 0 g.proxies delay none).2 = some (target, d)) :
    target ∈ g.proxies := by
  obtain ⟨hbest, -⟩ := probeLoop_spec outcomes delay g.proxies 0 delay none [] rfl
    fun name => .inr ⟨nofun, rfl⟩
  rw [h] at hbest
  exact mem_of_mem_answersFrom hbest.1

/-- What callers and tasks do to the core. The probes of a url-test round come one by one,
with other calls between them, and the round ends with its own step. -/
inductive Request where
  | select (group name : Str) (saved : Except String Unit)
  | setMode (mode : Mode)
  | updatePolicy (mode : Option Mode) (rules : Option (List Str))
  | prepareResources (load : Config → Dns.Resolver → Except String Resources × Dns.Cache)
  | loadProfile (file : Except String (Option Saved))
      (importFake : List (Str × IpAddr) → Except String Unit)
  /-- A probe has answered (lib.rs:990-995). -/
  | probed (name : Str) (delay : UInt64)
  /-- The round of the url-test group at that position ends. -/
  | settled (index : Nat) (outcomes : Outcomes)

namespace Request

variable [ConfigText] (c : Config)

/-- The call of a request. -/
def call : Request → Call Unit
  | select group name saved => Core.select c.core group name saved
  | setMode mode => Core.setMode mode
  | updatePolicy mode rules => Core.updatePolicy c mode rules
  | prepareResources load => Core.prepareResources c load
  | loadProfile file importFake => Core.loadProfile c file importFake
  | probed name delay =>
    Attempt.write fun s => s.withPolicy fun p => { p with delay := p.delay.insert name delay }
  | settled index outcomes => settleGroup c.core index outcomes

end Request

/-- A core that serves requests, whether they succeed or not. -/
def serving [ConfigText] (c : Config) (s₀ : CoreState) : Lts CoreState Request where
  init := s₀
  step s request := some ((request.call c).exec s).2

/-! ## What every call keeps -/

section

variable [ConfigText] {c : Config}

/-- The selections are chosen, the targets of the rules are known, and the texts of the rules
pass their checks. -/
structure Resolvable (c : Config) (s : CoreState) : Prop where
  chosen : Chosen c.core.proxyGroups s.policy.selection
  targets : ∀ r ∈ s.policy.rules, r.target ∈ c.names
  raw : ∀ raw ∈ s.policy.rawRules, GoodRule (c.ruleProviders.map Prod.fst) c.names raw

variable {raw : List Str}

theorem target_mem_of_rules {resources : Resources} {rules : List Rule}
    (h : resources.rules raw = .ok rules)
    (hraw : ∀ line ∈ raw, GoodRule (c.ruleProviders.map Prod.fst) c.names line) :
    ∀ r ∈ rules, r.target ∈ c.names := by
  intro r hr
  obtain ⟨line, hline, r₀, hr₀, htarget, -⟩ :=
    exists_of_forall₂_right (Resources.standsFor_of_rules h) hr
  obtain ⟨r₁, hr₁, hknown, -⟩ := hraw line hline
  cases hr₀.symm.trans hr₁
  rwa [htarget]

variable {s : CoreState}

theorem Resolvable.of_policy_eq {t : CoreState} (h : Resolvable c s) (heq : t.policy = s.policy) :
    Resolvable c t := by
  obtain ⟨hchosen, htargets, hraw⟩ := h
  rw [← heq] at hchosen htargets hraw
  exact ⟨hchosen, htargets, hraw⟩

theorem goodRule_of_validate {mode : Mode}
    (h : ({ c with rules := raw, mode := mode } : Config).validate = .ok ()) :
    ∀ line ∈ raw, GoodRule (c.ruleProviders.map Prod.fst) c.names line :=
  (Config.validate_eq_ok_iff.mp h).rules

theorem Resolvable.installPolicy (h : Resolvable c s) (mode : Option Mode) (updateRules : Bool)
    {bound : List Rule} (hbound : ∀ r ∈ bound, r.target ∈ c.names)
    (hgood : ∀ line ∈ raw, GoodRule (c.ruleProviders.map Prod.fst) c.names line) :
    Resolvable c (s.withPolicy (Core.installPolicy mode updateRules raw bound)) := by
  cases updateRules with
  | false => cases mode <;> exact ⟨h.chosen, h.targets, h.raw⟩
  | true => cases mode <;> exact ⟨h.chosen, hbound, hgood⟩

theorem updatePolicy_preserves (mode : Option Mode) (rules : Option (List Str)) :
    (Core.updatePolicy c mode rules).Preserves (Resolvable c) fun _ => True := by
  refine (Preserves.read (Q := fun _ => True) fun _ _ => trivial).bind fun raw _ => ?_
  refine (Preserves.lift fun _ hvalid => hvalid).bind fun _ hvalid => ?_
  refine (Preserves.read (Q := fun _ => True) fun _ _ => trivial).bind fun resources _ => ?_
  refine (Preserves.lift fun _ hbound => hbound).bind fun bound hbound => ?_
  have hgood := goodRule_of_validate hvalid
  refine Preserves.write fun s hs => ?_
  exact hs.installPolicy mode rules.isSome (target_mem_of_rules hbound hgood) hgood

theorem configure_preserves (resources : Resources) :
    (Core.configure c resources).Preserves (Resolvable c) fun _ => True := by
  refine (Preserves.lift fun _ _ => trivial).bind fun policy _ => ?_
  refine (Preserves.write fun s hs => hs.of_policy_eq rfl).bind fun _ _ => ?_
  exact Preserves.write fun s hs => hs.of_policy_eq rfl

theorem loadResources_preserves (cfg : Config)
    (load : Config → Dns.Resolver → Except String Resources × Dns.Cache) :
    (Core.loadResources cfg load).Preserves (Resolvable c) fun _ => True := by
  refine (Preserves.read (Q := fun _ => True) fun _ _ => trivial).bind fun outcome _ => ?_
  refine (Preserves.write fun s hs => hs.of_policy_eq rfl).bind fun _ _ => ?_
  exact Preserves.lift fun _ _ => trivial

theorem commitResources_preserves (next : Resources) :
    (Core.commitResources c next).Preserves (Resolvable c) fun _ => True := by
  -- the texts that are bound are the ones of the policy, and those have been checked
  refine (Preserves.read (Q := fun raw => ∀ line ∈ raw,
    GoodRule (c.ruleProviders.map Prod.fst) c.names line) fun s hs => hs.raw).bind
      fun raw hraw => ?_
  refine (Preserves.lift fun _ hbound => hbound).bind fun rules hbound => ?_
  refine (configure_preserves next).bind fun _ _ => ?_
  refine (Preserves.write fun s hs => ?_).bind fun _ _ => ?_
  · exact ⟨hs.chosen, target_mem_of_rules hbound hraw, hs.raw⟩
  · exact Preserves.write fun s hs => hs.of_policy_eq rfl

theorem prepareResources_preserves
    (load : Config → Dns.Resolver → Except String Resources × Dns.Cache) :
    (Core.prepareResources c load).Preserves (Resolvable c) fun _ => True := by
  refine (Preserves.read (Q := fun _ => True) fun _ _ => trivial).bind fun raw _ => ?_
  exact (loadResources_preserves _ load).bind fun next _ => commitResources_preserves next

variable {name : Str}

theorem Resolvable.insert (h : Resolvable c s) {m : Str} {g : Group}
    (hg : findGroup c.core.proxyGroups name = some g) (hm : m ∈ g.proxies) :
    Resolvable c (s.withPolicy fun p => { p with selection := p.selection.insert name m }) :=
  ⟨h.chosen.insert hg hm, h.targets, h.raw⟩

theorem select_preserves (group name : Str) (saved : Except String Unit) :
    (Core.select c.core group name saved).Preserves (Resolvable c) fun _ => True := by
  unfold Core.select
  cases hfind : findGroup c.core.proxyGroups group with
  | none =>
    rw [show (c.core.proxyGroups.find? fun g => g.name = group) = none from hfind]
    exact Preserves.lift fun _ _ => trivial
  | some g =>
    rw [show (c.core.proxyGroups.find? fun g => g.name = group) = some g from hfind]
    refine (Preserves.lift fun _ hm => ensure_eq_ok_iff.mp hm).bind fun _ hm => ?_
    refine (Preserves.write fun s hs => hs.insert hfind hm).bind fun _ _ => ?_
    exact Preserves.lift fun _ _ => trivial

section

variable (hvalid : c.Valid)
include hvalid

theorem loadProfile_preserves (file : Except String (Option Saved))
    (importFake : List (Str × IpAddr) → Except String Unit) :
    (Core.loadProfile c file importFake).Preserves (Resolvable c) fun _ => True := by
  unfold Core.loadProfile
  split
  · exact Preserves.pure trivial
  · refine (Preserves.lift fun _ _ => trivial).bind fun saved _ => ?_
    cases saved with
    | none => exact Preserves.pure trivial
    | some saved =>
      refine (Preserves.lift fun _ _ => trivial).bind fun _ _ => ?_
      split
      · refine Preserves.write fun s hs => ?_
        exact ⟨hs.chosen.loadSelection hvalid.nodup_groups saved.selection, hs.targets, hs.raw⟩
      · exact Preserves.pure trivial

theorem settleGroup_preserves (index : Nat) (outcomes : Outcomes) :
    (settleGroup c.core index outcomes).Preserves (Resolvable c) fun _ => True := by
  unfold settleGroup
  cases hg : c.core.proxyGroups[index]? with
  | none => exact Preserves.pure trivial
  | some g =>
    have hfind := findGroup_of_mem hvalid.nodup_groups (mem_of_getElem? hg)
    dsimp only
    split
    · refine Preserves.write fun s hs => ?_
      cases hbest : (probeLoop outcomes 0 g.proxies s.policy.delay none).2 with
      | none => exact hs
      | some best =>
        unfold settle CoreState.withPolicy
        dsimp only
        split
        · exact hs.insert hfind (best_mem hbest)
        · exact hs
    · exact Preserves.pure trivial

/-- **Every request keeps the invariant.** -/
theorem Request.preserves (request : Request) :
    (request.call c).Preserves (Resolvable c) fun _ => True := by
  cases request with
  | select group name saved => exact select_preserves group name saved
  | setMode mode | probed name delay =>
    exact Preserves.write fun s hs => ⟨hs.chosen, hs.targets, hs.raw⟩
  | updatePolicy mode rules => exact updatePolicy_preserves mode rules
  | prepareResources load => exact prepareResources_preserves load
  | loadProfile file importFake => exact loadProfile_preserves hvalid file importFake
  | settled index outcomes => exact settleGroup_preserves hvalid index outcomes

/-- A new core of a valid configuration: it exists, with the first member of every group
selected, the rules of the texts and the invariant. -/
theorem Core.new_eq_ok :
    ∃ s₀, Core.new c = .ok s₀ ∧
      (∀ g ∈ c.core.proxyGroups, s₀.policy.selection.lookup g.name = g.proxies.head?) ∧
      c.rules.mapM Rule.parse = .ok s₀.policy.rules ∧ Resolvable c s₀ := by
  obtain ⟨selected, hselected, hfirst, hother⟩ := firstMembers_lookup ∅
    (fun g hg => hvalid.members_ne_nil hg) hvalid.nodup_groups
  obtain ⟨rules, hrules, htargets⟩ := exists_mapM_eq_ok_iff (f := Rule.parse)
    |>.mpr fun line hline => by
      obtain ⟨r, hr, hknown, -⟩ := hvalid.rules line hline
      exact ⟨r, hr, hknown⟩
  refine ⟨⟨⟨c.mode, rules, c.rules, selected, ∅⟩, .empty, ⟨⟨c.hosts, [], []⟩, .empty, 0⟩⟩,
    ?_, hfirst, hrules, ?_, ?_, hvalid.rules⟩
  · unfold Core.new
    rw [Config.validate_eq_ok_iff.mpr hvalid]
    rw [hselected]
    rw [hrules]
    rfl
  · constructor
    · intro name g hg
      obtain ⟨hmem, rfl⟩ := findGroup_some hg
      obtain ⟨m, rest, hm⟩ := exists_cons_of_ne_nil (hvalid.members_ne_nil hmem)
      refine ⟨m, by rw [hm]; exact mem_cons_self, ?_⟩
      rw [hfirst g hmem, hm]
      rfl
    · intro name hnone
      rw [hother name (findGroup_eq_none_iff.mp hnone)]
      rfl
  · intro r hr
    obtain ⟨line, -, hknown⟩ := exists_of_forall₂_right htargets hr
    exact hknown

theorem Resolvable.leaf (h : Resolvable c s) (hname : name ∈ c.names) :
    ∃ node, ClashMeta.leaf c.core s.policy name = .ok node ∧
      (node = "DIRECT" ∨ node = "REJECT" ∨ node ∈ c.core.proxies) := by
  -- `GLOBAL` is replaced before the first round
  have hstart : ∃ start, start ∈ c.names ∧ start ≠ "GLOBAL" ∧
      (if name = "GLOBAL" then globalName c.core else name) = start := by
    by_cases hglobal : name = "GLOBAL"
    · exact ⟨_, hvalid.globalName_mem.1, hvalid.globalName_mem.2, if_pos hglobal⟩
    · exact ⟨name, hname, hglobal, if_neg hglobal⟩
  obtain ⟨start, hknown, hne, heq⟩ := hstart
  obtain ⟨node, hleaf, hnode, hglobal, hnone⟩ :=
    leafLoop_of_visit h.chosen (hvalid.visit_name hknown hne)
  refine ⟨node, ?_, ?_⟩
  · unfold ClashMeta.leaf
    rw [heq, hleaf]
  · rcases Config.mem_names_iff.mp hnode with hgroup | hproxy | hres
    · exact absurd hgroup (findGroup_eq_none_iff.mp hnone)
    · exact .inr (.inr hproxy)
    · simp only [Config.reservedNames, mem_cons, not_mem_nil, or_false] at hres
      rcases hres with rfl | rfl | rfl
      · exact .inl rfl
      · exact .inr (.inl rfl)
      · exact absurd rfl hglobal

end

/-- **Groups always resolve to a real outbound.** For every configuration that validation
accepts, a core can be made, and in every state that it reaches through any sequence of
selections, mode changes, policy updates, refreshes, profile loads, probes and url-test
rounds: every group has one of its members selected, and `leaf` of `GLOBAL`, of every rule
target and of every group member returns `DIRECT`, `REJECT` or a configured proxy. -/
theorem group_resolution_ends (hvalid : c.validate = .ok ()) :
    ∃ s₀, Core.new c = .ok s₀ ∧ ∀ s, (serving c s₀).Reaches Lts.anyStep s₀ s →
      (∀ g ∈ c.core.proxyGroups, ∃ m ∈ g.proxies, s.policy.selection.lookup g.name = some m) ∧
      ∀ name, name = "GLOBAL".toList ∨ (∃ r ∈ s.policy.rules, r.target = name) ∨
          (∃ g ∈ c.core.proxyGroups, name ∈ g.proxies) →
        ∃ node, leaf c.core s.policy name = .ok node ∧
          (node = "DIRECT".toList ∨ node = "REJECT".toList ∨ node ∈ c.proxies.map Proxy.name) := by
  have hv := Config.validate_eq_ok_iff.mp hvalid
  obtain ⟨s₀, hnew, -, -, hinit⟩ := Core.new_eq_ok hv
  refine ⟨s₀, hnew, fun s hs => ?_⟩
  have hinv : Resolvable c s := by
    refine hs.invariant hinit fun {s t request} hs _ hstep => ?_
    cases hstep
    exact (request.preserves hv s hs).1
  refine ⟨fun g hg => ?_, fun name hname => ?_⟩
  · exact hinv.chosen.member g.name g (findGroup_of_mem hv.nodup_groups hg)
  · refine hinv.leaf hv ?_
    rcases hname with rfl | ⟨r, hr, rfl⟩ | ⟨g, hg, hm⟩
    · exact Config.mem_names_iff.mpr (.inr (.inr (by decide)))
    · exact hinv.targets r hr
    · exact (hv.member_mem hg hm).1

end

/-- A group inside a group. -/
def nestedGroups : Config :=
  { proxies := [Config.hy2 "hy2"]
    proxyGroups := [
      { name := "outer", kind := .select, proxies := ["inner", "DIRECT"] },
      { name := "inner", kind := .urlTest, proxies := ["hy2", "REJECT"] }]
    rules := ["MATCH,outer"] }

/-- The global target of a core that has just been made goes through both groups. -/
theorem group_resolution_ends_nested :
    ∃ s₀, @Core.new .none nestedGroups = .ok s₀ ∧ ∃ node,
      leaf nestedGroups.core s₀.policy "GLOBAL".toList = .ok node ∧
        (node = "DIRECT".toList ∨ node = "REJECT".toList ∨
          node ∈ nestedGroups.proxies.map Proxy.name) := by
  obtain ⟨s₀, hnew, h⟩ := @group_resolution_ends .none nestedGroups rfl
  exact ⟨s₀, hnew, (h s₀ .refl).2 _ (.inl rfl)⟩

end ClashMeta
