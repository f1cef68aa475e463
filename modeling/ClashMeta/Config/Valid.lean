import Mathlib.Order.Lattice.Nat
import ClashMeta.Config.Validate

/-!
# What a valid configuration is

`Config.Valid` says what `Config::validate` accepts, part by part and without the order of
the checks: `Config.validate_eq_ok_iff`. The parts that another configuration shares carry
over from one to the other.

For the walk over the groups, `visit_succ_eq_ok_iff` says what a successful visit is, and
`group_walks_exact` that it finds exactly the cycles.
-/

namespace ClashMeta

open List Except

/-! ## Proxies and groups -/

/-- A name is added when it is neither empty nor taken. -/
theorem addName_eq_ok_iff {names names' : List Str} {name : Str} {message : String} :
    addName names name message = .ok names' ↔
      (name ≠ [] ∧ name ∉ names) ∧ name :: names = names' := by
  unfold addName
  rw [ensure_bind_eq_ok_iff, pure_eq_ok_iff]

/-- The names are not empty, all different, and new. -/
def Fresh (names new : List Str) : Prop :=
  new.Nodup ∧ ∀ name ∈ new, name ≠ [] ∧ name ∉ names

theorem fresh_cons_iff {names new : List Str} {name : Str} :
    Fresh names (name :: new) ↔ (name ≠ [] ∧ name ∉ names) ∧ Fresh (name :: names) new := by
  unfold Fresh
  rw [nodup_cons, forall_mem_cons]
  constructor
  · rintro ⟨⟨hnot, hnodup⟩, hname, hnew⟩
    refine ⟨hname, hnodup, fun other hother => ⟨(hnew other hother).1, ?_⟩⟩
    intro hmem
    rcases mem_cons.mp hmem with rfl | hmem
    · exact hnot hother
    · exact (hnew other hother).2 hmem
  · rintro ⟨hname, hnodup, hnew⟩
    refine ⟨⟨fun hmem => (hnew name hmem).2 mem_cons_self, hnodup⟩, hname, ?_⟩
    intro other hother
    exact ⟨(hnew other hother).1, fun hmem => (hnew other hother).2 (mem_cons_of_mem _ hmem)⟩

section

variable [ConfigText] {allowNative : Bool}

theorem validateProxy_index (i j : Nat) (p : Proxy) :
    validateProxy allowNative i p = .ok () ↔ validateProxy allowNative j p = .ok () := by
  unfold validateProxy
  simp only [ensure_bind_eq_ok_iff]
  refine and_congr_right fun _ => and_congr_right fun _ => ?_
  cases p.kind with
  | vless =>
    unfold validateVless
    simp only [ensure_bind_eq_ok_iff]
  | hysteria2 | trojan => rfl

/-- The loop over the proxies. -/
theorem validateProxies_eq_ok_iff {index : Nat} {names names' : List Str} {ps : List Proxy} :
    validateProxies allowNative index names ps = .ok names' ↔
      names' = (ps.map Proxy.name).reverse ++ names ∧ Fresh names (ps.map Proxy.name) ∧
        ∀ p ∈ ps, validateProxy allowNative 0 p = .ok () := by
  induction ps generalizing index names with
  | nil =>
    rw [validateProxies]
    simp [Fresh, eq_comm]
  | cons p ps ih =>
    rw [validateProxies, bind_eq_ok_iff, map_cons, fresh_cons_iff, forall_mem_cons]
    constructor
    · rintro ⟨seen, hname, h⟩
      obtain ⟨hp, rfl⟩ := addName_eq_ok_iff.mp hname
      obtain ⟨⟨⟩, hcheck, h⟩ := bind_eq_ok_iff.mp h
      obtain ⟨rfl, hfresh, hps⟩ := ih.mp h
      exact ⟨by simp, ⟨hp, hfresh⟩, (validateProxy_index _ 0 p).mp hcheck, hps⟩
    · rintro ⟨rfl, ⟨hp, hfresh⟩, hcheck, hps⟩
      exact ⟨p.name :: names, addName_eq_ok_iff.mpr ⟨hp, rfl⟩,
        bind_eq_ok_iff.mpr ⟨(), (validateProxy_index _ 0 p).mpr hcheck,
          ih.mpr ⟨by simp, hfresh, hps⟩⟩⟩

end

/-- The loop over the groups. -/
theorem validateGroups_eq_ok_iff {names names' : List Str} {gs : List GroupEntry} :
    validateGroups names gs = .ok names' ↔
      names' = (gs.map fun g => g.name).reverse ++ names ∧
        Fresh names (gs.map fun g => g.name) ∧ ∀ g ∈ gs, g.proxies ≠ [] ∧ 0 < g.interval := by
  induction gs generalizing names with
  | nil =>
    rw [validateGroups]
    simp [Fresh, eq_comm]
  | cons g gs ih =>
    rw [validateGroups, bind_eq_ok_iff, map_cons, fresh_cons_iff, forall_mem_cons]
    constructor
    · rintro ⟨seen, hname, h⟩
      obtain ⟨hg, rfl⟩ := addName_eq_ok_iff.mp hname
      obtain ⟨hmembers, h⟩ := ensure_bind_eq_ok_iff.mp h
      obtain ⟨hinterval, h⟩ := ensure_bind_eq_ok_iff.mp h
      obtain ⟨rfl, hfresh, hgs⟩ := ih.mp h
      exact ⟨by simp, ⟨hg, hfresh⟩, ⟨hmembers, hinterval⟩, hgs⟩
    · rintro ⟨rfl, ⟨hg, hfresh⟩, ⟨hmembers, hinterval⟩, hgs⟩
      exact ⟨g.name :: names, addName_eq_ok_iff.mpr ⟨hg, rfl⟩,
        ensure_bind_eq_ok_iff.mpr ⟨hmembers, ensure_bind_eq_ok_iff.mpr ⟨hinterval,
          ih.mpr ⟨by simp, hfresh, hgs⟩⟩⟩⟩

/-! ## The walk over the groups -/

section

variable {groups : List Group} {names : List Str}

/-- The group of that name. -/
def findGroup (groups : List Group) (name : Str) : Option Group :=
  groups.find? fun g => g.name = name

variable {g : Group} {name : Str}

theorem findGroup_some (h : findGroup groups name = some g) : g ∈ groups ∧ g.name = name := by
  refine ⟨mem_of_find?_eq_some h, ?_⟩
  have htest := find?_some h
  exact of_decide_eq_true htest

/-- Names of no group are not found. -/
theorem findGroup_eq_none_iff : findGroup groups name = none ↔ name ∉ groups.map Group.name := by
  unfold findGroup
  simp

/-- A group is found under its name. -/
theorem findGroup_of_mem (hnodup : (groups.map Group.name).Nodup) (hg : g ∈ groups) :
    findGroup groups g.name = some g := by
  cases hfind : findGroup groups g.name with
  | none => exact absurd (mem_map_of_mem hg) (findGroup_eq_none_iff.mp hfind)
  | some g' =>
    obtain ⟨hg', hname⟩ := findGroup_some hfind
    rw [inj_on_of_nodup_map hnodup hg' hg hname]

variable {path : List Str} {fuel : Nat}

/-- **A successful visit**: the name is known and not `GLOBAL`; a group is not on the path,
and its members are visited behind it. -/
theorem visit_succ_eq_ok_iff :
    visit groups names (fuel + 1) path name = .ok () ↔
      name ∈ names ∧ name ≠ "GLOBAL" ∧ ∀ g, findGroup groups name = some g →
        name ∉ path ∧ ∀ m ∈ g.proxies, visit groups names fuel (name :: path) m = .ok () := by
  rw [visit, ensure_bind_eq_ok_iff, and_assoc]
  refine and_congr_right fun _ => and_congr_right fun _ => ?_
  cases hfind : findGroup groups name with
  | none =>
    rw [show (groups.find? fun g => g.name = name) = none from hfind]
    exact ⟨nofun, fun _ => rfl⟩
  | some g =>
    rw [show (groups.find? fun g => g.name = name) = some g from hfind]
    rw [ensure_bind_eq_ok_iff, forM_eq_ok_iff]
    constructor
    · rintro h g' hg'
      cases hg'
      exact h
    · exact fun h => h g rfl

/-- A name that a group may have as a member. -/
def Listed (names : List Str) (name : Str) : Prop := name ∈ names ∧ name ≠ "GLOBAL"

/-- The members of groups are listed and stand below their group. -/
def Ranked (groups : List Group) (names : List Str) (rank : Str → Nat) : Prop :=
  ∀ name g, findGroup groups name = some g → ∀ m ∈ g.proxies,
    Listed names m ∧ rank m < rank name

/-- A visit that succeeds has visited the members. -/
theorem listed_of_visit (h : visit groups names fuel path name = .ok ()) :
    Listed names name ∧ ∃ fuel' < fuel, ∀ g, findGroup groups name = some g →
      ∀ m ∈ g.proxies, visit groups names fuel' (name :: path) m = .ok () := by
  cases fuel with
  | zero => cases h
  | succ fuel =>
    obtain ⟨hmem, hglobal, hgroup⟩ := visit_succ_eq_ok_iff.mp h
    exact ⟨⟨hmem, hglobal⟩, fuel, Nat.lt_succ_self fuel, fun g hg => (hgroup g hg).2⟩

/-- A path goes down the ranks, so it has different groups and leaves enough fuel. -/
theorem visit_of_ranked {rank : Str → Nat} (h : Ranked groups names rank)
    (hname : Listed names name) (habove : ∀ p ∈ path, rank name < rank p) (hnodup : path.Nodup)
    (hpath : path ⊆ groups.map Group.name) (hfuel : groups.length + 1 ≤ fuel + path.length) :
    visit groups names fuel path name = .ok () := by
  induction fuel generalizing path name with
  | zero =>
    have hlen := (subperm_of_subset hnodup hpath).length_le
    rw [length_map] at hlen
    omega
  | succ fuel ih =>
    refine visit_succ_eq_ok_iff.mpr ⟨hname.1, hname.2, fun g hg => ?_⟩
    have hnew : name ∉ path := fun hmem => (habove name hmem).false
    refine ⟨hnew, fun m hm => ?_⟩
    obtain ⟨hlisted, hbelow⟩ := h name g hg m hm
    obtain ⟨hmem, rfl⟩ := findGroup_some hg
    refine ih hlisted ?_ (nodup_cons.mpr ⟨hnew, hnodup⟩)
      (cons_subset.mpr ⟨mem_map_of_mem hmem, hpath⟩) (by rw [length_cons]; omega)
    exact forall_mem_cons.mpr ⟨hbelow, fun p hp => hbelow.trans (habove p hp)⟩

/-- **The walks accept exactly the groups without a cycle**: with more fuel than there are groups
they succeed if and only if the groups are listed and can be ranked above their members. -/
theorem group_walks_exact (more : Nat) :
    (groups.forM fun g => visit groups names (groups.length + 1 + more) [] g.name) = .ok () ↔
      (∀ g ∈ groups, Listed names g.name) ∧ ∃ rank, Ranked groups names rank := by
  rw [forM_eq_ok_iff]
  constructor
  · intro h
    -- a name ranks with the least fuel that some visit of it needs
    refine ⟨fun g hg => (listed_of_visit (h g hg)).1,
      fun a => sInf {f | ∃ path, visit groups names f path a = .ok ()}, fun a g hg m hm => ?_⟩
    obtain ⟨hmem, rfl⟩ := findGroup_some hg
    obtain ⟨path, hvisit⟩ := Nat.sInf_mem
      (s := {f | ∃ path, visit groups names f path g.name = .ok ()}) ⟨_, [], h g hmem⟩
    obtain ⟨-, fuel, hfuel, hmembers⟩ := listed_of_visit hvisit
    have hm := hmembers g hg m hm
    exact ⟨(listed_of_visit hm).1, lt_of_le_of_lt (Nat.sInf_le ⟨_, hm⟩) hfuel⟩
  · rintro ⟨hlisted, rank, hrank⟩ g hg
    exact visit_of_ranked hrank (hlisted g hg) (forall_mem_nil _) nodup_nil
      (nil_subset _) (by simp)

end

/-! ## Rules -/

section

variable [RuleText] {providers names : List Str}

/-- A rule line that passes: it can be read, and its target and rule sets are known. -/
def GoodRule (providers names : List Str) (raw : Str) : Prop :=
  ∃ r, Rule.parse raw = .ok r ∧ r.target ∈ names ∧
    ∀ name, (RefKind.ruleSet, name) ∈ r.matcher.references → name ∈ providers

/-- What is checked of a rule. -/
theorem validateRule_eq_ok_iff {index : Nat} {raw : Str} :
    validateRule providers names index raw = .ok () ↔ GoodRule providers names raw := by
  unfold validateRule GoodRule
  rw [bind_eq_ok_iff]
  refine exists_congr fun r => ?_
  rw [mapError_eq_ok_iff, ensure_bind_eq_ok_iff, forM_eq_ok_iff]
  refine and_congr_right fun _ => and_congr_right fun _ => ?_
  constructor
  · intro h name hname
    exact ensure_eq_ok_iff.mp (h _ hname) rfl
  · rintro h ⟨kind, name⟩ hmem
    refine ensure_of fun hkind => ?_
    subst hkind
    exact h name hmem

theorem validateRules_eq_ok_iff {index : Nat} {rules : List Str} :
    validateRules providers names index rules = .ok () ↔
      ∀ raw ∈ rules, GoodRule providers names raw := by
  induction rules generalizing index with
  | nil => exact ⟨nofun, fun _ => rfl⟩
  | cons raw rules ih =>
    rw [validateRules, bind_eq_ok_iff, forall_mem_cons, ← validateRule_eq_ok_iff]
    constructor
    · rintro ⟨⟨⟩, hraw, hrules⟩
      exact ⟨hraw, ih.mp hrules⟩
    · rintro ⟨hraw, hrules⟩
      exact ⟨(), hraw, ih.mpr hrules⟩

end

/-! ## The document -/

namespace Config

variable [ConfigText] (c : Config)

/-- The names of the document, as the checks collect them. -/
def names : List Str :=
  (c.proxyGroups.map fun g => g.name).reverse ++
    ((c.proxies.map Proxy.name).reverse ++ reservedNames)

/-- What a valid configuration is. -/
structure Valid : Prop where
  head : c.validateHead = .ok ()
  proxyNames : Fresh reservedNames (c.proxies.map Proxy.name)
  proxies : ∀ p ∈ c.proxies, validateProxy c.internalAllowNativeProfile 0 p = .ok ()
  groupNames : Fresh ((c.proxies.map Proxy.name).reverse ++ reservedNames)
    (c.proxyGroups.map fun g => g.name)
  groups : ∀ g ∈ c.proxyGroups, g.proxies ≠ [] ∧ 0 < g.interval
  visits : ∀ g ∈ c.core.proxyGroups,
    visit c.core.proxyGroups c.names (c.core.proxyGroups.length + 1) [] g.name = .ok ()
  rules : ∀ raw ∈ c.rules, GoodRule (c.ruleProviders.map Prod.fst) c.names raw
  rest : c.validateRest = .ok ()

variable {c}

/-- What is checked of all names. -/
theorem collectNames_eq_ok_iff {names : List Str} :
    c.collectNames = .ok names ↔ names = c.names ∧
      (Fresh reservedNames (c.proxies.map Proxy.name) ∧
        ∀ p ∈ c.proxies, validateProxy c.internalAllowNativeProfile 0 p = .ok ()) ∧
      Fresh ((c.proxies.map Proxy.name).reverse ++ reservedNames)
          (c.proxyGroups.map fun g => g.name) ∧
        ∀ g ∈ c.proxyGroups, g.proxies ≠ [] ∧ 0 < g.interval := by
  unfold collectNames
  rw [bind_eq_ok_iff]
  constructor
  · rintro ⟨seen, hproxies, hgroups⟩
    obtain ⟨rfl, hps⟩ := validateProxies_eq_ok_iff.mp hproxies
    obtain ⟨rfl, hgs⟩ := validateGroups_eq_ok_iff.mp hgroups
    exact ⟨rfl, hps, hgs⟩
  · rintro ⟨rfl, hproxies, hgroups⟩
    exact ⟨_, validateProxies_eq_ok_iff.mpr ⟨rfl, hproxies⟩,
      validateGroups_eq_ok_iff.mpr ⟨rfl, hgroups⟩⟩

/-- **Validation accepts exactly the valid configurations.** -/
theorem validate_eq_ok_iff : c.validate = .ok () ↔ c.Valid := by
  unfold validate
  rw [bind_eq_ok_iff]
  constructor
  · rintro ⟨⟨⟩, hhead, h⟩
    obtain ⟨names, hnames, h⟩ := bind_eq_ok_iff.mp h
    obtain ⟨rfl, hproxies, hgroups⟩ := collectNames_eq_ok_iff.mp hnames
    obtain ⟨⟨⟩, hvisits, h⟩ := bind_eq_ok_iff.mp h
    obtain ⟨⟨⟩, hrules, hrest⟩ := bind_eq_ok_iff.mp h
    exact ⟨hhead, hproxies.1, hproxies.2, hgroups.1, hgroups.2, forM_eq_ok_iff.mp hvisits,
      validateRules_eq_ok_iff.mp hrules, hrest⟩
  · intro h
    refine ⟨(), h.head, bind_eq_ok_iff.mpr ⟨c.names,
      collectNames_eq_ok_iff.mpr ⟨rfl, ⟨h.proxyNames, h.proxies⟩, h.groupNames, h.groups⟩, ?_⟩⟩
    exact bind_eq_ok_iff.mpr ⟨(), forM_eq_ok_iff.mpr h.visits,
      bind_eq_ok_iff.mpr ⟨(), validateRules_eq_ok_iff.mpr h.rules, h.rest⟩⟩

/-! ## Names -/

omit [ConfigText] in
theorem core_groupNames (c : Config) :
    c.core.proxyGroups.map Group.name = c.proxyGroups.map fun g => g.name := by
  unfold core
  rw [map_map]
  rfl

omit [ConfigText] in
/-- Where a name can come from. -/
theorem mem_names_iff {name : Str} :
    name ∈ c.names ↔ name ∈ c.core.proxyGroups.map Group.name ∨ name ∈ c.core.proxies ∨
      name ∈ reservedNames := by
  unfold names
  rw [mem_append, mem_append, mem_reverse, mem_reverse, core_groupNames]
  rfl

namespace Valid

section

variable (h : c.Valid)

include h

/-- No two groups share a name. -/
theorem nodup_groups : (c.core.proxyGroups.map Group.name).Nodup := by
  rw [core_groupNames]
  exact h.groupNames.1

variable {g : Group} {name : Str}

theorem members_ne_nil (hg : g ∈ c.core.proxyGroups) : g.proxies ≠ [] := by
  obtain ⟨entry, hentry, rfl⟩ := mem_map.mp hg
  exact (h.groups entry hentry).1

theorem group_not_reserved (hname : name ∈ c.core.proxyGroups.map Group.name) :
    name ∉ reservedNames := by
  rw [core_groupNames] at hname
  exact fun hres => (h.groupNames.2 name hname).2 (mem_append_right _ hres)

/-- No group is called like a proxy. -/
theorem group_not_proxy (hname : name ∈ c.core.proxyGroups.map Group.name) :
    name ∉ c.core.proxies := by
  rw [core_groupNames] at hname
  exact fun hproxy => (h.groupNames.2 name hname).2
    (mem_append_left _ (mem_reverse.mpr hproxy))

theorem proxy_not_reserved (hname : name ∈ c.core.proxies) : name ∉ reservedNames :=
  (h.proxyNames.2 name hname).2

/-- The `GLOBAL` selection names something else. -/
theorem globalName_mem : globalName c.core ∈ c.names ∧ globalName c.core ≠ "GLOBAL".toList := by
  have hglobal : "GLOBAL".toList ∈ reservedNames := by decide
  unfold globalName
  cases hgs : c.core.proxyGroups with
  | cons g gs =>
    have hg : g.name ∈ c.core.proxyGroups.map Group.name := by
      rw [hgs]
      exact mem_cons_self
    refine ⟨mem_names_iff.mpr (.inl hg), fun heq => h.group_not_reserved hg ?_⟩
    change g.name = _ at heq
    rwa [heq]
  | nil =>
    cases hps : c.core.proxies with
    | cons p ps =>
      have hp : p ∈ c.core.proxies := by
        rw [hps]
        exact mem_cons_self
      refine ⟨mem_names_iff.mpr (.inr (.inl hp)), fun heq => h.proxy_not_reserved hp ?_⟩
      change p = _ at heq
      rwa [heq]
    | nil =>
      have hdirect : "DIRECT".toList ∈ reservedNames ∧ "DIRECT".toList ≠ "GLOBAL".toList := by
        decide
      exact ⟨mem_names_iff.mpr (.inr (.inr hdirect.1)), hdirect.2⟩

theorem visit_name (hname : name ∈ c.names) (hglobal : name ≠ "GLOBAL") :
    visit c.core.proxyGroups c.names (c.core.proxyGroups.length + 1) [] name = .ok () := by
  cases hfind : findGroup c.core.proxyGroups name with
  | none =>
    refine visit_succ_eq_ok_iff.mpr ⟨hname, hglobal, fun g hg => ?_⟩
    rw [hfind] at hg
    cases hg
  | some g =>
    obtain ⟨hg, rfl⟩ := findGroup_some hfind
    exact h.visits g hg

/-- Members of groups are known. -/
theorem member_mem (hg : g ∈ c.core.proxyGroups) {m : Str} (hm : m ∈ g.proxies) :
    m ∈ c.names ∧ m ≠ "GLOBAL" := by
  obtain ⟨-, -, hmembers⟩ := visit_succ_eq_ok_iff.mp (h.visits g hg)
  have hvisit := (hmembers g (findGroup_of_mem h.nodup_groups hg)).2 m hm
  -- the walk had fuel left for the member
  obtain ⟨fuel, hfuel⟩ := Nat.exists_eq_succ_of_ne_zero
    (ne_of_gt (length_pos_of_mem hg))
  rw [hfuel] at hvisit
  obtain ⟨hname, hglobal, -⟩ := visit_succ_eq_ok_iff.mp hvisit
  exact ⟨hname, hglobal⟩

end

end Valid

end Config

end ClashMeta
