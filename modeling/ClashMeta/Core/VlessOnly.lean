import ClashMeta.Core.Groups

/-!
# VLESS-only mode and direct connections

With `--vless-only` the configuration goes through `Config::retain_vless`
(config/src/lib.rs:344-367) before a core is made of it. The option's text promises that
unavailable references become `REJECT`, never `DIRECT` (cli/src/main.rs:45-47). A group that
loses its first member selects its first member that stays, though, and that may be
`DIRECT`; `GLOBAL` without groups falls back to `DIRECT` when the last proxy goes.
-/

namespace ClashMeta

open List Option Except Relation

/-- `DIRECT`. -/
def directName : Str := "DIRECT"

/-- `GLOBAL`. -/
def globalTarget : Str := "GLOBAL"

/-! ## Following a table -/

section

variable {selection : Table Str Str} {R : Str → Str → Prop}

theorem leafLoop_leads (hR : ∀ a b, selection.lookup a = some b ↔ R a b) {fuel : Nat}
    {name node : Str} (h : leafLoop selection fuel name = .ok node) :
    ReflTransGen R name node ∧ ∀ b, ¬R node b := by
  induction fuel generalizing name with
  | zero => cases h
  | succ fuel ih =>
    rw [leafLoop] at h
    split at h
    · rename_i selected hsel
      obtain ⟨hleads, hend⟩ := ih h
      exact ⟨.head ((hR name selected).mp hsel) hleads, hend⟩
    · rename_i hnone
      cases h
      refine ⟨.refl, fun b hb => ?_⟩
      rw [(hR _ b).mpr hb] at hnone
      cases hnone

theorem ends_unique (hR : Relator.RightUnique R) {a b c : Str} (hb : ReflTransGen R a b)
    (hc : ReflTransGen R a c) (hbend : ∀ x, ¬R b x) (hcend : ∀ x, ¬R c x) : b = c := by
  rcases ReflTransGen.total_of_right_unique hR hb hc with h | h
  · rcases h.cases_head with rfl | ⟨x, hx, -⟩
    · rfl
    · exact absurd hx (hbend x)
  · rcases h.cases_head with rfl | ⟨x, hx, -⟩
    · rfl
    · exact absurd hx (hcend x)

end

/-! ## First members -/

namespace Config

/-- From a group to its first member. -/
def FirstMember (c : Config) (a b : Str) : Prop :=
  ∃ g, findGroup c.core.proxyGroups a = some g ∧ g.proxies.head? = some b

/-- From a group to its first member that `retain_vless` keeps. -/
def FirstKept (c : Config) (a b : Str) : Prop :=
  ∃ g, findGroup c.core.proxyGroups a = some g ∧ g.proxies.find? (· ∉ c.removed) = some b

/-- Where `GLOBAL` starts without the other proxies: the first group, else the first VLESS
proxy, else `DIRECT`. -/
def globalKept (c : Config) : Str :=
  ((c.core.proxyGroups.head?.map Group.name).or
    ((c.proxies.find? (·.kind = .vless)).map Proxy.name)).getD directName

/-- The name that is followed for a target. -/
def start (c : Config) (name : Str) : Str := if name = globalTarget then globalName c.core else name

/-- The same without the other proxies. -/
def startKept (c : Config) (name : Str) : Str := if name = globalTarget then c.globalKept else name

/-- The target leads to a proxy that is removed, and what stands in its place leads to
`DIRECT`. -/
def Exposed (c : Config) (target place : Str) : Prop :=
  (∃ p ∈ c.removed, Relation.ReflTransGen c.FirstMember (c.start target) p) ∧
    Relation.ReflTransGen c.FirstKept (c.startKept place) directName

theorem firstMember_rightUnique (c : Config) : Relator.RightUnique c.FirstMember := by
  rintro a b b' ⟨g, hg, hb⟩ ⟨g', hg', hb'⟩
  cases hg.symm.trans hg'
  exact some.inj (hb.symm.trans hb')

theorem not_firstMember {c : Config} {a : Str} (h : findGroup c.core.proxyGroups a = none)
    (b : Str) : ¬c.FirstMember a b := by
  rintro ⟨g, hg, -⟩
  rw [h] at hg
  cases hg

section

variable [ConfigText] {c : Config}

theorem new_lookup_iff (hvalid : c.Valid) {s : CoreState} (h : Core.new c = .ok s) (a b : Str) :
    s.policy.selection.lookup a = some b ↔ c.FirstMember a b := by
  obtain ⟨s₀, hnew, hfirst, -, hinv⟩ := Core.new_eq_ok hvalid
  cases hnew.symm.trans h
  cases hfind : findGroup c.core.proxyGroups a with
  | none =>
    rw [hinv.chosen.only a hfind]
    exact ⟨nofun, fun h => absurd h (not_firstMember hfind b)⟩
  | some g =>
    obtain ⟨hg, rfl⟩ := findGroup_some hfind
    rw [hfirst g hg]
    constructor
    · exact fun hb => ⟨g, hfind, hb⟩
    · rintro ⟨g', hg', hb⟩
      cases hfind.symm.trans hg'
      exact hb

omit [ConfigText] in
theorem leaf_of_not_mem {s : CoreState} (hchosen : Chosen c.core.proxyGroups s.policy.selection)
    {name : Str} (hname : name ∉ c.names) : leaf c.core s.policy name = .ok name := by
  have hglobal : name ≠ "GLOBAL" := by
    rintro rfl
    exact hname (mem_names_iff.mpr (.inr (.inr (by decide))))
  have hnone : findGroup c.core.proxyGroups name = none :=
    findGroup_eq_none_iff.mpr fun hmem => hname (mem_names_iff.mpr (.inl hmem))
  unfold leaf
  rw [if_neg hglobal, leafLoop, hchosen.only name hnone]

/-- **In a new core `leaf` is where the steps to first members end.** -/
theorem leaf_new_iff (hvalid : c.Valid) {s : CoreState} (h : Core.new c = .ok s) (name : Str)
    {node : Str} (hnode : findGroup c.core.proxyGroups node = none) :
    leaf c.core s.policy name = .ok node ↔
      ReflTransGen c.FirstMember (c.start name) node := by
  obtain ⟨s₀, hnew, -, -, hinv⟩ := Core.new_eq_ok hvalid
  cases hnew.symm.trans h
  obtain ⟨node', hleaf⟩ : ∃ node', leaf c.core s.policy name = .ok node' := by
    by_cases hname : name ∈ c.names
    · obtain ⟨node', hleaf, -⟩ := hinv.leaf hvalid hname
      exact ⟨node', hleaf⟩
    · exact ⟨name, leaf_of_not_mem hinv.chosen hname⟩
  obtain ⟨hleads, hend⟩ := leafLoop_leads (new_lookup_iff hvalid h) hleaf
  constructor
  · intro hok
    cases hleaf.symm.trans hok
    exact hleads
  · intro hleads'
    rw [ends_unique c.firstMember_rightUnique hleads' hleads (not_firstMember hnode) hend]
    exact hleaf

end

/-! ## Without the other proxies -/

section

variable {c : Config} {rules : List Str}

theorem head?_retainMembers (removed members : List Str) :
    (retainMembers removed members).head? =
      some ((members.find? (· ∉ removed)).getD rejectName) := by
  unfold retainMembers
  rw [← head?_filter]
  cases members.filter (· ∉ removed) with
  | nil | cons m rest => rfl

theorem firstMember_withoutOthers {a b : Str} :
    (c.withoutOthers rules).FirstMember a b ↔ c.FirstKept a b ∨
      ∃ g, findGroup c.core.proxyGroups a = some g ∧ g.proxies.find? (· ∉ c.removed) = none ∧
        b = rejectName := by
  unfold FirstMember FirstKept
  rw [core_withoutOthers, findGroup_map_retainGroup]
  cases findGroup c.core.proxyGroups a with
  | none => simp
  | some g =>
    have hhead : (retainGroup c.removed g).proxies.head? =
        some ((g.proxies.find? (· ∉ c.removed)).getD rejectName) :=
      head?_retainMembers c.removed g.proxies
    simp only [map_some, some.injEq, exists_eq_left', hhead]
    cases g.proxies.find? (· ∉ c.removed) with
    | none => simp [eq_comm]
    | some m => simp

/-- **Only kept members lead to `DIRECT`** after `retain_vless`. -/
theorem leads_retained_iff (hreject : rejectName ∉ c.core.proxyGroups.map Group.name) {a : Str} :
    ReflTransGen (c.withoutOthers rules).FirstMember a directName ↔
      ReflTransGen c.FirstKept a directName := by
  constructor
  · intro h
    induction h using ReflTransGen.head_induction_on with
    | refl => exact .refl
    | head hstep hrest ih =>
      rcases firstMember_withoutOthers.mp hstep with hkept | ⟨g, -, -, rfl⟩
      · exact .head hkept ih
      · -- `REJECT` is no group and not `DIRECT`
        rcases hrest.cases_head with heq | ⟨x, hx, -⟩
        · exact absurd heq (by decide)
        · refine absurd hx (not_firstMember ?_ x)
          rw [core_withoutOthers, findGroup_map_retainGroup, findGroup_eq_none_iff.mpr hreject]
          rfl
  · intro h
    refine ReflTransGen.mono (fun a b hab => ?_) _ _ h
    exact firstMember_withoutOthers.mpr (.inl hab)

theorem globalName_withoutOthers : globalName (c.withoutOthers rules).core = c.globalKept := by
  unfold globalName globalKept
  rw [core_withoutOthers, head?_map, Option.map_map]
  show ((Option.map Group.name _).or
    ((c.proxies.filter (·.kind = .vless)).map Proxy.name).head?).getD _ = _
  rw [head?_map, head?_filter]
  rfl

end

/-! ## Rule lines -/

section

variable [RuleText] {removed : List Str} {raw raw' : Str} {r r' : Rule}

/-- The line is read with this target when `REJECT` and the marker stand in the place of its
last bytes, as many as its target and marker have. -/
def ReadsOver (raw : Str) (r : Rule) (name : Str) : Prop :=
  ∃ front back r', raw = front ++ back ∧
    utf8Len back = utf8Len r.target + utf8Len (markText r.noResolve) ∧
    Rule.parse (front ++ rejectName ++ markText r.noResolve) = .ok r' ∧ r'.target = name

/-- What stands in the place of a line's target: the target itself if it stays. -/
def InPlace (removed : List Str) (raw : Str) (r : Rule) (name : Str) : Prop :=
  if r.target ∈ removed then ReadsOver raw r name else name = r.target

theorem inPlace_iff (hr : Rule.parse raw = .ok r) (h : rewriteRule removed raw = .ok raw')
    (hr' : Rule.parse raw' = .ok r') {name : Str} :
    InPlace removed raw r name ↔ name = r'.target := by
  unfold InPlace
  unfold rewriteRule at h
  rw [hr] at h
  obtain ⟨_, heq, h⟩ := bind_eq_ok_iff.mp h
  cases heq
  by_cases hremoved : r.target ∈ removed
  · rw [if_pos hremoved] at h ⊢
    obtain ⟨hle, h⟩ := ensure_bind_eq_ok_iff.mp h
    split at h
    · rename_i front hslice
      cases h
      obtain ⟨⟨back, hback⟩, hlen⟩ := sliceTo_eq_some_iff.mp hslice
      have hsize := congrArg utf8Len hback
      rw [utf8Len_append] at hsize
      -- the slice is fixed by its length, so both cut the line at one place
      constructor
      · rintro ⟨front', back', r₁, hraw, hlen', hr₁, rfl⟩
        have hsize' := congrArg utf8Len hraw
        rw [utf8Len_append] at hsize'
        have hslice' := sliceTo_eq_some_iff.mpr
          ⟨⟨back', hraw.symm⟩, show utf8Len front' =
            utf8Len raw - utf8Len (markText r.noResolve) - utf8Len r.target by omega⟩
        cases hslice.symm.trans hslice'
        cases hr'.symm.trans hr₁
        rfl
      · rintro rfl
        exact ⟨front, back, r', hback.symm, by omega, hr', rfl⟩
    · cases h
  · rw [if_neg hremoved] at h ⊢
    cases h
    cases hr.symm.trans hr'
    rfl

theorem forall₂_inPlace_iff {Q : Str → Str → Prop} {lines lines' : List Str}
    {rules rules' : List Rule}
    (hlines : Forall₂ (fun raw raw' => rewriteRule removed raw = .ok raw') lines lines')
    (hrules : Forall₂ (fun raw r => Rule.parse raw = .ok r) lines rules)
    (hrules' : Forall₂ (fun raw r => Rule.parse raw = .ok r) lines' rules') :
    Forall₂ (fun r r' => Q r.target r'.target) rules rules' ↔
      ∀ raw ∈ lines, ∀ r name, Rule.parse raw = .ok r → InPlace removed raw r name →
        Q r.target name := by
  induction hlines generalizing rules rules' with
  | nil =>
    cases hrules
    cases hrules'
    exact ⟨nofun, fun _ => .nil⟩
  | cons hline _ ih =>
    cases hrules with
    | cons hr hrules =>
      cases hrules' with
      | cons hr' hrules' =>
        rw [forall₂_cons, forall_mem_cons, ih hrules hrules']
        refine and_congr_left fun _ => ?_
        constructor
        · intro hq r₀ name hr₀ hplace
          cases hr.symm.trans hr₀
          rw [(inPlace_iff hr hline hr').mp hplace]
          exact hq
        · intro hall
          exact hall _ _ hr ((inPlace_iff hr hline hr').mpr rfl)

end

/-! ## Direct connections -/

section

variable [ConfigText] {c c' : Config}

/-- Where `leaf` of the target ends at a proxy that is removed, `leaf` of what stands in its
place afterwards is not `DIRECT`. -/
def NeverDirect (c c' : Config) (s s' : CoreState) (target place : Str) : Prop :=
  (∃ p ∈ c.removed, leaf c.core s.policy target = .ok p) →
    leaf c'.core s'.policy place ≠ .ok directName

theorem retainVless_eq_ok (h : c.retainVless = .ok c') :
    c'.validate = .ok () ∧ ∃ rules, c' = c.withoutOthers rules ∧
      Forall₂ (fun raw raw' => rewriteRule c.removed raw = .ok raw') c.rules rules := by
  obtain ⟨rules, hrules, h⟩ := bind_eq_ok_iff.mp h
  obtain ⟨⟨⟩, hvalid, h⟩ := bind_eq_ok_iff.mp h
  cases h
  exact ⟨mapError_eq_ok_iff.mp hvalid, rules, rfl, mapM_eq_ok_iff.mp hrules⟩

theorem findGroup_removed (hvalid : c.Valid) {p : Str} (hp : p ∈ c.removed) :
    findGroup c.core.proxyGroups p = none := by
  refine findGroup_eq_none_iff.mpr fun hgroup => hvalid.group_not_proxy hgroup ?_
  obtain ⟨proxy, hproxy, rfl⟩ := mem_map.mp hp
  exact mem_map_of_mem (mem_filter.mp hproxy).1

theorem findGroup_direct (hvalid : c.Valid) : findGroup c.core.proxyGroups directName = none :=
  findGroup_eq_none_iff.mpr fun hgroup => hvalid.group_not_reserved hgroup (by decide)

/-- **One target**: it becomes a direct one exactly when it is exposed. -/
theorem neverDirect_iff {rules : List Str} (hvalid : c.Valid)
    (hvalid' : (c.withoutOthers rules).Valid) {s s' : CoreState} (hs : Core.new c = .ok s)
    (hs' : Core.new (c.withoutOthers rules) = .ok s') (target place : Str) :
    NeverDirect c (c.withoutOthers rules) s s' target place ↔ ¬c.Exposed target place := by
  unfold NeverDirect Exposed
  rw [not_and]
  refine imp_congr ?_ (not_congr ?_)
  · refine exists_congr fun p => and_congr_right fun hp => ?_
    exact leaf_new_iff hvalid hs target (findGroup_removed hvalid hp)
  · rw [leaf_new_iff hvalid' hs' place (findGroup_direct hvalid'),
      leads_retained_iff hvalid.reject_not_group]
    unfold start startKept
    rw [globalName_withoutOthers]

/-- **VLESS-only mode makes no proxied target a direct one** exactly when none is exposed. For
every valid configuration that `retain_vless` goes through, with cores made of the
configurations before and after: where a rule's target or `GLOBAL` resolves to a proxy that
is removed, the target of the rule at the same position or `GLOBAL` does not resolve to
`DIRECT` afterwards, if and only if no rule line and not `GLOBAL` leads to such a proxy by
first members and, from what stands in its place, to `DIRECT` by first members that stay. -/
theorem vless_only_never_direct_iff (hvalid : c.validate = .ok ())
    (hretain : c.retainVless = .ok c') :
    ∃ s s', Core.new c = .ok s ∧ Core.new c' = .ok s' ∧
      (List.Forall₂ (fun r r' => NeverDirect c c' s s' r.target r'.target)
          s.policy.rules s'.policy.rules ∧ NeverDirect c c' s s' globalTarget globalTarget ↔
        (∀ raw ∈ c.rules, ∀ r place, Rule.parse raw = .ok r → InPlace c.removed raw r place →
          ¬c.Exposed r.target place) ∧ ¬c.Exposed globalTarget globalTarget) := by
  have hv := validate_eq_ok_iff.mp hvalid
  obtain ⟨hvalid', rules, rfl, hlines⟩ := retainVless_eq_ok hretain
  have hv' := validate_eq_ok_iff.mp hvalid'
  obtain ⟨s, hs, -, hrules, -⟩ := Core.new_eq_ok hv
  obtain ⟨s', hs', -, hrules', -⟩ := Core.new_eq_ok hv'
  refine ⟨s, s', hs, hs', and_congr ?_ (neverDirect_iff hv hv' hs hs' _ _)⟩
  simp only [neverDirect_iff hv hv' hs hs']
  exact forall₂_inPlace_iff (Q := fun target place => ¬c.Exposed target place) hlines
    (mapM_eq_ok_iff.mp hrules) (mapM_eq_ok_iff.mp hrules')

end

theorem not_exposed_oneHy2 (target : Str) {place : Str} (hplace : place ≠ directName) :
    ¬(oneHy2 "hy2" "MATCH,g").Exposed target place := by
  rintro ⟨-, hdirect⟩
  have hstart : (oneHy2 "hy2" "MATCH,g").startKept place ≠ directName := by
    unfold startKept
    split
    · decide
    · exact hplace
  rcases hdirect.cases_head with heq | ⟨x, ⟨g, hg, hkept⟩, -⟩
  · exact hstart heq
  · -- the only group keeps no member
    cases mem_singleton.mp (findGroup_some hg).1
    have hnone : (["hy2"].find? (· ∉ (oneHy2 "hy2" "MATCH,g").removed)) = none := by decide
    exact nomatch hnone.symm.trans hkept

/-- A group of one removed proxy becomes a group of `REJECT`. -/
theorem vless_only_never_direct_iff_oneHy2 :
    ∃ c' s s', @retainVless .none (oneHy2 "hy2" "MATCH,g") = .ok c' ∧
      @Core.new .none (oneHy2 "hy2" "MATCH,g") = .ok s ∧ @Core.new .none c' = .ok s' ∧
      List.Forall₂ (fun r r' => NeverDirect (oneHy2 "hy2" "MATCH,g") c' s s' r.target r'.target)
        s.policy.rules s'.policy.rules ∧
      NeverDirect (oneHy2 "hy2" "MATCH,g") c' s s' globalTarget globalTarget := by
  have hretain : @retainVless .none (oneHy2 "hy2" "MATCH,g") =
      .ok ((oneHy2 "hy2" "MATCH,g").withoutOthers ["MATCH,g"]) := rfl
  obtain ⟨s, s', hs, hs', hiff⟩ := @vless_only_never_direct_iff .none _ _ rfl hretain
  refine ⟨_, s, s', hretain, hs, hs', hiff.mpr ⟨?_, not_exposed_oneHy2 _ (by decide)⟩⟩
  intro raw hraw r place hr hplace
  cases mem_singleton.mp hraw
  have hrule : @Rule.parse .none "MATCH,g" = .ok ⟨.all, "g", false⟩ := rfl
  cases hrule.symm.trans hr
  refine not_exposed_oneHy2 _ ?_
  rw [hplace]
  decide

/-- A group of a removed proxy and `DIRECT`. -/
def fallsBack : Config :=
  { proxies := [hy2 "hy2"]
    proxyGroups := [{ name := "g", kind := .select, proxies := ["hy2", directName] }]
    rules := ["MATCH,g"] }

/-- A removed proxy and no group. -/
def noGroups : Config :=
  { proxies := [hy2 "hy2"], rules := ["MATCH,GLOBAL"] }

/-- The group goes on with its second member, and `GLOBAL` falls back when there is no proxy. -/
theorem vless_only_turns_direct :
    (∃ c' s s', @validate .none fallsBack = .ok () ∧ @retainVless .none fallsBack = .ok c' ∧
      @Core.new .none fallsBack = .ok s ∧ @Core.new .none c' = .ok s' ∧
      s.policy.rules.map Rule.target = ["g".toList] ∧
      s'.policy.rules.map Rule.target = ["g".toList] ∧ "hy2".toList ∈ fallsBack.removed ∧
      leaf fallsBack.core s.policy "g" = .ok "hy2".toList ∧
      leaf c'.core s'.policy "g" = .ok directName) ∧
    ∃ c' s s', @validate .none noGroups = .ok () ∧ @retainVless .none noGroups = .ok c' ∧
      @Core.new .none noGroups = .ok s ∧ @Core.new .none c' = .ok s' ∧
      "hy2".toList ∈ noGroups.removed ∧
      leaf noGroups.core s.policy globalTarget = .ok "hy2".toList ∧
      leaf c'.core s'.policy globalTarget = .ok directName := by
  refine ⟨⟨_, _, _, rfl, rfl, rfl, rfl, rfl, rfl, by decide, rfl, rfl⟩, ?_⟩
  exact ⟨_, _, _, rfl, rfl, rfl, rfl, by decide, rfl, rfl⟩

end Config

end ClashMeta
