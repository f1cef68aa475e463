import ClashMeta.Config.RuleLine
import ClashMeta.Config.Valid

/-!
# Keeping only VLESS proxies

`Config::retain_vless` (config/src/lib.rs:344-367) removes the other proxies from the
document: from the proxies, from the members of groups and from the targets of rules. A
rule is rewritten in its text, by cutting off as many bytes as its target and marker have
and appending `REJECT` and the marker.
-/

namespace ClashMeta

open List Except

/-- The members of a group that stay. -/
def retainMembers (removed members : List Str) : List Str :=
  if (members.filter (· ∉ removed)).isEmpty then [rejectName]
  else members.filter (· ∉ removed)

section

variable [RuleText]

/-- The loop body for a rule (lib.rs:358-365). The subtraction and the slice panic when they
leave the text. -/
def rewriteRule (removed : List Str) (raw : Str) : Except Abrupt Str := do
  let r ← (Rule.parse raw).mapError .error
  if r.target ∈ removed then
    let suffix := markText r.noResolve
    ensure (utf8Len suffix + utf8Len r.target ≤ utf8Len raw) .panic
    match sliceTo (utf8Len raw - utf8Len suffix - utf8Len r.target) raw with
    | some front => return front ++ rejectName ++ suffix
    | none => throw .panic
  else return raw

end

namespace Config

/-- The names of the proxies that go. -/
def removed (c : Config) : List Str := (c.proxies.filter (·.kind ≠ .vless)).map Proxy.name

/-- The document with the given rules and without the other proxies. -/
def withoutOthers (c : Config) (rules : List Str) : Config :=
  { c with
    proxies := c.proxies.filter (·.kind = .vless)
    proxyGroups := c.proxyGroups.map fun g =>
      { g with proxies := retainMembers c.removed g.proxies }
    rules := rules }

/-- `Config::retain_vless`. -/
def retainVless [ConfigText] (c : Config) : Except Abrupt Config := do
  let rules ← c.rules.mapM (rewriteRule c.removed)
  let c' := c.withoutOthers rules
  c'.validate.mapError .error
  return c'

end Config

/-! ## Cutting a line -/

section

variable [RuleText] {removed : List Str} {raw raw' : Str} {r : Rule}

/-- The cut keeps the text before the target and as many bytes behind that as there are
blanks around the target and the marker. -/
theorem rewriteRule_eq_ok {pieces : List Str} {a b tail : Str} (hparse : Rule.parse raw = .ok r)
    (hline : RuleLine raw r pieces a b tail) (hremoved : r.target ∈ removed)
    (h : rewriteRule removed raw = .ok raw') :
    ∃ x, x <+: r.target ++ (b ++ tail) ∧
      utf8Len x + utf8Len (markText r.noResolve) = utf8Len b + utf8Len tail ∧
      raw' = rewritten pieces a x r.noResolve := by
  unfold rewriteRule at h
  rw [hparse] at h
  obtain ⟨_, hr, h⟩ := bind_eq_ok_iff.mp h
  cases hr
  rw [if_pos hremoved] at h
  obtain ⟨-, h⟩ := ensure_bind_eq_ok_iff.mp h
  split at h
  · rename_i front hslice
    cases h
    obtain ⟨hpre, hlen⟩ := sliceTo_eq_some_iff.mp hslice
    have htail := hline.tail_ok.le_utf8Len
    have hall : raw = (joinComma pieces ++ ',' :: a) ++ (r.target ++ (b ++ tail)) := by
      rw [hline.text_eq]
      simp
    have hsize := congrArg utf8Len hall
    simp only [utf8Len_append] at hsize
    -- the text before the target is kept
    have hfront : joinComma pieces ++ ',' :: a <+: front := by
      rcases prefix_or_prefix_of_prefix hpre (show joinComma pieces ++ ',' :: a <+: raw from
        ⟨_, hall.symm⟩) with hle | hle
      · obtain ⟨rest, hrest⟩ := hle
        have hrestLen := congrArg utf8Len hrest
        simp only [utf8Len_append] at hrestLen
        have hnil : rest = [] := utf8Len_eq_zero_iff.mp (by omega)
        rw [hnil, append_nil] at hrest
        exact ⟨[], by rw [append_nil, hrest]⟩
      · exact hle
    obtain ⟨x, rfl⟩ := hfront
    rw [hall, prefix_append_right_inj] at hpre
    simp only [utf8Len_append] at hlen
    refine ⟨x, hpre, by omega, ?_⟩
    simp [rewritten]
  · cases h

/-- The text ends in exactly the target and the marker, and with `REJECT` in the target's
place it is not too long. -/
def CleanLine (raw : Str) (r : Rule) : Prop :=
  r.target ++ markText r.noResolve <:+ raw ∧
    utf8Len raw + utf8Len rejectName ≤ 65536 + utf8Len r.target

/-- The new line is read as the old rule, with the target `REJECT` if the old one was
removed. -/
def KeepsRule (removed : List Str) (raw raw' : Str) : Prop :=
  ∀ r, Rule.parse raw = .ok r → ∃ r', Rule.parse raw' = .ok r' ∧ r'.matcher = r.matcher ∧
    r'.noResolve = r.noResolve ∧
    r'.target = if r.target ∈ removed then rejectName else r.target

theorem rewriteRule_clean {front : Str} (hparse : Rule.parse raw = .ok r)
    (hremoved : r.target ∈ removed) (hraw : raw = front ++ (r.target ++ markText r.noResolve)) :
    rewriteRule removed raw = .ok (front ++ rejectName ++ markText r.noResolve) := by
  have hlen : utf8Len raw =
      utf8Len front + (utf8Len r.target + utf8Len (markText r.noResolve)) := by
    rw [hraw, utf8Len_append, utf8Len_append]
  have hslice : sliceTo (utf8Len raw - utf8Len (markText r.noResolve) - utf8Len r.target) raw =
      some front := sliceTo_eq_some_iff.mpr ⟨⟨_, hraw.symm⟩, by omega⟩
  refine bind_eq_ok_iff.mpr ⟨r, by rw [hparse]; rfl, ?_⟩
  rw [if_pos hremoved]
  refine ensure_bind_eq_ok_iff.mpr ⟨by omega, ?_⟩
  rw [hslice]
  rfl

/-- A line with a removed target is read as the same rule with the target `REJECT` exactly when it
ends in the target and the marker, without blanks, and the new line is not too long. -/
theorem rewriteRule_keeps_iff (hparse : Rule.parse raw = .ok r) :
    (∃ raw', rewriteRule removed raw = .ok raw' ∧ KeepsRule removed raw raw') ↔
      (r.target ∈ removed → CleanLine raw r) := by
  obtain ⟨pieces, a, b, tail, hline⟩ := exists_ruleLine hparse
  by_cases hremoved : r.target ∈ removed
  · constructor
    · rintro ⟨raw', hrewrite, hkeeps⟩ -
      obtain ⟨x, hx, hlen, rfl⟩ := rewriteRule_eq_ok hparse hline hremoved hrewrite
      obtain ⟨r', hr', hm, hnr, htarget⟩ := hkeeps r hparse
      rw [if_pos hremoved] at htarget
      have hx0 : x = [] := by
        by_contra hne
        exact parse_rewritten_ne hline hx hne hr' hm hnr htarget
      subst hx0
      have htail := hline.tail_ok.le_utf8Len
      rw [utf8Len_nil] at hlen
      have hb0 : b = [] := utf8Len_eq_zero_iff.mp (by omega)
      subst hb0
      have htail0 := hline.tail_ok.eq_of_utf8Len (by rw [utf8Len_nil] at hlen; omega)
      refine ⟨hline.suffix_iff.mpr ⟨rfl, htail0⟩, ?_⟩
      -- a line that is read is not too long
      obtain ⟨f, hfields, -⟩ := Rule.parse_eq_ok_iff.mp hr'
      have hshort := (fields_eq_ok_iff.mp hfields).1
      rw [hline.text_eq]
      simp only [rewritten, utf8Len_append, utf8Len_cons, utf8Len_nil] at hshort ⊢
      omega
    · intro hclean
      obtain ⟨hsuffix, hshort⟩ := hclean hremoved
      obtain ⟨rfl, rfl⟩ := hline.suffix_iff.mp hsuffix
      have hraw : raw = (joinComma pieces ++ ',' :: a) ++ (r.target ++ markText r.noResolve) := by
        rw [hline.text_eq]
        simp
      have hnew : (joinComma pieces ++ ',' :: a) ++ rejectName ++ markText r.noResolve =
          rewritten pieces a [] r.noResolve := by
        simp [rewritten]
      refine ⟨_, rewriteRule_clean hparse hremoved hraw, ?_⟩
      intro r₀ hr₀
      cases hparse.symm.trans hr₀
      rw [hnew]
      refine ⟨_, parse_rewritten hline ?_, rfl, rfl, (if_pos hremoved).symm⟩
      rw [hraw] at hshort
      rw [← hnew]
      simp only [utf8Len_append] at hshort ⊢
      omega
  · constructor
    · exact fun _ h => absurd h hremoved
    · intro _
      refine ⟨raw, bind_eq_ok_iff.mpr ⟨r, by rw [hparse]; rfl, if_neg hremoved⟩, ?_⟩
      intro r₀ hr₀
      cases hparse.symm.trans hr₀
      exact ⟨r, hparse, rfl, rfl, (if_neg hremoved).symm⟩

end

/-! ## The document without the other proxies -/

section

variable {groups : List Group} {names names' removed : List Str}

/-- The group with the members that stay. -/
def retainGroup (removed : List Str) (g : Group) : Group :=
  { g with proxies := retainMembers removed g.proxies }

theorem retainMembers_ne_nil (removed members : List Str) : retainMembers removed members ≠ [] := by
  unfold retainMembers
  split
  · exact cons_ne_nil _ _
  · rename_i hkept
    exact fun hnil => hkept (isEmpty_iff.mpr hnil)

theorem mem_retainMembers {members : List Str} {name : Str}
    (h : name ∈ retainMembers removed members) :
    name ∈ members ∧ name ∉ removed ∨ name = rejectName := by
  unfold retainMembers at h
  split at h
  · exact .inr (mem_singleton.mp h)
  · obtain ⟨hmem, hstay⟩ := mem_filter.mp h
    exact .inl ⟨hmem, of_decide_eq_true hstay⟩

theorem findGroup_map_retainGroup (name : Str) :
    findGroup (groups.map (retainGroup removed)) name =
      (findGroup groups name).map (retainGroup removed) := by
  unfold findGroup
  rw [find?_map]
  rfl

theorem visit_retainGroup {fuel : Nat} {path : List Str} {name : Str}
    (hgroups : ∀ g ∈ groups, g.proxies ≠ []) (hreject : rejectName ∉ groups.map Group.name)
    (hnames : ∀ n ∈ names, n ∉ removed → n ∈ names') (hreject' : rejectName ∈ names')
    (hname : name ∉ removed) (h : visit groups names fuel path name = .ok ()) :
    visit (groups.map (retainGroup removed)) names' fuel path name = .ok () := by
  induction fuel generalizing path name with
  | zero => cases h
  | succ fuel ih =>
    obtain ⟨hknown, hglobal, hmembers⟩ := visit_succ_eq_ok_iff.mp h
    refine visit_succ_eq_ok_iff.mpr ⟨hnames name hknown hname, hglobal, ?_⟩
    intro g' hg'
    rw [findGroup_map_retainGroup] at hg'
    obtain ⟨g, hg, rfl⟩ := Option.map_eq_some_iff.mp hg'
    obtain ⟨hpath, hvisits⟩ := hmembers g hg
    refine ⟨hpath, fun m hm => ?_⟩
    rcases mem_retainMembers hm with ⟨hmem, hstay⟩ | rfl
    · exact ih hstay (hvisits m hmem)
    · -- the group had a member, so there is fuel for `REJECT`
      obtain ⟨m₀, rest, hm₀⟩ := exists_cons_of_ne_nil (hgroups g (findGroup_some hg).1)
      have hvisit := hvisits m₀ (by rw [hm₀]; exact mem_cons_self)
      cases fuel with
      | zero => cases hvisit
      | succ fuel =>
        refine visit_succ_eq_ok_iff.mpr ⟨hreject', by decide, fun g₁ hg₁ => ?_⟩
        rw [findGroup_map_retainGroup, findGroup_eq_none_iff.mpr hreject] at hg₁
        cases hg₁

end

theorem Fresh.mono {names names' new new' : List Str} (h : Fresh names new)
    (hnames : names' ⊆ names) (hnew : new'.Sublist new) : Fresh names' new' :=
  ⟨h.1.sublist hnew, fun name hname =>
    ⟨(h.2 name (hnew.subset hname)).1, fun hmem => (h.2 name (hnew.subset hname)).2 (hnames hmem)⟩⟩

namespace Config

variable {c : Config} {rules : List Str}

theorem mem_names_withoutOthers {name : Str} (h : name ∈ c.names) (hstay : name ∉ c.removed) :
    name ∈ (c.withoutOthers rules).names := by
  unfold names at h ⊢
  rw [mem_append, mem_append] at h ⊢
  rcases h with h | h | h
  · refine .inl ?_
    simpa [withoutOthers] using h
  · refine .inr (.inl ?_)
    rw [mem_reverse] at h ⊢
    obtain ⟨p, hp, rfl⟩ := mem_map.mp h
    refine mem_map.mpr ⟨p, mem_filter.mpr ⟨hp, ?_⟩, rfl⟩
    by_contra hkind
    exact hstay (mem_map.mpr ⟨p, mem_filter.mpr ⟨hp, by simpa using hkind⟩, rfl⟩)
  · exact .inr (.inr h)

theorem core_withoutOthers : (c.withoutOthers rules).core.proxyGroups =
    c.core.proxyGroups.map (retainGroup c.removed) := by
  show (c.proxyGroups.map _).map _ = (c.proxyGroups.map _).map _
  rw [map_map, map_map]
  rfl

section

variable [ConfigText]

theorem Valid.reject_not_group (h : c.Valid) : rejectName ∉ c.core.proxyGroups.map Group.name := by
  intro hmem
  have hmem' : rejectName ∈ c.proxyGroups.map fun g => g.name := by
    simpa [core, map_map, Function.comp_def] using hmem
  exact (h.groupNames.2 _ hmem').2 (mem_append_right _ (by decide))

theorem Valid.group_not_removed (h : c.Valid) {name : Str}
    (hname : name ∈ c.proxyGroups.map fun g => g.name) : name ∉ c.removed := by
  intro hmem
  obtain ⟨p, hp, rfl⟩ := mem_map.mp hmem
  refine (h.groupNames.2 _ hname).2 (mem_append_left _ (mem_reverse.mpr ?_))
  exact mem_map.mpr ⟨p, (mem_filter.mp hp).1, rfl⟩

/-- **The rest is kept**: with rules that pass, the new document is valid. -/
theorem Valid.withoutOthers (h : c.Valid) (hrules : ∀ raw ∈ rules,
    GoodRule (c.ruleProviders.map Prod.fst) (c.withoutOthers rules).names raw) :
    (c.withoutOthers rules).Valid where
  head := h.head
  proxyNames := h.proxyNames.mono (List.Subset.refl _) (filter_sublist.map _)
  proxies p hp := h.proxies p (mem_filter.mp hp).1
  groupNames := by
    have hsame : ((c.withoutOthers rules).proxyGroups.map fun g => g.name) =
        c.proxyGroups.map fun g => g.name := by
      show (c.proxyGroups.map _).map _ = _
      rw [map_map]
      rfl
    rw [hsame]
    refine h.groupNames.mono (fun name hname => ?_) (List.Sublist.refl _)
    rw [mem_append, mem_reverse] at hname ⊢
    refine hname.imp_left fun hname => ?_
    exact (filter_sublist.map Proxy.name).subset hname
  groups g hg := by
    obtain ⟨g₀, hg₀, rfl⟩ := mem_map.mp hg
    exact ⟨retainMembers_ne_nil _ _, (h.groups g₀ hg₀).2⟩
  visits g hg := by
    -- groups only lose members, so a walk that ended still ends
    rw [core_withoutOthers] at hg ⊢
    obtain ⟨g₀, hg₀, rfl⟩ := mem_map.mp hg
    rw [length_map]
    refine visit_retainGroup (fun g hg => ?_) h.reject_not_group
      (fun n hn hstay => mem_names_withoutOthers hn hstay) ?_ ?_ (h.visits g₀ hg₀)
    · obtain ⟨e, he, rfl⟩ := mem_map.mp hg
      exact (h.groups e he).1
    · exact mem_append_right _ (mem_append_right _ (by decide))
    · refine h.group_not_removed ?_
      obtain ⟨e, he, rfl⟩ := mem_map.mp hg₀
      exact mem_map.mpr ⟨e, he, rfl⟩
  rules := hrules
  rest := h.rest

/-- The document after `retain_vless` as it should be: every rule line is read as the old
rule, with the target `REJECT` if the old one was removed, and every group has its members
that stay, in order, or `REJECT` when there are none. -/
structure Retained (c c' : Config) : Prop where
  rules : List.Forall₂ (KeepsRule c.removed) c.rules c'.rules
  groups : c'.proxyGroups = c.proxyGroups.map fun g =>
    { g with proxies := retainMembers c.removed g.proxies }

theorem Valid.goodRule_of_keepsRule (h : c.Valid) {raw raw' : Str} (hraw : raw ∈ c.rules)
    (hkeeps : KeepsRule c.removed raw raw') :
    GoodRule (c.ruleProviders.map Prod.fst) (c.withoutOthers rules).names raw' := by
  obtain ⟨r, hr, htarget, hrefs⟩ := h.rules raw hraw
  obtain ⟨r', hr', hm, -, htarget'⟩ := hkeeps r hr
  refine ⟨r', hr', ?_, by rw [hm]; exact hrefs⟩
  rw [htarget']
  split
  · exact mem_append_right _ (mem_append_right _ (by decide))
  · exact mem_names_withoutOthers htarget ‹_›

/-- **`retain_vless` rewrites a valid configuration faithfully** exactly when every rule
line whose target is removed ends in the target and the marker, and has room for `REJECT`. -/
theorem retain_vless_faithful_iff (h : c.validate = .ok ()) :
    (∃ c', c.retainVless = .ok c' ∧ Retained c c') ↔
      ∀ raw ∈ c.rules, ∀ r, Rule.parse raw = .ok r → r.target ∈ c.removed → CleanLine raw r := by
  have hvalid := validate_eq_ok_iff.mp h
  -- line by line
  have hlines : (∃ rules, c.rules.mapM (rewriteRule c.removed) = .ok rules ∧
      List.Forall₂ (KeepsRule c.removed) c.rules rules) ↔
      ∀ raw ∈ c.rules, ∀ r, Rule.parse raw = .ok r → r.target ∈ c.removed → CleanLine raw r := by
    rw [exists_mapM_eq_ok_iff]
    refine forall_congr' fun raw => forall_congr' fun hraw => ?_
    obtain ⟨r, hr, -⟩ := hvalid.rules raw hraw
    rw [rewriteRule_keeps_iff hr]
    constructor
    · rintro hclean r₀ hr₀
      cases hr.symm.trans hr₀
      exact hclean
    · exact fun hclean => hclean r hr
  rw [← hlines]
  constructor
  · rintro ⟨c', hretain, hretained⟩
    obtain ⟨rules, hrules, hretain⟩ := bind_eq_ok_iff.mp hretain
    obtain ⟨⟨⟩, -, hretain⟩ := bind_eq_ok_iff.mp hretain
    cases hretain
    exact ⟨rules, hrules, hretained.rules⟩
  · rintro ⟨rules, hrules, hkeeps⟩
    have hvalid' : (c.withoutOthers rules).validate = .ok () := by
      refine validate_eq_ok_iff.mpr (hvalid.withoutOthers fun raw' hraw' => ?_)
      obtain ⟨raw, hraw, hkeep⟩ := exists_of_forall₂_right hkeeps hraw'
      exact hvalid.goodRule_of_keepsRule hraw hkeep
    refine ⟨c.withoutOthers rules, ?_, hkeeps, rfl⟩
    refine bind_eq_ok_iff.mpr ⟨rules, hrules, ?_⟩
    exact bind_eq_ok_iff.mpr ⟨(), mapError_eq_ok_iff.mpr hvalid', rfl⟩

end

/-! ## Concrete documents -/

/-- A Hysteria2 proxy, by its name. -/
def hy2 (name : String) : Proxy :=
  { name := name.toList, kind := .hysteria2, server := "h", port := 443,
    password := "p" }

/-- A document with one such proxy, one group of it and one rule. -/
def oneHy2 (name : String) (rule : String) : Config :=
  { proxies := [hy2 name]
    proxyGroups := [{ name := "g", kind := .select, proxies := [name.toList] }]
    rules := [rule.toList] }

theorem retain_vless_faithful_iff_clean :
    ∃ c', @retainVless .none (oneHy2 "hy2" "GEOIP, CN, hy2,no-resolve") = .ok c' ∧
      @Retained .none (oneHy2 "hy2" "GEOIP, CN, hy2,no-resolve") c' := by
  have hvalid : @validate .none (oneHy2 "hy2" "GEOIP, CN, hy2,no-resolve") = .ok () := rfl
  refine (@retain_vless_faithful_iff _ .none hvalid).mpr ?_
  intro raw hraw r hr _
  cases mem_singleton.mp hraw
  have hrule : @Rule.parse .none "GEOIP, CN, hy2,no-resolve" =
      .ok ⟨.geoIp "cn", "hy2", true⟩ := rfl
  cases hrule.symm.trans hr
  exact ⟨⟨"GEOIP, CN, ", rfl⟩, by decide⟩

/-- A blank behind the target leaves a letter of it, which makes an unknown name; before a
letter of two bytes the cut falls into the letter. -/
theorem retain_vless_miscuts :
    (@validate .none (oneHy2 "hy2" "MATCH,hy2 ") = .ok () ∧
      @retainVless .none (oneHy2 "hy2" "MATCH,hy2 ") =
        .error (.error "rules[0]: unknown target hREJECT")) ∧
    @validate .none (oneHy2 "éa" "MATCH,éa ") = .ok () ∧
      @retainVless .none (oneHy2 "éa" "MATCH,éa ") = .error .panic :=
  ⟨⟨rfl, rfl⟩, rfl, rfl⟩

end Config

end ClashMeta
