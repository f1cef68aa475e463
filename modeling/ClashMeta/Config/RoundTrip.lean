import ClashMeta.Config.Spelling

/-!
# Rules read back

The parser (config/src/rule.rs:147-331) against the spelling of conditions.
-/

namespace ClashMeta

open List Except Cond Nesting LeafKind

/-! ## The operands -/

/-- The operands are found in either spelling. -/
theorem parts_operandFields (flat : Bool) {texts : List Str} (hne : texts ≠ [])
    (hhead : ∀ t ∈ texts, t.head? ≠ some '(')
    (hlen : utf8Len (joinComma (texts.map paren)) ≤ 65536)
    (hpiece : ∀ t ∈ texts, ruleNesting.Piece (paren t)) :
    ∃ text more, operandFields flat texts = text :: more ∧ text ≠ [] ∧
      Logic.parts text more = .ok (texts.map paren) := by
  obtain ⟨t, rest, rfl⟩ := exists_cons_of_ne_nil hne
  cases flat with
  | true =>
    refine ⟨paren t, rest.map paren, rfl, cons_ne_nil _ _, ?_⟩
    by_cases hrest : rest = []
    · -- a single operand is no list, since it does not start with a parenthesis
      subst hrest
      show (do let inner ← unwrap (paren t); _) = _
      rw [unwrap_paren]
      exact if_neg (hhead t mem_cons_self)
    · exact parts_of_ne_nil (by simpa using hrest)
  | false =>
    refine ⟨_, [], rfl, cons_ne_nil _ _, ?_⟩
    show (do let inner ← unwrap (paren _); _) = _
    rw [unwrap_paren]
    have hstart : (joinComma ((t :: rest).map paren)).head? = some '(' := by
      rw [map_cons, joinComma_cons]
      rfl
    show (if _ then _ else _) = _
    rw [if_pos hstart]
    refine fields_joinComma (cons_ne_nil _ _) hlen fun p hp => ?_
    obtain ⟨t', ht', rfl⟩ := mem_map.mp hp
    exact ⟨hpiece t' ht', trimmed_paren t'⟩

theorem ofKind_name (op : Logic) : Logic.ofKind op.name = some op := by
  cases op <;> decide

theorem ofKind_leafName (kind : LeafKind) : Logic.ofKind kind.name = none := by
  cases kind <;> decide

/-- There is nothing to trim. -/
theorem trimDots_of_undotted {s : Str} (hhead : s.head? ≠ some '.')
    (hlast : s.getLast? ≠ some '.') : trimDots s = s ∧ s.dropWhile (· == '.') = s := by
  constructor
  · refine rdropWhile_eq_self_iff.mpr fun hne hdot => hlast ?_
    rw [getLast?_eq_getLast_of_ne_nil hne, beq_iff_eq.mp hdot]
  · cases s with
    | nil => rfl
    | cons c s =>
      have hc : ¬ (c == '.') = true := fun hdot => hhead (by rw [beq_iff_eq.mp hdot]; rfl)
      exact dropWhile_cons_of_neg hc

namespace Cond

theorem build_matcher {op : Logic} {first : Cond} {more : List Cond} (h : op = .not → more = []) :
    op.build ((first :: more).map matcher) = .ok (op.matcher first.matcher (more.map matcher)) := by
  cases op with
  | and | or => rfl
  | not =>
    rw [h rfl]
    rfl

/-- The operands of a condition that fits are found. -/
theorem parts_operands {op : Logic} {flat : Bool} {first : Cond} {more : List Cond}
    (h : ∀ c ∈ first :: more, c.Normal) (hfit : (logic op flat first more).Fits) :
    ∃ field rest, operandFields flat ((first :: more).map text) = field :: rest ∧ field ≠ [] ∧
      Logic.parts field rest = .ok (((first :: more).map text).map paren) := by
  obtain ⟨hlen, hdepth⟩ := hfit.operands
  refine parts_operandFields flat (cons_ne_nil _ _) (fun t ht => ?_) hlen fun t ht => ?_
  · obtain ⟨c, hc, rfl⟩ := mem_map.mp ht
    exact head?_text (h c hc)
  · obtain ⟨c, hc, rfl⟩ := mem_map.mp ht
    exact piece_operand hc (fun c hc => level_text (h c hc)) hdepth

/-- Something of a list reaches the maximum. -/
theorem exists_le_of_le_foldr_max {f : Cond → Nat} {l : List Cond} {k : Nat} (hne : l ≠ [])
    (h : k ≤ (l.map f).foldr max 0) : ∃ c ∈ l, k ≤ f c := by
  induction l with
  | nil => exact absurd rfl hne
  | cons c l ih =>
    rw [map_cons, foldr_cons] at h
    by_cases hc : k ≤ f c
    · exact ⟨c, mem_cons_self, hc⟩
    · by_cases hl : l = []
      · subst hl
        rw [map_nil, foldr_nil] at h
        exact ⟨c, mem_cons_self, by omega⟩
      · obtain ⟨c', hc', hle⟩ := ih hl (by omega)
        exact ⟨c', mem_cons_of_mem c hc', hle⟩

/-! ## Lists instead of flat operands -/

theorem foldr_max_le {f g : Cond → Nat} {l : List Cond} (hne : l ≠ [])
    (h : ∀ c ∈ l, f c ≤ g c) : (l.map f).foldr max 0 ≤ (l.map g).foldr max 0 := by
  obtain ⟨c, hc, hle⟩ := exists_le_of_le_foldr_max hne (le_refl ((l.map f).foldr max 0))
  exact (hle.trans (h c hc)).trans (le_foldr_max hc)

theorem utf8Len_joinComma_mono {l r : List Str}
    (h : Forall₂ (fun s t => utf8Len s ≤ utf8Len t) l r) :
    utf8Len (joinComma l) ≤ utf8Len (joinComma r) := by
  induction h with
  | nil => exact le_refl _
  | @cons s t l r hst hlr ih =>
    by_cases hl : l = []
    · subst hl
      cases hlr
      rwa [joinComma_singleton, joinComma_singleton]
    · have hr : r ≠ [] := by
        rintro rfl
        cases hlr
        exact hl rfl
      rw [joinComma_cons_of_ne_nil s hl, joinComma_cons_of_ne_nil t hr]
      simp only [utf8Len_append, utf8Len_cons]
      omega

section

variable {c : Cond} (h : c.Normal)

include h

theorem unmark_fields (hm : c.marked = false) : unmark c.fields = c.fields :=
  if_neg (getLast?_fields h hm)

/-- The spelling with lists is normalised too, -/
theorem normal_listed : c.listed.Normal ∧ c.listed.marked = c.marked := by
  induction h with
  | leaf h => exact ⟨.leaf h, rfl⟩
  | @logic op flat first more hnot h ih =>
    rw [listed_logic]
    refine ⟨.logic (fun hop => by rw [hnot hop, map_nil]) ?_, rfl⟩
    exact forall_mem_map.mpr fun c hc => (ih c hc).1
  | noResolve hmarked h ih => exact ⟨.noResolve (ih.2.trans hmarked) ih.1, rfl⟩

/-- has the same meaning, -/
theorem matcher_listed : c.listed.matcher = c.matcher := by
  induction h with
  | leaf h => rfl
  | @logic op flat first more hnot h ih =>
    obtain ⟨hfirst, hmore⟩ := forall_mem_cons.mp ih
    rw [listed_logic, matcher_logic, matcher_logic, hfirst, map_map]
    exact congrArg _ (map_congr_left hmore)
  | noResolve hmarked h ih => exact congrArg Matcher.noResolve ih

/-- and is as high. -/
theorem height_listed : c.listed.height = c.height := by
  induction h with
  | leaf h => rfl
  | @logic op flat first more hnot h ih =>
    have hmap : (first :: more).map (height ∘ listed) = (first :: more).map height :=
      map_congr_left ih
    rw [listed_logic, height_logic, height_logic, ← map_cons, map_map, hmap]
  | noResolve hmarked h ih => exact ih

/-- It is the deeper one, -/
theorem levels_listed : c.levels ≤ c.listed.levels ∧ 2 * c.height ≤ c.listed.levels := by
  induction h with
  | leaf h => exact ⟨le_refl _, le_refl _⟩
  | @logic op flat first more hnot h ih =>
    rw [listed_logic, levels_logic, levels_logic, height_logic, ← map_cons, map_map]
    have hlevels : ((first :: more).map levels).foldr max 0 ≤
        ((first :: more).map (levels ∘ listed)).foldr max 0 :=
      foldr_max_le (cons_ne_nil first more) fun c hc => (ih c hc).1
    obtain ⟨c, hc, hle⟩ := exists_le_of_le_foldr_max (f := height) (cons_ne_nil first more)
      (le_refl _)
    have hheight : 2 * c.height ≤ ((first :: more).map (levels ∘ listed)).foldr max 0 :=
      (ih c hc).2.trans (le_foldr_max (f := levels ∘ listed) hc)
    have hlist : (if false = true then 1 else 2) = 2 := rfl
    have hflat : (if flat = true then 1 else 2) ≤ 2 := by split <;> omega
    exact ⟨Nat.add_le_add hlevels hflat, by omega⟩
  | noResolve hmarked h ih => exact ih

/-- and the longer one. -/
theorem utf8Len_listed : utf8Len c.text ≤ utf8Len c.listed.text := by
  induction h with
  | leaf h => exact le_refl _
  | @logic op flat first more hnot h ih =>
    have hjoin : utf8Len (joinComma (((first :: more).map text).map paren)) ≤
        utf8Len (joinComma ((((first :: more).map listed).map text).map paren)) := by
      refine utf8Len_joinComma_mono ?_
      simp only [forall₂_map_left_iff, forall₂_map_right_iff, utf8Len_paren]
      exact forall₂_same.mpr fun c hc => Nat.add_le_add_right (ih c hc) 2
    have hflat : utf8Len (joinComma (operandFields flat ((first :: more).map text))) ≤
        utf8Len (joinComma (((first :: more).map text).map paren)) + 2 := by
      cases flat with
      | true => exact Nat.le_add_right _ 2
      | false =>
        rw [← utf8Len_paren, ← joinComma_singleton (paren _)]
        exact le_refl _
    rw [listed_logic, text_logic, text_logic, ← map_cons]
    have hlist : utf8Len (joinComma (operandFields false (((first :: more).map listed).map text))) =
        utf8Len (joinComma ((((first :: more).map listed).map text).map paren)) + 2 := by
      rw [← utf8Len_paren, ← joinComma_singleton (paren _)]
      rfl
    simp only [utf8Len_append, utf8Len_cons]
    omega
  | @noResolve c hmarked h ih =>
    show utf8Len (noResolve c).text ≤ utf8Len (noResolve c.listed).text
    rw [text_noResolve h, text_noResolve (normal_listed h).1, utf8Len_append, utf8Len_append]
    omega

end

end Cond

/-! ## The text of a rule -/

/-- The text of a rule. -/
def ruleText (c : Cond) (target : Str) (noResolve : Bool) : Str :=
  joinComma (c.fields ++ [target] ++ markField noResolve)

section

variable {c : Cond} {target : Str} (noResolve : Bool) (h : c.Normal)

include h

theorem ruleText_eq :
    ruleText c target noResolve = c.text ++ ',' :: joinComma (target :: markField noResolve) := by
  unfold ruleText
  rw [append_assoc]
  exact joinComma_append (fields_ne_nil h) (cons_ne_nil _ _)

/-- How deep the parentheses of a rule nest. -/
theorem level_ruleText (ht : Word target) :
    ruleNesting.Level c.levels (ruleText c target noResolve) := by
  have htarget := level_of_plain ht.plain
  have hmarker : ruleNesting.Level 0 noResolveField :=
    level_of_plain (plain_of_all (by decide))
  have hend : ruleNesting.Level 0 (joinComma (target :: markField noResolve)) := by
    cases noResolve with
    | false => exact (joinComma_singleton target).symm ▸ htarget
    | true => exact level_comma htarget hmarker
  have hjoin := level_comma (level_text h) hend
  rwa [max_zero, ← ruleText_eq noResolve h] at hjoin

theorem fits_of_ruleText (hlen : utf8Len (ruleText c target noResolve) ≤ 65536)
    (hk : c.levels ≤ 32) : c.Fits := by
  rw [ruleText_eq noResolve h, utf8Len_append] at hlen
  exact ⟨by omega, hk⟩

/-- The parser splits a rule into its fields. -/
theorem fields_ruleText (ht : Word target)
    (hlen : utf8Len (ruleText c target noResolve) ≤ 65536) (hk : c.levels ≤ 32) :
    fields (ruleText c target noResolve) = .ok (c.fields ++ [target] ++ markField noResolve) := by
  refine fields_joinComma (by simp) hlen (forall_mem_append.mpr ⟨?_, ?_⟩)
  · refine forall_mem_append.mpr ⟨piece_fields h hk, ?_⟩
    exact forall_mem_singleton.mpr ⟨piece_plain ht.plain, ht.trimmed⟩
  · cases noResolve with
    | false => exact fun p hp => (by cases hp)
    | true =>
      refine forall_mem_singleton.mpr ⟨piece_plain ?_, by decide⟩
      exact plain_of_all (by decide)

end

/-! ## Reading it back -/

section

variable [RuleText]

/-- Reading the fields of a logical condition, when its operands are read. -/
theorem parseFields_operands (op : Logic) {flat : Bool} {texts : List Str} {text : Str}
    {more : List Str} {operand : Str → Except String Matcher} {nodes : List Matcher}
    (hfields : operandFields flat texts = text :: more) (htext : text ≠ [])
    (hparts : Logic.parts text more = .ok (texts.map paren)) (hne : texts ≠ [])
    (hnodes : Forall₂ (fun t m => operand t = .ok m) texts nodes) :
    parseFields operand (op.name :: operandFields flat texts) = op.build nodes := by
  have hread : ((texts.map paren).mapM fun part => do operand (← unwrap part)) = .ok nodes := by
    refine mapM_eq_ok_iff.mpr (forall₂_map_left_iff.mpr (hnodes.imp fun t m ht => ?_))
    rw [unwrap_paren]
    exact ht
  rw [hfields, parseFields, ofKind_name, ensure_of htext]
  rw [hparts]
  show (do ensure (texts.map paren ≠ []) _; _) = _
  rw [ensure_of (by simpa using hne)]
  rw [hread]
  rfl

/-- A normalised leaf is read as it stands. -/
theorem parseLeaf_name {kind : LeafKind} {value : Str} (h : kind.Normal value) :
    parseLeaf kind.name value = .ok (kind.matcher value) := by
  cases kind with
  | domain =>
    have hread : parseLeaf LeafKind.domain.name value =
        .ok (.domain (trimDots (asciiLower value))) := rfl
    obtain ⟨hhead, hlast⟩ := h.undotted (.inl rfl)
    rw [hread, h.lower (by decide), (trimDots_of_undotted hhead hlast).1]
    rfl
  | domainSuffix =>
    have hread : parseLeaf domainSuffix.name value =
        .ok (.suffix (trimDots ((asciiLower value).dropWhile (· == '.')))) := rfl
    obtain ⟨hhead, hlast⟩ := h.undotted (.inr rfl)
    rw [hread, h.lower (by decide), (trimDots_of_undotted hhead hlast).2,
      (trimDots_of_undotted hhead hlast).1]
    rfl
  | domainKeyword =>
    have hread : parseLeaf domainKeyword.name value = .ok (.keyword (asciiLower value)) :=
      rfl
    rw [hread, h.lower (by decide)]
    rfl
  | geoIp =>
    have hread : parseLeaf LeafKind.geoIp.name value = .ok (.geoIp (asciiLower value)) := rfl
    rw [hread, h.lower (by decide)]
    rfl
  | geoSite =>
    have hread : parseLeaf geoSite.name value = .ok (.geoSite (asciiLower value)) := rfl
    rw [hread, h.lower (by decide)]
    rfl
  | ruleSet => rfl
  | network =>
    have hread : parseLeaf network.name value = (do
        ensure (asciiLower value = "tcp" ∨ asciiLower value = "udp") "invalid network"
        return .network (asciiLower value)) := rfl
    rw [hread, h.lower (by decide), ensure_of (h.network rfl)]
    rfl

namespace Cond

variable {c : Cond} (h : c.Normal) (hfit : c.Fits)

include h hfit

/-- One level of the parser. -/
theorem parseDepth_succ (l : Nat) :
    parseDepth (l + 1) c.text =
      (fun m => if c.fields.getLast? = some noResolveField then .noResolve m else m) <$>
        parseFields (parseDepth l) (unmark c.fields) := by
  rw [parseDepth, fields_text h hfit]
  rfl

variable {l : Nat}

theorem parseDepth_of_unmarked (hm : c.marked = false) {m : Matcher}
    (hread : parseFields (parseDepth l) c.fields = .ok m) : parseDepth (l + 1) c.text = .ok m := by
  rw [parseDepth_succ h hfit, unmark_fields h hm, hread]
  simp only [if_neg (getLast?_fields h hm)]
  rfl

/-- **The parser reads a tree back from its text**, given as many levels as the tree is high. -/
theorem parse_text (hl : c.height ≤ l) :
    (c.marked = false → parseFields (parseDepth l) c.fields = .ok c.matcher) ∧
      parseDepth (l + 1) c.text = .ok c.matcher := by
  induction h generalizing l with
  | @leaf kind value h =>
    have hread : parseFields (parseDepth l) (leaf kind value).fields =
        .ok (leaf kind value).matcher := by
      rw [fields_leaf, parseFields, ofKind_leafName, ensure_of h.ne_nil]
      exact parseLeaf_name h
    exact ⟨fun _ => hread, parseDepth_of_unmarked (.leaf h) hfit rfl hread⟩
  | @logic op flat first more hnot h ih =>
    have hread : parseFields (parseDepth l) (logic op flat first more).fields =
        .ok (logic op flat first more).matcher := by
      rw [height_logic] at hl
      obtain ⟨l, rfl⟩ : ∃ l', l = l' + 1 := ⟨l - 1, by omega⟩
      obtain ⟨field, rest, hfields, hne, hparts⟩ := parts_operands h hfit
      rw [fields_logic, matcher_logic, ← build_matcher hnot]
      refine parseFields_operands op hfields hne hparts (cons_ne_nil _ _) ?_
      refine forall₂_map_left_iff.mpr (forall₂_map_right_iff.mpr ?_)
      refine forall₂_same.mpr fun c hc => ?_
      have hcheight : c.height ≤ ((first :: more).map height).foldr max 0 := le_foldr_max hc
      exact (ih c hc (hfit.operand hc) (by omega)).2
    exact ⟨fun _ => hread, parseDepth_of_unmarked (.logic hnot h) hfit rfl hread⟩
  | @noResolve c hmarked h ih =>
    refine ⟨fun hm => (by cases hm), ?_⟩
    rw [parseDepth_succ (.noResolve hmarked h) hfit, fields_noResolve,
      unmark_snoc_noResolveField, (ih (hfit.inner h) hl).1 hmarked, getLast?_concat]
    rfl

/-- It reads nothing when more logical conditions are nested than it descends. -/
theorem parseFields_ne_ok_of_lt_height (hl : l < c.height) (m : Matcher) :
    parseFields (parseDepth l) (unmark c.fields) ≠ .ok m := by
  induction h generalizing l m with
  | leaf h => exact absurd hl (Nat.not_lt_zero l)
  | @logic op flat first more hnot h ih =>
    intro hok
    obtain ⟨field, rest, hfields, -, hparts⟩ := parts_operands h hfit
    rw [unmark_fields (.logic hnot h) rfl, fields_logic, hfields] at hok
    obtain ⟨_, _, _, heq, ⟨hnone, -⟩ | ⟨logic, parts, nodes, -, hparts', hnodes, -⟩⟩ :=
      parseFields_eq_ok hok
    · cases heq
      rw [ofKind_name] at hnone
      cases hnone
    · cases heq
      cases hparts.symm.trans hparts'
      -- the highest operand is the one that fails
      rw [height_logic] at hl
      obtain ⟨c, hc, hle⟩ := exists_le_of_le_foldr_max (cons_ne_nil first more)
        (Nat.le_of_lt_succ hl)
      obtain ⟨inner, m', hinner, hm'⟩ := unwrap_of_mapM (paren c.text) hnodes
        (mem_map_of_mem (mem_map_of_mem hc))
      rw [unwrap_paren] at hinner
      cases hinner
      cases l with
      | zero => cases hm'
      | succ l =>
        rw [parseDepth_succ (h c hc) (hfit.operand hc)] at hm'
        obtain ⟨m₀, hm₀, -⟩ := map_eq_ok_iff.mp hm'
        exact ih c hc (hfit.operand hc) hle m₀ hm₀
  | @noResolve c hmarked h ih =>
    rw [fields_noResolve, unmark_snoc_noResolveField, ← unmark_fields h hmarked]
    exact ih (hfit.inner h) hl m

end Cond

/-- A rule is read back exactly while its condition is not too high. -/
theorem parse_ruleText_iff {c : Cond} {target : Str} (noResolve : Bool) (h : c.Normal)
    (ht : Word target) (hlen : utf8Len (ruleText c target noResolve) ≤ 65536) (hk : c.levels ≤ 32) :
    Rule.parse (ruleText c target noResolve) = .ok ⟨c.matcher, target, noResolve⟩ ↔
      c.height < 32 := by
  have hfit := fits_of_ruleText noResolve h hlen hk
  have hmatcher : parseMatcher c.fields = parseDepth 32 c.text := by
    obtain ⟨kind, ch, rest, heq, -, -, -, hkind⟩ := exists_fields h
    unfold parseMatcher
    rw [heq, head?_cons, if_neg (fun hsome => hkind (Option.some.inj hsome)), ← heq]
    rfl
  rw [Rule.parse_eq_ok_iff, fields_ruleText noResolve h ht hlen hk]
  constructor
  · rintro ⟨f, hf, -, -, -, hread⟩
    have heq : c.fields = f := by
      have hcancel := append_cancel_right (Except.ok.inj hf)
      exact append_cancel_right hcancel
    rw [← heq, hmatcher, parseDepth_succ h hfit] at hread
    obtain ⟨m, hm, -⟩ := map_eq_ok_iff.mp hread
    by_contra hheight
    exact parseFields_ne_ok_of_lt_height h hfit (by omega) m hm
  · intro hheight
    refine ⟨c.fields, rfl, fields_ne_nil h, ht.ne_nil, fun _ => ht.ne_marker, ?_⟩
    rw [hmatcher]
    exact (parse_text h hfit (by omega)).2

/-- Parentheses of a rule that is read match. -/
theorem nested_of_parse {raw : Str} {r : Rule} (h : Rule.parse raw = .ok r) :
    ruleNesting.Nested 32 raw := by
  obtain ⟨fs, hfs, -⟩ := bind_eq_ok_iff.mp h
  obtain ⟨-, segs, hne, rfl, hsegs, -⟩ := fields_eq_ok_iff.mp hfs
  exact nested_joinComma hne hsegs

/-- **Rules are read back from their text.** For every normalised tree whose spelling with
lists fits into the limits on length and parentheses, `Rule::parse` gives the tree, the target
and the flag, from that text and from the text with any of the operand lists flat. In a flat
spelling that fits by itself it does so exactly while fewer than 32 logical conditions are
nested. Text whose parentheses do not match, or nest more than 32 deep, is refused. -/
theorem ruleText_roundTrip :
    (∀ (c : Cond) (target : Str) (noResolve : Bool), c.Normal → Word target →
      utf8Len (ruleText c.listed target noResolve) ≤ 65536 →
      ruleNesting.Within 32 (ruleText c.listed target noResolve) →
      Rule.parse (ruleText c.listed target noResolve) = .ok ⟨c.matcher, target, noResolve⟩ ∧
        Rule.parse (ruleText c target noResolve) = .ok ⟨c.matcher, target, noResolve⟩) ∧
    (∀ (c : Cond) (target : Str) (noResolve : Bool), c.Normal → Word target →
      utf8Len (ruleText c target noResolve) ≤ 65536 →
      ruleNesting.Within 32 (ruleText c target noResolve) →
      (Rule.parse (ruleText c target noResolve) = .ok ⟨c.matcher, target, noResolve⟩ ↔
        c.height < 32)) ∧
    ∀ (raw : Str) (r : Rule), ¬ ruleNesting.Nested 32 raw → Rule.parse raw ≠ .ok r := by
  refine ⟨fun c target noResolve h ht hlen hwithin => ?_,
    fun c target noResolve h ht hlen hwithin => ?_,
    fun raw r hnot hok => hnot (nested_of_parse hok)⟩
  · have hlisted := (normal_listed h).1
    have hdepth := (level_ruleText noResolve hlisted ht).within_iff.mp hwithin
    obtain ⟨hlevels, hheight⟩ := levels_listed h
    have hshort : utf8Len (ruleText c target noResolve) ≤
        utf8Len (ruleText c.listed target noResolve) := by
      have htext := utf8Len_listed h
      rw [ruleText_eq noResolve h, ruleText_eq noResolve hlisted, utf8Len_append, utf8Len_append]
      omega
    have hread := (parse_ruleText_iff noResolve hlisted ht hlen hdepth).mpr
      (by rw [height_listed h]; omega)
    rw [matcher_listed h] at hread
    exact ⟨hread, (parse_ruleText_iff noResolve h ht (hshort.trans hlen)
      (hlevels.trans hdepth)).mpr (by omega)⟩
  · exact parse_ruleText_iff noResolve h ht hlen
      ((level_ruleText noResolve h ht).within_iff.mp hwithin)

end

/-- `AND,(DOMAIN,a),(NETWORK,tcp,no-resolve)`. -/
def sampleCond : Cond :=
  .logic .and true (.leaf .domain "a") [.noResolve (.leaf .network "tcp")]

/-- It is normalised. -/
theorem normal_sampleCond : sampleCond.Normal := by
  have hdomain : LeafKind.domain.Normal "a" :=
    ⟨⟨by decide, by decide, plain_of_all (by decide), by decide⟩, fun _ => (by decide),
      fun _ => (by decide), fun h => (by cases h)⟩
  have hnetwork : network.Normal "tcp" :=
    ⟨⟨by decide, by decide, plain_of_all (by decide), by decide⟩, fun _ => (by decide),
      fun h => (by cases h with | inl h => cases h | inr h => cases h), fun _ => .inl rfl⟩
  refine .logic nofun (forall_mem_cons.mpr ⟨.leaf hdomain, ?_⟩)
  exact forall_mem_singleton.mpr (.noResolve rfl (.leaf hnetwork))

/-- The rule `AND,(DOMAIN,a),(NETWORK,tcp,no-resolve),DIRECT,no-resolve` is read back. -/
theorem ruleText_roundTrip_sample :
    ruleText sampleCond "DIRECT" true =
        "AND,(DOMAIN,a),(NETWORK,tcp,no-resolve),DIRECT,no-resolve" ∧
      @Rule.parse RuleText.none (ruleText sampleCond "DIRECT" true) =
        .ok ⟨.and [.domain "a", .noResolve (.network "tcp")],
          "DIRECT", true⟩ := by
  have htarget : Word "DIRECT" :=
    ⟨by decide, by decide, plain_of_all (by decide), by decide⟩
  have hwithin : ruleNesting.Within 32 (ruleText sampleCond.listed "DIRECT" true) :=
    (level_ruleText true (normal_listed normal_sampleCond).1 htarget).within_iff.mpr
      (by decide)
  exact ⟨by decide, ((@ruleText_roundTrip RuleText.none).1 sampleCond "DIRECT" true
    normal_sampleCond htarget (by decide) hwithin).2⟩

end ClashMeta
