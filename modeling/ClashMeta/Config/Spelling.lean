import ClashMeta.Config.Fields

/-!
# The spelling of conditions

A condition tree is written as `KIND,value`, or as a logical kind with its operands in
parentheses: in a list of their own, `KIND,((c1),(c2))`, or flat, `KIND,(c1),(c2)`. A marker
field at the end makes a `NoResolve` of it.
-/

namespace ClashMeta

open List Nesting

/-! ## Condition trees -/

/-- The kinds of plain conditions that are written as kind and value. -/
inductive LeafKind where
  | domain
  | domainSuffix
  | domainKeyword
  | geoIp
  | geoSite
  | ruleSet
  | network
  deriving DecidableEq, Repr

namespace LeafKind

/-- The name of the kind in a rule. -/
def name : LeafKind → Str
  | domain => "DOMAIN"
  | domainSuffix => "DOMAIN-SUFFIX"
  | domainKeyword => "DOMAIN-KEYWORD"
  | geoIp => "GEOIP"
  | geoSite => "GEOSITE"
  | ruleSet => "RULE-SET"
  | network => "NETWORK"

/-- The condition of that kind. -/
def matcher : LeafKind → Str → Matcher
  | domain, v => .domain v
  | domainSuffix, v => .suffix v
  | domainKeyword, v => .keyword v
  | geoIp, v => .geoIp v
  | geoSite, v => .geoSite v
  | ruleSet, v => .ruleSet v
  | network, v => .network v

end LeafKind

/-- The name of a logical kind in a rule. -/
def Logic.name : Logic → Str
  | and => "AND"
  | or => "OR"
  | not => "NOT"

/-- The condition over the operands, of which there is at least one. -/
def Logic.matcher : Logic → Matcher → List Matcher → Matcher
  | and, m, more => .and (m :: more)
  | or, m, more => .or (m :: more)
  | not, m, _ => .not m

/-- Condition trees. `flat` says how the operands of a logical condition are spelled. -/
inductive Cond where
  | leaf (kind : LeafKind) (value : Str)
  | logic (op : Logic) (flat : Bool) (first : Cond) (more : List Cond)
  | noResolve (c : Cond)

/-- The text in parentheses. -/
def paren (s : Str) : Str := '(' :: s ++ [')']

/-- The fields with the operands: one for each, or a single one with the list of them. -/
def operandFields (flat : Bool) (texts : List Str) : List Str :=
  if flat then texts.map paren else [paren (joinComma (texts.map paren))]

namespace Cond

section

variable {β : Type} (leaf : LeafKind → Str → β) (logic : Logic → Bool → β → List β → β)
  (noResolve : β → β)

mutual

/-- The value of a tree from the values of its parts. -/
def fold : Cond → β
  | .leaf kind value => leaf kind value
  | .logic op flat first more => logic op flat (fold first) (foldAll more)
  | .noResolve c => noResolve (fold c)

/-- The values of several trees. -/
def foldAll : List Cond → List β
  | [] => []
  | c :: more => fold c :: foldAll more

end

theorem foldAll_eq_map (cs : List Cond) :
    foldAll leaf logic noResolve cs = cs.map (fold leaf logic noResolve) := by
  induction cs with
  | nil => rfl
  | cons c cs ih => rw [foldAll, ih, map_cons]

end

/-- The condition that a tree stands for. -/
def matcher : Cond → Matcher :=
  fold LeafKind.matcher (fun op _ m more => op.matcher m more) .noResolve

/-- The fields that a tree is written as. -/
def fields : Cond → List Str :=
  fold (fun kind value => [kind.name, value])
    (fun op flat fs more => op.name :: operandFields flat ((fs :: more).map joinComma))
    (· ++ [noResolveField])

/-- The text of a tree. -/
def text (c : Cond) : Str := joinComma c.fields

/-- How many logical conditions are nested in each other. -/
def height : Cond → Nat :=
  fold (fun _ _ => 0) (fun _ _ h more => (h :: more).foldr max 0 + 1) id

/-- How deep the parentheses of the text nest. -/
def levels : Cond → Nat :=
  fold (fun _ _ => 0) (fun _ flat k more => (k :: more).foldr max 0 + if flat then 1 else 2) id

/-- The tree with every operand list in parentheses of its own. -/
def listed : Cond → Cond := fold .leaf (fun op _ c more => .logic op false c more) .noResolve

/-- The tree is a `NoResolve`. -/
def marked : Cond → Bool
  | noResolve _ => true
  | _ => false

end Cond

/-- Text that is one field wherever it stands: trimmed, not empty, without commas and
parentheses, and not the marker. -/
structure Word (s : Str) : Prop where
  trimmed : Trimmed s
  ne_nil : s ≠ []
  plain : ∀ c ∈ s, ruleNesting.Plain c
  ne_marker : s ≠ noResolveField

/-- A value in the form the parser brings it to. -/
structure LeafKind.Normal (kind : LeafKind) (value : Str) : Prop extends Word value where
  lower : kind ≠ .ruleSet → asciiLower value = value
  undotted : kind = .domain ∨ kind = .domainSuffix →
    value.head? ≠ some '.' ∧ value.getLast? ≠ some '.'
  network : kind = .network → value = "tcp" ∨ value = "udp"

namespace Cond

/-- The values of the tree are normalised, `NOT` has one operand and no `NoResolve` stands
directly in another. -/
inductive Normal : Cond → Prop
  | leaf {kind : LeafKind} {value : Str} (h : kind.Normal value) : Normal (.leaf kind value)
  | logic {op : Logic} {flat : Bool} {first : Cond} {more : List Cond}
      (hnot : op = .not → more = []) (h : ∀ c ∈ first :: more, Normal c) :
      Normal (.logic op flat first more)
  | noResolve {c : Cond} (hmarked : c.marked = false) (h : Normal c) : Normal (.noResolve c)

@[simp] theorem fields_leaf (kind : LeafKind) (value : Str) :
    (leaf kind value).fields = [kind.name, value] := rfl

@[simp] theorem fields_noResolve (c : Cond) :
    (noResolve c).fields = c.fields ++ [noResolveField] := rfl

section

variable (op : Logic) (flat : Bool) (first : Cond) (more : List Cond)

theorem fields_logic :
    (logic op flat first more).fields =
      op.name :: operandFields flat ((first :: more).map text) := by
  rw [fields, fold, foldAll_eq_map, ← map_cons, map_map]
  rfl

theorem matcher_logic :
    (logic op flat first more).matcher = op.matcher first.matcher (more.map matcher) := by
  rw [matcher, fold, foldAll_eq_map]

theorem height_logic :
    (logic op flat first more).height = ((first :: more).map height).foldr max 0 + 1 := by
  rw [height, fold, foldAll_eq_map, map_cons]

theorem levels_logic :
    (logic op flat first more).levels =
      ((first :: more).map levels).foldr max 0 + if flat then 1 else 2 := by
  rw [levels, fold, foldAll_eq_map, map_cons]

theorem listed_logic :
    (logic op flat first more).listed = logic op false first.listed (more.map listed) := by
  rw [listed, fold, foldAll_eq_map]

end

end Cond

/-! ## Text -/

theorem joinComma_singleton (s : Str) : joinComma [s] = s := by
  rw [joinComma_cons, flatMap_nil, append_nil]

variable {l : List Str}

/-- One more field in front. -/
theorem joinComma_cons_of_ne_nil (s : Str) (h : l ≠ []) :
    joinComma (s :: l) = s ++ ',' :: joinComma l := by
  rw [← joinComma_singleton s, ← joinComma_append (cons_ne_nil _ _) h, joinComma_singleton]
  rfl

variable {s : Str}

/-- Each of the fields stands in the text. -/
theorem exists_joinComma_of_mem (h : s ∈ l) : ∃ a b, joinComma l = a ++ s ++ b := by
  induction l with
  | nil => cases h
  | cons t l ih =>
    by_cases hl : l = []
    · subst hl
      obtain rfl := mem_singleton.mp h
      exact ⟨[], [], by rw [joinComma_singleton, nil_append, append_nil]⟩
    · rw [joinComma_cons_of_ne_nil t hl]
      rcases mem_cons.mp h with rfl | h
      · exact ⟨[], ',' :: joinComma l, rfl⟩
      · obtain ⟨a, b, heq⟩ := ih h
        exact ⟨t ++ ',' :: a, b, by rw [heq]; simp⟩

theorem utf8Len_le_joinComma (h : s ∈ l) : utf8Len s ≤ utf8Len (joinComma l) := by
  obtain ⟨a, b, heq⟩ := exists_joinComma_of_mem h
  rw [heq, utf8Len_append, utf8Len_append]
  omega

theorem utf8Len_paren (s : Str) : utf8Len (paren s) = utf8Len s + 2 := by
  have hopen : '('.utf8Size = 1 := by decide
  have hclose : ')'.utf8Size = 1 := by decide
  unfold paren
  simp only [cons_append, utf8Len_cons, utf8Len_append, utf8Len_nil, hopen, hclose]
  omega

/-- There is nothing to trim outside of parentheses. -/
theorem trimmed_paren (s : Str) : Trimmed (paren s) := by
  constructor
  · intro c hc
    obtain rfl : '(' = c := Option.some.inj hc
    decide
  · intro c hc
    unfold paren at hc
    rw [getLast?_concat] at hc
    obtain rfl : ')' = c := Option.some.inj hc
    decide

/-- The parser takes them off again. -/
theorem unwrap_paren (s : Str) : unwrap (paren s) = .ok s := by
  have hstart : stripStart ['('] (paren s) = some (s ++ [')']) := rfl
  have hend : stripEnd [')'] (s ++ [')']) = some s := by
    unfold stripEnd
    simp
  unfold unwrap
  rw [hstart, Option.bind_some, hend]

variable {texts : List Str}

theorem operandFields_ne_nil (flat : Bool) (h : texts ≠ []) : operandFields flat texts ≠ [] := by
  cases flat with
  | true => exact fun hnil => h (map_eq_nil_iff.mp hnil)
  | false => exact cons_ne_nil _ _

theorem exists_paren_of_operandFields {flat : Bool} {f : Str} (h : f ∈ operandFields flat texts) :
    ∃ s, f = paren s := by
  cases flat with
  | true =>
    obtain ⟨t, -, rfl⟩ := mem_map.mp h
    exact ⟨t, rfl⟩
  | false => exact ⟨_, mem_singleton.mp h⟩

theorem plain_name (kind : LeafKind) : ∀ c ∈ kind.name, ruleNesting.Plain c := by
  cases kind <;> exact plain_of_all (by decide)

theorem plain_logicName (op : Logic) : ∀ c ∈ op.name, ruleNesting.Plain c := by
  cases op <;> exact plain_of_all (by decide)

/-! ## Levels of the text -/

theorem level_of_plain (h : ∀ c ∈ s, ruleNesting.Plain c) : ruleNesting.Level 0 s :=
  level_plain fun c hc => ⟨(h c hc).1, (h c hc).2.1⟩

variable {k : Nat}

theorem level_paren (h : ruleNesting.Level k s) :
    ruleNesting.Level (k + 1) (paren s) := h.wrap (by decide)

/-- Side by side, the deeper one counts. -/
theorem level_comma {j : Nat} {t : Str} (hs : ruleNesting.Level j s) (ht : ruleNesting.Level k t) :
    ruleNesting.Level (max j k) (s ++ ',' :: t) := by
  have hcomma : ruleNesting.Level 0 [','] :=
    level_plain (forall_mem_singleton.mpr (by decide))
  have happ := hs.append (hcomma.append ht)
  rwa [Nat.zero_max] at happ

/-- Pieces nest as deep as the parser allows. -/
theorem nested_joinComma {segs : List Str} (hne : segs ≠ [])
    (h : ∀ p ∈ segs, ruleNesting.Piece p) : ruleNesting.Nested 32 (joinComma segs) := by
  have hcomma : ruleNesting.Nested 32 [','] :=
    (level_plain (forall_mem_singleton.mpr (by decide))).toNested.mono
      (Nat.zero_le 32)
  induction segs with
  | nil => exact absurd rfl hne
  | cons s segs ih =>
    obtain ⟨hs, hsegs⟩ := forall_mem_cons.mp h
    have hnested : ruleNesting.Nested 32 s := Piece.nested (by decide) hs
    by_cases hnil : segs = []
    · subst hnil
      rwa [joinComma_singleton]
    · rw [joinComma_cons_of_ne_nil s hnil]
      exact hnested.append (hcomma.append (ih hnil hsegs))

namespace Cond

variable {l : List Cond}

/-- Operands in parentheses are one level deeper. -/
theorem level_operands (hne : l ≠ []) (h : ∀ c ∈ l, ruleNesting.Level c.levels c.text) :
    ruleNesting.Level ((l.map levels).foldr max 0 + 1) (joinComma ((l.map text).map paren)) := by
  induction l with
  | nil => exact absurd rfl hne
  | cons c l ih =>
    obtain ⟨hc, hl⟩ := forall_mem_cons.mp h
    by_cases hnil : l = []
    · subst hnil
      simp only [map_cons, map_nil, joinComma_singleton, foldr_cons, foldr_nil, max_zero]
      exact level_paren hc
    · have hmap : (l.map text).map paren ≠ [] := by simpa using hnil
      simp only [map_cons, foldr_cons]
      rw [joinComma_cons_of_ne_nil _ hmap, ← Nat.add_max_add_right]
      exact level_comma (level_paren hc) (ih hnil hl)

variable {c : Cond}

/-- A list in parentheses of its own is one more. -/
theorem level_operandFields (flat : Bool) (hne : l ≠ [])
    (h : ∀ c ∈ l, ruleNesting.Level c.levels c.text) :
    ruleNesting.Level ((l.map levels).foldr max 0 + if flat then 1 else 2)
      (joinComma (operandFields flat (l.map text))) := by
  have hlevel := level_operands hne h
  cases flat with
  | true => exact hlevel
  | false =>
    show ruleNesting.Level _ (joinComma [_])
    rw [joinComma_singleton]
    exact level_paren hlevel

theorem text_logic (op : Logic) (flat : Bool) (first : Cond) (more : List Cond) :
    (logic op flat first more).text =
      op.name ++ ',' :: joinComma (operandFields flat ((first :: more).map text)) := by
  rw [text, fields_logic]
  exact joinComma_cons_of_ne_nil _ (operandFields_ne_nil flat (cons_ne_nil _ _))

theorem le_foldr_max {f : Cond → Nat} (h : c ∈ l) : f c ≤ (l.map f).foldr max 0 :=
  le_max_of_le (mem_map_of_mem h) (le_refl (f c))

/-- An operand that is not too deep is a piece. -/
theorem piece_operand (hc : c ∈ l) (h : ∀ c ∈ l, ruleNesting.Level c.levels c.text)
    (hk : (l.map levels).foldr max 0 + 1 ≤ 32) : ruleNesting.Piece (paren c.text) := by
  have hle : c.levels ≤ (l.map levels).foldr max 0 := le_foldr_max hc
  refine piece_wrap (by decide) (h c hc).toNested ?_
  show c.levels + 1 ≤ 32
  omega

/-- The text of the tree is within the limits of the parser. -/
structure Fits (c : Cond) : Prop where
  length : utf8Len c.text ≤ 65536
  depth : c.levels ≤ 32

section

variable (h : c.Normal)

include h

/-- A condition starts with its kind, which is no parenthesis. -/
theorem exists_fields : ∃ (kind : Str) (ch : Char) (rest : List Str),
    c.fields = kind :: rest ∧ rest ≠ [] ∧ kind.head? = some ch ∧ ch ≠ '(' ∧
      kind ≠ "MATCH" := by
  induction h with
  | @leaf kind value h =>
    cases kind <;> exact ⟨_, _, [value], rfl, cons_ne_nil _ _, rfl, by decide, by decide⟩
  | @logic op flat first more hnot h ih =>
    have hrest := operandFields_ne_nil flat (cons_ne_nil first.text (more.map text))
    cases op <;> exact ⟨_, _, _, fields_logic _ flat first more, hrest, rfl, by decide, by decide⟩
  | @noResolve c hmarked h ih =>
    obtain ⟨kind, ch, rest, heq, -, hkind⟩ := ih
    refine ⟨kind, ch, rest ++ [noResolveField], ?_, by simp, hkind⟩
    rw [fields_noResolve, heq, cons_append]

theorem fields_ne_nil : c.fields ≠ [] := by
  obtain ⟨kind, ch, rest, heq, -⟩ := exists_fields h
  rw [heq]
  exact cons_ne_nil _ _

theorem head?_text : c.text.head? ≠ some '(' := by
  obtain ⟨kind, ch, rest, heq, hrest, hhead, hch, -⟩ := exists_fields h
  rw [text, heq, joinComma_cons_of_ne_nil _ hrest, head?_append, hhead]
  exact fun hsome => hch (Option.some.inj hsome)

theorem text_noResolve : (noResolve c).text = c.text ++ ',' :: noResolveField := by
  rw [text, fields_noResolve, joinComma_append (fields_ne_nil h) (cons_ne_nil _ _)]
  rfl

/-- How deep the parentheses of the text nest. -/
theorem level_text : ruleNesting.Level c.levels c.text := by
  induction h with
  | @leaf kind value h =>
    rw [text, fields_leaf, joinComma_cons_of_ne_nil _ (cons_ne_nil _ _), joinComma_singleton]
    exact level_comma (level_of_plain (plain_name kind)) (level_of_plain h.plain)
  | @logic op flat first more hnot h ih =>
    rw [text_logic, levels_logic]
    have hjoin := level_comma (level_of_plain (plain_logicName op))
      (level_operandFields flat (cons_ne_nil _ _) ih)
    rwa [Nat.zero_max] at hjoin
  | @noResolve c hmarked h ih =>
    have hmarker : ruleNesting.Level 0 noResolveField :=
      level_of_plain (plain_of_all (by decide))
    rw [text_noResolve h]
    have hjoin := level_comma ih hmarker
    rwa [max_zero] at hjoin

/-- The fields are pieces without blanks around them. -/
theorem piece_fields (hk : c.levels ≤ 32) : ∀ f ∈ c.fields, ruleNesting.Piece f ∧ Trimmed f := by
  have hplain : ∀ {s : Str}, (∀ c ∈ s, ruleNesting.Plain c) → Trimmed s →
      ruleNesting.Piece s ∧ Trimmed s := fun hs htrim => ⟨piece_plain hs, htrim⟩
  induction h with
  | @leaf kind value h =>
    refine forall_mem_cons.mpr ⟨hplain (plain_name kind) ?_, ?_⟩
    · cases kind <;> decide
    · exact forall_mem_singleton.mpr (hplain h.plain h.trimmed)
  | @logic op flat first more hnot h ih =>
    rw [fields_logic]
    rw [levels_logic] at hk
    have hlevel : ∀ c ∈ first :: more, ruleNesting.Level c.levels c.text :=
      fun c hc => level_text (h c hc)
    refine forall_mem_cons.mpr ⟨hplain (plain_logicName op) ?_, fun f hf => ?_⟩
    · cases op <;> decide
    · cases flat with
      | true =>
        obtain ⟨t, ht, rfl⟩ := mem_map.mp hf
        obtain ⟨c, hc, rfl⟩ := mem_map.mp ht
        exact ⟨piece_operand hc hlevel hk, trimmed_paren _⟩
      | false =>
        obtain rfl := mem_singleton.mp hf
        have hall := level_operands (cons_ne_nil first more) hlevel
        exact ⟨piece_wrap (by decide) hall.toNested hk, trimmed_paren _⟩
  | @noResolve c hmarked h ih =>
    refine forall_mem_append.mpr ⟨ih hk, forall_mem_singleton.mpr ?_⟩
    exact hplain (plain_of_all (by decide)) (by decide)

/-- Within the limits of the parser, the text is split into the fields it was written as. -/
theorem fields_text (hfit : c.Fits) : ClashMeta.fields c.text = .ok c.fields :=
  fields_joinComma (fields_ne_nil h) hfit.length (piece_fields h hfit.depth)

end

/-- The operands are no longer than the condition. -/
theorem utf8Len_operands_le (op : Logic) (flat : Bool) (first : Cond) (more : List Cond) :
    utf8Len (joinComma (((first :: more).map text).map paren)) ≤
      utf8Len (logic op flat first more).text := by
  rw [text_logic, utf8Len_append, utf8Len_cons]
  cases flat with
  | true =>
    show _ ≤ _ + (_ + utf8Len (joinComma (((first :: more).map text).map paren)))
    omega
  | false =>
    have hlist : joinComma (operandFields false ((first :: more).map text)) =
        paren (joinComma (((first :: more).map text).map paren)) := joinComma_singleton _
    rw [hlist, utf8Len_paren]
    omega

variable {flat : Bool} {first : Cond} {more : List Cond} {op : Logic}

theorem Fits.operands (h : (logic op flat first more).Fits) :
    utf8Len (joinComma (((first :: more).map text).map paren)) ≤ 65536 ∧
      ((first :: more).map levels).foldr max 0 + 1 ≤ 32 := by
  refine ⟨(utf8Len_operands_le op flat first more).trans h.length, ?_⟩
  have hdepth := h.depth
  rw [levels_logic] at hdepth
  split at hdepth <;> omega

/-- So each of them fits. -/
theorem Fits.operand (h : (logic op flat first more).Fits) (hc : c ∈ first :: more) : c.Fits := by
  obtain ⟨hlen, hdepth⟩ := h.operands
  have hclevels : c.levels ≤ ((first :: more).map levels).foldr max 0 := le_foldr_max hc
  have hmem : paren c.text ∈ ((first :: more).map text).map paren :=
    mem_map_of_mem (mem_map_of_mem hc)
  have hle := utf8Len_le_joinComma hmem
  rw [utf8Len_paren] at hle
  exact ⟨by omega, by omega⟩

theorem Fits.inner (hc : c.Normal) (h : (noResolve c).Fits) : c.Fits := by
  have hlen := h.length
  rw [text_noResolve hc, utf8Len_append] at hlen
  exact ⟨by omega, h.depth⟩

/-- Only a marked condition ends with the marker. -/
theorem getLast?_fields (h : c.Normal) (hm : c.marked = false) :
    c.fields.getLast? ≠ some noResolveField := by
  cases h with
  | @leaf kind value h =>
    exact fun hlast => h.ne_marker (Option.some.inj hlast)
  | @logic op flat first more hnot h =>
    intro hlast
    rw [fields_logic] at hlast
    have hne : operandFields flat ((first :: more).map text) ≠ [] :=
      operandFields_ne_nil flat (cons_ne_nil _ _)
    rw [getLast?_cons_of_ne_nil hne] at hlast
    obtain ⟨s, hs⟩ := exists_paren_of_operandFields (mem_of_getLast? hlast)
    exact absurd hs (by unfold paren; exact fun heq => (by cases heq))
  | noResolve hmarked h => cases hm

end Cond

end ClashMeta
