import ClashMeta.Config.Parse
import ClashMeta.Lib.Nesting

/-!
# What rules are read from

The parser of rules (config/src/rule.rs:116-331) by what it accepts, without its loops.
-/

namespace ClashMeta

open List
open Except hiding map_id

/-! ## Fields are pieces -/

/-- Parentheses and commas in rules. -/
def ruleNesting : Nesting Char := ⟨'(', ')', ',', 32⟩

theorem joinComma_cons (s : Str) (more : List Str) :
    joinComma (s :: more) = s ++ more.flatMap (',' :: ·) := by
  unfold joinComma
  induction more generalizing s with
  | nil => simp
  | cons t more ih =>
    rw [intercalate_cons_cons, ih t]
    simp

/-- Two lists of fields, joined by one more comma. -/
theorem joinComma_append {l r : List Str} (hl : l ≠ []) (hr : r ≠ []) :
    joinComma (l ++ r) = joinComma l ++ ',' :: joinComma r := by
  obtain ⟨s, more, rfl⟩ := exists_cons_of_ne_nil hl
  obtain ⟨t, rest, rfl⟩ := exists_cons_of_ne_nil hr
  rw [cons_append, joinComma_cons, joinComma_cons, joinComma_cons]
  simp

theorem depthAfter_cons (depth : Nat) (c : Char) (rest : Str) :
    ruleNesting.depthAfter depth (c :: rest) =
      if c = '(' then if depth + 1 ≤ 32 then ruleNesting.depthAfter (depth + 1) rest else none
      else if c = ')' then if 0 < depth then ruleNesting.depthAfter (depth - 1) rest else none
      else if c = ',' ∧ depth = 0 then none
      else ruleNesting.depthAfter depth rest := rfl

variable {s raw t : Str}

theorem plain_of_blank (h : Blank s) : ∀ c ∈ s, ruleNesting.Plain c := by
  intro c hc
  refine ⟨?_, ?_, ?_⟩ <;>
  · rintro rfl
    exact absurd (h _ hc) (by decide)

/-- Blanks around a field make no difference. -/
theorem piece_trim_iff : ruleNesting.Piece (trim s) ↔ ruleNesting.Piece s := by
  obtain ⟨a, b, ha, hb, hs⟩ := exists_pad s
  conv_rhs => rw [hs]
  exact (Nesting.piece_pad_iff (plain_of_blank ha) (plain_of_blank hb)).symm

/-- The loop reads a text without a counting comma into its buffer. -/
theorem fieldsLoop_append {depth d : Nat} (text rest : Str)
    (h : ruleNesting.depthAfter depth s = some d) :
    fieldsLoop depth text (s ++ rest) = fieldsLoop d (text ++ s) rest := by
  induction s generalizing depth text with
  | nil =>
    cases h
    simp
  | cons c s ih =>
    rw [cons_append, fieldsLoop]
    rw [depthAfter_cons] at h
    have htext : text ++ c :: s = text ++ [c] ++ s := by simp
    rw [htext]
    by_cases hopen : c = '('
    · rw [if_pos hopen] at h ⊢
      split at h
      · rename_i hle
        rw [ensure_of hle]
        exact ih _ h
      · cases h
    · rw [if_neg hopen] at h ⊢
      by_cases hclose : c = ')'
      · rw [if_pos hclose] at h ⊢
        split at h
        · rename_i hpos
          rw [ensure_of hpos]
          exact ih _ h
        · cases h
      · rw [if_neg hclose] at h ⊢
        by_cases hsep : c = ',' ∧ depth = 0
        · rw [if_pos hsep] at h
          cases h
        · rw [if_neg hsep] at h ⊢
          exact ih _ h

variable {fs f : List Str}

/-- **What the loop accepts** are pieces with commas between them. -/
theorem fieldsLoop_sound {depth : Nat} {text rest : Str} (h : fieldsLoop depth text rest = .ok fs) :
    ∃ (s : Str) (more : List Str), rest = s ++ more.flatMap (',' :: ·) ∧
      ruleNesting.depthAfter depth s = some 0 ∧
      (∀ p ∈ more, ruleNesting.Piece p) ∧ fs = trim (text ++ s) :: more.map trim := by
  induction rest generalizing depth text fs with
  | nil =>
    rw [fieldsLoop, ensure_bind_eq_ok_iff] at h
    obtain ⟨rfl, h⟩ := h
    cases h
    exact ⟨[], [], rfl, rfl, nofun, by rw [append_nil]; rfl⟩
  | cons c rest ih =>
    have hstep : ∀ {d : Nat}, ruleNesting.depthAfter depth [c] = some d →
        fieldsLoop d (text ++ [c]) rest = .ok fs →
        ∃ (s : Str) (more : List Str), c :: rest = s ++ more.flatMap (',' :: ·) ∧
          ruleNesting.depthAfter depth s = some 0 ∧ (∀ p ∈ more, ruleNesting.Piece p) ∧
          fs = trim (text ++ s) :: more.map trim := by
      intro d hd hrest
      obtain ⟨s, more, rfl, hs, hmore, rfl⟩ := ih hrest
      refine ⟨c :: s, more, rfl, ?_, hmore, by rw [append_assoc]; rfl⟩
      rw [show c :: s = [c] ++ s from rfl, Nesting.depthAfter_append, hd]
      exact hs
    rw [fieldsLoop] at h
    split at h
    · rename_i hopen
      obtain ⟨hle, h⟩ := ensure_bind_eq_ok_iff.mp h
      exact hstep (by rw [depthAfter_cons, if_pos hopen, if_pos hle]; rfl) h
    split at h
    · rename_i hopen hclose
      obtain ⟨hpos, h⟩ := ensure_bind_eq_ok_iff.mp h
      exact hstep (by rw [depthAfter_cons, if_neg hopen, if_pos hclose, if_pos hpos]; rfl) h
    split at h
    · -- a comma that counts closes the first piece
      rename_i hsep
      obtain ⟨rfl, rfl⟩ := hsep
      obtain ⟨out, hout, h⟩ := bind_eq_ok_iff.mp h
      cases h
      obtain ⟨s, more, rfl, hs, hmore, rfl⟩ := ih hout
      refine ⟨[], s :: more, by simp, rfl, ?_, by simp⟩
      exact forall_mem_cons.mpr ⟨hs, hmore⟩
    · rename_i hopen hclose hsep
      exact hstep (by rw [depthAfter_cons, if_neg hopen, if_neg hclose, if_neg hsep]; rfl) h

/-- **What it does to pieces**, by induction on them. -/
theorem fieldsLoop_joinComma_append {init : List Str} (rest : Str) (hne : init ≠ [])
    (hinit : ∀ p ∈ init, ruleNesting.Piece p) :
    fieldsLoop 0 [] (joinComma init ++ ',' :: rest) =
      (init.map trim ++ ·) <$> fieldsLoop 0 [] rest := by
  induction init with
  | nil => exact absurd rfl hne
  | cons s more ih =>
    obtain ⟨hs, hmore⟩ := forall_mem_cons.mp hinit
    have hcomma : ∀ rest : Str, fieldsLoop 0 [] (s ++ ',' :: rest) =
        (trim s :: ·) <$> fieldsLoop 0 [] rest := by
      intro rest
      rw [fieldsLoop_append [] _ hs, nil_append, fieldsLoop, if_neg (by decide),
        if_neg (by decide), if_pos ⟨rfl, rfl⟩]
      rfl
    cases more with
    | nil =>
      rw [joinComma_cons, flatMap_nil, append_nil, hcomma]
      rfl
    | cons t more =>
      rw [show s :: t :: more = [s] ++ t :: more from rfl,
        joinComma_append (by simp) (by simp), append_assoc, cons_append,
        joinComma_cons s [], flatMap_nil, append_nil, hcomma, ih (by simp) hmore]
      cases fieldsLoop 0 [] rest <;> rfl

/-- **The fields of a rule** are the trimmed pieces between the commas outside all
parentheses. -/
theorem fields_eq_ok_iff :
    fields raw = .ok fs ↔ utf8Len raw ≤ 65536 ∧ ∃ segs, segs ≠ [] ∧ raw = joinComma segs ∧
      (∀ p ∈ segs, ruleNesting.Piece p) ∧ fs = segs.map trim := by
  unfold fields
  rw [ensure_bind_eq_ok_iff]
  refine and_congr_right fun _ => ?_
  constructor
  · intro h
    obtain ⟨s, more, rfl, hs, hmore, rfl⟩ := fieldsLoop_sound h
    exact ⟨s :: more, by simp, (joinComma_cons s more).symm,
      forall_mem_cons.mpr ⟨hs, hmore⟩, rfl⟩
  · rintro ⟨segs, hne, rfl, hsegs, rfl⟩
    obtain ⟨init, last, hsplit⟩ := (eq_nil_or_concat segs).resolve_left hne
    rw [concat_eq_append] at hsplit
    subst hsplit
    have hlast : ruleNesting.Piece last := hsegs last (by simp)
    have hend : fieldsLoop 0 [] last = .ok [trim last] := by
      have happ := fieldsLoop_append [] [] hlast
      rw [append_nil] at happ
      rw [happ]
      rfl
    by_cases hinit : init = []
    · subst hinit
      rw [nil_append, joinComma_cons, flatMap_nil, append_nil]
      exact hend
    · rw [joinComma_append hinit (by simp),
        fieldsLoop_joinComma_append _ hinit (fun p hp => hsegs p (by simp [hp]))]
      rw [joinComma_cons, flatMap_nil, append_nil, hend, map_append]
      rfl

/-- Fields joined again are read as themselves. -/
theorem fields_joinComma (hne : fs ≠ []) (hlen : utf8Len (joinComma fs) ≤ 65536)
    (hfs : ∀ p ∈ fs, ruleNesting.Piece p ∧ Trimmed p) : fields (joinComma fs) = .ok fs := by
  refine fields_eq_ok_iff.mpr ⟨hlen, fs, hne, rfl, fun p hp => (hfs p hp).1, ?_⟩
  have htrim : fs.map trim = fs.map id :=
    map_congr_left fun p hp => trim_of_trimmed (hfs p hp).2
  rw [htrim, map_id]

/-! ## A further field is never overlooked -/

theorem unmark_snoc_of_ne (h : t ≠ noResolveField) : unmark (f ++ [t]) = f ++ [t] := by
  unfold unmark
  rw [getLast?_concat, if_neg (fun he => h (Option.some.inj he))]

theorem unmark_snoc_noResolveField (f : List Str) : unmark (f ++ [noResolveField]) = f := by
  unfold unmark
  rw [getLast?_concat, if_pos rfl, dropLast_concat]

/-- The marker field of a rule, if it has one. -/
def markField (noResolve : Bool) : List Str := if noResolve then [noResolveField] else []

/-- The last field is the marker or stays. -/
theorem unmark_cases (f : List Str) :
    f.getLast? ≠ some noResolveField ∧ unmark f = f ∨ f = unmark f ++ [noResolveField] := by
  by_cases h : f.getLast? = some noResolveField
  · refine .inr ?_
    obtain ⟨init, rfl⟩ := getLast?_eq_some_iff.mp h
    rw [unmark_snoc_noResolveField]
  · exact .inl ⟨h, if_neg h⟩

theorem parts_of_ne_nil {text : Str} {more : List Str} (h : more ≠ []) :
    Logic.parts text more = .ok (text :: more) := by
  cases more with
  | nil => exact absurd rfl h
  | cons part more => rfl

theorem unwrap_noResolveField (inner : Str) : unwrap noResolveField ≠ .ok inner := by
  exact nofun

variable {operand : Str → Except String Matcher}

/-- Each of the operands is in parentheses, and is read. -/
theorem unwrap_of_mapM {parts : List Str} {nodes : List Matcher} (part : Str)
    (h : (parts.mapM fun part => do operand (← unwrap part)) = .ok nodes) (hpart : part ∈ parts) :
    ∃ inner m, unwrap part = .ok inner ∧ operand inner = .ok m := by
  obtain ⟨m, -, hm⟩ := exists_of_mapM_eq_ok h hpart
  obtain ⟨inner, hinner, hm⟩ := bind_eq_ok_iff.mp hm
  exact ⟨inner, m, hinner, hm⟩

variable [RuleText]

variable {m : Matcher}

/-- What a condition that was read consists of: a kind with one value, or a logical kind
with its operands. -/
theorem parseFields_eq_ok (h : parseFields operand f = .ok m) :
    ∃ kind text more, f = kind :: text :: more ∧
      (Logic.ofKind kind = none ∧ more = [] ∧ parseLeaf kind text = .ok m ∨
        ∃ logic parts nodes, Logic.ofKind kind = some logic ∧
          Logic.parts text more = .ok parts ∧
          (parts.mapM fun part => do operand (← unwrap part)) = .ok nodes ∧
          logic.build nodes = .ok m) := by
  match f, h with
  | kind :: text :: more, h =>
    refine ⟨kind, text, more, rfl, ?_⟩
    obtain ⟨hlogic, h⟩ := ensure_bind_eq_ok_iff.mp h
    obtain ⟨-, h⟩ := ensure_bind_eq_ok_iff.mp h
    cases hkind : Logic.ofKind kind with
    | none =>
      rw [hkind] at hlogic h
      exact .inl ⟨rfl, hlogic.resolve_left (by decide), h⟩
    | some logic =>
      rw [hkind] at h
      obtain ⟨parts, hparts, h⟩ := bind_eq_ok_iff.mp h
      obtain ⟨-, h⟩ := ensure_bind_eq_ok_iff.mp h
      obtain ⟨nodes, hnodes, h⟩ := bind_eq_ok_iff.mp h
      exact .inr ⟨logic, parts, nodes, rfl, hparts, hnodes, h⟩

theorem two_le_of_parseFields (h : parseFields operand f = .ok m) : 2 ≤ f.length := by
  obtain ⟨kind, text, more, rfl, -⟩ := parseFields_eq_ok h
  simp

/-- No kind starts with a parenthesis. -/
theorem parseFields_paren {kind : Str}
    (h : kind.head? = some '(') (m : Matcher) : parseFields operand (kind :: f) ≠ .ok m := by
  have hne : ∀ name : Str, name.head? ≠ some '(' → kind ≠ name := by
    rintro name hname rfl
    exact hname h
  have hlogic : Logic.ofKind kind = none := by
    unfold Logic.ofKind
    rw [if_neg (hne _ (by decide)), if_neg (hne _ (by decide)), if_neg (hne _ (by decide))]
  have hleaf : ∀ text, parseLeaf kind text =
      .error ("unsupported rule type " ++ String.ofList kind) := by
    intro text
    unfold parseLeaf
    simp only [hne _ (show ("DOMAIN".toList).head? ≠ _ by decide),
      hne _ (show ("DOMAIN-SUFFIX".toList).head? ≠ _ by decide),
      hne _ (show ("DOMAIN-KEYWORD".toList).head? ≠ _ by decide),
      hne _ (show ("DOMAIN-REGEX".toList).head? ≠ _ by decide),
      hne _ (show ("IP-CIDR".toList).head? ≠ _ by decide),
      hne _ (show ("IP-CIDR6".toList).head? ≠ _ by decide),
      hne _ (show ("GEOIP".toList).head? ≠ _ by decide),
      hne _ (show ("GEOSITE".toList).head? ≠ _ by decide),
      hne _ (show ("RULE-SET".toList).head? ≠ _ by decide),
      hne _ (show ("DST-PORT".toList).head? ≠ _ by decide),
      hne _ (show ("NETWORK".toList).head? ≠ _ by decide), if_false, or_self]
  intro hok
  obtain ⟨_, text, more, heq, ⟨-, -, hm⟩ | ⟨logic, -, -, hsome, -⟩⟩ := parseFields_eq_ok hok
  · cases heq
    exact nomatch (hleaf text).symm.trans hm
  · cases heq
    exact nomatch hlogic.symm.trans hsome

variable {levels : Nat}

/-- So no condition does. -/
theorem parseDepth_paren (h : raw.head? = some '(') (m : Matcher) :
    parseDepth levels raw ≠ .ok m := by
  intro hok
  cases levels with
  | zero => cases hok
  | succ levels =>
    obtain ⟨fs, hfs, hok⟩ := bind_eq_ok_iff.mp hok
    obtain ⟨m', hm', -⟩ := bind_eq_ok_iff.mp hok
    obtain ⟨-, segs, hne, rfl, -, rfl⟩ := fields_eq_ok_iff.mp hfs
    obtain ⟨s, more, rfl⟩ := exists_cons_of_ne_nil hne
    rw [joinComma_cons] at h
    have hs : s.head? = some '(' := by
      cases s with
      | nil => cases more <;> simp at h
      | cons c s => exact h
    have hhead := head?_trim hs (by decide)
    rw [map_cons] at hm'
    rcases unmark_cases (trim s :: more.map trim) with ⟨-, hun⟩ | hun
    · rw [hun] at hm'
      exact parseFields_paren hhead m' hm'
    · -- with the marker alone there is no value
      cases hrest : unmark (trim s :: more.map trim) with
      | nil =>
        rw [hrest] at hm'
        cases hm'
      | cons kind f =>
        rw [hrest] at hun hm'
        rw [cons_append, List.cons.injEq] at hun
        rw [hun.1] at hhead
        exact parseFields_paren hhead m' hm'

/-- The marker is not an operand. -/
theorem parseFields_noResolveField {more : List Str} (hf : 2 ≤ f.length) (m : Matcher) :
    parseFields operand (f ++ noResolveField :: more) ≠ .ok m := by
  intro hok
  match f, hf with
  | kind :: text :: parts, _ =>
    have hne : parts ++ noResolveField :: more ≠ [] := by simp
    obtain ⟨_, _, _, heq, ⟨-, hnil, -⟩ | ⟨logic, all, nodes, -, hall, hnodes, -⟩⟩ :=
      parseFields_eq_ok hok
    · cases heq
      exact hne hnil
    · cases heq
      rw [append_eq, parts_of_ne_nil hne] at hall
      cases hall
      obtain ⟨inner, -, hinner, -⟩ := unwrap_of_mapM noResolveField hnodes (by simp)
      exact unwrap_noResolveField inner hinner

omit [RuleText] in
/-- An operand more makes another matcher. -/
theorem build_snoc_ne {logic : Logic} {nodes : List Matcher} {x : Matcher}
    (h : logic.build nodes = .ok m) : logic.build (nodes ++ [x]) ≠ .ok m := by
  intro h'
  cases logic with
  | and =>
    cases h
    have hlen := congrArg List.length (Matcher.and.inj (Except.ok.inj h'))
    simp at hlen
  | or =>
    cases h
    have hlen := congrArg List.length (Matcher.or.inj (Except.ok.inj h'))
    simp at hlen
  | not =>
    match nodes, h with
    | [n], _ => cases h'

/-- The same without the marker. -/
theorem parseFields_snoc_ne (h : parseFields (parseDepth levels) f = .ok m) :
    parseFields (parseDepth levels) (f ++ [t]) ≠ .ok m := by
  intro h'
  obtain ⟨kind, text, more, rfl, hcases⟩ := parseFields_eq_ok h
  obtain ⟨_, _, _, heq, ⟨-, hnil, -⟩ | ⟨logic, parts', nodes', hkind, hparts', hnodes', hm'⟩⟩ :=
    parseFields_eq_ok h'
  · cases heq
    exact absurd hnil (by simp)
  cases heq
  rw [append_eq, parts_of_ne_nil (by simp)] at hparts'
  cases hparts'
  obtain ⟨hnone, -⟩ | ⟨logic', parts, nodes, hkind', hparts, hnodes, hm⟩ := hcases
  · exact nomatch hnone.symm.trans hkind
  cases hkind.symm.trans hkind'
  -- a list in parentheses of its own is not an operand, so the operands were the fields
  have hsame : parts = text :: more := by
    cases more with
    | cons part more =>
      cases hparts
      rfl
    | nil =>
      obtain ⟨inner, hinner, hparts⟩ := bind_eq_ok_iff.mp hparts
      split at hparts
      · rename_i hhead
        obtain ⟨inner', m', hunwrap, hm'⟩ :=
          unwrap_of_mapM text hnodes' mem_cons_self
        cases hinner.symm.trans hunwrap
        exact absurd hm' (parseDepth_paren hhead m')
      · cases hparts
        rfl
  subst hsame
  rw [show text :: (more ++ [t]) = (text :: more) ++ [t] from rfl, mapM_append] at hnodes'
  obtain ⟨nodes₁, h₁, hnodes'⟩ := bind_eq_ok_iff.mp hnodes'
  obtain ⟨nodes₂, h₂, hnodes'⟩ := bind_eq_ok_iff.mp hnodes'
  cases hnodes.symm.trans h₁
  cases hnodes'
  obtain ⟨x, rfl⟩ : ∃ x, nodes₂ = [x] := by
    have hlen := (mapM_eq_ok_iff.mp h₂).length_eq
    match nodes₂, hlen with
    | [x], _ => exact ⟨x, rfl⟩
  exact build_snoc_ne hm hm'

/-- **A condition with a further field** is refused or read as another matcher. -/
theorem parseDepth_snoc_ne {raw' : Str} (hf : fields raw = .ok f)
    (hf' : fields raw' = .ok (f ++ [t])) (h : parseDepth levels raw = .ok m) :
    parseDepth levels raw' ≠ .ok m := by
  intro h'
  cases levels with
  | zero => cases h
  | succ levels =>
    obtain ⟨_, hfields, h⟩ := bind_eq_ok_iff.mp h
    cases hf.symm.trans hfields
    obtain ⟨_, hfields', h'⟩ := bind_eq_ok_iff.mp h'
    cases hf'.symm.trans hfields'
    obtain ⟨m₀, hm₀, h⟩ := bind_eq_ok_iff.mp h
    obtain ⟨m₁, hm₁, h'⟩ := bind_eq_ok_iff.mp h'
    have hm : (if f.getLast? = some noResolveField then Matcher.noResolve m₀ else m₀) = m :=
      Except.ok.inj h
    have hm' : (if (f ++ [t]).getLast? = some noResolveField then Matcher.noResolve m₁ else m₁) =
        m := Except.ok.inj h'
    rw [getLast?_concat] at hm'
    by_cases ht : t = noResolveField
    · subst ht
      rw [unmark_snoc_noResolveField] at hm₁
      rcases unmark_cases f with ⟨hlast, hun⟩ | hun
      · -- the new field is a marker: the same condition, now marked
        rw [if_neg hlast] at hm
        rw [hun, hm₁] at hm₀
        cases hm₀
        rw [hm] at hm'
        have hsize := congrArg sizeOf hm'
        simp at hsize
      · rw [hun] at hm₁
        exact parseFields_noResolveField (two_le_of_parseFields hm₀) m₁ hm₁
    · rw [unmark_snoc_of_ne ht] at hm₁
      rw [if_neg (fun he => ht (Option.some.inj he))] at hm'
      rcases unmark_cases f with ⟨hlast, hun⟩ | hun
      · rw [if_neg hlast] at hm
        rw [hun] at hm₀
        rw [hm] at hm₀
        rw [hm'] at hm₁
        exact parseFields_snoc_ne hm₀ hm₁
      · rw [hun, append_assoc] at hm₁
        exact parseFields_noResolveField (two_le_of_parseFields hm₀) m₁ hm₁

/-- The fields before the target together with a further one are no longer the condition of
the same matcher. -/
theorem parseMatcher_snoc_ne (hne : f ≠ []) (hf : ∀ p ∈ f ++ [t], ruleNesting.Piece p ∧ Trimmed p)
    (h : parseMatcher f = .ok m) : parseMatcher (f ++ [t]) ≠ .ok m := by
  intro h'
  unfold parseMatcher at h h'
  rw [head?_append_of_ne_nil _ hne] at h'
  split at h
  · rename_i hmatch
    rw [if_pos hmatch] at h'
    obtain ⟨hlen, -⟩ := ensure_bind_eq_ok_iff.mp h'
    have hpos := length_pos_iff.mpr hne
    rw [length_append, length_singleton] at hlen
    omega
  · rename_i hmatch
    rw [if_neg hmatch] at h'
    have hread : ∀ {f : List Str} {m : Matcher}, f ≠ [] →
        (∀ p ∈ f, ruleNesting.Piece p ∧ Trimmed p) → parseCondition (joinComma f) = .ok m →
        fields (joinComma f) = .ok f := by
      intro f m hne hf hok
      obtain ⟨fs, hfs, -⟩ := bind_eq_ok_iff.mp hok
      exact fields_joinComma hne (fields_eq_ok_iff.mp hfs).1 hf
    have hfields := hread hne (fun p hp => hf p (mem_append_left _ hp)) h
    have hfields' := hread (by simp) hf h'
    exact parseDepth_snoc_ne hfields hfields' h h'

/-- **What a rule is read from**: the fields of its condition, its target and the marker. -/
theorem Rule.parse_eq_ok_iff {r : Rule} :
    Rule.parse raw = .ok r ↔ ∃ f, fields raw = .ok (f ++ [r.target] ++ markField r.noResolve) ∧
      f ≠ [] ∧ r.target ≠ [] ∧ (r.noResolve = false → r.target ≠ noResolveField) ∧
      parseMatcher f = .ok r.matcher := by
  constructor
  · intro h
    obtain ⟨fs, hfs, h⟩ := bind_eq_ok_iff.mp h
    obtain ⟨-, h⟩ := ensure_bind_eq_ok_iff.mp h
    obtain ⟨hlen, h⟩ := ensure_bind_eq_ok_iff.mp h
    obtain ⟨htarget, h⟩ := ensure_bind_eq_ok_iff.mp h
    obtain ⟨m, hm, h⟩ := bind_eq_ok_iff.mp h
    cases h
    have hne : unmark fs ≠ [] := by
      intro hnil
      rw [hnil] at hlen
      exact absurd hlen (by decide)
    -- the target is the last field but the marker
    have hsplit : (unmark fs).dropLast ++ [(unmark fs).getLast?.getD []] = unmark fs := by
      rw [getLast?_eq_getLast_of_ne_nil hne]
      exact dropLast_append_getLast hne
    have hinit : (unmark fs).dropLast ≠ [] := by
      intro hnil
      have hone := congrArg List.length hnil
      rw [length_dropLast, length_nil] at hone
      omega
    refine ⟨(unmark fs).dropLast, ?_, hinit, htarget, ?_, hm⟩
    · rw [hsplit, hfs]
      rcases unmark_cases fs with ⟨hlast, hun⟩ | hun
      · simp [markField, hlast, hun]
      · have hlast : fs.getLast? = some noResolveField := by
          rw [hun, getLast?_concat]
        simp [markField, hlast, ← hun]
    · intro hmark heq
      change (unmark fs).getLast?.getD [] = noResolveField at heq
      rcases unmark_cases fs with ⟨hlast, hun⟩ | hun
      · rw [hun] at heq hsplit
        rw [← hsplit, heq, getLast?_concat] at hlast
        exact hlast rfl
      · rw [hun] at hmark
        simp at hmark
  · rintro ⟨f, hfields, hne, htarget, hmark, hm⟩
    have hpos := length_pos_iff.mpr hne
    obtain ⟨matcher, target, noResolve⟩ := r
    have hread : unmark (f ++ [target] ++ markField noResolve) = f ++ [target] ∧
        ((f ++ [target] ++ markField noResolve).getLast? = some noResolveField ↔
          noResolve = true) := by
      cases noResolve with
      | true => exact ⟨unmark_snoc_noResolveField _, iff_of_true getLast?_concat rfl⟩
      | false =>
        have hne : target ≠ noResolveField := hmark rfl
        rw [show markField false = [] from rfl, append_nil, getLast?_concat]
        exact ⟨unmark_snoc_of_ne hne,
          iff_of_false (fun he => hne (Option.some.inj he)) (by decide)⟩
    have hdec : decide ((f ++ [target] ++ markField noResolve).getLast? = some noResolveField) =
        noResolve := by
      rw [Bool.eq_iff_iff, decide_eq_true_iff]
      exact hread.2
    refine bind_eq_ok_iff.mpr ⟨_, hfields, ensure_bind_eq_ok_iff.mpr ⟨?_, ?_⟩⟩
    · simp only [length_append, length_singleton]
      omega
    · show (ensure (2 ≤ (unmark (f ++ [target] ++ markField noResolve)).length) _ >>= _) = _
      rw [hread.1, hdec]
      refine ensure_bind_eq_ok_iff.mpr
        ⟨by rw [length_append, length_singleton]; omega, ?_⟩
      rw [getLast?_concat, dropLast_concat]
      refine ensure_bind_eq_ok_iff.mpr ⟨htarget, ?_⟩
      exact bind_eq_ok_iff.mpr ⟨matcher, hm, rfl⟩

end ClashMeta
