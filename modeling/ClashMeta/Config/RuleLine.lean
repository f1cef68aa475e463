import ClashMeta.Config.Fields

/-!
# The text of a rule line

A rule's text is its condition, its target between blanks and, behind a comma, the marker
between blanks (`exists_ruleLine`). A line that keeps the condition and puts `REJECT` in
the target's place, with `x` of the old text before it, is read

- as the same rule with the target `REJECT` when `x` is empty: `parse_rewritten`;
- never as that rule when it is not: `parse_rewritten_ne`.
-/

namespace ClashMeta

open List Nesting

/-- The target of a rule that goes nowhere. -/
def rejectName : Str := "REJECT"

/-- The text of the marker behind the target of a rule. -/
def markText (noResolve : Bool) : Str := if noResolve then ",no-resolve" else []

/-! ## The text of a rule -/

/-- What stands behind the target and its blanks: nothing, or the marker between blanks. -/
inductive RuleTail : Bool → Str → Prop
  | unmarked : RuleTail false []
  | marked {c d : Str} (hc : Blank c) (hd : Blank d) :
    RuleTail true (',' :: (c ++ noResolveField ++ d))

theorem utf8Len_markText :
    utf8Len (markText true) = (',' : Char).utf8Size + utf8Len noResolveField := by decide

namespace RuleTail

variable {noResolve : Bool} {tail : Str}

theorem le_utf8Len (h : RuleTail noResolve tail) : utf8Len (markText noResolve) ≤ utf8Len tail := by
  cases h with
  | unmarked => exact le_rfl
  | marked hc hd =>
    have hmark := utf8Len_markText
    simp only [utf8Len_cons, utf8Len_append]
    omega

theorem eq_of_utf8Len (h : RuleTail noResolve tail)
    (hlen : utf8Len tail = utf8Len (markText noResolve)) : tail = markText noResolve := by
  cases h with
  | unmarked => rfl
  | @marked c d hc hd =>
    have hmark := utf8Len_markText
    simp only [utf8Len_cons, utf8Len_append] at hlen
    have hc0 : c = [] := utf8Len_eq_zero_iff.mp (by omega)
    have hd0 : d = [] := utf8Len_eq_zero_iff.mp (by omega)
    subst hc0 hd0
    rfl

end RuleTail

theorem eq_nil_of_append_eq {u b x w : Str} {c : Char} (h : u ++ b = x ++ w) (hb : Blank b)
    (hlast : w.getLast? = some c) (hc : isWhitespace c = false) : b = [] := by
  cases hrev : b.getLast? with
  | none => exact getLast?_eq_none_iff.mp hrev
  | some d =>
    have hd : (u ++ b).getLast? = some d := by rw [getLast?_append, hrev]; rfl
    rw [h, getLast?_append, hlast] at hd
    cases hd
    have hblank := hb c (mem_of_getLast? hrev)
    rw [hc] at hblank
    cases hblank

section

variable [RuleText] {raw : Str} {r r' : Rule}

/-- The text of a rule: the condition's pieces, blanks, the target, blanks and the tail. -/
structure RuleLine (raw : Str) (r : Rule) (pieces : List Str) (a b tail : Str) : Prop where
  pieces_ne : pieces ≠ []
  pieces_ok : ∀ p ∈ pieces, ruleNesting.Piece p
  matcher_ok : parseMatcher (pieces.map trim) = .ok r.matcher
  blank_before : Blank a
  target_ne : r.target ≠ []
  target_piece : ruleNesting.Piece r.target
  target_trimmed : Trimmed r.target
  unmarked : r.noResolve = false → r.target ≠ noResolveField
  blank_behind : Blank b
  tail_ok : RuleTail r.noResolve tail
  text_eq : raw = joinComma pieces ++ ',' :: (a ++ (r.target ++ (b ++ tail)))
  short : utf8Len raw ≤ 65536

theorem exists_ruleLine (h : Rule.parse raw = .ok r) :
    ∃ pieces a b tail, RuleLine raw r pieces a b tail := by
  obtain ⟨f, hfields, hne, htarget, hmark, hm⟩ := Rule.parse_eq_ok_iff.mp h
  obtain ⟨hshort, segs, hsegs, rfl, hpieces, hmap⟩ := fields_eq_ok_iff.mp hfields
  obtain ⟨front, ends, rfl, hfront, hends⟩ := map_eq_append_iff.mp hmap.symm
  obtain ⟨pieces, last, rfl, rfl, hlast⟩ := map_eq_append_iff.mp hfront
  obtain ⟨field, rest, rfl, hfield, hrest⟩ := map_eq_cons_iff.mp hlast
  obtain rfl : rest = [] := map_eq_nil_iff.mp hrest
  have hpieces_ne : pieces ≠ [] := fun hnil => hne (by rw [hnil]; rfl)
  obtain ⟨a, b, ha, hb, hpad⟩ := exists_pad field
  rw [hfield] at hpad
  have hpiece : ruleNesting.Piece field := hpieces field (by simp)
  -- the marker is the last field, or there is none
  have htail : ∃ tail, RuleTail r.noResolve tail ∧
      joinComma ([field] ++ ends) = field ++ tail := by
    cases hnr : r.noResolve with
    | false =>
      rw [hnr] at hends
      obtain rfl : ends = [] := map_eq_nil_iff.mp hends
      exact ⟨[], .unmarked, by rw [append_nil]; rfl⟩
    | true =>
      rw [hnr] at hends
      obtain ⟨mark, more, rfl, hmark, hmore⟩ := map_eq_cons_iff.mp hends
      obtain rfl : more = [] := map_eq_nil_iff.mp hmore
      obtain ⟨c, d, hc, hd, hmarkpad⟩ := exists_pad mark
      rw [hmark] at hmarkpad
      refine ⟨_, .marked hc hd, ?_⟩
      rw [singleton_append, joinComma_cons, flatMap_singleton, ← hmarkpad]
  obtain ⟨tail, htail, hjoin⟩ := htail
  refine ⟨pieces, a, b, tail, hpieces_ne, fun p hp => hpieces p (by simp [hp]), hm, ha, htarget,
    ?_, ?_, hmark, hb, htail, ?_, hshort⟩
  · rw [← hfield]
    exact piece_trim_iff.mpr hpiece
  · rw [← hfield]
    exact trimmed_trim field
  · rw [append_assoc, joinComma_append hpieces_ne (by simp), hjoin, hpad]
    simp

/-! ## The line with another target -/

/-- The new line: what was kept of the old one from its target on, `REJECT` and the marker. -/
def rewritten (pieces : List Str) (a x : Str) (noResolve : Bool) : Str :=
  joinComma pieces ++ ',' :: (a ++ x ++ rejectName ++ markText noResolve)

omit [RuleText] in
theorem plain_rejectName : ∀ c ∈ rejectName, ruleNesting.Plain c :=
  plain_of_all (by decide)

omit [RuleText] in
theorem plain_noResolveField : ∀ c ∈ noResolveField, ruleNesting.Plain c :=
  plain_of_all (by decide)

omit [RuleText] in
theorem fieldsLoop_reject {u : Str} {d : Nat} (noResolve : Bool)
    (hu : ruleNesting.depthAfter 0 u = some d) :
    fieldsLoop 0 [] (u ++ rejectName ++ markText noResolve) =
      (ensure (d = 0) "unbalanced rule" >>= fun _ =>
        .ok (trim (u ++ rejectName) :: markField noResolve)) := by
  have hreject : ruleNesting.depthAfter 0 (u ++ rejectName) = some d := by
    rw [depthAfter_append, hu]
    exact depthAfter_plain plain_rejectName d
  rw [fieldsLoop_append [] _ hreject, nil_append]
  cases noResolve with
  | false => rfl
  | true =>
    cases d with
    | zero => rfl
    | succ d =>
      -- inside parentheses the comma does not count
      have hmark : ruleNesting.depthAfter (d + 1) (markText true) = some (d + 1) := by
        show ruleNesting.depthAfter (d + 1) (',' :: noResolveField) = _
        rw [depthAfter_cons, if_neg (by decide), if_neg (by decide)]
        exact depthAfter_plain plain_noResolveField _
      have happ := fieldsLoop_append (u ++ rejectName) [] hmark
      rw [append_nil] at happ
      rw [happ]
      rfl

variable {noResolve : Bool} {pieces : List Str} {a x b tail t : Str}

omit [RuleText] in
theorem fields_rewritten {fs : List Str} (hne : pieces ≠ [])
    (hpieces : ∀ p ∈ pieces, ruleNesting.Piece p) :
    fields (rewritten pieces a x noResolve) = .ok fs ↔
      utf8Len (rewritten pieces a x noResolve) ≤ 65536 ∧ ∃ ends,
        fieldsLoop 0 [] (a ++ x ++ rejectName ++ markText noResolve) = .ok ends ∧
          pieces.map trim ++ ends = fs := by
  unfold fields
  rw [ensure_bind_eq_ok_iff]
  refine and_congr_right fun _ => ?_
  unfold rewritten
  rw [fieldsLoop_joinComma_append _ hne hpieces, Except.map_eq_ok_iff]

/-- **A clean cut**: the new line is read as the same rule with the target `REJECT`. -/
theorem parse_rewritten (hline : RuleLine raw r pieces a b tail)
    (hshort : utf8Len (rewritten pieces a [] r.noResolve) ≤ 65536) :
    Rule.parse (rewritten pieces a [] r.noResolve) = .ok { r with target := rejectName } := by
  have hblank : ruleNesting.depthAfter 0 (a ++ []) = some 0 := by
    rw [append_nil]
    exact piece_plain (plain_of_blank hline.blank_before)
  have htrim : trim (a ++ [] ++ rejectName) = rejectName := by
    have hpad := trim_pad hline.blank_before blank_nil (show Trimmed rejectName by decide)
    rw [append_nil] at hpad ⊢
    exact hpad
  have hne : rejectName ≠ [] := by decide
  have hmark : rejectName ≠ noResolveField := by decide
  refine Rule.parse_eq_ok_iff.mpr ⟨pieces.map trim, ?_, ?_, hne, fun _ => hmark,
    hline.matcher_ok⟩
  · refine (fields_rewritten hline.pieces_ne hline.pieces_ok).mpr ⟨hshort, _,
      (fieldsLoop_reject r.noResolve hblank).trans rfl, ?_⟩
    rw [htrim, append_assoc]
    rfl
  · exact fun hnil => hline.pieces_ne (map_eq_nil_iff.mp hnil)

omit [RuleText] in
theorem kept_cases (htail : RuleTail noResolve tail) (hx : x <+: t ++ (b ++ tail)) :
    x <+: t ++ b ∨ ∃ c d y, Blank c ∧ Blank d ∧ noResolve = true ∧
      y <+: c ++ noResolveField ++ d ∧ x = t ++ b ++ ',' :: y := by
  cases htail with
  | unmarked =>
    rw [append_nil] at hx
    exact .inl hx
  | @marked c d hc hd =>
    rw [← append_assoc] at hx
    rcases prefix_or_prefix_of_prefix hx
      (show t ++ b ++ [','] <+: t ++ b ++ ',' :: (c ++ noResolveField ++ d) from
        ⟨c ++ noResolveField ++ d, by simp⟩) with hle | ⟨y, rfl⟩
    · rcases prefix_concat_iff.mp hle with rfl | hle
      · exact .inr ⟨c, d, [], hc, hd, rfl, nil_prefix, rfl⟩
      · exact .inl hle
    · refine .inr ⟨c, d, y, hc, hd, rfl, ?_, by simp⟩
      rw [append_assoc, prefix_append_right_inj] at hx
      exact (cons_prefix_cons.mp hx).2

theorem ends_of_kept {ends : List Str} (hline : RuleLine raw r pieces a b tail)
    (hx : x <+: r.target ++ b) (hne : x ≠ [])
    (h : fieldsLoop 0 [] (a ++ x ++ rejectName ++ markText r.noResolve) = .ok ends) :
    ends = (x ++ rejectName) :: markField r.noResolve := by
  have hpiece : ruleNesting.depthAfter 0 (a ++ (r.target ++ b)) = some 0 := by
    rw [← append_assoc]
    exact (piece_pad_iff (plain_of_blank hline.blank_before)
      (plain_of_blank hline.blank_behind)).mpr hline.target_piece
  obtain ⟨y, hy⟩ := hx
  obtain ⟨d, hd⟩ := exists_depthAfter_of_append (by
    rw [append_assoc, hy]
    exact hpiece)
  rw [fieldsLoop_reject r.noResolve hd, ensure_bind_eq_ok_iff] at h
  obtain ⟨-, h⟩ := h
  cases h
  -- the kept text starts where the target starts
  have htrimmed : Trimmed (x ++ rejectName) := by
    constructor
    · intro c hc
      obtain ⟨e, x', rfl⟩ := exists_cons_of_ne_nil hne
      obtain ⟨e', t', ht⟩ := exists_cons_of_ne_nil hline.target_ne
      have hfirst := hline.target_trimmed.1
      rw [ht] at hy hfirst
      have hsame : e = e' := (List.cons.inj (show e :: (x' ++ y) = e' :: (t' ++ b) from hy)).1
      rw [← hsame] at hfirst
      exact hfirst c hc
    · intro c hc
      rw [getLast?_append] at hc
      cases hc
      decide
  have hpad := trim_pad hline.blank_before blank_nil htrimmed
  rw [append_nil] at hpad
  rw [append_assoc, hpad]

omit [RuleText] in
theorem ends_of_comma {c d y : Str} {ends : List Str} (hpiece : ruleNesting.Piece t)
    (htrimmed : Trimmed t) (ha : Blank a) (hb : Blank b) (hc : Blank c) (hd : Blank d)
    (hy : y <+: c ++ noResolveField ++ d)
    (h : fieldsLoop 0 [] (a ++ (t ++ b ++ ',' :: y) ++ rejectName ++ markText true) = .ok ends) :
    ends = [t, trim (y ++ rejectName), noResolveField] := by
  have hfield : ruleNesting.Piece (a ++ t ++ b) :=
    (piece_pad_iff (plain_of_blank ha) (plain_of_blank hb)).mpr hpiece
  have hplain : ∀ e ∈ y, ruleNesting.Plain e := by
    intro e he
    rcases mem_append.mp (hy.subset he) with he | he
    · rcases mem_append.mp he with he | he
      · exact plain_of_blank hc e he
      · exact plain_noResolveField e he
    · exact plain_of_blank hd e he
  have htext : a ++ (t ++ b ++ ',' :: y) ++ rejectName ++ markText true =
      joinComma [a ++ t ++ b] ++ ',' :: (y ++ rejectName ++ markText true) := by
    rw [joinComma_cons]
    simp
  rw [htext, fieldsLoop_joinComma_append _ (by simp) (by simpa using hfield),
    fieldsLoop_reject true (piece_plain hplain)] at h
  cases h
  rw [map_singleton, trim_pad ha hb htrimmed]
  rfl

/-- **A cut that is not clean**: the new line is never read as the same rule with the target
`REJECT`. -/
theorem parse_rewritten_ne (hline : RuleLine raw r pieces a b tail)
    (hx : x <+: r.target ++ (b ++ tail)) (hne : x ≠ [])
    (h : Rule.parse (rewritten pieces a x r.noResolve) = .ok r') (hmatcher : r'.matcher = r.matcher)
    (hmark : r'.noResolve = r.noResolve) : r'.target ≠ rejectName := by
  intro htarget
  obtain ⟨f, hfields, -, -, -, hm⟩ := Rule.parse_eq_ok_iff.mp h
  obtain ⟨-, ends, hends, hall⟩ :=
    (fields_rewritten hline.pieces_ne hline.pieces_ok).mp hfields
  rw [hmark, htarget] at hall
  rcases kept_cases hline.tail_ok hx with hx | ⟨c, d, y, hc, hd, hnr, hy, rfl⟩
  · rw [ends_of_kept hline hx hne hends, ← singleton_append, ← append_assoc] at hall
    have hlast := append_inj_right' (append_cancel_right hall) rfl
    have hlen := congrArg List.length (List.cons.inj hlast).1
    rw [length_append] at hlen
    have hpos := length_pos_iff.mpr hne
    omega
  · rw [hnr] at hends hall
    rw [ends_of_comma hline.target_piece hline.target_trimmed hline.blank_before
      hline.blank_behind hc hd hy hends] at hall
    have hsplit : pieces.map trim ++ [r.target, trim (y ++ rejectName), noResolveField] =
        pieces.map trim ++ [r.target] ++ [trim (y ++ rejectName)] ++ markField true := by
      simp [markField]
    rw [hsplit] at hall
    have hf := append_inj_left' (append_cancel_right hall) rfl
    rw [← hf, hmatcher] at hm
    refine parseMatcher_snoc_ne ?_ ?_ hline.matcher_ok hm
    · exact fun hnil => hline.pieces_ne (map_eq_nil_iff.mp hnil)
    · intro p hp
      rcases mem_append.mp hp with hp | hp
      · obtain ⟨q, hq, rfl⟩ := mem_map.mp hp
        exact ⟨piece_trim_iff.mpr (hline.pieces_ok q hq), trimmed_trim q⟩
      · rw [mem_singleton.mp hp]
        exact ⟨hline.target_piece, hline.target_trimmed⟩

omit [RuleText] in
theorem blanks_eq_nil {u front : Str} {c : Char} (htail : RuleTail noResolve tail) (hb : Blank b)
    (hlast : t.getLast? = some c) (hc : isWhitespace c = false)
    (h : front ++ (t ++ markText noResolve) = u ++ (t ++ (b ++ tail))) :
    b = [] ∧ tail = markText noResolve := by
  cases htail with
  | unmarked =>
    refine ⟨?_, rfl⟩
    rw [append_nil, show markText false = [] from rfl, append_nil, ← append_assoc] at h
    exact eq_nil_of_append_eq h.symm hb hlast hc
  | @marked e d he hd =>
    -- from the end: the blanks behind the marker, before it and behind the target
    have hd0 : d = [] := by
      have hend : u ++ t ++ b ++ ',' :: (e ++ noResolveField) ++ d =
          front ++ t ++ [','] ++ noResolveField := by
        rw [show markText true = ',' :: noResolveField from rfl] at h
        simpa using h.symm
      have hlast' : noResolveField.getLast? = some 'e' := by decide
      exact eq_nil_of_append_eq hend hd hlast' (by decide)
    subst hd0
    have hcut : front ++ t ++ [','] = u ++ t ++ b ++ [','] ++ e := by
      rw [show markText true = ',' :: noResolveField from rfl] at h
      refine (append_left_inj noResolveField).mp ?_
      simpa using h
    have he0 : e = [] :=
      eq_nil_of_append_eq hcut.symm he (rfl : [','].getLast? = some ',') (by decide)
    subst he0
    rw [append_nil] at hcut
    have hb0 : b = [] := eq_nil_of_append_eq (append_cancel_right hcut).symm hb hlast hc
    exact ⟨hb0, rfl⟩

theorem RuleLine.suffix_iff (hline : RuleLine raw r pieces a b tail) :
    r.target ++ markText r.noResolve <:+ raw ↔ b = [] ∧ tail = markText r.noResolve := by
  constructor
  · rintro ⟨front, hfront⟩
    obtain ⟨c, hlast⟩ : ∃ c, r.target.getLast? = some c :=
      Option.ne_none_iff_exists'.mp fun hnone =>
        hline.target_ne (getLast?_eq_none_iff.mp hnone)
    have htext : front ++ (r.target ++ markText r.noResolve) =
        (joinComma pieces ++ ',' :: a) ++ (r.target ++ (b ++ tail)) := by
      rw [hfront, hline.text_eq]
      simp
    exact blanks_eq_nil hline.tail_ok hline.blank_behind hlast
      (hline.target_trimmed.2 c hlast) htext
  · rintro ⟨rfl, rfl⟩
    refine ⟨joinComma pieces ++ ',' :: a, ?_⟩
    rw [hline.text_eq]
    simp

end

end ClashMeta
