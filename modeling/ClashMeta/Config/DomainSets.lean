import ClashMeta.Config.Rule

/-!
# Indexed domain sets

`DomainSet::matches` (config/src/rule.rs:41-58) walks the labels of a host and looks each rest
up in a hash set; the plain condition `Suffix` (rule.rs:266) strips a suffix off the host and
looks at the character before it. Both look for entries that are the host or stand behind a
dot in it, wherever the dots are and whether entries are empty or not.
-/

namespace ClashMeta

open List Bool

/-- What stands behind a dot of the host. -/
def BehindDot (d host : Str) : Prop := ∃ p, host = p ++ '.' :: d

/-- The host itself, or what stands behind one of its dots. -/
def AtLabel (d host : Str) : Prop := host = d ∨ BehindDot d host

section

variable {d host : Str}

theorem behindDot_cons {c : Char} :
    BehindDot d (c :: host) ↔ (c = '.' ∧ host = d) ∨ BehindDot d host := by
  constructor
  · rintro ⟨p, hp⟩
    cases p with
    | nil =>
      cases hp
      exact .inl ⟨rfl, rfl⟩
    | cons e p =>
      cases hp
      exact .inr ⟨p, rfl⟩
  · rintro (⟨rfl, rfl⟩ | ⟨p, rfl⟩)
    · exact ⟨[], rfl⟩
    · exact ⟨c :: p, rfl⟩

theorem splitOnce_cons (sep c : Char) (s : Str) :
    splitOnce sep (c :: s) =
      if c = sep then some ([], s) else (splitOnce sep s).map fun (a, b) => (c :: a, b) := by
  unfold splitOnce
  by_cases hc : c = sep
  · rw [if_pos hc, dropWhile_cons_of_neg (by simpa using hc),
      takeWhile_cons_of_neg (by simpa using hc)]
  · rw [if_neg hc, dropWhile_cons_of_pos (by simpa using hc),
      takeWhile_cons_of_pos (by simpa using hc)]
    cases s.dropWhile (· ≠ sep) <;> rfl

theorem behindDot_iff_splitOnce :
    BehindDot d host ↔ ∃ front rest, splitOnce '.' host = some (front, rest) ∧ AtLabel d rest := by
  induction host with
  | nil =>
    constructor
    · rintro ⟨p, hp⟩
      cases p <;> cases hp
    · rintro ⟨front, rest, hsplit, -⟩
      cases hsplit
  | cons c host ih =>
    rw [behindDot_cons, splitOnce_cons]
    by_cases hc : c = '.'
    · rw [if_pos hc]
      constructor
      · intro h
        exact ⟨[], host, rfl, h.imp (fun h => h.2) id⟩
      · rintro ⟨front, rest, hsplit, hlabel⟩
        cases hsplit
        exact hlabel.imp (fun h => ⟨hc, h⟩) id
    · rw [if_neg hc, ih]
      constructor
      · rintro (⟨hdot, -⟩ | ⟨front, rest, hsplit, hlabel⟩)
        · exact absurd hdot hc
        · exact ⟨c :: front, rest, by rw [hsplit]; rfl, hlabel⟩
      · rintro ⟨front, rest, hsplit, hlabel⟩
        obtain ⟨⟨front', rest'⟩, hsplit', heq⟩ := Option.map_eq_some_iff.mp hsplit
        cases heq
        exact .inr ⟨front', rest, hsplit', hlabel⟩

theorem length_lt_of_splitOnce {front rest : Str}
    (h : splitOnce '.' host = some (front, rest)) : rest.length < host.length := by
  obtain ⟨p, rfl⟩ := behindDot_iff_splitOnce.mpr ⟨front, rest, h, .inl rfl⟩
  rw [length_append, length_cons]
  omega

/-- **The walk over the labels** finds an entry exactly when one stands at a label. -/
theorem labelLoop_iff {suffix : List Str} {fuel : Nat} (hfuel : host.length < fuel) :
    DomainSet.labelLoop suffix fuel host = true ↔ ∃ d ∈ suffix, AtLabel d host := by
  induction fuel generalizing host with
  | zero => exact absurd hfuel (Nat.not_lt_zero _)
  | succ fuel ih =>
    rw [DomainSet.labelLoop, or_eq_true, contains_iff_mem]
    cases hsplit : splitOnce '.' host with
    | none =>
      constructor
      · rintro (hmem | h)
        · exact ⟨host, hmem, .inl rfl⟩
        · cases h
      · rintro ⟨d, hd, heq | hbehind⟩
        · exact .inl (heq ▸ hd)
        · obtain ⟨front, rest, h, -⟩ := behindDot_iff_splitOnce.mp hbehind
          rw [hsplit] at h
          cases h
    | some pair =>
      obtain ⟨front, rest⟩ := pair
      have hshorter := length_lt_of_splitOnce hsplit
      rw [ih (by omega)]
      constructor
      · rintro (hmem | ⟨d, hd, hlabel⟩)
        · exact ⟨host, hmem, .inl rfl⟩
        · exact ⟨d, hd, .inr (behindDot_iff_splitOnce.mpr ⟨front, rest, hsplit, hlabel⟩)⟩
      · rintro ⟨d, hd, heq | hbehind⟩
        · exact .inl (heq ▸ hd)
        · obtain ⟨front', rest', h, hlabel⟩ := behindDot_iff_splitOnce.mp hbehind
          rw [hsplit] at h
          cases h
          exact .inr ⟨d, hd, hlabel⟩

theorem stripEnd_dot_iff :
    ((stripEnd d host).any fun p => p.getLast? == some '.') = true ↔ BehindDot d host := by
  unfold stripEnd
  rw [Option.any_eq_true]
  constructor
  · rintro ⟨p, hp, hlast⟩
    split at hp
    · rename_i hsuffix
      obtain ⟨q, rfl⟩ := isSuffixOf_iff_suffix.mp hsuffix
      rw [length_append, Nat.add_sub_cancel, take_left] at hp
      cases hp
      obtain ⟨q', rfl⟩ := getLast?_eq_some_iff.mp (eq_of_beq hlast)
      exact ⟨q', by rw [append_assoc]; rfl⟩
    · cases hp
  · rintro ⟨p, rfl⟩
    have hsplit : p ++ '.' :: d = (p ++ ['.']) ++ d := by
      rw [append_assoc]
      rfl
    refine ⟨p ++ ['.'], ?_, ?_⟩
    · rw [hsplit, if_pos (isSuffixOf_iff_suffix.mpr (suffix_append _ _)),
        length_append, Nat.add_sub_cancel, take_left]
    · rw [getLast?_append]
      rfl

/-- The two tests together: `d` ends `host` at a label. -/
theorem suffix_iff :
    (host == d || (stripEnd d host).any fun p => p.getLast? == some '.') = true ↔
      AtLabel d host := by
  rw [or_eq_true, stripEnd_dot_iff, beq_iff_eq]
  exact .rfl

end

namespace DomainSet

/-- The plain conditions of the entries. -/
def leaves (s : DomainSet) : List Matcher :=
  s.exact.map .domain ++ s.suffix.map .suffix ++ s.keywords.map .keyword ++ s.regex.map .regex

/-- What the plain conditions answer. -/
def answers (s : DomainSet) (host : Str) : List Bool :=
  s.exact.map (host == ·) ++
    s.suffix.map (fun d => host == d || (stripEnd d host).any fun p => p.getLast? == some '.') ++
    s.keywords.map (containsStr · host) ++ s.regex.map (fun r => r host)

variable (s : DomainSet) (host : Str)

theorem evaluate_leaves (ip : Option IpAddr) (port : UInt16) (network : Str) (canResolve : Bool) :
    s.leaves.map (Matcher.evaluate host ip port network canResolve) =
      (s.answers host).map some := by
  simp only [leaves, answers, map_append, map_map]
  rfl

theorem exact_contains : s.exact.contains host = (s.exact.map (host == ·)).any id := by
  rw [any_map, contains_eq_any_beq]
  rfl

theorem labelLoop_eq :
    labelLoop s.suffix (host.length + 1) host =
      (s.suffix.map fun d =>
        host == d || (stripEnd d host).any fun p => p.getLast? == some '.').any id := by
  rw [Bool.eq_iff_iff, labelLoop_iff (lt_add_one _), any_map, any_eq_true]
  exact exists_congr fun d => and_congr_right fun _ => suffix_iff.symm

theorem matches_eq_any : s.matches host = (s.answers host).any id := by
  unfold «matches» answers
  rw [exact_contains, labelLoop_eq]
  simp only [any_append, any_map]
  rfl

/-- **The indexed set agrees with the plain conditions** on every host: `matches` is what the
disjunction of the plain conditions of its entries evaluates to. -/
theorem domainSet_agrees (ip : Option IpAddr) (port : UInt16) (network : Str)
    (canResolve : Bool) :
    Matcher.evaluate host ip port network canResolve (.or s.leaves) =
      some (s.matches host) := by
  rw [Matcher.evaluate, Matcher.evaluateAll_eq_map, evaluate_leaves,
    Kleene.junction_false_map_some, matches_eq_any]

end DomainSet

end ClashMeta
