import Mathlib.Data.List.DropRight
import Mathlib.Data.List.Infix
import ClashMeta.Basic

/-!
# Text

The `str` and `char` methods of the standard library that the source uses, on
strings as lists of characters.
-/

namespace ClashMeta

open List

/-- `char::is_control`: the general category Cc. -/
def isControl (c : Char) : Bool :=
  c.toNat < 0x20 || (0x7f ≤ c.toNat && c.toNat < 0xa0)

/-- `char::is_whitespace`: the Unicode property White_Space. -/
def isWhitespace (c : Char) : Bool :=
  (0x9 ≤ c.toNat && c.toNat ≤ 0xd) || (0x2000 ≤ c.toNat && c.toNat ≤ 0x200a) ||
    [0x20, 0x85, 0xa0, 0x1680, 0x2028, 0x2029, 0x202f, 0x205f, 0x3000].contains c.toNat

/-- `str::trim_end`. -/
def trimEnd (s : Str) : Str := s.rdropWhile isWhitespace

/-- `str::trim`. -/
def trim (s : Str) : Str := trimEnd (s.dropWhile isWhitespace)

/-- `trim_end_matches('.')`. -/
def trimDots (s : Str) : Str := s.rdropWhile (· == '.')

/-- `to_ascii_lowercase`. -/
def asciiLower (s : Str) : Str := s.map Char.toLower

/-- `to_ascii_uppercase`. -/
def asciiUpper (s : Str) : Str := s.map Char.toUpper

/-- `eq_ignore_ascii_case`. -/
def eqIgnoreCase (a b : Str) : Bool := asciiLower a = asciiLower b

/-- `split_once` at a character. -/
def splitOnce (sep : Char) (s : Str) : Option (Str × Str) :=
  match s.dropWhile (· ≠ sep) with
  | [] => none
  | _ :: rest => some (s.takeWhile (· ≠ sep), rest)

/-- `strip_suffix`. -/
def stripEnd (d s : Str) : Option Str :=
  if d.isSuffixOf s then some (s.take (s.length - d.length)) else none

/-- `strip_prefix`. -/
def stripStart (d s : Str) : Option Str :=
  if d.isPrefixOf s then some (s.drop d.length) else none

/-- `str::contains` of a string. -/
def containsStr (k s : Str) : Bool := s.tails.any (k.isPrefixOf ·)

/-- `join(",")`. -/
def joinComma (parts : List Str) : Str := [','].intercalate parts

/-- `&s[..n]`; `none` stands for the panic when `n` lies beyond the end or inside a
character. -/
def sliceTo : Nat → Str → Option Str
  | 0, _ => some []
  | _ + 1, [] => none
  | n + 1, c :: s =>
    if c.utf8Size ≤ n + 1 then (sliceTo (n + 1 - c.utf8Size) s).map (c :: ·) else none

/-- The digits of `str::parse` for an unsigned integer, behind those read into `acc`. -/
def parseDigits (bound : Nat) : Nat → Str → Except String Nat
  | acc, [] => .ok acc
  | acc, c :: rest =>
    if ¬ c.isDigit then .error "invalid digit found in string"
    else if acc * 10 + (c.toNat - '0'.toNat) < bound then
      parseDigits bound (acc * 10 + (c.toNat - '0'.toNat)) rest
    else .error "number too large to fit in target type"

/-- `str::parse` for an unsigned integer type whose values are those below `bound`. -/
def parseUint (bound : Nat) : Str → Except String Nat
  | [] => .error "cannot parse integer from empty string"
  | ['+'] => .error "invalid digit found in string"
  | '+' :: rest => parseDigits bound 0 rest
  | s => parseDigits bound 0 s

/-- A host name as it is compared: without dots at its end, in lower case. -/
def normHost (host : Str) : Str := asciiLower (trimDots host)

theorem containsStr_iff {k s : Str} : containsStr k s = true ↔ k <:+: s := by
  simp only [containsStr, any_eq_true, mem_tails, isPrefixOf_iff_prefix]
  constructor
  · rintro ⟨t, hsuffix, hpre⟩
    exact hpre.isInfix.trans hsuffix.isInfix
  · intro h
    obtain ⟨t, hpre, hsuffix⟩ := infix_iff_prefix_suffix.mp h
    exact ⟨t, hsuffix, hpre⟩

/-- The capital letters move by 32. -/
theorem toNat_toLower (c : Char) :
    c.toLower.toNat = if 65 ≤ c.toNat ∧ c.toNat ≤ 90 then c.toNat + 32 else c.toNat := by
  unfold Char.toLower
  split
  · rename_i h
    have h1 : 65 ≤ c.toNat := h.1
    have h2 : c.toNat ≤ 90 := h.2
    rw [if_pos ⟨h1, h2⟩]
    show (c.toNat + 32) % 2 ^ 32 = _
    omega
  · rename_i h
    rw [if_neg]
    exact h

theorem toLower_toLower (c : Char) : c.toLower.toLower = c.toLower := by
  rw [← Char.toNat_inj, toNat_toLower c.toLower, toNat_toLower c]
  by_cases h : 65 ≤ c.toNat ∧ c.toNat ≤ 90
  · rw [if_pos h, if_neg (by omega)]
  · rw [if_neg h, if_neg h]

theorem toLower_eq_dot_iff (c : Char) : c.toLower = '.' ↔ c = '.' := by
  have hdot : ('.' : Char).toNat = 46 := rfl
  rw [← Char.toNat_inj, ← Char.toNat_inj, toNat_toLower]
  split_ifs <;> omega

theorem asciiLower_asciiLower (s : Str) : asciiLower (asciiLower s) = asciiLower s := by
  unfold asciiLower
  rw [map_map]
  exact map_congr_left fun c _ => toLower_toLower c

theorem trimDots_asciiLower (s : Str) : trimDots (asciiLower s) = asciiLower (trimDots s) := by
  have hdot : ((· == '.') : Char → Bool) ∘ Char.toLower = (· == '.') := by
    funext c
    rw [Function.comp_apply, Bool.eq_iff_iff, beq_iff_eq, beq_iff_eq]
    exact toLower_eq_dot_iff c
  unfold trimDots asciiLower List.rdropWhile
  rw [← map_reverse, dropWhile_map, hdot, map_reverse]

theorem normHost_normHost (host : Str) : normHost (normHost host) = normHost host := by
  unfold normHost
  rw [trimDots_asciiLower, asciiLower_asciiLower]
  unfold trimDots
  rw [rdropWhile_idempotent]

/-! ## Blanks at the ends -/

/-- Neither end of the text is blank. -/
def Trimmed (s : Str) : Prop :=
  (∀ c ∈ s.head?, isWhitespace c = false) ∧ ∀ c ∈ s.getLast?, isWhitespace c = false

/-- The text is blank. -/
def Blank (s : Str) : Prop := ∀ c ∈ s, isWhitespace c = true

instance (s : Str) : Decidable (Trimmed s) :=
  decidable_of_iff (s.head?.all (fun c => !isWhitespace c) = true ∧
      s.getLast?.all (fun c => !isWhitespace c) = true) <| by
    simp only [Trimmed, Option.all_eq_true, Bool.not_eq_true', Option.mem_def]

theorem blank_nil : Blank [] := nofun

/-- Blanks on both sides go. -/
theorem trim_pad {a s b : Str} (ha : Blank a) (hb : Blank b) (hs : Trimmed s) :
    trim (a ++ s ++ b) = s := by
  unfold trim trimEnd
  rw [append_assoc, dropWhile_append_of_pos ha]
  cases s with
  | nil =>
    rw [nil_append, dropWhile_eq_nil_iff.mpr hb]
    rfl
  | cons c s =>
    have hc : isWhitespace c = false := hs.1 c rfl
    rw [cons_append, dropWhile_cons_of_neg (by rw [hc]; decide), ← cons_append]
    unfold List.rdropWhile
    rw [reverse_append, dropWhile_append_of_pos (fun x hx => hb x (mem_reverse.mp hx))]
    -- the last character stays
    have hlast := hs.2
    rw [← head?_reverse] at hlast
    cases hrev : (c :: s).reverse with
    | nil => exact absurd hrev (by simp)
    | cons d rest =>
      rw [hrev] at hlast
      rw [dropWhile_cons_of_neg (by rw [hlast d rfl]; decide), ← hrev, reverse_reverse]

theorem trim_of_trimmed {s : Str} (h : Trimmed s) : trim s = s := by
  have hpad := trim_pad blank_nil blank_nil h
  rwa [append_nil] at hpad

theorem trimmed_trim (s : Str) : Trimmed (trim s) := by
  unfold trim trimEnd
  constructor
  · intro c hc
    -- what is left starts where the text without leading blanks starts
    obtain ⟨rest, hrest⟩ := rdropWhile_prefix isWhitespace (s.dropWhile isWhitespace)
    have hhead : (s.dropWhile isWhitespace).head? = some c := by
      rw [← hrest, head?_append, Option.mem_def.mp hc]
      rfl
    have hnot := head?_dropWhile_not isWhitespace s
    rw [hhead] at hnot
    exact hnot
  · intro c hc
    obtain ⟨hne, heq⟩ := mem_getLast?_eq_getLast hc
    rw [heq]
    exact Bool.eq_false_iff.mpr (rdropWhile_last_not isWhitespace _ hne)

/-- A text is what trimming leaves of it, between blanks. -/
theorem exists_pad (s : Str) : ∃ a b, Blank a ∧ Blank b ∧ s = a ++ trim s ++ b := by
  refine ⟨s.takeWhile isWhitespace, (s.dropWhile isWhitespace).rtakeWhile isWhitespace,
    fun c hc => mem_takeWhile_imp hc, fun c hc => mem_rtakeWhile_imp hc, ?_⟩
  unfold trim trimEnd
  rw [append_assoc, rdropWhile_append_rtakeWhile, takeWhile_append_dropWhile]

theorem head?_trim {s : Str} {c : Char} (hs : s.head? = some c) (hc : isWhitespace c = false) :
    (trim s).head? = some c := by
  obtain ⟨a, b, ha, hb, hpad⟩ := exists_pad s
  have ha' : a = [] := by
    cases a with
    | nil => rfl
    | cons d a =>
      have hd : d = c := by
        rw [hpad] at hs
        simpa using hs
      have hblank := ha d mem_cons_self
      rw [hd, hc] at hblank
      cases hblank
  rw [ha'] at hpad
  cases htrim : trim s with
  | nil =>
    -- the text would be blank
    rw [htrim] at hpad
    rw [hpad] at hs
    have hblank := hb c (mem_of_head? hs)
    rw [hc] at hblank
    cases hblank
  | cons d rest =>
    rw [htrim] at hpad
    rw [hpad] at hs
    simpa using hs

/-! ## Lengths in bytes -/

@[simp] theorem utf8Len_nil : utf8Len [] = 0 := rfl

@[simp] theorem utf8Len_cons (c : Char) (s : Str) : utf8Len (c :: s) = c.utf8Size + utf8Len s := by
  simp [utf8Len]

@[simp] theorem utf8Len_append (s t : Str) : utf8Len (s ++ t) = utf8Len s + utf8Len t := by
  simp [utf8Len]

theorem length_utf8Bytes (s : Str) : (utf8Bytes s).length = utf8Len s := by
  unfold utf8Bytes utf8Len
  rw [length_flatMap]
  congr 1
  exact map_congr_left fun c _ => String.length_utf8EncodeChar c

/-- `std::str::from_utf8`. -/
def fromUtf8 (bytes : List Byte) : Option Str :=
  (ByteArray.utf8Decode? ⟨bytes.toArray⟩).map Array.toList

/-- A text is read back from its bytes. -/
theorem fromUtf8_utf8Bytes (s : Str) : fromUtf8 (utf8Bytes s) = some s := by
  have harray : (⟨(utf8Bytes s).toArray⟩ : ByteArray) = List.utf8Encode s :=
    ByteArray.ext data_toByteArray.symm
  unfold fromUtf8
  rw [harray, List.utf8Decode?_utf8Encode]
  rfl

theorem utf8Len_eq_zero_iff {s : Str} : utf8Len s = 0 ↔ s = [] := by
  cases s with
  | nil => simp
  | cons c s =>
    have hpos := c.utf8Size_pos
    rw [utf8Len_cons]
    constructor
    · intro h
      omega
    · exact nofun

/-- A slice by bytes ends between two characters. -/
theorem sliceTo_eq_some_iff {n : Nat} {s x : Str} :
    sliceTo n s = some x ↔ x <+: s ∧ utf8Len x = n := by
  induction s generalizing n x with
  | nil =>
    rw [prefix_nil]
    cases n with
    | zero =>
      rw [sliceTo, Option.some.injEq]
      constructor
      · rintro rfl
        exact ⟨rfl, rfl⟩
      · exact fun h => h.1.symm
    | succ n =>
      constructor
      · exact nofun
      · rintro ⟨rfl, h⟩
        cases h
  | cons c s ih =>
    -- a cut inside the first character leaves no beginning
    cases n with
    | zero =>
      rw [sliceTo, Option.some.injEq, utf8Len_eq_zero_iff]
      constructor
      · rintro rfl
        exact ⟨List.nil_prefix, rfl⟩
      · exact fun h => h.2.symm
    | succ n =>
      rw [sliceTo]
      constructor
      · intro h
        split at h
        · rename_i hle
          obtain ⟨y, hy, rfl⟩ := Option.map_eq_some_iff.mp h
          obtain ⟨hpre, hlen⟩ := ih.mp hy
          refine ⟨cons_prefix_cons.mpr ⟨rfl, hpre⟩, ?_⟩
          rw [utf8Len_cons]
          omega
        · cases h
      · rintro ⟨hpre, hlen⟩
        cases x with
        | nil => cases hlen
        | cons d x =>
          obtain ⟨rfl, hx⟩ := cons_prefix_cons.mp hpre
          rw [utf8Len_cons] at hlen
          have hrest : sliceTo (n + 1 - d.utf8Size) s = some x := ih.mpr ⟨hx, by omega⟩
          rw [if_pos (by omega), hrest]
          rfl

end ClashMeta
