import Mathlib.Algebra.Order.Ring.Nat

/-!
# Sets of numbers as ranges

A set of natural numbers as an increasing list of half-open ranges that neither overlap nor
touch, so that a set has one such list.
-/

open List

/-- The numbers from `lo` on and below `hi`. -/
structure Extent where
  lo : Nat
  hi : Nat
  deriving DecidableEq, Repr

namespace Extent

/-- A range of the list contains the number. -/
def Covers (l : List Extent) (x : Nat) : Prop := ∃ r ∈ l, r.lo ≤ x ∧ x < r.hi

instance (l : List Extent) (x : Nat) : Decidable (Covers l x) :=
  inferInstanceAs (Decidable (∃ r ∈ l, _))

@[simp] theorem covers_nil (x : Nat) : ¬Covers [] x := by
  rintro ⟨r, hr, -⟩
  cases hr

@[simp] theorem covers_cons {r : Extent} {l : List Extent} {x : Nat} :
    Covers (r :: l) x ↔ (r.lo ≤ x ∧ x < r.hi) ∨ Covers l x := by
  simp [Covers]

/-- No range is empty, and between one and the next there is a gap. -/
def Normal : List Extent → Prop
  | [] => True
  | r :: l => r.lo < r.hi ∧ (∀ r' ∈ l, r.hi < r'.lo) ∧ Normal l

/-- The list with another range in it. -/
def cover : List Extent → Nat → Nat → List Extent
  | [], lo, hi => [⟨lo, hi⟩]
  | r :: l, lo, hi =>
    if hi < r.lo then ⟨lo, hi⟩ :: r :: l
    else if r.hi < lo then r :: cover l lo hi
    else cover l (min r.lo lo) (max r.hi hi)

variable {l : List Extent} {lo hi x : Nat}

theorem covers_cover : Covers (cover l lo hi) x ↔ (lo ≤ x ∧ x < hi) ∨ Covers l x := by
  induction l generalizing lo hi with
  | nil => simp [cover]
  | cons r l ih =>
    rw [cover, covers_cons]
    split
    · simp
    · split
      · rw [covers_cons, ih]
        tauto
      · -- the two ranges overlap or touch, so together they are one
        rw [ih, ← or_assoc]
        refine or_congr_left ?_
        omega

theorem lt_lo_of_mem_cover {b : Nat} (hl : ∀ r ∈ l, b < r.lo) (hlo : b < lo) :
    ∀ r ∈ cover l lo hi, b < r.lo := by
  induction l generalizing lo hi with
  | nil =>
    intro r hr
    rw [mem_singleton.mp hr]
    exact hlo
  | cons r l ih =>
    rw [forall_mem_cons] at hl
    rw [cover]
    split
    · rw [forall_mem_cons, forall_mem_cons]
      exact ⟨hlo, hl⟩
    · split
      · rw [forall_mem_cons]
        exact ⟨hl.1, ih hl.2 hlo⟩
      · exact ih hl.2 (lt_min hl.1 hlo)

theorem Normal.lo_lt_hi (h : Normal l) : ∀ r ∈ l, r.lo < r.hi := by
  induction l with
  | nil => exact nofun
  | cons r l ih =>
    rw [forall_mem_cons]
    exact ⟨h.1, ih h.2.2⟩

theorem Normal.cover (h : Normal l) (hlo : lo < hi) : Normal (cover l lo hi) := by
  induction l generalizing lo hi with
  | nil => exact ⟨hlo, nofun, trivial⟩
  | cons r l ih =>
    obtain ⟨hr, hbehind, hl⟩ := h
    rw [Extent.cover]
    split
    · rename_i hbefore
      refine ⟨hlo, ?_, hr, hbehind, hl⟩
      rw [forall_mem_cons]
      refine ⟨hbefore, fun r' hr' => ?_⟩
      have hgap := hbehind r' hr'
      show hi < r'.lo
      omega
    · split
      · rename_i hafter
        exact ⟨hr, lt_lo_of_mem_cover hbehind hafter, ih hl hlo⟩
      · exact ih hl (by omega)

theorem not_covers_of_lt {b : Nat} (hl : ∀ r ∈ l, b < r.lo) (hx : x ≤ b) : ¬Covers l x := by
  rintro ⟨r, hr, hlo, -⟩
  have := hl r hr
  omega

theorem cover_of_lt (hl : ∀ r ∈ l, hi < r.lo) : cover l lo hi = ⟨lo, hi⟩ :: l := by
  cases l with
  | nil => rfl
  | cons r l => rw [cover, if_pos (hl r mem_cons_self)]

/-- **The number of ranges**: a range that is new makes one more, less one for each side on
which it touches another. -/
theorem length_cover (h : Normal l) (hlo : lo < hi) (hnew : ∀ x, lo ≤ x → x < hi → ¬Covers l x) :
    (cover l lo hi).length + (if Covers l hi then 1 else 0) +
      (if 0 < lo ∧ Covers l (lo - 1) then 1 else 0) = l.length + 1 := by
  induction l generalizing lo hi with
  | nil => simp [cover]
  | cons r l ih =>
    obtain ⟨hr, hbehind, hl⟩ := h
    have hnewr : hi ≤ r.lo ∨ r.hi ≤ lo := by
      by_contra hboth
      exact hnew (max lo r.lo) (by omega) (by omega) (covers_cons.mpr (.inl (by omega)))
    have hnewl : ∀ x, lo ≤ x → x < hi → ¬Covers l x :=
      fun x hx hx' hcov => hnew x hx hx' (covers_cons.mpr (.inr hcov))
    simp only [covers_cons]
    rw [cover]
    split
    · -- before the first range
      have hhi : ¬Covers l hi := not_covers_of_lt hbehind (by omega)
      have hlo' : ¬Covers l (lo - 1) := not_covers_of_lt hbehind (by omega)
      rw [if_neg (not_or.mpr ⟨by omega, hhi⟩),
        if_neg fun hleft => not_or.mpr ⟨by omega, hlo'⟩ hleft.2]
      rfl
    · split
      · -- behind the first range
        have hih := ih hl hlo hnewl
        have hhi : ((r.lo ≤ hi ∧ hi < r.hi) ∨ Covers l hi) ↔ Covers l hi :=
          or_iff_right (by omega)
        have hlo' : (0 < lo ∧ ((r.lo ≤ lo - 1 ∧ lo - 1 < r.hi) ∨ Covers l (lo - 1))) ↔
            0 < lo ∧ Covers l (lo - 1) := and_congr_right fun _ => or_iff_right (by omega)
        simp only [hhi, hlo', length_cons]
        omega
      · rcases hnewr with hleft | hright
        · -- it ends where the first range starts
          have hlo' : ¬Covers l (lo - 1) := not_covers_of_lt hbehind (by omega)
          rw [max_eq_left (by omega), cover_of_lt hbehind,
            if_pos (.inl (by omega)), if_neg fun hleft => not_or.mpr ⟨by omega, hlo'⟩ hleft.2]
          rfl
        · -- it starts where the first range ends
          obtain rfl : lo = r.hi := by omega
          have hnew' : ∀ x, r.lo ≤ x → x < hi → ¬Covers l x := by
            intro x hx hx'
            by_cases hin : x < r.hi
            · exact not_covers_of_lt hbehind (by omega)
            · exact hnewl x (by omega) hx'
          have hih := ih hl (by omega) hnew'
          have hlo' : ¬(0 < r.lo ∧ Covers l (r.lo - 1)) :=
            fun hleft => not_covers_of_lt hbehind (by omega) hleft.2
          have hhi : ((r.lo ≤ hi ∧ hi < r.hi) ∨ Covers l hi) ↔ Covers l hi :=
            or_iff_right (by omega)
          have hlast : 0 < r.hi ∧ ((r.lo ≤ r.hi - 1 ∧ r.hi - 1 < r.hi) ∨ Covers l (r.hi - 1)) :=
            ⟨by omega, .inl (by omega)⟩
          rw [if_neg hlo'] at hih
          rw [min_eq_left (by omega), max_eq_right (by omega), if_pos hlast]
          simp only [hhi, length_cons]
          omega

/-- The end of a first range that starts at zero, else zero. -/
def front : List Extent → Nat
  | [] => 0
  | r :: _ => if r.lo = 0 then r.hi else 0

/-- The first range reaches from zero to a number exactly when everything below the number is in the
set and the number is not. -/
theorem front_eq_iff (h : Normal l) (hx : 0 < x) :
    front l = x ↔ (∀ y < x, Covers l y) ∧ ¬Covers l x := by
  cases l with
  | nil =>
    constructor
    · intro hfront
      exact absurd hfront (by show (0 : Nat) ≠ x; omega)
    · exact fun hall => absurd (hall.1 0 hx) (covers_nil 0)
  | cons r l =>
    obtain ⟨hr, hbehind, hl⟩ := h
    rw [front]
    constructor
    · intro hfront
      split at hfront
      · subst hfront
        refine ⟨fun y hy => covers_cons.mpr (.inl (by omega)), ?_⟩
        rw [covers_cons, not_or]
        exact ⟨by omega, not_covers_of_lt hbehind le_rfl⟩
      · omega
    · rintro ⟨hall, hnot⟩
      -- zero can only be in the first range, and the first number outside is its end
      have hzero : r.lo = 0 := by
        rcases covers_cons.mp (hall 0 hx) with hin | hcov
        · omega
        · exact absurd hcov (not_covers_of_lt hbehind (Nat.zero_le _))
      rw [if_pos hzero]
      rw [covers_cons] at hnot
      by_contra hne
      rcases covers_cons.mp (hall r.hi (by omega)) with hin | hcov
      · omega
      · exact not_covers_of_lt hbehind le_rfl hcov

theorem exists_overlap_iff (h : Normal l) (hlo : lo < hi) :
    (∃ r ∈ l, lo < r.hi ∧ r.lo < hi) ↔ ∃ x, lo ≤ x ∧ x < hi ∧ Covers l x := by
  constructor
  · rintro ⟨r, hr, hrlo, hrhi⟩
    have hne := h.lo_lt_hi r hr
    exact ⟨max lo r.lo, by omega, by omega, r, hr, by omega, by omega⟩
  · rintro ⟨x, hx, hx', r, hr, hlo, hhi⟩
    exact ⟨r, hr, by omega, by omega⟩

theorem exists_beyond_iff (h : Normal l) : (∃ r ∈ l, hi < r.hi) ↔ ∃ x, hi ≤ x ∧ Covers l x := by
  constructor
  · rintro ⟨r, hr, hrhi⟩
    have hne := h.lo_lt_hi r hr
    exact ⟨r.hi - 1, by omega, r, hr, by omega, by omega⟩
  · rintro ⟨x, hx, r, hr, -, hhi⟩
    exact ⟨r, hr, by omega⟩

end Extent

/-! ## Range sets -/

/-- A set of numbers, given by its ranges. -/
structure RangeSet where
  ranges : List Extent
  normal : Extent.Normal ranges

namespace RangeSet

open Extent

instance : Membership Nat RangeSet := ⟨fun s x => Covers s.ranges x⟩

instance (x : Nat) (s : RangeSet) : Decidable (x ∈ s) := inferInstanceAs (Decidable (Covers _ _))

/-- No numbers. -/
def empty : RangeSet := ⟨[], trivial⟩

/-- The numbers from `lo` on and below `hi` join the set. -/
def insert (s : RangeSet) (lo hi : Nat) (h : lo < hi) : RangeSet :=
  ⟨cover s.ranges lo hi, s.normal.cover h⟩

/-- The number of ranges. -/
def length (s : RangeSet) : Nat := s.ranges.length

/-- How far the set reaches from zero on. -/
def front (s : RangeSet) : Nat := Extent.front s.ranges

variable {s : RangeSet} {lo hi x : Nat}

@[simp] theorem not_mem_empty (x : Nat) : x ∉ empty := covers_nil x

theorem mem_insert {h : lo < hi} : x ∈ s.insert lo hi h ↔ (lo ≤ x ∧ x < hi) ∨ x ∈ s :=
  covers_cover

/-- A new range takes one entry, less one for each neighbour it joins. -/
theorem length_insert {h : lo < hi} (hnew : ∀ x, lo ≤ x → x < hi → x ∉ s) :
    (s.insert lo hi h).length + (if hi ∈ s then 1 else 0) + (if 0 < lo ∧ lo - 1 ∈ s then 1 else 0) =
      s.length + 1 :=
  length_cover s.normal h hnew

theorem front_eq_iff (hx : 0 < x) : s.front = x ↔ (∀ y < x, y ∈ s) ∧ x ∉ s :=
  Extent.front_eq_iff s.normal hx

theorem exists_overlap_iff (hlo : lo < hi) :
    (∃ r ∈ s.ranges, lo < r.hi ∧ r.lo < hi) ↔ ∃ x, lo ≤ x ∧ x < hi ∧ x ∈ s :=
  Extent.exists_overlap_iff s.normal hlo

theorem exists_beyond_iff : (∃ r ∈ s.ranges, hi < r.hi) ↔ ∃ x, hi ≤ x ∧ x ∈ s :=
  Extent.exists_beyond_iff s.normal

end RangeSet

/-! ## Tilings -/

section

variable {ι : Type*} (lo up : ι → Nat)

/-- The pieces follow each other from one number to another. -/
def Tiles : Nat → List ι → Nat → Prop
  | a, [], b => a = b
  | a, i :: l, b => lo i = a ∧ Tiles (up i) l b

/-- Pieces that do not overlap. -/
def Apart (i j : ι) : Prop := up i ≤ lo j ∨ up j ≤ lo i

variable {lo up} {a b : Nat} {l : List ι}

theorem Apart.symm {i j : ι} (h : Apart lo up i j) : Apart lo up j i := Or.symm h

/-- **Pieces can be put in order** when none is empty, none overlap, and together they cover
everything from one number to another and nothing else. -/
theorem exists_tiling (hne : ∀ i ∈ l, lo i < up i) (hapart : l.Pairwise (Apart lo up))
    (hin : ∀ i ∈ l, a ≤ lo i ∧ up i ≤ b) (hab : a ≤ b)
    (hall : ∀ x, a ≤ x → x < b → ∃ i ∈ l, lo i ≤ x ∧ x < up i) :
    ∃ l', l'.Perm l ∧ Tiles lo up a l' b := by
  -- by the number of pieces: the one at the start comes first
  induction hn : l.length generalizing l a with
  | zero =>
    obtain rfl := length_eq_zero_iff.mp hn
    refine ⟨[], .nil, ?_⟩
    by_contra hab'
    obtain ⟨i, hi, -⟩ := hall a le_rfl (lt_of_le_of_ne hab hab')
    cases hi
  | succ n ih =>
    obtain ⟨i₀, hi₀⟩ := exists_mem_of_length_pos (by omega : 0 < l.length)
    have hlt : a < b := by
      have hne₀ := hne i₀ hi₀
      have hin₀ := hin i₀ hi₀
      omega
    obtain ⟨i, hi, hstart, hend⟩ := hall a le_rfl hlt
    obtain ⟨before, behind, rfl⟩ := append_of_mem hi
    have hperm : (before ++ i :: behind).Perm (i :: (before ++ behind)) := perm_middle
    have hinᵢ := hin i hi
    rw [hperm.pairwise_iff Apart.symm, pairwise_cons] at hapart
    have hrest : ∀ j ∈ before ++ behind, j ∈ before ++ i :: behind := fun j hj =>
      hperm.mem_iff.mpr (mem_cons_of_mem _ hj)
    -- the others lie behind it
    have hin' : ∀ j ∈ before ++ behind, up i ≤ lo j ∧ up j ≤ b := by
      intro j hj
      have hneⱼ := hne j (hrest j hj)
      have hinⱼ := hin j (hrest j hj)
      have happ : up i ≤ lo j ∨ up j ≤ lo i := hapart.1 j hj
      omega
    have hall' : ∀ x, up i ≤ x → x < b → ∃ j ∈ before ++ behind, lo j ≤ x ∧ x < up j := by
      intro x hx hx'
      obtain ⟨j, hj, hjlo, hjup⟩ := hall x (by omega) hx'
      rcases mem_cons.mp (hperm.mem_iff.mp hj) with rfl | hj
      · omega
      · exact ⟨j, hj, hjlo, hjup⟩
    obtain ⟨l', hl', htiles⟩ := ih (fun j hj => hne j (hrest j hj)) hapart.2 hin' (by omega) hall'
      (by rw [hperm.length_eq] at hn; exact Nat.succ.inj hn)
    refine ⟨i :: l', (hl'.cons i).trans hperm.symm, by omega, htiles⟩

end

/-! ## Runs -/

/-- The number of runs of consecutive numbers in a list: every run has one last number. -/
def runs (l : List Nat) : Nat := l.countP fun i => i + 1 ∉ l

theorem countP_last {l m : List Nat} {i : Nat} (hnodup : m.Nodup) (hi : i ∉ l) :
    m.countP (fun j => j + 1 ∉ i :: l) + (if 0 < i ∧ i - 1 ∈ m then 1 else 0) =
      m.countP fun j => j + 1 ∉ l := by
  induction m with
  | nil => simp
  | cons j m ih =>
    rw [nodup_cons] at hnodup
    have hih := ih hnodup.2
    rw [countP_cons, countP_cons]
    by_cases hj : j + 1 = i
    · have hbefore : ¬(0 < i ∧ i - 1 ∈ m) := by
        rintro ⟨-, hmem⟩
        rw [show i - 1 = j by omega] at hmem
        exact hnodup.1 hmem
      have hhere : 0 < i ∧ i - 1 ∈ j :: m := ⟨by omega, by rw [show i - 1 = j by omega]; simp⟩
      have hhead : ¬(j + 1 ∉ i :: l) := by
        rw [hj]
        exact not_not_intro mem_cons_self
      rw [if_neg hbefore] at hih
      rw [if_pos hhere, if_neg (by simpa using hhead), if_pos (by simpa [hj] using hi)]
      omega
    · have hsame : (0 < i ∧ i - 1 ∈ j :: m) ↔ 0 < i ∧ i - 1 ∈ m := by
        refine and_congr_right fun hpos => ?_
        rw [mem_cons, or_iff_right (by omega)]
      have hlast : (j + 1 ∉ i :: l) ↔ j + 1 ∉ l := by
        rw [mem_cons, or_iff_right hj]
      simp only [hsame, hlast]
      omega

theorem runs_cons {l : List Nat} {i : Nat} (hnodup : l.Nodup) (hi : i ∉ l) :
    runs (i :: l) + (if i + 1 ∈ l then 1 else 0) + (if 0 < i ∧ i - 1 ∈ l then 1 else 0) =
      runs l + 1 := by
  have hothers := countP_last hnodup hi
  have hself : (i + 1 ∈ i :: l) ↔ i + 1 ∈ l := by
    rw [mem_cons, or_iff_right (by omega)]
  unfold runs
  rw [countP_cons]
  by_cases hnext : i + 1 ∈ l
  · simp only [hself, hnext, not_true, decide_false, Bool.false_eq_true, if_false, if_true]
    omega
  · simp only [hself, hnext, not_false_eq_true, decide_true, if_true, if_false]
    omega

theorem runs_perm {l m : List Nat} (h : l.Perm m) : runs l = runs m := by
  unfold runs
  rw [h.countP_eq]
  simp only [h.mem_iff]
