import Mathlib.Data.List.Sort

/-!
# Merging intervals of numbers

Closed intervals of numbers as pairs of their ends. Sorted by their starts they can be merged
in one pass: an interval that starts in the last one, or right behind it, extends it.
-/

namespace Segments

open List

/-- An interval of the list covers the number. -/
def Covers (l : List (Nat × Nat)) (x : Nat) : Prop := ∃ r ∈ l, r.1 ≤ x ∧ x ≤ r.2

@[simp] theorem covers_cons {r : Nat × Nat} {l : List (Nat × Nat)} {x : Nat} :
    Covers (r :: l) x ↔ (r.1 ≤ x ∧ x ≤ r.2) ∨ Covers l x := by
  simp [Covers]

/-- The lexicographic order of the ends. -/
def Lex (a b : Nat × Nat) : Prop := a.1 < b.1 ∨ (a.1 = b.1 ∧ a.2 ≤ b.2)

instance : DecidableRel Lex := fun _ _ => inferInstanceAs (Decidable (_ ∨ _))

instance : Std.Total Lex where
  total a b := by
    unfold Lex
    omega

instance : IsTrans (Nat × Nat) Lex where
  trans a b c hab hbc := by
    unfold Lex at *
    omega

theorem Lex.start_le {a b : Nat × Nat} (h : Lex a b) : a.1 ≤ b.1 := by
  unfold Lex at h
  omega

/-- The second interval starts behind the first, and not right behind it. -/
def Apart (a b : Nat × Nat) : Prop := a.2 + 1 < b.1

/-- The pass over sorted intervals, from the last merged one on. -/
def coalesce (top : Nat) : Nat × Nat → List (Nat × Nat) → List (Nat × Nat)
  | last, [] => [last]
  | last, r :: rest =>
    if r.1 ≤ min (last.2 + 1) top then coalesce top (last.1, max last.2 r.2) rest
    else last :: coalesce top r rest

/-- The merged list of a sorted one. -/
def merge (top : Nat) : List (Nat × Nat) → List (Nat × Nat)
  | [] => []
  | r :: rest => coalesce top r rest

/-- What the pass needs: intervals that are not empty, start below the largest number, and
stand in the order of their starts. -/
structure Sorted (top : Nat) (l : List (Nat × Nat)) : Prop where
  nonempty : ∀ r ∈ l, r.1 ≤ r.2
  below : ∀ r ∈ l, r.1 ≤ top
  starts : l.Pairwise fun a b => a.1 ≤ b.1

section

variable {top x : Nat} {last r : Nat × Nat} {rest : List (Nat × Nat)}

theorem Sorted.tail (h : Sorted top (last :: rest)) : Sorted top rest where
  nonempty r hr := h.nonempty r (mem_cons_of_mem _ hr)
  below r hr := h.below r (mem_cons_of_mem _ hr)
  starts := (pairwise_cons.mp h.starts).2

theorem Sorted.swallow (h : Sorted top (last :: r :: rest)) :
    Sorted top ((last.1, max last.2 r.2) :: rest) where
  nonempty := by
    have hlast := h.nonempty last mem_cons_self
    refine forall_mem_cons.mpr ⟨?_, h.tail.tail.nonempty⟩
    exact hlast.trans (le_max_left _ _)
  below := forall_mem_cons.mpr ⟨h.below last mem_cons_self, h.tail.tail.below⟩
  starts := by
    obtain ⟨hlast, hrest⟩ := pairwise_cons.mp h.starts
    refine pairwise_cons.mpr ⟨fun r' hr' => ?_, h.tail.tail.starts⟩
    exact hlast r' (mem_cons_of_mem _ hr')

theorem apart_of_not_le (hbelow : r.1 ≤ top) (h : ¬ r.1 ≤ min (last.2 + 1) top) : Apart last r := by
  unfold Apart
  omega

section

variable (h : Sorted top (last :: rest))

include h

theorem covers_coalesce : Covers (coalesce top last rest) x ↔ Covers (last :: rest) x := by
  induction rest generalizing last with
  | nil => exact .rfl
  | cons r rest ih =>
    rw [coalesce]
    split
    · rename_i hjoins
      rw [ih h.swallow, covers_cons, covers_cons, covers_cons, ← or_assoc]
      have hstart := (pairwise_cons.mp h.starts).1 r mem_cons_self
      refine or_congr_left ?_
      omega
    · rw [covers_cons, ih h.tail, ← covers_cons]

theorem start_le_of_mem_coalesce : ∀ s ∈ coalesce top last rest, last.1 ≤ s.1 := by
  induction rest generalizing last with
  | nil =>
    intro s hs
    rw [mem_singleton.mp hs]
  | cons r rest ih =>
    intro s hs
    rw [coalesce] at hs
    split at hs
    · exact ih h.swallow s hs
    · rcases mem_cons.mp hs with rfl | hs
      · exact le_refl _
      · exact ((pairwise_cons.mp h.starts).1 r mem_cons_self).trans (ih h.tail s hs)

theorem apart_coalesce : (coalesce top last rest).Pairwise Apart := by
  induction rest generalizing last with
  | nil => exact pairwise_singleton _ _
  | cons r rest ih =>
    rw [coalesce]
    split
    · exact ih h.swallow
    · rename_i hgap
      refine pairwise_cons.mpr ⟨fun s hs => ?_, ih h.tail⟩
      have hr := apart_of_not_le (h.below r (mem_cons_of_mem _ mem_cons_self)) hgap
      exact lt_of_lt_of_le hr (start_le_of_mem_coalesce h.tail s hs)

theorem nonempty_coalesce : ∀ s ∈ coalesce top last rest, s.1 ≤ s.2 := by
  induction rest generalizing last with
  | nil => exact h.nonempty
  | cons r rest ih =>
    rw [coalesce]
    split
    · exact ih h.swallow
    · exact forall_mem_cons.mpr ⟨h.nonempty last mem_cons_self, ih h.tail⟩

end

end

/-- Intervals in increasing order with a gap between neighbours. -/
structure Merged (l : List (Nat × Nat)) : Prop where
  nonempty : ∀ r ∈ l, r.1 ≤ r.2
  apart : l.Pairwise Apart

section

variable {top x : Nat} {l : List (Nat × Nat)}

/-- Merging keeps the numbers that are covered. -/
theorem covers_merge (h : Sorted top l) : Covers (merge top l) x ↔ Covers l x := by
  cases l with
  | nil => exact .rfl
  | cons r rest => exact covers_coalesce h

/-- Merged intervals leave at least one number between neighbours. -/
theorem apart_merge (h : Sorted top l) : Merged (merge top l) := by
  cases l with
  | nil => exact ⟨fun r hr => (by cases hr), .nil⟩
  | cons r rest => exact ⟨nonempty_coalesce h, apart_coalesce h⟩

theorem sorted_insertionSort (hnonempty : ∀ r ∈ l, r.1 ≤ r.2) (hbelow : ∀ r ∈ l, r.1 ≤ top) :
    Sorted top (l.insertionSort Lex) where
  nonempty r hr := hnonempty r ((mem_insertionSort Lex).mp hr)
  below r hr := hbelow r ((mem_insertionSort Lex).mp hr)
  starts := (pairwise_insertionSort Lex l).imp Lex.start_le

theorem covers_insertionSort : Covers (l.insertionSort Lex) x ↔ Covers l x := by
  exact exists_congr fun r => and_congr_left fun _ => mem_insertionSort Lex

/-! ## Looking a number up -/

/-- The last interval before the point where the starts pass the number. -/
def lastStarting (l : List (Nat × Nat)) (x : Nat) : Option (Nat × Nat) :=
  (l.takeWhile fun r => r.1 ≤ x).getLast?

theorem Merged.tail {r : Nat × Nat} (h : Merged (r :: l)) : Merged l :=
  ⟨fun r' hr' => h.nonempty r' (mem_cons_of_mem _ hr'), (pairwise_cons.mp h.apart).2⟩

theorem takeWhile_eq_filter (h : Merged l) :
    (l.takeWhile fun r => r.1 ≤ x) = l.filter fun r => r.1 ≤ x := by
  induction l with
  | nil => rfl
  | cons r l ih =>
    by_cases hr : r.1 ≤ x
    · rw [takeWhile_cons_of_pos (by simpa using hr),
        filter_cons_of_pos (by simpa using hr), ih h.tail]
    · rw [takeWhile_cons_of_neg (by simpa using hr),
        filter_cons_of_neg (by simpa using hr), eq_comm, filter_eq_nil_iff]
      intro s hs hle
      have hgap : r.2 + 1 < s.1 := (pairwise_cons.mp h.apart).1 s hs
      have hne := h.nonempty r mem_cons_self
      have hsx := of_decide_eq_true hle
      omega

/-- **Only one interval can cover a number**: the last that does not start behind it. -/
theorem covers_iff_lastStarting (h : Merged l) :
    Covers l x ↔ ∃ r, lastStarting l x = some r ∧ x ≤ r.2 := by
  unfold lastStarting
  rw [takeWhile_eq_filter h]
  constructor
  · rintro ⟨r, hr, hstart, hend⟩
    obtain ⟨front, back, rfl⟩ := append_of_mem hr
    obtain ⟨-, hback, -⟩ := pairwise_append.mp h.apart
    -- what stands behind the interval starts behind the number
    have hnone : back.filter (fun s => decide (s.1 ≤ x)) = [] := by
      refine filter_eq_nil_iff.mpr fun s hs hle => ?_
      have hgap : r.2 + 1 < s.1 := (pairwise_cons.mp hback).1 s hs
      have hsx := of_decide_eq_true hle
      omega
    refine ⟨r, ?_, hend⟩
    rw [filter_append, filter_cons_of_pos (by simpa using hstart), hnone, getLast?_append]
    rfl
  · rintro ⟨r, hr, hend⟩
    have hmem := mem_of_getLast? hr
    obtain ⟨hl, hstart⟩ := mem_filter.mp hmem
    exact ⟨r, hl, of_decide_eq_true hstart, hend⟩

end

end Segments
