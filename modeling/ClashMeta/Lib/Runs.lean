import Mathlib.Data.List.Destutter

/-!
# Runs of equal elements

Removing every element that equals its left neighbour (`List.destutter (· ≠ ·)`, the `dedup` of
Rust's vectors) leaves one element of each run. Whether the keys of what is left are distinct
is a question about the list before: `Grouped key l` says that two elements have one key only
within a run of equal elements.
-/

namespace Runs

open List Option

variable {α β κ ι : Type*} [DecidableEq α] [DecidableEq β]

/-- Elements with one key stand next to each other and are equal. -/
def Grouped (key : α → κ) : List α → Prop
  | [] => True
  | a :: l => (∀ b ∈ l.dropWhile (· = a), key b ≠ key a) ∧ Grouped key l

/-- No element of the second list has the key of one of the first, apart from copies of the
last of the first at the front of the second. -/
def Parted (key : α → κ) (l m : List α) : Prop :=
  ∀ b ∈ m.dropWhile fun b => l.getLast? = some b, ∀ a ∈ l, key a ≠ key b

variable {key : α → κ} {l m : List α}

/-! ## What is left of a list -/

variable {a x : α}

theorem mem_destutter' : x ∈ l.destutter' (· ≠ ·) a ↔ x ∈ a :: l := by
  induction l generalizing a with
  | nil => simp
  | cons b l ih =>
    by_cases h : a ≠ b
    · rw [List.destutter'_cons_pos _ h, mem_cons, ih, mem_cons (b := a)]
    · obtain rfl := not_not.mp h
      rw [List.destutter'_cons_neg _ h, ih]
      simp

theorem mem_destutter : x ∈ l.destutter (· ≠ ·) ↔ x ∈ l := by
  cases l with
  | nil => rfl
  | cons a l => exact mem_destutter'

/-- **The keys that are left are distinct exactly when the list is grouped.** -/
theorem nodup_destutter_iff : ((l.destutter (· ≠ ·)).map key).Nodup ↔ Grouped key l := by
  cases l with
  | nil => simp [Grouped]
  | cons a l =>
    rw [destutter_cons']
    induction l generalizing a with
    | nil => simp [Grouped]
    | cons b l ih =>
      by_cases h : a ≠ b
      · rw [List.destutter'_cons_pos _ h, map_cons, nodup_cons, ih b]
        have hdrop : (b :: l).dropWhile (· = a) = b :: l :=
          dropWhile_cons_of_neg (by simpa using Ne.symm h)
        rw [Grouped.eq_def key (a :: b :: l)]
        simp only [hdrop, List.mem_map, mem_destutter']
        refine and_congr_left fun _ => ⟨fun hnot x hx heq => hnot ⟨x, hx, heq⟩, ?_⟩
        rintro hall ⟨x, hx, heq⟩
        exact hall x hx heq
      · obtain rfl := not_not.mp h
        rw [List.destutter'_cons_neg _ h, ih a]
        have hdrop : (a :: l).dropWhile (· = a) = l.dropWhile (· = a) :=
          dropWhile_cons_of_pos (by simp)
        rw [Grouped.eq_def key (a :: a :: l)]
        simp only [hdrop]
        exact (and_iff_right_of_imp fun hg => hg.1).symm

/-! ## Grouped lists -/

theorem grouped_of_nodup (h : (l.map key).Nodup) : Grouped key l := by
  induction l with
  | nil => trivial
  | cons a l ih =>
    rw [map_cons, nodup_cons] at h
    refine ⟨fun b hb heq => h.1 ?_, ih h.2⟩
    exact mem_map.mpr ⟨b, (dropWhile_sublist _).subset hb, heq⟩

/-- How lists come to be grouped. -/
theorem grouped_of_sorted {r : α → α → Prop} (hanti : ∀ a b, r a b → r b a → a = b)
    (h : l.Pairwise r) : Grouped id l := by
  induction l with
  | nil => trivial
  | cons a l ih =>
    rw [pairwise_cons] at h
    refine ⟨?_, ih h.2⟩
    clear ih
    obtain ⟨hle, hl⟩ := h
    induction l with
    | nil => simp
    | cons b l ih =>
      rw [pairwise_cons] at hl
      by_cases hb : b = a
      · rw [dropWhile_cons_of_pos (by simpa using hb)]
        exact ih (fun x hx => hle x (mem_cons_of_mem _ hx)) hl.2
      · rw [dropWhile_cons_of_neg (by simpa using hb)]
        rintro x hx rfl
        rcases mem_cons.mp hx with rfl | hx
        · exact hb rfl
        · exact hb (hanti b x (hl.1 x hx) (hle b mem_cons_self))

/-! ## Dropping at the front -/

section

variable {γ δ : Type*} {l : List γ} {a : γ} {f : γ → Option δ}

theorem getLast_mem_dropWhile {p : γ → Bool} (hne : l.dropWhile p ≠ []) :
    ∃ x ∈ l.dropWhile p, ∀ a, (a :: l).getLast? = some x := by
  obtain ⟨front, hfront⟩ := dropWhile_suffix p (l := l)
  refine ⟨(l.dropWhile p).getLast hne, getLast_mem hne, fun a => ?_⟩
  rw [← getLast?_eq_some_getLast hne]
  nth_rewrite 1 [← hfront]
  rw [← cons_append, getLast?_append_of_ne_nil _ hne]

theorem mem_dropWhile_or {p : γ → Bool} {x : γ} (h : x ∈ l) : x ∈ l.dropWhile p ∨ p x = true := by
  induction l with
  | nil => cases h
  | cons y l ih =>
    by_cases hy : p y = true
    · rw [dropWhile_cons_of_pos hy]
      rcases mem_cons.mp h with rfl | h
      · exact .inr hy
      · exact ih h
    · rw [dropWhile_cons_of_neg hy]
      exact .inl h

/-- In a list without repetitions at most the first element is dropped, if only one can be. -/
theorem mem_dropWhile_iff {p : γ → Bool} (hp : ∀ a b, p a = true → p b = true → a = b)
    (h : l.Nodup) : a ∈ l.dropWhile p ↔ a ∈ l ∧ ¬ (l.head? = some a ∧ p a = true) := by
  cases l with
  | nil => simp
  | cons c l =>
    rw [nodup_cons] at h
    by_cases hc : p c = true
    · have hdrop : l.dropWhile p = l := by
        cases l with
        | nil => rfl
        | cons d l =>
          refine dropWhile_cons_of_neg fun hd => h.1 ?_
          rw [hp c d hc hd]
          exact mem_cons_self
      rw [dropWhile_cons_of_pos hc, hdrop, mem_cons]
      constructor
      · refine fun hmem => ⟨.inr hmem, fun heq => h.1 ?_⟩
        rw [some.inj heq.1]
        exact hmem
      · rintro ⟨rfl | hmem, hnot⟩
        · exact absurd ⟨rfl, hc⟩ hnot
        · exact hmem
    · rw [dropWhile_cons_of_neg hc]
      refine ⟨fun hmem => ⟨hmem, fun heq => hc ?_⟩, And.left⟩
      rw [some.inj heq.1]
      exact heq.2

theorem findSome?_eq_head? (h : ∀ a ∈ l, (f a).isSome) : l.findSome? f = l.head?.bind f := by
  cases l with
  | nil => rfl
  | cons a l =>
    obtain ⟨x, hx⟩ := isSome_iff_exists.mp (h a mem_cons_self)
    rw [findSome?_cons, hx]
    exact hx.symm

/-- What is left of the images when some are dropped at the front. -/
theorem dropWhile_filterMap_any (p : δ → Bool) (l : List γ) :
    (l.filterMap f).dropWhile p =
      ((l.filter fun a => (f a).isSome).dropWhile fun a => (f a).any p).filterMap f := by
  induction l with
  | nil => rfl
  | cons b l ih =>
    cases hfb : f b with
    | none => rw [filterMap_cons_none hfb, filter_cons_of_neg (by simp [hfb]), ih]
    | some y =>
      rw [filterMap_cons_some hfb, filter_cons_of_pos (by simp [hfb])]
      by_cases hy : p y = true
      · rw [dropWhile_cons_of_pos hy, dropWhile_cons_of_pos (by simpa [hfb] using hy), ih]
      · rw [dropWhile_cons_of_neg hy, dropWhile_cons_of_neg (by simpa [hfb] using hy),
          filterMap_cons_some hfb, filterMap_filter]
        congr 2
        funext c
        cases hc : f c <;> simp

end

/-! ## Lists put together -/

theorem apart_cons_of_copies (hcopies : l.dropWhile (· = a) = []) :
    Parted key (a :: l) m ↔ ∀ b ∈ m.dropWhile (· = a), key b ≠ key a := by
  have hall : ∀ x ∈ a :: l, x = a := by
    intro x hx
    rcases mem_cons.mp hx with rfl | hx
    · rfl
    · rcases mem_dropWhile_or (p := (· = a)) hx with hx | hx
      · rw [hcopies] at hx
        cases hx
      · exact of_decide_eq_true hx
  have hlast : (a :: l).getLast? = some a := by
    exact congrArg some (hall _ (getLast_mem _))
  have hdrop : (m.dropWhile fun b => (a :: l).getLast? = some b) = m.dropWhile (· = a) := by
    congr 1
    funext b
    rw [hlast]
    simp [eq_comm]
  rw [Parted, hdrop]
  refine forall₂_congr fun b _ => ⟨fun h => (h a mem_cons_self).symm, fun h x hx => ?_⟩
  rw [hall x hx]
  exact h.symm

theorem Parted.tail (h : Parted key (a :: l) m) : Parted key l m := by
  cases l with
  | nil => exact nofun
  | cons c l =>
    intro b hb x hx
    refine h b ?_ x (mem_cons_of_mem a hx)
    rwa [getLast?_cons_cons]

/-- **A list put together from two** is grouped when both are and they are apart. -/
theorem grouped_append : Grouped key (l ++ m) ↔ Grouped key l ∧ Grouped key m ∧ Parted key l m := by
  induction l with
  | nil => simp [Grouped, Parted]
  | cons a l ih =>
    rw [cons_append, Grouped, Grouped, ih]
    by_cases hcopies : l.dropWhile (· = a) = []
    · -- the run of `a` reaches the second list
      have hdrop : (l ++ m).dropWhile (· = a) = m.dropWhile (· = a) := by
        rw [dropWhile_append, hcopies]
        rfl
      rw [hdrop, ← apart_cons_of_copies hcopies, hcopies]
      constructor
      · rintro ⟨hapart, hl, hm, -⟩
        exact ⟨⟨nofun, hl⟩, hm, hapart⟩
      · rintro ⟨⟨-, hl⟩, hm, hapart⟩
        exact ⟨hapart, hl, hm, hapart.tail⟩
    · -- the run of `a` ends before, and the last element is behind it
      obtain ⟨last, hmem, hlast⟩ := getLast_mem_dropWhile hcopies
      have hdrop : (l ++ m).dropWhile (· = a) = l.dropWhile (· = a) ++ m := by
        rw [dropWhile_append, if_neg (by simpa using hcopies)]
      simp only [hdrop, mem_append]
      constructor
      · rintro ⟨hfirst, hl, hm, hapart⟩
        refine ⟨⟨fun b hb => hfirst b (.inl hb), hl⟩, hm, fun b hb x hx => ?_⟩
        rcases mem_cons.mp hx with rfl | hx
        · exact (hfirst b (.inr ((dropWhile_sublist _).subset hb))).symm
        · refine hapart b ?_ x hx
          cases l with
          | nil => cases hx
          | cons c l => rwa [getLast?_cons_cons] at hb
      · rintro ⟨⟨hfirst, hl⟩, hm, hapart⟩
        refine ⟨fun b hb => ?_, hl, hm, hapart.tail⟩
        rcases hb with hb | hb
        · exact hfirst b hb
        · rcases mem_dropWhile_or (p := fun b => (a :: l).getLast? = some b) hb with hb | hb
          · exact (hapart b hb a mem_cons_self).symm
          · rw [hlast a] at hb
            cases some.inj (of_decide_eq_true hb)
            exact hfirst last hmem

variable {f : α → Option β}

/-- Taking elements one by one to others, without merging two, keeps a list grouped when the
keys agree. -/
theorem grouped_filterMap {key : β → κ} (key' : α → ι)
    (hinj : ∀ {a b x}, f a = some x → f b = some x → a = b)
    (hkey : ∀ {a b x y}, f a = some x → f b = some y → (key y = key x ↔ key' b = key' a)) :
    Grouped key (l.filterMap f) ↔ Grouped key' (l.filter fun a => (f a).isSome) := by
  induction l with
  | nil => rfl
  | cons a l ih =>
    cases hfa : f a with
    | none => rw [filterMap_cons_none hfa, filter_cons_of_neg (by simp [hfa]), ih]
    | some x =>
      have hrun : (fun b => (f b).any (· = x)) = fun b => decide (b = a) := by
        funext b
        rw [Bool.eq_iff_iff, Option.any_eq_true, decide_eq_true_eq]
        constructor
        · rintro ⟨y, hy, heq⟩
          rw [of_decide_eq_true heq] at hy
          exact hinj hy hfa
        · rintro rfl
          exact ⟨x, hfa, decide_eq_true rfl⟩
      rw [filterMap_cons_some hfa, filter_cons_of_pos (by simp [hfa]), Grouped, Grouped,
        ih, dropWhile_filterMap_any, hrun]
      refine and_congr_left fun _ => ⟨fun h b hb heq => ?_, fun h y hy heq => ?_⟩
      · obtain ⟨y, hy⟩ := isSome_iff_exists.mp
          (mem_filter.mp ((dropWhile_sublist _).subset hb)).2
        exact h y (mem_filterMap.mpr ⟨b, hb, hy⟩) ((hkey hfa hy).mpr heq)
      · obtain ⟨b, hb, hy⟩ := mem_filterMap.mp hy
        exact h b hb ((hkey hfa hy).mp heq)

end Runs
