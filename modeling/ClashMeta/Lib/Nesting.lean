import Mathlib.Data.List.MinMax

/-!
# Separated text with brackets

Text whose pieces stand between separators, where a separator inside brackets does not count and
brackets nest up to a limit. `depthAfter` reads one piece: it is refused at a closing bracket
without an opening one, at a bracket beyond the limit and at a separator outside all brackets.
A `Piece` is text that it reads from depth 0 to depth 0.

How deep brackets nest is also said without reading, by counting them in the front parts of
the text (`Nested`, `Level`); `piece_wrap` and `Piece.nested` connect the two.
-/

universe u

/-- The brackets, the separator and the nesting limit of a text format. -/
structure Nesting (α : Type u) where
  opening : α
  closing : α
  separator : α
  limit : Nat

namespace Nesting

open List

variable {α : Type u} [DecidableEq α] (n : Nesting α)

/-- The nesting depth behind the text. -/
def depthAfter : Nat → List α → Option Nat
  | depth, [] => some depth
  | depth, c :: rest =>
    if c = n.opening then
      if depth + 1 ≤ n.limit then depthAfter (depth + 1) rest else none
    else if c = n.closing then
      if 0 < depth then depthAfter (depth - 1) rest else none
    else if c = n.separator ∧ depth = 0 then none
    else depthAfter depth rest

/-- Text between two separators. -/
def Piece (s : List α) : Prop := n.depthAfter 0 s = some 0

/-- The character is neither a bracket nor the separator. -/
def Plain (c : α) : Prop := c ≠ n.opening ∧ c ≠ n.closing ∧ c ≠ n.separator

instance (c : α) : Decidable (n.Plain c) := inferInstanceAs (Decidable (_ ∧ _ ∧ _))

variable {n}

variable {s t : List α}

/-- The check of a whole text, character by character. -/
theorem plain_of_all (h : (s.all fun c => decide (n.Plain c)) = true) : ∀ c ∈ s, n.Plain c :=
  fun c hc => of_decide_eq_true (all_eq_true.mp h c hc)

/-- Reading is compositional: the second part starts at the depth where the first ends. -/
theorem depthAfter_append (depth : Nat) (s t : List α) :
    n.depthAfter depth (s ++ t) = (n.depthAfter depth s).bind (n.depthAfter · t) := by
  induction s generalizing depth with
  | nil => rfl
  | cons c s ih =>
    simp only [cons_append, depthAfter]
    split_ifs <;> first | exact ih _ | rfl

/-- Plain text leaves the depth as it is. -/
theorem depthAfter_plain (h : ∀ c ∈ s, n.Plain c) (depth : Nat) :
    n.depthAfter depth s = some depth := by
  induction s with
  | nil => rfl
  | cons c s ih =>
    obtain ⟨hc, hs⟩ := forall_mem_cons.mp h
    rw [depthAfter, if_neg hc.1, if_neg hc.2.1, if_neg (fun hsep => hc.2.2 hsep.1), ih hs]

/-- Plain text is a piece. -/
theorem piece_plain (h : ∀ c ∈ s, n.Plain c) : n.Piece s := depthAfter_plain h 0

/-- Plain text on both sides does not matter. -/
theorem piece_pad_iff {a b : List α} (ha : ∀ c ∈ a, n.Plain c) (hb : ∀ c ∈ b, n.Plain c) :
    n.Piece (a ++ s ++ b) ↔ n.Piece s := by
  unfold Piece
  rw [depthAfter_append, depthAfter_append, depthAfter_plain ha]
  show ((n.depthAfter 0 s).bind fun d => n.depthAfter d b) = some 0 ↔ _
  rw [show (fun d => n.depthAfter d b) = some from funext fun d => depthAfter_plain hb d,
    Option.bind_fun_some]

variable {d k : Nat}

/-- Of text that can be read, every front part can. -/
theorem exists_depthAfter_of_append {depth : Nat} (h : n.depthAfter depth (s ++ t) = some d) :
    ∃ d', n.depthAfter depth s = some d' := by
  rw [depthAfter_append] at h
  obtain ⟨d', hd', -⟩ := Option.bind_eq_some_iff.mp h
  exact ⟨d', hd'⟩

/-! ## Levels, by counting -/

variable (n)

/-- No place of the text lies inside more than `k` brackets. -/
def Within (k : Nat) (s : List α) : Prop :=
  ∀ p, p <+: s → p.count n.opening ≤ p.count n.closing + k

/-- The brackets of the text match, and nest at most `k` deep. -/
structure Nested (k : Nat) (s : List α) : Prop where
  matched : s.count n.opening = s.count n.closing
  closed : ∀ p, p <+: s → p.count n.closing ≤ p.count n.opening
  within : n.Within k s

/-- The brackets nest, and exactly `k` deep. -/
structure Level (k : Nat) (s : List α) : Prop extends n.Nested k s where
  reached : ∃ p, p <+: s ∧ p.count n.opening = p.count n.closing + k

variable {n}

omit [DecidableEq α] in
/-- A front part of two texts ends in the first or in the second. -/
theorem prefix_append_cases {p : List α} (h : p <+: s ++ t) :
    p <+: s ∨ ∃ q, q <+: t ∧ p = s ++ q := by
  obtain ⟨r, hr⟩ := h
  rcases append_eq_append_iff.mp hr with ⟨a, rfl, -⟩ | ⟨a, rfl, rfl⟩
  · exact .inl (prefix_append p a)
  · exact .inr ⟨a, prefix_append a r, rfl⟩

/-- Text without brackets counts none. -/
theorem count_plain (h : ∀ c ∈ s, c ≠ n.opening ∧ c ≠ n.closing) :
    s.count n.opening = 0 ∧ s.count n.closing = 0 :=
  ⟨count_eq_zero.mpr fun hc => (h _ hc).1 rfl, count_eq_zero.mpr fun hc => (h _ hc).2 rfl⟩

/-- An opening bracket counts for its own kind only. -/
theorem count_opening (hne : n.opening ≠ n.closing) (p : List α) :
    (n.opening :: p).count n.opening = p.count n.opening + 1 ∧
      (n.opening :: p).count n.closing = p.count n.closing :=
  ⟨count_cons_self, count_cons_of_ne hne⟩

/-- Text without brackets is at level 0. -/
theorem level_plain (h : ∀ c ∈ s, c ≠ n.opening ∧ c ≠ n.closing) : n.Level 0 s := by
  have hcount : ∀ p, p <+: s → p.count n.opening = 0 ∧ p.count n.closing = 0 :=
    fun p hp => count_plain fun c hc => h c (hp.subset hc)
  refine ⟨⟨?_, fun p hp => ?_, fun p hp => ?_⟩, [], nil_prefix, rfl⟩
  · rw [(count_plain h).1, (count_plain h).2]
  · rw [(hcount p hp).2]
    exact Nat.zero_le _
  · rw [(hcount p hp).1]
    exact Nat.zero_le _

/-- A higher limit admits what a lower one does. -/
theorem Nested.mono {k' : Nat} (h : n.Nested k s) (hle : k ≤ k') : n.Nested k' s :=
  ⟨h.matched, h.closed, fun p hp => le_trans (h.within p hp) (by omega)⟩

/-- Nested texts side by side are nested no deeper. -/
theorem Nested.append (hs : n.Nested k s) (ht : n.Nested k t) : n.Nested k (s ++ t) := by
  have hmatched := hs.matched
  constructor
  · rw [count_append, count_append, hs.matched, ht.matched]
  · intro p hp
    rcases prefix_append_cases hp with hp | ⟨q, hq, rfl⟩
    · exact hs.closed p hp
    · have hclosed := ht.closed q hq
      rw [count_append, count_append]
      omega
  · intro p hp
    rcases prefix_append_cases hp with hp | ⟨q, hq, rfl⟩
    · exact hs.within p hp
    · have hwithin := ht.within q hq
      rw [count_append, count_append]
      omega

/-- Side by side the deeper text decides the level. -/
theorem Level.append {j : Nat} (hs : n.Level j s) (ht : n.Level k t) :
    n.Level (max j k) (s ++ t) := by
  refine ⟨(hs.toNested.mono (le_max_left j k)).append (ht.toNested.mono (le_max_right j k)), ?_⟩
  rcases le_total j k with hle | hle
  · obtain ⟨p, hp, hcount⟩ := ht.reached
    refine ⟨s ++ p, (prefix_append_right_inj s).mpr hp, ?_⟩
    have hmatched := hs.matched
    rw [count_append, count_append]
    omega
  · obtain ⟨p, hp, hcount⟩ := hs.reached
    exact ⟨p, hp.trans (prefix_append s t), by rw [max_eq_left hle, hcount]⟩

/-- Brackets around a text raise its level by one. -/
theorem Level.wrap (hne : n.opening ≠ n.closing) (h : n.Level k s) :
    n.Level (k + 1) (n.opening :: s ++ [n.closing]) := by
  have hopen := count_opening hne
  have hclose : [n.closing].count n.opening = 0 ∧ [n.closing].count n.closing = 1 :=
    ⟨count_eq_zero.mpr fun hm => hne (mem_singleton.mp hm), count_singleton_self⟩
  have hmatched := h.matched
  -- a front part is empty, ends inside the text or is everything
  have hfront : ∀ p, p <+: n.opening :: s ++ [n.closing] →
      p.count n.closing ≤ p.count n.opening ∧ p.count n.opening ≤ p.count n.closing + (k + 1) := by
    intro p hp
    cases p with
    | nil => exact ⟨Nat.le_refl _, Nat.zero_le _⟩
    | cons c p =>
      obtain ⟨rfl, hp'⟩ := cons_prefix_cons.mp hp
      rw [(hopen p).1, (hopen p).2]
      rcases prefix_append_cases hp' with hp | ⟨q, hq, rfl⟩
      · have hclosed := h.closed p hp
        have hwithin := h.within p hp
        omega
      · have hq1 : q.count n.opening = 0 :=
          Nat.le_zero.mp (hclose.1 ▸ hq.sublist.count_le n.opening)
        have hq2 : q.count n.closing ≤ 1 := hclose.2 ▸ hq.sublist.count_le n.closing
        rw [count_append, count_append]
        omega
  refine ⟨⟨?_, fun p hp => (hfront p hp).1, fun p hp => (hfront p hp).2⟩, ?_⟩
  · rw [count_append, count_append, (hopen s).1, (hopen s).2]
    omega
  · obtain ⟨p, hp, hcount⟩ := h.reached
    refine ⟨n.opening :: p, ?_, ?_⟩
    · exact cons_prefix_cons.mpr ⟨rfl, hp.trans (prefix_append s _)⟩
    · rw [(hopen p).1, (hopen p).2]
      omega

/-- The level is the least limit that a text is within. -/
theorem Level.within_iff {j : Nat} (h : n.Level j s) : n.Within k s ↔ j ≤ k := by
  constructor
  · intro hk
    obtain ⟨p, hp, hcount⟩ := h.reached
    have hle := hk p hp
    omega
  · exact fun hle => (h.toNested.mono hle).within

section

variable (hne : n.opening ≠ n.closing)

include hne

/-- A text can be read if all its front parts stay inside the brackets already open and below the
limit; the depth behind it is then the count of brackets. -/
theorem exists_depthAfter
    (h : ∀ p, p <+: s → p.count n.closing < d + p.count n.opening ∧
      d + p.count n.opening ≤ p.count n.closing + n.limit) :
    ∃ e, n.depthAfter d s = some e ∧ e + s.count n.closing = d + s.count n.opening := by
  -- on the text: a character moves the depth, and the bound for the front parts with it
  induction s generalizing d with
  | nil => exact ⟨d, rfl, rfl⟩
  | cons c s ih =>
    have hpos : 0 < d := (h [] nil_prefix).1
    have hone := h [c] (cons_prefix_cons.mpr ⟨rfl, nil_prefix⟩)
    have hrest : ∀ p, p <+: s → _ := fun p hp => h (c :: p) (cons_prefix_cons.mpr ⟨rfl, hp⟩)
    unfold depthAfter
    by_cases hopen : c = n.opening
    · subst hopen
      have hcount := count_opening hne
      simp only [hcount, count_nil] at hone hrest
      rw [if_pos rfl, if_pos (by omega)]
      obtain ⟨e, he, heq⟩ := ih (d := d + 1) fun p hp => (by have := hrest p hp; omega)
      exact ⟨e, he, by rw [(hcount s).1, (hcount s).2]; omega⟩
    · by_cases hclose : c = n.closing
      · subst hclose
        have hcount : ∀ p : List α, (n.closing :: p).count n.opening = p.count n.opening ∧
            (n.closing :: p).count n.closing = p.count n.closing + 1 :=
          fun p => ⟨count_cons_of_ne hopen, count_cons_self⟩
        simp only [hcount, count_nil] at hone hrest
        rw [if_neg hopen, if_pos rfl, if_pos hpos]
        obtain ⟨e, he, heq⟩ := ih (d := d - 1) fun p hp => (by have := hrest p hp; omega)
        exact ⟨e, he, by rw [(hcount s).1, (hcount s).2]; omega⟩
      · have hcount : ∀ p : List α, (c :: p).count n.opening = p.count n.opening ∧
            (c :: p).count n.closing = p.count n.closing :=
          fun p => ⟨count_cons_of_ne hopen, count_cons_of_ne hclose⟩
        simp only [hcount] at hrest
        rw [if_neg hopen, if_neg hclose, if_neg (fun hsep => hpos.ne' hsep.2)]
        rw [(hcount s).1, (hcount s).2]
        exact ih hrest

/-- A nested text in brackets is a piece, if the limit leaves room for the brackets. -/
theorem piece_wrap (h : n.Nested k s) (hk : k + 1 ≤ n.limit) :
    n.Piece (n.opening :: s ++ [n.closing]) := by
  -- the text is read behind the opening bracket, from depth 1, and ends there
  obtain ⟨e, he, heq⟩ := exists_depthAfter (d := 1) hne fun p hp => by
    have hclosed := h.closed p hp
    have hwithin := h.within p hp
    omega
  obtain rfl : e = 1 := by
    have hmatched := h.matched
    omega
  unfold Piece
  rw [cons_append, depthAfter, if_pos rfl, if_pos (by omega), depthAfter_append, he]
  show n.depthAfter 1 [n.closing] = some 0
  rw [depthAfter, if_neg hne.symm, if_pos rfl, if_pos Nat.one_pos, depthAfter]

/-- What reading has established: every front part keeps the depth between 0 and the limit. -/
theorem counts_of_depthAfter {e : Nat} (hd : d ≤ n.limit)
    (h : n.depthAfter d s = some e) :
    e + s.count n.closing = d + s.count n.opening ∧ ∀ p, p <+: s →
      p.count n.closing ≤ d + p.count n.opening ∧
        d + p.count n.opening ≤ p.count n.closing + n.limit := by
  induction s generalizing d with
  | nil =>
    cases h
    refine ⟨rfl, fun p hp => ?_⟩
    rw [prefix_nil.mp hp]
    exact ⟨Nat.zero_le _, by simpa using hd⟩
  | cons c s ih =>
    -- the front parts of the text: the empty one, and those of the rest behind the character
    have hfront : ∀ {P : List α → Prop}, P [] → (∀ p, p <+: s → P (c :: p)) →
        ∀ p, p <+: c :: s → P p := by
      intro P hnil hcons p hp
      cases p with
      | nil => exact hnil
      | cons c' p =>
        obtain ⟨rfl, hp'⟩ := cons_prefix_cons.mp hp
        exact hcons p hp'
    have hempty : ([] : List α).count n.closing ≤ d + ([] : List α).count n.opening ∧
        d + ([] : List α).count n.opening ≤ ([] : List α).count n.closing + n.limit := by
      simpa using hd
    unfold depthAfter at h
    split at h
    · rename_i hopen
      subst hopen
      split at h
      · rename_i hle
        obtain ⟨heq, hrest⟩ := ih hle h
        refine ⟨?_, hfront hempty fun p hp => ?_⟩
        · rw [count_cons_self, count_cons_of_ne hne]
          omega
        · have hp := hrest p hp
          rw [count_cons_self, count_cons_of_ne hne]
          omega
      · cases h
    split at h
    · rename_i hopen hclose
      subst hclose
      split at h
      · obtain ⟨heq, hrest⟩ := ih (by omega) h
        refine ⟨?_, hfront hempty fun p hp => ?_⟩
        · rw [count_cons_self, count_cons_of_ne hopen]
          omega
        · have hp := hrest p hp
          rw [count_cons_self, count_cons_of_ne hopen]
          omega
      · cases h
    split at h
    · cases h
    · rename_i hopen hclose _
      obtain ⟨heq, hrest⟩ := ih hd h
      refine ⟨?_, hfront hempty fun p hp => ?_⟩
      · rw [count_cons_of_ne hopen, count_cons_of_ne hclose]
        exact heq
      · rw [count_cons_of_ne hopen, count_cons_of_ne hclose]
        exact hrest p hp

/-- A piece is nested within the limit. -/
theorem Piece.nested (h : n.Piece s) : n.Nested n.limit s := by
  obtain ⟨heq, hfront⟩ := counts_of_depthAfter hne (Nat.zero_le _) h
  refine ⟨by omega, fun p hp => ?_, fun p hp => ?_⟩
  · have hp := hfront p hp
    omega
  · have hp := hfront p hp
    omega

end

end Nesting
