import Mathlib.Algebra.Group.Nat.Defs
import Mathlib.Data.List.Basic

/-!
# Numerals in text

Numbers are printed with `Nat.toDigits` and read by scanners that take the longest run of
digits off the front of a text.
-/

namespace Numeral

open List Option

/-- The value of a digit. -/
def digit? (radix : Nat) (c : Char) : Option Nat :=
  let value :=
    if '0' ≤ c ∧ c ≤ '9' then some (c.toNat - 48)
    else if 'a' ≤ c ∧ c ≤ 'z' then some (c.toNat - 87)
    else if 'A' ≤ c ∧ c ≤ 'Z' then some (c.toNat - 55)
    else none
  value.filter (· < radix)

/-- The digits at the front of a text, and the rest. -/
def span (radix : Nat) : List Char → List Nat × List Char
  | [] => ([], [])
  | c :: s =>
    match digit? radix c with
    | some d => (d :: (span radix s).1, (span radix s).2)
    | none => ([], c :: s)

/-- The number with some digits, most significant first. -/
def value (base : Nat) (digits : List Nat) : Nat := digits.foldl (fun n d => n * base + d) 0

/-- The number at the front of a text: it has a digit, at most `most` of them, no zero in front
of others unless `zeros`, and lies below `limit`. -/
def read (radix limit : Nat) (most : Option Nat) (zeros : Bool) (s : List Char) :
    Option (Nat × List Char) :=
  let r := span radix s
  if r.1 = [] ∨ most.any (· < r.1.length) ∨ (zeros = false ∧ s.head? = some '0' ∧ 1 < r.1.length)
  then none
  else if value radix r.1 < limit then some (value radix r.1, r.2)
  else none

/-- The last `k` digits of a number. -/
def expand (base : Nat) : Nat → Nat → List Nat
  | 0, _ => []
  | k + 1, n => expand base k (n / base) ++ [n % base]

variable {radix : Nat}

/-- A digit more. -/
theorem value_append (base : Nat) (front : List Nat) (d : Nat) :
    value base (front ++ [d]) = value base front * base + d := by
  unfold value
  rw [foldl_append, foldl_cons, foldl_nil]

@[simp] theorem length_expand (base k n : Nat) : (expand base k n).length = k := by
  induction k generalizing n with
  | zero => rfl
  | succ k ih => rw [expand, length_append, ih, length_singleton]

/-- The expansion keeps the last `k` digits. -/
theorem value_expand (base k n : Nat) : value base (expand base k n) = n % base ^ k := by
  induction k generalizing n with
  | zero => rw [Nat.pow_zero, Nat.mod_one]; rfl
  | succ k ih =>
    rw [expand, value_append, ih, Nat.pow_succ, mul_comm (base ^ k), Nat.mod_mul,
      mul_comm, add_comm]

variable {d n limit : Nat}

theorem lt_of_mem_expand {base : Nat} (hbase : 0 < base) {k : Nat} (h : d ∈ expand base k n) :
    d < base := by
  induction k generalizing n with
  | zero => cases h
  | succ k ih =>
    rw [expand, mem_append, mem_singleton] at h
    rcases h with h | rfl
    · exact ih h
    · exact Nat.mod_lt _ hbase

/-! ## Printed numbers -/

theorem digit?_digitChar (hd : d < radix) (hradix : radix ≤ 16) :
    digit? radix (Nat.digitChar d) = some d := by
  have hall : ∀ d < 16, digit? 16 (Nat.digitChar d) = some d := by decide
  have h16 := hall d (Nat.lt_of_lt_of_le hd hradix)
  unfold digit? at h16 ⊢
  rw [filter_eq_some_iff] at h16 ⊢
  exact ⟨h16.1, decide_eq_true hd⟩

/-- The printed digits are digits, of this value. -/
theorem toDigits_digits (hradix : 1 < radix) (h16 : radix ≤ 16) (n : Nat) :
    (∀ c ∈ Nat.toDigits radix n, (digit? radix c).isSome) ∧
      value radix ((Nat.toDigits radix n).filterMap (digit? radix)) = n := by
  induction n using Nat.strongRecOn with
  | ind n ih =>
    rw [Nat.toDigits_eq_if hradix]
    split
    · rename_i hlt
      rw [forall_mem_singleton, filterMap_cons_some (digit?_digitChar hlt h16),
        digit?_digitChar hlt h16]
      exact ⟨rfl, by simp [value]⟩
    · rename_i hge
      obtain ⟨hall, hvalue⟩ := ih (n / radix) (Nat.div_lt_self (by omega) hradix)
      have hmod : n % radix < radix := Nat.mod_lt _ (by omega)
      refine ⟨?_, ?_⟩
      · rw [forall_mem_append, forall_mem_singleton, digit?_digitChar hmod h16]
        exact ⟨hall, rfl⟩
      · rw [filterMap_append, filterMap_cons_some (digit?_digitChar hmod h16),
          filterMap_nil, value_append, hvalue, mul_comm]
        exact Nat.div_add_mod n radix

/-- No zero in front. -/
theorem head?_toDigits_ne (hradix : 1 < radix) (h16 : radix ≤ 16) (hn : 0 < n) :
    (Nat.toDigits radix n).head? ≠ some '0' := by
  induction n using Nat.strongRecOn with
  | ind n ih =>
    rw [Nat.toDigits_eq_if hradix]
    split
    · rw [head?_cons, ne_eq, some.injEq, Nat.digitChar_eq_zero]
      omega
    · rename_i hge
      have hdiv : 0 < n / radix := Nat.div_pos (Nat.le_of_not_lt hge) (by omega)
      rw [head?_append_of_ne_nil _ Nat.toDigits_ne_nil]
      exact ih (n / radix) (Nat.div_lt_self (by omega) hradix) hdiv

/-! ## Reading -/

/-- A text that does not begin with a digit. -/
def Stops (radix : Nat) (s : List Char) : Prop := ∀ c, s.head? = some c → digit? radix c = none

theorem stops_nil (radix : Nat) : Stops radix [] := fun c h => (by cases h)

variable {s t : List Char}

theorem stops_cons {c : Char} (h : digit? radix c = none) : Stops radix (c :: s) := by
  intro d hd
  cases hd
  exact h

theorem span_of_stops (h : Stops radix s) : span radix s = ([], s) := by
  cases s with
  | nil => rfl
  | cons c s => rw [span, h c rfl]

/-- The digits up to the first character that is none. -/
theorem span_append (hs : ∀ c ∈ s, (digit? radix c).isSome) (ht : Stops radix t) :
    span radix (s ++ t) = (s.filterMap (digit? radix), t) := by
  induction s with
  | nil => exact span_of_stops ht
  | cons c s ih =>
    rw [forall_mem_cons] at hs
    obtain ⟨d, hd⟩ := isSome_iff_exists.mp hs.1
    rw [cons_append, span, hd, ih hs.2, filterMap_cons_some hd]

theorem span_suffix (radix : Nat) (s : List Char) : (span radix s).2 <:+ s := by
  induction s with
  | nil => exact suffix_rfl
  | cons c s ih =>
    rw [span]
    split
    · exact ih.trans (suffix_cons c s)
    · exact suffix_rfl

variable {most : Option Nat}

/-- What is left is the end of the text. -/
theorem read_suffix {zeros : Bool} {r : Nat × List Char}
    (h : read radix limit most zeros s = some r) : r.2 <:+ s := by
  unfold read at h
  dsimp only at h
  split at h
  · cases h
  split at h
  · cases h
    exact span_suffix radix s
  · cases h

theorem read_of_stops (limit : Nat) (most : Option Nat) (zeros : Bool) (h : Stops radix s) :
    read radix limit most zeros s = none := by
  unfold read
  rw [span_of_stops h]
  exact if_pos (.inl rfl)

/-- **A printed number is read back**, with what is behind it left over. -/
theorem read_toDigits (hradix : 1 < radix) (h16 : radix ≤ 16) (hn : n < limit)
    (hmost : ∀ m, most = some m → (Nat.toDigits radix n).length ≤ m) (zeros : Bool)
    (ht : Stops radix t) :
    read radix limit most zeros (Nat.toDigits radix n ++ t) = some (n, t) := by
  obtain ⟨hall, hvalue⟩ := toDigits_digits hradix h16 n
  have hlength : ((Nat.toDigits radix n).filterMap (digit? radix)).length =
      (Nat.toDigits radix n).length := filterMap_length_eq_length.mpr hall
  have hne : (Nat.toDigits radix n).filterMap (digit? radix) ≠ [] := by
    intro hnil
    rw [hnil] at hlength
    exact Nat.toDigits_ne_nil (length_eq_zero_iff.mp hlength.symm)
  unfold read
  dsimp only
  rw [span_append hall ht, hvalue, if_neg, if_pos hn]
  rintro (hnil | hmany | ⟨-, hzero, hlong⟩)
  · exact hne hnil
  · obtain ⟨m, hm, hlt⟩ := (any_eq_true _ _).mp hmany
    have hle := hmost m hm
    have hlt : m < ((Nat.toDigits radix n).filterMap (digit? radix)).length := of_decide_eq_true hlt
    omega
  · rw [head?_append_of_ne_nil _ Nat.toDigits_ne_nil] at hzero
    rcases Nat.eq_zero_or_pos n with rfl | hpos
    · rw [hlength, Nat.toDigits_zero] at hlong
      exact absurd hlong (by decide)
    · exact head?_toDigits_ne hradix h16 hpos hzero

end Numeral
