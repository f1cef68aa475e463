import ClashMeta.Lib.Checked
import ClashMeta.Lib.Ranges

/-!
# Slices that panic

The operations on byte slices that panic when an index, a length or a difference is out of
range, as functions that say so.
-/

/-- A panic. -/
inductive Panic where
  | bounds
  | underflow
  | overflow
  deriving DecidableEq, Repr

/-- How a program is built: with overflow checks, or with sums that wrap. -/
inductive Build where
  | debug
  | release
  deriving DecidableEq, Repr

namespace Slice

open List

variable {α : Type}

/-- `s[i]`. -/
def index (s : List α) (i : Nat) : Except Panic α :=
  match s[i]? with
  | some a => .ok a
  | none => .error .bounds

/-- `s[i] = a`. -/
def update (s : List α) (i : Nat) (a : α) : Except Panic (List α) := do
  ensure (i < s.length) Panic.bounds
  return s.set i a

/-- `&s[..n]`. -/
def upTo (s : List α) (n : Nat) : Except Panic (List α) := do
  ensure (n ≤ s.length) Panic.bounds
  return s.take n

/-- The slice with other elements from a position on. -/
def splice (s : List α) (lo : Nat) (src : List α) : List α :=
  s.take lo ++ src ++ s.drop (lo + src.length)

/-- `s[lo..hi].copy_from_slice(src)`. -/
def copy (s : List α) (lo hi : Nat) (src : List α) : Except Panic (List α) := do
  ensure (lo ≤ hi ∧ hi ≤ s.length ∧ src.length = hi - lo) Panic.bounds
  return splice s lo src

/-- `a - b` of unsigned numbers. -/
def sub (a b : Nat) : Except Panic Nat := do
  ensure (b ≤ a) Panic.underflow
  return a - b

/-- `&s[lo..hi]`. -/
def range (s : List α) (lo hi : Nat) : Except Panic (List α) := do
  ensure (lo ≤ hi ∧ hi ≤ s.length) Panic.bounds
  return (s.drop lo).take (hi - lo)

/-- `a + b` of numbers below `size`. -/
def add (build : Build) (size a b : Nat) : Except Panic Nat :=
  if a + b < size then .ok (a + b)
  else
    match build with
    | .debug => .error .overflow
    | .release => .ok ((a + b) % size)

/-- `n` elements from a position on. -/
def window (s : List α) (lo n : Nat) : List α := (s.drop lo).take n

variable {s src : List α} {i n lo hi : Nat}

theorem index_of_lt (h : i < s.length) : index s i = .ok s[i] := by
  unfold index
  rw [getElem?_eq_getElem h]

theorem update_of_lt (a : α) (h : i < s.length) : update s i a = .ok (s.set i a) := by
  unfold update
  rw [ensure_of h]
  rfl

theorem upTo_of_le (h : n ≤ s.length) : upTo s n = .ok (s.take n) := by
  unfold upTo
  rw [ensure_of h]
  rfl

/-- A copy of fitting length goes through. -/
theorem copy_of (hle : lo + src.length ≤ s.length) (hhi : hi = lo + src.length) :
    copy s lo hi src = .ok (splice s lo src) := by
  unfold copy
  rw [ensure_of (by omega)]
  rfl

theorem sub_of_le {a b : Nat} (h : b ≤ a) : sub a b = .ok (a - b) := by
  unfold sub
  rw [ensure_of h]
  rfl

theorem range_of_le (hle : lo ≤ hi) (hhi : hi ≤ s.length) :
    range s lo hi = .ok ((s.drop lo).take (hi - lo)) := by
  unfold range
  rw [ensure_of ⟨hle, hhi⟩]
  rfl

/-- A range that ends before it starts panics. -/
theorem range_of_lt (h : hi < lo) : range s lo hi = .error .bounds := by
  unfold range ensure
  rw [if_neg (by omega)]
  rfl

/-- A sum in range is the sum in either build. -/
theorem add_of_lt {build : Build} {size a b : Nat} (h : a + b < size) :
    add build size a b = .ok (a + b) := if_pos h

/-! ## Windows -/

section

variable (h : lo + src.length ≤ s.length)

include h

@[simp] theorem length_splice :
    (splice s lo src).length = s.length := by
  unfold splice
  simp only [length_append, length_take, length_drop]
  omega

/-- What is written is read back. -/
theorem window_splice_self : window (splice s lo src) lo src.length = src := by
  unfold window splice
  rw [append_assoc, drop_left' (by rw [length_take]; omega), take_left]

theorem getElem?_splice_of_lt {k : Nat} (hk : k < lo) : (splice s lo src)[k]? = s[k]? := by
  unfold splice
  rw [append_assoc, getElem?_append_left (by rw [length_take]; omega), getElem?_take_of_lt hk]

theorem getElem?_splice_of_ge {k : Nat}
    (hk : lo + src.length ≤ k) : (splice s lo src)[k]? = s[k]? := by
  unfold splice
  rw [getElem?_append_right (by rw [length_append, length_take]; omega),
    getElem?_drop, length_append, length_take]
  congr 1
  omega

/-- Windows apart from it are as before. -/
theorem window_splice_apart {lo' : Nat}
    (hapart : lo' + n ≤ lo ∨ lo + src.length ≤ lo') :
    window (splice s lo src) lo' n = window s lo' n := by
  unfold window
  refine ext_getElem? fun k => ?_
  by_cases hk : k < n
  · rw [getElem?_take_of_lt hk, getElem?_take_of_lt hk, getElem?_drop, getElem?_drop]
    rcases hapart with hleft | hright
    · exact getElem?_splice_of_lt h (by omega)
    · exact getElem?_splice_of_ge h (by omega)
  · rw [getElem?_take_eq_none (by omega), getElem?_take_eq_none (by omega)]

end

/-- Neighbouring windows are one. -/
theorem window_append (m : Nat) : window s lo (n + m) = window s lo n ++ window s (lo + n) m := by
  unfold window
  rw [take_add, drop_drop]

theorem window_length (s : List α) (lo n : Nat) :
    window s lo (window s lo n).length = window s lo n := by
  unfold window
  rw [length_take, take_eq_take_iff]
  omega

/-- A slice that shows a piece of data in each of its tiles is made of these pieces. -/
theorem take_of_tiles {ι : Type*} {lo : ι → Nat} {data : ι → List α} {l : List ι} {a b : Nat}
    (hdata : ∀ i ∈ l, window s (lo i) (data i).length = data i)
    (htiles : Tiles lo (fun i => lo i + (data i).length) a l b) :
    a ≤ b ∧ window s a (b - a) = l.flatMap data := by
  induction l generalizing a with
  | nil =>
    cases htiles
    simp [window]
  | cons i l ih =>
    rw [forall_mem_cons] at hdata
    obtain ⟨rfl, htiles⟩ := htiles
    obtain ⟨hle, hrest⟩ := ih hdata.2 htiles
    dsimp only at hle hrest
    refine ⟨by omega, ?_⟩
    have hsplit : b - lo i = (data i).length + (b - (lo i + (data i).length)) := by omega
    rw [hsplit, window_append, hdata.1, hrest, flatMap_cons]

end Slice
