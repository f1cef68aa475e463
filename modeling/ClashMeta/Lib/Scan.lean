import Mathlib.Data.List.Infix

/-!
# Loops over a sequence of items

A parser's loop that reads one item after the other from the front of its input until nothing
is left. Each item moves the state on, leaves the loop with a result, or fails the whole.
-/

universe u v w x

namespace Scan

open List Option

variable {β : Type u} {ι : Type v} {σ : Type w} {ρ : Type x}

/-- What an item does: the loop goes on with a new state, or it is left with a result. -/
inductive Move (σ : Type w) (ρ : Type x) where
  | next (s : σ)
  | done (r : ρ)
deriving DecidableEq, Repr

/-- What holds of the states of a loop, and of its results. -/
def Move.Sat (I : σ → Prop) (Q : ρ → Prop) : Move σ ρ → Prop
  | .next s => I s
  | .done r => Q r

/-- A reader of items, which gives the item and what is left behind it. -/
structure Items (β : Type u) (ι : Type v) where
  read : List β → Option (ι × List β)
  shrinks : ∀ {input rest : List β} {i : ι},
    read input = some (i, rest) → rest.length < input.length

/-- The same item is read whatever comes behind it. -/
def Items.Stable (items : Items β ι) : Prop :=
  ∀ {input rest : List β} {i : ι} (t : List β),
    items.read input = some (i, rest) → items.read (input ++ t) = some (i, rest ++ t)

/-- At most `fuel` turns of the loop. -/
def turns (items : Items β ι) (step : σ → ι → Option (Move σ ρ)) :
    Nat → σ → List β → Option (Move σ ρ × List β)
  | 0, s, input => some (.next s, input)
  | _ + 1, s, [] => some (.next s, [])
  | fuel + 1, s, b :: input =>
    match items.read (b :: input) with
    | none => none
    | some (i, rest) =>
      match step s i with
      | none => none
      | some (.done r) => some (.done r, rest)
      | some (.next t) => turns items step fuel t rest

/-- The loop, with the input it leaves. -/
def scan (items : Items β ι) (step : σ → ι → Option (Move σ ρ)) (s : σ) (input : List β) :
    Option (Move σ ρ × List β) :=
  turns items step input.length s input

variable {items : Items β ι} {step : σ → ι → Option (Move σ ρ)} {s t : σ}
  {input rest : List β} {i : ι} {r : ρ} {m : Move σ ρ}

/-- There is no item in an empty input. -/
theorem Items.ne_nil (h : items.read input = some (i, rest)) : input ≠ [] := by
  rintro rfl
  exact absurd (items.shrinks h) (by simp)

/-- As many turns as the input is long are enough. -/
theorem turns_eq_scan {fuel : Nat} (h : input.length ≤ fuel) :
    turns items step fuel s input = scan items step s input := by
  unfold scan
  induction fuel using Nat.strong_induction_on generalizing s input with
  | h fuel ih =>
    cases input with
    | nil => cases fuel <;> rfl
    | cons b input =>
      simp only [length_cons] at h
      obtain ⟨fuel, rfl⟩ : ∃ n, fuel = n + 1 := ⟨fuel - 1, by omega⟩
      rw [length_cons, turns, turns]
      cases hread : items.read (b :: input) with
      | none => rfl
      | some p =>
        obtain ⟨i, rest⟩ := p
        have hrest : rest.length ≤ input.length :=
          Nat.lt_succ_iff.mp (items.shrinks hread)
        cases hstep : step s i with
        | none => simp only [hstep]
        | some m =>
          cases m with
          | done r => simp only [hstep]
          | next t =>
            -- The item has used up at least one element, so both bounds still suffice.
            simp only [hstep]
            rw [ih fuel (by omega) (by omega), ih input.length (by omega) hrest]

section

variable (hread : items.read input = some (i, rest))
include hread

/-- What the first item says about the whole loop. -/
theorem scan_read :
    scan items step s input = (step s i).bind fun m =>
      match m with
      | .done r => some (.done r, rest)
      | .next t => scan items step t rest := by
  cases input with
  | nil => exact absurd rfl (items.ne_nil hread)
  | cons b input =>
    have hrest : rest.length ≤ input.length := Nat.lt_succ_iff.mp (items.shrinks hread)
    rw [scan, length_cons, turns, hread]
    cases hstep : step s i with
    | none => simp only [hstep, bind_none]
    | some m =>
      cases m with
      | done r => simp only [hstep, bind_some]
      | next t => simp only [hstep, bind_some, turns_eq_scan hrest]

/-- The loop goes on behind the item. -/
theorem scan_next (hstep : step s i = some (.next t)) :
    scan items step s input = scan items step t rest := by
  rw [scan_read hread, hstep, bind_some]

/-- The loop is left at the item. -/
theorem scan_done (hstep : step s i = some (.done r)) :
    scan items step s input = some (.done r, rest) := by
  rw [scan_read hread, hstep, bind_some]

end

/-- A loop over some input that does not fail has read an item. -/
theorem exists_read (hne : input ≠ []) (h : scan items step s input = some (m, rest)) :
    ∃ i left, items.read input = some (i, left) ∧
      ((∃ r, step s i = some (.done r) ∧ m = .done r ∧ rest = left) ∨
        ∃ t, step s i = some (.next t) ∧ scan items step t left = some (m, rest)) := by
  cases hread : items.read input with
  | none =>
    obtain ⟨b, input, rfl⟩ := exists_cons_of_ne_nil hne
    rw [scan, length_cons, turns, hread] at h
    cases h
  | some p =>
    obtain ⟨i, left⟩ := p
    rw [scan_read hread] at h
    obtain ⟨m', hstep, hm⟩ := bind_eq_some_iff.mp h
    refine ⟨i, left, rfl, ?_⟩
    cases m' with
    | done r =>
      cases hm
      exact .inl ⟨r, hstep, rfl, rfl⟩
    | next t => exact .inr ⟨t, hstep, hm⟩

/-- What every step keeps, the loop keeps. -/
theorem scan_sat {I : σ → Prop} {Q : ρ → Prop}
    (hkeeps : ∀ s i m, I s → step s i = some m → m.Sat I Q) (hs : I s)
    (h : scan items step s input = some (m, rest)) : m.Sat I Q := by
  -- on the length of the input, which every item shortens
  induction hn : input.length using Nat.strong_induction_on generalizing s input with
  | h n ih =>
    by_cases hne : input = []
    · subst hne
      cases h
      exact hs
    obtain ⟨i, left, hread, ⟨r, hstep, rfl, -⟩ | ⟨t, hstep, hscan⟩⟩ := exists_read hne h
    · exact hkeeps s i _ hs hstep
    · exact ih left.length (hn ▸ items.shrinks hread) (hkeeps s i _ hs hstep) hscan rfl

/-- A loop that was left does not see what comes behind. -/
theorem scan_append (hstable : items.Stable) (p : List β)
    (h : scan items step s input = some (.done r, rest)) :
    scan items step s (input ++ p) = some (.done r, rest ++ p) := by
  induction hn : input.length using Nat.strong_induction_on generalizing s input with
  | h n ih =>
    by_cases hne : input = []
    · subst hne
      cases h
    obtain ⟨i, left, hread, ⟨r', hstep, hr, rfl⟩ | ⟨t, hstep, hscan⟩⟩ := exists_read hne h
    · cases hr
      exact scan_done (hstable p hread) hstep
    · rw [scan_next (hstable p hread) hstep]
      exact ih left.length (hn ▸ items.shrinks hread) hscan rfl

/-- Items that do not change the state are passed over. -/
theorem scan_flatMap {enc : ι → List β} {l : List ι} (p : List β)
    (hread : ∀ i ∈ l, ∀ p, items.read (enc i ++ p) = some (i, p))
    (hstep : ∀ i ∈ l, step s i = some (.next s)) :
    scan items step s (l.flatMap enc ++ p) = scan items step s p := by
  induction l with
  | nil => rfl
  | cons i l ih =>
    rw [flatMap_cons, append_assoc, scan_next (hread i mem_cons_self _) (hstep i mem_cons_self)]
    exact ih (fun j hj => hread j (mem_cons_of_mem i hj))
      fun j hj => hstep j (mem_cons_of_mem i hj)

end Scan
