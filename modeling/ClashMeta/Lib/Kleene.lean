import Mathlib.Data.List.Forall2

/-!
# Three-valued truth

A truth value that may not be known yet is an `Option Bool`. `Kleene.Le` is the order of
information: `Le a b` says that `b` keeps what `a` already knows.

`junction unit` is the short-circuiting loop behind both connectives: it answers at the first
operand known to differ from `unit`, and otherwise `unit`, or nothing when an operand was
unknown. Conjunction is `junction true`, disjunction is `junction false`.
-/

namespace Kleene

/-- What is known in the first value is known in the second. -/
def Le (a b : Option Bool) : Prop := ∀ v, a = some v → b = some v

/-- A value keeps what it knows. -/
theorem Le.refl (a : Option Bool) : Le a a := fun _ h => h

/-- The unknown value asks for nothing. -/
theorem le_none (b : Option Bool) : Le none b := nofun

/-- Negation keeps the order of information. -/
theorem Le.map_not {a b : Option Bool} (h : Le a b) : Le (a.map (!·)) (b.map (!·)) := by
  intro v hv
  obtain ⟨w, hw, rfl⟩ := Option.map_eq_some_iff.mp hv
  rw [h w hw]
  rfl

/-- The loop over the operands; `unknown` says whether one passed so far was
unknown. -/
def junctionLoop (unit : Bool) : Bool → List (Option Bool) → Option Bool
  | unknown, [] => if unknown then none else some unit
  | unknown, some v :: rest => if v = unit then junctionLoop unit unknown rest else some v
  | _, none :: rest => junctionLoop unit true rest

/-- Conjunction for `unit = true`, disjunction for `unit = false`. -/
def junction (unit : Bool) (vs : List (Option Bool)) : Option Bool := junctionLoop unit false vs

variable {unit u u' v : Bool} {vs ws : List (Option Bool)}

/-- Behind an unknown operand only the short-circuit answer is left. -/
theorem junctionLoop_unknown (h : junctionLoop unit true vs = some v) : v ≠ unit := by
  induction vs with
  | nil => cases h
  | cons x xs ih =>
    cases x with
    | none => exact ih h
    | some w =>
      rw [junctionLoop] at h
      split at h
      · exact ih h
      · cases h
        assumption

/-- The short-circuit answer does not depend on what was unknown before. -/
theorem junctionLoop_of_ne (h : junctionLoop unit u vs = some v) (hv : v ≠ unit) :
    junctionLoop unit u' vs = some v := by
  induction vs generalizing u u' with
  | nil =>
    cases u with
    | true => cases h
    | false =>
      cases h
      exact absurd rfl hv
  | cons x xs ih =>
    cases x with
    | none => exact ih h
    | some w =>
      rw [junctionLoop] at h ⊢
      split_ifs at h ⊢
      · exact ih h
      · exact h

/-- The loop is monotone in its operands. -/
theorem junctionLoop_mono (hvs : List.Forall₂ Le vs ws) :
    Le (junctionLoop unit u vs) (junctionLoop unit u ws) := by
  induction hvs generalizing u with
  | nil => exact Le.refl _
  | @cons x y xs ys hxy _ ih =>
    intro v hv
    cases x with
    | some w =>
      rw [hxy w rfl]
      rw [junctionLoop] at hv ⊢
      split_ifs at hv ⊢
      · exact ih v hv
      · exact hv
    | none =>
      -- an answer behind an unknown operand is the short-circuit one, which
      -- the operand cannot spoil once it is known
      have hne : v ≠ unit := junctionLoop_unknown hv
      have hys : junctionLoop unit true ys = some v := ih v hv
      cases y with
      | none => exact hys
      | some w =>
        rw [junctionLoop]
        split_ifs
        · exact junctionLoop_of_ne hys hne
        · cases w <;> cases v <;> cases unit <;> simp_all

/-- Better known operands never take an answer back. -/
theorem junction_mono (hvs : List.Forall₂ Le vs ws) : Le (junction unit vs) (junction unit ws) :=
  junctionLoop_mono hvs

/-- Known operands give an answer. -/
theorem junction_isSome (h : ∀ x ∈ vs, x.isSome) : (junction unit vs).isSome := by
  unfold junction
  induction vs with
  | nil => rfl
  | cons x xs ih =>
    cases x with
    | none => exact nomatch h none List.mem_cons_self
    | some w =>
      rw [junctionLoop]
      split_ifs
      · exact ih fun x hx => h x (List.mem_cons_of_mem _ hx)
      · rfl

/-- With known operands the disjunction is the usual one. -/
theorem junction_false_map_some (vs : List Bool) :
    junction false (vs.map some) = some (vs.any id) := by
  induction vs with
  | nil => rfl
  | cons v vs ih =>
    cases v with
    | false => exact ih
    | true => rfl

/-- No answer comes from an unknown operand. -/
theorem exists_none_of_junction (h : junction unit vs = none) : none ∈ vs := by
  by_contra hmem
  have hsome : (junction unit vs).isSome := junction_isSome fun x hx =>
    Option.isSome_iff_ne_none.mpr fun hnone => hmem (hnone ▸ hx)
  rw [h] at hsome
  cases hsome

end Kleene
