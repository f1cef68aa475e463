import Mathlib.Data.List.Forall2

/-!
# Checked computations

A computation that can be refused is an `Except`. These are the rules that take a
successful one apart, one check or one call at a time, and put it together again.
-/

universe u

open Except List

variable {ε α β : Type u}

/-- How a call ends without a result: with an error, or with a panic. -/
inductive Abrupt where
  | error (message : String)
  | panic
  deriving DecidableEq, Repr

/-- Go on when the condition holds. -/
def ensure (cond : Prop) [Decidable cond] (message : ε) : Except ε PUnit.{u + 1} :=
  if cond then .ok ⟨⟩ else .error message

namespace Except

theorem ok_bind (a : α) (f : α → Except ε β) : (Except.ok a >>= f) = f a := rfl

variable {x : Except ε α}

/-- Both parts succeed. -/
theorem bind_eq_ok_iff {f : α → Except ε β} {b : β} :
    (x >>= f) = .ok b ↔ ∃ a, x = .ok a ∧ f a = .ok b := by
  cases x with
  | error e =>
    constructor
    · exact nofun
    · exact fun ⟨_, h, _⟩ => nomatch h
  | ok a =>
    constructor
    · exact fun h => ⟨a, rfl, h⟩
    · rintro ⟨a', ha, h⟩
      cases ha
      exact h

theorem pure_eq_ok_iff {a b : α} : (pure a : Except ε α) = .ok b ↔ a = b := by
  constructor
  · exact fun h => Except.ok.inj h
  · exact fun h => congrArg Except.ok h

theorem map_eq_ok_iff {f : α → β} {b : β} : (f <$> x) = .ok b ↔ ∃ a, x = .ok a ∧ f a = b := by
  cases x with
  | error e =>
    constructor
    · exact nofun
    · exact fun ⟨_, h, _⟩ => nomatch h
  | ok a =>
    constructor
    · exact fun h => ⟨a, rfl, Except.ok.inj h⟩
    · rintro ⟨a', ha, h⟩
      cases ha
      exact congrArg Except.ok h

/-- A refusal comes before the map. -/
theorem map_refuse {cond : Prop} [Decidable cond] {message : ε} {f : α → β} :
    (f <$> if cond then .error message else x) = if cond then .error message else f <$> x := by
  split <;> rfl

/-- Results do not depend on how errors are worded. -/
theorem mapError_eq_ok_iff {ε' : Type u} {f : ε → ε'} {a : α} :
    x.mapError f = .ok a ↔ x = .ok a := by
  cases x with
  | error e => exact ⟨nofun, nofun⟩
  | ok b => exact ⟨fun h => congrArg Except.ok (Except.ok.inj h),
      fun h => congrArg Except.ok (Except.ok.inj h)⟩

end Except

section

variable {cond : Prop} [Decidable cond] {message : ε}

theorem ensure_of (h : cond) : ensure cond message = .ok ⟨⟩ := if_pos h

theorem ensure_eq_ok_iff {x : PUnit.{u + 1}} : ensure cond message = .ok x ↔ cond := by
  unfold ensure
  split
  · exact ⟨fun _ => ‹_›, fun _ => rfl⟩
  · exact ⟨nofun, fun h => absurd h ‹_›⟩

theorem ensure_bind_eq_refuse {cond' : Prop} [Decidable cond'] {f : PUnit.{u + 1} → Except ε β}
    {x : Except ε β} (h : cond' ↔ ¬cond) (hx : cond → f ⟨⟩ = x) :
    (ensure cond message >>= f) = if cond' then .error message else x := by
  by_cases hcond : cond
  · rw [ensure_of hcond, ok_bind, if_neg (fun hc => h.mp hc hcond), hx hcond]
  · rw [ensure, if_neg hcond, if_pos (h.mpr hcond)]
    rfl

/-- The check holds and the rest succeeds. -/
theorem ensure_bind_eq_ok_iff {f : PUnit.{u + 1} → Except ε β} {b : β} :
    (ensure cond message >>= f) = .ok b ↔ cond ∧ f ⟨⟩ = .ok b := by
  rw [bind_eq_ok_iff]
  constructor
  · rintro ⟨u, hu, h⟩
    exact ⟨ensure_eq_ok_iff.mp hu, h⟩
  · rintro ⟨hc, h⟩
    exact ⟨⟨⟩, ensure_of hc, h⟩

end

/-! ## Loops -/

variable {l : List α} {r : List β} {f : α → Except ε β}

/-- Element by element. -/
theorem mapM_eq_ok_iff : l.mapM f = .ok r ↔ Forall₂ (fun a b => f a = .ok b) l r := by
  induction l generalizing r with
  | nil =>
    rw [mapM_nil, pure_eq_ok_iff, forall₂_nil_left_iff]
    exact eq_comm
  | cons a l ih =>
    rw [mapM_cons, bind_eq_ok_iff, forall₂_cons_left_iff]
    constructor
    · rintro ⟨b, hb, h⟩
      obtain ⟨bs, hbs, h⟩ := bind_eq_ok_iff.mp h
      exact ⟨b, bs, hb, ih.mp hbs, (pure_eq_ok_iff.mp h).symm⟩
    · rintro ⟨b, bs, hb, hbs, rfl⟩
      exact ⟨b, hb, bind_eq_ok_iff.mpr ⟨bs, ih.mpr hbs, rfl⟩⟩

/-- Every element passes. -/
theorem forM_eq_ok_iff {f : α → Except ε PUnit.{u + 1}} :
    l.forM f = .ok ⟨⟩ ↔ ∀ a ∈ l, f a = .ok ⟨⟩ := by
  induction l with
  | nil => exact ⟨nofun, fun _ => rfl⟩
  | cons a l ih =>
    show (f a >>= fun _ => l.forM f) = .ok ⟨⟩ ↔ _
    rw [bind_eq_ok_iff, forall_mem_cons, ← ih]
    constructor
    · exact fun ⟨_, ha, h⟩ => ⟨ha, h⟩
    · exact fun ⟨ha, h⟩ => ⟨⟨⟩, ha, h⟩

theorem exists_of_mapM_eq_ok (h : l.mapM f = .ok r) {a : α} (ha : a ∈ l) :
    ∃ b ∈ r, f a = .ok b := by
  induction mapM_eq_ok_iff.mp h with
  | nil => cases ha
  | cons hab hrest ih =>
    rcases mem_cons.mp ha with rfl | ha
    · exact ⟨_, mem_cons_self, hab⟩
    · obtain ⟨b, hb, hfb⟩ := ih (mapM_eq_ok_iff.mpr hrest) ha
      exact ⟨b, mem_cons_of_mem _ hb, hfb⟩

/-- A loop goes through with results that are related to their elements exactly when every
element has such a result. -/
theorem exists_mapM_eq_ok_iff {R : α → β → Prop} :
    (∃ r, l.mapM f = .ok r ∧ Forall₂ R l r) ↔ ∀ a ∈ l, ∃ b, f a = .ok b ∧ R a b := by
  constructor
  · rintro ⟨r, hr, hrel⟩
    rw [mapM_eq_ok_iff] at hr
    induction hrel with
    | nil => exact nofun
    | cons hab _ ih =>
      cases hr with
      | cons hfa hrest => exact forall_mem_cons.mpr ⟨⟨_, hfa, hab⟩, ih hrest⟩
  · intro h
    induction l with
    | nil => exact ⟨[], rfl, .nil⟩
    | cons a l ih =>
      obtain ⟨⟨b, hfa, hab⟩, hl⟩ := forall_mem_cons.mp h
      obtain ⟨r, hr, hrel⟩ := ih hl
      exact ⟨b :: r, mapM_eq_ok_iff.mpr (.cons hfa (mapM_eq_ok_iff.mp hr)), .cons hab hrel⟩

/-- All succeed when each does. -/
theorem exists_mapM_iff : (∃ r, l.mapM f = .ok r) ↔ ∀ a ∈ l, ∃ b, f a = .ok b := by
  constructor
  · rintro ⟨r, hr⟩ a ha
    obtain ⟨b, -, hb⟩ := exists_of_mapM_eq_ok hr ha
    exact ⟨b, hb⟩
  · intro h
    have hok : ∀ a ∈ l, ∃ b, f a = .ok b ∧ f a = .ok b := fun a ha =>
      (h a ha).imp fun b hb => ⟨hb, hb⟩
    obtain ⟨r, hr, -⟩ := exists_mapM_eq_ok_iff.mpr hok
    exact ⟨r, hr⟩

theorem exists_of_forall₂_right {R : α → β → Prop} (h : Forall₂ R l r) {b : β} (hb : b ∈ r) :
    ∃ a ∈ l, R a b := by
  induction h with
  | nil => cases hb
  | cons hab _ ih =>
    rcases mem_cons.mp hb with rfl | hb
    · exact ⟨_, mem_cons_self, hab⟩
    · obtain ⟨a, ha, hRab⟩ := ih hb
      exact ⟨a, mem_cons_of_mem _ ha, hRab⟩
