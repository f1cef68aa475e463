import Mathlib.Logic.Basic

/-!
# Calls that fail without a trace

A call reads and writes a shared state and may return an error; writes made before the error
stay. A call that makes its checks first and its writes last is atomic: `Keeps.bind` for the
checks, then `Sure.atomic`; `Atomic.bind` for writes behind an atomic call.

`Preserves I m Q` says that a call keeps an invariant of the state, whether it fails or not,
and that its results have the property `Q`.
-/

/-- A call with state `σ`, errors `ε` and results `α`. -/
abbrev Attempt (σ ε α : Type) := ExceptT ε (StateM σ) α

namespace Attempt

variable {σ ε α β : Type}

/-- The result of a call and the state behind it. -/
def exec (m : Attempt σ ε α) (s : σ) : Except ε α × σ := m.run.run s

/-- A computation on its own. -/
def lift (x : Except ε α) : Attempt σ ε α := ExceptT.mk (pure x)

/-- A part of the state. -/
def read (f : σ → α) : Attempt σ ε α := do return f (← get)

/-- A change of the state. -/
def write (f : σ → σ) : Attempt σ ε PUnit := modify f

@[simp] theorem exec_lift (x : Except ε α) (s : σ) : (lift x : Attempt σ ε α).exec s = (x, s) := rfl

@[simp] theorem exec_read (f : σ → α) (s : σ) :
    (read f : Attempt σ ε α).exec s = (.ok (f s), s) := rfl

/-- An error ends the call; the writes before it stay. -/
theorem exec_bind (m : Attempt σ ε α) (f : α → Attempt σ ε β) (s : σ) :
    (m >>= f).exec s =
      match m.exec s with
      | (.ok a, t) => (f a).exec t
      | (.error e, t) => (.error e, t) := by
  show Attempt.exec (ExceptT.bind m f) s = _
  unfold Attempt.exec ExceptT.bind
  show (match m.run.run s with | (x, t) => (ExceptT.bindCont f x).run t) = _
  rcases m.run.run s with ⟨x, t⟩
  cases x <;> rfl

theorem exec_lift_eq_ok {x : Except ε α} {s t : σ} {a : α}
    (h : (lift x : Attempt σ ε α).exec s = (.ok a, t)) : x = .ok a ∧ s = t :=
  Prod.mk.inj h

/-- A call that succeeds went through both parts. -/
theorem exec_bind_eq_ok {m : Attempt σ ε α} {f : α → Attempt σ ε β} {s t : σ} {b : β}
    (h : (m >>= f).exec s = (.ok b, t)) :
    ∃ a u, m.exec s = (.ok a, u) ∧ (f a).exec u = (.ok b, t) := by
  rw [exec_bind] at h
  split at h
  · rename_i a u heq
    exact ⟨a, u, heq, h⟩
  · cases h

/-! ## Checks first, writes last -/

section

variable {ν : Type} (view : σ → ν)

/-- What is in view is not changed. -/
def Keeps (m : Attempt σ ε α) : Prop := ∀ s, view (m.exec s).2 = view s

/-- No error is returned. -/
def Sure (m : Attempt σ ε α) : Prop := ∀ s e, (m.exec s).1 ≠ .error e

/-- An error leaves what is in view as it was. -/
def Atomic (m : Attempt σ ε α) : Prop :=
  ∀ s e, (m.exec s).1 = .error e → view (m.exec s).2 = view s

theorem keeps_lift (x : Except ε α) : Keeps view (lift x : Attempt σ ε α) := fun _ => rfl

theorem keeps_read (f : σ → α) : Keeps view (read f : Attempt σ ε α) := fun _ => rfl

/-- A write outside the view. -/
theorem keeps_write {f : σ → σ} (h : ∀ s, view (f s) = view s) :
    Keeps view (write f : Attempt σ ε PUnit) := h

theorem sure_write (f : σ → σ) : Sure (write f : Attempt σ ε PUnit) := nofun

variable {view}

variable {m : Attempt σ ε α}

/-- A call that cannot fail is atomic. -/
theorem Sure.atomic (h : Sure m) : Atomic view m :=
  fun s e he => absurd he (h s e)

variable {f : α → Attempt σ ε β}

theorem Sure.bind (hm : Sure m) (hf : ∀ a, Sure (f a)) : Sure (m >>= f) := by
  intro s e he
  rw [exec_bind] at he
  split at he
  · exact hf _ _ e he
  · rename_i e' t hm'
    exact hm s e' (by rw [hm'])

theorem Keeps.andThen (hm : Keeps view m) (hf : ∀ a, Keeps view (f a)) : Keeps view (m >>= f) := by
  intro s
  have hs := hm s
  rw [exec_bind]
  split
  · rename_i a t heq
    rw [heq] at hs
    exact (hf a t).trans hs
  · rename_i e' t heq
    rw [heq] at hs
    exact hs

/-- **A check before an atomic call** leaves it atomic. -/
theorem Keeps.bind (hm : Keeps view m) (hf : ∀ a, Atomic view (f a)) : Atomic view (m >>= f) := by
  intro s e
  have hs := hm s
  rw [exec_bind]
  split
  · rename_i a t heq
    rw [heq] at hs
    intro he
    exact (hf a t e he).trans hs
  · rename_i e' t heq
    rw [heq] at hs
    exact fun _ => hs

/-- **An atomic call before a sure call** leaves it atomic. -/
theorem Atomic.bind (hm : Atomic view m) (hf : ∀ a, Sure (f a)) : Atomic view (m >>= f) := by
  intro s e
  have hs := hm s
  rw [exec_bind]
  split
  · rename_i a t heq
    exact fun he => absurd he (hf a t e)
  · rename_i e' t heq
    rw [heq] at hs
    exact fun _ => hs e' rfl

end

/-! ## Invariants -/

section

variable {I : σ → Prop} {P Q : α → Prop} {R : β → Prop}

/-- The call keeps the invariant, and its results have the property. -/
def Preserves (I : σ → Prop) (m : Attempt σ ε α) (Q : α → Prop) : Prop :=
  ∀ s, I s → I (m.exec s).2 ∧ ∀ a, (m.exec s).1 = .ok a → Q a

theorem Preserves.pure {a : α} (h : Q a) : Preserves I (pure a : Attempt σ ε α) Q := by
  intro s hs
  refine ⟨hs, fun b hb => ?_⟩
  cases hb
  exact h

theorem Preserves.lift {x : Except ε α} (h : ∀ a, x = .ok a → Q a) :
    Preserves I (lift x : Attempt σ ε α) Q :=
  fun _ hs => ⟨hs, h⟩

theorem Preserves.read {f : σ → α} (h : ∀ s, I s → Q (f s)) :
    Preserves I (read f : Attempt σ ε α) Q := by
  intro s hs
  refine ⟨hs, fun a ha => ?_⟩
  cases ha
  exact h s hs

theorem Preserves.write {f : σ → σ} (h : ∀ s, I s → I (f s)) :
    Preserves I (write f : Attempt σ ε PUnit) fun _ => True :=
  fun s hs => ⟨h s hs, fun _ _ => trivial⟩

/-- **The rule for calls one after the other.** -/
theorem Preserves.bind {m : Attempt σ ε α} {f : α → Attempt σ ε β} (hm : Preserves I m P)
    (hf : ∀ a, P a → Preserves I (f a) R) : Preserves I (m >>= f) R := by
  intro s hs
  obtain ⟨hkeep, hresult⟩ := hm s hs
  rw [exec_bind]
  split
  · rename_i a t heq
    rw [heq] at hkeep hresult
    exact hf a (hresult a rfl) t hkeep
  · rename_i e t heq
    rw [heq] at hkeep
    exact ⟨hkeep, nofun⟩

end

end Attempt
