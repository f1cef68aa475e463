import ClashMeta.Lib.PollIo

/-!
# Polled loops

A loop that is driven by polling: one turn of its body goes around again, or stops with the
outcome of the poll. A loop whose turns shrink the state needs no more turns than that, so
a bound on them is no part of its meaning (`rounds_eq_poll`).
-/

universe u v w

/-- One turn of a loop: it stops the poll, or goes around again. -/
inductive Turn (ε : Type u) (α : Type v) (σ : Type w) where
  | stop (r : Poll ε α) (s : σ)
  | again (s : σ)

namespace Turn

variable {ε : Type u} {α : Type v} {σ : Type w}

section

variable (turn : σ → Turn ε α σ)

/-- At most `fuel` turns. -/
def rounds : Nat → σ → Poll ε α × σ
  | 0, s => (.pending, s)
  | fuel + 1, s =>
    match turn s with
    | .stop r t => (r, t)
    | .again t => rounds fuel t

/-- One poll, for a measure that every turn shrinks. -/
def poll (size : σ → Nat) (s : σ) : Poll ε α × σ := rounds turn (size s + 1) s

/-- Going around again shrinks the state. -/
def Shrinks (size : σ → Nat) : Prop := ∀ s t, turn s = .again t → size t < size s

end

variable {turn : σ → Turn ε α σ} {size : σ → Nat} {s t u : σ}

/-- Fuel beyond the size does not matter. -/
theorem rounds_eq_poll (h : Shrinks turn size) {fuel : Nat} (hfuel : size s < fuel) :
    rounds turn fuel s = poll turn size s := by
  unfold poll
  induction fuel using Nat.strong_induction_on generalizing s with
  | h fuel ih =>
    obtain ⟨n, rfl⟩ : ∃ n, fuel = n + 1 := ⟨fuel - 1, by omega⟩
    rw [rounds, rounds]
    cases hturn : turn s with
    | stop r t => rfl
    | again t =>
      have hlt := h s t hturn
      dsimp only
      rw [ih n (by omega) (by omega)]
      by_cases hn : size s = n
      · rw [hn, ih n (by omega) (by omega)]
      · rw [ih (size s) (by omega) hlt]

theorem poll_stop {r : Poll ε α} (h : turn s = .stop r t) : poll turn size s = (r, t) := by
  rw [poll, rounds, h]

theorem poll_again (hshrinks : Shrinks turn size) (h : turn s = .again t) :
    poll turn size s = poll turn size t := by
  rw [poll, rounds, h]
  exact rounds_eq_poll hshrinks (hshrinks s t h)

/-! ## Whole drives -/

/-- Polling until the loop is done: the result, and the state behind it. -/
inductive Driven (poll : σ → Poll ε α × σ) : σ → Except ε α → σ → Prop
  | ready {s t : σ} {a : α} (h : poll s = (.ready a, t)) : Driven poll s (.ok a) t
  | failed {s t : σ} {e : ε} (h : poll s = (.failed e, t)) : Driven poll s (.error e) t
  | pending {s t u : σ} {r : Except ε α} (h : poll s = (.pending, t))
      (hrest : Driven poll t r u) : Driven poll s r u

variable {f : σ → Poll ε α × σ} {r r' : Except ε α}

/-- A drive is decided by its first poll. -/
theorem driven_iff : Driven f s r u ↔
    match f s with
    | (.ready a, t) => r = .ok a ∧ u = t
    | (.failed e, t) => r = .error e ∧ u = t
    | (.pending, t) => Driven f t r u := by
  constructor
  · intro hd
    cases hd with
    | ready hs | failed hs =>
      rw [hs]
      exact ⟨rfl, rfl⟩
    | pending hs hrest =>
      rw [hs]
      exact hrest
  · intro hd
    split at hd
    · obtain ⟨rfl, rfl⟩ := hd
      exact .ready ‹_›
    · obtain ⟨rfl, rfl⟩ := hd
      exact .failed ‹_›
    · exact .pending ‹_› hd

/-- One state has one result. -/
theorem Driven.unique {t' : σ} (h : Driven f s r t) (h' : Driven f s r' t') : r = r' := by
  induction h with
  | ready hs | failed hs =>
    rw [driven_iff, hs] at h'
    exact h'.1.symm
  | pending hs _ ih =>
    rw [driven_iff, hs] at h'
    exact ih h'

/-- Only the first poll counts. -/
theorem driven_congr (h : f s = f t) : Driven f s r u ↔ Driven f t r u := by
  rw [driven_iff, h, ← driven_iff]

theorem driven_ready {a : α} (h : turn s = .stop (.ready a) t) :
    Driven (poll turn size) s r u ↔ r = .ok a ∧ u = t := by
  rw [driven_iff, poll_stop h]

theorem driven_failed {e : ε} (h : turn s = .stop (.failed e) t) :
    Driven (poll turn size) s r u ↔ r = .error e ∧ u = t := by
  rw [driven_iff, poll_stop h]

/-- A pause is one more poll. -/
theorem driven_pending (h : turn s = .stop .pending t) :
    Driven (poll turn size) s r u ↔ Driven (poll turn size) t r u := by
  rw [driven_iff, poll_stop h]

theorem driven_again (hshrinks : Shrinks turn size) (h : turn s = .again t) :
    Driven (poll turn size) s r u ↔ Driven (poll turn size) t r u :=
  driven_congr (poll_again hshrinks h)

/-- A turn that waits for ever has none. -/
theorem not_driven_of_waits (h : turn s = .stop .pending s) : ¬ Driven (poll turn size) s r u := by
  intro hd
  have hpoll : poll turn size s = (.pending, s) := poll_stop h
  induction hd with
  | ready hs | failed hs => cases hpoll.symm.trans hs
  | pending hs _ ih =>
    cases hpoll.symm.trans hs
    exact ih h hpoll

end Turn
