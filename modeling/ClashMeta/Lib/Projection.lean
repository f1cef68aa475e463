import Mathlib.Data.List.Basic

/-!
# One client's share of a machine

A machine that serves many clients answers one input after the other. For one of the
clients it should make no difference whether the others are there: the answers to its
inputs are those of a machine that gets these inputs alone.
-/

universe u

variable {ε α ρ σ : Type u}

/-- The answers to a list of inputs. -/
def answers (step : σ → α → Except ε (ρ × σ)) : σ → List α → Except ε (List (α × ρ))
  | _, [] => .ok []
  | s, a :: as => do
    let r ← step s a
    let rest ← answers step r.2 as
    return (a, r.1) :: rest

variable {as : List α} {step : σ → α → Except ε (ρ × σ)}

theorem answers_cons {s s' : σ} {a : α} {out : ρ} {rest : List (α × ρ)}
    (hstep : step s a = .ok (out, s')) (hrest : answers step s' as = .ok rest) :
    answers step s (a :: as) = .ok ((a, out) :: rest) := by
  unfold answers
  rw [hstep]
  show (answers step s' as >>= _) = _
  rw [hrest]
  rfl

/-- A relation `R q p as` of the machine `q` and the client's own machine `p`, with the inputs
`as` to come. The client's inputs keep it and both answer them alike; `q` alone gets the others. -/
structure Projects (step : σ → α → Except ε (ρ × σ)) (own : α → Bool)
    (R : σ → σ → List α → Prop) : Prop where
  shared : ∀ {q p a as}, own a = true → R q p (a :: as) →
    ∃ out q' p', step q a = .ok (out, q') ∧ step p a = .ok (out, p') ∧ R q' p' as
  foreign : ∀ {q p a as}, own a = false → R q p (a :: as) →
    ∃ out q', step q a = .ok (out, q') ∧ R q' p as

/-- **The client gets its own answers**, whatever comes between its inputs. -/
theorem Projects.answers {own : α → Bool} {R : σ → σ → List α → Prop} (h : Projects step own R)
    {q p : σ} (hR : R q p as) :
    ∃ all, answers step q as = .ok all ∧
      answers step p (as.filter own) = .ok (all.filter fun e => own e.1) := by
  induction as generalizing q p with
  | nil => exact ⟨[], rfl, rfl⟩
  | cons a as ih =>
    cases hown : own a with
    | true =>
      obtain ⟨out, q', p', hq, hp, hR'⟩ := h.shared hown hR
      obtain ⟨rest, hall, hsolo⟩ := ih hR'
      refine ⟨(a, out) :: rest, answers_cons hq hall, ?_⟩
      simp only [List.filter_cons, hown, if_true]
      exact answers_cons hp hsolo
    | false =>
      obtain ⟨out, q', hq, hR'⟩ := h.foreign hown hR
      obtain ⟨rest, hall, hsolo⟩ := ih hR'
      refine ⟨(a, out) :: rest, answers_cons hq hall, ?_⟩
      simp only [List.filter_cons, hown, Bool.false_eq_true, if_false]
      exact hsolo
