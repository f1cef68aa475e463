import Mathlib.Logic.Relation

/-!
# Labelled transition systems with a step condition

A system is an initial state and a partial step function: `step s a` is `none` when action `a` is
not enabled in `s` (a blocked lock, a task that does not exist). Interleaving is the choice of
the action list.

Runs carry a *step condition* `ok : σ → α → Prop`, read on the state before each step. With `ok`
always true these are all the runs of the system; with a proper condition they are the runs whose
every step meets it, for a safety property that only holds outside one bad branch.
-/

universe u v

open Option

/-- A transition system over states `σ` and actions `α`. -/
structure Lts (σ : Type u) (α : Type v) where
  init : σ
  step : σ → α → Option σ

namespace Lts

variable {σ : Type u} {α : Type v} {M : Lts σ α}

/-- One step that meets the condition. -/
def Next (M : Lts σ α) (ok : σ → α → Prop) (s t : σ) : Prop :=
  ∃ a, ok s a ∧ M.step s a = some t

/-- Reachability through steps that meet the condition. -/
def Reaches (M : Lts σ α) (ok : σ → α → Prop) : σ → σ → Prop :=
  Relation.ReflTransGen (M.Next ok)

/-- The condition that every step meets. -/
def anyStep : σ → α → Prop := fun _ _ => True

instance : DecidableRel (anyStep : σ → α → Prop) := fun _ _ => .isTrue trivial

section

variable {ok : σ → α → Prop} [DecidableRel ok]

/-- Execute a list of actions; `none` as soon as one is not enabled or does not
meet the condition. -/
def run (M : Lts σ α) (ok : σ → α → Prop) [DecidableRel ok] : σ → List α → Option σ
  | s, [] => some s
  | s, a :: as => if ok s a then (M.step s a).bind fun t => M.run ok t as else none

theorem run_cons {s t : σ} {a : α} (as : List α) (hok : ok s a) (h : M.step s a = some t) :
    M.run ok s (a :: as) = M.run ok t as := by
  simp [run, hok, h]

/-- Runs reach their states. -/
theorem run_reaches {s t : σ} (as : List α) (h : M.run ok s as = some t) : M.Reaches ok s t := by
  induction as generalizing s with
  | nil =>
    cases h
    exact .refl
  | cons a as ih =>
    by_cases hok : ok s a
    · cases hs : M.step s a with
      | none => simp [run, hs] at h
      | some u =>
        rw [run_cons as hok hs] at h
        exact .head ⟨a, hok, hs⟩ (ih h)
    · simp [run, hok] at h

omit [DecidableRel ok] in
/-- A run of actions that are always allowed. -/
theorem run_reaches_of_forall {s t : σ} (as : List α) (hok : ∀ a ∈ as, ∀ u, ok u a)
    (h : M.run anyStep s as = some t) : M.Reaches ok s t := by
  induction as generalizing s with
  | nil =>
    cases h
    exact .refl
  | cons a as ih =>
    rw [List.forall_mem_cons] at hok
    cases hs : M.step s a with
    | none => simp [run, anyStep, hs] at h
    | some u =>
      rw [run_cons as trivial hs] at h
      exact .head ⟨a, hok.1 s, hs⟩ (ih hok.2 h)

/-- A state that a run computes, by its test. -/
theorem run_any {s : σ} (p : σ → Bool) (as : List α) (h : (M.run ok s as).any p) :
    ∃ t, M.Reaches ok s t ∧ p t = true := by
  obtain ⟨t, ht, hp⟩ := (any_eq_true p _).mp h
  exact ⟨t, run_reaches as ht, hp⟩

end

namespace Reaches

variable {ok : σ → α → Prop} {s t : σ}

/-- **The invariant rule**: what holds at the start and is kept by every step
meeting the condition holds of every state reached. -/
theorem invariant {I : σ → Prop} (h : M.Reaches ok s t) (h0 : I s)
    (hstep : ∀ {s t a}, I s → ok s a → M.step s a = some t → I t) : I t := by
  induction h with
  | refl => exact h0
  | tail _ hnext ih =>
    obtain ⟨a, hok, hs⟩ := hnext
    exact hstep ih hok hs

/-- **The stability rule**: in states that keep `I`, an observation that no step
changes while `P` holds, with `P` itself kept, is constant along the run. -/
theorem stable {β : Type*} {I P : σ → Prop} {obs : σ → β} (h : M.Reaches ok s t)
    (hI : I s) (hP : P s)
    (hinv : ∀ {s t a}, I s → ok s a → M.step s a = some t → I t)
    (hkeep : ∀ {s t a}, I s → P s → ok s a → M.step s a = some t →
      P t ∧ obs t = obs s) :
    obs t = obs s := by
  have hall : I t ∧ P t ∧ obs t = obs s := by
    induction h with
    | refl => exact ⟨hI, hP, rfl⟩
    | tail _ hnext ih =>
      obtain ⟨a, hok, hs⟩ := hnext
      obtain ⟨hIb, hPb, hob⟩ := ih
      obtain ⟨hPc, hoc⟩ := hkeep hIb hPb hok hs
      exact ⟨hinv hIb hok hs, hPc, hoc.trans hob⟩
  exact hall.2.2

end Reaches

/-! ## Histories -/

section

variable {ε : Type*} {obs : σ → α → List ε}

/-- The system with its history: each step appends what it shows. -/
def recorded (M : Lts σ α) (obs : σ → α → List ε) : Lts (σ × List ε) α where
  init := (M.init, [])
  step p a := (M.step p.1 a).map fun t => (t, p.2 ++ obs p.1 a)

/-- A recorded step adds what it shows. -/
theorem recorded_step_iff {p q : σ × List ε} {a : α} :
    (M.recorded obs).step p a = some q ↔
      M.step p.1 a = some q.1 ∧ q.2 = p.2 ++ obs p.1 a := by
  obtain ⟨t, log⟩ := q
  show (M.step p.1 a).map _ = some (t, log) ↔ _
  rw [map_eq_some_iff]
  constructor
  · rintro ⟨u, hu, heq⟩
    cases heq
    exact ⟨hu, rfl⟩
  · rintro ⟨hstep, hlog⟩
    exact ⟨t, hstep, by rw [← hlog]⟩

/-- The log before a run stays in front. -/
theorem recorded_run (s : σ) (log : List ε) (as : List α) :
    (M.recorded obs).run anyStep (s, log) as =
      ((M.recorded obs).run anyStep (s, []) as).map fun p => (p.1, log ++ p.2) := by
  induction as generalizing s log with
  | nil => simp [run]
  | cons a as ih =>
    cases hstep : M.step s a with
    | none => simp [run, recorded, hstep]
    | some t =>
      have hcons : ∀ log : List ε, (M.recorded obs).run anyStep (s, log) (a :: as) =
          (M.recorded obs).run anyStep (t, log ++ obs s a) as := fun log =>
        run_cons as trivial (recorded_step_iff.mpr ⟨hstep, rfl⟩)
      rw [hcons, hcons, ih, ih t ([] ++ obs s a), map_map]
      simp [Function.comp_def]

end

end Lts
