import Mathlib.Tactic.Common

/-!
# Programs whose operations fail and that stop midway

A `Prog` works on a state through operations of the outside world. The fate of each is given in
advance: it succeeds, it fails without effect, or the process stops before it. Operations behind
the end of the given list succeed.

`Triple P c Q R` is partial correctness with a crash condition: from a state in `P`, a run that
returns ends in `Q`, and a run that fails or stops, wherever it does, leaves a state in `R`.
`Unfailing c` says that `c` returns when no operation has a bad fate; the two together give total
correctness of a recovery procedure. The rules follow the shape of a program.
-/

universe u v w

/-- The fate of one operation. -/
inductive Fault where
  | succeeds
  | fails
  | stops
  deriving DecidableEq, Repr

/-- How a program ends. -/
inductive Ending (ε : Type v) (α : Type w) where
  | done (a : α)
  | failed (e : ε)
  | stopped

/-- A program over states `σ`: from a state and the fates to come, its ending, the state it
leaves and the fates it did not use. -/
def Prog (σ : Type u) (ε : Type v) (α : Type w) := σ → List Fault → Ending ε α × σ × List Fault

namespace Prog

variable {σ : Type u} {ε : Type v} {α β : Type w} {γ : Type*}

/-- One operation: `act` when it succeeds, the error `e` when it fails. -/
def op (e : ε) (act : σ → α × σ) : Prog σ ε α
  | s, [] => (.done (act s).1, (act s).2, [])
  | s, .succeeds :: fates => (.done (act s).1, (act s).2, fates)
  | s, .fails :: fates => (.failed e, s, fates)
  | s, .stops :: fates => (.stopped, s, fates)

/-- A change of the process's own memory. -/
def modify (f : σ → σ) : Prog σ ε PUnit := fun s fates => (.done ⟨⟩, f s, fates)

/-- Reading the process's own memory. -/
def get (f : σ → α) : Prog σ ε α := fun s fates => (.done (f s), s, fates)

/-- An error of the program's own. -/
def fail (e : ε) : Prog σ ε α := fun s fates => (.failed e, s, fates)

/-- Sequencing: the first bad end is the end. -/
def andThen (c : Prog σ ε α) (k : α → Prog σ ε β) : Prog σ ε β := fun s fates =>
  match c s fates with
  | (.done a, t, rest) => k a t rest
  | (.failed e, t, rest) => (.failed e, t, rest)
  | (.stopped, t, rest) => (.stopped, t, rest)

instance : Monad (Prog σ ε) where
  pure a := fun s fates => (.done a, s, fates)
  bind := andThen

/-- A loop over a list. -/
def forEach (body : γ → Prog σ ε PUnit) : List γ → Prog σ ε PUnit
  | [] => pure ⟨⟩
  | x :: xs => do
    body x
    forEach body xs

/-! ## Partial correctness with a crash condition -/

/-- The condition on the end of a run. -/
def Ends (Q : α → σ → Prop) (R : σ → Prop) : Ending ε α × σ × List Fault → Prop
  | (.done a, t, _) => Q a t
  | (.failed _, t, _) => R t
  | (.stopped, t, _) => R t

/-- From `P`, returning runs end in `Q` and all others in `R`. -/
def Triple (P : σ → Prop) (c : Prog σ ε α) (Q : α → σ → Prop) (R : σ → Prop) : Prop :=
  ∀ s fates, P s → Ends Q R (c s fates)

variable {P P' R : σ → Prop} {Q Q' : α → σ → Prop} {S : β → σ → Prop}

theorem Ends.mono {r : Ending ε α × σ × List Fault} (h : Ends Q R r)
    (hQ : ∀ a s, Q a s → Q' a s) : Ends Q' R r := by
  obtain ⟨ending, t, rest⟩ := r
  cases ending with
  | done a => exact hQ a t h
  | failed e | stopped => exact h

variable {c : Prog σ ε α}

/-- A stronger precondition. -/
theorem Triple.pre (h : Triple P' c Q R) (hP : ∀ s, P s → P' s) :
    Triple P c Q R := fun s fates hs => h s fates (hP s hs)

/-- A weaker postcondition. -/
theorem Triple.post (h : Triple P c Q R) (hQ : ∀ a s, Q a s → Q' a s) :
    Triple P c Q' R := fun s fates hs => (h s fates hs).mono hQ

theorem Triple.pure {a : α} (h : ∀ s, P s → Q a s) :
    Triple P (Pure.pure a : Prog σ ε α) Q R := fun s _ hs => h s hs

variable {k : α → Prog σ ε β}

/-- A crash of either part leaves a state in `R`. -/
theorem Triple.bind (hc : Triple P c Q R) (hk : ∀ a, Triple (Q a) (k a) S R) :
    Triple P (c >>= k) S R := by
  intro s fates hs
  have hend := hc s fates hs
  show Ends S R (andThen c k s fates)
  unfold andThen
  generalize c s fates = r at hend
  obtain ⟨ending, t, rest⟩ := r
  cases ending with
  | done a => exact hk a t rest hend
  | failed e | stopped => exact hend

variable {e : ε}

/-- An operation may also not happen. -/
theorem Triple.op {act : σ → α × σ} (hQ : ∀ s, P s → Q (act s).1 (act s).2) (hR : ∀ s, P s → R s) :
    Triple P (op e act) Q R := by
  intro s fates hs
  cases fates with
  | nil => exact hQ s hs
  | cons fate rest =>
    cases fate with
    | succeeds => exact hQ s hs
    | fails | stops => exact hR s hs

theorem Triple.modify {f : σ → σ} {S : PUnit → σ → Prop} (h : ∀ s, P s → S ⟨⟩ (f s)) :
    Triple P (modify f : Prog σ ε PUnit) S R := fun s _ hs => h s hs

theorem Triple.get {f : σ → α} (h : ∀ s, P s → Q (f s) s) :
    Triple P (get f : Prog σ ε α) Q R := fun s _ hs => h s hs

theorem Triple.fail (h : ∀ s, P s → R s) : Triple P (fail e : Prog σ ε α) Q R :=
  fun s _ hs => h s hs

variable {body : γ → Prog σ ε PUnit}

/-- **The loop rule**: the invariant speaks about the elements still to come. -/
theorem Triple.forEach {I : List γ → σ → Prop}
    (h : ∀ x xs, Triple (I (x :: xs)) (body x) (fun _ => I xs) R) (xs : List γ) :
    Triple (I xs) (forEach body xs) (fun _ => I []) R := by
  induction xs with
  | nil => exact Triple.pure fun s hs => hs
  | cons x xs ih => exact Triple.bind (h x xs) fun _ => ih

/-! ## Returning -/

/-- Without bad fates the program returns. -/
def Unfailing (c : Prog σ ε α) : Prop := ∀ s, ∃ a t, c s [] = (.done a, t, [])

theorem Unfailing.pure (a : α) : Unfailing (Pure.pure a : Prog σ ε α) := fun s => ⟨a, s, rfl⟩

theorem Unfailing.bind (hc : Unfailing c) (hk : ∀ a, Unfailing (k a)) : Unfailing (c >>= k) := by
  intro s
  obtain ⟨a, t, hrun⟩ := hc s
  obtain ⟨b, u, hrest⟩ := hk a t
  refine ⟨b, u, ?_⟩
  show andThen c k s [] = _
  unfold andThen
  rw [hrun]
  exact hrest

theorem Unfailing.op (e : ε) (act : σ → α × σ) : Unfailing (op e act) :=
  fun s => ⟨(act s).1, (act s).2, rfl⟩

theorem Unfailing.modify (f : σ → σ) : Unfailing (modify f : Prog σ ε PUnit) :=
  fun s => ⟨⟨⟩, f s, rfl⟩

theorem Unfailing.get (f : σ → α) : Unfailing (get f : Prog σ ε α) := fun s => ⟨f s, s, rfl⟩

/-- A loop of such bodies. -/
theorem Unfailing.forEach (h : ∀ x, Unfailing (body x)) (xs : List γ) :
    Unfailing (forEach body xs) := by
  induction xs with
  | nil => exact Unfailing.pure _
  | cons x xs ih => exact Unfailing.bind (h x) fun _ => ih

/-- **Total correctness**: without faults the program returns, in a state that `Q` says. -/
theorem Triple.returns (h : Triple P c Q R) (hc : Unfailing c) {s : σ} (hs : P s) :
    ∃ a t, c s [] = (.done a, t, []) ∧ Q a t := by
  obtain ⟨a, t, hrun⟩ := hc s
  have hend := h s [] hs
  rw [hrun] at hend
  exact ⟨a, t, hrun, hend⟩

end Prog
