import Mathlib.Data.List.Basic

/-!
# Pipes, and what they are made of

A pipe takes values in at one end and gives them out at the other, in order, and says so once
its input has ended and nothing is left. This is the abstract form of a byte stream on its way
through queues and buffers: `Pipe.Step` says what may happen, and `Pipe.Explains` what the
history of a run then has to do with the state it leads to.
-/

universe u

open List

variable {α : Type u}

/-- What waits in a pipe, and whether its input has ended. -/
structure Pipe (α : Type u) where
  waiting : List α
  ended : Bool
  deriving DecidableEq, Repr

namespace Pipe

/-- What happens at the ends of a pipe. -/
inductive Event (α : Type u) where
  | put (xs : List α)
  | take (xs : List α)
  /-- The end is seen at the output. -/
  | close
  deriving DecidableEq, Repr

/-- What one access does to a pipe. -/
inductive Step : Pipe α → List (Event α) → Pipe α → Prop where
  | idle (p : Pipe α) : Step p [] p
  | put (waiting xs : List α) : Step ⟨waiting, false⟩ [.put xs] ⟨waiting ++ xs, false⟩
  | finish (p : Pipe α) : Step p [] { p with ended := true }
  | take (xs rest : List α) (ended : Bool) : Step ⟨xs ++ rest, ended⟩ [.take xs] ⟨rest, ended⟩
  | close : Step ⟨[], true⟩ [.close] ⟨[], true⟩

/-- All that was put in. -/
def given (log : List (Event α)) : List α :=
  log.flatMap fun
    | .put xs => xs
    | _ => []

/-- All that was taken out. -/
def taken (log : List (Event α)) : List α :=
  log.flatMap fun
    | .take xs => xs
    | _ => []

theorem given_append (log es : List (Event α)) : given (log ++ es) = given log ++ given es :=
  flatMap_append

theorem taken_append (log es : List (Event α)) : taken (log ++ es) = taken log ++ taken es :=
  flatMap_append

/-- The history of a pipe: what was put in was taken out or waits, and the end was seen only
when nothing was left to come. -/
structure Explains (log : List (Event α)) (p : Pipe α) : Prop where
  kept : given log = taken log ++ p.waiting
  closed : .close ∈ log → p.ended = true ∧ p.waiting = []

namespace Explains

variable {log es : List (Event α)} {p q : Pipe α}

theorem nil (ended : Bool) : Explains ([] : List (Event α)) ⟨[], ended⟩ where
  kept := rfl
  closed h := by cases h

/-- A step keeps the log and the channel together. -/
theorem step (h : Explains log p) (hs : Step p es q) : Explains (log ++ es) q := by
  have hkept := h.kept
  have hclosed := h.closed
  cases hs with
  | idle =>
    rw [append_nil]
    exact h
  | put waiting xs =>
    refine ⟨?_, fun hmem => ?_⟩
    · rw [given_append, hkept]
      simp [given, taken]
    · -- an end that was seen before rules this step out
      rcases mem_append.mp hmem with hmem | hmem
      · cases (hclosed hmem).1
      · cases mem_singleton.mp hmem
  | finish =>
    rw [append_nil]
    exact ⟨hkept, fun hmem => ⟨rfl, (hclosed hmem).2⟩⟩
  | take xs rest ended =>
    refine ⟨?_, fun hmem => ?_⟩
    · rw [given_append, taken_append, hkept]
      simp [given, taken]
    · rcases mem_append.mp hmem with hmem | hmem
      · exact ⟨(hclosed hmem).1, (append_eq_nil_iff.mp (hclosed hmem).2).2⟩
      · cases mem_singleton.mp hmem
  | close =>
    refine ⟨?_, fun _ => ⟨rfl, rfl⟩⟩
    rw [given_append, taken_append, hkept]
    simp [given, taken]

/-- What is taken out was given before. -/
theorem taken_le (h : Explains log p) : taken log <+: given log := ⟨p.waiting, h.kept.symm⟩

/-- At the end everything has been taken. -/
theorem taken_eq (h : Explains log p) (hclose : .close ∈ log) : taken log = given log := by
  rw [h.kept, (h.closed hclose).2, append_nil]

end Explains

end Pipe

/-! ## Channels -/

/-- A queue between a sender and a receiver, and which of the two are still there. -/
structure Channel (α : Type u) where
  queue : List α
  sender : Bool
  receiver : Bool
  deriving DecidableEq, Repr

namespace Channel

/-- An empty channel with both ends open. -/
def new : Channel α := ⟨[], true, true⟩

/-- A value goes to the end of the queue. -/
def send (c : Channel α) (a : α) : Channel α := { c with queue := c.queue ++ [a] }

/-- What a receive finds. -/
inductive Received (α : Type u) where
  | item (a : α)
  | empty
  | disconnected
  deriving DecidableEq, Repr

/-- A receive takes the first item; without one it tells whether another can come. -/
def recv (c : Channel α) : Received α × Channel α :=
  match c.queue with
  | a :: rest => (.item a, { c with queue := rest })
  | [] => if c.sender then (.empty, c) else (.disconnected, c)

end Channel

/-! ## Buffers that are given out in pieces -/

/-- A buffer with the offset of what is still to be given out. -/
abbrev Pending (α : Type u) := Option (List α × Nat)

namespace Pending

/-- What is still to be given out. -/
def rest : Pending α → List α
  | none => []
  | some (xs, offset) => xs.drop offset

@[simp] theorem rest_none : rest (none : Pending α) = [] := rfl

@[simp] theorem rest_some (xs : List α) (offset : Nat) :
    rest (some (xs, offset)) = xs.drop offset := rfl

/-- After the next `n` values; a buffer without more goes away. -/
def advance (xs : List α) (offset n : Nat) : Pending α :=
  if offset + n = xs.length then none else some (xs, offset + n)

/-- What is taken and what stays is what was there. -/
theorem take_append_rest_advance (xs : List α) (offset n : Nat) :
    (xs.drop offset).take n ++ rest (advance xs offset n) = xs.drop offset := by
  rw [advance]
  split
  · next hend =>
    rw [rest_none, append_nil, take_of_length_le]
    rw [length_drop]
    omega
  · rw [rest_some, ← drop_drop, take_append_drop]

/-- There is something to give out. -/
def Started (p : Pending α) : Prop := ∀ xs offset, p = some (xs, offset) → offset < xs.length

theorem started_none : Started (none : Pending α) := nofun

theorem started_advance {xs : List α} {offset n : Nat} (h : offset + n ≤ xs.length) :
    Started (advance xs offset n) := by
  intro ys k hk
  rw [advance] at hk
  split at hk
  · cases hk
  · next hne =>
    cases hk
    omega

end Pending
