import Mathlib.Algebra.Order.Ring.Nat
import Mathlib.Data.List.Basic

/-!
# Poll-based byte streams

The reading end of a stream that is driven by polling: each poll offers room for
at most `n` elements and is answered with some of them, with "not yet", with the
end of the stream or with an error.
-/

universe u v

open List

/-- The outcome of a poll. -/
inductive Poll (ε : Type u) (α : Type v) where
  | pending
  | ready (a : α)
  | failed (e : ε)
  deriving DecidableEq, Repr

/-- One answer of a source: a chunk, never empty, or "not yet". -/
inductive Event (β : Type v) where
  | data (b : β) (bs : List β)
  | pending
  deriving DecidableEq, Repr

/-- What follows the last answer. -/
inductive Tail (ε : Type u) where
  | eof
  | silent
  | broken (e : ε)
  deriving DecidableEq, Repr

/-- A finite list of answers (`Event`: a non-empty chunk, or "not yet") and what follows it (`Tail`:
the end, silence or an error). A chunk that does not fit is handed out in parts. Every cutting of a
byte string into reads is the event list of some source. -/
structure Source (ε : Type u) (β : Type v) where
  events : List (Event β)
  tail : Tail ε
  deriving DecidableEq, Repr

variable {ε : Type u} {β : Type v}

namespace Event

/-- The elements of an answer. -/
def bytes : Event β → List β
  | .data b bs => b :: bs
  | .pending => []

/-- The answer that hands out a list, if there is anything to hand out. -/
def ofList : List β → List (Event β)
  | [] => []
  | b :: bs => [.data b bs]

/-- Whether the answer carries anything. -/
def carries : Event β → Bool
  | .data _ _ => true
  | .pending => false

/-- The elements of a chunk. -/
@[simp] theorem bytes_data (b : β) (bs : List β) : (data b bs).bytes = b :: bs := rfl

/-- "Not yet" has no elements. -/
@[simp] theorem bytes_pending : (pending : Event β).bytes = [] := rfl

/-- The answer hands out the list as it is. -/
@[simp] theorem flatMap_bytes_ofList (l : List β) : (ofList l).flatMap bytes = l := by
  cases l with
  | nil => rfl
  | cons b bs => simp [ofList]

end Event

namespace Source

/-- What the source still has to hand out. -/
def bytes (s : Source ε β) : List β := s.events.flatMap Event.bytes

/-- A bound on the number of polls before the tail. -/
def size (s : Source ε β) : Nat := (s.events.map fun e => e.bytes.length + 1).sum

/-- One poll with room for `n` elements. -/
def poll (s : Source ε β) : Nat → Poll ε (List β) × Source ε β
  | 0 => (.ready [], s)
  | n + 1 =>
    match s.events with
    | [] =>
      match s.tail with
      | .eof => (.ready [], s)
      | .silent => (.pending, s)
      | .broken e => (.failed e, s)
    | .pending :: es => (.pending, { s with events := es })
    | .data b bs :: es =>
      (.ready (b :: bs.take n), { s with events := Event.ofList (bs.drop n) ++ es })

/-- What one poll with room for at least one element can do. -/
inductive PollStep (s : Source ε β) (n : Nat) : Poll ε (List β) → Source ε β → Prop where
  | pending (es : List (Event β)) (hevents : s.events = .pending :: es) :
      PollStep s n .pending { s with events := es }
  | silent (hevents : s.events = []) (htail : s.tail = .silent) : PollStep s n .pending s
  | eof (hevents : s.events = []) (htail : s.tail = .eof) : PollStep s n (.ready []) s
  | broken (e : ε) (hevents : s.events = []) (htail : s.tail = .broken e) :
      PollStep s n (.failed e) s
  | data (c : List β) (s' : Source ε β) (hne : c ≠ []) (hle : c.length ≤ n)
      (hbytes : s.bytes = c ++ s'.bytes) (htail : s'.tail = s.tail)
      (hsize : s'.size + c.length ≤ s.size) : PollStep s n (.ready c) s'

/-- A poll with room does one of these steps. -/
theorem poll_step (s : Source ε β) {n : Nat} (hn : 0 < n) :
    PollStep s n (s.poll n).1 (s.poll n).2 := by
  obtain ⟨m, rfl⟩ : ∃ m, n = m + 1 := ⟨n - 1, by omega⟩
  obtain ⟨events, tail⟩ := s
  cases events with
  | nil =>
    cases tail with
    | eof => exact .eof rfl rfl
    | silent => exact .silent rfl rfl
    | broken e => exact .broken e rfl rfl
  | cons event es =>
    cases event with
    | pending => exact .pending es rfl
    | data b bs =>
      refine .data (b :: bs.take m) _ (cons_ne_nil _ _) ?_ ?_ rfl ?_
      · rw [length_cons, length_take]
        omega
      · show (b :: bs) ++ es.flatMap Event.bytes = _
        simp only [poll, bytes, flatMap_append, Event.flatMap_bytes_ofList, cons_append]
        rw [← append_assoc, take_append_drop]
      · simp only [poll, size, map_append, sum_append, map_cons, sum_cons]
        cases hdrop : bs.drop m with
        | nil =>
          simp only [Event.ofList, Event.bytes, map_nil, sum_nil, length_cons, length_take]
          omega
        | cons d ds =>
          have hlen := congrArg List.length hdrop
          simp only [length_drop, length_cons] at hlen
          simp only [Event.ofList, Event.bytes, map_cons, map_nil, sum_cons,
            sum_nil, length_cons, length_take]
          omega

/-- A chunk that fits is handed out whole. -/
theorem poll_data {b : β} {bs : List β} {es : List (Event β)} {tail : Tail ε} {n : Nat}
    (h : (b :: bs).length ≤ n) :
    poll ⟨.data b bs :: es, tail⟩ n = (.ready (b :: bs), ⟨es, tail⟩) := by
  obtain ⟨m, rfl⟩ : ∃ m, n = m + 1 := ⟨n - 1, by simp only [length_cons] at h; omega⟩
  have hm : bs.length ≤ m := by simpa using h
  simp only [poll, take_of_length_le hm, drop_of_length_le hm, Event.ofList, nil_append]

end Source

/-- What a poll of a sink finds: room for at most `n + 1` elements, "not yet", or
an error. -/
inductive Room (ε : Type u) where
  | room (n : Nat)
  | block
  | broken (e : ε)
  deriving DecidableEq, Repr

/-- The writing end of a stream: what it has accepted, and what the next polls
find. Past its plan it takes everything. -/
structure Sink (ε : Type u) (β : Type v) where
  accepted : List β
  plan : List (Room ε)
  shut : Bool
  deriving DecidableEq, Repr

namespace Sink

/-- `poll_write`. -/
def write (s : Sink ε β) (bytes : List β) : Poll ε Nat × Sink ε β :=
  match s.plan with
  | [] => (.ready bytes.length, { s with accepted := s.accepted ++ bytes })
  | .room n :: plan =>
    (.ready (min (n + 1) bytes.length),
      { s with accepted := s.accepted ++ bytes.take (n + 1), plan := plan })
  | .block :: plan => (.pending, { s with plan := plan })
  | .broken e :: plan => (.failed e, { s with plan := plan })

/-- `poll_flush`. -/
def flush (s : Sink ε β) : Poll ε Unit × Sink ε β :=
  match s.plan with
  | [] => (.ready (), s)
  | .room _ :: plan => (.ready (), { s with plan := plan })
  | .block :: plan => (.pending, { s with plan := plan })
  | .broken e :: plan => (.failed e, { s with plan := plan })

/-- `poll_shutdown`. -/
def shutdown (s : Sink ε β) : Poll ε Unit × Sink ε β :=
  match s.flush with
  | (.ready (), s') => (.ready (), { s' with shut := true })
  | (r, s') => (r, s')

/-- Write out a buffer with at most `fuel` polls: the outcome, how many elements
were written, and the sink. A poll that takes nothing is the error `stuck`. -/
def writeAll (stuck : ε) : Nat → Sink ε β → List β → Poll ε Unit × Nat × Sink ε β
  | _, s, [] => (.ready (), 0, s)
  | 0, s, _ :: _ => (.pending, 0, s)
  | fuel + 1, s, b :: bs =>
    match s.write (b :: bs) with
    | (.pending, s') => (.pending, 0, s')
    | (.failed e, s') => (.failed e, 0, s')
    | (.ready n, s') =>
      if n = 0 then (.failed stuck, 0, s')
      else
        match writeAll stuck fuel s' ((b :: bs).drop n) with
        | (r, m, s'') => (r, n + m, s'')

/-- A write takes a front part, not empty if there is anything to write, or nothing at all. -/
theorem write_cases (s : Sink ε β) (bytes : List β) :
    (∃ n, (s.write bytes).1 = .ready n ∧ n ≤ bytes.length ∧ (bytes ≠ [] → 0 < n) ∧
        (s.write bytes).2.accepted = s.accepted ++ bytes.take n) ∨
      ((∀ n, (s.write bytes).1 ≠ .ready n) ∧ (s.write bytes).2.accepted = s.accepted) := by
  unfold write
  split
  · exact .inl ⟨bytes.length, rfl, le_rfl, length_pos_of_ne_nil,
      by rw [take_length]⟩
  · rename_i n plan _
    refine .inl ⟨_, rfl, min_le_right _ _, fun hne => ?_, ?_⟩
    · have := length_pos_of_ne_nil hne
      omega
    · show s.accepted ++ bytes.take (n + 1) = _
      rw [← take_eq_take_min]
  · exact .inr ⟨nofun, rfl⟩
  · exact .inr ⟨nofun, rfl⟩

/-- Flushing adds nothing. -/
@[simp] theorem flush_accepted (s : Sink ε β) : s.flush.2.accepted = s.accepted := by
  unfold flush
  split <;> rfl

/-- Shutting down adds nothing. -/
@[simp] theorem shutdown_accepted (s : Sink ε β) : s.shutdown.2.accepted = s.accepted := by
  have h := s.flush_accepted
  unfold shutdown
  split
  · rename_i s' heq
    rw [heq] at h
    exact h
  · rename_i r s' _ heq
    rw [heq] at h
    exact h

/-- The sink accepts as many elements as are reported, and all of them on success. -/
theorem writeAll_accepted (stuck : ε) (fuel : Nat) (s : Sink ε β) (bytes : List β) :
    (writeAll stuck fuel s bytes).2.2.accepted =
        s.accepted ++ bytes.take (writeAll stuck fuel s bytes).2.1 ∧
      (writeAll stuck fuel s bytes).2.1 ≤ bytes.length ∧
      ((writeAll stuck fuel s bytes).1 = .ready () →
        (writeAll stuck fuel s bytes).2.1 = bytes.length) := by
  induction fuel generalizing s bytes with
  | zero =>
    cases bytes with
    | nil => exact ⟨(append_nil _).symm, le_rfl, fun _ => rfl⟩
    | cons b bs => exact ⟨(append_nil _).symm, Nat.zero_le _, nofun⟩
  | succ fuel ih =>
    cases bytes with
    | nil => exact ⟨(append_nil _).symm, le_rfl, fun _ => rfl⟩
    | cons b bs =>
      have hwrite := s.write_cases (b :: bs)
      rw [writeAll]
      generalize s.write (b :: bs) = r at hwrite ⊢
      obtain ⟨r, s'⟩ := r
      cases r with
      | pending | failed e =>
        obtain ⟨n, hn, _⟩ | ⟨_, hacc⟩ := hwrite
        · cases hn
        · refine ⟨?_, Nat.zero_le _, nofun⟩
          rwa [take_zero, append_nil]
      | ready n =>
        obtain ⟨n', hn, hle, hpos, hacc⟩ | ⟨hnot, _⟩ := hwrite
        · cases hn
          simp only [ne_of_gt (hpos (cons_ne_nil _ _)), if_false]
          -- the rest is written behind the part that was taken now
          obtain ⟨ih1, ih2, ih3⟩ := ih s' ((b :: bs).drop n)
          generalize writeAll stuck fuel s' ((b :: bs).drop n) = w at ih1 ih2 ih3 ⊢
          obtain ⟨r, m, s''⟩ := w
          dsimp only at hle hacc ih1 ih2 ih3 ⊢
          rw [length_drop] at ih2 ih3
          refine ⟨?_, by omega, fun hr => ?_⟩
          · rw [ih1, hacc, append_assoc, ← take_add]
          · have hall := ih3 hr
            omega
        · exact absurd rfl (hnot n)

/-- No poll of the sink fails. -/
def Healthy (s : Sink ε β) : Prop := ∀ e, .broken e ∉ s.plan

theorem Healthy.rest {s : Sink ε β} (h : s.Healthy) {r : Room ε} {plan : List (Room ε)}
    (hplan : s.plan = r :: plan) : ∀ e, .broken e ∉ plan :=
  fun e he => h e (hplan ▸ mem_cons_of_mem _ he)

/-- A healthy sink stays so under a write, which does not fail. -/
theorem Healthy.write {s : Sink ε β} (h : s.Healthy) (bytes : List β) :
    (s.write bytes).2.Healthy ∧ ∀ e, (s.write bytes).1 ≠ .failed e := by
  unfold Sink.write
  split
  · exact ⟨h, nofun⟩
  · exact ⟨h.rest ‹_›, nofun⟩
  · exact ⟨h.rest ‹_›, nofun⟩
  · rename_i e plan hplan
    exact absurd (hplan ▸ mem_cons_self) (h e)

/-- The same for flushing. -/
theorem Healthy.flush {s : Sink ε β} (h : s.Healthy) :
    s.flush.2.Healthy ∧ ∀ e, s.flush.1 ≠ .failed e := by
  unfold Sink.flush
  split
  · exact ⟨h, nofun⟩
  · exact ⟨h.rest ‹_›, nofun⟩
  · exact ⟨h.rest ‹_›, nofun⟩
  · rename_i e plan hplan
    exact absurd (hplan ▸ mem_cons_self) (h e)

/-- The same for a whole buffer. -/
theorem Healthy.writeAll {s : Sink ε β} (h : s.Healthy) (stuck : ε) (fuel : Nat)
    (bytes : List β) :
    (Sink.writeAll stuck fuel s bytes).2.2.Healthy ∧
      ∀ e, (Sink.writeAll stuck fuel s bytes).1 ≠ .failed e := by
  induction fuel generalizing s bytes with
  | zero => cases bytes <;> exact ⟨h, nofun⟩
  | succ fuel ih =>
    cases bytes with
    | nil => exact ⟨h, nofun⟩
    | cons b bs =>
      have hcases := s.write_cases (b :: bs)
      have hwrite := h.write (b :: bs)
      rw [Sink.writeAll]
      generalize s.write (b :: bs) = r at hcases hwrite ⊢
      obtain ⟨r, s'⟩ := r
      cases r with
      | pending => exact ⟨hwrite.1, nofun⟩
      | failed e => exact absurd rfl (hwrite.2 e)
      | ready n =>
        obtain ⟨n', hn, _, hpos, _⟩ | ⟨hnot, _⟩ := hcases
        · cases hn
          simp only [ne_of_gt (hpos (cons_ne_nil _ _)), if_false]
          exact ih hwrite.1 _
        · exact absurd rfl (hnot n)

/-! ### Writing with waiting -/

/-- Write out a buffer with at most `fuel` polls, waiting when a poll says "not yet". -/
def putAllFor (stuck : ε) : Nat → Sink ε β → List β → Except ε (Sink ε β)
  | _, s, [] => .ok s
  | 0, _, _ :: _ => .error stuck
  | fuel + 1, s, b :: bs =>
    match s.write (b :: bs) with
    | (.pending, s') => putAllFor stuck fuel s' (b :: bs)
    | (.failed e, _) => .error e
    | (.ready n, s') =>
      if n = 0 then .error stuck else putAllFor stuck fuel s' ((b :: bs).drop n)

/-- Write out a buffer, with a poll for each entry of the plan and one past it. -/
def putAll (stuck : ε) (s : Sink ε β) (bytes : List β) : Except ε (Sink ε β) :=
  putAllFor stuck (s.plan.length + 1) s bytes

/-- On success the sink has accepted the buffer. -/
theorem putAllFor_accepted {stuck : ε} {fuel : Nat} {s s' : Sink ε β} {bytes : List β}
    (h : putAllFor stuck fuel s bytes = .ok s') : s'.accepted = s.accepted ++ bytes := by
  induction fuel generalizing s bytes with
  | zero =>
    cases bytes with
    | nil =>
      cases h
      exact (append_nil _).symm
    | cons b bs => cases h
  | succ fuel ih =>
    cases bytes with
    | nil =>
      cases h
      exact (append_nil _).symm
    | cons b bs =>
      have hwrite := s.write_cases (b :: bs)
      rw [putAllFor] at h
      generalize s.write (b :: bs) = r at hwrite h
      obtain ⟨r, next⟩ := r
      cases r with
      | failed e => cases h
      | pending =>
        obtain ⟨n, hn, -⟩ | ⟨-, haccepted⟩ := hwrite
        · cases hn
        · rw [ih h, haccepted]
      | ready n =>
        obtain ⟨n', hn, -, -, haccepted⟩ | ⟨hnot, -⟩ := hwrite
        · cases hn
          dsimp only at h haccepted
          split at h
          · cases h
          · rw [ih h, haccepted, append_assoc, take_append_drop]
        · exact absurd rfl (hnot n)

end Sink

/-- A stream with both ends. -/
structure Duplex (ε : Type u) (β : Type v) where
  source : Source ε β
  sink : Sink ε β
  deriving DecidableEq, Repr
