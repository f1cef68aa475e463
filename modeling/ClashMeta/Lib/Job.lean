import ClashMeta.Lib.Lts

/-!
# Cancellable calls on a guarded stream

An asynchronous call holds a lock and works on the state behind it and on a stream; it
suspends wherever the stream has no bytes for it or takes none. At each such point it can be
dropped, or the stream can fail.
-/

open List

/-- The program of a call that returns `α`, on a state `σ` and a stream of `β`. -/
inductive Job (σ β α : Type) where
  | done (r : Except String α)
  | get (k : σ → Job σ β α)
  | set (s : σ) (k : Job σ β α)
  | read (n : Nat) (k : List β → Job σ β α)
  | write (bytes : List β) (k : Job σ β α)
  | flush (k : Job σ β α)

/-- How a call that nothing interrupts comes out: it waits for bytes that do not come, or
returns, with the state and the bytes it leaves. -/
inductive Job.Outcome (σ β α : Type) where
  | blocked
  | returned (r : Except String α) (s : σ) (inbound : List β)

/-- Where a call suspends: in a read of `n` elements that has got some, before elements still
to be written, or in a flush. -/
inductive Job.Stop (σ β α : Type) where
  | finished (r : Except String α)
  | reading (n : Nat) (got : List β) (k : List β → Job σ β α)
  | writing (left : List β) (k : Job σ β α)
  | flushing (k : Job σ β α)

namespace Job

variable {σ β α γ : Type}

/-- One job after the other; an error ends both. -/
def bind : Job σ β α → (α → Job σ β γ) → Job σ β γ
  | done (.ok a), f => f a
  | done (.error e), _ => done (.error e)
  | get k, f => get fun s => (k s).bind f
  | set s k, f => set s (k.bind f)
  | read n k, f => read n fun bytes => (k bytes).bind f
  | write bytes k, f => write bytes (k.bind f)
  | flush k, f => flush (k.bind f)

instance : Monad (Job σ β) where
  pure a := done (.ok a)
  bind := bind

/-- Go on when the condition holds. -/
def check (cond : Prop) [Decidable cond] (message : String) : Job σ β Unit :=
  done (if cond then .ok () else .error message)

/-- The state behind the lock. -/
def state : Job σ β σ := get fun s => done (.ok s)

/-- An assignment to the state. -/
def assign (f : σ → σ) : Job σ β Unit := get fun s => set (f s) (done (.ok ()))

/-- `read_exact`. -/
def readExact (n : Nat) : Job σ β (List β) := read n fun bytes => done (.ok bytes)

/-- `write_all`. -/
def writeAll (bytes : List β) : Job σ β Unit := write bytes (done (.ok ()))

/-- `flush`. -/
def flushAll : Job σ β Unit := flush (done (.ok ()))

/-- The outcome of a pure computation. -/
def ofExcept (r : Except String α) : Job σ β α := done r

section

variable (f : α → Job σ β γ)

@[simp] theorem pure_eq (a : α) : (pure a : Job σ β α) = done (.ok a) := rfl

@[simp] theorem ok_bind (a : α) : ((done (.ok a) : Job σ β α) >>= f) = f a := rfl

@[simp] theorem error_bind (e : String) :
    ((done (.error e) : Job σ β α) >>= f) = done (.error e) := rfl

@[simp] theorem state_bind (f : σ → Job σ β γ) : (state >>= f) = get f := rfl

@[simp] theorem assign_bind (g : σ → σ) (f : Unit → Job σ β γ) :
    (assign g >>= f) = get fun s => set (g s) (f ()) := rfl

@[simp] theorem readExact_bind (n : Nat) (f : List β → Job σ β γ) :
    (readExact n >>= f) = read n f := rfl

@[simp] theorem writeAll_bind (bytes : List β) (f : Unit → Job σ β γ) :
    (writeAll bytes >>= f) = write bytes (f ()) := rfl

@[simp] theorem flushAll_bind (f : Unit → Job σ β γ) : (flushAll >>= f) = flush (f ()) := rfl

/-- A check that passes. -/
theorem check_true {cond : Prop} [Decidable cond] (h : cond) (message : String)
    (f : Unit → Job σ β γ) : (check cond message >>= f) = f () := by
  rw [check, if_pos h, ok_bind]

/-- A check that fails. -/
theorem check_false {cond : Prop} [Decidable cond] (h : ¬ cond) (message : String)
    (f : Unit → Job σ β γ) : (check cond message >>= f) = done (.error message) := by
  rw [check, if_neg h, error_bind]

end

/-- A call runs up to the next point where it can suspend. Reads and writes of nothing do
not. -/
def settle : Job σ β α → σ → Job.Stop σ β α × σ
  | done r, s => (.finished r, s)
  | get k, s => (k s).settle s
  | set s k, _ => k.settle s
  | read 0 k, s => (k []).settle s
  | read (n + 1) k, s => (.reading (n + 1) [] k, s)
  | write [] k, s => k.settle s
  | write (b :: bs) k, s => (.writing (b :: bs) k, s)
  | flush k, s => (.flushing k, s)

/-- What a call writes and how it comes out, when nothing interrupts it. -/
def eval : Job σ β α → σ → List β → List β × Job.Outcome σ β α
  | done r, s, inbound => ([], .returned r s inbound)
  | get k, s, inbound => (k s).eval s inbound
  | set s k, _, inbound => k.eval s inbound
  | read n k, s, inbound =>
    if inbound.length < n then ([], .blocked)
    else (k (inbound.take n)).eval s (inbound.drop n)
  | write bytes k, s, inbound => (bytes ++ (k.eval s inbound).1, (k.eval s inbound).2)
  | flush k, s, inbound => k.eval s inbound

/-- A read takes the bytes that are there for it. -/
theorem eval_read {n : Nat} {bytes : List β} (h : bytes.length = n) (k : List β → Job σ β α)
    (s : σ) (rest : List β) : (read n k).eval s (bytes ++ rest) = (k bytes).eval s rest := by
  subst h
  have hlength : ¬ (bytes ++ rest).length < bytes.length := by
    rw [length_append]
    omega
  rw [eval, if_neg hlength, take_left, drop_left]

/-- The state has the property wherever the call can suspend. -/
def Awaits (P : σ → Prop) : Job σ β α → σ → Prop
  | done _, _ => True
  | get k, s => (k s).Awaits P s
  | set s k, _ => k.Awaits P s
  | read _ k, s => P s ∧ ∀ bytes, (k bytes).Awaits P s
  | write _ k, s => P s ∧ k.Awaits P s
  | flush k, s => P s ∧ k.Awaits P s

section

variable {P : σ → Prop} {s : σ}

/-- The property behind a check. -/
theorem awaits_check {cond : Prop} [Decidable cond] {message : String} {f : Unit → Job σ β γ}
    (h : cond → (f ()).Awaits P s) : (check cond message >>= f).Awaits P s := by
  by_cases hcond : cond
  · rw [check_true hcond]
    exact h hcond
  · rw [check_false hcond]
    trivial

/-- The property behind a pure computation. -/
theorem awaits_ofExcept {r : Except String α} {f : α → Job σ β γ}
    (h : ∀ a, r = .ok a → (f a).Awaits P s) : (ofExcept r >>= f).Awaits P s := by
  cases r with
  | error e => trivial
  | ok a => exact h a rfl

/-- The property at a read and behind it. -/
theorem awaits_readExact {n : Nat} {f : List β → Job σ β γ} (h : P s)
    (hf : ∀ bytes, (f bytes).Awaits P s) : (readExact n >>= f).Awaits P s :=
  ⟨h, hf⟩

end

end Job

namespace Job.Stop

variable {σ β α : Type}

/-- What a suspended call still writes, and how it comes out. -/
def eval : Job.Stop σ β α → σ → List β → List β × Job.Outcome σ β α
  | finished r, s, inbound => ([], .returned r s inbound)
  | reading n got k, s, inbound => (Job.read n k).eval s (got ++ inbound)
  | writing left k, s, inbound => (Job.write left k).eval s inbound
  | flushing k, s, inbound => k.eval s inbound

/-- The state has the property here and wherever the call can suspend later. -/
def Awaits (P : σ → Prop) : Job.Stop σ β α → σ → Prop
  | finished _, _ => True
  | reading n _ k, s => (Job.read n k).Awaits P s
  | writing left k, s => (Job.write left k).Awaits P s
  | flushing k, s => (Job.flush k).Awaits P s

/-- A read that is not complete. -/
def Waiting : Job.Stop σ β α → Prop
  | finished _ => False
  | reading n got _ => got.length < n
  | writing left _ => left ≠ []
  | flushing _ => True

end Job.Stop

namespace Job

variable {σ β α : Type}

/-- Running up to the next suspension changes no outcome. -/
theorem eval_settle (t : Job σ β α) (s : σ) (inbound : List β) :
    (t.settle s).1.eval (t.settle s).2 inbound = t.eval s inbound := by
  induction t generalizing s inbound with
  | done r => rfl
  | get k ih => exact ih s s inbound
  | set s' k ih => exact ih s' inbound
  | read n k ih =>
    cases n with
    | zero =>
      rw [settle, ih, eval]
      rfl
    | succ n => rfl
  | write bytes k ih =>
    cases bytes with
    | nil => exact ih s inbound
    | cons b bs => rfl
  | flush k ih => rfl

/-- A call that has settled waits or has finished. -/
theorem settle_cases (t : Job σ β α) (s : σ) :
    (t.settle s).1.Waiting ∨ ∃ r, (t.settle s).1 = .finished r := by
  induction t generalizing s with
  | done r => exact .inr ⟨r, rfl⟩
  | get k ih => exact ih s s
  | set s' k ih => exact ih s'
  | read n k ih =>
    cases n with
    | zero => exact ih [] s
    | succ n => exact .inl (Nat.succ_pos n)
  | write bytes k ih =>
    cases bytes with
    | nil => exact ih s
    | cons b bs => exact .inl (cons_ne_nil b bs)
  | flush k ih => exact .inl trivial

/-- Where a call has settled the property holds. -/
theorem Awaits.settle {P : σ → Prop} {t : Job σ β α} {s : σ} (h : t.Awaits P s) :
    (t.settle s).1.Awaits P (t.settle s).2 := by
  induction t generalizing s with
  | done r => trivial
  | get k ih => exact ih s h
  | set s' k ih => exact ih h
  | read n k ih =>
    cases n with
    | zero => exact ih [] (h.2 [])
    | succ n => exact h
  | write bytes k ih =>
    cases bytes with
    | nil => exact ih h.2
    | cons b bs => exact h
  | flush k ih => exact h

end Job

namespace Job.Stop

variable {σ β α : Type} {s : σ} {inbound : List β}

/-- It holds where the call waits. -/
theorem Awaits.here {P : σ → Prop} {stop : Job.Stop σ β α} (hwait : stop.Waiting)
    (h : stop.Awaits P s) : P s := by
  cases stop with
  | finished r => exact hwait.elim
  | reading n got k | writing left k | flushing k => exact h.1

/-- Bytes that arrive for a read move from the stream to it. -/
theorem eval_reading_take (n m : Nat) (got : List β) (k : List β → Job σ β α) :
    (reading m (got ++ inbound.take n) k).eval s (inbound.drop n) =
      (reading m got k).eval s inbound := by
  simp only [eval, append_assoc, take_append_drop]

theorem eval_reading_full {got : List β} {m : Nat} (k : List β → Job σ β α)
    (h : got.length = m) : (reading m got k).eval s inbound = (k got).eval s inbound :=
  Job.eval_read h k s inbound

/-- Bytes of a write that are taken have been written. -/
theorem eval_writing_take (n : Nat) (left : List β) (k : Job σ β α) :
    (writing left k).eval s inbound =
      (left.take n ++ ((writing (left.drop n) k).eval s inbound).1,
        ((writing (left.drop n) k).eval s inbound).2) := by
  simp only [eval, Job.eval, ← append_assoc, take_append_drop]

end Job.Stop

/-! ## Calls one after another -/

/-- The state behind a lock, its stream and the call that holds the lock, with its
arguments. `log` has every call that ended: with a result, or cancelled. -/
structure Port (σ β ι α : Type) where
  state : σ
  inbound : List β
  outbound : List β
  call : Option (ι × Job.Stop σ β α)
  log : List (ι × Option (Except String α))

namespace Port

variable {σ β ι α : Type}

/-- A stream on which the peer sends `inbound`. -/
def new (s : σ) (inbound : List β) : Port σ β ι α := ⟨s, inbound, [], none, []⟩

/-- What can happen next: a call obtains the lock, elements arrive for its read, elements of
its write are taken, its flush is done, the stream fails, or the call is dropped. -/
inductive Action (ι : Type) where
  | start (args : ι)
  | read (n : Nat)
  | write (n : Nat)
  | flush
  | error (message : String)
  | cancel

/-- A call ends. -/
def finish (p : Port σ β ι α) (args : ι) (r : Option (Except String α)) : Port σ β ι α :=
  { p with call := none, log := p.log ++ [(args, r)] }

/-- A call has got as far as `stop`. -/
def park (p : Port σ β ι α) (args : ι) : Job.Stop σ β α × σ → Port σ β ι α
  | (.finished r, s) => { p with state := s }.finish args (some r)
  | (stop, s) => { p with state := s, call := some (args, stop) }

/-- The call goes on with a job. -/
def resume (p : Port σ β ι α) (args : ι) (t : Job σ β α) : Port σ β ι α :=
  p.park args (t.settle p.state)

/-- One step, with calls of `prog`. What `prog` checks before it asks for the lock is an
`Except`: such a call fails without the lock. -/
def step (prog : ι → Except String (Job σ β α)) (p : Port σ β ι α) :
    Action ι → Option (Port σ β ι α)
  | .start args =>
    match prog args with
    | .error e => some { p with log := p.log ++ [(args, some (.error e))] }
    | .ok t =>
      match p.call with
      | none => some (p.resume args t)
      | some _ => none
  | .read n =>
    match p.call with
    | some (args, .reading m got k) =>
      if n = 0 ∨ m < got.length + n ∨ p.inbound.length < n then none
      else
        let p' := { p with inbound := p.inbound.drop n }
        let got' := got ++ p.inbound.take n
        if got'.length < m then some { p' with call := some (args, .reading m got' k) }
        else some (p'.resume args (k got'))
    | _ => none
  | .write n =>
    match p.call with
    | some (args, .writing left k) =>
      if n = 0 ∨ left.length < n then none
      else
        let p' := { p with outbound := p.outbound ++ left.take n }
        if n < left.length then some { p' with call := some (args, .writing (left.drop n) k) }
        else some (p'.resume args k)
    | _ => none
  | .flush =>
    match p.call with
    | some (args, .flushing k) => some (p.resume args k)
    | _ => none
  | .error message =>
    match p.call with
    | some (args, _) => some (p.finish args (some (.error message)))
    | none => none
  | .cancel =>
    match p.call with
    | some (args, _) => some (p.finish args none)
    | none => none

/-- The port under calls of `prog`. -/
def system (prog : ι → Except String (Job σ β α)) (s : σ) (inbound : List β) :
    Lts (Port σ β ι α) (Action ι) :=
  ⟨new s inbound, step prog⟩

/-- The value of a call that succeeded. -/
def success : ι × Option (Except String α) → Option (ι × α)
  | (args, some (.ok a)) => some (args, a)
  | _ => none

/-- The calls that succeeded, in order. -/
def successes (p : Port σ β ι α) : List (ι × α) := p.log.filterMap success

/-- A call with these arguments is under way or ended without success. -/
def Unsettled (p : Port σ β ι α) (args : ι) : Prop :=
  (∃ stop, p.call = some (args, stop)) ∨ ∃ r, (args, r) ∈ p.log ∧ success (args, r) = none

variable {p : Port σ β ι α} {args : ι}

theorem park_finished (r : Except String α) (s : σ) :
    p.park args (.finished r, s) = { p with state := s }.finish args (some r) := rfl

/-- A call that waits is kept. -/
theorem park_waiting {stop : Job.Stop σ β α} (h : stop.Waiting) (s : σ) :
    p.park args (stop, s) = { p with state := s, call := some (args, stop) } := by
  cases stop with
  | finished r => exact h.elim
  | reading n got k | writing left k | flushing k => rfl

end Port

/-! ## The discipline -/

section

variable {σ β ι α : Type}

/-- `R s inbound outbound done`: the state and the stream after the calls of `done`, all
successful. `dead`: the state in which a call that was cut off leaves the port. -/
structure Serves (prog : ι → Except String (Job σ β α))
    (R : σ → List β → List β → List (ι × α) → Prop) (dead : σ → Prop) : Prop where
  awaits : ∀ {args t s inbound outbound done}, prog args = .ok t → R s inbound outbound done →
    t.Awaits dead s
  refuses : ∀ {args t s}, prog args = .ok t → dead s →
    ∃ e, t.settle s = (.finished (.error e), s)
  returns : ∀ {args t s inbound outbound done w a s' inbound'}, prog args = .ok t →
    R s inbound outbound done → t.eval s inbound = (w, .returned (.ok a) s' inbound') →
    R s' inbound' (outbound ++ w) (done ++ [(args, a)])
  fails : ∀ {args t s inbound outbound done w e s' inbound'}, prog args = .ok t →
    R s inbound outbound done → t.eval s inbound = (w, .returned (.error e) s' inbound') →
    dead s' ∨ w = [] ∧ R s' inbound' outbound done

variable {prog : ι → Except String (Job σ β α)}
  {R : σ → List β → List β → List (ι × α) → Prop} {dead : σ → Prop} {s : σ}
  {inbound outbound w : List β} {p q : Port σ β ι α} {args : ι}

/-- The two ends of a call, from what it leaves behind in either case. -/
theorem Serves.of_ends
    (awaits : ∀ {args t s inbound outbound done}, prog args = .ok t →
      R s inbound outbound done → t.Awaits dead s)
    (refuses : ∀ {args t s}, prog args = .ok t → dead s →
      ∃ e, t.settle s = (.finished (.error e), s))
    (ends : ∀ {args t s inbound outbound done w r s' inbound'}, prog args = .ok t →
      R s inbound outbound done → t.eval s inbound = (w, .returned r s' inbound') →
      match r with
      | .ok a => R s' inbound' (outbound ++ w) (done ++ [(args, a)])
      | .error _ => dead s' ∨ w = [] ∧ R s' inbound' outbound done) : Serves prog R dead :=
  ⟨awaits, refuses, ends, ends⟩

namespace Port

/-- Where a port is after the successful calls `done`, which left the state `s` and the
stream `inbound`, `outbound`. -/
inductive Stands (prog : ι → Except String (Job σ β α)) (dead : σ → Prop) (s : σ)
    (inbound outbound : List β) (p : Port σ β ι α) : Prop where
  | idle (hcall : p.call = none) (hstate : p.state = s) (hin : p.inbound = inbound)
      (hout : p.outbound = outbound)
  | busy {args : ι} {t : Job σ β α} {stop : Job.Stop σ β α} {w : List β}
      (hprog : prog args = .ok t) (hcall : p.call = some (args, stop)) (hwait : stop.Waiting)
      (hdead : stop.Awaits dead p.state) (hout : p.outbound = outbound ++ w)
      (heval : t.eval s inbound = (w ++ (stop.eval p.state p.inbound).1,
        (stop.eval p.state p.inbound).2))
  | broken {args : ι} {t : Job σ β α} {w : List β} (hprog : prog args = .ok t)
      (hcall : p.call = none) (hdead : dead p.state) (hunsettled : p.Unsettled args)
      (hout : p.outbound = outbound ++ w) (hw : w <+: (t.eval s inbound).1)

/-- A call that returns a value has succeeded. -/
theorem successes_finish_ok (a : α) :
    (p.finish args (some (.ok a))).successes = p.successes ++ [(args, a)] := by
  simp [successes, finish, success]

variable {r : Option (Except String α)}

/-- One that does not has not. -/
theorem successes_finish (h : success (args, r) = none) :
    (p.finish args r).successes = p.successes := by
  simp [successes, finish, h]

/-- It is unsettled. -/
theorem unsettled_finish (h : success (args, r) = none) : (p.finish args r).Unsettled args :=
  .inr ⟨r, mem_append_right _ (mem_singleton_self _), h⟩

/-- The port stands behind some successful calls. -/
def Sound (prog : ι → Except String (Job σ β α))
    (R : σ → List β → List β → List (ι × α) → Prop) (dead : σ → Prop)
    (p : Port σ β ι α) : Prop :=
  ∃ s inbound outbound, R s inbound outbound p.successes ∧ p.Stands prog dead s inbound outbound

/-- A call that is cut off leaves a dead state. -/
theorem Sound.interrupt (hr : success (args, r) = none) {t : Job σ β α} {stop : Job.Stop σ β α}
    (hprog : prog args = .ok t) (hR : R s inbound outbound p.successes) (hwait : stop.Waiting)
    (hdead : stop.Awaits dead p.state) (hout : p.outbound = outbound ++ w)
    (hw : w <+: (t.eval s inbound).1) : (p.finish args r).Sound prog R dead := by
  refine ⟨s, inbound, outbound, ?_,
    .broken hprog rfl (hdead.here hwait) (unsettled_finish hr) hout hw⟩
  rwa [successes_finish hr]

/-- What is known of the call under way. -/
theorem Sound.underway {stop : Job.Stop σ β α} (h : p.Sound prog R dead)
    (hcall : p.call = some (args, stop)) :
    ∃ s inbound outbound t w, prog args = .ok t ∧ R s inbound outbound p.successes ∧
      stop.Waiting ∧ stop.Awaits dead p.state ∧ p.outbound = outbound ++ w ∧
      t.eval s inbound =
        (w ++ (stop.eval p.state p.inbound).1, (stop.eval p.state p.inbound).2) := by
  obtain ⟨s, inbound, outbound, hR, hstands⟩ := h
  cases hstands with
  | idle hnone | broken _ hnone => rw [hcall] at hnone; cases hnone
  | busy hprog hsome hwait hdead hout heval =>
    rw [hcall] at hsome
    cases hsome
    exact ⟨s, inbound, outbound, _, _, hprog, hR, hwait, hdead, hout, heval⟩

variable (hserves : Serves prog R dead)

include hserves

/-- A call goes on: it waits again, returns, or fails. -/
theorem Sound.resume {t u : Job σ β α} (hprog : prog args = .ok t)
    (hR : R s inbound outbound p.successes) (hawaits : u.Awaits dead p.state)
    (hout : p.outbound = outbound ++ w)
    (heval : t.eval s inbound =
      (w ++ (u.eval p.state p.inbound).1, (u.eval p.state p.inbound).2)) :
    (p.resume args u).Sound prog R dead := by
  have hdead := hawaits.settle
  rw [← u.eval_settle] at heval
  rw [Port.resume]
  rcases hsettle : u.settle p.state with ⟨stop, s'⟩
  have hcases := u.settle_cases p.state
  rw [hsettle] at hdead heval hcases
  rcases hcases with hwait | ⟨r, hr⟩
  · rw [park_waiting hwait]
    exact ⟨s, inbound, outbound, hR, .busy hprog rfl hwait hdead hout heval⟩
  · cases hr
    rw [park_finished]
    simp only [Job.Stop.eval, append_nil] at heval
    cases r with
    | ok a =>
      refine ⟨s', p.inbound, outbound ++ w, ?_, .idle rfl rfl rfl hout⟩
      rw [successes_finish_ok]
      exact hserves.returns hprog hR heval
    | error e =>
      rcases hserves.fails hprog hR heval with hdead' | ⟨rfl, hR'⟩
      · refine ⟨s, inbound, outbound, ?_, .broken hprog rfl hdead' (unsettled_finish rfl) hout ?_⟩
        · rwa [successes_finish rfl]
        · exact heval ▸ prefix_rfl
      · refine ⟨s', p.inbound, outbound, ?_, .idle rfl rfl rfl ?_⟩
        · rwa [successes_finish rfl]
        · exact hout.trans (append_nil outbound)

variable (h : p.Sound prog R dead)

include h

/-- A call obtains the lock, or is refused. -/
theorem Sound.start (hstep : step prog p (.start args) = some q) : q.Sound prog R dead := by
  obtain ⟨s, inbound, outbound, hR, hstands⟩ := h
  simp only [step] at hstep
  cases hprog : prog args with
  | error e =>
    rw [hprog] at hstep
    cases hstep
    have hsame : Port.successes { p with log := p.log ++ [(args, some (.error e))] } =
        p.successes := by
      simp [successes, success]
    refine ⟨s, inbound, outbound, hsame ▸ hR, ?_⟩
    cases hstands with
    | idle hcall hstate hin hout => exact .idle hcall hstate hin hout
    | busy hprog hcall hwait hdead hout heval =>
      exact .busy hprog hcall hwait hdead hout heval
    | broken hprog hcall hdead hunsettled hout hw =>
      refine .broken hprog hcall hdead ?_ hout hw
      exact hunsettled.imp_right fun ⟨r, hr, hnone⟩ => ⟨r, mem_append_left _ hr, hnone⟩
  | ok t =>
    rw [hprog] at hstep
    cases hstands with
    | idle hcall hstate hin hout =>
      simp only [hcall, Option.some.injEq] at hstep
      cases hstep
      subst hstate hin hout
      exact Sound.resume hserves hprog hR (hserves.awaits hprog hR)
        (append_nil _).symm rfl
    | busy _ hcall =>
      simp only [hcall] at hstep
      cases hstep
    | broken hprog' hcall hdead hunsettled hout hw =>
      simp only [hcall, Option.some.injEq] at hstep
      cases hstep
      -- a dead state refuses the call and stays as it is
      obtain ⟨e, hsettle⟩ := hserves.refuses hprog hdead
      rw [Port.resume, hsettle, park_finished]
      refine ⟨s, inbound, outbound, ?_, .broken hprog' rfl hdead ?_ hout hw⟩
      · rwa [successes_finish rfl]
      · rcases hunsettled with ⟨stop, hstop⟩ | ⟨r, hr, hnone⟩
        · rw [hcall] at hstop
          cases hstop
        · exact .inr ⟨r, mem_append_left _ hr, hnone⟩

/-- Bytes arrive for a read. -/
theorem Sound.read {n : Nat} (hstep : step prog p (.read n) = some q) : q.Sound prog R dead := by
  simp only [step] at hstep
  split at hstep
  · next args m got k hcall =>
    obtain ⟨s, inbound, outbound, t, w, hprog, hR, hwait, hdead, hout, heval⟩ :=
      h.underway hcall
    rw [← Job.Stop.eval_reading_take n] at heval
    split at hstep
    · cases hstep
    · next hn =>
      have hlength : (got ++ p.inbound.take n).length = got.length + n := by
        rw [length_append, length_take]
        omega
      split at hstep
      · next hmore =>
        cases hstep
        exact ⟨s, inbound, outbound, hR, .busy hprog rfl hmore hdead hout heval⟩
      · next hfull =>
        cases hstep
        rw [Job.Stop.eval_reading_full k (by omega)] at heval
        exact Sound.resume hserves hprog hR (hdead.2 _) hout heval
  · cases hstep

/-- Bytes of a write are taken. -/
theorem Sound.write {n : Nat} (hstep : step prog p (.write n) = some q) : q.Sound prog R dead := by
  simp only [step] at hstep
  split at hstep
  · next args left k hcall =>
    obtain ⟨s, inbound, outbound, t, w, hprog, hR, hwait, hdead, hout, heval⟩ :=
      h.underway hcall
    rw [Job.Stop.eval_writing_take n, ← append_assoc] at heval
    have hout' : p.outbound ++ left.take n = outbound ++ (w ++ left.take n) := by
      rw [hout, append_assoc]
    split at hstep
    · cases hstep
    · split at hstep
      · next hmore =>
        cases hstep
        refine ⟨s, inbound, outbound, hR, .busy hprog rfl ?_ hdead hout' heval⟩
        exact fun hnil => absurd (drop_eq_nil_iff.mp hnil) (by omega)
      · next hfull =>
        cases hstep
        rw [drop_of_length_le (by omega)] at heval
        exact Sound.resume hserves hprog hR hdead.2 hout' heval
  · cases hstep

/-- **Every step keeps the discipline.** -/
theorem Sound.step {a : Action ι} (hstep : step prog p a = some q) : q.Sound prog R dead := by
  cases a with
  | start args => exact h.start hserves hstep
  | read n => exact h.read hserves hstep
  | write n => exact h.write hserves hstep
  | flush =>
    simp only [Port.step] at hstep
    split at hstep
    · next args k hcall =>
      cases hstep
      obtain ⟨s, inbound, outbound, t, w, hprog, hR, hwait, hdead, hout, heval⟩ :=
        h.underway hcall
      exact Sound.resume hserves hprog hR hdead.2 hout heval
    · cases hstep
  | error message | cancel =>
    simp only [Port.step] at hstep
    split at hstep
    · next args stop hcall =>
      cases hstep
      obtain ⟨s, inbound, outbound, t, w, hprog, hR, hwait, hdead, hout, heval⟩ :=
        h.underway hcall
      exact Sound.interrupt rfl hprog hR hwait hdead hout (heval ▸ prefix_append _ _)
    · cases hstep

end Port

/-- **Every run of a disciplined program** stands behind calls that succeeded one after
another, and at most one more, which was cut off and wrote a part of what it would have
written. -/
theorem Serves.reached (hserves : Serves prog R dead) (hinit : R s inbound [] [])
    (hreach : (Port.system prog s inbound).Reaches Lts.anyStep (Port.new s inbound) p) :
    ∃ s' inbound' outbound w, R s' inbound' outbound p.successes ∧
      p.outbound = outbound ++ w ∧
      (w = [] ∨ ∃ args t, p.Unsettled args ∧ prog args = .ok t ∧
        w <+: (t.eval s' inbound').1) := by
  have hsound : p.Sound prog R dead :=
    hreach.invariant ⟨s, inbound, [], hinit, .idle rfl rfl rfl rfl⟩
      fun h _ hstep => h.step hserves hstep
  obtain ⟨s', inbound', outbound, hR, hstands⟩ := hsound
  cases hstands with
  | idle _ _ _ hout => exact ⟨s', inbound', outbound, [], hR, by simp [hout], .inl rfl⟩
  | busy hprog hcall _ _ hout heval =>
    refine ⟨s', inbound', outbound, _, hR, hout, .inr ⟨_, _, .inl ⟨_, hcall⟩, hprog, ?_⟩⟩
    rw [heval]
    exact prefix_append _ _
  | broken hprog _ _ hunsettled hout hw =>
    exact ⟨s', inbound', outbound, _, hR, hout, .inr ⟨_, _, hunsettled, hprog, hw⟩⟩

end
