import ClashMeta.Lib.PollIo

/-!
# Readers that refine a byte string

A reader is a state that is polled with room for some elements. What it stands for
is a list still to be handed out and how the stream finishes after it.
-/

universe u v w

open Option List

/-- How a stream finishes. -/
inductive Finish where
  | eof
  | error
  deriving DecidableEq, Repr

/-- The elements an answer carries. -/
def Poll.elements {ε : Type u} {β : Type v} : Poll ε (List β) → List β
  | .ready c => c
  | .pending => []
  | .failed _ => []

namespace Reader

variable {ε : Type u} {β : Type v} {σ : Type w}

/-- What a poll with room for `n` elements can do when `out` is still to come, then
`fin`, within `m` polls. -/
inductive Step (I : σ → List β → Finish → Nat → Prop) (out : List β) (fin : Finish) (m n : Nat) :
    Poll ε (List β) × σ → Prop where
  | pending (s : σ) (k : Nat) (hk : k < m) (h : I s out fin k) : Step I out fin m n (.pending, s)
  | data (c rest : List β) (s : σ) (k : Nat) (hne : c ≠ []) (hle : c.length ≤ n)
      (hout : out = c ++ rest) (hk : k + c.length ≤ m) (h : I s rest fin k) :
      Step I out fin m n (.ready c, s)
  | eof (s : σ) (hout : out = []) (hfin : fin = .eof) (h : I s [] .eof 0) :
      Step I out fin m n (.ready [], s)
  | error (e : ε) (s : σ) (hout : out = []) (hfin : fin = .error) (h : I s [] .error 0) :
      Step I out fin m n (.failed e, s)

/-- What a poll without room can do: it hands nothing out and never says that the stream has
ended, but it may work on what is to come. -/
inductive Idle (I : σ → List β → Finish → Nat → Prop) (out : List β) (fin : Finish) (m : Nat) :
    Poll ε (List β) × σ → Prop where
  | ready (s : σ) (k : Nat) (hk : k ≤ m) (h : I s out fin k) : Idle I out fin m (.ready [], s)
  | pending (s : σ) (k : Nat) (hk : k ≤ m) (h : I s out fin k) : Idle I out fin m (.pending, s)
  | error (e : ε) (s : σ) (hout : out = []) (hfin : fin = .error) (h : I s [] .error 0) :
      Idle I out fin m (.failed e, s)

/-- The relation `I s out fin m` ("from `s` come `out`, then `fin`, within `m` polls") is kept by
every poll, whatever its size. One poll is described by `Reader.Step`, or by `Reader.Idle` when it
has no room. `Reader.Reads` is the case of readers that do nothing without room. -/
structure Polls (poll : σ → Nat → Poll ε (List β) × σ)
    (I : σ → List β → Finish → Nat → Prop) : Prop where
  idle : ∀ {s out fin m}, I s out fin m → Idle I out fin m (poll s 0)
  step : ∀ {s out fin m n}, I s out fin m → 0 < n → Step I out fin m n (poll s n)

/-- Every poll keeps `I`. A poll without room does nothing. -/
structure Reads (poll : σ → Nat → Poll ε (List β) × σ)
    (I : σ → List β → Finish → Nat → Prop) : Prop where
  noRoom : ∀ s, poll s 0 = (.ready [], s)
  step : ∀ {s out fin m n}, I s out fin m → 0 < n → Step I out fin m n (poll s n)

variable {I : σ → List β → Finish → Nat → Prop}

variable {poll : σ → Nat → Poll ε (List β) × σ}

theorem Reads.polls (hR : Reads poll I) : Polls poll I where
  idle {s out fin m} h := by
    rw [hR.noRoom]
    exact .ready s m (Nat.le_refl m) h
  step := hR.step

variable {fin : Finish} {out : List β} {m : Nat}

variable {n left : Nat} {r : Poll ε (List β) × σ}

theorem Step.mono {m' : Nat} (h : Step I out fin m n r) (hm : m ≤ m') : Step I out fin m' n r := by
  cases h with
  | pending s k hk h => exact .pending s k (by omega) h
  | data c rest s k hne hle hout hk h => exact .data c rest s k hne hle hout (by omega) h
  | eof s hout hfin h => exact .eof s hout hfin h
  | error e s hout hfin h => exact .error e s hout hfin h

/-- A poll passed on by a state around the reader. -/
theorem Step.map {τ : Type*} {J : τ → List β → Finish → Nat → Prop} (h : Step I out fin m n r)
    (f : σ → τ) (hf : ∀ {rest k}, I r.2 rest fin k → J (f r.2) rest fin k) :
    Step J out fin m n (r.1, f r.2) := by
  cases h with
  | pending s k hk h => exact .pending _ k hk (hf h)
  | data c rest s k hne hle hout hk h => exact .data c rest _ k hne hle hout hk (hf h)
  | eof s hout hfin h =>
    subst hfin
    exact .eof _ hout rfl (hf h)
  | error e s hout hfin h =>
    subst hfin
    exact .error e _ hout rfl (hf h)

/-- Elements that have come go from what is still to come to what is there. -/
theorem append_take_drop (there out : List β) (j : Nat) :
    there ++ out = (there ++ out.take j) ++ out.drop j := by
  rw [append_assoc, take_append_drop]

/-! ## Whole runs -/

/-- The elements that polls of the given sizes deliver up to the first end or error, and
which of the two it was, if it came. -/
def readAll (poll : σ → Nat → Poll ε (List β) × σ) : σ → List Nat → List β × Option Finish
  | _, [] => ([], none)
  | s, n :: ns =>
    match poll s n with
    | (.pending, s') => readAll poll s' ns
    | (.failed _, _) => ([], some .error)
    | (.ready [], s') => if 0 < n then ([], some .eof) else readAll poll s' ns
    | (.ready (b :: bs), s') =>
      (b :: bs ++ (readAll poll s' ns).1, (readAll poll s' ns).2)

/-- The state after polls of the given sizes. -/
def after (poll : σ → Nat → Poll ε (List β) × σ) (s : σ) (sizes : List Nat) : σ :=
  sizes.foldl (fun s n => (poll s n).2) s

/-- The answers to polls of the given sizes. -/
def answers (poll : σ → Nat → Poll ε (List β) × σ) : σ → List Nat → List (Poll ε (List β))
  | _, [] => []
  | s, n :: ns => (poll s n).1 :: answers poll (poll s n).2 ns

/-- The elements that answers carry. -/
def delivered (as : List (Poll ε (List β))) : List β := as.flatMap Poll.elements

@[simp] theorem delivered_append (as bs : List (Poll ε (List β))) :
    delivered (as ++ bs) = delivered as ++ delivered bs :=
  flatMap_append

@[simp] theorem delivered_singleton (a : Poll ε (List β)) : delivered [a] = a.elements :=
  flatMap_singleton _ _

@[simp] theorem after_concat (poll : σ → Nat → Poll ε (List β) × σ) (s : σ) (ns : List Nat)
    (n : Nat) : after poll s (ns ++ [n]) = (poll (after poll s ns) n).2 :=
  foldl_concat _ _ _ _

@[simp] theorem answers_concat (poll : σ → Nat → Poll ε (List β) × σ) (s : σ) (ns : List Nat)
    (n : Nat) :
    answers poll s (ns ++ [n]) = answers poll s ns ++ [(poll (after poll s ns) n).1] := by
  induction ns generalizing s with
  | nil => rfl
  | cons k ns ih => exact congrArg _ (ih _)

/-- A stream of which nothing but the order is known: a poll with room for `n` elements hands
out at most `n` of them, from the front. `Has s b` says that what `s` still has to hand out,
be it finite or not, starts with `b`. -/
structure Streams (poll : σ → Nat → Poll ε (List β) × σ) (Has : σ → List β → Prop) : Prop where
  nothing (s : σ) : Has s []
  room (s : σ) {n : Nat} (hn : 0 < n) : (poll s n).1.elements.length ≤ n
  front (s : σ) {n : Nat} (hn : 0 < n) {b : List β} (hb : Has (poll s n).2 b) :
    Has s ((poll s n).1.elements ++ b)

namespace Polls

variable {poll : σ → Nat → Poll ε (List β) × σ} {I : σ → List β → Finish → Nat → Prop}

variable {fin : Finish} {n m : Nat} {s : σ}

theorem ended (hR : Polls poll I) (h : I s [] fin 0) (hn : 0 < n) :
    I (poll s n).2 [] fin 0 ∧ (fin = .error → ∃ e, (poll s n).1 = .failed e) := by
  have hstep := hR.step h hn
  generalize poll s n = r at hstep ⊢
  cases hstep with
  | pending s' k hk _ => exact absurd hk (Nat.not_lt_zero _)
  | data c rest s' k hne hle hout hk _ => exact absurd (append_eq_nil_iff.mp hout.symm).1 hne
  | eof s' hout hfin h' => exact ⟨hfin ▸ h', fun he => nomatch hfin.symm.trans he⟩
  | error e s' hout hfin h' => exact ⟨hfin ▸ h', fun _ => ⟨e, rfl⟩⟩

theorem ended_after (hR : Polls poll I) (h : I s [] fin 0) (sizes : List Nat) :
    I (after poll s sizes) [] fin 0 := by
  induction sizes generalizing s with
  | nil => exact h
  | cons n ns ih =>
    show I (after poll (poll s n).2 ns) [] fin 0
    rcases Nat.eq_zero_or_pos n with rfl | hn
    · have hidle := hR.idle h
      generalize poll s 0 = r at hidle ⊢
      cases hidle with
      | ready s' k hk h' | pending s' k hk h' => exact ih (Nat.le_zero.mp hk ▸ h')
      | error e s' _ hfin h' => exact ih (hfin ▸ h')
    · exact ih (hR.ended h hn).1

variable {out : List β}

/-- **A run** delivers a beginning of what is to come and leaves the rest. A run that ended
has delivered everything, ended the right way and stays there; one that did not has used
up its polls with room. -/
theorem run (hR : Polls poll I) (h : I s out fin m) (sizes : List Nat) :
    ∃ rest k, out = (readAll poll s sizes).1 ++ rest ∧ I (after poll s sizes) rest fin k ∧
      ((readAll poll s sizes).2 = none → k + sizes.countP (0 < ·) ≤ m) ∧
      ∀ fin', (readAll poll s sizes).2 = some fin' → rest = [] ∧ k = 0 ∧ fin' = fin := by
  -- by the reads: each leaves a reader of what it has not delivered
  induction sizes generalizing s out m with
  | nil => exact ⟨out, m, rfl, h, fun _ => le_rfl, nofun⟩
  | cons n ns ih =>
    have hafter : after poll s (n :: ns) = after poll (poll s n).2 ns := rfl
    rw [hafter]
    rcases Nat.eq_zero_or_pos n with rfl | hn
    · rw [countP_cons_of_neg (by simp)]
      have hidle := hR.idle h
      generalize hp : poll s 0 = r at hidle
      cases hidle with
      | ready s' k hk h' =>
        simp only [readAll, hp, lt_irrefl, if_false]
        obtain ⟨rest, k', hrest, hI, hnone, hsome⟩ := ih h'
        exact ⟨rest, k', hrest, hI, fun he => (hnone he).trans hk, hsome⟩
      | pending s' k hk h' =>
        simp only [readAll, hp]
        obtain ⟨rest, k', hrest, hI, hnone, hsome⟩ := ih h'
        exact ⟨rest, k', hrest, hI, fun he => (hnone he).trans hk, hsome⟩
      | error e s' hout hfin h' =>
        simp only [readAll, hp]
        refine ⟨[], 0, hout, hfin ▸ hR.ended_after h' ns, nofun, fun fin' he => ?_⟩
        exact ⟨rfl, rfl, by rw [hfin]; exact (some.inj he).symm⟩
    · rw [countP_cons_of_pos (by simpa using hn)]
      have hstep := hR.step h hn
      generalize hp : poll s n = r at hstep
      cases hstep with
      | pending s' k hk h' =>
        simp only [readAll, hp]
        obtain ⟨rest, k', hrest, hI, hnone, hsome⟩ := ih h'
        exact ⟨rest, k', hrest, hI, fun he => by have := hnone he; omega, hsome⟩
      | data c rest s' k hne hle hout hk h' =>
        obtain ⟨b, bs, rfl⟩ := exists_cons_of_ne_nil hne
        simp only [readAll, hp]
        obtain ⟨rest', k', hrest, hI, hnone, hsome⟩ := ih h'
        rw [length_cons] at hk
        exact ⟨rest', k', by rw [hout, hrest, append_assoc], hI,
          fun he => by have := hnone he; omega, hsome⟩
      | eof s' hout hfin h' =>
        simp only [readAll, hp, hn, if_true]
        refine ⟨[], 0, hout, hfin ▸ hR.ended_after h' ns, nofun, fun fin' he => ?_⟩
        exact ⟨rfl, rfl, by rw [hfin]; exact (some.inj he).symm⟩
      | error e s' hout hfin h' =>
        simp only [readAll, hp]
        refine ⟨[], 0, hout, hfin ▸ hR.ended_after h' ns, nofun, fun fin' he => ?_⟩
        exact ⟨rfl, rfl, by rw [hfin]; exact (some.inj he).symm⟩

variable {sizes : List Nat}

theorem readAll_ends (hR : Polls poll I) (h : I s out fin m) (hm : m < sizes.countP (0 < ·)) :
    (readAll poll s sizes).2 = some fin ∧ (readAll poll s sizes).1 = out := by
  obtain ⟨rest, k, hout, -, hnone, hsome⟩ := hR.run h sizes
  cases hfin : (readAll poll s sizes).2 with
  | none =>
    have := hnone hfin
    omega
  | some fin' =>
    obtain ⟨rfl, -, rfl⟩ := hsome fin' hfin
    exact ⟨rfl, by rw [hout, append_nil]⟩

/-- **Errors are permanent**: after a run that ended with an error every poll with room
fails. -/
theorem fails_after (hR : Polls poll I) (h : I s out fin m)
    (herr : (readAll poll s sizes).2 = some .error) (more : List Nat) (hn : 0 < n) :
    ∃ e, (poll (after poll s (sizes ++ more)) n).1 = .failed e := by
  obtain ⟨rest, k, -, hI, -, hsome⟩ := hR.run h sizes
  obtain ⟨rfl, rfl, rfl⟩ := hsome _ herr
  rw [after, foldl_append]
  exact (hR.ended (hR.ended_after hI more) hn).2 rfl

/-- **Polls make progress**: an answer without elements means that all have been
delivered. -/
theorem progress (hR : Polls poll I) (h : I s out fin m) (sizes : List Nat) (hn : 0 < n)
    {c : List β} (hc : (poll (after poll s sizes) n).1 = .ready c) :
    c ≠ [] ∨ (readAll poll s sizes).1 = out := by
  obtain ⟨rest, k, hout, hI, -, -⟩ := hR.run h sizes
  have hstep := hR.step hI hn
  generalize poll (after poll s sizes) n = r at hstep hc
  cases hstep with
  | pending s' k hk _ | error e s' hnil hfin _ => cases hc
  | data c' rest s' k hne hle hout hk _ =>
    cases hc
    exact .inl hne
  | eof s' hnil hfin _ => exact .inr (by rw [hout, hnil, append_nil])

end Polls

/-! ## Reading a fixed number of elements -/

/-- Poll until `left` elements have come, at most `cap` in one poll: whether they all came
before the end of the stream, and the elements that did come. `fuel` bounds the number of
polls that bring something; `left` is enough. -/
def pull (poll : σ → Nat → Poll ε (List β) × σ) (cap : Nat) :
    Nat → Nat → σ → Poll ε Bool × List β × σ
  | _, 0, s => (.ready true, [], s)
  | 0, _ + 1, s => (.pending, [], s)
  | fuel + 1, left + 1, s =>
    match poll s (min cap (left + 1)) with
    | (.pending, s') => (.pending, [], s')
    | (.failed e, s') => (.failed e, [], s')
    | (.ready [], s') => (.ready false, [], s')
    | (.ready (b :: bs), s') =>
      match pull poll cap fuel (left + 1 - (b :: bs).length) s' with
      | (r, cs, s'') => (r, b :: bs ++ cs, s'')

/-- What `pull` can do when `out` is to come, then `fin`, within `m` polls. -/
inductive Pulled (I : σ → List β → Finish → Nat → Prop) (out : List β) (fin : Finish)
    (m left : Nat) : Poll ε Bool × List β × σ → Prop where
  | full (s : σ) (k : Nat) (hle : left ≤ out.length) (hk : k + left ≤ m)
      (h : I s (out.drop left) fin k) : Pulled I out fin m left (.ready true, out.take left, s)
  | short (s : σ) (hlt : out.length < left) (hfin : fin = .eof) (h : I s [] .eof 0) :
      Pulled I out fin m left (.ready false, out, s)
  | pending (j : Nat) (s : σ) (k : Nat) (hj : j ≤ out.length) (hlt : j < left) (hk : k + j < m)
      (h : I s (out.drop j) fin k) : Pulled I out fin m left (.pending, out.take j, s)
  | error (e : ε) (s : σ) (hlt : out.length < left) (hfin : fin = .error)
      (h : I s [] .error 0) : Pulled I out fin m left (.failed e, out, s)

variable {s : σ}

theorem Pulled.nothing (h : I s out fin m) :
    Pulled I out fin m 0 ((.ready true, [], s) : Poll ε Bool × List β × σ) :=
  .full s m (Nat.zero_le _) (Nat.le_refl _) h

theorem Pulled.cons {c : List β} {k : Nat} {r : Poll ε Bool} {cs : List β}
    (h : Pulled I out fin k (left - c.length) (r, cs, s)) (hle : c.length ≤ left)
    (hk : k + c.length ≤ m) : Pulled I (c ++ out) fin m left (r, c ++ cs, s) := by
  have hlen : (c ++ out).length = c.length + out.length := length_append
  cases h with
  | full s k' hle' hk' h' =>
    have htake : (c ++ out).take left = c ++ out.take (left - c.length) := by
      rw [take_append, take_of_length_le hle]
    have hdrop : (c ++ out).drop left = out.drop (left - c.length) := by
      rw [drop_append, drop_of_length_le hle, nil_append]
    rw [← htake]
    exact .full s k' (by omega) (by omega) (by rwa [hdrop])
  | short s hlt hfin h' => exact .short s (by omega) hfin h'
  | pending j s k' hj hlt hk' h' =>
    rw [← take_length_add_append j]
    exact .pending _ s k' (by omega) (by omega) (by omega) (by rwa [drop_length_add_append])
  | error e s hlt hfin h' => exact .error e s (by omega) hfin h'

namespace Reads

variable {poll : σ → Nat → Poll ε (List β) × σ} {I : σ → List β → Finish → Nat → Prop}

/-- **The rule for `pull`.** -/
theorem pull (hR : Reads poll I) (cap : Nat) {fuel left : Nat} {s : σ} {out : List β}
    {fin : Finish} {m : Nat} (hcap : 0 < cap) (hfuel : left ≤ fuel) (h : I s out fin m) :
    Pulled I out fin m left (Reader.pull poll cap fuel left s) := by
  induction fuel generalizing left s out m with
  | zero =>
    obtain rfl : left = 0 := by omega
    exact .nothing h
  | succ fuel ih =>
    cases left with
    | zero => exact .nothing h
    | succ left =>
      have hstep := hR.step (n := min cap (left + 1)) h (by omega)
      generalize hp : poll s (min cap (left + 1)) = r at hstep
      cases hstep with
      | pending s' k hk h' =>
        simp only [Reader.pull, hp]
        exact .pending 0 s' k (Nat.zero_le _) (Nat.succ_pos _) hk h'
      | data c rest s' k hne hle hout hk h' =>
        obtain ⟨b, bs, rfl⟩ := exists_cons_of_ne_nil hne
        simp only [Reader.pull, hp]
        have hlen : (b :: bs).length = bs.length + 1 := length_cons
        have hfuel' : left + 1 - (b :: bs).length ≤ fuel := by omega
        have hrest := ih hfuel' h'
        rw [hout]
        exact hrest.cons (by omega) hk
      | eof s' hout hfin h' =>
        simp only [Reader.pull, hp]
        subst hout
        exact .short s' (Nat.succ_pos _) hfin h'
      | error e s' hout hfin h' =>
        simp only [Reader.pull, hp]
        subst hout
        exact .error e s' (Nat.succ_pos _) hfin h'

end Reads

/-- What every poll keeps, `pull` keeps. When it does not get all, it has got less; when it
waits, the last poll did. -/
theorem pull_spec {P Q : σ → Prop} (hP : ∀ s n, P s → P (poll s n).2)
    (hQ : ∀ s n, (poll s n).1 = .pending → Q (poll s n).2) (cap : Nat) {fuel : Nat}
    (hfuel : left ≤ fuel) (h : P s) :
    P (pull poll cap fuel left s).2.2 ∧
      ((pull poll cap fuel left s).1 ≠ .ready true →
        (pull poll cap fuel left s).2.1.length < left) ∧
      ((pull poll cap fuel left s).1 = .pending → Q (pull poll cap fuel left s).2.2) := by
  induction fuel generalizing left s with
  | zero =>
    obtain rfl := Nat.le_zero.mp hfuel
    exact ⟨h, fun hne => absurd rfl hne, nofun⟩
  | succ fuel ih =>
    cases left with
    | zero => exact ⟨h, fun hne => absurd rfl hne, nofun⟩
    | succ left =>
      have hnext := hP s (min cap (left + 1)) h
      have hwait := hQ s (min cap (left + 1))
      unfold pull
      generalize poll s (min cap (left + 1)) = r at hnext hwait
      obtain ⟨r, s'⟩ := r
      cases r with
      | pending => exact ⟨hnext, fun _ => Nat.succ_pos _, fun _ => hwait rfl⟩
      | failed e => exact ⟨hnext, fun _ => Nat.succ_pos _, nofun⟩
      | ready c =>
        cases c with
        | nil => exact ⟨hnext, fun _ => Nat.succ_pos _, nofun⟩
        | cons b bs =>
          -- the rest fell short of what was left, and so did the whole
          have hlen : (b :: bs).length = bs.length + 1 := length_cons
          have hless : left + 1 - (b :: bs).length ≤ fuel := by omega
          have hrest := ih hless hnext
          dsimp only
          generalize pull poll cap fuel (left + 1 - (b :: bs).length) s' = r at hrest ⊢
          refine ⟨hrest.1, fun hne => ?_, hrest.2.2⟩
          have hless := hrest.2.1 hne
          show (b :: bs ++ r.2.1).length < left + 1
          rw [length_append]
          omega

end Reader

namespace Source

variable {ε : Type u} {β : Type v}

/-- How a source finishes, if it does. -/
def finish (s : Source ε β) : Option Finish :=
  match s.tail with
  | .eof => some .eof
  | .silent => none
  | .broken _ => some .error

/-- The source still has `out`, then finishes with `fin`. -/
structure Holds (s : Source ε β) (out : List β) (fin : Finish) (m : Nat) : Prop where
  bytes : s.bytes = out
  finish : s.finish = some fin
  size : s.size ≤ m

/-- A source is a reader of its bytes. -/
theorem reads : Reader.Reads (poll : Source ε β → Nat → _) Holds where
  noRoom _ := rfl
  step {s out fin m n} h hn := by
    -- without events nothing is left to deliver
    have hempty : s.events = [] → out = [] ∧ s.size = 0 := fun he =>
      ⟨by rw [← h.bytes, Source.bytes, he]; rfl, by rw [Source.size, he]; rfl⟩
    have hstep := poll_step s hn
    generalize s.poll n = r at hstep ⊢
    obtain ⟨r, s'⟩ := r
    dsimp only at hstep
    cases hstep with
    | pending es hevents =>
      have hbytes : Source.bytes { s with events := es } = s.bytes := by
        simp [Source.bytes, hevents]
      have hsize : Source.size { s with events := es } + 1 = s.size := by
        simp only [Source.size, hevents, map_cons, sum_cons, Event.bytes_pending, length_nil]
        omega
      exact .pending _ (Source.size { s with events := es }) (by have := h.size; omega)
        ⟨hbytes.trans h.bytes, h.finish, le_rfl⟩
    | silent hevents htail =>
      have hnone := h.finish
      rw [Source.finish, htail] at hnone
      cases hnone
    | eof hevents htail =>
      have heof := h.finish
      rw [Source.finish, htail] at heof
      obtain ⟨hout, hsize⟩ := hempty hevents
      cases heof
      exact .eof _ hout rfl ⟨h.bytes.trans hout, h.finish, le_of_eq hsize⟩
    | broken e hevents htail =>
      have herror := h.finish
      rw [Source.finish, htail] at herror
      obtain ⟨hout, hsize⟩ := hempty hevents
      cases herror
      exact .error e _ hout rfl ⟨h.bytes.trans hout, h.finish, le_of_eq hsize⟩
    | data c s' hne hle hbytes htail hsize =>
      refine .data c s'.bytes s' s'.size hne hle (by rw [← h.bytes, hbytes])
        (by have := h.size; omega) ⟨rfl, ?_, le_rfl⟩
      have hfin := h.finish
      rwa [Source.finish, ← htail] at hfin

theorem poll_elements (s : Source ε β) {n : Nat} (hn : 0 < n) :
    (s.poll n).1.elements.length ≤ n ∧
      s.bytes = (s.poll n).1.elements ++ (s.poll n).2.bytes := by
  have hstep := poll_step s hn
  generalize s.poll n = r at hstep ⊢
  obtain ⟨r, s'⟩ := r
  cases hstep with
  | pending es hevents => exact ⟨Nat.zero_le _, by simp [Poll.elements, Source.bytes, hevents]⟩
  | silent hevents htail | eof hevents htail | broken e hevents htail =>
    exact ⟨Nat.zero_le _, rfl⟩
  | data c s' hne hle hbytes htail hsize => exact ⟨hle, hbytes⟩

/-- A source streams its bytes, whatever its tail. -/
theorem streams : Reader.Streams (poll : Source ε β → Nat → _) fun s b => b <+: s.bytes where
  nothing _ := nil_prefix
  room s _ hn := (s.poll_elements hn).1
  front s _ hn _ hb := by
    rw [(s.poll_elements hn).2]
    exact prefix_append_right_inj _ |>.mpr hb

end Source
