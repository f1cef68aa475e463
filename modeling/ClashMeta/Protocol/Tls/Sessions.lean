import ClashMeta.Text

/-!
# The TLS session cache (protocol/src/tls.rs:440-463, 579-619)

Resumable sessions are kept in a queue of at most 256 entries, the one stored last at its end.
Every connection stores into it and takes from it under the key of its context: the profile, the
ALPN list, whether certificates are verified, and the server name.

A history lists what the calls did, the latest first; a session goes by the number of the call
that stored it. `Held` says from the history alone which session a key has: the last one stored
under it, when it was neither taken nor evicted since.
-/

namespace ClashMeta.Tls

open List

/-- `TlsFingerprint`. -/
inductive Fingerprint where
  | chrome | firefox | safari | ios | android | edge | _360 | qq | random | randomized | native
  deriving DecidableEq, Repr

/-- `ContextKey`. -/
structure ContextKey where
  profile : Fingerprint
  alpn : List Str
  verify : Bool
  serverName : Str
  deriving DecidableEq, Repr

/-- How many sessions are kept. -/
def maxSessions : Nat := 256

/-- The queue, with any kind of session. -/
abbrev Sessions (σ : Type) := List (ContextKey × σ)

section

variable {σ : Type}

/-- `while sessions.len() > 256 { sessions.pop_front(); }`. -/
def popExcess : Sessions σ → Sessions σ
  | [] => []
  | e :: rest => if maxSessions < rest.length + 1 then popExcess rest else e :: rest

/-- `store_session`. -/
def storeSession (sessions : Sessions σ) (key : ContextKey) (session : σ) : Sessions σ :=
  popExcess (sessions.filter (·.1 ≠ key) ++ [(key, session)])

/-- `take_session`: the last entry with the key is removed. -/
def takeSession (key : ContextKey) : Sessions σ → Option σ × Sessions σ
  | [] => (none, [])
  | e :: rest =>
    match takeSession key rest with
    | (some session, rest') => (some session, e :: rest')
    | (none, _) => if e.1 = key then (some e.2, rest) else (none, e :: rest)

/-- A removal takes the only entry with the key. -/
theorem takeSession_of_nodup {sessions : Sessions σ} (h : (sessions.map Prod.fst).Nodup)
    (key : ContextKey) :
    (∀ session, (takeSession key sessions).1 = some session ↔ (key, session) ∈ sessions) ∧
      (takeSession key sessions).2 = sessions.filter (·.1 ≠ key) := by
  induction sessions with
  | nil => simp [takeSession]
  | cons e rest ih =>
    rw [map_cons, nodup_cons] at h
    obtain ⟨hfirst, hrest⟩ := ih h.2
    have habsent : e.1 = key → ∀ session, (key, session) ∉ rest := by
      rintro rfl session hmem
      exact h.1 (mem_map.mpr ⟨(e.1, session), hmem, rfl⟩)
    rw [takeSession]
    generalize takeSession key rest = r at hfirst hrest
    obtain ⟨r, rest'⟩ := r
    -- the source searches from the end, so the rest is looked through first
    cases r with
    | some session =>
      have hmem := (hfirst session).mp rfl
      have hne : e.1 ≠ key := fun heq => habsent heq session hmem
      refine ⟨fun other => ?_, by simpa [hne] using hrest⟩
      rw [mem_cons, ← hfirst other]
      refine ⟨.inr, fun hor => hor.resolve_left ?_⟩
      rintro rfl
      exact hne rfl
    | none =>
      have hnone : ∀ session, (key, session) ∉ rest := fun session hmem => by
        cases (hfirst session).mpr hmem
      have hall : rest.filter (·.1 ≠ key) = rest :=
        filter_eq_self.mpr fun x hx => decide_eq_true fun heq => hnone x.2 (heq ▸ hx)
      by_cases hkey : e.1 = key
      · subst hkey
        rw [if_pos rfl, filter_cons_of_neg (by simp), hall]
        refine ⟨fun session => ?_, rfl⟩
        simp [hnone, Prod.ext_iff, eq_comm]
      · rw [if_neg hkey, filter_cons_of_pos (by simp [hkey]), hall]
        refine ⟨fun session => ?_, rfl⟩
        have hother : e ≠ (key, session) := fun heq => hkey (heq ▸ rfl)
        simp [hnone, hother.symm]

theorem popExcess_eq (sessions : Sessions σ) :
    popExcess sessions = sessions.drop (sessions.length - maxSessions) := by
  induction sessions with
  | nil => exact drop_nil.symm
  | cons e rest ih =>
    rw [popExcess, length_cons]
    split
    · rw [ih, Nat.sub_add_comm (by omega), drop_succ_cons]
    · rw [show rest.length + 1 - maxSessions = 0 by omega, drop_zero]

end

/-! ## Histories -/

/-- A call of the session store. -/
inductive Call where
  | store (key : ContextKey)
  | take (key : ContextKey)

/-- What a call did: stored a session, which left `size` entries and removed those `evicted` of
other keys; or took one. -/
inductive Event where
  | stored (key : ContextKey) (evicted : Sessions Nat) (size : Nat)
  | took (key : ContextKey) (session : Option Nat)

/-- A call with the number `n`. -/
def perform (sessions : Sessions Nat) (n : Nat) : Call → Sessions Nat × Event
  | .store key =>
    let left := storeSession sessions key n
    (left, .stored key (sessions.filter fun e => e.1 ≠ key ∧ e ∉ left) left.length)
  | .take key =>
    let r := takeSession key sessions
    (r.2, .took key r.1)

/-- The queue and the history after some calls, the latest of them first. -/
def history : List Call → Sessions Nat × List Event
  | [] => ([], [])
  | call :: before =>
    let (sessions, log) := history before
    let (left, event) := perform sessions log.length call
    (left, event :: log)

/-- Call `i` stored the last session of the key, and nobody has taken or evicted it since. -/
def Held : List Event → ContextKey → Nat → Prop
  | [], _, _ => False
  | .stored key evicted _ :: log, key', i =>
    if key = key' then i = log.length else Held log key' i ∧ (key', i) ∉ evicted
  | .took key _ :: log, key', i => key ≠ key' ∧ Held log key' i

/-- What an event is, by the history before it. -/
def Fits (log : List Event) : Event → Prop
  | .took key session => ∀ i, session = some i ↔ Held log key i
  | .stored key evicted size =>
    ∀ old ∈ evicted, Held log old.1 old.2 ∧ old.1 ≠ key ∧ size = maxSessions ∧
      ∀ key' i, Held (.stored key evicted size :: log) key' i → old.2 < i

variable {key : ContextKey} {log : List Event} {i : Nat}

theorem Held.lt (h : Held log key i) : i < log.length := by
  induction log with
  | nil => exact h.elim
  | cons e log ih =>
    rw [length_cons]
    cases e with
    | took key' session => exact Nat.lt_succ_of_lt (ih h.2)
    | stored key' evicted size =>
      rw [Held] at h
      split at h
      · omega
      · exact Nat.lt_succ_of_lt (ih h.1)

/-- A session is held under the key it was stored with. -/
theorem Held.key_unique {key' : ContextKey} (h : Held log key i) (h' : Held log key' i) :
    key = key' := by
  induction log with
  | nil => exact h.elim
  | cons e log ih =>
    cases e with
    | took _ _ => exact ih h.2 h'.2
    | stored _ _ _ =>
      rw [Held] at h h'
      split at h <;> split at h'
      · exact ‹_ = key›.symm.trans ‹_ = key'›
      · exact absurd h'.1.lt (by omega)
      · exact absurd h.1.lt (by omega)
      · exact ih h.1 h'.1

/-- A session that was taken is not held any more, whatever follows. -/
theorem not_held_of_took (h : Held log key i) (later : List Event) (key' : ContextKey) :
    ¬ Held (later ++ .took key (some i) :: log) key' i := by
  induction later with
  | nil => exact fun h' => h'.1 (h.key_unique h'.2)
  | cons e later ih =>
    cases e with
    | took _ _ => exact fun h' => ih h'.2
    | stored _ _ _ =>
      rw [cons_append, Held]
      split
      · have hlt := h.lt
        rw [length_append, length_cons]
        omega
      · exact fun h' => ih h'.1

/-- The queue against the history. -/
structure Books (sessions : Sessions Nat) (log : List Event) : Prop where
  size : sessions.length ≤ maxSessions
  keys : (sessions.map Prod.fst).Nodup
  order : sessions.Pairwise fun a b => a.2 < b.2
  held : ∀ key i, (key, i) ∈ sessions ↔ Held log key i

namespace Books

variable {sessions : Sessions Nat} {log : List Event}

theorem take (h : Books sessions log) (key : ContextKey) :
    Fits log (.took key (takeSession key sessions).1) ∧
      Books (takeSession key sessions).2 (.took key (takeSession key sessions).1 :: log) := by
  obtain ⟨hfirst, hrest⟩ := takeSession_of_nodup h.keys key
  refine ⟨fun i => (hfirst i).trans (h.held key i), ?_⟩
  have hsub : (sessions.filter fun e => decide (e.1 ≠ key)).Sublist sessions := filter_sublist
  rw [hrest]
  refine ⟨hsub.length_le.trans h.size, h.keys.sublist (hsub.map _), h.order.sublist hsub, ?_⟩
  intro key' i
  rw [mem_filter, h.held, decide_eq_true_eq, Held, and_comm, ne_comm]

/-- The entries of the other keys, then the new one. -/
theorem pushed (h : Books sessions log) (key : ContextKey) :
    ((sessions.filter (·.1 ≠ key) ++ [(key, log.length)]).map Prod.fst).Nodup ∧
      (sessions.filter (·.1 ≠ key) ++ [(key, log.length)]).Pairwise (fun a b => a.2 < b.2) ∧
      (sessions.filter (·.1 ≠ key) ++ [(key, log.length)]).length ≤ maxSessions + 1 := by
  have hsub : (sessions.filter fun e => decide (e.1 ≠ key)).Sublist sessions := filter_sublist
  refine ⟨?_, ?_, ?_⟩
  · rw [map_append, nodup_append]
    refine ⟨h.keys.sublist (hsub.map _), by simp, ?_⟩
    simp only [mem_map, mem_filter]
    rintro a ⟨e, ⟨-, hne⟩, rfl⟩ b ⟨x, hx, rfl⟩ heq
    rw [mem_singleton.mp hx] at heq
    exact of_decide_eq_true hne heq
  · rw [pairwise_append]
    refine ⟨h.order.sublist hsub, by simp, fun a ha b hb => ?_⟩
    rw [mem_singleton.mp hb]
    exact ((h.held a.1 a.2).mp (hsub.subset ha)).lt
  · rw [length_append]
    exact Nat.succ_le_succ (hsub.length_le.trans h.size)

theorem store (h : Books sessions log) (key : ContextKey) :
    Fits log (perform sessions log.length (.store key)).2 ∧
      Books (perform sessions log.length (.store key)).1
        ((perform sessions log.length (.store key)).2 :: log) := by
  obtain ⟨hkeys, horder, hlength⟩ := h.pushed key
  rw [perform, storeSession, popExcess_eq]
  generalize hpushed : sessions.filter (·.1 ≠ key) ++ [(key, log.length)] = pushed at *
  have hmem : ∀ e, e ∈ pushed ↔ (e ∈ sessions ∧ e.1 ≠ key) ∨ e = (key, log.length) := by
    intro e
    simp [← hpushed]
  generalize hleft : pushed.drop (pushed.length - maxSessions) = left
  have hsub : left.Sublist pushed := hleft ▸ drop_sublist _ _
  -- the new entry is the last, so it stays
  have hnew : (key, log.length) ∈ left := by
    rw [← hleft, ← hpushed, drop_append_of_le_length (by simp [maxSessions])]
    exact mem_append_right _ (by simp)
  have hbooks : Books left
      (.stored key (sessions.filter fun e => e.1 ≠ key ∧ e ∉ left) left.length :: log) := by
    refine ⟨?_, hkeys.sublist (hsub.map _), horder.sublist hsub, fun key' i => ?_⟩
    · rw [← hleft, length_drop]
      omega
    · rw [Held]
      by_cases hkey : key = key'
      · subst hkey
        rw [if_pos rfl]
        refine ⟨fun he => ?_, fun hi => hi ▸ hnew⟩
        rcases (hmem _).mp (hsub.subset he) with ⟨-, hne⟩ | heq
        · exact absurd rfl hne
        · exact (Prod.mk.inj heq).2
      · rw [if_neg hkey, ← h.held]
        constructor
        · intro he
          refine ⟨?_, fun hout => (of_decide_eq_true (mem_filter.mp hout).2).2 he⟩
          exact (((hmem _).mp (hsub.subset he)).resolve_right fun heq =>
            hkey (Prod.mk.inj heq).1.symm).1
        · rintro ⟨hold, hkept⟩
          by_contra hout
          exact hkept (mem_filter.mpr ⟨hold, decide_eq_true ⟨Ne.symm hkey, hout⟩⟩)
  refine ⟨fun old hold => ?_, hbooks⟩
  obtain ⟨hin, hcond⟩ := mem_filter.mp hold
  obtain ⟨hne, hout⟩ := of_decide_eq_true hcond
  have hpart : old ∈ pushed := (hmem old).mpr (.inl ⟨hin, hne⟩)
  rw [← take_append_drop (pushed.length - maxSessions) pushed, hleft] at hpart horder
  have hfront := (mem_append.mp hpart).resolve_right hout
  refine ⟨(h.held _ _).mp hin, hne, ?_, fun key' i hheld => ?_⟩
  · have hpos := length_pos_of_mem hfront
    rw [length_take] at hpos
    rw [← hleft, length_drop]
    omega
  · exact (pairwise_append.mp horder).2.2 old hfront _ ((hbooks.held key' i).mpr hheld)

end Books

/-- **The queue holds what the history says**, and every event fits the history before it. -/
theorem books_history (calls : List Call) :
    Books (history calls).1 (history calls).2 ∧
      ∀ e before, e :: before <:+ (history calls).2 → Fits before e := by
  induction calls with
  | nil =>
    refine ⟨⟨Nat.zero_le _, .nil, .nil, fun _ _ => ⟨nofun, nofun⟩⟩, fun e before h => ?_⟩
    cases suffix_nil.mp h
  | cons call calls ih =>
    obtain ⟨hbooks, hfits⟩ := ih
    have hstep : Fits (history calls).2
          (perform (history calls).1 (history calls).2.length call).2 ∧
        Books (perform (history calls).1 (history calls).2.length call).1
          ((perform (history calls).1 (history calls).2.length call).2 :: (history calls).2) := by
      cases call with
      | store key => exact hbooks.store key
      | take key => exact hbooks.take key
    refine ⟨hstep.2, fun e before h => ?_⟩
    rcases suffix_cons_iff.mp h with heq | h
    · cases heq
      exact hstep.1
    · exact hfits e before h

/-- **The discipline of the cache**, for all calls in any order: it holds at most 256 sessions and
one for a key; `take_session` returns exactly the session that was stored last under this very
key, unless it was taken or evicted since; an eviction happens at 256 entries and removes the
session stored least recently; and no session is returned twice. -/
theorem sessions_disciplined (calls : List Call) :
    (history calls).1.length ≤ maxSessions ∧ ((history calls).1.map Prod.fst).Nodup ∧
    (∀ key i, (key, i) ∈ (history calls).1 ↔ Held (history calls).2 key i) ∧
    (∀ e before, e :: before <:+ (history calls).2 → Fits before e) ∧
    ∀ key' later key before i,
      ¬ .took key' (some i) :: (later ++ .took key (some i) :: before) <:+ (history calls).2 := by
  obtain ⟨hbooks, hfits⟩ := books_history calls
  refine ⟨hbooks.size, hbooks.keys, hbooks.held, hfits, fun key' later key before i h => ?_⟩
  have hfirst : Held before key i :=
    (hfits _ _ ((suffix_append (_ :: later) _).trans h) i).mp rfl
  exact not_held_of_took hfirst later key' ((hfits _ _ h i).mp rfl)

end ClashMeta.Tls
