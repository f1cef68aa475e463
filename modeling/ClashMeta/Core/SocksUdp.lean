import ClashMeta.AddressText
import ClashMeta.Lib.Lts
import ClashMeta.Lib.Table
import ClashMeta.Protocol.Target

/-!
# SOCKS UDP associations (core/src/inbound.rs:178-233)

One association relays the datagrams of one client. It has a session for each destination,
with a receiver task that sends the answers back. The loop takes one client datagram at a
time, and consumes the receivers that have ended.

Establishing a session has two limits of 20 seconds, one inside the other: the outer one
around the call (inbound.rs:216), and one within `datagram_for_source` (lib.rs:793). A timeout
looks at its future first and at its deadline then, in ticks of a millisecond (`Opening.poll`).
The inner one is an error like any other; the outer one ends the association.
-/

namespace ClashMeta.Socks

open List Table Option AList

/-- `SocketAddr`. -/
structure SocketAddr where
  ip : IpAddr
  port : UInt16
  deriving DecidableEq, Repr

/-! ## Addresses -/

section

variable [IpText]

/-- `read_exact` of `n` bytes. -/
def take (n : Nat) (bytes : List Byte) : Except String (List Byte × List Byte) :=
  if bytes.length < n then .error "early eof" else .ok (bytes.take n, bytes.drop n)

/-- The host of `socks_target`: an address or a domain. -/
def socksHost (bytes : List Byte) : Except String (Str × List Byte) := do
  let (kind, rest) ← take 1 bytes
  if kind = [1] then
    let (b, rest) ← take 4 rest
    return (IpText.print (.v4 (BitVec.ofNat 32 (fromBe b))), rest)
  else if kind = [4] then
    let (b, rest) ← take 16 rest
    return (IpText.print (.v6 (BitVec.ofNat 128 (fromBe b))), rest)
  else if kind = [3] then
    let (n, rest) ← take 1 rest
    if fromBe n = 0 then .error "empty SOCKS domain"
    else
      let (b, rest) ← take (fromBe n) rest
      match fromUtf8 b with
      | none => .error "invalid utf-8 sequence"
      | some host => return (host, rest)
  else .error "invalid SOCKS address type"

/-- `socks_target` (inbound.rs:52-82), with what follows the address. -/
def socksTarget (bytes : List Byte) (allowZero : Bool) : Except String (Target × List Byte) := do
  let (host, rest) ← socksHost bytes
  let (b, rest) ← take 2 rest
  let port := UInt16.ofNat (fromBe b)
  if allowZero ∧ port = 0 then return (⟨host, port⟩, rest)
  else
    let target ← Target.new host port
    return (target, rest)

end

/-! ## Establishing a session -/

/-- The limits on establishing and on sending, in milliseconds. -/
def limit : Nat := 20000

/-- How establishing a session goes: when the outer timeout and the inner one started, when
and how the work ends, if it does, and in which ticks the future is polled. -/
structure Opening where
  started : Nat
  begun : Nat
  work : Option (Nat × Except String Nat)
  polls : List Nat
  after : started ≤ begun
  ordered : polls.Pairwise (· ≤ ·)

/-- What the outer timeout returns. -/
inductive Opened where
  | done (r : Except String Nat)
  | elapsed
  deriving DecidableEq

namespace Opening

variable (o : Opening)

/-- What the work has come to by a tick. -/
def ready (tick : Nat) : Option (Except String Nat) :=
  (o.work.filter fun w => decide (w.1 ≤ tick)).map Prod.snd

/-- `datagram_for_source`, polled in a tick: the work, or the inner timeout. -/
def inner (tick : Nat) : Option (Except String Nat) :=
  match o.ready tick with
  | some r => some r
  | none => if o.begun + limit ≤ tick then some (.error "deadline has elapsed") else none

/-- The outer timeout, polled in a tick. -/
def poll (tick : Nat) : Option Opened :=
  match o.inner tick with
  | some r => some (.done r)
  | none => if o.started + limit ≤ tick then some .elapsed else none

/-- What the first poll that is not pending returns; `none` while all are. -/
def result : Option Opened := o.polls.findSome? o.poll

/-- A poll sees the outer limit and not the inner one, with the work not done. -/
def OuterFirst : Prop :=
  ∃ tick ∈ o.polls, o.started + limit ≤ tick ∧ tick < o.begun + limit ∧ o.ready tick = none

variable {o}

variable {tick : Nat}

/-- A poll sees the outer limit when it has passed and the inner one has not. -/
theorem poll_eq_elapsed_iff :
    o.poll tick = some .elapsed ↔
      o.started + limit ≤ tick ∧ tick < o.begun + limit ∧ o.ready tick = none := by
  unfold poll inner
  cases o.ready tick with
  | some r => simp
  | none =>
    by_cases hinner : o.begun + limit ≤ tick
    · simp [hinner, not_lt.mpr hinner]
    · by_cases houter : o.started + limit ≤ tick
      · simp [hinner, houter, not_le.mp hinner]
      · simp [hinner, houter]

/-- What is not ready was not ready before. -/
theorem ready_mono {later : Nat} (hle : tick ≤ later) (h : o.ready later = none) :
    o.ready tick = none := by
  unfold ready at h ⊢
  cases hwork : o.work with
  | none => rfl
  | some w =>
    rw [hwork, map_eq_none_iff, filter_eq_none_iff] at h
    rw [map_eq_none_iff, filter_eq_none_iff]
    intro w' hw'
    have hlater := h w' hw'
    simp only [decide_eq_true_eq, not_le] at hlater ⊢
    omega

/-- Before such a poll there was nothing to see, or the same. -/
theorem poll_before {later : Nat} (hle : tick ≤ later) (h : o.poll later = some .elapsed) :
    o.poll tick = none ∨ o.poll tick = some .elapsed := by
  obtain ⟨-, hbefore, hready⟩ := poll_eq_elapsed_iff.mp h
  have hinner : ¬ o.begun + limit ≤ tick := by omega
  unfold poll inner
  rw [ready_mono hle hready, if_neg hinner]
  by_cases houter : o.started + limit ≤ tick
  · exact .inr (if_pos houter)
  · exact .inl (if_neg houter)

/-- The first poll that sees anything then sees the outer limit. -/
theorem findSome_poll {polls : List Nat} (hordered : polls.Pairwise (· ≤ ·)) (hmem : tick ∈ polls)
    (h : o.poll tick = some .elapsed) : polls.findSome? o.poll = some .elapsed := by
  induction polls with
  | nil => cases hmem
  | cons first rest ih =>
    obtain ⟨hfirst, hrest⟩ := pairwise_cons.mp hordered
    rw [findSome?_cons]
    rcases mem_cons.mp hmem with rfl | hmem
    · rw [h]
    · rcases poll_before (hfirst tick hmem) h with hpending | helapsed
      · rw [hpending]
        exact ih hrest hmem
      · rw [helapsed]

/-- **When the outer timeout elapses**: exactly when some poll sees its limit first. -/
theorem result_eq_elapsed_iff : o.result = some .elapsed ↔ o.OuterFirst := by
  constructor
  · intro h
    obtain ⟨tick, hmem, hpoll⟩ := exists_of_findSome?_eq_some h
    exact ⟨tick, hmem, poll_eq_elapsed_iff.mp hpoll⟩
  · rintro ⟨tick, hmem, hsees⟩
    exact findSome_poll o.ordered hmem (poll_eq_elapsed_iff.mpr hsees)

end Opening

/-! ## The association -/

/-- A session: the outbound it sends on, and the id of its receiver's task. -/
structure Session where
  datagram : Nat
  receiver : Nat
  deriving DecidableEq, Repr

/-- A task of the set: the session its closure holds, whether it was aborted and whether it
has ended. -/
structure Receiver where
  target : Target
  datagram : Nat
  aborted : Bool
  ended : Bool
  deriving DecidableEq, Repr

/-- What the loop of `socks_udp` holds; `returned` is what it returned. -/
structure Association where
  peer : IpAddr
  client : Option SocketAddr
  sessions : Table Target Session
  tasks : Table Nat Receiver
  returned : Option (Except String Unit)

/-- What becomes of a send under its timeout. -/
inductive Sent where
  | ok
  | failed
  | elapsed
  deriving DecidableEq, Repr

/-- A client datagram, with what comes of serving it: how establishing goes and the id of the
task that is spawned then, should they be needed, and the send. -/
structure Datagram where
  source : SocketAddr
  bytes : List Byte
  opening : Opening
  id : Nat
  sent : Sent

/-- What happens to an association. -/
inductive Event where
  /-- The core stops, or the control connection is readable. -/
  | stop
  /-- Receiving fails, or nothing comes for 120 seconds. -/
  | silence (error : String)
  /-- A receiver's task comes to its end. -/
  | finish (id : Nat)
  /-- `join_next_with_id` returns a task that has ended. -/
  | join (id : Nat)
  | datagram (d : Datagram)

namespace Association

/-- The start of `socks_udp`. -/
def start (peer : SocketAddr) (requested : Target) : Association where
  peer := peer.ip
  client := if 0 < requested.port then some ⟨peer.ip, requested.port⟩ else none
  sessions := ∅
  tasks := ∅
  returned := none

/-- `AbortHandle::abort`. -/
def abort (s : Association) (id : Nat) : Association :=
  match s.tasks.lookup id with
  | none => s
  | some r => { s with tasks := s.tasks.insert id { r with aborted := true } }

/-- Sending on the session of a target; a send that does not succeed removes it. -/
def send (s : Association) (target : Target) (sent : Sent) : Association :=
  match s.sessions.lookup target with
  | none => s
  | some session =>
    if sent = .ok then s
    else { s with sessions := s.sessions.erase target }.abort session.receiver

/-- A session is established and its receiver spawned. -/
def establish (s : Association) (target : Target) (datagram id : Nat) : Association :=
  { s with
    sessions := s.sessions.insert target ⟨datagram, id⟩
    tasks := s.tasks.insert id ⟨target, datagram, false, false⟩ }

/-- The branch of the loop for a datagram whose target is known. `none` while establishing is
pending, and for an id that a task of the set has. -/
def serve (s : Association) (target : Target) (d : Datagram) : Option Association :=
  match s.sessions.lookup target with
  | some _ => some (s.send target d.sent)
  | none =>
    if 256 ≤ Table.size s.sessions then some s
    else match d.opening.result with
      | none => none
      | some .elapsed => some { s with returned := some (.error "deadline has elapsed") }
      | some (.done (.error _)) => some s
      | some (.done (.ok datagram)) =>
        match s.tasks.lookup d.id with
        | some _ => none
        | none => some ((s.establish target datagram d.id).send target d.sent)

/-- `join_next_with_id` and the `retain` after it. -/
def joined (s : Association) (id : Nat) : Association :=
  { s with
    tasks := s.tasks.erase id
    sessions := Table.filterMap
      (fun _ session => if session.receiver = id then none else some session) s.sessions }

variable [IpText]

/-- The destination of a datagram that the association serves. -/
def destination (s : Association) (d : Datagram) : Option Target :=
  if d.source.ip ≠ s.peer ∨ (s.client.any fun c => c ≠ d.source) then none
  else if d.bytes.length < 4 ∨ d.bytes.take 3 ≠ [0, 0, 0] then none
  else (socksTarget (d.bytes.drop 3) false).toOption.map Prod.fst

/-- The branch of the loop for a client datagram. -/
def receive (s : Association) (d : Datagram) : Option Association :=
  match s.destination d with
  | none => some s
  | some target => { s with client := some d.source }.serve target d

/-- One turn of the loop, or the end of a task beside it. -/
def step (s : Association) (e : Event) : Option Association :=
  if s.returned.isSome then none
  else match e with
    | .stop => some { s with returned := some (.ok ()) }
    | .silence error => some { s with returned := some (.error error) }
    | .finish id =>
      (s.tasks.lookup id).map fun r =>
        { s with tasks := s.tasks.insert id { r with ended := true } }
    | .join id =>
      match s.tasks.lookup id with
      | none => none
      | some r => if r.ended then some (s.joined id) else none
    | .datagram d => s.receive d

end Association

/-- `socks_udp` as a transition system. -/
def system [IpText] (peer : SocketAddr) (requested : Target) : Lts Association Event :=
  ⟨.start peer requested, Association.step⟩

/-! ## Sessions and their receivers -/

/-- There are at most 256 sessions, and each has a task of the set that was spawned for it
and was not aborted. -/
structure Anchored (s : Association) : Prop where
  few : Table.size s.sessions ≤ 256
  held : ∀ {target session}, s.sessions.lookup target = some session →
    ∃ ended, s.tasks.lookup session.receiver = some ⟨target, session.datagram, false, ended⟩

/-- The sessions of the other destinations are as before, and so are their receivers. -/
def Spared (s t : Association) (target : Option Target) : Prop :=
  ∀ other, some other ≠ target → t.sessions.lookup other = s.sessions.lookup other ∧
    ∀ session, s.sessions.lookup other = some session →
      t.tasks.lookup session.receiver = s.tasks.lookup session.receiver

/-- Nothing is touched. -/
theorem Spared.refl (s : Association) (target : Option Target) : Spared s s target :=
  fun _ _ => ⟨rfl, fun _ _ => rfl⟩

/-- What two steps spare, both spare. -/
theorem Spared.trans {s t u : Association} {target : Option Target} (h : Spared s t target)
    (h' : Spared t u target) : Spared s u target := by
  intro other hother
  obtain ⟨hsession, htask⟩ := h other hother
  obtain ⟨hsession', htask'⟩ := h' other hother
  refine ⟨hsession'.trans hsession, fun session hlookup => ?_⟩
  exact (htask' session (hsession.trans hlookup)).trans (htask session hlookup)

namespace Association

section

variable {s : Association} {target : Target} {id : Nat}

@[simp] theorem abort_sessions : (s.abort id).sessions = s.sessions := by
  unfold abort
  cases s.tasks.lookup id <;> rfl

@[simp] theorem abort_returned : (s.abort id).returned = s.returned := by
  unfold abort
  cases s.tasks.lookup id <;> rfl

/-- Aborting a task leaves the others alone. -/
theorem abort_tasks {other : Nat} (h : other ≠ id) :
    (s.abort id).tasks.lookup other = s.tasks.lookup other := by
  unfold abort
  cases s.tasks.lookup id with
  | none => rfl
  | some r => exact lookup_insert_ne h

/-- A datagram that is not sent takes its session along. -/
theorem send_cases (s : Association) (target : Target) (sent : Sent) :
    s.send target sent = s ∨ ∃ session, s.sessions.lookup target = some session ∧
      s.send target sent =
        { s with sessions := s.sessions.erase target }.abort session.receiver := by
  unfold send
  cases s.sessions.lookup target with
  | none => exact .inl rfl
  | some session =>
    by_cases hsent : sent = .ok
    · exact .inl (if_pos hsent)
    · exact .inr ⟨session, rfl, if_neg hsent⟩

@[simp] theorem send_returned (sent : Sent) : (s.send target sent).returned = s.returned := by
  obtain heq | ⟨session, -, heq⟩ := send_cases s target sent
  · rw [heq]
  · rw [heq, abort_returned]

end

end Association

section

variable {s : Association} {target : Target} {session : Session} {id : Nat}

/-- The sessions of a receiver go when it has ended. -/
theorem lookup_joined (s : Association) (id : Nat) (target : Target) :
    (s.joined id).sessions.lookup target =
      (s.sessions.lookup target).bind fun session =>
        if session.receiver = id then none else some session :=
  lookup_filterMap _ _ _

variable (h : Anchored s)

include h

/-- Two destinations have two receivers. -/
theorem Anchored.receiver_ne {other : Target} {session' : Session}
    (hsession : s.sessions.lookup target = some session)
    (hother : s.sessions.lookup other = some session') (hne : other ≠ target) :
    session'.receiver ≠ session.receiver := by
  intro heq
  obtain ⟨ended, htask⟩ := h.held hsession
  obtain ⟨ended', htask'⟩ := h.held hother
  rw [heq, htask] at htask'
  exact hne (congrArg Receiver.target (some.inj htask')).symm

/-- A send touches the session of its destination only. -/
theorem spared_send (target : Target) (sent : Sent) :
    Spared s (s.send target sent) (some target) := by
  obtain heq | ⟨session, hsession, heq⟩ := s.send_cases target sent
  · rw [heq]
    exact .refl s _
  · rw [heq]
    intro other hother
    have hne : other ≠ target := fun heq => hother (congrArg some heq)
    refine ⟨?_, fun session' hsession' => ?_⟩
    · rw [Association.abort_sessions]
      exact lookup_erase_ne hne
    · exact Association.abort_tasks (h.receiver_ne hsession hsession' hne)

/-- A send keeps the sessions and their receivers together. -/
theorem anchored_send (target : Target) (sent : Sent) : Anchored (s.send target sent) := by
  have hspared := spared_send h target sent
  obtain heq | ⟨session, hsession, heq⟩ := s.send_cases target sent
  · rw [heq]
    exact h
  · rw [heq] at hspared ⊢
    constructor
    · rw [Association.abort_sessions]
      exact (size_erase_le target s.sessions).trans h.few
    · intro other session' hsession'
      rw [Association.abort_sessions] at hsession'
      obtain ⟨hne, hbefore⟩ := lookup_erase_some hsession'
      obtain ⟨-, htask⟩ := hspared other (fun heq => hne (some.inj heq))
      rw [htask session' hbefore]
      exact h.held hbefore

/-- A new task is the receiver of no session. -/
theorem Anchored.fresh (hfresh : s.tasks.lookup id = none)
    (hsession : s.sessions.lookup target = some session) : session.receiver ≠ id := by
  rintro rfl
  obtain ⟨ended, htask⟩ := h.held hsession
  rw [hfresh] at htask
  cases htask

/-- A new session touches no other. -/
theorem spared_establish {datagram : Nat} (hfresh : s.tasks.lookup id = none) :
    Spared s (s.establish target datagram id) (some target) := by
  intro other hother
  have hne : other ≠ target := fun heq => hother (congrArg some heq)
  exact ⟨lookup_insert_ne hne, fun session hsession =>
    lookup_insert_ne (h.fresh hfresh hsession)⟩

/-- A new session comes with its receiver. -/
theorem anchored_establish {datagram : Nat}
    (hnew : s.sessions.lookup target = none) (hroom : Table.size s.sessions < 256)
    (hfresh : s.tasks.lookup id = none) : Anchored (s.establish target datagram id) := by
  constructor
  · have hsize := size_insert_of_lookup_none hnew (⟨datagram, id⟩ : Session)
    exact hsize.trans_le hroom
  · intro other session hsession
    rcases lookup_insert_cases hsession with ⟨rfl, rfl⟩ | ⟨hne, hbefore⟩
    · exact ⟨false, lookup_insert _⟩
    · obtain ⟨ended, htask⟩ := h.held hbefore
      exact ⟨ended, (lookup_insert_ne (h.fresh hfresh hbefore)).trans htask⟩

/-- The others keep theirs. -/
theorem anchored_joined (id : Nat) : Anchored (s.joined id) := by
  constructor
  · exact (size_filterMap_le _ _).trans h.few
  · intro other session hsession
    rw [lookup_joined, bind_eq_some_iff] at hsession
    obtain ⟨session', hbefore, hkept⟩ := hsession
    by_cases hid : session'.receiver = id
    · rw [if_pos hid] at hkept
      cases hkept
    · rw [if_neg hid] at hkept
      cases hkept
      obtain ⟨ended, htask⟩ := h.held hbefore
      exact ⟨ended, (lookup_erase_ne hid).trans htask⟩

/-- Only the session that the receiver was spawned for goes. -/
theorem joined_own {r : Receiver} (hr : s.tasks.lookup id = some r)
    {target : Target} (hsession : s.sessions.lookup target = some session) :
    (s.joined id).sessions.lookup target = some session ∨
      (target = r.target ∧ session = ⟨r.datagram, id⟩) := by
  rw [lookup_joined, hsession]
  by_cases hid : session.receiver = id
  · obtain ⟨ended, htask⟩ := h.held hsession
    rw [hid, hr] at htask
    cases htask
    exact .inr ⟨rfl, by rw [← hid]⟩
  · exact .inl (if_neg hid)

/-- A receiver that has ended is still that of its session. -/
theorem anchored_finish {r : Receiver} (hr : s.tasks.lookup id = some r) :
    Anchored { s with tasks := s.tasks.insert id { r with ended := true } } := by
  refine ⟨h.few, fun {other session} hsession => ?_⟩
  obtain ⟨ended, htask⟩ := h.held hsession
  by_cases hid : session.receiver = id
  · rw [hid, hr] at htask
    cases htask
    refine ⟨true, ?_⟩
    rw [hid]
    exact lookup_insert _
  · exact ⟨ended, (lookup_insert_ne hid).trans htask⟩

end

/-! ## One datagram -/

/-- What serving a datagram for a known target comes to. -/
inductive Served (s : Association) (target : Target) (d : Datagram) : Association → Prop
  /-- There are 256 sessions. -/
  | full (hnew : s.sessions.lookup target = none) (hfull : 256 ≤ Table.size s.sessions) :
    Served s target d s
  /-- Establishing fails. -/
  | refused (hnew : s.sessions.lookup target = none) (hroom : Table.size s.sessions < 256)
    (hresult : ∃ m, d.opening.result = some (.done (.error m))) : Served s target d s
  /-- The outer limit passes. -/
  | elapsed (hnew : s.sessions.lookup target = none) (hroom : Table.size s.sessions < 256)
    (hresult : d.opening.result = some .elapsed) :
    Served s target d { s with returned := some (.error "deadline has elapsed") }
  | known (hknown : (s.sessions.lookup target).isSome) :
    Served s target d (s.send target d.sent)
  | opened (hnew : s.sessions.lookup target = none) (hroom : Table.size s.sessions < 256)
    {datagram : Nat} (hresult : d.opening.result = some (.done (.ok datagram)))
    (hfresh : s.tasks.lookup d.id = none) :
    Served s target d ((s.establish target datagram d.id).send target d.sent)

section

variable {s t : Association} {target : Target} {d : Datagram}

/-- These are the cases of `serve`. -/
theorem served (h : s.serve target d = some t) : Served s target d t := by
  unfold Association.serve at h
  split at h
  next session hsession =>
    cases h
    exact .known (by rw [hsession]; rfl)
  next hnew =>
    split at h
    next hfull =>
      cases h
      exact .full hnew hfull
    next hroom =>
      rw [not_le] at hroom
      split at h
      next => cases h
      next hresult =>
        cases h
        exact .elapsed hnew hroom hresult
      next m hresult =>
        cases h
        exact .refused hnew hroom ⟨m, hresult⟩
      next datagram hresult =>
        split at h
        next => cases h
        next hfresh =>
          cases h
          exact .opened hnew hroom hresult hfresh

/-- A datagram is served if establishing comes to an end. -/
theorem serve_isSome (hresult : d.opening.result ≠ none) (hfresh : s.tasks.lookup d.id = none) :
    ∃ t, s.serve target d = some t := by
  unfold Association.serve
  rw [hfresh]
  cases s.sessions.lookup target with
  | some session => exact ⟨_, rfl⟩
  | none =>
    by_cases hfull : 256 ≤ Table.size s.sessions
    · exact ⟨s, if_pos hfull⟩
    · simp only [if_neg hfull]
      match hopen : d.opening.result with
      | none => exact absurd hopen hresult
      | some .elapsed | some (.done (.error _)) | some (.done (.ok _)) => exact ⟨_, rfl⟩

/-- A datagram keeps the sessions and their receivers together. -/
theorem Served.anchored (h : Served s target d t) (hs : Anchored s) : Anchored t := by
  cases h with
  | full | refused => exact hs
  | elapsed => exact ⟨hs.few, hs.held⟩
  | known => exact anchored_send hs target d.sent
  | opened hnew hroom hresult hfresh =>
    exact anchored_send (anchored_establish hs hnew hroom hfresh) target d.sent

/-- A datagram touches the session of its destination only. -/
theorem Served.spared (h : Served s target d t) (hs : Anchored s) : Spared s t (some target) := by
  cases h with
  | full | refused | elapsed => exact .refl s _
  | known => exact spared_send hs target d.sent
  | opened hnew hroom hresult hfresh =>
    exact (spared_establish hs hfresh).trans
      (spared_send (anchored_establish hs hnew hroom hfresh) target d.sent)

/-- Serving a datagram ends the association exactly when a session is wanted, there is room
for it, and the outer limit passes. -/
theorem Served.returned_iff (h : Served s target d t) (hs : s.returned = none) :
    t.returned = none ↔ ¬ (s.sessions.lookup target = none ∧ Table.size s.sessions < 256 ∧
      d.opening.OuterFirst) := by
  rw [← Opening.result_eq_elapsed_iff]
  cases h with
  | full hnew hfull =>
    exact iff_of_true hs fun hc => absurd hc.2.1 (not_lt.mpr hfull)
  | refused hnew hroom hresult =>
    obtain ⟨m, hresult⟩ := hresult
    refine iff_of_true hs fun hc => ?_
    rw [hresult] at hc
    exact (by cases hc.2.2)
  | elapsed hnew hroom hresult =>
    exact iff_of_false nofun fun hc => hc ⟨hnew, hroom, hresult⟩
  | known hknown =>
    refine iff_of_true (by rw [Association.send_returned, hs]) fun hc => ?_
    rw [hc.1] at hknown
    cases hknown
  | opened hnew hroom hresult hfresh =>
    refine iff_of_true (by rw [Association.send_returned]; exact hs) fun hc => ?_
    rw [hresult] at hc
    exact (by cases hc.2.2)

end

/-! ## Whole runs -/

section

variable [IpText] {s t : Association} {d : Datagram}

/-- A datagram is ignored, or served for its destination by the association that has taken
note of the client. -/
theorem receive_cases (h : s.receive d = some t) :
    (s.destination d = none ∧ t = s) ∨
      ∃ target, s.destination d = some target ∧
        Served { s with client := some d.source } target d t := by
  unfold Association.receive at h
  split at h
  next hnone => exact .inl ⟨hnone, (some.inj h).symm⟩
  next target htarget => exact .inr ⟨target, htarget, served h⟩

/-- A receiver that is joined takes its session along. -/
theorem step_join {id : Nat} (h : s.step (.join id) = some t) : t = s.joined id := by
  unfold Association.step at h
  split at h
  next => cases h
  next =>
    simp only at h
    split at h
    next => cases h
    next =>
      split at h
      next => exact (some.inj h).symm
      next => cases h

theorem anchored_step {e : Event} (h : Anchored s) (hstep : s.step e = some t) : Anchored t := by
  have hwhole := hstep
  unfold Association.step at hstep
  split at hstep
  next => cases hstep
  next =>
    cases e with
    | stop | silence =>
      cases hstep
      exact ⟨h.few, h.held⟩
    | finish id =>
      obtain ⟨r, hr, rfl⟩ := map_eq_some_iff.mp hstep
      exact anchored_finish h hr
    | join id => exact step_join hwhole ▸ anchored_joined h id
    | datagram d =>
      obtain ⟨-, rfl⟩ | ⟨target, -, hserved⟩ := receive_cases hstep
      · exact h
      · exact hserved.anchored ⟨h.few, h.held⟩

/-- Every session has its receiver, in every state of an association. -/
theorem anchored_reaches {peer : SocketAddr} {requested : Target}
    (h : (system peer requested).Reaches Lts.anyStep (.start peer requested) s) : Anchored s := by
  refine h.invariant ⟨Nat.zero_le _, fun hsession => ?_⟩ fun hs _ hstep => anchored_step hs hstep
  cases hsession

/-- Establishing or sending fails for the destination of a datagram, by an error or by a
timeout. -/
def Fails (s : Association) (d : Datagram) : Prop :=
  ∃ target, s.destination d = some target ∧
    ((s.sessions.lookup target = none ∧ Table.size s.sessions < 256 ∧
        (d.opening.result = some .elapsed ∨ ∃ m, d.opening.result = some (.done (.error m)))) ∨
      d.sent ≠ .ok)

/-- The association goes on, and at most the session of the datagram's destination is
another one than before or gone. -/
def Contained (s t : Association) (d : Datagram) : Prop :=
  t.returned = none ∧ Spared s t (s.destination d)

/-- A session is wanted for the datagram's destination, there is room for it, and the outer
limit on establishing it is seen before the inner one. -/
def OuterLimit (s : Association) (d : Datagram) : Prop :=
  ∃ target, s.destination d = some target ∧ s.sessions.lookup target = none ∧
    Table.size s.sessions < 256 ∧ d.opening.OuterFirst

/-- To run into the outer limit is to fail. -/
theorem fails_of_outerLimit (h : OuterLimit s d) : Fails s d := by
  obtain ⟨target, htarget, hnew, hroom, houter⟩ := h
  exact ⟨target, htarget, .inl ⟨hnew, hroom, .inl (Opening.result_eq_elapsed_iff.mpr houter)⟩⟩

/-- What a datagram does is contained exactly unless it runs into the outer limit. -/
theorem contained_iff (hs : Anchored s) (hgoing : s.returned = none) (h : s.receive d = some t) :
    Contained s t d ↔ ¬ OuterLimit s d := by
  obtain ⟨hnone, rfl⟩ | ⟨target, htarget, hserved⟩ := receive_cases h
  · refine iff_of_true ⟨hgoing, .refl _ _⟩ ?_
    rintro ⟨target, htarget, -⟩
    rw [hnone] at htarget
    cases htarget
  · have hspared : Spared s t (s.destination d) := by
      rw [htarget]
      exact hserved.spared ⟨hs.few, hs.held⟩
    constructor
    · rintro ⟨hgoes, -⟩ ⟨target', htarget', hlimit⟩
      rw [htarget] at htarget'
      cases htarget'
      exact (hserved.returned_iff hgoing).mp hgoes hlimit
    · intro hnot
      refine ⟨(hserved.returned_iff hgoing).mpr fun hlimit => ?_, hspared⟩
      exact hnot ⟨target, htarget, hlimit⟩

/-- A datagram is received if establishing comes to an end. -/
theorem receive_isSome (hresult : d.opening.result ≠ none) (hfresh : s.tasks.lookup d.id = none) :
    ∃ t, s.receive d = some t := by
  unfold Association.receive
  cases s.destination d with
  | none => exact ⟨s, rfl⟩
  | some target => exact serve_isSome hresult hfresh

theorem step_datagram (hgoing : s.returned = none) : s.step (.datagram d) = s.receive d := by
  unfold Association.step
  rw [hgoing]
  rfl

/-- **Failures stay with their destination**, in every state of an association. A datagram
for which establishing or sending fails leaves the association running and the other
destinations' sessions and receivers as they were, exactly unless the outer limit on
establishing is seen before the inner one. A receiver that has ended takes along only the
session it was spawned for, and there are at most 256 sessions. -/
theorem socks_udp_failures_local {peer : SocketAddr} {requested : Target}
    (h : (system peer requested).Reaches Lts.anyStep (.start peer requested) s) :
    (∀ d, s.returned = none → d.opening.result ≠ none → s.tasks.lookup d.id = none →
      ∃ t, s.step (.datagram d) = some t ∧ ((Fails s d → Contained s t d) ↔ ¬ OuterLimit s d)) ∧
    (∀ id r t, s.tasks.lookup id = some r → s.step (.join id) = some t →
      ∀ target session, s.sessions.lookup target = some session →
        t.sessions.lookup target = some session ∨
          (target = r.target ∧ session = ⟨r.datagram, id⟩)) ∧
    Table.size s.sessions ≤ 256 := by
  have hs := anchored_reaches h
  refine ⟨fun d hgoing hresult hfresh => ?_, fun id r t hr hstep target session hsession => ?_,
    hs.few⟩
  · obtain ⟨t, ht⟩ := receive_isSome hresult hfresh
    have hcontained := contained_iff hs hgoing ht
    refine ⟨t, (step_datagram hgoing).trans ht, fun hkept hlimit => ?_, fun hnot _ => ?_⟩
    · exact hcontained.mp (hkept (fails_of_outerLimit hlimit)) hlimit
    · exact hcontained.mpr hnot
  · rw [step_join hstep]
    exact joined_own hs hr hsession

end

/-! ## An association that ends -/

section

local instance : IpText := .std

/-- A client of the loopback interface. -/
def loopback : SocketAddr := ⟨.v4 0x7f000001#32, 5000⟩

/-- A datagram of one byte for port 53 of the host `c`. -/
def query (c : Byte) (opening : Opening) (id : Nat) : Datagram :=
  ⟨loopback, [0, 0, 0, 3, 1, c, 0, 53, 7], opening, id, .ok⟩

theorem polls_one (tick : Nat) : [tick].Pairwise (· ≤ ·) := pairwise_singleton _ _

/-- Established at once. -/
def prompt : Opening := ⟨0, 0, some (0, .ok 1), [0], Nat.le_refl 0, polls_one 0⟩

/-- Refused at once. -/
def refused : Opening := ⟨0, 0, some (0, .error "no route"), [0], Nat.le_refl 0, polls_one 0⟩

/-- Nothing comes of the work; the inner timeout started one tick after the outer one, and
the tick in between is polled. -/
def stalled : Opening := ⟨0, 1, none, [20000], Nat.zero_le 1, polls_one 20000⟩

/-- A client that sends from any port of its own. -/
def fresh : Association := .start loopback ⟨['0'], 0⟩

/-- The association once there is a session for the host `a`. -/
def related : Association :=
  ({ fresh with client := some loopback }.establish ⟨['a'], 53⟩ 1 1)

theorem reaches_related :
    (system loopback ⟨['0'], 0⟩).Reaches Lts.anyStep (.start loopback ⟨['0'], 0⟩) related :=
  Lts.run_reaches [.datagram (query 97 prompt 1)] rfl

theorem related_stalls : OuterLimit related (query 98 stalled 2) := by
  refine ⟨⟨['b'], 53⟩, rfl, rfl, by decide, 20000, mem_singleton_self _, ?_⟩
  exact ⟨by decide, by decide, rfl⟩

/-- With a session for the host `a`, a datagram for the host `b` whose session stalls ends
the association. -/
theorem stalled_session_ends_association :
    (system loopback ⟨['0'], 0⟩).Reaches Lts.anyStep (.start loopback ⟨['0'], 0⟩) related ∧
      Table.size related.sessions = 1 ∧ Fails related (query 98 stalled 2) ∧
      ∃ t, related.step (.datagram (query 98 stalled 2)) = some t ∧
        t.returned = some (.error "deadline has elapsed") :=
  ⟨reaches_related, rfl, fails_of_outerLimit related_stalls, _, rfl, rfl⟩

/-- The same datagram with a session that is refused does no harm. -/
theorem socks_udp_failures_local_related :
    Table.size related.sessions ≤ 256 ∧
      ∃ t, related.step (.datagram (query 98 refused 2)) = some t ∧
        Contained related t (query 98 refused 2) := by
  obtain ⟨hlocal, -, hfew⟩ := socks_udp_failures_local reaches_related
  obtain ⟨t, ht, hiff⟩ := hlocal (query 98 refused 2) rfl (by decide) rfl
  refine ⟨hfew, t, ht, hiff.mpr ?_ ⟨⟨['b'], 53⟩, rfl, .inl ⟨rfl, by decide, .inr ⟨_, rfl⟩⟩⟩⟩
  rintro ⟨-, -, -, -, tick, htick, hlate, -⟩
  rw [mem_singleton.mp htick] at hlate
  exact absurd hlate (by decide)

end

end ClashMeta.Socks
