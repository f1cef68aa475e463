import ClashMeta.Basic
import ClashMeta.Lib.Pipe

/-!
# Packets for the host (ffi/src/lib.rs:61-84, 270-301, ffi/src/host.rs:90-124)

The core sends packets through a channel of 256 places; the host fetches them one by one with
`meta_read_packet_v1`. A packet that was taken from the channel waits in `pending` until a call
has room for it. The host decides about the order of all this: calls with any capacity, with
null pointers, before and after the queue is switched off or the handle destroyed.
-/

namespace ClashMeta.Ffi

open List

/-- The status codes of the ABI. -/
inductive Status where
  | ok
  | error
  | wouldBlock
  | bufferTooSmall
  deriving DecidableEq, Repr

/-- The arguments of `meta_read_packet_v1`: a null pointer or the bytes behind it, at least
`capacity` of them, and whether there is a length to write to. -/
structure ReadCall where
  buffer : Option (List Byte)
  capacity : Nat
  length : Bool
  fits : ∀ bytes, buffer = some bytes → capacity ≤ bytes.length

/-- What a call leaves: its result, `*length` and the buffer. -/
structure Reply where
  result : Except String Status
  length : Option Nat
  buffer : Option (List Byte)

/-- `boundary`: an error becomes a status; its text is kept for `meta_error_v1`. -/
def boundary : Except String Status → Status
  | .ok status => status
  | .error _ => .error

/-- What the caller sees of it. -/
def Reply.status (r : Reply) : Status := boundary r.result

/-- The packet the host finds: the first `*length` bytes of its buffer. -/
def Reply.packet (r : Reply) : List Byte := (r.buffer.getD []).take (r.length.getD 0)

/-- `output`. -/
def output (bytes : List Byte) (c : ReadCall) : Reply :=
  if c.length = false then ⟨.error "output length is required", none, c.buffer⟩
  else if c.capacity < bytes.length then ⟨.ok .bufferTooSmall, some bytes.length, c.buffer⟩
  else if bytes ≠ [] ∧ c.buffer = none then
    ⟨.error "invalid output buffer", some bytes.length, c.buffer⟩
  else ⟨.ok .ok, some bytes.length, c.buffer.map fun old => bytes ++ old.drop bytes.length⟩

/-- The handle, as far as its packets go. -/
structure Handle where
  /-- the id is in the table of handles -/
  registered : Bool
  /-- `packet_queue_enabled` -/
  enabled : Bool
  receiver : Channel (List Byte)
  pending : Option (List Byte)

namespace Handle

/-- A handle as it is created. -/
def new (enabled : Bool) : Handle := ⟨true, enabled, .new, none⟩

/-- The call with a packet in `pending`. -/
def deliver (h : Handle) (packet : List Byte) (c : ReadCall) : Reply × Handle :=
  let r := output packet c
  (r, { h with pending := if r.status = .ok then none else some packet })

/-- `meta_read_packet_v1`. -/
def readPacket (h : Handle) (c : ReadCall) : Reply × Handle :=
  if c.length = false then (⟨.error "output length is required", none, c.buffer⟩, h)
  else if h.registered = false then
    (⟨.error "invalid or destroyed core handle", some 0, c.buffer⟩, h)
  else if h.enabled = false then
    (⟨.error "host packet queue unavailable: TUN is disabled or uses an Android fd", some 0,
      c.buffer⟩, h)
  else
    match h.pending with
    | some packet => h.deliver packet c
    | none =>
      match h.receiver.recv with
      | (.item packet, rest) => { h with receiver := rest }.deliver packet c
      | (.empty, _) => (⟨.ok .wouldBlock, some 0, c.buffer⟩, h)
      | (.disconnected, _) => (⟨.error "packet channel closed", some 0, c.buffer⟩, h)

/-- The packets that were sent and are still to be returned. -/
def waiting (h : Handle) : List (List Byte) := h.pending.toList ++ h.receiver.queue

end Handle

/-! ## Histories -/

/-- What happens to a handle. -/
inductive Action where
  /-- `HostPackets::send` comes to its turn -/
  | send (packet : List Byte)
  /-- the core drops its end of the channel -/
  | hangUp
  /-- the queue is switched, for an Android file descriptor -/
  | switch (enabled : Bool)
  /-- `meta_destroy_v1` -/
  | destroy
  | read (call : ReadCall)

/-- What core and host see. -/
inductive Event where
  | sent (packet : List Byte)
  | reply (r : Reply)

namespace Handle

/-- One action. A `send` into a full channel waits, one without a receiver fails. -/
def step (h : Handle) : Action → Option Event × Handle
  | .send packet =>
    if h.receiver.sender ∧ h.receiver.receiver ∧ h.receiver.queue.length < 256 then
      (some (.sent packet), { h with receiver := h.receiver.send packet })
    else (none, h)
  | .hangUp => (none, { h with receiver := { h.receiver with sender := false } })
  | .switch enabled => (none, { h with enabled := enabled })
  | .destroy =>
    (none, { h with registered := false, receiver := { h.receiver with receiver := false } })
  | .read call => (some (.reply (h.readPacket call).1), (h.readPacket call).2)

/-- The history of a handle under some actions. -/
def history : Handle → List Action → List Event
  | _, [] => []
  | h, a :: actions => (h.step a).1.toList ++ history (h.step a).2 actions

/-- The handle behind some actions. -/
def after : Handle → List Action → Handle
  | h, [] => h
  | h, a :: actions => after (h.step a).2 actions

end Handle

/-- The packets sent in a history. -/
def sent (log : List Event) : List (List Byte) :=
  log.flatMap fun
    | .sent packet => [packet]
    | .reply _ => []

/-- The packets returned with `OK`. -/
def returned (log : List Event) : List (List Byte) :=
  log.flatMap fun
    | .sent _ => []
    | .reply r => if r.status = .ok then [r.packet] else []

/-! ## One queue, seen from outside -/

/-- A reply fits the packets that wait before it and those behind it. -/
inductive Answers : List (List Byte) → Reply → List (List Byte) → Prop where
  | ok {r : Reply} (rest : List (List Byte)) (h : r.status = .ok) :
      Answers (r.packet :: rest) r rest
  | small {r : Reply} {packet : List Byte} (rest : List (List Byte))
      (h : r.status = .bufferTooSmall) (hlength : r.length = some packet.length) :
      Answers (packet :: rest) r (packet :: rest)
  | block {r : Reply} (h : r.status = .wouldBlock) : Answers [] r []
  | error {r : Reply} (waiting : List (List Byte)) (h : r.status = .error) :
      Answers waiting r waiting

/-- A history of a queue that leads from what waits to what waits behind it. -/
inductive Orderly : List (List Byte) → List Event → List (List Byte) → Prop where
  | nil (waiting : List (List Byte)) : Orderly waiting [] waiting
  | send {waiting left : List (List Byte)} {log : List Event} (packet : List Byte)
      (h : Orderly (waiting ++ [packet]) log left) : Orderly waiting (.sent packet :: log) left
  | answer {waiting rest left : List (List Byte)} {log : List Event} {r : Reply}
      (hr : Answers waiting r rest) (h : Orderly rest log left) :
      Orderly waiting (.reply r :: log) left

theorem Answers.conserves {waiting rest : List (List Byte)} {r : Reply}
    (h : Answers waiting r rest) :
    waiting = (if r.status = .ok then [r.packet] else []) ++ rest := by
  cases h with
  | ok rest h => rw [if_pos h, singleton_append]
  | small rest h hlength | block h | error waiting h => rw [if_neg (by simp [h]), nil_append]

/-- What `output` answers to a call with a length pointer. -/
theorem output_status (packet : List Byte) (c : ReadCall) (hlength : c.length) :
    (c.capacity < packet.length → (output packet c).status = .bufferTooSmall) ∧
    (packet.length ≤ c.capacity → packet = [] ∨ c.buffer ≠ none →
      (output packet c).status = .ok) ∧
    ((output packet c).status = .error →
      c.buffer = none ∧ packet ≠ [] ∧ packet.length ≤ c.capacity) := by
  unfold output
  rw [if_neg (by simp [hlength])]
  by_cases hsmall : c.capacity < packet.length
  · rw [if_pos hsmall]
    exact ⟨fun _ => rfl, fun hle => absurd hle (not_le.mpr hsmall), nofun⟩
  rw [if_neg hsmall]
  by_cases hnull : packet ≠ [] ∧ c.buffer = none
  · rw [if_pos hnull]
    exact ⟨fun h => absurd h hsmall, fun _ h => absurd hnull (by tauto),
      fun _ => ⟨hnull.2, hnull.1, not_lt.mp hsmall⟩⟩
  · rw [if_neg hnull]
    exact ⟨fun h => absurd h hsmall, fun _ _ => rfl, nofun⟩

theorem answers_deliver (h : Handle) (packet : List Byte) (c : ReadCall)
    (hlength : c.length) :
    Answers (packet :: h.receiver.queue) (h.deliver packet c).1 (h.deliver packet c).2.waiting := by
  unfold Handle.deliver Handle.waiting output
  rw [if_neg (by simp [hlength])]
  by_cases hsmall : c.capacity < packet.length
  · rw [if_pos hsmall]
    exact .small _ rfl rfl
  rw [if_neg hsmall]
  by_cases hnull : packet ≠ [] ∧ c.buffer = none
  · rw [if_pos hnull]
    exact .error _ rfl
  rw [if_neg hnull]
  have hpacket : packet = Reply.packet ⟨.ok .ok, some packet.length,
      c.buffer.map fun old => packet ++ old.drop packet.length⟩ := by
    cases hbuffer : c.buffer with
    | none =>
      -- only an empty packet goes without a buffer
      have hempty : packet = [] := by
        by_contra hne
        exact hnull ⟨hne, hbuffer⟩
      rw [hempty]
      rfl
    | some old => exact (take_left' rfl).symm
  nth_rewrite 1 [hpacket]
  exact .ok _ rfl

/-- The ways a call goes: it is refused for a reason, finds no packet, or has one to deliver. -/
inductive Goes (h : Handle) (c : ReadCall) : Reply × Handle → Prop where
  | refused {r : Reply} (hr : r.status = .error) (why : c.length = false ∨ h.registered = false ∨
      h.enabled = false ∨ (h.waiting = [] ∧ h.receiver.sender = false)) : Goes h c (r, h)
  | empty {r : Reply} (hr : r.status = .wouldBlock) (hwaiting : h.waiting = []) : Goes h c (r, h)
  | delivers (packet : List Byte) (g : Handle) (hlength : c.length = true)
      (hwaiting : h.waiting = packet :: g.receiver.queue) : Goes h c (g.deliver packet c)

theorem goes_readPacket (h : Handle) (c : ReadCall) : Goes h c (h.readPacket c) := by
  unfold Handle.readPacket
  by_cases hlength : c.length = false
  · rw [if_pos hlength]
    exact .refused rfl (.inl hlength)
  rw [if_neg hlength]
  split
  · exact .refused rfl (.inr (.inl ‹_›))
  split
  · exact .refused rfl (.inr (.inr (.inl ‹_›)))
  have hpointer := Bool.eq_true_of_not_eq_false hlength
  cases hpending : h.pending with
  | some packet => exact .delivers packet h hpointer (by rw [Handle.waiting, hpending]; rfl)
  | none =>
    have hwaiting : h.waiting = h.receiver.queue := by
      rw [Handle.waiting, hpending]
      rfl
    rw [Channel.recv]
    cases hqueue : h.receiver.queue with
    | cons packet rest =>
      exact .delivers packet { h with receiver := { h.receiver with queue := rest } } hpointer
        (hwaiting.trans hqueue)
    | nil =>
      by_cases hsender : h.receiver.sender = true
      · rw [if_pos hsender]
        exact .empty rfl (hwaiting.trans hqueue)
      · rw [if_neg hsender]
        exact .refused rfl (.inr (.inr (.inr
          ⟨hwaiting.trans hqueue, Bool.eq_false_of_not_eq_true hsender⟩)))

/-- **A call answers from what waits**, and leaves the rest. -/
theorem answers_readPacket (h : Handle) (c : ReadCall) :
    Answers h.waiting (h.readPacket c).1 (h.readPacket c).2.waiting := by
  have hgoes := goes_readPacket h c
  generalize h.readPacket c = result at hgoes
  cases hgoes with
  | refused hr why => exact .error _ hr
  | empty hr hwaiting =>
    rw [hwaiting]
    exact .block hr
  | delivers packet g hlength hwaiting =>
    rw [hwaiting]
    exact answers_deliver g packet c hlength

/-- **Every history of a handle is orderly.** -/
theorem history_orderly (h : Handle) (actions : List Action) :
    Orderly h.waiting (h.history actions) (h.after actions).waiting := by
  induction actions generalizing h with
  | nil => exact .nil _
  | cons a actions ih =>
    cases a with
    | send packet =>
      rw [Handle.history, Handle.after, Handle.step]
      split
      · refine .send packet ?_
        have hwaiting : h.waiting ++ [packet] =
            Handle.waiting { h with receiver := h.receiver.send packet } :=
          append_assoc ..
        rw [hwaiting]
        exact ih _
      · exact ih h
    | hangUp => exact ih { h with receiver := { h.receiver with sender := false } }
    | switch enabled => exact ih { h with enabled := enabled }
    | destroy =>
      exact ih { h with registered := false, receiver := { h.receiver with receiver := false } }
    | read call => exact .answer (answers_readPacket h call) (ih _)

namespace Orderly

variable {waiting left : List (List Byte)} {log later : List Event}

theorem split (h : Orderly waiting (log ++ later) left) :
    ∃ rest, waiting ++ sent log = returned log ++ rest ∧ Orderly rest later left := by
  induction log generalizing waiting with
  | nil => exact ⟨waiting, append_nil _, h⟩
  | cons e log ih =>
    cases h with
    | send packet h =>
      obtain ⟨rest, heq, hrest⟩ := ih h
      refine ⟨rest, ?_, hrest⟩
      rw [append_assoc] at heq
      exact heq
    | @answer _ behind _ _ r hr h =>
      obtain ⟨rest, heq, hrest⟩ := ih h
      refine ⟨rest, ?_, hrest⟩
      show waiting ++ sent log = returned (.reply r :: log) ++ rest
      rw [hr.conserves, append_assoc, heq, ← append_assoc]
      rfl

theorem next {packet : List Byte} {rest : List (List Byte)} {r : Reply}
    (h : Orderly (packet :: rest) (log ++ .reply r :: later) left) (hnone : returned log = [])
    (hok : r.status = .ok) : r.packet = packet := by
  obtain ⟨behind, heq, h⟩ := h.split
  rw [hnone] at heq
  cases h with
  | answer hr _ =>
    rw [hr.conserves, if_pos hok] at heq
    exact (List.cons.inj heq).1.symm

end Orderly

/-- What a call finds on a handle: the first packet that waits or its length, and no error
without a reason. -/
structure Serves (h : Handle) (c : ReadCall) (r : Reply) : Prop where
  /-- Whether there is room for the packet or not. -/
  first : h.registered = true → h.enabled = true → c.length = true →
    ∀ packet rest, h.waiting = packet :: rest →
      (packet.length ≤ c.capacity → packet = [] ∨ c.buffer ≠ none →
        r.status = .ok ∧ r.packet = packet) ∧
      (c.capacity < packet.length → r.status = .bufferTooSmall)
  /-- An error is due to a null pointer or a handle that is destroyed, off or hung up. -/
  error : r.status = .error → c.length = false ∨ h.registered = false ∨ h.enabled = false ∨
    (h.waiting = [] ∧ h.receiver.sender = false) ∨
    (c.buffer = none ∧ ∃ packet rest, h.waiting = packet :: rest ∧ packet ≠ [] ∧
      packet.length ≤ c.capacity)

theorem serves_readPacket (h : Handle) (c : ReadCall) : Serves h c (h.readPacket c).1 := by
  have hgoes := goes_readPacket h c
  have hanswers := answers_readPacket h c
  generalize h.readPacket c = result at hgoes hanswers
  cases hgoes with
  | refused hr why =>
    refine ⟨fun hregistered henabled hlength packet rest hwaiting => ?_, fun _ => by tauto⟩
    rw [hregistered, henabled, hlength, hwaiting] at why
    simp at why
  | empty hr hwaiting =>
    refine ⟨fun _ _ _ packet rest hsome => ?_, fun herror => ?_⟩
    · cases hwaiting.symm.trans hsome
    · cases hr.symm.trans herror
  | delivers packet g hlength hwaiting =>
    obtain ⟨hsmall, hok, herror⟩ := output_status packet c hlength
    refine ⟨fun _ _ _ first rest hfirst => ?_, fun hr => ?_⟩
    · cases hwaiting.symm.trans hfirst
      refine ⟨fun hle hbuffer => ?_, hsmall⟩
      have hstatus : (g.deliver packet c).1.status = .ok := hok hle hbuffer
      have hconserves := hanswers.conserves
      rw [hwaiting, if_pos hstatus] at hconserves
      exact ⟨hstatus, (List.cons.inj hconserves).1.symm⟩
    · obtain ⟨hnull, hne, hle⟩ := herror hr
      exact .inr (.inr (.inr (.inr ⟨hnull, packet, _, hwaiting, hne, hle⟩)))

/-- **Packets reach the host exactly once and in order**, in every history: what was sent is what
was returned and what still waits, in this order; the packet whose length a call with too little
room reports is the one that the next successful call returns; and a call says that there is
none only when all that were sent are returned. At every moment a call gets what `Serves`
says. -/
theorem packets_exactly_once (enabled : Bool) (actions : List Action) :
    sent ((Handle.new enabled).history actions) =
      returned ((Handle.new enabled).history actions) ++
        ((Handle.new enabled).after actions).waiting ∧
    (∀ before r later, (Handle.new enabled).history actions = before ++ .reply r :: later →
      (r.status = .bufferTooSmall → ∃ packet, r.length = some packet.length ∧
        (sent before)[(returned before).length]? = some packet ∧
        ∀ log r' rest, later = log ++ .reply r' :: rest → returned log = [] → r'.status = .ok →
          r'.packet = packet) ∧
      (r.status = .wouldBlock → returned before = sent before)) ∧
    ∀ c, Serves ((Handle.new enabled).after actions) c
      (((Handle.new enabled).after actions).readPacket c).1 := by
  have horderly := history_orderly (Handle.new enabled) actions
  refine ⟨?_, fun before r later heq => ?_, fun c => serves_readPacket _ c⟩
  · rw [← append_nil (Handle.history _ _)] at horderly
    obtain ⟨rest, heq, hnil⟩ := horderly.split
    cases hnil
    exact heq
  · rw [heq] at horderly
    obtain ⟨rest, hsent, hlater⟩ := horderly.split
    replace hsent : sent before = returned before ++ rest := hsent
    cases hlater with
    | answer hr hlater =>
      refine ⟨fun hsmall => ?_, fun hblock => ?_⟩
      · cases hr with
        | @small _ packet tail _ hlength =>
          refine ⟨packet, hlength, ?_, fun log r' rest' hsplit hnone hok => ?_⟩
          · rw [hsent, List.getElem?_append_right le_rfl, Nat.sub_self]
            rfl
          · rw [hsplit] at hlater
            exact hlater.next hnone hok
        | ok _ h | block h | error _ h => cases h.symm.trans hsmall
      · cases hr with
        | block _ => rw [hsent, append_nil]
        | ok _ h | small _ h _ | error _ h => cases h.symm.trans hblock

/-- A call with a buffer. -/
def callFor (capacity : Nat) : ReadCall where
  buffer := some (List.replicate capacity 0)
  capacity := capacity
  length := true
  fits := by
    rintro _ ⟨⟩
    exact Nat.le_of_eq List.length_replicate.symm

/-- Two packets, of which the first does not fit at first. -/
theorem packets_exactly_once_secondTry :
    let before := [.send [1, 2], .send [3], .read (callFor 1)]
    let r := (((Handle.new true).after before).readPacket (callFor 2)).1
    r.status = .ok ∧ r.packet = [1, 2] ∧
      returned ((Handle.new true).history (before ++ [.read (callFor 2)])) ++ [[3]] =
        [[1, 2], [3]] := by
  intro before r
  obtain ⟨hok, hpacket⟩ := (((packets_exactly_once true before).2.2 (callFor 2)).first rfl rfl rfl
    [1, 2] [[3]] rfl).1 (by decide) (.inr (by decide))
  exact ⟨hok, hpacket, (packets_exactly_once true (before ++ [.read (callFor 2)])).1.symm⟩

end ClashMeta.Ffi
