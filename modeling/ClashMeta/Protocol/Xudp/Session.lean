import ClashMeta.Lib.Job
import ClashMeta.Protocol.Xudp.Framing

/-!
# The single XUDP session (protocol/src/xudp.rs:360-440)

One XUDP session, with id 0, on a stream of its own. As in the VLESS session, reader and
writer stand behind a lock each with a flag that a call clears before its first await. `recv`
passes over frames without a payload, at most 256 in one call; `send` marks the first
packet of the session as new.
-/

namespace ClashMeta.Xudp

open List Except Job

/-- `metadata` (xudp.rs:360-395): the target of a frame, and whether a payload follows. -/
def metadata [IpText] (bytes : List Byte) (default : Target) : Except String (Target × Bool) :=
  match bytes with
  | hi :: lo :: status :: flags :: _ => do
    ensure (bytes.length ≤ maxMetadata) "invalid XUDP metadata length"
    ensure (flags &&& ~~~(optionData ||| optionError) = 0) "invalid XUDP options"
    ensure (flags &&& optionError = 0) "XUDP peer rejected session"
    ensure (status = statusKeepalive ∨ fromBe16 hi lo = 0) "unexpected XUDP session ID"
    ensure (status ≠ statusEnd) "XUDP session ended"
    ensure (status = statusKeep ∨ status = statusKeepalive) "unexpected XUDP frame status"
    let target ← metadataTarget bytes status
    ensure (status ≠ statusKeepalive ∨ flags = 0) "XUDP keepalive cannot carry data"
    return (target.getD default, flags &&& optionData ≠ 0)
  | _ => .error "invalid XUDP metadata length"

namespace Session

/-- `SESSION_ID`. -/
def sessionId : UInt16 := 0

/-- What the writer's lock guards, beside the stream. -/
structure Writer where
  first : Bool
  usable : Bool

/-- `Session::new`. -/
def Writer.new : Writer := ⟨true, true⟩

variable [IpText]

/-- `Session::send` with the writer's lock. -/
def sendLocked (target : Target) (payload : List Byte) : Job Writer Byte Unit := do
  let writer ← Job.state
  Job.check writer.usable "XUDP writer interrupted or closed"
  let frame ← Job.ofExcept (packet sessionId target payload writer.first none)
  Job.assign fun writer => { writer with usable := false }
  Job.writeAll frame
  Job.flushAll
  Job.assign fun writer => { writer with first := false }
  Job.assign fun writer => { writer with usable := true }

/-- `Session::send`. -/
def send (own : Target) (args : Target × List Byte) : Except String (Job Writer Byte Unit) := do
  ensure (args.1 = own) "XUDP session target changed"
  return sendLocked args.1 args.2

/-- The end of a round of `Session::recv`, for a frame with a payload. -/
def recvPayload (target : Target) : Job Bool Byte (Target × List Byte) := do
  let head ← Job.readExact 2
  Job.check (fromBe head ≤ maxPayload) "XUDP payload exceeds limit"
  let payload ← Job.readExact (fromBe head)
  Job.assign fun _ => true
  return (target, payload)

/-- The loop of `Session::recv`, with the rounds it has left. -/
def recvLoop (own : Target) : Nat → Job Bool Byte (Target × List Byte)
  | 0 => .done (.error "too many XUDP control frames without data")
  | rounds + 1 => do
    let head ← Job.readExact 2
    Job.check (4 ≤ fromBe head ∧ fromBe head ≤ maxMetadata) "invalid XUDP metadata length"
    let header ← Job.readExact (fromBe head)
    let frame ← Job.ofExcept (metadata header own)
    if frame.2 = false then recvLoop own rounds else recvPayload frame.1

/-- The frames `recv` looks at in one call. -/
def maxRounds : Nat := 256

/-- `Session::recv` with the reader's lock. -/
def recvLocked (own : Target) : Job Bool Byte (Target × List Byte) := do
  let usable ← Job.state
  Job.check usable "XUDP reader interrupted or closed"
  Job.assign fun _ => false
  recvLoop own maxRounds

/-- `Session::recv`. -/
def recv (own : Target) (_ : Unit) : Except String (Job Bool Byte (Target × List Byte)) :=
  .ok (recvLocked own)

variable {own : Target}

/-! ## Sending -/

theorem send_eq_ok_iff {args : Target × List Byte} {t : Job Writer Byte Unit} :
    send own args = .ok t ↔ args.1 = own ∧ sendLocked args.1 args.2 = t := by
  simp only [send, bind_eq_ok_iff, ensure_eq_ok_iff, pure_eq_ok_iff, exists_const]

theorem eval_sendLocked (target : Target) (payload inbound : List Byte) (first : Bool) :
    (sendLocked target payload).eval ⟨first, true⟩ inbound =
      match packet sessionId target payload first none with
      | .ok frame => (frame, .returned (.ok ()) ⟨false, true⟩ inbound)
      | .error e => ([], .returned (.error e) ⟨first, true⟩ inbound) := by
  simp only [sendLocked, state_bind, assign_bind, writeAll_bind, flushAll_bind]
  rw [Job.eval]
  cases packet sessionId target payload first none with
  | error e => rfl
  | ok frame =>
    show (frame ++ [], _) = _
    rw [append_nil]
    rfl

/-- The frame of a send, for the first packet of the session or a later one. -/
def frame (first : Bool) (args : Target × List Byte) : List Byte :=
  (packet sessionId args.1 args.2 first none).toOption.getD []

/-- The frames of sends, the first of them marked as new. -/
def wire : List (Target × List Byte) → List Byte
  | [] => []
  | args :: rest => frame true args ++ rest.flatMap (frame false)

theorem wire_snoc (done : List (Target × List Byte)) (args : Target × List Byte) :
    wire (done ++ [args]) = wire done ++ frame done.isEmpty args := by
  cases done with
  | nil | cons a rest => simp [wire]

/-- The sends that succeeded are on the stream, frame after frame. -/
def Sent (writer : Writer) (_inbound outbound : List Byte)
    (done : List ((Target × List Byte) × Unit)) : Prop :=
  writer = ⟨done.isEmpty, true⟩ ∧ outbound = wire (done.map Prod.fst)

/-- Sends put their frames on the stream one after another. -/
theorem send_serves (own : Target) : Serves (send own) Sent (·.usable = false) := by
  refine .of_ends ?_ ?_ ?_
  · rintro args t s inbound outbound done hprog ⟨rfl, -⟩
    obtain ⟨-, rfl⟩ := send_eq_ok_iff.mp hprog
    rw [sendLocked, state_bind, Awaits, check_true rfl]
    exact awaits_ofExcept fun frame _ => ⟨rfl, rfl, trivial⟩
  · rintro args t ⟨first, usable⟩ hprog hdead
    obtain ⟨-, rfl⟩ := send_eq_ok_iff.mp hprog
    cases hdead
    exact ⟨_, rfl⟩
  · rintro args t s inbound outbound done w r s' inbound' hprog ⟨rfl, rfl⟩ heval
    obtain ⟨-, rfl⟩ := send_eq_ok_iff.mp hprog
    rw [eval_sendLocked] at heval
    cases hpacket : packet sessionId args.1 args.2 done.isEmpty none with
    | error e =>
      rw [hpacket] at heval
      cases heval
      exact .inr ⟨rfl, rfl, rfl⟩
    | ok bytes =>
      rw [hpacket] at heval
      cases heval
      refine ⟨by simp, ?_⟩
      rw [map_append, map_singleton, wire_snoc, isEmpty_map, frame, hpacket]
      rfl

/-! ## Receiving -/

end Session

/-- The packet of session 0 that a frame carries. -/
def InboundFrame.packet [IpText] (own : Target) (f : InboundFrame) :
    Option (Target × List Byte) :=
  if f.status = statusKeep ∧ f.id = Session.sessionId then
    f.payload.map (f.target.getD own, ·)
  else none

/-- The session takes the frames that carry its id and do not end it, and the keepalives of
any id. -/
theorem metadata_header_eq_ok_iff [IpText] {own : Target} {f : InboundFrame}
    {m : Target × Bool} :
    metadata f.header own = .ok m ↔ (f.status = statusKeepalive ∨ f.id = Session.sessionId) ∧
      f.status ≠ statusEnd ∧ (f.target.getD own, f.payload.isSome) = m := by
  have hlength := f.length_header_le
  have hid : fromBe16 (UInt8.ofNat (f.id.toNat / 256)) (UInt8.ofNat f.id.toNat) = 0 ↔
      f.id = Session.sessionId := by
    rw [fromBe16_be16 f.id.toNat_lt]
    exact (UInt16.toNat_inj (b := Session.sessionId))
  have hstatus : f.status ≠ statusEnd → f.status = statusKeep ∨ f.status = statusKeepalive := by
    intro hne
    rcases f.status_ok with h | h | h
    · exact .inl h
    · exact absurd h hne
    · exact .inr h
  have hkeepalive : f.status ≠ statusKeepalive ∨ f.options = 0 := by
    by_cases h : f.status = statusKeepalive
    · exact .inr (f.options_of_keepalive h)
    · exact .inl h
  have htarget := f.metadataTarget_header
  rw [f.header_eq] at hlength htarget ⊢
  simp only [metadata, bind_eq_ok_iff, ensure_eq_ok_iff, pure_eq_ok_iff,
    exists_const, htarget, Except.ok.injEq, exists_eq_left', hlength, f.options_ok, hid,
    hkeepalive, true_and]
  exact and_congr_right fun _ => and_congr_right fun hne => and_iff_right (hstatus hne)

namespace InboundFrame

variable [IpText] {own : Target} {f : InboundFrame}

theorem packet_of_none (h : f.payload = none) : f.packet own = none := by
  simp [packet, h]

theorem packet_of_some {bytes : List Byte}
    (hid : f.status = statusKeepalive ∨ f.id = Session.sessionId) (hend : f.status ≠ statusEnd)
    (h : f.payload = some bytes) : f.packet own = some (f.target.getD own, bytes) := by
  have hkeepalive : f.status ≠ statusKeepalive := by
    intro hk
    rw [f.keepalive_ok hk] at h
    cases h
  have hkeep : f.status = statusKeep := by
    rcases f.status_ok with hs | hs | hs
    · exact hs
    · exact absurd hs hend
    · exact absurd hs hkeepalive
  rw [packet, if_pos ⟨hkeep, hid.resolve_left hkeepalive⟩, h, Option.map_some]

end InboundFrame

namespace Session

variable [IpText] {own : Target}

/-- What a reader in the middle of a call does with frames: it waits, gives up for good, or
returns the first packet and stands behind its frame. -/
inductive Receives (own : Target) (frames : List InboundFrame) :
    List Byte × Job.Outcome Bool Byte (Target × List Byte) → Prop where
  | waits : Receives own frames ([], .blocked)
  | fails (e : String) (inbound : List Byte) :
      Receives own frames ([], .returned (.error e) false inbound)
  | gets {x : Target × List Byte} {rest : List InboundFrame}
      (h : frames.filterMap (InboundFrame.packet own) =
        x :: rest.filterMap (InboundFrame.packet own)) :
      Receives own frames ([], .returned (.ok x) true (stream rest))

theorem eval_recvLoop_cons (rounds : Nat) (f : InboundFrame) (frames : List InboundFrame) :
    (recvLoop own (rounds + 1)).eval false (stream (f :: frames)) =
      Job.eval (do
        let frame ← ofExcept (metadata f.header own)
        if frame.2 = false then recvLoop own rounds else recvPayload frame.1)
      false (f.body ++ stream frames) := by
  have hmax : maxMetadata = 512 := rfl
  have hlength := f.length_ok
  have hheader := f.length_header
  rw [recvLoop, readExact_bind, stream_cons, eval_read (length_be16 _),
    fromBe_be16 (by omega), check_true ⟨by omega, by omega⟩, readExact_bind,
    eval_read rfl]

variable {bytes : List Byte}

omit [IpText] in
theorem eval_recvPayload (h : bytes.length ≤ maxPayload) (target : Target) (rest : List Byte) :
    (recvPayload target).eval false (be16 bytes.length ++ (bytes ++ rest)) =
      ([], .returned (.ok (target, bytes)) true rest) := by
  have hmax : maxPayload = 65507 := rfl
  rw [recvPayload, readExact_bind, eval_read (length_be16 _), fromBe_be16 (by omega),
    Job.check_true h, Job.readExact_bind, Job.eval_read rfl]
  rfl

variable {f : InboundFrame}

theorem eval_recvLoop_control (rounds : Nat) (hid : f.status = statusKeepalive ∨ f.id = sessionId)
    (hend : f.status ≠ statusEnd) (hpayload : f.payload = none) (frames : List InboundFrame) :
    (recvLoop own (rounds + 1)).eval false (stream (f :: frames)) =
      (recvLoop own rounds).eval false (stream frames) := by
  rw [eval_recvLoop_cons, metadata_header_eq_ok_iff.mpr ⟨hid, hend, rfl⟩, Job.ofExcept,
    Job.ok_bind, if_pos (by simp [hpayload]), InboundFrame.body, hpayload, nil_append]

theorem eval_recvLoop_data (rounds : Nat) (hid : f.status = statusKeepalive ∨ f.id = sessionId)
    (hend : f.status ≠ statusEnd) (hpayload : f.payload = some bytes) (frames : List InboundFrame) :
    (recvLoop own (rounds + 1)).eval false (stream (f :: frames)) =
      ([], .returned (.ok (f.target.getD own, bytes)) true (stream frames)) := by
  rw [eval_recvLoop_cons, metadata_header_eq_ok_iff.mpr ⟨hid, hend, rfl⟩, Job.ofExcept,
    Job.ok_bind, if_neg (by simp [hpayload]), InboundFrame.body, hpayload, append_assoc,
    eval_recvPayload (f.payload_ok bytes hpayload)]

theorem Receives.skip {frames : List InboundFrame}
    {o : List Byte × Outcome Bool Byte (Target × List Byte)} (hf : f.packet own = none)
    (h : Receives own frames o) : Receives own (f :: frames) o := by
  cases h with
  | waits => exact .waits
  | fails e inbound => exact .fails e inbound
  | gets h => exact .gets (by rw [filterMap_cons_none hf, h])

/-- The loop skips what carries no packet. -/
theorem recvLoop_receives (own : Target) (rounds : Nat) (frames : List InboundFrame) :
    Receives own frames ((recvLoop own rounds).eval false (stream frames)) := by
  induction rounds generalizing frames with
  | zero => exact .fails _ _
  | succ rounds ih =>
    cases frames with
    | nil => exact .waits
    | cons f frames =>
      by_cases htakes : (f.status = statusKeepalive ∨ f.id = sessionId) ∧ f.status ≠ statusEnd
      · obtain ⟨hid, hend⟩ := htakes
        cases hpayload : f.payload with
        | none =>
          rw [eval_recvLoop_control rounds hid hend hpayload]
          exact (ih frames).skip (InboundFrame.packet_of_none hpayload)
        | some bytes =>
          rw [eval_recvLoop_data rounds hid hend hpayload]
          exact .gets (filterMap_cons_some (InboundFrame.packet_of_some hid hend hpayload))
      · -- the metadata is refused and the reader stays unusable
        rw [eval_recvLoop_cons]
        cases hmetadata : metadata f.header own with
        | error e => exact .fails e _
        | ok m =>
          obtain ⟨hid, hend, -⟩ := metadata_header_eq_ok_iff.mp hmetadata
          exact absurd ⟨hid, hend⟩ htakes

theorem recvLocked_receives (own : Target) (frames : List InboundFrame) :
    Receives own frames ((recvLocked own).eval true (stream frames)) :=
  recvLoop_receives own maxRounds frames

theorem recvLoop_awaits (rounds : Nat) : (recvLoop own rounds).Awaits (· = false) false := by
  induction rounds with
  | zero => trivial
  | succ rounds ih =>
    refine awaits_readExact rfl fun head => awaits_check fun _ => ?_
    refine awaits_readExact rfl fun header => awaits_ofExcept fun frame _ => ?_
    split
    · exact ih
    · refine awaits_readExact rfl fun head => awaits_check fun _ => ?_
      exact awaits_readExact rfl fun payload => trivial

/-- The packets returned are the first of the packets on the stream, and the reader stands
before the frames of the others. -/
def Received (own : Target) (frames : List InboundFrame) (usable : Bool)
    (inbound outbound : List Byte) (done : List (Unit × (Target × List Byte))) : Prop :=
  usable = true ∧ outbound = [] ∧ ∃ rest, inbound = stream rest ∧
    frames.filterMap (InboundFrame.packet own) =
      done.map Prod.snd ++ rest.filterMap (InboundFrame.packet own)

/-- Calls of `recv` return the packets in order. -/
theorem recv_serves (own : Target) (frames : List InboundFrame) :
    Serves (recv own) (Received own frames) (· = false) := by
  refine .of_ends ?_ ?_ ?_
  · rintro args t s inbound outbound done hprog ⟨rfl, -⟩
    cases hprog
    exact recvLoop_awaits maxRounds
  · rintro args t s hprog rfl
    cases hprog
    exact ⟨_, rfl⟩
  · rintro args t s inbound outbound done w r s' inbound' hprog ⟨rfl, rfl, rest, rfl, hframes⟩
      heval
    cases hprog
    have hreceives := recvLocked_receives own rest
    rw [heval] at hreceives
    cases hreceives with
    | fails e inbound => exact .inl rfl
    | gets h => exact ⟨rfl, rfl, _, rfl, by simp [hframes, h]⟩

end Session

end ClashMeta.Xudp
