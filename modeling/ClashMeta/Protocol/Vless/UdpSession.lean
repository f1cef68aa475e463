import ClashMeta.Lib.Checked
import ClashMeta.Lib.Job
import ClashMeta.Protocol.Target

/-!
# The VLESS UDP session (protocol/src/vless.rs:303-345)

A stream that carries the datagrams of one target, each as a two-byte length and the
payload. Reader and writer stand behind a lock each, with a flag that says whether the
stream is between two packets; `send` and `recv` clear it before their first await and set it
again after their last. So neither is ever used again after a call that was cut off.
-/

namespace ClashMeta.Vless.UdpSession

open List Job

/-- The largest UDP payload. -/
def maxPayload : Nat := 65507

/-- A packet on the stream. -/
def frame (bytes : List Byte) : List Byte := be16 bytes.length ++ bytes

/-- `UdpSession::send` with the writer's lock. -/
def sendLocked (bytes : List Byte) : Job Bool Byte Unit := do
  let usable ← Job.state
  Job.check usable "VLESS UDP writer interrupted or closed"
  Job.assign fun _ => false
  Job.writeAll (be16 bytes.length)
  Job.writeAll bytes
  Job.flushAll
  Job.assign fun _ => true

/-- `UdpSession::send`. -/
def send (own : Target) (args : Target × List Byte) : Except String (Job Bool Byte Unit) := do
  ensure (args.1 = own) "VLESS UDP session target changed"
  ensure (args.2.length ≤ maxPayload) "UDP payload exceeds limit"
  return sendLocked args.2

/-- `UdpSession::recv` with the reader's lock. -/
def recvLocked (own : Target) : Job Bool Byte (Target × List Byte) := do
  let usable ← Job.state
  Job.check usable "VLESS UDP reader interrupted or closed"
  Job.assign fun _ => false
  let head ← Job.readExact 2
  Job.check (fromBe head ≤ maxPayload) "UDP payload exceeds limit"
  let b ← Job.readExact (fromBe head)
  Job.assign fun _ => true
  return (own, b)

/-- `UdpSession::recv`. -/
def recv (own : Target) (_ : Unit) : Except String (Job Bool Byte (Target × List Byte)) :=
  .ok (recvLocked own)

variable {own : Target}

/-! ## Sending -/

theorem send_eq_ok_iff {args : Target × List Byte} {t : Job Bool Byte Unit} :
    send own args = .ok t ↔
      args.1 = own ∧ args.2.length ≤ maxPayload ∧ sendLocked args.2 = t := by
  simp only [send, Except.bind_eq_ok_iff, ensure_eq_ok_iff, Except.pure_eq_ok_iff, exists_const]

theorem eval_sendLocked (bytes inbound : List Byte) :
    (sendLocked bytes).eval true inbound =
      (frame bytes, .returned (.ok ()) true inbound) := by
  show (be16 bytes.length ++ (bytes ++ []), _) = _
  rw [append_nil]
  rfl

/-- The packets of sends. -/
def wire (sent : List (Target × List Byte)) : List Byte := sent.flatMap fun args => frame args.2

theorem wire_snoc (sent : List (Target × List Byte)) (args : Target × List Byte) :
    wire (sent ++ [args]) = wire sent ++ frame args.2 := by
  simp [wire]

/-- The sends that succeeded are on the stream, packet after packet. -/
def Sent (usable : Bool) (_inbound outbound : List Byte)
    (done : List ((Target × List Byte) × Unit)) : Prop :=
  usable = true ∧ outbound = wire (done.map Prod.fst)

/-- Every send that runs alone writes one whole frame. -/
theorem send_serves (own : Target) : Serves (send own) Sent (· = false) := by
  refine .of_ends ?_ ?_ ?_
  · rintro args t s inbound outbound done hprog ⟨rfl, -⟩
    obtain ⟨-, -, rfl⟩ := send_eq_ok_iff.mp hprog
    exact ⟨rfl, rfl, rfl, trivial⟩
  · rintro args t s hprog rfl
    obtain ⟨-, -, rfl⟩ := send_eq_ok_iff.mp hprog
    exact ⟨_, rfl⟩
  · rintro args t s inbound outbound done w r s' inbound' hprog ⟨rfl, rfl⟩ heval
    obtain ⟨-, -, rfl⟩ := send_eq_ok_iff.mp hprog
    rw [eval_sendLocked] at heval
    cases heval
    exact ⟨rfl, by rw [map_append, map_singleton, wire_snoc]⟩

/-! ## Receiving -/

theorem eval_recvLocked {bytes : List Byte} (h : bytes.length ≤ maxPayload) (rest : List Byte) :
    (recvLocked own).eval true (frame bytes ++ rest) =
      ([], .returned (.ok (own, bytes)) true rest) := by
  have hmax : maxPayload = 65507 := rfl
  have hnumber : fromBe (be16 bytes.length) = bytes.length := fromBe_be16 (by omega)
  simp only [recvLocked, state_bind, assign_bind, readExact_bind, pure_eq]
  rw [Job.eval, check_true rfl, Job.eval, Job.eval, frame, append_assoc,
    eval_read (length_be16 _), hnumber, check_true h, eval_read rfl]
  rfl

/-- The packets returned are the first of the packets on the stream, and the reader stands
before the others. -/
def Received (own : Target) (packets : List (List Byte)) (usable : Bool)
    (inbound outbound : List Byte) (done : List (Unit × (Target × List Byte))) : Prop :=
  usable = true ∧ outbound = [] ∧ ∃ rest : List (List Byte), inbound = rest.flatMap frame ∧
    packets.map (own, ·) = done.map Prod.snd ++ rest.map (own, ·) ∧
    ∀ bytes ∈ rest, bytes.length ≤ maxPayload

/-- Every receive takes the next packet. -/
theorem recv_serves (own : Target) (packets : List (List Byte)) :
    Serves (recv own) (Received own packets) (· = false) := by
  refine .of_ends ?_ ?_ ?_
  · rintro args t s inbound outbound done hprog ⟨rfl, -⟩
    cases hprog
    show (readExact 2 >>= _).Awaits (· = false) false
    refine awaits_readExact rfl fun head => awaits_check fun _ => ?_
    exact awaits_readExact rfl fun b => trivial
  · rintro args t s hprog rfl
    cases hprog
    exact ⟨_, rfl⟩
  · rintro args t s inbound outbound done w r s' inbound' hprog
      ⟨rfl, rfl, rest, rfl, hpackets, hlengths⟩ heval
    cases hprog
    cases rest with
    | nil => cases heval
    | cons bytes rest =>
      rw [forall_mem_cons] at hlengths
      rw [flatMap_cons, eval_recvLocked hlengths.1] at heval
      cases heval
      exact ⟨rfl, rfl, rest, rfl, by simp [hpackets], hlengths.2⟩

end ClashMeta.Vless.UdpSession
