import ClashMeta.Protocol.Vless.UdpSession
import ClashMeta.Protocol.Xudp.Session

/-!
# Datagram sessions under cancellation

Both datagram sessions keep a stream of packets in step although every call can be dropped at
every await: what `recv` returns are the first packets of the peer's stream, and what `send`
has written are the packets of the sends that succeeded and at most one more.
-/

namespace ClashMeta.Datagram

open List Vless Xudp

/-- Whatever happens to the calls of `recv`, those that succeed return the first of
`packets`. -/
def ReceivesInOrder (recv : Unit → Except String (Job Bool Byte (Target × List Byte)))
    (inbound : List Byte) (packets : List (Target × List Byte)) : Prop :=
  ∀ p, (Port.system recv true inbound).Reaches Lts.anyStep (Port.new true inbound) p →
    p.successes.map Prod.snd <+: packets

/-- Whatever happens to the calls of `send`, the stream has the packets of the sends that
succeeded, and then at most one more or a part of it, of a send that did not succeed. -/
def SendsInOrder {σ : Type} (send : Target × List Byte → Except String (Job σ Byte Unit)) (s : σ)
    (encode : List (Target × List Byte) → List Byte) : Prop :=
  ∀ p, (Port.system send s []).Reaches Lts.anyStep (Port.new s []) p →
    p.outbound = encode (p.successes.map Prod.fst) ∨
      ∃ args, p.Unsettled args ∧ encode (p.successes.map Prod.fst) <+: p.outbound ∧
        p.outbound <+: encode (p.successes.map Prod.fst ++ [args])

theorem udpSession_receives (own : Target) {packets : List (List Byte)}
    (h : ∀ bytes ∈ packets, bytes.length ≤ UdpSession.maxPayload) :
    ReceivesInOrder (UdpSession.recv own) (packets.flatMap UdpSession.frame)
      (packets.map (own, ·)) := by
  intro p hreach
  obtain ⟨usable, inbound, outbound, w, ⟨-, -, rest, -, hpackets, -⟩, -⟩ :=
    (UdpSession.recv_serves own packets).reached ⟨rfl, rfl, packets, rfl, rfl, h⟩ hreach
  exact ⟨rest.map (own, ·), hpackets.symm⟩

theorem udpSession_sends (own : Target) :
    SendsInOrder (UdpSession.send own) true UdpSession.wire := by
  intro p hreach
  obtain ⟨usable, inbound, outbound, w, ⟨rfl, rfl⟩, hout, hw⟩ :=
    (UdpSession.send_serves own).reached ⟨rfl, rfl⟩ hreach
  rcases hw with rfl | ⟨args, t, hunsettled, hprog, hw⟩
  · exact .inl (hout.trans (append_nil _))
  · obtain ⟨-, -, rfl⟩ := UdpSession.send_eq_ok_iff.mp hprog
    rw [UdpSession.eval_sendLocked] at hw
    refine .inr ⟨args, hunsettled, hout ▸ prefix_append _ _, ?_⟩
    rw [hout, UdpSession.wire_snoc]
    exact (prefix_append_right_inj _).mpr hw

section

variable [IpText]

theorem session_receives (own : Target) (frames : List InboundFrame) :
    ReceivesInOrder (Session.recv own) (Xudp.stream frames)
      (frames.filterMap (InboundFrame.packet own)) := by
  intro p hreach
  obtain ⟨usable, inbound, outbound, w, ⟨-, -, rest, -, hframes⟩, -⟩ :=
    (Session.recv_serves own frames).reached ⟨rfl, rfl, frames, rfl, rfl⟩ hreach
  exact ⟨_, hframes.symm⟩

theorem session_sends (own : Target) :
    SendsInOrder (Session.send own) Session.Writer.new Session.wire := by
  intro p hreach
  obtain ⟨writer, inbound, outbound, w, ⟨rfl, rfl⟩, hout, hw⟩ :=
    (Session.send_serves own).reached ⟨rfl, rfl⟩ hreach
  rcases hw with rfl | ⟨args, t, hunsettled, hprog, hw⟩
  · exact .inl (hout.trans (append_nil _))
  · obtain ⟨-, rfl⟩ := Session.send_eq_ok_iff.mp hprog
    have hframe : w <+: Session.frame p.successes.isEmpty args := by
      rw [Session.eval_sendLocked] at hw
      rw [Session.frame]
      cases hpacket : Xudp.packet Session.sessionId args.1 args.2 p.successes.isEmpty none
        with
      | error e | ok bytes => rwa [hpacket] at hw
    refine .inr ⟨args, hunsettled, hout ▸ prefix_append _ _, ?_⟩
    rw [hout, Session.wire_snoc, isEmpty_map]
    exact (prefix_append_right_inj _).mpr hframe

/-- **Cancelled calls never desynchronise a datagram session**, for both kinds of session. -/
theorem sessions_stay_in_step (own : Target) (packets : List (List Byte))
    (hpackets : ∀ bytes ∈ packets, bytes.length ≤ UdpSession.maxPayload)
    (frames : List InboundFrame) :
    ReceivesInOrder (UdpSession.recv own) (packets.flatMap UdpSession.frame)
        (packets.map (own, ·)) ∧
      ReceivesInOrder (Session.recv own) (Xudp.stream frames)
        (frames.filterMap (InboundFrame.packet own)) ∧
      SendsInOrder (UdpSession.send own) true UdpSession.wire ∧
      SendsInOrder (Session.send own) Session.Writer.new Session.wire :=
  ⟨udpSession_receives own hpackets, session_receives own frames, udpSession_sends own,
    session_sends own⟩

end

/-- A packet received in two pieces, then a call that is dropped with a part of the next
one, and a call after it. -/
def droppedInPacket : List (Port.Action Unit) :=
  [.start (), .read 2, .read 1, .start (), .read 1, .cancel, .start ()]

theorem sessions_stay_in_step_droppedInPacket :
    ∃ p, (Port.system (UdpSession.recv ⟨['a'], 53⟩) true [0, 1, 7, 0, 1, 8]).Reaches
        Lts.anyStep (Port.new true [0, 1, 7, 0, 1, 8]) p ∧
      p.log.length = 3 ∧ p.inbound = [1, 8] ∧
      p.successes.map Prod.snd <+: [(⟨['a'], 53⟩, [7]), (⟨['a'], 53⟩, [8])] := by
  obtain ⟨p, hreach, hp⟩ : ∃ p, (Port.system (UdpSession.recv ⟨['a'], 53⟩) true
      [0, 1, 7, 0, 1, 8]).Reaches Lts.anyStep (Port.new true [0, 1, 7, 0, 1, 8]) p ∧
        (p.log.length == 3 && p.inbound == [1, 8]) = true :=
    Lts.run_any _ droppedInPacket rfl
  rw [Bool.and_eq_true, beq_iff_eq, beq_iff_eq] at hp
  exact ⟨p, hreach, hp.1, hp.2, (@sessions_stay_in_step .namesOnly ⟨['a'], 53⟩ [[7], [8]]
    (by decide) []).1 p hreach⟩

/-- A send that is dropped in its flush. -/
def unflushed : List (Port.Action (Target × List Byte)) :=
  [.start (⟨['a'], 53⟩, [7]), .write 2, .write 1, .cancel]

theorem unflushed_packet_is_complete :
    ∃ p, (Port.system (UdpSession.send ⟨['a'], 53⟩) true []).Reaches Lts.anyStep
        (Port.new true []) p ∧
      ¬ ∃ n w, p.outbound =
          UdpSession.wire ((p.successes.map Prod.fst).take n) ++ w ∧
        ∃ bytes : List Byte, bytes.length ≤ UdpSession.maxPayload ∧
          w <+: UdpSession.frame bytes ∧ w ≠ UdpSession.frame bytes := by
  obtain ⟨p, hreach, hp⟩ : ∃ p, (Port.system (UdpSession.send ⟨['a'], 53⟩) true []).Reaches
      Lts.anyStep (Port.new true []) p ∧
        (p.outbound == [0, 1, 7] && p.successes.isEmpty) = true :=
    Lts.run_any _ unflushed rfl
  rw [Bool.and_eq_true, beq_iff_eq, List.isEmpty_iff] at hp
  refine ⟨p, hreach, ?_⟩
  rintro ⟨n, w, hout, bytes, hmax, hw, hne⟩
  rw [hp.1, hp.2, map_nil, take_nil] at hout
  subst hout
  -- the length field leaves one payload byte, so the packet ends with it
  obtain ⟨rest, hrest⟩ := hw
  have hfield : ([0, 1] : List Byte) = be16 bytes.length ∧ [7] ++ rest = bytes :=
    append_inj hrest rfl
  have hlength : bytes.length = 1 := by
    have hmax' : UdpSession.maxPayload = 65507 := rfl
    have hnumber : fromBe (be16 bytes.length) = bytes.length := fromBe_be16 (by omega)
    rw [← hnumber, ← hfield.1]
    rfl
  have hnil : rest = [] := by
    rw [← hfield.2] at hlength
    exact length_eq_zero_iff.mp (by simpa using hlength)
  rw [← hrest, hnil] at hne
  exact hne rfl

end ClashMeta.Datagram
