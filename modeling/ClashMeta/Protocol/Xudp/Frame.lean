import ClashMeta.Protocol.Target

/-!
# XUDP frames (protocol/src/xudp.rs)

A frame is a two-byte metadata length, the session id, a status and options,
optionally a network byte with an address (and, on a first packet, the global
id), and for data frames a two-byte payload length with the payload.
`packet` builds the data frames a session sends, `endFrame` the six bytes a
dropped session's task writes.
-/

namespace ClashMeta.Xudp

/-- The status of the first frame of a session. -/
def statusNew : Byte := 1
/-- The status of a packet. -/
def statusKeep : Byte := 2
/-- The status that ends a session. -/
def statusEnd : Byte := 3
/-- The status of a frame that says nothing. -/
def statusKeepalive : Byte := 4
/-- The option that a payload follows. -/
def optionData : Byte := 1
/-- The network byte of UDP. -/
def networkUdp : Byte := 2
/-- `MAX_PAYLOAD`. -/
def maxPayload : Nat := 65507

/-- The 8-byte id that ties a flow to its inbound source. -/
abbrev GlobalId := Vector Byte 8

variable [IpText]

/-- The metadata of a data frame: everything its length field counts. -/
def packetMetadata (sessionId : UInt16) (address : List Byte) (first : Bool)
    (globalId : Option GlobalId) : List Byte :=
  be16 sessionId.toNat ++ [if first then statusNew else statusKeep, optionData, networkUdp] ++
    address ++ (if first then (globalId.map Vector.toList).getD [] else [])

/-- `packet` (xudp.rs:338-358). -/
def packet (sessionId : UInt16) (target : Target) (payload : List Byte) (first : Bool)
    (globalId : Option GlobalId) : Except String (List Byte) :=
  if maxPayload < payload.length then .error "XUDP payload exceeds limit"
  else do
    let address ← Vless.encodeAddress target
    let metadata := packetMetadata sessionId address first globalId
    return be16 metadata.length ++ metadata ++ be16 payload.length ++ payload

/-- The close frame of `MuxSession::drop` (xudp.rs:329). -/
def endFrame (id : UInt16) : List Byte := be16 4 ++ be16 id.toNat ++ [statusEnd, 0]

/-- What the physical stream may carry: an output of `packet`, or a close
frame. -/
def IsFrame (bytes : List Byte) : Prop :=
  (∃ id target payload first globalId, packet id target payload first globalId = .ok bytes) ∨
    ∃ id, bytes = endFrame id

theorem isFrame_packet {id : UInt16} {target : Target} {payload bytes : List Byte}
    {first : Bool} {globalId : Option GlobalId}
    (h : packet id target payload first globalId = .ok bytes) : IsFrame bytes :=
  .inl ⟨id, target, payload, first, globalId, h⟩

theorem isFrame_endFrame (id : UInt16) : IsFrame (endFrame id) :=
  .inr ⟨id, rfl⟩

theorem IsFrame.ne_nil {bytes : List Byte} (h : IsFrame bytes) : bytes ≠ [] := by
  rcases h with ⟨id, target, payload, first, globalId, hp⟩ | ⟨id, rfl⟩
  · unfold packet at hp
    split at hp
    · cases hp
    · cases ha : Vless.encodeAddress target with
      | error e => simp [ha, bind, Except.bind] at hp
      | ok address =>
        simp only [ha, bind, Except.bind, pure, Except.pure, Except.ok.injEq] at hp
        rw [← hp]
        simp [be16]
  · simp [endFrame, be16]

end ClashMeta.Xudp
