import ClashMeta.Protocol.Vless.AddressRoundTrip
import ClashMeta.Protocol.Xudp.Framing

/-!
# XUDP packets read back

`packet` (protocol/src/xudp.rs:338-358) against the reads of `read_multiplexed`
(xudp.rs:223-242). The reader asks for the length field, the metadata, the payload length and
the payload; the stream hands it pieces, each no longer than what is asked for.
-/

namespace ClashMeta.Xudp

open List Vless

section

variable [IpText]

namespace Phase

/-- The reader after some pieces. -/
def feedAll : Phase → List (List Byte) → Except String Phase
  | p, [] => .ok p
  | p, piece :: pieces => do
    let p ← p.feed piece
    p.feedAll pieces

/-- Pieces that a stream can hand to the reader: none is empty or longer than what the read
under way wants. -/
def Served : Phase → List (List Byte) → Prop
  | _, [] => True
  | p, piece :: pieces =>
    0 < piece.length ∧ piece.length ≤ p.wants ∧ ∀ p', p.feed piece = .ok p' → p'.Served pieces

end Phase

/-! ## One frame, whatever follows -/

variable {f : InboundFrame} {rest : List Byte} {p : Phase}

/-- Inside a frame the reader never wants more than the rest of it, and wants something unless
the frame is complete. -/
theorem Stands.wants_le (h : Stands p rest [f]) (hp : ∀ r item, p ≠ .delivering r item) :
    p.wants ≤ rest.length ∧ (p.wants = 0 ↔ rest = []) ∧
      (p.wants = 0 → p = .routing f.metadata f.payload) := by
  -- a read under way wants something, and no more than what is left
  have hreading : 0 < p.wants → p.wants ≤ rest.length → _ := fun hpos hle =>
    (⟨hle, ⟨fun hzero => absurd hzero hpos.ne', fun hnil => absurd hle (by
      rw [hnil, length_nil]
      omega)⟩, fun hzero => absurd hzero hpos.ne'⟩ : p.wants ≤ rest.length ∧
        (p.wants = 0 ↔ rest = []) ∧ (p.wants = 0 → p = .routing f.metadata f.payload))
  cases h with
  | length hlength h =>
    have hall := congrArg List.length h
    rw [stream_cons] at hall
    simp only [length_append, length_be16] at hall
    exact hreading (by simp only [Phase.wants]; omega) (by simp only [Phase.wants]; omega)
  | header hlength h | payload hpayload hlength h =>
    have hall := congrArg List.length h
    simp only [length_append] at hall
    exact hreading (by simp only [Phase.wants]; omega) (by simp only [Phase.wants]; omega)
  | payloadLength hpayload hlength h =>
    have hall := congrArg List.length h
    simp only [length_append, length_be16] at hall
    exact hreading (by simp only [Phase.wants]; omega) (by simp only [Phase.wants]; omega)
  | routing h => exact ⟨Nat.zero_le _, iff_of_true rfl h, fun _ => rfl⟩
  | delivering h => exact absurd rfl (hp _ _)

variable {pieces : List (List Byte)} {behind tail payload : List Byte}

/-- **Pieces of a frame keep the reader in it**, by induction on the pieces: it stands somewhere
in the frame, with the rest of the frame still to come. -/
theorem Stands.feedAll (h : Stands p rest [f]) (hp : ∀ r item, p ≠ .delivering r item)
    (hserved : p.Served pieces) (heq : pieces.flatten ++ tail = rest ++ behind) :
    ∃ p' rest', p.feedAll pieces = .ok p' ∧ Stands p' rest' [f] ∧
      (∀ r item, p' ≠ .delivering r item) ∧ rest = pieces.flatten ++ rest' ∧
      tail = rest' ++ behind := by
  induction pieces generalizing p rest with
  | nil => exact ⟨p, rest, rfl, h, hp, rfl, heq⟩
  | cons piece pieces ih =>
    obtain ⟨hpos, hwants, hserved⟩ := hserved
    have hle := (h.wants_le hp).1
    -- the piece lies in the frame
    obtain ⟨rest₁, rfl⟩ : ∃ rest₁, rest = piece ++ rest₁ := by
      rw [flatten_cons, append_assoc] at heq
      rcases append_eq_append_iff.mp heq with ⟨a, rfl, -⟩ | ⟨a, rfl, -⟩
      · exact ⟨a, rfl⟩
      · have ha : a = [] := by
          rw [length_append] at hwants
          exact length_eq_zero_iff.mp (by omega)
        exact ⟨[], by rw [ha, append_nil, append_nil]⟩
    obtain ⟨p₁, hfeed, hstands⟩ := h.feed hpos hwants
    have heq₁ : pieces.flatten ++ tail = rest₁ ++ behind := by
      rw [flatten_cons, append_assoc, append_assoc] at heq
      exact append_cancel_left heq
    obtain ⟨p', rest', hall, hstands', hp', hrest, htail⟩ :=
      ih hstands (feed_ne_delivering hp hfeed) (hserved p₁ hfeed) heq₁
    refine ⟨p', rest', Except.bind_eq_ok_iff.mpr ⟨p₁, hfeed, hall⟩, hstands', hp', ?_, htail⟩
    rw [hrest, flatten_cons, append_assoc]

theorem stands_frame (f : InboundFrame) : Stands .idle f.bytes [f] := by
  have hstart := stands_idle [f]
  rwa [stream, flatMap_singleton] at hstart

/-- **A frame is read whole, and nothing behind it**: whatever follows and however the stream is
cut, no piece of the frame is refused, and the reader is done exactly when it has got the bytes
of the frame. -/
theorem feedAll_frame (f : InboundFrame) (hserved : Phase.idle.Served pieces)
    (heq : pieces.flatten ++ tail = f.bytes ++ behind) :
    ∃ p, Phase.idle.feedAll pieces = .ok p ∧ (p.wants = 0 ↔ pieces.flatten = f.bytes) ∧
      (p.wants = 0 → p = .routing f.metadata f.payload ∧ tail = behind) := by
  obtain ⟨p, rest, hall, hstands, hp, hrest, htail⟩ :=
    (stands_frame f).feedAll (fun r item h => (by cases h)) hserved heq
  obtain ⟨-, hdone, hphase⟩ := hstands.wants_le hp
  refine ⟨p, hall, ?_, fun hzero => ⟨hphase hzero, ?_⟩⟩
  · rw [hdone, hrest]
    constructor
    · rintro rfl
      rw [append_nil]
    · intro hflat
      exact append_right_eq_self.mp hflat.symm
  · rw [htail, hdone.mp hzero, nil_append]

theorem Stands.served_bytes (h : Stands p rest [f]) (hp : ∀ r item, p ≠ .delivering r item) :
    p.Served (rest.map fun b => [b]) := by
  induction rest generalizing p with
  | nil => trivial
  | cons b rest ih =>
    have hwants : 0 < p.wants := pos_of_ne_zero fun hzero =>
      absurd ((h.wants_le hp).2.1.mp hzero) (cons_ne_nil b rest)
    refine ⟨one_pos, hwants, fun p' hfeed => ?_⟩
    have hcut : Stands p ([b] ++ rest) [f] := h
    obtain ⟨p₁, hfeed₁, hstands⟩ := hcut.feed one_pos hwants
    cases hfeed.symm.trans hfeed₁
    exact ih hstands (feed_ne_delivering hp hfeed)

theorem exists_served (f : InboundFrame) :
    ∃ pieces, Phase.idle.Served pieces ∧ pieces.flatten = f.bytes := by
  refine ⟨_, (stands_frame f).served_bytes fun r item h => (by cases h), ?_⟩
  rw [← flatMap_def, flatMap_singleton']

/-! ## Packets -/

variable {t : Target}

theorem length_addressBody_le (h : Target.new t.host t.port = .ok t) :
    (addressBody t).length ≤ 255 := by
  have hshort := (Target.host_of_new h).1
  unfold addressBody
  split
  · rw [length_cons, IpAddr.octets, length_beBytes]
    decide
  · rw [length_cons, IpAddr.octets, length_beBytes]
    decide
  · simp only [length_append, length_cons, length_nil, length_utf8Bytes]
    omega

omit [IpText] in
theorem keep_status_ok :
    statusKeep = statusKeep ∨ statusKeep = statusEnd ∨ statusKeep = statusKeepalive := .inl rfl

omit [IpText] in
theorem keep_ne_keepalive : statusKeep ≠ statusKeepalive := by decide

/-- A packet of a running session, as a frame from the peer. -/
def packetFrame (id : UInt16) (t : Target) (payload : List Byte)
    (ht : Target.new t.host t.port = .ok t) (hpayload : payload.length ≤ maxPayload) :
    InboundFrame where
  id := id
  status := statusKeep
  address := networkUdp :: (be16 t.port.toNat ++ Vless.addressBody t)
  target := some t
  payload := some payload
  status_ok := keep_status_ok
  address_ok := .inr ⟨rfl, _, t, rfl, by
    have hwhole := Vless.decodeAddress_encoding ht []
    rwa [List.append_nil] at hwhole, rfl⟩
  length_ok := by
    have hle := length_addressBody_le ht
    have hmax : maxMetadata = 512 := rfl
    simp only [List.length_cons, List.length_append, length_be16]
    omega
  keepalive_ok := fun h => absurd h keep_ne_keepalive
  payload_ok := fun bytes h => by
    cases h
    exact hpayload

variable {id : UInt16}

section

variable (ht : Target.new t.host t.port = .ok t)
include ht

theorem packet_eq (hpayload : payload.length ≤ maxPayload)
    (first : Bool) (globalId : Option GlobalId) :
    packet id t payload first globalId =
      .ok (be16 (packetMetadata id (be16 t.port.toNat ++ addressBody t) first
          globalId).length ++
        packetMetadata id (be16 t.port.toNat ++ addressBody t) first globalId ++
        be16 payload.length ++ payload) := by
  unfold packet
  rw [if_neg (not_lt.mpr hpayload), encodeAddress_eq ht]
  rfl

theorem bytes_packetFrame
    (hpayload : payload.length ≤ maxPayload) (globalId : Option GlobalId) :
    packet id t payload false globalId = .ok (packetFrame id t payload ht hpayload).bytes := by
  have hheader : packetMetadata id (be16 t.port.toNat ++ addressBody t) false globalId =
      (packetFrame id t payload ht hpayload).header := by
    unfold packetMetadata
    rw [if_neg nofun, if_neg nofun, append_nil]
    rfl
  rw [packet_eq ht hpayload, hheader, append_assoc]
  rfl

/-- The length of the metadata fits into its field and the reader's limits, with the global id
too. -/
theorem length_packetMetadata (id : UInt16) (first : Bool)
    (globalId : Option GlobalId) :
    4 ≤ (packetMetadata id (be16 t.port.toNat ++ addressBody t) first globalId).length ∧
      (packetMetadata id (be16 t.port.toNat ++ addressBody t) first globalId).length ≤
        maxMetadata := by
  have hle := length_addressBody_le ht
  have hmax : maxMetadata = 512 := rfl
  have hid : (if first then (globalId.map Vector.toList).getD [] else []).length ≤ 8 := by
    cases first with
    | false => exact Nat.zero_le 8
    | true =>
      cases globalId with
      | none => exact Nat.zero_le 8
      | some g => exact le_of_eq g.length_toList
  unfold packetMetadata
  simp only [length_append, length_cons, length_nil, length_be16]
  omega

end

/-- **XUDP packets are read back.** For every target that `Target::new` makes and every payload
within the limit, `packet` gives a frame whose length fields hold the lengths of the metadata and
of the payload; the metadata has between 4 and 512 bytes, with or without a global id. The frame
of a running session, followed by anything and cut into any pieces, is read without an error, and
the reader is done when it has got exactly the frame: with the id, the status `KEEP`, the data
flag, the target and the payload. -/
theorem packet_roundTrip (hlawful : IpText.Lawful) (id : UInt16) {host : Str} {port : UInt16}
    {t : Target} (ht : Target.new host port = .ok t) {payload : List Byte}
    (hpayload : payload.length ≤ maxPayload) :
    (∀ first globalId, ∃ address, encodeAddress t = .ok address ∧
      packet id t payload first globalId = .ok (be16 (packetMetadata id address first
        globalId).length ++ packetMetadata id address first globalId ++ be16 payload.length ++
        payload) ∧
      4 ≤ (packetMetadata id address first globalId).length ∧
      (packetMetadata id address first globalId).length ≤ maxMetadata ∧
      fromBe (be16 (packetMetadata id address first globalId).length) =
        (packetMetadata id address first globalId).length ∧
      fromBe (be16 payload.length) = payload.length) ∧
    ∀ globalId, ∃ frame, packet id t payload false globalId = .ok frame ∧
      (∃ pieces, Phase.idle.Served pieces ∧ pieces.flatten = frame) ∧
      ∀ behind pieces tail, Phase.idle.Served pieces → pieces.flatten ++ tail = frame ++ behind →
        ∃ p, Phase.idle.feedAll pieces = .ok p ∧ (p.wants = 0 ↔ pieces.flatten = frame) ∧
          (p.wants = 0 → p = .routing ⟨⟨id, statusKeep, some t⟩, true⟩ (some payload) ∧
            tail = behind) := by
  have hvalid := Target.new_of_new hlawful ht
  constructor
  · intro first globalId
    obtain ⟨hfour, hmax⟩ := length_packetMetadata hvalid id first globalId
    refine ⟨_, encodeAddress_eq hvalid, packet_eq hvalid hpayload first globalId, hfour, hmax,
      fromBe_be16 (lt_of_le_of_lt hmax (by decide)),
      fromBe_be16 (lt_of_le_of_lt hpayload (by decide))⟩
  · intro globalId
    refine ⟨_, bytes_packetFrame hvalid hpayload globalId, exists_served _,
      fun behind pieces tail hserved heq => feedAll_frame _ hserved heq⟩

end

section

local instance packetText : IpText := .std

/-- A packet to the loopback address is read back. -/
theorem packet_roundTrip_std : Target.new "0:0::1" 443 = .ok loopbackTarget ∧
    ∃ frame pieces, packet 7 loopbackTarget [1, 2] false none = .ok frame ∧
      pieces.flatten = frame ∧ Phase.idle.feedAll pieces =
        .ok (.routing ⟨⟨7, statusKeep, some loopbackTarget⟩, true⟩ (some [1, 2])) := by
  have hnew : Target.new "0:0::1" 443 = .ok loopbackTarget := by decide +kernel
  have hpayload : [(1 : Byte), 2].length ≤ maxPayload := by decide
  obtain ⟨frame, hframe, ⟨pieces, hserved, hflat⟩, hread⟩ :=
    (packet_roundTrip IpText.lawful_std 7 hnew hpayload).2 none
  obtain ⟨p, hall, hdone, hphase⟩ := hread [] pieces [] hserved (by rw [hflat])
  refine ⟨hnew, frame, pieces, hframe, hflat, ?_⟩
  rw [hall, (hphase (hdone.mpr hflat)).1]

end

end ClashMeta.Xudp
