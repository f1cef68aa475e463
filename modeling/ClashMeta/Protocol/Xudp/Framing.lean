import ClashMeta.Lib.Checked
import ClashMeta.Protocol.Xudp.RecvSteps

/-!
# The reader follows the frames on the wire

`InboundFrame` is a frame of the peer by its layout: an id, one of the three statuses
without the error option, an address on KEEP frames only, a payload on KEEP and END
frames. `Stands` says where the reader is in a stream of such frames, whatever pieces
the bytes came in. A piece never throws it off (`Stands.feed`), so the frames looked
up are the frames sent, in order.
-/

namespace ClashMeta.Xudp

open List Phase

theorem bare_length_ok : ([] : List Byte).length + 4 ≤ maxMetadata := by decide

theorem none_payload_ok (bytes : List Byte) (h : none = some bytes) :
    bytes.length ≤ maxPayload := by cases h

variable [IpText]

/-- A well-formed frame from the peer. -/
structure InboundFrame where
  id : UInt16
  status : Byte
  /-- the network byte and the address, or nothing -/
  address : List Byte
  target : Option Target
  payload : Option (List Byte)
  status_ok : status = statusKeep ∨ status = statusEnd ∨ status = statusKeepalive
  address_ok : (address = [] ∧ target = none) ∨
    (status = statusKeep ∧ ∃ bytes t, address = networkUdp :: bytes ∧
      Vless.decodeAddress bytes = .ok (t, bytes.length) ∧ target = some t)
  length_ok : address.length + 4 ≤ maxMetadata
  keepalive_ok : status = statusKeepalive → payload = none
  payload_ok : ∀ bytes, payload = some bytes → bytes.length ≤ maxPayload

/-- An END frame. -/
def closeFrame (id : UInt16) : InboundFrame where
  id := id
  status := statusEnd
  address := []
  target := none
  payload := none
  status_ok := .inr (.inl rfl)
  address_ok := .inl ⟨rfl, rfl⟩
  length_ok := bare_length_ok
  keepalive_ok := fun _ => rfl
  payload_ok := none_payload_ok

namespace InboundFrame

variable (f : InboundFrame)

/-- The options: a payload follows, or not. -/
def options : Byte := if f.payload.isSome then optionData else 0

/-- The metadata bytes under some options. -/
def headerWith (options : Byte) : List Byte :=
  be16 f.id.toNat ++ [f.status, options] ++ f.address

/-- The metadata bytes. -/
def header : List Byte := f.headerWith f.options

/-- What follows the metadata. -/
def body : List Byte :=
  match f.payload with
  | none => []
  | some bytes => be16 bytes.length ++ bytes

/-- The frame on the wire, under some options. -/
def bytesWith (options : Byte) : List Byte :=
  be16 (f.headerWith options).length ++ f.headerWith options ++ f.body

/-- The frame on the wire. -/
def bytes : List Byte := f.bytesWith f.options

/-- The metadata as the reader sees it. -/
def metadata : Metadata := ⟨⟨f.id, f.status, f.target⟩, f.payload.isSome⟩

theorem length_headerWith (options : Byte) :
    (f.headerWith options).length = f.address.length + 4 := by
  simp [headerWith, length_be16]
  omega

theorem length_header : f.header.length = f.address.length + 4 := f.length_headerWith _

theorem metadataTarget_header : metadataTarget f.header f.status = .ok f.target := by
  have hdrop : f.header.drop 4 = f.address := rfl
  unfold metadataTarget
  rw [hdrop]
  obtain ⟨ha, ht⟩ | ⟨hstatus, bytes, t, ha, hdecode, ht⟩ := f.address_ok
  · rw [ha, ht]
  · rw [ha]
    dsimp only
    rw [if_neg (by simp [hstatus]), hdecode]
    show (if bytes.length + 5 ≠ f.header.length then _ else _) = _
    rw [if_neg, ht]
    · rfl
    · rw [length_header, ha, length_cons]
      omega

theorem header_eq : f.header = UInt8.ofNat (f.id.toNat / 256) :: UInt8.ofNat f.id.toNat ::
    f.status :: f.options :: f.address := rfl

theorem length_header_le : f.header.length ≤ maxMetadata := by
  exact f.length_ok

/-- Only the data bit may be set. -/
theorem options_ok : f.options &&& ~~~(optionData ||| optionError) = 0 ∧
    f.options &&& optionError = 0 ∧
    decide (f.options &&& optionData ≠ 0) = f.payload.isSome := by
  rw [options]
  cases f.payload.isSome <;> decide

theorem options_of_keepalive (h : f.status = statusKeepalive) : f.options = 0 := by
  rw [options, f.keepalive_ok h]
  rfl

/-- The header is read back. -/
theorem multiplexedMetadata_header : multiplexedMetadata f.header = .ok f.metadata := by
  have hlength : ¬ maxMetadata < f.header.length := not_lt.mpr f.length_header_le
  have hoptions := f.options_ok
  have hid : UInt16.ofNat (fromBe16 (UInt8.ofNat (f.id.toNat / 256)) (UInt8.ofNat f.id.toNat)) =
      f.id := by
    rw [fromBe16_be16 f.id.toNat_lt, UInt16.ofNat_toNat]
  have hstatus : ¬ (f.status ≠ statusKeep ∧ f.status ≠ statusEnd ∧ f.status ≠ statusKeepalive) := by
    rintro ⟨h₁, h₂, h₃⟩
    rcases f.status_ok with h | h | h
    · exact h₁ h
    · exact h₂ h
    · exact h₃ h
  have hkeepalive : ¬ (f.status = statusKeepalive ∧ f.options ≠ 0) := fun h =>
    h.2 (f.options_of_keepalive h.1)
  have htarget := f.metadataTarget_header
  rw [header_eq] at hlength htarget ⊢
  unfold multiplexedMetadata
  dsimp only
  rw [if_neg hlength, if_neg (by simp [hoptions.1]), if_neg (by simp [hoptions.2.1]),
    if_neg hstatus, htarget]
  show (if _ then _ else _) = _
  rw [if_neg hkeepalive, hid, hoptions.2.2]
  rfl

end InboundFrame

/-- The bytes of a stream of frames. -/
def stream (frames : List InboundFrame) : List Byte := frames.flatMap InboundFrame.bytes

theorem stream_cons (f : InboundFrame) (frames : List InboundFrame) :
    stream (f :: frames) = be16 f.header.length ++ (f.header ++ (f.body ++ stream frames)) := by
  simp [stream, InboundFrame.bytes, InboundFrame.bytesWith, InboundFrame.header, append_assoc]

/-! ## Where the reader stands -/

/-- The reader in a phase, with these bytes still to come, has these frames still to
look up. -/
inductive Stands : Phase → List Byte → List InboundFrame → Prop where
  | length {got rest : List Byte} {frames : List InboundFrame} (hlength : got.length < 2)
      (h : got ++ rest = stream frames) : Stands (.length got) rest frames
  | header {got rest : List Byte} {f : InboundFrame} {frames : List InboundFrame}
      (hlength : got.length < f.header.length)
      (h : got ++ rest = f.header ++ (f.body ++ stream frames)) :
      Stands (.header f.header.length got) rest (f :: frames)
  | payloadLength {got rest bytes : List Byte} {f : InboundFrame} {frames : List InboundFrame}
      (hpayload : f.payload = some bytes) (hlength : got.length < 2)
      (h : got ++ rest = be16 bytes.length ++ (bytes ++ stream frames)) :
      Stands (.payloadLength f.metadata got) rest (f :: frames)
  | payload {got rest bytes : List Byte} {f : InboundFrame} {frames : List InboundFrame}
      (hpayload : f.payload = some bytes) (hlength : got.length < bytes.length)
      (h : got ++ rest = bytes ++ stream frames) :
      Stands (.payload f.metadata bytes.length got) rest (f :: frames)
  | routing {rest : List Byte} {f : InboundFrame} {frames : List InboundFrame}
      (h : rest = stream frames) : Stands (.routing f.metadata f.payload) rest (f :: frames)
  | delivering {rest : List Byte} {frames : List InboundFrame} {r : Route} {item : RoutedPacket}
      (h : rest = stream frames) : Stands (.delivering r item) rest frames

theorem stands_idle (frames : List InboundFrame) : Stands .idle (stream frames) frames :=
  .length (by decide) rfl

variable {chunk got rest bytes : List Byte}

variable {p : Phase}

theorem feed_complete (h : (p.append chunk).wants = 0) :
    p.feed chunk = (p.append chunk).complete := if_pos h

theorem feed_more (h : (p.append chunk).wants ≠ 0) : p.feed chunk = .ok (p.append chunk) := if_neg h

omit [IpText] in
theorem append_ne_delivering (hp : ∀ r item, p ≠ .delivering r item) (r : Route)
    (item : RoutedPacket) : p.append bytes ≠ .delivering r item := by
  intro heq
  cases p with
  | delivering r' item' => exact hp r' item' rfl
  | _ => cases heq

theorem complete_ne_delivering {p' : Phase} (hp : ∀ r item, p ≠ .delivering r item)
    (h : p.complete = .ok p') (r : Route) (item : RoutedPacket) : p' ≠ .delivering r item := by
  rintro rfl
  cases p with
  | delivering r' item' => exact hp r' item' rfl
  | length got =>
    rw [complete] at h
    split at h <;> cases h
  | header n got =>
    obtain ⟨m, -, hphase⟩ := Except.bind_eq_ok_iff.mp h
    split at hphase <;> cases hphase
  | payloadLength m got =>
    rw [complete] at h
    split at h
    · cases h
    split at h <;> cases h
  | payload m n got | routing m payload | stopped => cases h

theorem feed_ne_delivering {p' : Phase} (hp : ∀ r item, p ≠ .delivering r item)
    (h : p.feed chunk = .ok p') (r : Route) (item : RoutedPacket) : p' ≠ .delivering r item := by
  by_cases hdone : (p.append chunk).wants = 0
  · rw [feed_complete hdone] at h
    exact complete_ne_delivering (append_ne_delivering hp) h r item
  · rw [feed_more hdone] at h
    cases h
    exact append_ne_delivering hp r item

variable {frames : List InboundFrame} {f : InboundFrame}

/-- The length announces the header. -/
theorem Stands.complete_length (hrest : rest = f.header ++ (f.body ++ stream frames)) :
    ∃ p', (Phase.length (be16 f.header.length)).complete = .ok p' ∧
      Stands p' rest (f :: frames) := by
  have hok := f.length_ok
  have hheader := f.length_header
  have hmax : maxMetadata = 512 := rfl
  have hnumber : fromBe (be16 f.header.length) = f.header.length := fromBe_be16 (by omega)
  refine ⟨.header f.header.length [], ?_, .header (by rw [length_nil]; omega) hrest⟩
  simp only [complete, hnumber]
  rw [if_neg (by omega)]

/-- The header says whether a payload follows. -/
theorem Stands.complete_header (hrest : rest = f.body ++ stream frames) :
    ∃ p', (Phase.header f.header.length f.header).complete = .ok p' ∧
      Stands p' rest (f :: frames) := by
  have hdata : f.metadata.data = f.payload.isSome := rfl
  simp only [complete, f.multiplexedMetadata_header]
  show ∃ p', Except.ok (if f.metadata.data then _ else _) = Except.ok p' ∧ _
  cases hpayload : f.payload with
  | none =>
    refine ⟨.routing f.metadata f.payload, ?_, .routing ?_⟩
    · rw [hdata, hpayload]
      rfl
    · rw [hrest, InboundFrame.body, hpayload]
      rfl
  | some bytes =>
    refine ⟨.payloadLength f.metadata [], ?_, .payloadLength hpayload (by decide) ?_⟩
    · rw [hdata, hpayload]
      rfl
    · rw [nil_append, hrest, InboundFrame.body, hpayload, append_assoc]

/-- And its length how long it is. -/
theorem Stands.complete_payloadLength (hpayload : f.payload = some bytes)
    (hrest : rest = bytes ++ stream frames) :
    ∃ p', (Phase.payloadLength f.metadata (be16 bytes.length)).complete = .ok p' ∧
      Stands p' rest (f :: frames) := by
  have hok := f.payload_ok bytes hpayload
  have hmax : maxPayload = 65507 := rfl
  have hnumber : fromBe (be16 bytes.length) = bytes.length := fromBe_be16 (by omega)
  simp only [complete, hnumber]
  rw [if_neg (by omega)]
  by_cases hzero : bytes.length = 0
  · -- an empty payload needs no further read
    obtain rfl := length_eq_zero_iff.mp hzero
    exact ⟨_, rfl, hpayload ▸ .routing hrest⟩
  · rw [if_neg hzero]
    exact ⟨_, rfl, .payload hpayload (by rw [length_nil]; omega) hrest⟩

/-- The part `whole` of the stream that a phase reads, of which it has `got`, goes on with a
piece, or is complete with it. -/
theorem Stands.feed_part {whole tail : List Byte} (h : got ++ (chunk ++ rest) = whole ++ tail)
    (hle : chunk.length ≤ whole.length - got.length) (hlt : got.length < whole.length)
    (hwants : (p.append chunk).wants = whole.length - (got ++ chunk).length)
    (hmore : (got ++ chunk).length < whole.length → Stands (p.append chunk) rest frames)
    (hdone : got ++ chunk = whole → rest = tail →
      ∃ p', (p.append chunk).complete = .ok p' ∧ Stands p' rest frames) :
    ∃ p', p.feed chunk = .ok p' ∧ Stands p' rest frames := by
  have hlength : (got ++ chunk).length ≤ whole.length := by
    rw [length_append]
    omega
  rcases lt_or_eq_of_le hlength with hless | hall
  · rw [feed_more (by omega)]
    exact ⟨_, rfl, hmore hless⟩
  · rw [feed_complete (by omega)]
    rw [← append_assoc] at h
    obtain ⟨hgot, hrest⟩ := append_inj h hall
    exact hdone hgot hrest

/-- **A piece of the stream never throws the reader off.** -/
theorem Stands.feed (hstands : Stands p (chunk ++ rest) frames) (hpos : 0 < chunk.length)
    (hwants : chunk.length ≤ p.wants) : ∃ p', p.feed chunk = .ok p' ∧ Stands p' rest frames := by
  cases hstands with
  | @length got _ _ hlength h =>
    cases frames with
    | nil =>
      -- without a frame no byte comes
      have hnone := congrArg List.length h
      simp only [stream, flatMap_nil, length_append, length_nil] at hnone
      omega
    | cons f frames =>
      have h' := h
      rw [stream_cons] at h'
      refine Stands.feed_part h' hwants hlength rfl (fun hmore => ?_) fun hgot hrest => ?_
      · exact .length hmore (by rw [append_assoc]; exact h)
      · rw [Phase.append, hgot]
        exact Stands.complete_length hrest
  | header hlength h =>
    refine Stands.feed_part h hwants hlength rfl (fun hmore => ?_) fun hgot hrest => ?_
    · exact .header hmore (by rw [append_assoc]; exact h)
    · rw [Phase.append, hgot]
      exact Stands.complete_header hrest
  | payloadLength hpayload hlength h =>
    refine Stands.feed_part h hwants hlength rfl (fun hmore => ?_) fun hgot hrest => ?_
    · exact .payloadLength hpayload hmore (by rw [append_assoc]; exact h)
    · rw [Phase.append, hgot]
      exact Stands.complete_payloadLength hpayload hrest
  | payload hpayload hlength h =>
    refine Stands.feed_part h hwants hlength rfl (fun hmore => ?_) fun hgot hrest => ?_
    · exact .payload hpayload hmore (by rw [append_assoc]; exact h)
    · rw [Phase.append, hgot]
      exact ⟨_, rfl, hpayload ▸ .routing hrest⟩
  | routing h | delivering h => exact absurd hwants (not_le.mpr hpos)

end ClashMeta.Xudp
