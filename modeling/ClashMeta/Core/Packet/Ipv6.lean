import ClashMeta.Basic
import ClashMeta.Lib.Slice

/-!
# IPv6 packets and their fragments

The wire side of core/src/packet_ipv6.rs: how `Reassembly::accept` reads a packet down to its
fragment header (lines 38-69), how it puts a packet together (72-77, 135-139), and how
`fragment` cuts one into frames (143-179). The views of `smoltcp` (`Ipv6Packet`,
`Ipv6ExtHeader`, `Ipv6FragmentHeader`) follow its documentation: the accessors read the fields
of RFC 8200, and `new_checked` refuses a buffer too short for one of them.
-/

namespace ClashMeta.Ipv6

open List Slice Bool

/-- `MAX_PACKET`. -/
def maxPacket : Nat := 65535

/-! ## Reading a packet -/

/-- `IpProtocol::HopByHop`. -/
def hopByHop : Byte := 0
/-- `IpProtocol::Tcp`. -/
def tcp : Byte := 6
/-- `IpProtocol::Udp`. -/
def udp : Byte := 17
/-- `IpProtocol::Ipv6Route`. -/
def ipv6Route : Byte := 43
/-- `IpProtocol::Ipv6Frag`. -/
def ipv6Frag : Byte := 44
/-- `IpProtocol::Icmpv6`. -/
def icmpv6 : Byte := 58
/-- `IpProtocol::Ipv6Opts`. -/
def ipv6Opts : Byte := 60

/-- A byte of a view whose length has been checked. -/
def byte (bytes : List Byte) (i : Nat) : Byte := bytes.getD i 0

/-- `Ipv6Packet::payload_len`. -/
def payloadLen (bytes : List Byte) : Nat := fromBe16 (byte bytes 4) (byte bytes 5)

/-- `Ipv6Packet::new_checked` and the cut behind the payload (lines 41-42). -/
def checked (bytes : List Byte) : Option (List Byte) :=
  if 40 ≤ bytes.length ∧ 40 + payloadLen bytes ≤ bytes.length then
    some (bytes.take (40 + payloadLen bytes))
  else none

/-- `Ipv6ExtHeader::new_checked` behind an offset: the next header and the length. -/
def extHeader (bytes : List Byte) (offset : Nat) : Option (Byte × Nat) :=
  if offset + 8 ≤ bytes.length ∧
      offset + ((byte bytes (offset + 1)).toNat + 1) * 8 ≤ bytes.length then
    some (byte bytes offset, (byte bytes (offset + 1)).toNat)
  else none

/-- Where the extension headers end. The number that announces what stands at `offset` is
itself before it. -/
structure Chain where
  protocol : Byte
  offset : Nat
  previous : Nat
  forty_le : 40 ≤ offset := by omega
  previous_lt : previous < offset := by omega

/-- The loop over the extension headers (lines 46-58). -/
def walk (bytes : List Byte) : Nat → Chain → Option Chain
  | 0, chain => some chain
  | rounds + 1, chain =>
    if chain.protocol = hopByHop ∨ chain.protocol = ipv6Opts ∨ chain.protocol = ipv6Route then
      match extHeader bytes chain.offset with
      | none => none
      | some (next, length) =>
        have := chain.forty_le
        walk bytes rounds {
          protocol := next
          offset := chain.offset + (length + 1) * 8
          previous := chain.offset }
    else some chain

/-- `Key`: source, destination and identification. -/
structure Key where
  src : List Byte
  dst : List Byte
  ident : Nat
  deriving DecidableEq

/-- What is read of a fragment. -/
structure Fragment where
  key : Key
  /-- The bytes before the fragment header. -/
  head : List Byte
  /-- Where the number of the fragment header stands. -/
  previous : Nat
  next : Byte
  start : Nat
  more : Bool
  payload : List Byte
  deriving DecidableEq

namespace Fragment

variable (f : Fragment)

/-- Behind the last byte. -/
def stop : Nat := f.start + f.payload.length

/-- The only fragment of its packet. -/
def Atomic : Prop := f.more = false ∧ f.start = 0

instance : Decidable f.Atomic := inferInstanceAs (Decidable (_ ∧ _))

end Fragment

/-- What a packet is read as. -/
inductive Parsed where
  /-- Nothing is returned for it. -/
  | ignored
  /-- It is returned as it is. -/
  | whole (bytes : List Byte)
  | fragment (f : Fragment)

/-- The fragment header at an offset (lines 61-68). -/
def fragmentAt (bytes : List Byte) (offset previous : Nat) : Except Panic Parsed :=
  if offset + 8 ≤ bytes.length then do
    let next ← index bytes offset
    if next = ipv6Frag then return .ignored
    else do
      let head ← upTo bytes offset
      return .fragment {
        key := ⟨window bytes 8 16, window bytes 24 16, fromBe (window bytes (offset + 4) 4)⟩
        head := head
        previous := previous
        next := next
        start := fromBe16 (byte bytes (offset + 2)) (byte bytes (offset + 3)) / 8 * 8
        more := (byte bytes (offset + 3)).toNat % 2 = 1
        payload := bytes.drop (offset + 8) }
  else return .ignored

/-- The part of `accept` that reads the packet (lines 38-69). -/
def parse (bytes : List Byte) : Except Panic Parsed :=
  match bytes with
  | [] => .ok .ignored
  | first :: _ =>
    if first.toNat / 16 ≠ 6 then .ok (.whole bytes)
    else
      match checked bytes with
      | none => .ok .ignored
      | some bytes =>
        match walk bytes 8 { protocol := byte bytes 6, offset := 40, previous := 6 } with
        | none => .ok .ignored
        | some chain =>
          if chain.protocol ≠ ipv6Frag then .ok (.whole bytes)
          else fragmentAt bytes chain.offset chain.previous

/-- The packet of a head and a payload (lines 72-77 and 135-139): the number of the next header
replaces that of the fragment header, and the payload length is set. -/
def finish (head : List Byte) (previous : Nat) (next : Byte) (payload : List Byte) :
    Except Panic (List Byte) := do
  let head ← update head previous next
  let length ← sub (head ++ payload).length 40
  copy (head ++ payload) 4 6 (be16 (length % 65536))

/-! ## Cutting a packet -/

/-- The fixed header of a frame: that of the packet with another payload length and next
header. -/
def frameHeader (bytes : List Byte) (length : Nat) : List Byte :=
  bytes.take 4 ++ be16 length ++ [ipv6Frag] ++ (bytes.take 40).drop 7

/-- A frame (lines 163-175): `offset` counts in units of eight bytes. -/
def frame (bytes : List Byte) (ident offset : Nat) (more : Bool) (chunk : List Byte) : List Byte :=
  frameHeader bytes ((8 + chunk.length) % 65536) ++ [byte bytes 6, 0] ++
    be16 (offset % 65536 * 8 % 65536 + more.toNat) ++ beBytes 4 ident ++ chunk

/-- The step between the frames of an MTU. -/
def stepOf (mtu : Nat) : Nat := (mtu - 48) / 8 * 8

/-- The frame of the chunk at a position (lines 159-176). -/
def frameAt (bytes : List Byte) (mtu ident i : Nat) : List Byte :=
  let payload := window bytes 40 (payloadLen bytes)
  let chunk := window payload (i * stepOf mtu) (stepOf mtu)
  frame bytes ident (i * stepOf mtu / 8) (i * stepOf mtu + chunk.length < payload.length) chunk

/-- `fragment`. -/
def fragment (bytes : List Byte) (mtu ident : Nat) : Except String (List (List Byte)) := do
  if bytes.length ≤ mtu ∨ bytes.head?.all fun b => b.toNat / 16 ≠ 6 then
    return [bytes]
  else do
    ensure (1280 ≤ mtu ∧ bytes.length ≤ maxPacket) "IPv6 packet/MTU limit"
    ensure (checked bytes ≠ none) "wire::Error"
    ensure (byte bytes 6 = udp ∨ byte bytes 6 = tcp ∨ byte bytes 6 = icmpv6)
      "unexpected generated IPv6 extension headers"
    -- as many chunks as it takes to hold the payload
    return (List.range ((payloadLen bytes + (stepOf mtu - 1)) / stepOf mtu)).map
      (frameAt bytes mtu ident)

/-! ## What is read -/

/-- A fragment whose head is a packet header with the number of the fragment header in it. -/
structure Fragment.Fits (f : Fragment) : Prop where
  forty_le : 40 ≤ f.head.length
  previous_lt : f.previous < f.head.length

variable {bytes : List Byte} {previous : Nat}

theorem fragmentAt_ok {offset : Nat} (hoffset : 40 ≤ offset) (hprevious : previous < offset) :
    ∃ p, fragmentAt bytes offset previous = .ok p ∧ ∀ f, p = .fragment f → f.Fits := by
  unfold fragmentAt
  split
  · rename_i hlen
    rw [index_of_lt (by omega : offset < bytes.length)]
    show ∃ p, ite _ _ _ = Except.ok p ∧ _
    split
    · exact ⟨_, rfl, nofun⟩
    · rw [upTo_of_le (by omega : offset ≤ bytes.length)]
      refine ⟨_, rfl, fun f hf => ?_⟩
      cases hf
      have hhead : (bytes.take offset).length = offset := by
        rw [length_take]
        omega
      exact ⟨hhead.symm ▸ hoffset, hhead.symm ▸ hprevious⟩
  · exact ⟨_, rfl, nofun⟩

/-- **Reading never panics**, and what is read of a fragment fits. -/
theorem parse_ok (bytes : List Byte) :
    ∃ p, parse bytes = .ok p ∧ ∀ f, p = .fragment f → f.Fits := by
  unfold parse
  split
  · exact ⟨_, rfl, nofun⟩
  · split
    · exact ⟨_, rfl, nofun⟩
    · split
      · exact ⟨_, rfl, nofun⟩
      · split
        · exact ⟨_, rfl, nofun⟩
        · rename_i chain _
          split
          · exact ⟨_, rfl, nofun⟩
          · exact fragmentAt_ok chain.forty_le chain.previous_lt

theorem parse_of_checked {cut : List Byte} (hversion : (byte bytes 0).toNat / 16 = 6)
    (hchecked : checked bytes = some cut) (hfrag : byte cut 6 = ipv6Frag) :
    parse bytes = fragmentAt cut 40 6 := by
  cases bytes with
  | nil => exact absurd hversion (by decide)
  | cons first rest =>
    have hwalk : walk cut 8 { protocol := byte cut 6, offset := 40, previous := 6 } =
        some { protocol := byte cut 6, offset := 40, previous := 6 } := by
      rw [hfrag]
      rfl
    have hfirst : first.toNat / 16 = 6 := hversion
    unfold parse
    dsimp only
    rw [if_neg (not_not.mpr hfirst), hchecked]
    dsimp only
    rw [hwalk]
    dsimp only
    rw [if_neg (not_not.mpr hfrag)]

theorem finish_of {head payload : List Byte} (next : Byte) (hhead : 40 ≤ head.length)
    (hprevious : previous < head.length) :
    finish head previous next payload = .ok (splice (head.set previous next ++ payload) 4
      (be16 ((head.length + payload.length - 40) % 65536))) := by
  have hlen : (head.set previous next ++ payload).length = head.length + payload.length := by
    rw [length_append, length_set]
  unfold finish
  rw [update_of_lt next hprevious]
  show (sub _ 40 >>= fun length => copy _ 4 6 (be16 (length % 65536))) = _
  rw [hlen, sub_of_le (by omega)]
  exact copy_of (by rw [length_be16]; omega) rfl

/-! ## Frames are read as what they were made of -/

/-- The key under which the frames of a packet are collected. -/
def keyOf (bytes : List Byte) (ident : Nat) : Key :=
  ⟨window bytes 8 16, window bytes 24 16, ident⟩

theorem byte_append_right (l t : List Byte) (k : Nat) :
    byte (l ++ t) (l.length + k) = byte t k := by
  unfold byte
  rw [getD_eq_getElem?_getD, getElem?_append_right (by omega), Nat.add_sub_cancel_left,
    getD_eq_getElem?_getD]

theorem index_eq_byte {i : Nat} (h : i < bytes.length) : index bytes i = .ok (byte bytes i) := by
  rw [index_of_lt h, byte, getD_eq_getElem?_getD, getElem?_eq_getElem h]
  rfl

theorem exists_fields (h : 40 ≤ bytes.length) :
    ∃ b₀ b₁ b₂ b₃ b₄ b₅ b₆ rest, bytes = b₀ :: b₁ :: b₂ :: b₃ :: b₄ :: b₅ :: b₆ :: rest ∧
      33 ≤ rest.length := by
  match bytes, h with
  | b₀ :: b₁ :: b₂ :: b₃ :: b₄ :: b₅ :: b₆ :: rest, h =>
    refine ⟨b₀, b₁, b₂, b₃, b₄, b₅, b₆, rest, rfl, ?_⟩
    simp only [length_cons] at h
    omega

section

variable {bytes chunk : List Byte} {ident offset : Nat} {more : Bool}

theorem length_frameHeader (h : 40 ≤ bytes.length) (n : Nat) :
    (frameHeader bytes n).length = 40 := by
  unfold frameHeader
  simp only [length_append, length_take, length_be16, length_singleton, length_drop]
  omega

/-- What stands behind the header of a frame. -/
def frameRest (bytes : List Byte) (ident offset : Nat) (more : Bool) (chunk : List Byte) :
    List Byte :=
  byte bytes 6 :: 0 :: (be16 (offset % 65536 * 8 % 65536 + more.toNat) ++
    (beBytes 4 ident ++ chunk))

theorem frame_eq : frame bytes ident offset more chunk =
    frameHeader bytes ((8 + chunk.length) % 65536) ++ frameRest bytes ident offset more chunk := by
  unfold frame frameRest
  simp only [append_assoc, cons_append, nil_append]

section

variable (h : 40 ≤ bytes.length)
include h

theorem length_frame : (frame bytes ident offset more chunk).length = 48 + chunk.length := by
  rw [frame_eq, length_append, length_frameHeader h]
  simp only [frameRest, length_cons, length_append, length_be16, length_beBytes]
  omega

theorem window_frame {lo : Nat} (hlo : 8 ≤ lo) (hhi : lo + 16 ≤ 40) :
    window (frame bytes ident offset more chunk) lo 16 = window bytes lo 16 := by
  obtain ⟨b₀, b₁, b₂, b₃, b₄, b₅, b₆, rest, rfl, hrest⟩ := exists_fields h
  obtain ⟨lo, rfl⟩ : ∃ k, lo = 7 + k := ⟨lo - 7, by omega⟩
  rw [frame_eq]
  show List.take 16 (List.drop (7 + lo) (_ :: _ :: _ :: _ :: _ :: _ :: _ :: (rest.take 33 ++ _))) =
    List.take 16 (List.drop (7 + lo) (_ :: _ :: _ :: _ :: _ :: _ :: _ :: rest))
  rw [add_comm 7 lo]
  simp only [drop_succ_cons]
  have hlen : (rest.take 33).length = 33 := by
    rw [length_take]
    omega
  rw [drop_append_of_le_length (by omega),
    take_append_of_le_length (by rw [length_drop]; omega), drop_take,
    take_take, min_eq_left (by omega)]

theorem payloadLen_frame (hchunk : 8 + chunk.length < 65536) :
    payloadLen (frame bytes ident offset more chunk) = 8 + chunk.length := by
  obtain ⟨b₀, b₁, b₂, b₃, b₄, b₅, b₆, rest, rfl, hrest⟩ := exists_fields h
  show fromBe16 (UInt8.ofNat ((8 + chunk.length) % 65536 / 256))
    (UInt8.ofNat ((8 + chunk.length) % 65536)) = _
  rw [Nat.mod_eq_of_lt hchunk, fromBe16_be16 hchunk]

theorem checked_frame (hchunk : 8 + chunk.length < 65536) :
    checked (frame bytes ident offset more chunk) = some (frame bytes ident offset more chunk) := by
  have hlen : (frame bytes ident offset more chunk).length = 48 + chunk.length := length_frame h
  unfold checked
  rw [payloadLen_frame h hchunk, if_pos (by omega), take_of_length_le (by omega)]

end

/-- The fragment a frame was made of. -/
def framed (bytes : List Byte) (ident offset : Nat) (more : Bool) (chunk : List Byte) :
    Fragment where
  key := keyOf bytes ident
  head := frameHeader bytes (8 + chunk.length)
  previous := 6
  next := byte bytes 6
  start := offset * 8
  more := more
  payload := chunk

theorem fragmentWord (bytes chunk : List Byte) (ident : Nat) (more : Bool)
    (hoffset : offset < 8192) :
    fromBe16 (byte (frameRest bytes ident offset more chunk) 2)
        (byte (frameRest bytes ident offset more chunk) 3) / 8 * 8 = offset * 8 ∧
      decide ((byte (frameRest bytes ident offset more chunk) 3).toNat % 2 = 1) = more := by
  have hword : offset % 65536 * 8 % 65536 = offset * 8 := by omega
  have hflag : more.toNat ≤ 1 := toNat_le more
  show fromBe16 (UInt8.ofNat ((offset % 65536 * 8 % 65536 + more.toNat) / 256))
      (UInt8.ofNat (offset % 65536 * 8 % 65536 + more.toNat)) / 8 * 8 = offset * 8 ∧
    decide ((UInt8.ofNat (offset % 65536 * 8 % 65536 + more.toNat)).toNat % 2 = 1) = more
  rw [fromBe16_be16 (by omega), UInt8.toNat_ofNat']
  refine ⟨by omega, ?_⟩
  cases more with
  | false => exact decide_eq_false (by simp only [toNat_false]; omega)
  | true => exact decide_eq_true (by simp only [toNat_true]; omega)

theorem fragmentAt_frame (h : 40 ≤ bytes.length) (hchunk : 8 + chunk.length < 65536)
    (hoffset : offset < 8192) (hident : ident < 2 ^ 32) (hnext : byte bytes 6 ≠ ipv6Frag) :
    fragmentAt (frame bytes ident offset more chunk) 40 6 =
      .ok (.fragment (framed bytes ident offset more chunk)) := by
  have hlen : (frame bytes ident offset more chunk).length = 48 + chunk.length := length_frame h
  have hheader : (frameHeader bytes (8 + chunk.length)).length = 40 := length_frameHeader h _
  have heq : frame bytes ident offset more chunk =
      frameHeader bytes (8 + chunk.length) ++ frameRest bytes ident offset more chunk := by
    rw [frame_eq, Nat.mod_eq_of_lt hchunk]
  -- behind the header everything is read from the rest of the frame
  have hbyte : ∀ k, byte (frame bytes ident offset more chunk) (40 + k) =
      byte (frameRest bytes ident offset more chunk) k := by
    intro k
    have hright := byte_append_right (frameHeader bytes (8 + chunk.length))
      (frameRest bytes ident offset more chunk) k
    rwa [hheader, ← heq] at hright
  have hdrop : ∀ k, (frame bytes ident offset more chunk).drop (40 + k) =
      (frameRest bytes ident offset more chunk).drop k := by
    intro k
    rw [← drop_drop, heq, drop_left' hheader]
  have hident' : fromBe (window (frame bytes ident offset more chunk) 44 4) = ident := by
    unfold window
    rw [hdrop 4]
    show fromBe (List.take 4 (beBytes 4 ident ++ chunk)) = ident
    rw [take_left' (length_beBytes 4 ident), fromBe_beBytes (by omega)]
  have hpayload : (frame bytes ident offset more chunk).drop 48 = chunk := by
    rw [hdrop 8]
    exact drop_left' (length_beBytes 4 ident)
  have hhead : (frame bytes ident offset more chunk).take 40 =
      frameHeader bytes (8 + chunk.length) := by
    rw [heq, take_left' hheader]
  obtain ⟨hstart, hmore⟩ := fragmentWord bytes chunk ident more hoffset
  unfold fragmentAt framed keyOf
  rw [if_pos (by omega), index_eq_byte (by omega), hbyte 0]
  show ite (byte bytes 6 = ipv6Frag) _ _ = _
  rw [if_neg hnext, upTo_of_le (by omega)]
  rw [hhead, window_frame h (by omega) (by omega), window_frame h (by omega) (by omega), hident',
    hbyte 2, hbyte 3, hstart, hmore, hpayload]
  rfl

/-- **A frame is read as the fragment it was made of.** -/
theorem parse_frame (h : 40 ≤ bytes.length) (hversion : (byte bytes 0).toNat / 16 = 6)
    (hchunk : 8 + chunk.length < 65536) (hoffset : offset < 8192) (hident : ident < 2 ^ 32)
    (hnext : byte bytes 6 ≠ ipv6Frag) :
    parse (frame bytes ident offset more chunk) =
      .ok (.fragment (framed bytes ident offset more chunk)) := by
  have hfields : byte (frame bytes ident offset more chunk) 0 = byte bytes 0 ∧
      byte (frame bytes ident offset more chunk) 6 = ipv6Frag := by
    obtain ⟨b₀, b₁, b₂, b₃, b₄, b₅, b₆, rest, rfl, hrest⟩ := exists_fields h
    exact ⟨rfl, rfl⟩
  rw [parse_of_checked (hfields.1.symm ▸ hversion) (checked_frame h hchunk) hfields.2]
  exact fragmentAt_frame h hchunk hoffset hident hnext

/-- **The packet again**: the head of any of its frames, finished with the whole payload. -/
theorem finish_frameHeader (n : Nat) (hlen : bytes.length = 40 + payloadLen bytes)
    (hmax : bytes.length ≤ maxPacket) :
    finish (frameHeader bytes n) 6 (byte bytes 6) (bytes.drop 40) = .ok bytes := by
  have hheader : (frameHeader bytes n).length = 40 := length_frameHeader (by omega) n
  rw [finish_of _ (by omega) (by omega), hheader, length_drop]
  have hlength : (40 + (bytes.length - 40) - 40) % 65536 = payloadLen bytes := by
    unfold maxPacket at hmax
    omega
  rw [hlength]
  obtain ⟨b₀, b₁, b₂, b₃, b₄, b₅, b₆, rest, rfl, hrest⟩ :=
    exists_fields (show 40 ≤ bytes.length by omega)
  show Except.ok (b₀ :: b₁ :: b₂ :: b₃ :: (be16 (fromBe16 b₄ b₅) ++
    b₆ :: (rest.take 33 ++ rest.drop 33))) = _
  rw [be16_fromBe16, take_append_drop]
  rfl

end

end ClashMeta.Ipv6
