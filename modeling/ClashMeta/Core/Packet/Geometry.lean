import ClashMeta.Core.Packet.Reordering

/-!
# The geometry of IPv6 fragments (core/src/packet_ipv6.rs:143-179)

What `fragment` returns, read with the fields of the frames alone: how long they
are, where their bytes belong, and which of them is the last. The fields are those
of the fixed header (bytes 0 to 39) and of the fragment header (bytes 40 to 47).
-/

namespace ClashMeta.Ipv6

open List Slice

/-! ## The fields of a frame -/

/-- The next header in the fragment header. -/
def nextField (frame : List Byte) : Byte := byte frame 40

/-- The 16 bits that hold the offset, two reserved bits and the flag. -/
def offsetWord (frame : List Byte) : Nat := fromBe16 (byte frame 42) (byte frame 43)

/-- The offset, in units of eight bytes. -/
def offsetField (frame : List Byte) : Nat := offsetWord frame / 8

/-- The flag that more fragments follow. -/
def MoreField (frame : List Byte) : Prop := offsetWord frame % 2 = 1

/-- The identification. -/
def identField (frame : List Byte) : Nat := fromBe (window frame 44 4)

/-- What a frame carries. -/
def carried (frame : List Byte) : List Byte := frame.drop 48

/-- The frames of a packet. -/
structure Geometry (bytes : List Byte) (mtu ident : Nat) (frames : List (List Byte)) : Prop where
  fits : ∀ frame ∈ frames, frame.length ≤ mtu
  length : ∀ frame ∈ frames, 48 ≤ frame.length ∧ payloadLen frame = frame.length - 40
  ident : ∀ frame ∈ frames, identField frame = ident
  next : ∀ frame ∈ frames, byte frame 6 = ipv6Frag ∧ nextField frame = byte bytes 6
  payload : frames.flatMap carried = bytes.drop 40
  offset : ∀ i frame, frames[i]? = some frame →
    offsetField frame * 8 = ((frames.take i).flatMap carried).length ∧ offsetField frame < 2 ^ 13
  eights : ∀ i frame, frames[i]? = some frame → i + 1 < frames.length →
    (carried frame).length % 8 = 0
  more : ∀ i frame, frames[i]? = some frame → (MoreField frame ↔ i + 1 < frames.length)

/-- A fragment is read off these fields of its frame. -/
theorem fields_of_fragmentAt {frame : List Byte} {f : Fragment}
    (h : fragmentAt frame 40 6 = .ok (.fragment f)) :
    nextField frame = f.next ∧ identField frame = f.key.ident ∧
      offsetField frame * 8 = f.start ∧ (MoreField frame ↔ f.more = true) ∧
      carried frame = f.payload := by
  unfold fragmentAt at h
  split at h
  · rename_i hlen
    rw [index_eq_byte (by omega)] at h
    replace h : (if byte frame 40 = ipv6Frag then _ else _) = Except.ok (Parsed.fragment f) := h
    split at h
    · cases h
    · rw [upTo_of_le (by omega)] at h
      cases h
      refine ⟨rfl, rfl, rfl, ?_, rfl⟩
      -- the flag is the last bit of the word and of its second byte
      have hlow : offsetWord frame % 2 = (byte frame 43).toNat % 2 := by
        unfold offsetWord fromBe16
        omega
      rw [MoreField, hlow]
      exact decide_eq_true_iff.symm
  · cases h

theorem fragment_unchanged {bytes : List Byte} {mtu : Nat} (ident : Nat)
    (h : bytes.length ≤ mtu ∨ (byte bytes 0).toNat / 16 ≠ 6) :
    fragment bytes mtu ident = .ok [bytes] := by
  have hcond : bytes.length ≤ mtu ∨ bytes.head?.all fun b => b.toNat / 16 ≠ 6 := by
    refine h.imp_right fun hversion => ?_
    cases bytes with
    | nil => rfl
    | cons b rest => exact decide_eq_true hversion
  unfold fragment
  rw [if_pos hcond]
  rfl

namespace Fragmentable

variable {bytes : List Byte} {mtu ident i : Nat} (h : Fragmentable bytes mtu ident)

include h

section

variable (hi : i < frameCount bytes mtu)
include hi

theorem fields_frameAt :
    nextField (frameAt bytes mtu ident i) = byte bytes 6 ∧
      identField (frameAt bytes mtu ident i) = ident ∧
      offsetField (frameAt bytes mtu ident i) * 8 = i * stepOf mtu ∧
      (MoreField (frameAt bytes mtu ident i) ↔ i + 1 < frameCount bytes mtu) ∧
      carried (frameAt bytes mtu ident i) = chunkAt bytes mtu i := by
  have hlt := h.lt_frameCount_iff.mp hi
  have hlen := h.length_chunkAt (i := i)
  have heq := h.length_eq
  have hmax := h.length_le
  unfold maxPacket at hmax
  have hnext : byte bytes 6 ≠ ipv6Frag := by
    rcases h.next with hnext | hnext | hnext <;> rw [hnext] <;> decide
  have hread : fragmentAt (frameAt bytes mtu ident i) 40 6 =
      .ok (.fragment (fragmentOf bytes mtu ident i)) := by
    rw [h.frameAt_eq hi]
    exact fragmentAt_frame (by omega) (by omega) (by omega) h.ident_lt hnext
  obtain ⟨hnext', hident, hoffset, hmore, hcarried⟩ := fields_of_fragmentAt hread
  refine ⟨hnext', hident, ?_, ?_, hcarried⟩
  · rw [hoffset, start_fragmentOf]
  · rw [hmore]
    exact decide_eq_true_iff

theorem length_flatMap_chunkAt :
    ((List.range i).flatMap (chunkAt bytes mtu)).length = i * stepOf mtu := by
  induction i with
  | zero => simp
  | succ i ih =>
    have hlt := h.lt_frameCount_iff.mp hi
    have hlen := h.length_chunkAt (i := i)
    rw [add_mul] at hlt
    rw [range_succ, flatMap_append, length_append, flatMap_singleton, add_mul]
    omega

theorem length_frameAt :
    (frameAt bytes mtu ident i).length = 48 + (chunkAt bytes mtu i).length ∧
      payloadLen (frameAt bytes mtu ident i) = 8 + (chunkAt bytes mtu i).length ∧
      byte (frameAt bytes mtu ident i) 6 = ipv6Frag := by
  have hlen := h.length_chunkAt (i := i)
  have heq := h.length_eq
  have hmax := h.length_le
  unfold maxPacket at hmax
  rw [h.frameAt_eq hi]
  refine ⟨length_frame (by omega), payloadLen_frame (by omega) (by omega), ?_⟩
  obtain ⟨b₀, b₁, b₂, b₃, b₄, b₅, b₆, rest, rfl, -⟩ :=
    exists_fields (show 40 ≤ bytes.length by omega)
  rfl

end

theorem flatMap_carried (hi : i ≤ frameCount bytes mtu) :
    ((List.range i).map (frameAt bytes mtu ident)).flatMap carried =
      (List.range i).flatMap (chunkAt bytes mtu) := by
  rw [flatMap_map]
  refine flatMap_congr fun j hj => ?_
  exact (h.fields_frameAt ((mem_range.mp hj).trans_le hi)).2.2.2.2

/-- **The frames of a packet have its geometry.** -/
theorem geometry : Geometry bytes mtu ident
    ((List.range (frameCount bytes mtu)).map (frameAt bytes mtu ident)) := by
  have hstep : stepOf mtu + 48 ≤ mtu := by
    have := h.mtu_ge
    unfold stepOf
    omega
  -- a frame of the list is the one at its position
  have hframe : ∀ i frame, ((List.range (frameCount bytes mtu)).map
      (frameAt bytes mtu ident))[i]? = some frame →
      i < frameCount bytes mtu ∧ frame = frameAt bytes mtu ident i := by
    intro i frame hget
    rw [List.getElem?_map, Option.map_eq_some_iff] at hget
    obtain ⟨j, hj, rfl⟩ := hget
    obtain ⟨hlt, hj⟩ := List.getElem?_eq_some_iff.mp hj
    rw [getElem_range] at hj
    rw [length_range] at hlt
    exact ⟨hlt, hj ▸ rfl⟩
  have hcount : ((List.range (frameCount bytes mtu)).map (frameAt bytes mtu ident)).length =
      frameCount bytes mtu := by rw [length_map, length_range]
  constructor
  case fits =>
    simp only [forall_mem_map, mem_range]
    intro i hi
    have hlen := h.length_chunkAt (i := i)
    rw [(h.length_frameAt hi).1]
    omega
  case length =>
    simp only [forall_mem_map, mem_range]
    intro i hi
    obtain ⟨hlength, hpayload, -⟩ := h.length_frameAt hi
    omega
  case ident =>
    simp only [forall_mem_map, mem_range]
    exact fun i hi => (h.fields_frameAt hi).2.1
  case next =>
    simp only [forall_mem_map, mem_range]
    exact fun i hi => ⟨(h.length_frameAt hi).2.2, (h.fields_frameAt hi).1⟩
  case payload => rw [h.flatMap_carried le_rfl, h.flatMap_chunkAt]
  case offset =>
    intro i frame hget
    obtain ⟨hi, rfl⟩ := hframe i frame hget
    have hlt := h.lt_frameCount_iff.mp hi
    have hlen := h.length_eq
    have hmax := h.length_le
    unfold maxPacket at hmax
    have hoffset := (h.fields_frameAt hi).2.2.1
    rw [← map_take, take_range, min_eq_left hi.le, h.flatMap_carried hi.le,
      h.length_flatMap_chunkAt hi]
    exact ⟨hoffset, by omega⟩
  case eights =>
    intro i frame hget hlast
    obtain ⟨hi, rfl⟩ := hframe i frame hget
    rw [hcount, h.lt_frameCount_iff, add_mul] at hlast
    rw [(h.fields_frameAt hi).2.2.2.2, h.length_chunkAt, min_eq_left (by omega)]
    exact Nat.mul_mod_left _ _
  case more =>
    intro i frame hget
    obtain ⟨hi, rfl⟩ := hframe i frame hget
    rw [hcount]
    exact (h.fields_frameAt hi).2.2.2.1

end Fragmentable

/-- **The geometry of fragmentation.** Every packet that is cut is cut into frames of this
geometry; a packet that is not longer than the MTU, or no IPv6 packet, is returned as it is. -/
theorem fragment_geometry (bytes : List Byte) (mtu ident : Nat) :
    (Fragmentable bytes mtu ident →
      ∃ frames, fragment bytes mtu ident = .ok frames ∧ Geometry bytes mtu ident frames) ∧
    (bytes.length ≤ mtu ∨ (byte bytes 0).toNat / 16 ≠ 6 →
      fragment bytes mtu ident = .ok [bytes]) :=
  ⟨fun h => ⟨_, h.fragment_eq, h.geometry⟩, fragment_unchanged ident⟩

theorem fragment_geometry_nineFrames :
    Fragmentable nineFrames 1280 0 ∧
      ∃ frames, fragment nineFrames 1280 0 = .ok frames ∧ Geometry nineFrames 1280 0 frames :=
  ⟨fragmentable_nineFrames, (fragment_geometry nineFrames 1280 0).1 fragmentable_nineFrames⟩

end ClashMeta.Ipv6
