import ClashMeta.Core.Packet.Ipv6

/-!
# The frames of a packet

Where `fragment` cuts a packet (core/src/packet_ipv6.rs lines 159-177): the frame at position
`i` carries the payload from `i` steps on, and at most a step of it.
-/

namespace ClashMeta.Ipv6

open List Slice

/-- A packet that `fragment` cuts: its length is what its header says, it has no extension
headers, and it is longer than the MTU. -/
structure Fragmentable (bytes : List Byte) (mtu ident : Nat) : Prop where
  version : (byte bytes 0).toNat / 16 = 6
  length_eq : bytes.length = 40 + payloadLen bytes
  length_le : bytes.length ≤ maxPacket
  next : byte bytes 6 = udp ∨ byte bytes 6 = tcp ∨ byte bytes 6 = icmpv6
  mtu_ge : 1280 ≤ mtu
  mtu_lt : mtu < bytes.length
  ident_lt : ident < 2 ^ 32

/-- How many frames a packet is cut into. -/
def frameCount (bytes : List Byte) (mtu : Nat) : Nat :=
  (payloadLen bytes + (stepOf mtu - 1)) / stepOf mtu

/-- The bytes a frame carries. -/
def chunkAt (bytes : List Byte) (mtu i : Nat) : List Byte :=
  window (window bytes 40 (payloadLen bytes)) (i * stepOf mtu) (stepOf mtu)

/-- The fragment a frame is read as. -/
def fragmentOf (bytes : List Byte) (mtu ident i : Nat) : Fragment :=
  framed bytes ident (i * stepOf mtu / 8) (i + 1 < frameCount bytes mtu) (chunkAt bytes mtu i)

theorem key_fragmentOf (bytes : List Byte) (mtu ident i : Nat) :
    (fragmentOf bytes mtu ident i).key = keyOf bytes ident := rfl

theorem start_fragmentOf (bytes : List Byte) (mtu ident i : Nat) :
    (fragmentOf bytes mtu ident i).start = i * stepOf mtu := by
  have hdvd : 8 ∣ i * stepOf mtu := Dvd.dvd.mul_left (Nat.dvd_mul_left 8 _) i
  exact Nat.div_mul_cancel hdvd

namespace Fragmentable

variable {bytes : List Byte} {mtu ident i : Nat} (h : Fragmentable bytes mtu ident)

include h

theorem step_pos : 0 < stepOf mtu := by
  have := h.mtu_ge
  unfold stepOf
  omega

theorem step_lt : stepOf mtu < payloadLen bytes := by
  have := h.mtu_ge
  have := h.mtu_lt
  have := h.length_eq
  unfold stepOf
  omega

theorem lt_frameCount_iff : i < frameCount bytes mtu ↔ i * stepOf mtu < payloadLen bytes := by
  have hpos := h.step_pos
  unfold frameCount
  rw [← Nat.add_one_le_iff, Nat.le_div_iff_mul_le hpos, add_mul]
  omega

theorem length_chunkAt : (chunkAt bytes mtu i).length =
    min (stepOf mtu) (payloadLen bytes - i * stepOf mtu) := by
  have hlen := h.length_eq
  unfold chunkAt window
  simp only [length_take, length_drop]
  omega

section

variable (hi : i < frameCount bytes mtu)

include hi

theorem more_iff :
    i + 1 < frameCount bytes mtu ↔
      i * stepOf mtu + (chunkAt bytes mtu i).length < payloadLen bytes := by
  have hlt := h.lt_frameCount_iff.mp hi
  rw [h.lt_frameCount_iff, h.length_chunkAt, add_mul]
  omega

theorem stop_fragmentOf :
    (fragmentOf bytes mtu ident i).stop = min ((i + 1) * stepOf mtu) (payloadLen bytes) := by
  have hlt := h.lt_frameCount_iff.mp hi
  have hlen := h.length_chunkAt (i := i)
  unfold Fragment.stop
  rw [start_fragmentOf, add_mul]
  show i * stepOf mtu + (chunkAt bytes mtu i).length = _
  omega

/-- A byte of the payload is in the frame whose position is its quotient by the step, so the frames
neither overlap nor leave a gap. -/
theorem mem_fragmentOf_iff {x : Nat} :
    ((fragmentOf bytes mtu ident i).start ≤ x ∧ x < (fragmentOf bytes mtu ident i).stop) ↔
      x < payloadLen bytes ∧ x / stepOf mtu = i := by
  rw [start_fragmentOf, h.stop_fragmentOf hi, Nat.div_eq_iff h.step_pos, add_mul]
  have hpos := h.step_pos
  omega

theorem frameAt_eq :
    frameAt bytes mtu ident i = frame bytes ident (i * stepOf mtu / 8)
      (i + 1 < frameCount bytes mtu) (chunkAt bytes mtu i) := by
  have hpayload : (window bytes 40 (payloadLen bytes)).length = payloadLen bytes := by
    have hlen := h.length_eq
    unfold window
    rw [length_take, length_drop]
    omega
  unfold frameAt
  dsimp only
  rw [hpayload]
  congr 1
  exact decide_eq_decide.mpr (h.more_iff hi).symm

/-- **Every frame of a packet is read as its fragment.** -/
theorem parse_frameAt :
    parse (frameAt bytes mtu ident i) = .ok (.fragment (fragmentOf bytes mtu ident i)) := by
  have hlt := h.lt_frameCount_iff.mp hi
  have hlen := h.length_chunkAt (i := i)
  have heq := h.length_eq
  have hmax := h.length_le
  unfold maxPacket at hmax
  rw [h.frameAt_eq hi]
  refine parse_frame (by omega) h.version (by omega) (by omega) h.ident_lt ?_
  rcases h.next with hnext | hnext | hnext <;> rw [hnext] <;> decide

end

theorem not_atomic : ¬(fragmentOf bytes mtu ident i).Atomic := by
  rintro ⟨hmore, hstart⟩
  have hpos := h.step_pos
  have hlt := h.step_lt
  rw [start_fragmentOf, Nat.mul_eq_zero] at hstart
  obtain rfl : i = 0 := hstart.resolve_right (by omega)
  have hsecond : 0 + 1 < frameCount bytes mtu := h.lt_frameCount_iff.mpr (by omega)
  exact absurd hsecond (of_decide_eq_false hmore)

/-- `fragment` returns these frames in order. -/
theorem fragment_eq : fragment bytes mtu ident =
    .ok ((List.range (frameCount bytes mtu)).map (frameAt bytes mtu ident)) := by
  have hlen := h.length_eq
  have hlong : ¬(bytes.length ≤ mtu ∨ bytes.head?.all fun b => b.toNat / 16 ≠ 6) := by
    rintro (hle | hfirst)
    · exact absurd h.mtu_lt (not_lt.mpr hle)
    · obtain ⟨b₀, b₁, b₂, b₃, b₄, b₅, b₆, rest, rfl, -⟩ :=
        exists_fields (show 40 ≤ bytes.length by omega)
      exact of_decide_eq_true hfirst h.version
  have hchecked : checked bytes ≠ none := by
    unfold checked
    rw [if_pos (by omega)]
    exact Option.some_ne_none _
  unfold fragment
  rw [if_neg hlong, ensure_of ⟨h.mtu_ge, h.length_le⟩]
  rw [ensure_of hchecked]
  rw [ensure_of h.next]
  rfl

theorem tiles_from {k m : Nat} (hm : k + m = frameCount bytes mtu) :
    Tiles (fun j => j * stepOf mtu) (fun j => j * stepOf mtu + (chunkAt bytes mtu j).length)
      (min (k * stepOf mtu) (payloadLen bytes)) (List.range' k m) (payloadLen bytes) := by
  induction m generalizing k with
  | zero =>
    have hend : ¬k < frameCount bytes mtu := by omega
    rw [h.lt_frameCount_iff] at hend
    exact min_eq_right (not_lt.mp hend)
  | succ m ih =>
    have hlt := h.lt_frameCount_iff.mp (show k < frameCount bytes mtu by omega)
    have hrest := ih (k := k + 1) (by omega)
    have hlen := h.length_chunkAt (i := k)
    refine ⟨(min_eq_left hlt.le).symm, ?_⟩
    have hup : k * stepOf mtu + (chunkAt bytes mtu k).length =
        min ((k + 1) * stepOf mtu) (payloadLen bytes) := by
      rw [add_mul]
      omega
    rw [← hup] at hrest
    exact hrest

theorem tiles : Tiles (fun j => j * stepOf mtu)
    (fun j => j * stepOf mtu + (chunkAt bytes mtu j).length) 0
    (List.range (frameCount bytes mtu)) (payloadLen bytes) := by
  have htiles := h.tiles_from (zero_add (frameCount bytes mtu))
  rwa [zero_mul, ← range_eq_range'] at htiles

/-- **The chunks are the payload.** -/
theorem flatMap_chunkAt :
    (List.range (frameCount bytes mtu)).flatMap (chunkAt bytes mtu) = bytes.drop 40 := by
  have hlen := h.length_eq
  have hpayload : window bytes 40 (payloadLen bytes) = bytes.drop 40 := by
    unfold window
    rw [take_of_length_le]
    rw [length_drop]
    omega
  have hwhole : (bytes.drop 40).take (payloadLen bytes) = bytes.drop 40 := hpayload
  -- the payload shows every chunk at its place
  obtain ⟨-, hp⟩ := take_of_tiles (s := window bytes 40 (payloadLen bytes))
    (fun j _ => window_length _ _ _) h.tiles
  calc (List.range (frameCount bytes mtu)).flatMap (chunkAt bytes mtu)
      = window (window bytes 40 (payloadLen bytes)) 0 (payloadLen bytes) := hp.symm
    _ = (bytes.drop 40).take (payloadLen bytes) := by
      rw [hpayload]
      rfl
    _ = bytes.drop 40 := hwhole

/-- **A buffer that shows every frame's bytes at its place shows the payload.** -/
theorem take_of_shows {s : List Byte}
    (hshows : ∀ j < frameCount bytes mtu,
      window s (j * stepOf mtu) (chunkAt bytes mtu j).length = chunkAt bytes mtu j) :
    s.take (payloadLen bytes) = bytes.drop 40 := by
  obtain ⟨-, hs⟩ := take_of_tiles (fun j hj => hshows j (mem_range.mp hj)) h.tiles
  exact Eq.trans hs h.flatMap_chunkAt

end Fragmentable

end ClashMeta.Ipv6
