import ClashMeta.Basic

/-!
# Gun frames (protocol/src/grpc.rs:20-55)

A payload travels in a protobuf message with one bytes field, and the message in a gRPC frame:
a zero byte (not compressed), the length of the message as a big-endian `u32`, the field tag
`0x0a`, the length of the payload as a base-128 varint, and the payload.
-/

namespace ClashMeta.Grpc

open List

/-- `varint`: seven bits in a byte, the lowest first; the top bit says that more follow. -/
def varint (value : Nat) : List Byte :=
  if value >>> 7 = 0 then [UInt8.ofNat (value &&& 0x7f)]
  else (UInt8.ofNat (value &&& 0x7f) ||| 0x80) :: varint (value >>> 7)
termination_by value
decreasing_by
  rw [Nat.shiftRight_eq_div_pow] at *
  omega

/-- The loop of `decode_varint`, from byte `i` on with the bits before it. -/
def decodeVarintLoop : List Byte → Nat → Nat → Option (Nat × Nat)
  | [], _, _ => none
  | byte :: bytes, i, value =>
    let value := value ||| ((byte &&& 0x7f).toNat <<< (i * 7)) % 2 ^ 64
    if byte &&& 0x80 = 0 then some (value, i + 1) else decodeVarintLoop bytes (i + 1) value

/-- `decode_varint`: a `usize` and the number of bytes it takes, at most ten. -/
def decodeVarint (bytes : List Byte) : Option (Nat × Nat) := decodeVarintLoop (bytes.take 10) 0 0

/-- The protobuf message of a payload. -/
def gunProto (payload : List Byte) : List Byte := 0x0a :: (varint payload.length ++ payload)

/-- `gun_frame`. -/
def gunFrame (payload : List Byte) : List Byte :=
  0 :: (beBytes 4 (gunProto payload).length ++ gunProto payload)

/-! ## Varints -/

theorem varint_of_lt {n : Nat} (h : n < 128) : varint n = [UInt8.ofNat n] := by
  have hlow : n &&& 0x7f = n := by
    rw [Nat.and_two_pow_sub_one_eq_mod n 7]
    exact Nat.mod_eq_of_lt h
  rw [varint, if_pos, hlow]
  omega

theorem varint_of_ge {n : Nat} (h : 128 ≤ n) :
    varint n = (UInt8.ofNat (n % 128) ||| 0x80) :: varint (n / 128) := by
  have hhigh : n >>> 7 = n / 128 := Nat.shiftRight_eq_div_pow n 7
  rw [varint, hhigh, if_neg (by omega), Nat.and_two_pow_sub_one_eq_mod n 7]

theorem lastByte (n : Fin 128) :
    (UInt8.ofNat n &&& 0x7f).toNat = n ∧ UInt8.ofNat n &&& 0x80 = 0 := by
  revert n
  decide +kernel

theorem moreByte (n : Fin 128) :
    ((UInt8.ofNat n ||| 0x80) &&& 0x7f).toNat = n ∧ (UInt8.ofNat n ||| 0x80) &&& 0x80 ≠ 0 := by
  revert n
  decide +kernel

theorem or_shiftLeft {value digit i : Nat} (hvalue : value < 2 ^ (i * 7))
    (h : value + digit * 2 ^ (i * 7) < 2 ^ 64) :
    value ||| (digit <<< (i * 7)) % 2 ^ 64 = value + digit * 2 ^ (i * 7) := by
  have hdigit : digit <<< (i * 7) < 2 ^ 64 := by
    omega
  rw [Nat.mod_eq_of_lt hdigit, Nat.or_comm, ← Nat.shiftLeft_add_eq_or_of_lt hvalue,
    Nat.shiftLeft_eq, add_comm]

theorem decodeVarintLoop_varint (n i value : Nat) (hi : i < 10)
    (hvalue : value < 2 ^ (i * 7)) (h : value + n * 2 ^ (i * 7) < 2 ^ 64) (rest : List Byte) :
    decodeVarintLoop ((varint n ++ rest).take (10 - i)) i value =
      some (value + n * 2 ^ (i * 7), i + (varint n).length) := by
  obtain ⟨fuel, hfuel⟩ : ∃ fuel, 10 - i = fuel + 1 := ⟨9 - i, by omega⟩
  induction n using Nat.strongRecOn generalizing i value fuel with
  | ind n ih =>
    rw [hfuel]
    rcases lt_or_ge n 128 with hlast | hmore
    · obtain ⟨hbits, hstop⟩ := lastByte ⟨n, hlast⟩
      rw [varint_of_lt hlast, singleton_append, take_succ_cons, decodeVarintLoop, hbits,
        or_shiftLeft hvalue h, if_pos hstop]
      rfl
    · obtain ⟨hbits, hgo⟩ := moreByte ⟨n % 128, Nat.mod_lt n (by decide)⟩
      simp only at hbits hgo
      -- seven bits are read here, and the others are a varint at the next position
      have hpow : 2 ^ ((i + 1) * 7) = 128 * 2 ^ (i * 7) := by
        rw [add_mul, Nat.pow_add]
        omega
      have hsum : n * 2 ^ (i * 7) = n % 128 * 2 ^ (i * 7) + n / 128 * 2 ^ ((i + 1) * 7) := by
        rw [hpow, ← mul_assoc, ← add_mul]
        congr 1
        omega
      have hhigh : 2 ^ ((i + 1) * 7) ≤ n / 128 * 2 ^ ((i + 1) * 7) :=
        Nat.le_mul_of_pos_left _ (by omega)
      have hdigit : n % 128 * 2 ^ (i * 7) ≤ 127 * 2 ^ (i * 7) :=
        Nat.mul_le_mul_right _ (by omega)
      have hroom : i + 1 < 10 := by
        have := (Nat.pow_lt_pow_iff_right (by decide : 1 < 2)).mp
          (show 2 ^ ((i + 1) * 7) < 2 ^ 64 by omega)
        omega
      rw [varint_of_ge hmore, cons_append, take_succ_cons, decodeVarintLoop, hbits,
        or_shiftLeft hvalue (by omega), if_neg hgo, show fuel = 10 - (i + 1) by omega,
        ih (n / 128) (by omega) (i + 1) _ hroom (by omega) (by omega) (9 - (i + 1)) (by omega),
        length_cons]
      congr 2
      · omega
      · omega

/-- **`decode_varint` inverts `varint`** on every `usize`, whatever follows. -/
theorem decodeVarint_varint {n : Nat} (h : n < 2 ^ 64) (rest : List Byte) :
    decodeVarint (varint n ++ rest) = some (n, (varint n).length) := by
  have hloop : decodeVarintLoop ((varint n ++ rest).take 10) 0 0 =
      some (0 + n * 2 ^ (0 * 7), 0 + (varint n).length) :=
    decodeVarintLoop_varint n 0 0 (by decide) (by decide) (by omega) rest
  simpa [decodeVarint] using hloop

theorem length_varint_le {n k : Nat} (h : n < 128 ^ (k + 1)) : (varint n).length ≤ k + 1 := by
  induction k generalizing n with
  | zero =>
    rw [varint_of_lt (by omega)]
    exact Nat.le_refl 1
  | succ k ih =>
    rcases lt_or_ge n 128 with hlast | hmore
    · rw [varint_of_lt hlast]
      exact Nat.le_add_left 1 (k + 1)
    · have hdiv : n / 128 < 128 ^ (k + 1) := by
        omega
      rw [varint_of_ge hmore]
      exact Nat.succ_le_succ (ih hdiv)

/-! ## Frames -/

/-- The largest payload of a frame. -/
def maxChunk : Nat := 16 * 1024

theorem length_gunProto {payload : List Byte} (h : payload.length ≤ maxChunk) :
    (gunProto payload).length ≤ maxChunk + 4 := by
  have hvarint : (varint payload.length).length ≤ 3 := by
    refine length_varint_le (lt_of_le_of_lt h ?_)
    decide
  rw [gunProto, length_cons, length_append]
  omega

end ClashMeta.Grpc
