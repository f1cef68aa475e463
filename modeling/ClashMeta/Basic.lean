import Mathlib.Algebra.Order.Ring.Nat

/-!
# Bytes, text and addresses

The vocabulary the protocol, configuration and core models share.

Text is a list of characters (`Str`), since the source's `str` operations (`trim_end_matches`,
`split_once`, `char_indices`) go character by character; its length in bytes is `utf8Len`. The
textual form of an IP address belongs to the standard library and enters as the parameter
`IpText`; a result that needs the two directions to be inverse says so with `IpText.Inverse`.
-/

namespace ClashMeta

/-- A byte. -/
abbrev Byte := UInt8

/-- A UUID, as bytes. -/
abbrev Uuid := Vector Byte 16

/-- A string, character by character. -/
abbrev Str := List Char

/-- A string literal stands for its characters. -/
instance : Coe String Str := ⟨String.toList⟩

instance : LawfulBEq Str := inferInstanceAs (LawfulBEq (List Char))

/-- Length of a string in bytes (`str::len`). -/
def utf8Len (s : Str) : Nat := (s.map Char.utf8Size).sum

/-- The bytes of a string (`str::as_bytes`). -/
def utf8Bytes (s : Str) : List Byte := s.flatMap String.utf8EncodeChar

/-- `u16::to_be_bytes` of a number already truncated to 16 bits by the cast. -/
def be16 (n : Nat) : List Byte := [UInt8.ofNat (n / 256), UInt8.ofNat n]

/-- `u16::from_be_bytes`. -/
def fromBe16 (hi lo : Byte) : Nat := hi.toNat * 256 + lo.toNat

@[simp] theorem length_be16 (n : Nat) : (be16 n).length = 2 := rfl

theorem fromBe16_be16 {n : Nat} (h : n < 65536) :
    fromBe16 (UInt8.ofNat (n / 256)) (UInt8.ofNat n) = n := by
  simp only [fromBe16, UInt8.toNat_ofNat']
  omega

theorem be16_fromBe16 (hi lo : Byte) : be16 (fromBe16 hi lo) = [hi, lo] := by
  have hlo := lo.toNat_lt
  have hdiv : fromBe16 hi lo / 256 = hi.toNat := by
    unfold fromBe16
    omega
  have hmod : UInt8.ofNat (fromBe16 hi lo) = lo := by
    apply UInt8.toNat_inj.mp
    rw [UInt8.toNat_ofNat']
    unfold fromBe16
    omega
  unfold be16
  rw [hdiv, hmod, UInt8.ofNat_toNat]

/-- Big-endian bytes of a number of `8 * n` bits. -/
def beBytes : Nat → Nat → List Byte
  | 0, _ => []
  | n + 1, a => beBytes n (a / 256) ++ [UInt8.ofNat a]

/-- The number whose big-endian bytes are given. -/
def fromBe (bytes : List Byte) : Nat := bytes.foldl (fun acc b => acc * 256 + b.toNat) 0

@[simp] theorem length_beBytes (n a : Nat) : (beBytes n a).length = n := by
  induction n generalizing a with
  | zero => rfl
  | succ n ih => simp [beBytes, ih]

theorem fromBe_be16 {n : Nat} (h : n < 65536) : fromBe (be16 n) = n := by
  have := fromBe16_be16 h
  simpa [fromBe, be16, fromBe16] using this

theorem fromBe_beBytes {n a : Nat} (h : a < 256 ^ n) : fromBe (beBytes n a) = a := by
  induction n generalizing a with
  | zero =>
    show 0 = a
    omega
  | succ n ih =>
    have hdiv : a / 256 < 256 ^ n := by
      omega
    unfold fromBe at ih ⊢
    rw [beBytes, List.foldl_append, ih hdiv]
    simp only [List.foldl_cons, List.foldl_nil, UInt8.toNat_ofNat']
    omega

/-- `io::Error`, by its kind or its text. -/
inductive IoError where
  | unexpectedEof
  | writeZero
  | other (message : String)
  deriving DecidableEq, Repr

/-- An IP address of either family. -/
inductive IpAddr where
  | v4 (addr : BitVec 32)
  | v6 (addr : BitVec 128)
  deriving DecidableEq, Repr

namespace IpAddr

/-- `IpAddr::is_ipv6`. -/
def isIpv6 : IpAddr → Bool
  | v4 _ => false
  | v6 _ => true

/-- `IpAddr::is_unspecified`: `0.0.0.0` or `::`. -/
def isUnspecified : IpAddr → Bool
  | v4 a => a == 0
  | v6 a => a == 0

/-- `Ipv4Addr::octets` and `Ipv6Addr::octets`. -/
def octets : IpAddr → List Byte
  | v4 a => beBytes 4 a.toNat
  | v6 a => beBytes 16 a.toNat

end IpAddr

/-- The standard library's textual form of IP addresses. -/
class IpText where
  /-- `str::parse::<IpAddr>`. -/
  parse : Str → Option IpAddr
  /-- `IpAddr::to_string`. -/
  print : IpAddr → Str

/-- The reading under which no text is an address: enough for concrete runs whose
hosts are names. -/
@[reducible] def IpText.namesOnly : IpText := ⟨fun _ => none, fun _ => []⟩

/-- Printing and parsing addresses are inverse to each other. -/
def IpText.Inverse [IpText] : Prop :=
  ∀ ip, IpText.parse (IpText.print ip) = some ip

end ClashMeta
