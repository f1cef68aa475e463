import ClashMeta.Lib.Checked
import ClashMeta.PrintedAddress
import ClashMeta.Protocol.Vless.Address

/-!
# VLESS addresses read back

`encode_address` against `decode_address` (protocol/src/vless.rs:171-218), for the targets that
`Target::new` makes.
-/

namespace ClashMeta

open List Except

/-! ## Targets -/

namespace Target

variable [IpText]

variable {t : Target}

theorem new_eq_ok_iff {host : Str} {port : UInt16} :
    new host port = .ok t ↔ host ≠ [] ∧ utf8Len host ≤ 253 ∧ port ≠ 0 ∧
      (∀ c ∈ host, isControl c = false ∧ isWhitespace c = false) ∧
      ((∃ ip, IpText.parse host = some ip ∧ t = ⟨IpText.print ip, port⟩) ∨
        IpText.parse host = none ∧ (∀ c ∈ host, c ∉ reserved) ∧ t = ⟨host, port⟩) := by
  have hchecks : (host = [] ∨ 253 < utf8Len host ∨ port = 0 ∨
      host.any (fun c => isControl c || isWhitespace c) = true) ↔ ¬ (host ≠ [] ∧
      utf8Len host ≤ 253 ∧ port ≠ 0 ∧
      ∀ c ∈ host, isControl c = false ∧ isWhitespace c = false) := by
    grind
  have hreserved : host.any (reserved.contains ·) = true ↔ ¬ ∀ c ∈ host, c ∉ reserved := by
    grind
  unfold new
  split
  · rename_i hbad
    refine iff_of_false nofun fun h => hchecks.mp hbad ?_
    exact ⟨h.1, h.2.1, h.2.2.1, h.2.2.2.1⟩
  · rename_i hgood
    obtain ⟨hne, hlen, hport, hclean⟩ := not_not.mp (fun h => hgood (hchecks.mpr h))
    -- an address is put into its printed form, a name has no reserved characters
    cases hip : IpText.parse host with
    | some ip =>
      constructor
      · intro h
        cases h
        exact ⟨hne, hlen, hport, hclean, .inl ⟨ip, rfl, rfl⟩⟩
      · rintro ⟨-, -, -, -, ⟨ip', hip', rfl⟩ | ⟨hnone, -⟩⟩
        · cases hip'
          rfl
        · cases hnone
    | none =>
      dsimp only
      split
      · rename_i hbad
        refine iff_of_false nofun ?_
        rintro ⟨-, -, -, -, ⟨ip', hip', -⟩ | ⟨-, hok, -⟩⟩
        · cases hip'
        · exact hreserved.mp hbad hok
      · rename_i hgood
        have hok := not_not.mp fun h => hgood (hreserved.mpr h)
        constructor
        · intro h
          cases h
          exact ⟨hne, hlen, hport, hclean, .inr ⟨rfl, hok, rfl⟩⟩
        · rintro ⟨-, -, -, -, ⟨ip', hip', -⟩ | ⟨-, -, rfl⟩⟩
          · cases hip'
          · rfl

/-- **A target that was made is accepted as it is.** -/
theorem new_of_new (hlawful : IpText.Lawful) {host : Str} {port : UInt16}
    (h : new host port = .ok t) : new t.host t.port = .ok t := by
  obtain ⟨hne, hlen, hport, hclean, ⟨ip, hip, rfl⟩ | ⟨hnone, hreserved, rfl⟩⟩ := new_eq_ok_iff.mp h
  · exact new_eq_ok_iff.mpr ⟨hlawful.print_ne_nil ip, hlawful.print_short ip, hport,
      hlawful.print_clean ip, .inl ⟨ip, hlawful.inverse ip, rfl⟩⟩
  · exact h

theorem host_of_new (h : new t.host t.port = .ok t) :
    utf8Len t.host ≤ 253 ∧ ∀ ip, t.ip = some ip → t.host = IpText.print ip := by
  obtain ⟨-, hlen, -, -, ⟨ip, hip, heq⟩ | ⟨hnone, -, -⟩⟩ := new_eq_ok_iff.mp h
  · refine ⟨hlen, fun ip' hip' => ?_⟩
    cases hip.symm.trans hip'
    exact congrArg Target.host heq
  · refine ⟨hlen, fun ip' hip' => ?_⟩
    cases hnone.symm.trans hip'

end Target

namespace Vless

variable [IpText]

/-! ## Decoding looks no further than the address -/

variable {p : List Byte}

theorem decodeHost_append {tag : Byte} {r : Str × Nat} (h : decodeHost p tag = .ok r)
    (s : List Byte) : decodeHost (p ++ s) tag = .ok r ∧ r.2 ≤ p.length := by
  have hfixed : ∀ n, 3 + n ≤ p.length →
      ((p ++ s).drop 3).take n = (p.drop 3).take n := by
    intro n hn
    rw [drop_append_of_le_length (by omega), take_append_of_le_length (by rw [length_drop]; omega)]
  -- one case for each kind of address; a name reads its length first
  unfold decodeHost at h ⊢
  split at h
  · rename_i htag
    rw [if_pos htag]
    split at h
    · cases h
    · rename_i hlen
      cases h
      rw [if_neg (by rw [length_append]; omega), hfixed 4 (by omega)]
      exact ⟨rfl, not_lt.mp hlen⟩
  rename_i htag
  rw [if_neg htag]
  split at h
  · rename_i htag
    rw [if_pos htag]
    split at h
    · cases h
    · rename_i hlen
      cases h
      rw [if_neg (by rw [length_append]; omega), hfixed 16 (by omega)]
      exact ⟨rfl, not_lt.mp hlen⟩
  rename_i htag
  rw [if_neg htag]
  split at h
  · rename_i htag
    rw [if_pos htag]
    cases hrest : p.drop 3 with
    | nil =>
      rw [hrest] at h
      cases h
    | cons len rest =>
      have hlength := congrArg List.length hrest
      rw [length_drop, length_cons] at hlength
      rw [hrest] at h
      rw [drop_append_of_le_length (by omega), hrest, cons_append]
      dsimp only at h ⊢
      split at h
      · cases h
      · rename_i hlen
        rw [if_neg (by rw [length_append]; omega), take_append_of_le_length (by omega)]
        cases hutf : fromUtf8 (rest.take len.toNat) with
        | none =>
          rw [hutf] at h
          cases h
        | some host =>
          rw [hutf] at h
          cases h
          exact ⟨rfl, by dsimp only; omega⟩
  · cases h

variable {t : Target}

/-- **What is decoded does not depend on the bytes behind it**, and lies within the bytes. -/
theorem decodeAddress_append {n : Nat} (h : decodeAddress p = .ok (t, n)) (s : List Byte) :
    decodeAddress (p ++ s) = .ok (t, n) ∧ n ≤ p.length := by
  match p, h with
  | hi :: lo :: tag :: rest, h =>
    obtain ⟨⟨host, stop⟩, hhost, h⟩ := bind_eq_ok_iff.mp h
    obtain ⟨target, htarget, h⟩ := bind_eq_ok_iff.mp h
    cases h
    obtain ⟨happend, hle⟩ := decodeHost_append hhost s
    refine ⟨bind_eq_ok_iff.mpr ⟨(host, n), happend, ?_⟩, hle⟩
    exact bind_eq_ok_iff.mpr ⟨t, htarget, rfl⟩

/-! ## Encoding -/

omit [IpText] in
theorem toNat_hostLength {host : Str} (h : utf8Len host ≤ 253) :
    (UInt8.ofNat (utf8Len host)).toNat = utf8Len host := by
  exact Nat.mod_eq_of_lt (by omega)

theorem encodeAddress_eq (h : Target.new t.host t.port = .ok t) :
    encodeAddress t = .ok (be16 t.port.toNat ++ addressBody t) :=
  bind_eq_ok_iff.mpr ⟨t, h, rfl⟩

theorem decodeHost_name {hi lo len : Byte} {rest : List Byte} {host : Str}
    (hlong : ¬ rest.length < len.toNat) (hutf : fromUtf8 (rest.take len.toNat) = some host) :
    decodeHost (hi :: lo :: 2 :: len :: rest) 2 = .ok (host, 4 + len.toNat) := by
  unfold decodeHost
  rw [if_neg (by decide), if_neg (by decide), if_pos rfl]
  dsimp only [List.drop]
  rw [if_neg hlong, hutf]

section

variable (h : Target.new t.host t.port = .ok t)
include h

theorem decodeHost_addressBody (hi lo : Byte)
    (s : List Byte) :
    ∃ tag rest, addressBody t = tag :: rest ∧
      decodeHost (hi :: lo :: (addressBody t ++ s)) tag =
        .ok (t.host, 2 + (addressBody t).length) := by
  obtain ⟨hshort, hprint⟩ := Target.host_of_new h
  unfold addressBody
  -- an address comes back from its octets, a name from its length and bytes
  cases hip : t.ip with
  | some ip =>
    rw [hprint ip hip]
    cases ip with
    | v4 a =>
      have hlen : (IpAddr.v4 a).octets.length = 4 := length_beBytes 4 a.toNat
      have hbytes : (((hi :: lo :: 1 :: (IpAddr.v4 a).octets) ++ s).drop 3).take 4 =
          beBytes 4 a.toNat := take_left' hlen
      refine ⟨1, (IpAddr.v4 a).octets, rfl, ?_⟩
      show decodeHost ((hi :: lo :: 1 :: (IpAddr.v4 a).octets) ++ s) 1 = _
      unfold decodeHost
      rw [if_pos rfl, if_neg (by simp [hlen]), hbytes, fromBe_beBytes a.isLt, BitVec.ofNat_toNat,
        BitVec.setWidth_eq, length_cons, hlen]
    | v6 a =>
      have hlen : (IpAddr.v6 a).octets.length = 16 := length_beBytes 16 a.toNat
      have hbytes : (((hi :: lo :: 3 :: (IpAddr.v6 a).octets) ++ s).drop 3).take 16 =
          beBytes 16 a.toNat := take_left' hlen
      refine ⟨3, (IpAddr.v6 a).octets, rfl, ?_⟩
      show decodeHost ((hi :: lo :: 3 :: (IpAddr.v6 a).octets) ++ s) 3 = _
      unfold decodeHost
      rw [if_neg (by decide), if_pos rfl, if_neg (by simp [hlen]), hbytes, fromBe_beBytes a.isLt,
        BitVec.ofNat_toNat, BitVec.setWidth_eq, length_cons, hlen]
  | none =>
    have hlen : (UInt8.ofNat (utf8Len t.host)).toNat = utf8Len t.host :=
      toNat_hostLength hshort
    have hbytes : (utf8Bytes t.host ++ s).take (utf8Len t.host) = utf8Bytes t.host :=
      take_left' (length_utf8Bytes t.host)
    refine ⟨2, UInt8.ofNat (utf8Len t.host) :: utf8Bytes t.host, rfl, ?_⟩
    show decodeHost (hi :: lo :: 2 :: UInt8.ofNat (utf8Len t.host) :: (utf8Bytes t.host ++ s)) 2 = _
    rw [decodeHost_name (by simp [hlen, length_utf8Bytes]) (by rw [hlen, hbytes,
      fromUtf8_utf8Bytes]), hlen]
    simp only [length_append, length_cons, length_nil, length_utf8Bytes]
    rw [show 2 + (0 + 1 + 1 + utf8Len t.host) = 4 + utf8Len t.host by omega]

/-- **An encoded target is decoded to itself**, whatever follows. -/
theorem decodeAddress_encoding (s : List Byte) :
    decodeAddress (be16 t.port.toNat ++ addressBody t ++ s) =
      .ok (t, (be16 t.port.toNat ++ addressBody t).length) := by
  have hport : UInt16.ofNat (fromBe16 (UInt8.ofNat (t.port.toNat / 256))
      (UInt8.ofNat t.port.toNat)) = t.port := by
    rw [fromBe16_be16 t.port.toNat_lt, UInt16.ofNat_toNat]
  obtain ⟨tag, rest, hbody, hhost⟩ := decodeHost_addressBody h
    (UInt8.ofNat (t.port.toNat / 256)) (UInt8.ofNat t.port.toNat) s
  rw [length_append]
  rw [hbody] at hhost ⊢
  refine bind_eq_ok_iff.mpr ⟨_, hhost, bind_eq_ok_iff.mpr ⟨t, ?_, rfl⟩⟩
  rw [hport]
  exact h

theorem decodeAddress_truncated
    (hp : p <+: be16 t.port.toNat ++ addressBody t) (hne : p ≠ be16 t.port.toNat ++ addressBody t)
    (r : Target × Nat) : decodeAddress p ≠ .ok r := by
  intro hok
  obtain ⟨s, hs⟩ := hp
  obtain ⟨happend, hle⟩ := decodeAddress_append hok s
  have hwhole := decodeAddress_encoding h []
  rw [append_nil, ← hs, happend] at hwhole
  -- the address is as long as the encoding, so nothing of it is missing
  have hlength : r.2 = (p ++ s).length := congrArg Prod.snd (Except.ok.inj hwhole)
  have hnil : s = [] := by
    rw [length_append] at hlength
    exact length_eq_zero_iff.mp (by omega)
  rw [hnil, append_nil] at hs
  exact hne hs

end

theorem new_of_decodeAddress (hlawful : IpText.Lawful) {b : List Byte} {n : Nat}
    (h : decodeAddress b = .ok (t, n)) : Target.new t.host t.port = .ok t := by
  match b, h with
  | hi :: lo :: tag :: rest, h =>
    obtain ⟨⟨host, stop⟩, -, h⟩ := bind_eq_ok_iff.mp h
    obtain ⟨target, htarget, h⟩ := bind_eq_ok_iff.mp h
    cases h
    exact Target.new_of_new hlawful htarget

/-- **VLESS addresses are read back.** Every target that `Target::new` makes is encoded, with a
length byte that holds the length of its name; it is decoded from the encoding and any bytes
behind it, and from no proper front part of the encoding. What is decoded from any bytes at all
lies within them, is a target that `Target::new` accepts as it is, and is encoded and decoded to
itself. -/
theorem address_roundTrip (hlawful : IpText.Lawful) :
    (∀ host port t, Target.new host port = .ok t →
      (UInt8.ofNat (utf8Len t.host)).toNat = (utf8Bytes t.host).length ∧
      ∃ bytes, encodeAddress t = .ok bytes ∧
        (∀ s, decodeAddress (bytes ++ s) = .ok (t, bytes.length)) ∧
        ∀ p, p <+: bytes → p ≠ bytes → ∀ r, decodeAddress p ≠ .ok r) ∧
    ∀ b t n, decodeAddress b = .ok (t, n) → n ≤ b.length ∧ Target.new t.host t.port = .ok t ∧
      ∃ bytes, encodeAddress t = .ok bytes ∧ decodeAddress bytes = .ok (t, bytes.length) := by
  constructor
  · intro host port t hnew
    have hvalid := Target.new_of_new hlawful hnew
    refine ⟨?_, _, encodeAddress_eq hvalid, decodeAddress_encoding hvalid,
      fun p hp hne r => decodeAddress_truncated hvalid hp hne r⟩
    rw [toNat_hostLength (Target.host_of_new hvalid).1, length_utf8Bytes]
  · intro b t n hdecode
    have hvalid := new_of_decodeAddress hlawful hdecode
    refine ⟨(decodeAddress_append hdecode []).2, hvalid, _, encodeAddress_eq hvalid, ?_⟩
    have hwhole := decodeAddress_encoding hvalid []
    rwa [append_nil] at hwhole

end Vless

section

local instance loopbackText : IpText := .std

/-- The target `::1` on port 443. -/
def loopbackTarget : Target := ⟨"::1", 443⟩

/-- With the standard library's addresses, its encoding is decoded. -/
theorem address_roundTrip_std : Target.new "0:0::1" 443 = .ok loopbackTarget ∧
    ∃ bytes, Vless.encodeAddress loopbackTarget = .ok bytes ∧
      Vless.decodeAddress (bytes ++ [7]) = .ok (loopbackTarget, bytes.length) := by
  have hnew : Target.new "0:0::1" 443 = .ok loopbackTarget := by decide +kernel
  obtain ⟨-, bytes, hencode, hdecode, -⟩ :=
    (Vless.address_roundTrip IpText.lawful_std).1 _ _ _ hnew
  exact ⟨hnew, bytes, hencode, hdecode [7]⟩

end

end ClashMeta
