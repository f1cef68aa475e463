import ClashMeta.Core.SocksUdp
import ClashMeta.Protocol.Vless.AddressRoundTrip

/-!
# SOCKS addresses read back (core/src/inbound.rs:52-101)

`socks_address` against `socks_target`, for the targets that `Target::new` makes, and the message
that a client gets back (inbound.rs:219) against what an association takes from its client.
-/

namespace ClashMeta

open List Except

namespace Socks

variable [IpText]

/-- The type and the host of `socks_address`. -/
def addressHost (t : Target) : List Byte :=
  match t.ip with
  | some (.v4 a) => 1 :: (IpAddr.v4 a).octets
  | some (.v6 a) => 4 :: (IpAddr.v6 a).octets
  | none => [3, UInt8.ofNat (utf8Len t.host)] ++ utf8Bytes t.host

/-- `socks_address`. -/
def socksAddress (t : Target) : List Byte := addressHost t ++ be16 t.port.toNat

/-- The message for the client with a datagram that a target has sent. -/
def replyMessage (t : Target) (payload : List Byte) : List Byte :=
  [0, 0, 0] ++ socksAddress t ++ payload

/-! ## Reading looks no further than the address -/

variable {bytes rest : List Byte}

omit [IpText] in
theorem take_append {n : Nat} {b : List Byte} (h : take n bytes = .ok (b, rest)) (s : List Byte) :
    take n (bytes ++ s) = .ok (b, rest ++ s) := by
  unfold take at h ⊢
  split at h
  · cases h
  · rename_i hlen
    cases h
    rw [if_neg (by rw [length_append]; omega), take_append_of_le_length (by omega),
      drop_append_of_le_length (by omega)]

theorem socksHost_append {host : Str} (h : socksHost bytes = .ok (host, rest)) (s : List Byte) :
    socksHost (bytes ++ s) = .ok (host, rest ++ s) := by
  obtain ⟨⟨kind, behind⟩, hkind, h⟩ := bind_eq_ok_iff.mp h
  refine bind_eq_ok_iff.mpr ⟨_, take_append hkind s, ?_⟩
  dsimp only at h ⊢
  -- an address of either family, then a domain behind its length
  split at h
  · obtain ⟨_, htake, h⟩ := bind_eq_ok_iff.mp h
    cases h
    rw [if_pos ‹_›]
    exact bind_eq_ok_iff.mpr ⟨_, take_append htake s, rfl⟩
  rw [if_neg ‹_›]
  split at h
  · obtain ⟨_, htake, h⟩ := bind_eq_ok_iff.mp h
    cases h
    rw [if_pos ‹_›]
    exact bind_eq_ok_iff.mpr ⟨_, take_append htake s, rfl⟩
  rw [if_neg ‹_›]
  split at h
  · rw [if_pos ‹_›]
    obtain ⟨⟨n, behind⟩, hn, h⟩ := bind_eq_ok_iff.mp h
    refine bind_eq_ok_iff.mpr ⟨_, take_append hn s, ?_⟩
    split at h
    · cases h
    rw [if_neg ‹_›]
    obtain ⟨⟨b, behind⟩, hb, h⟩ := bind_eq_ok_iff.mp h
    refine bind_eq_ok_iff.mpr ⟨_, take_append hb s, ?_⟩
    dsimp only at h ⊢
    split at h
    · cases h
    · cases h
      rfl
  · cases h

variable {t : Target}

/-- **What is read does not depend on the bytes behind it.** -/
theorem socksTarget_append (h : socksTarget bytes false = .ok (t, rest)) (s : List Byte) :
    socksTarget (bytes ++ s) false = .ok (t, rest ++ s) := by
  obtain ⟨⟨host, behind⟩, hhost, h⟩ := bind_eq_ok_iff.mp h
  refine bind_eq_ok_iff.mpr ⟨_, socksHost_append hhost s, ?_⟩
  obtain ⟨⟨b, behind⟩, hb, h⟩ := bind_eq_ok_iff.mp h
  refine bind_eq_ok_iff.mpr ⟨_, take_append hb s, ?_⟩
  obtain ⟨target, htarget, h⟩ := bind_eq_ok_iff.mp h
  cases h
  exact bind_eq_ok_iff.mpr ⟨_, htarget, rfl⟩

/-! ## Addresses -/

omit [IpText] in
theorem take_length (b : List Byte) : take b.length b = .ok (b, []) := by
  rw [take, if_neg (lt_irrefl _), List.take_length, List.drop_length]

omit [IpText] in
theorem take_of_length {n : Nat} {b : List Byte} (h : b.length = n) (s : List Byte) :
    take n (b ++ s) = .ok (b, s) := by
  subst h
  exact take_append (take_length b) s

section

variable (h : Target.new t.host t.port = .ok t)
include h

theorem socksHost_addressHost (s : List Byte) :
    socksHost (addressHost t ++ s) = .ok (t.host, s) := by
  obtain ⟨hshort, hprint⟩ := Target.host_of_new h
  have htag : ∀ (tag : Byte) (rest : List Byte), take 1 (tag :: rest) = .ok ([tag], rest) :=
    fun tag rest => take_of_length (b := [tag]) rfl rest
  unfold addressHost
  cases hip : t.ip with
  | some ip =>
    rw [hprint ip hip]
    cases ip with
    | v4 a =>
      refine bind_eq_ok_iff.mpr ⟨_, htag 1 _, bind_eq_ok_iff.mpr
        ⟨_, take_of_length (length_beBytes 4 a.toNat) s, ?_⟩⟩
      dsimp only
      rw [fromBe_beBytes a.isLt, BitVec.ofNat_toNat]
      rfl
    | v6 a =>
      refine bind_eq_ok_iff.mpr ⟨_, htag 4 _, bind_eq_ok_iff.mpr
        ⟨_, take_of_length (length_beBytes 16 a.toNat) s, ?_⟩⟩
      dsimp only
      rw [fromBe_beBytes a.isLt, BitVec.ofNat_toNat]
      rfl
  | none =>
    have hne : t.host ≠ [] := (Target.new_eq_ok_iff.mp h).1
    have hlen : fromBe [UInt8.ofNat (utf8Len t.host)] = utf8Len t.host := by
      rw [← Vless.toNat_hostLength hshort]
      simp [fromBe]
    refine bind_eq_ok_iff.mpr ⟨_, htag 3 _, bind_eq_ok_iff.mpr ⟨_, htag _ _, ?_⟩⟩
    dsimp only
    rw [hlen, if_neg (utf8Len_eq_zero_iff.not.mpr hne)]
    refine bind_eq_ok_iff.mpr ⟨_, take_of_length (length_utf8Bytes _) s, ?_⟩
    rw [fromUtf8_utf8Bytes]
    rfl

/-- **An address is read to its target**, whatever follows. -/
theorem socksTarget_socksAddress (s : List Byte) :
    socksTarget (socksAddress t ++ s) false = .ok (t, s) := by
  rw [socksAddress, append_assoc]
  refine bind_eq_ok_iff.mpr ⟨_, socksHost_addressHost h _, bind_eq_ok_iff.mpr
    ⟨_, take_of_length (length_be16 _) s, ?_⟩⟩
  dsimp only
  rw [fromBe_be16 t.port.toNat_lt, UInt16.ofNat_toNat]
  exact bind_eq_ok_iff.mpr ⟨t, h, rfl⟩

theorem socksTarget_truncated {p : List Byte}
    (hp : p <+: socksAddress t) (hne : p ≠ socksAddress t) (r : Target × List Byte) :
    socksTarget p false ≠ .ok r := by
  intro hok
  obtain ⟨s, hs⟩ := hp
  have hwhole := socksTarget_socksAddress h []
  rw [append_nil, ← hs, socksTarget_append hok s] at hwhole
  -- nothing is left of the whole address, so nothing of it is missing
  have hnil := (append_eq_nil_iff.mp (Prod.mk.inj (Except.ok.inj hwhole)).2).2
  rw [hnil, append_nil] at hs
  exact hne hs

end

/-- **SOCKS addresses are read back.** Every target that `Target::new` makes is read from its
address and any bytes behind it, which are left; the length byte of a name holds its length; no
proper front part of the address is accepted. An association reads the target from a message that
was made for a client, and the payload is left. -/
theorem socks_roundTrip (hlawful : IpText.Lawful) {host : Str} {port : UInt16} {t : Target}
    (hnew : Target.new host port = .ok t) :
    (∀ s, socksTarget (socksAddress t ++ s) false = .ok (t, s)) ∧
    (UInt8.ofNat (utf8Len t.host)).toNat = (utf8Bytes t.host).length ∧
    (∀ p, p <+: socksAddress t → p ≠ socksAddress t → ∀ r, socksTarget p false ≠ .ok r) ∧
    ∀ payload, socksTarget ((replyMessage t payload).drop 3) false = .ok (t, payload) ∧
      ∀ (s : Association) (d : Datagram), d.source.ip = s.peer →
        (∀ c, s.client = some c → c = d.source) → d.bytes = replyMessage t payload →
        s.destination d = some t := by
  have hvalid := Target.new_of_new hlawful hnew
  have hread : ∀ payload, socksTarget ((replyMessage t payload).drop 3) false = .ok (t, payload) :=
    fun payload => socksTarget_socksAddress hvalid payload
  refine ⟨socksTarget_socksAddress hvalid, ?_, fun p hp hne => socksTarget_truncated hvalid hp hne,
    fun payload => ⟨hread payload, fun s d hsource hclient hbytes => ?_⟩⟩
  · rw [Vless.toNat_hostLength (Target.host_of_new hvalid).1, length_utf8Bytes]
  · have hlong : ¬ ((replyMessage t payload).length < 4 ∨
        (replyMessage t payload).take 3 ≠ [0, 0, 0]) := by
      simp [replyMessage, socksAddress]
      omega
    have hknown : ¬ (d.source.ip ≠ s.peer ∨ (s.client.any fun c => c ≠ d.source) = true) := by
      cases hc : s.client with
      | none => simp [hsource]
      | some c => simp [hsource, hclient c hc]
    rw [Association.destination, if_neg hknown, hbytes, if_neg hlong, hread]
    rfl

end Socks

section

local instance socksText : IpText := .std

/-- With the standard library's addresses, the reply of `::1` is read by its association. -/
theorem socks_roundTrip_std : Target.new "0:0::1" 443 = .ok loopbackTarget ∧
    Socks.socksTarget ((Socks.replyMessage loopbackTarget [7]).drop 3) false =
      .ok (loopbackTarget, [7]) := by
  have hnew : Target.new "0:0::1" 443 = .ok loopbackTarget := by decide +kernel
  exact ⟨hnew, ((Socks.socks_roundTrip IpText.lawful_std hnew).2.2.2 [7]).1⟩

end

end ClashMeta
