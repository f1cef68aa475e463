import ClashMeta.AddressText
import ClashMeta.Config.Validate
import ClashMeta.Core.Packet.Loop

/-!
# DNS hijacking

Flows of the TUN device whose endpoint is in `tun.dns-hijack` are answered by the resolver
(core/src/packet.rs:247-264). The configuration check reads an entry as a port or a socket
address (config/src/lib.rs:709-722), but `hijack_dns` compares its text with the printed port
and endpoint.
-/

namespace ClashMeta.Packet

open List AddressText

/-- `IpEndpoint::to_string`: the address, a colon and the port. -/
def IpEndpoint.print (e : IpEndpoint) : Str :=
  AddressText.printIp e.addr ++ ':' :: Nat.toDigits 10 e.port.toNat

/-- An entry behind its scheme, when that agrees with the protocol (packet.rs:249-261). -/
def forProtocol (tcp : Bool) (entry : Str) : Option Str :=
  match stripStart "tcp://" entry with
  | some rest => if tcp then some rest else none
  | none =>
    match stripStart "udp://" entry with
    | some rest => if tcp then none else some rest
    | none => some entry

/-- `any:port`. -/
def anyPort (port : UInt16) : Str := "any:" ++ Nat.toDigits 10 port.toNat

/-- `hijack_dns` (packet.rs:247-264). -/
def hijackDns (entries : List Str) (endpoint : IpEndpoint) (tcp : Bool) : Bool :=
  entries.any fun entry =>
    match forProtocol tcp entry with
    | some rest => rest == anyPort endpoint.port || rest == endpoint.print
    | none => false

/-! ## What entries mean -/

/-- A port at any address, or an address and a port. -/
inductive Hijack where
  | any (port : UInt16)
  | address (endpoint : IpEndpoint)
  deriving DecidableEq

namespace Hijack

/-- The flows it is about. -/
def Covers (endpoint : IpEndpoint) : Hijack → Prop
  | any port => port = endpoint.port
  | address e => e = endpoint

/-- Its printed form. -/
def print : Hijack → Str
  | any port => anyPort port
  | address e => e.print

/-- It is about IPv4 or about any address. -/
def Plain : Hijack → Prop
  | any _ => True
  | address e => e.addr.isIpv6 = false

end Hijack

/-- What an entry behind its scheme says, by the parsers of the configuration check. -/
def meaning (rest : Str) : Option Hijack :=
  match stripStart "any:" rest with
  | some port =>
    match parseUint 65536 port with
    | .ok p => some (.any (UInt16.ofNat p))
    | .error _ => none
  | none => (AddressText.parseSocketAddr rest).map fun a => .address ⟨a.1, a.2⟩

/-- Some entry for the protocol is about the endpoint. -/
def Denoted (entries : List Str) (endpoint : IpEndpoint) (tcp : Bool) : Prop :=
  ∃ entry ∈ entries, ∃ rest h, forProtocol tcp entry = some rest ∧ meaning rest = some h ∧
    h.Covers endpoint

/-- Every entry is covered by one in plain spelling: for each of its protocols some entry has
the printed form of its IPv4 endpoint, or of its port at any address. -/
def CoveredPlainly (entries : List Str) : Prop :=
  ∀ entry ∈ entries, ∀ tcp rest h, forProtocol tcp entry = some rest → meaning rest = some h →
    ∃ entry' ∈ entries, ∃ h' : Hijack, h'.Plain ∧ forProtocol tcp entry' = some h'.print ∧
      ∀ endpoint, h.Covers endpoint → h'.Covers endpoint

/-! ## Printed forms -/

theorem stripStart_append (d s : Str) : stripStart d (d ++ s) = some s := by
  unfold stripStart
  rw [if_pos ( isPrefixOf_iff_prefix.mpr (prefix_append d s)), drop_left]

theorem stripStart_eq_none {c : Char} {d s : Str} (hd : c ∈ d) (hs : c ∉ s) :
    stripStart d s = none := by
  refine if_neg fun hpre => hs ?_
  exact ( isPrefixOf_iff_prefix.mp hpre).subset hd

theorem parseDigits_eq_ok {bound acc : Nat} {s : Str} (hs : ∀ c ∈ s, c.isDigit = true)
    (h : Nat.ofDigitChars 10 s acc < bound) :
    parseDigits bound acc s = .ok (Nat.ofDigitChars 10 s acc) := by
  induction s generalizing acc with
  | nil => rfl
  | cons c s ih =>
    rw [forall_mem_cons] at hs
    rw [Nat.ofDigitChars_cons] at h ⊢
    have hmono : 10 * acc + (c.toNat - '0'.toNat) ≤
        Nat.ofDigitChars 10 s (10 * acc + (c.toNat - '0'.toNat)) := by
      rw [Nat.ofDigitChars_eq_ofDigitChars_zero]
      have hpos : 0 < 10 ^ s.length := Nat.pow_pos (by decide)
      have := Nat.le_mul_of_pos_left (10 * acc + (c.toNat - '0'.toNat)) hpos
      omega
    rw [parseDigits, if_neg (not_not_intro hs.1), mul_comm acc 10, if_pos (by omega), ih hs.2 h]

theorem parseUint_toDigits {n bound : Nat} (h : n < bound) :
    parseUint bound (Nat.toDigits 10 n) = .ok n := by
  have hdigits : ∀ c ∈ Nat.toDigits 10 n, c.isDigit = true :=
    fun c hc => Nat.isDigit_of_mem_toDigits (by decide) (by decide) hc
  have hparse : parseDigits bound 0 (Nat.toDigits 10 n) = .ok n := by
    rw [parseDigits_eq_ok hdigits (by rwa [Nat.ofDigitChars_ten_toDigits]),
      Nat.ofDigitChars_ten_toDigits]
  unfold parseUint
  split
  · rename_i hnil
    exact absurd hnil Nat.toDigits_ne_nil
  · rename_i hplus
    rw [hplus] at hdigits
    exact absurd (hdigits '+' mem_cons_self) (by decide)
  · rename_i hplus
    rw [hplus] at hdigits
    exact absurd (hdigits '+' mem_cons_self) (by decide)
  · exact hparse

theorem meaning_anyPort (port : UInt16) : meaning (anyPort port) = some (.any port) := by
  unfold meaning anyPort
  rw [stripStart_append]
  dsimp only
  rw [parseUint_toDigits port.toNat_lt]
  dsimp only
  rw [UInt16.ofNat_toNat]

theorem stripStart_any_print (e : IpEndpoint) : stripStart "any:" e.print = none := by
  have haddr : 'n' ∉ printIp e.addr := by
    cases e.addr with
    | v4 a => exact notMem_printIpv4 a (by decide) (by decide)
    | v6 a =>
      rcases printIpv6_cases a with ⟨b, hmapped⟩ | hdigits
      · show 'n' ∉ printIpv6 a
        rw [hmapped, mem_append, not_or]
        exact ⟨by decide, notMem_printIpv4 b (by decide) (by decide)⟩
      · exact hdigits 'n' (by decide) (by decide)
  have hport := notMem_toDigits_port e.port (d := 'n') (by decide) (by decide)
  refine stripStart_eq_none (c := 'n') (by decide) ?_
  rw [IpEndpoint.print, mem_append, not_or]
  exact ⟨haddr, hport⟩

/-- **A printed IPv4 endpoint means itself.** -/
theorem meaning_print_v4 (a : BitVec 32) (port : UInt16) :
    meaning (IpEndpoint.print ⟨.v4 a, port⟩) = some (.address ⟨.v4 a, port⟩) := by
  unfold meaning
  rw [stripStart_any_print]
  show Option.map _ (parseSocketAddr (printIpv4 a ++
    ':' :: Nat.toDigits 10 port.toNat)) = _
  rw [parseSocketAddr_printIpv4]
  rfl

/-- **A printed IPv6 endpoint means nothing.** -/
theorem meaning_print_v6 (a : BitVec 128) (port : UInt16) :
    meaning (IpEndpoint.print ⟨.v6 a, port⟩) = none := by
  unfold meaning
  rw [stripStart_any_print]
  show Option.map _ (parseSocketAddr (printIpv6 a ++
    ':' :: Nat.toDigits 10 port.toNat)) = _
  rw [parseSocketAddr_printIpv6]
  rfl

/-! ## Entries that the check accepts -/

section

variable [ConfigText] {entries : List Str} {entry rest : Str} {tcp : Bool}

theorem validHijack_of_validate {index : Nat} (h : validateHijacks index entries = .ok ()) :
    ∀ entry ∈ entries, validHijack entry = true := by
  induction entries generalizing index with
  | nil => exact fun entry hmem => absurd hmem not_mem_nil
  | cons value rest ih =>
    obtain ⟨hvalid, hrest⟩ := ensure_bind_eq_ok_iff.mp h
    exact forall_mem_cons.mpr ⟨hvalid, ih hrest⟩

omit [ConfigText] in
theorem forProtocol_eq (h : forProtocol tcp entry = some rest) :
    rest = ((stripStart "tcp://" entry).or (stripStart "udp://" entry)).getD
      entry := by
  unfold forProtocol at h
  cases htcp : stripStart "tcp://" entry with
  | some value =>
    rw [htcp] at h
    dsimp only at h
    split at h
    · cases h
      rfl
    · cases h
  | none =>
    rw [htcp] at h
    cases hudp : stripStart "udp://" entry with
    | some value =>
      rw [hudp] at h
      dsimp only at h
      split at h
      · cases h
      · cases h
        rfl
    | none =>
      rw [hudp] at h
      cases h
      rfl

/-- **An entry that is accepted means something.** -/
theorem meaning_isSome (hstd : ∀ s, ConfigText.parseSocketAddr s = parseSocketAddr s)
    (hvalid : validHijack entry) (h : forProtocol tcp entry = some rest) :
    (meaning rest).isSome := by
  unfold validHijack at hvalid
  rw [← forProtocol_eq h] at hvalid
  dsimp only at hvalid
  unfold meaning
  cases hany : stripStart "any:" rest with
  | some port =>
    rw [hany] at hvalid
    dsimp only at hvalid ⊢
    cases hport : parseUint 65536 port with
    | ok p => rfl
    | error e =>
      rw [hport] at hvalid
      cases hvalid
  | none =>
    rw [hany] at hvalid
    rw [hstd] at hvalid
    obtain ⟨a, ha, -⟩ := (Option.any_eq_true _ _).mp hvalid
    rw [ha]
    rfl

/-! ## Agreement -/

omit [ConfigText] in
theorem hijackDns_iff {endpoint : IpEndpoint} : hijackDns entries endpoint tcp = true ↔
    ∃ entry ∈ entries, forProtocol tcp entry = some (anyPort endpoint.port) ∨
      forProtocol tcp entry = some endpoint.print := by
  unfold hijackDns
  rw [any_eq_true]
  refine exists_congr fun entry => and_congr_right fun _ => ?_
  cases forProtocol tcp entry with
  | none | some rest => simp

theorem ipv4_of_print (hstd : ∀ s, ConfigText.parseSocketAddr s = parseSocketAddr s)
    (hvalid : validHijack entry) {endpoint : IpEndpoint}
    (h : forProtocol tcp entry = some endpoint.print) :
    endpoint.addr.isIpv6 = false ∧ meaning endpoint.print = some (.address endpoint) := by
  have hsome := meaning_isSome hstd hvalid h
  obtain ⟨addr, port⟩ := endpoint
  cases addr with
  | v4 a => exact ⟨rfl, meaning_print_v4 a port⟩
  | v6 a =>
    rw [meaning_print_v6] at hsome
    cases hsome

theorem denoted_of_hijackDns
    (hstd : ∀ s, ConfigText.parseSocketAddr s = parseSocketAddr s)
    (hvalid : ∀ entry ∈ entries, validHijack entry = true) {endpoint : IpEndpoint}
    (h : hijackDns entries endpoint tcp) : Denoted entries endpoint tcp := by
  obtain ⟨entry, hentry, hany | hprint⟩ := hijackDns_iff.mp h
  · exact ⟨entry, hentry, _, _, hany, meaning_anyPort _, rfl⟩
  · exact ⟨entry, hentry, _, _, hprint, (ipv4_of_print hstd (hvalid entry hentry) hprint).2, rfl⟩

/-- An endpoint that a meaning is about and that no IPv4 entry reaches: of the meaning itself, or
any IPv6 one. -/
def Hijack.probe : Hijack → IpEndpoint
  | any port => ⟨.v6 0, port⟩
  | address e => e

omit [ConfigText] in
theorem Hijack.covers_probe (h : Hijack) : h.Covers h.probe := by
  cases h <;> rfl

/-- **DNS hijacking matches its configuration exactly when every entry is covered plainly.** For
every list that the configuration check accepts: `hijack_dns` agrees with the meaning of the
entries for all endpoints and both protocols if and only if for every entry and each of its
protocols some entry that reaches as far is spelled `any:port` or `IPv4:port` in plain
decimal. -/
theorem hijack_denoted_iff
    (hstd : ∀ s, ConfigText.parseSocketAddr s = parseSocketAddr s)
    (entries : List Str) (hvalid : validateHijacks 0 entries = .ok ()) :
    (∀ endpoint tcp, hijackDns entries endpoint tcp = true ↔ Denoted entries endpoint tcp) ↔
      CoveredPlainly entries := by
  have hall := validHijack_of_validate hvalid
  constructor
  · intro h entry hentry tcp rest m hrest hmeaning
    -- the probe is denoted by the entry, so the comparison finds a printed form
    have hfound := (h m.probe tcp).mpr ⟨entry, hentry, rest, m, hrest, hmeaning, m.covers_probe⟩
    obtain ⟨entry', hentry', hany | hprint⟩ := hijackDns_iff.mp hfound
    · refine ⟨entry', hentry', .any m.probe.port, trivial, hany, ?_⟩
      intro endpoint hcovers
      cases m with
      | any port => exact hcovers
      | address e => exact congrArg IpEndpoint.port hcovers
    · obtain ⟨hv4, -⟩ := ipv4_of_print hstd (hall entry' hentry') hprint
      cases m with
      | any port => cases hv4
      | address e => exact ⟨entry', hentry', .address e, hv4, hprint, fun _ hcovers => hcovers⟩
  · intro h endpoint tcp
    refine ⟨denoted_of_hijackDns hstd hall, ?_⟩
    rintro ⟨entry, hentry, rest, m, hrest, hmeaning, hcovers⟩
    obtain ⟨entry', hentry', m', -, hprint, hreach⟩ := h entry hentry tcp rest m hrest hmeaning
    have hcovers' := hreach endpoint hcovers
    refine hijackDns_iff.mpr ⟨entry', hentry', ?_⟩
    cases m' with
    | any port =>
      cases hcovers'
      exact .inl hprint
    | address e =>
      cases hcovers'
      exact .inr hprint

end

section

/-- The configuration's reading of socket addresses is that of the standard library. -/
local instance : ConfigText :=
  { ConfigText.none with parseSocketAddr := AddressText.parseSocketAddr }

/-- The default list is spelled plainly. -/
theorem hijack_denoted_iff_default :
    validateHijacks 0 ["any:53"] = .ok () ∧ CoveredPlainly ["any:53"] ∧
      ∀ endpoint tcp, hijackDns ["any:53"] endpoint tcp = true ↔
        Denoted ["any:53"] endpoint tcp := by
  have hvalid : validateHijacks 0 ["any:53"] = .ok () := rfl
  have hplain : CoveredPlainly ["any:53"] := by
    intro entry hentry tcp rest h hrest hmeaning
    cases mem_singleton.mp hentry
    have hall : forProtocol tcp "any:53" = some (anyPort 53) := by cases tcp <;> rfl
    cases hall.symm.trans hrest
    cases (meaning_anyPort 53).symm.trans hmeaning
    exact ⟨_, hentry, .any 53, trivial, hall, fun _ hcovers => hcovers⟩
  exact ⟨hvalid, hplain, (hijack_denoted_iff (fun _ => rfl) _ hvalid).mpr hplain⟩

/-- Two accepted entries that are never found: a port with a zero in front, and an IPv6
socket address. -/
theorem accepted_entries_not_found :
    (validateHijacks 0 ["any:053"] = .ok () ∧
      Denoted ["any:053"] ⟨.v4 0x01010101, 53⟩ false ∧
      hijackDns ["any:053"] ⟨.v4 0x01010101, 53⟩ false = false) ∧
    validateHijacks 0 ["[::1]:53"] = .ok () ∧
      Denoted ["[::1]:53"] ⟨.v6 1, 53⟩ true ∧
      hijackDns ["[::1]:53"] ⟨.v6 1, 53⟩ true = false :=
  ⟨⟨rfl, ⟨_, mem_singleton_self _, _, .any 53, rfl, rfl, rfl⟩, rfl⟩, rfl,
    ⟨_, mem_singleton_self _, _, .address ⟨.v6 1, 53⟩, rfl, rfl, rfl⟩, rfl⟩

end

end ClashMeta.Packet
