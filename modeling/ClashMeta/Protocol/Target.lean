import ClashMeta.Text

/-!
# Targets and the VLESS address encoding

`Target` (protocol/src/lib.rs) is a destination host and port;
`encodeAddress` (protocol/src/vless.rs:171-189) is the tagged address that VLESS
requests and XUDP frames carry.
-/

namespace ClashMeta

/-- A destination: a domain name or a printed IP address, and a port. -/
structure Target where
  host : Str
  port : UInt16
  deriving DecidableEq, Repr

namespace Target

/-- The characters that cannot stand in a host that is not an address. -/
def reserved : List Char := [':', '[', ']', '/', '?', '#', '@']

variable [IpText]

/-- `Target::new`: checks the host and prints an address in canonical form. -/
def new (host : Str) (port : UInt16) : Except String Target :=
  if host = [] ∨ 253 < utf8Len host ∨ port = 0 ∨
      host.any (fun c => isControl c || isWhitespace c) then
    .error "invalid target"
  else
    match IpText.parse host with
    | some ip => .ok ⟨IpText.print ip, port⟩
    | none =>
      if host.any (reserved.contains ·) then .error "invalid target host"
      else .ok ⟨host, port⟩

/-- `Target::ip`: the address when the host is an IP literal. -/
def ip (t : Target) : Option IpAddr := IpText.parse t.host

end Target

namespace Vless

variable [IpText]

/-- The address tag and body of `encode_address`. -/
def addressBody (t : Target) : List Byte :=
  match t.ip with
  | some (.v4 a) => 1 :: (IpAddr.v4 a).octets
  | some (.v6 a) => 3 :: (IpAddr.v6 a).octets
  | none => [2, UInt8.ofNat (utf8Len t.host)] ++ utf8Bytes t.host

/-- `encode_address`: port, tag, address; an invalid target is refused. -/
def encodeAddress (t : Target) : Except String (List Byte) := do
  let _ ← Target.new t.host t.port
  return be16 t.port.toNat ++ addressBody t

end Vless

end ClashMeta
