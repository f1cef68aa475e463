import ClashMeta.Protocol.Target

/-!
# Decoding VLESS addresses

`decode_address` (protocol/src/vless.rs:190-218): a port, an address tag and an
IPv4 address, a length-prefixed domain or an IPv6 address, read from the front of
a byte string. The result says how many bytes were read.
-/

namespace ClashMeta.Vless

variable [IpText]

/-- The host behind the address tag, and where it ends. -/
def decodeHost (bytes : List Byte) (tag : Byte) : Except String (Str × Nat) :=
  if tag = 1 then
    if bytes.length < 7 then .error "truncated IPv4 address"
    else .ok (IpText.print (.v4 (.ofNat 32 (fromBe ((bytes.drop 3).take 4)))), 7)
  else if tag = 3 then
    if bytes.length < 19 then .error "truncated IPv6 address"
    else .ok (IpText.print (.v6 (.ofNat 128 (fromBe ((bytes.drop 3).take 16)))), 19)
  else if tag = 2 then
    match bytes.drop 3 with
    | [] => .error "truncated domain length"
    | len :: rest =>
      if rest.length < len.toNat then .error "truncated domain"
      else
        match fromUtf8 (rest.take len.toNat) with
        | none => .error "invalid utf-8"
        | some host => .ok (host, 4 + len.toNat)
  else .error "invalid VLESS address type"

/-- `decode_address`: the target and the number of bytes it takes. -/
def decodeAddress (bytes : List Byte) : Except String (Target × Nat) :=
  match bytes with
  | hi :: lo :: tag :: _ => do
    let (host, stop) ← decodeHost bytes tag
    let target ← Target.new host (UInt16.ofNat (fromBe16 hi lo))
    return (target, stop)
  | _ => .error "truncated VLESS address"

end ClashMeta.Vless
