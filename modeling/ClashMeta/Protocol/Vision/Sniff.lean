import ClashMeta.Basic

/-!
# Looking for TLS inside the tunnel (protocol/src/vision.rs:11-150)

The Vision writer decides how to frame its bytes by what it has seen pass in both
directions: whether the client opened with a TLS ClientHello, and whether the
server's ServerHello, possibly spread over several records, chose TLS 1.3.
-/

namespace ClashMeta.Vision

/-- The extensions of a ServerHello from a position on: what `supported_versions` says,
or `none` when they are malformed (vision.rs:127-147). Every extension has a header of four
bytes, so the number of bytes bounds the turns. -/
def extensions : Nat → List Byte → Option Bool → Option (Option Bool)
  | _, [], version => some version
  | fuel + 1, k1 :: k0 :: n1 :: n0 :: rest, version =>
    let n := fromBe16 n1 n0
    if rest.length < n then none
    else if fromBe16 k1 k0 = 43 then
      if version.isSome ∨ n ≠ 2 then none
      else extensions fuel (rest.drop n) (some (rest.take n = [3, 4]))
    else extensions fuel (rest.drop n) version
  | _, _, _ => none

/-- `server_hello`: whether a ServerHello chose TLS 1.3, or `none` when it is malformed
(vision.rs:102-149). -/
def serverHello (bytes : List Byte) : Option Bool :=
  if bytes.length < 38 ∨ bytes.take 2 ≠ [3, 3] then none
  else
    let session := (bytes.getD 34 0).toNat
    let offset := 35 + session
    if 32 < session then none
    else if bytes.length < offset + 3 ∨ bytes.getD (offset + 2) 0 ≠ 0 then none
    else
      let suite := fromBe16 (bytes.getD offset 0) (bytes.getD (offset + 1) 0)
      if offset + 3 = bytes.length then some false
      else if bytes.length < offset + 5 then none
      else
        let length := fromBe16 (bytes.getD (offset + 3) 0) (bytes.getD (offset + 4) 0)
        if offset + 5 + length ≠ bytes.length then none
        else
          (extensions length (bytes.drop (offset + 5)) none).map fun version =>
            version = some true ∧ 0x1301 ≤ suite ∧ suite ≤ 0x1304

/-- `TlsHello`. -/
structure TlsHello where
  record : List Byte
  handshake : List Byte
  done : Bool
  deriving DecidableEq, Repr

namespace TlsHello

/-- `TlsHello::default`. -/
def empty : TlsHello := ⟨[], [], false⟩

/-- The length a record has by its header. -/
def recordLength (record : List Byte) : Nat :=
  5 + fromBe16 (record.getD 3 0) (record.getD 4 0)

/-- The bytes to collect next: the header of a record, then all of it. -/
def need (t : TlsHello) : Nat := if t.record.length < 5 then 5 else recordLength t.record

/-- The look at the handshake bytes after a whole record (vision.rs:76-98): the answer, if
the search is over. -/
def handshakeAnswer (handshake : List Byte) : Option (Option Bool) :=
  if 18432 < handshake.length then some none
  else if handshake.length < 4 then none
  else if handshake.getD 0 0 ≠ 2 then some none
  else
    let length := fromBe ((handshake.drop 1).take 3)
    if 18428 < length then some none
    else if length + 4 ≤ handshake.length then
      some (serverHello ((handshake.drop 4).take length))
    else none

/-- The loop of `TlsHello::observe` (vision.rs:51-100). Every turn takes a byte, so the
number of bytes bounds the turns. -/
def observeLoop : Nat → TlsHello → List Byte → Option Bool × TlsHello
  | 0, t, _ => (none, t)
  | fuel + 1, t, bytes =>
    if bytes = [] ∨ t.done then (none, t)
    else if 18437 < t.need then (none, { t with done := true })
    else
      let count := min bytes.length (t.need - t.record.length)
      let record := t.record ++ bytes.take count
      let rest := bytes.drop count
      if record.length < 5 then observeLoop fuel { t with record } rest
      else if record.getD 0 0 ≠ 22 ∨ record.getD 1 0 ≠ 3 then
        (none, { t with record, done := true })
      else if record.length < recordLength record then observeLoop fuel { t with record } rest
      else
        let handshake := t.handshake ++ record.drop 5
        match handshakeAnswer handshake with
        | some answer => (answer, { record := [], handshake, done := true })
        | none => observeLoop fuel { t with record := [], handshake } rest

/-- `TlsHello::observe`. -/
def observe (t : TlsHello) (bytes : List Byte) : Option Bool × TlsHello :=
  observeLoop bytes.length t bytes

end TlsHello

/-- `InnerTls`. -/
structure InnerTls where
  client : List Byte
  server : TlsHello
  tls : Bool
  tls13 : Bool
  remaining : Nat
  deriving DecidableEq, Repr

namespace InnerTls

/-- The state a stream starts with (vision.rs:192-195). -/
def fresh : InnerTls := ⟨[], .empty, false, false, 65536⟩

/-- The server's part of `InnerTls::observe`. -/
def observeServer (sniff : InnerTls) (bytes : List Byte) : InnerTls :=
  match sniff.server.observe bytes with
  | (some tls13, server) => { sniff with server, tls := true, tls13 }
  | (none, server) => { sniff with server }

/-- The client's part of `InnerTls::observe`. -/
def observeClient (sniff : InnerTls) (bytes : List Byte) : InnerTls :=
  let client := sniff.client ++ bytes.take (min bytes.length (8 - sniff.client.length))
  { sniff with
    client
    tls := sniff.tls || (6 ≤ client.length && client.getD 0 0 == 22 && client.getD 1 0 == 3 &&
      client.getD 5 0 == 1) }

/-- `InnerTls::observe` (vision.rs:20-41). -/
def observe (sniff : InnerTls) (bytes : List Byte) (server : Bool) : InnerTls :=
  if sniff.remaining = 0 ∨ sniff.tls13 then sniff
  else
    let sniff := { sniff with remaining := sniff.remaining - bytes.length }
    if server then sniff.observeServer bytes else sniff.observeClient bytes

end InnerTls

end ClashMeta.Vision
