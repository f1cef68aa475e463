import ClashMeta.Lib.PollIo
import ClashMeta.Text
import ClashMeta.Protocol.WebSocket.Frame

/-!
# The WebSocket stream (protocol/src/websocket.rs:115-345)

`WsStream` as a state with its `poll_*` functions. The inner stream is a `Duplex`: a source whose
answers are given in advance and a sink with a plan. Masking keys are read off `masks`, one for
each frame the stream builds.

The loops of `poll_read` go around once for each answer of the source, so a fuel of
`source.size + 1` is enough: the lemmas about `pollRead` hold for the function as it stands.
-/

namespace ClashMeta.WebSocket

/-- How a poll fails: with an `io::Error`, or by a panic. -/
inductive Fault where
  | io (e : IoError)
  | panic
  deriving DecidableEq, Repr

/-- `WsStream`. `masks` are the keys the random generator will give, `drawn` how
many it has given. -/
structure WsStream where
  inner : Duplex IoError Byte
  raw : Bool
  expectedAccept : Option Str
  upgraded : Bool
  incoming : List Byte
  payload : List Byte
  payloadAt : Nat
  outgoing : List Byte
  outgoingAt : Nat
  closed : Bool
  masks : Nat → Mask
  drawn : Nat

namespace WsStream

/-- `WsStream::new`. -/
def new (inner : Duplex IoError Byte) (raw : Bool) (expectedAccept : Option Str)
    (masks : Nat → Mask) : WsStream where
  inner := inner
  raw := raw
  expectedAccept := expectedAccept
  upgraded := false
  incoming := []
  payload := []
  payloadAt := 0
  outgoing := []
  outgoingAt := 0
  closed := false
  masks := masks
  drawn := 0

/-! ## The upgrade response -/

/-- Where `\r\n\r\n` first stands. -/
def headerEnd : List Byte → Option Nat
  | [] => none
  | b :: bs =>
    if (b :: bs).take 4 = [13, 10, 13, 10] then some 0 else (headerEnd bs).map (· + 1)

/-- `split("\r\n")`. -/
def splitLines : Str → List Str
  | [] => [[]]
  | '\r' :: '\n' :: rest => [] :: splitLines rest
  | c :: rest =>
    match splitLines rest with
    | [] => [[c]]
    | line :: lines => (c :: line) :: lines

/-- The second word of the status line. -/
def statusCode (status : Str) : Option Str :=
  ((status.splitOnP isWhitespace).filter (· ≠ []))[1]?

/-- The value of the first `Sec-WebSocket-Accept` line. -/
def acceptValue (lines : List Str) : Option Str :=
  ((lines.filterMap (splitOnce ':')).find? fun e =>
    eqIgnoreCase e.1 "Sec-WebSocket-Accept").map fun e => trim e.2

/-- `WsStream::parse_upgrade`: false while the header has not ended. -/
def parseUpgrade (ws : WsStream) : Except String (Bool × WsStream) :=
  match headerEnd ws.incoming with
  | none => .ok (false, ws)
  | some stop =>
    match fromUtf8 (ws.incoming.take (stop + 4)) with
    | none => .error "invalid utf-8 sequence"
    | some head =>
      let lines := splitLines head
      let status := lines.headD []
      if statusCode status ≠ some "101".toList then
        .error ("WebSocket upgrade rejected: " ++ String.ofList status)
      else if ws.expectedAccept.isSome ∧ acceptValue lines.tail ≠ ws.expectedAccept then
        .error "invalid WebSocket accept key"
      else .ok (true, { ws with incoming := ws.incoming.drop (stop + 4), upgraded := true })

/-! ## Reading -/

/-- `poll_read` of the inner stream with room for `n` bytes. -/
def readInner (ws : WsStream) (n : Nat) : Poll IoError (List Byte) × WsStream :=
  ((ws.inner.source.poll n).1,
    { ws with inner := { ws.inner with source := (ws.inner.source.poll n).2 } })

variable {n : Nat} {r : Poll IoError (List Byte)} {ws : WsStream}

theorem readInner_moves {s : Source IoError Byte} (h : ws.inner.source.poll n = (r, s)) :
    ws.readInner n = (r, { ws with inner := { ws.inner with source := s } }) := by
  rw [readInner, h]

theorem readInner_stays (h : ws.inner.source.poll n = (r, ws.inner.source)) :
    ws.readInner n = (r, ws) :=
  readInner_moves h

/-- `WsStream::parse_frame` (websocket.rs:213-266). -/
def parseFrame (ws : WsStream) : Except Fault Bool × WsStream :=
  match WebSocket.parseFrame ws.incoming with
  | .incomplete => (.ok false, ws)
  | .oversized => (.error (.io (.other "oversized WebSocket frame")), ws)
  | .panicked => (.error .panic, ws)
  | .frame opcode data rest =>
    let ws := { ws with incoming := rest }
    if opcode = 0 ∨ opcode = 2 then (.ok true, { ws with payload := data, payloadAt := 0 })
    else if opcode = 8 then (.ok true, { ws with closed := true })
    else if opcode = 9 then
      (.ok true, { ws with
        outgoing := ws.outgoing ++ WebSocket.frame (ws.masks ws.drawn) data 10
        drawn := ws.drawn + 1 })
    else if opcode = 10 then (.ok true, ws)
    else (.error (.io (.other "unsupported WebSocket frame")), ws)

/-- Whether bytes of the last data frame are still to be handed out. -/
def hasPayload (ws : WsStream) : Bool := ws.payloadAt < ws.payload.length

/-- Hand out bytes of the last data frame. -/
def takePayload (ws : WsStream) (n : Nat) : Poll Fault (List Byte) × WsStream :=
  let count := min n (ws.payload.length - ws.payloadAt)
  (.ready ((ws.payload.drop ws.payloadAt).take count),
    { ws with payloadAt := ws.payloadAt + count })

/-- The loop of `poll_read`: one look for a frame, then one inner read
(websocket.rs:305-320). -/
def pollLoop : Nat → WsStream → Nat → Poll Fault (List Byte) × WsStream
  | 0, ws, _ => (.pending, ws)
  | fuel + 1, ws, n =>
    if ws.closed then (.ready [], ws)
    else
      match ws.parseFrame with
      | (.error e, ws) => (.failed e, ws)
      | (.ok took, ws) =>
        if took ∧ ws.hasPayload then ws.takePayload n
        else
          match ws.readInner 8192 with
          | (.pending, ws) => (.pending, ws)
          | (.failed e, ws) => (.failed (.io e), ws)
          | (.ready [], ws) => (.ready [], ws)
          | (.ready (b :: bs), ws) =>
            pollLoop fuel { ws with incoming := ws.incoming ++ b :: bs } n

/-- `poll_read` once the upgrade is done. -/
def pollUpgraded (ws : WsStream) (n : Nat) : Poll Fault (List Byte) × WsStream :=
  if ws.raw then
    if ws.incoming ≠ [] then
      (.ready (ws.incoming.take n), { ws with incoming := ws.incoming.drop n })
    else
      match ws.readInner n with
      | (.pending, ws) => (.pending, ws)
      | (.failed e, ws) => (.failed (.io e), ws)
      | (.ready bytes, ws) => (.ready bytes, ws)
  else if ws.hasPayload then ws.takePayload n
  else pollLoop (ws.inner.source.size + 1) ws n

/-- `poll_read`, at most `fuel` inner reads for the upgrade response. -/
def pollUpgrade : Nat → WsStream → Nat → Poll Fault (List Byte) × WsStream
  | 0, ws, _ => (.pending, ws)
  | fuel + 1, ws, n =>
    if ws.upgraded then ws.pollUpgraded n
    else
      match ws.parseUpgrade with
      | .error message => (.failed (.io (.other message)), ws)
      | .ok (true, ws) => ws.pollUpgraded n
      | .ok (false, ws) =>
        match ws.readInner 2048 with
        | (.pending, ws) => (.pending, ws)
        | (.failed e, ws) => (.failed (.io e), ws)
        | (.ready [], ws) => (.failed (.io .unexpectedEof), ws)
        | (.ready (b :: bs), ws) =>
          pollUpgrade fuel { ws with incoming := ws.incoming ++ b :: bs } n

/-- `WsStream::poll_read` (websocket.rs:269-322) into a buffer with room for `n`
bytes. -/
def pollRead (ws : WsStream) (n : Nat) : Poll Fault (List Byte) × WsStream :=
  pollUpgrade (ws.inner.source.size + 1) ws n

/-! ## Writing -/

/-- `WsStream::flush_outgoing` (websocket.rs:181-194). -/
def flushOutgoing (ws : WsStream) : Poll IoError Unit × WsStream :=
  let rest := ws.outgoing.drop ws.outgoingAt
  match ws.inner.sink.writeAll .writeZero rest.length rest with
  | (.ready (), _, sink) =>
    (sink.flush.1, { ws with
      inner := { ws.inner with sink := sink.flush.2 }
      outgoing := []
      outgoingAt := 0 })
  | (r, m, sink) =>
    (r, { ws with
      inner := { ws.inner with sink := sink }
      outgoingAt := ws.outgoingAt + m })

/-- `poll_write`. -/
def pollWrite (ws : WsStream) (bytes : List Byte) : Poll IoError Nat × WsStream :=
  match ws.flushOutgoing with
  | (.pending, ws) => (.pending, ws)
  | (.failed e, ws) => (.failed e, ws)
  | (.ready (), ws) =>
    if ws.raw then
      ((ws.inner.sink.write bytes).1,
        { ws with inner := { ws.inner with sink := (ws.inner.sink.write bytes).2 } })
    else
      let n := min bytes.length (16 * 1024)
      (.ready n, { ws with
        outgoing := WebSocket.frame (ws.masks ws.drawn) (bytes.take n) 2
        drawn := ws.drawn + 1 })

/-- `poll_flush`. -/
def pollFlush (ws : WsStream) : Poll IoError Unit × WsStream := ws.flushOutgoing

/-- `poll_shutdown`. -/
def pollShutdown (ws : WsStream) : Poll IoError Unit × WsStream :=
  match ws.flushOutgoing with
  | (.ready (), ws) =>
    (ws.inner.sink.shutdown.1,
      { ws with inner := { ws.inner with sink := ws.inner.sink.shutdown.2 } })
  | (r, ws) => (r, ws)

end WsStream

end ClashMeta.WebSocket
