import ClashMeta.Protocol.Vision.Sniff
import ClashMeta.Protocol.Vless.Response

/-!
# The Vision stream (protocol/src/vision.rs:151-420)

`VisionStream` as a state with its `poll_*` functions. Bytes travel in frames (a command, two
lengths, content and padding) behind the user's UUID until one side sends a frame that ends the
framing; from then on its bytes travel as they are.

The outer TLS layer is not modelled: `RecordStream` carries bytes faithfully in both directions,
and the switch to raw bytes (`read_direct`, `write_direct`) is recorded without changing what is
carried. The random generator is a sequence given in advance.
-/

namespace ClashMeta.Vision

open Vless (ResponseStream)

/-- `RecordStream` (record.rs:123-130): the stream that carries the bytes, and which of its
directions have left the outer TLS layer. -/
structure RecordStream where
  carried : Duplex IoError Byte
  readDirect : Bool
  writeDirect : Bool
  deriving DecidableEq, Repr

/-- `RecordStream::poll_read`. -/
def RecordStream.pollRead (s : RecordStream) (n : Nat) :
    Poll IoError (List Byte) × RecordStream :=
  ((s.carried.source.poll n).1,
    { s with carried := { s.carried with source := (s.carried.source.poll n).2 } })

/-- `VisionStream`. `draws` are the numbers the random generator will give, `drawn` how many
it has given. -/
structure VisionStream where
  inner : ResponseStream RecordStream
  id : Uuid
  readHeader : List Byte
  readFirst : Bool
  content : Nat
  padding : Nat
  command : Byte
  readPlain : Bool
  writeFirst : Bool
  writePlain : Bool
  pending : List Byte
  written : Nat
  switchWrite : Bool
  sniff : InnerTls
  failed : Bool
  draws : Nat → Nat
  drawn : Nat

namespace VisionStream

/-- `VisionStream::framed`. -/
def framed (inner : RecordStream) (id : Uuid) (draws : Nat → Nat) : VisionStream where
  inner := .new inner
  id := id
  readHeader := []
  readFirst := true
  content := 0
  padding := 0
  command := 0
  readPlain := false
  writeFirst := true
  writePlain := false
  pending := []
  written := 0
  switchWrite := false
  sniff := .fresh
  failed := false
  draws := draws
  drawn := 0

/-- The sink under the stream: `ResponseStream` and `RecordStream` hand writes on. -/
def sink (v : VisionStream) : Sink IoError Byte := v.inner.inner.carried.sink

/-- The stream with another sink under it. -/
def withSink (v : VisionStream) (sink : Sink IoError Byte) : VisionStream :=
  { v with inner := { v.inner with
      inner := { v.inner.inner with carried := { v.inner.inner.carried with sink } } } }

/-- `VisionStream::flush_frame` (vision.rs:199-216). -/
def flushFrame (v : VisionStream) : Poll IoError Unit × VisionStream :=
  let rest := v.pending.drop v.written
  match v.sink.writeAll .writeZero rest.length rest with
  | (.ready (), m, sink) =>
    match sink.flush with
    | (.ready (), sink) =>
      let v := { v.withSink sink with pending := [], written := 0 }
      if v.switchWrite then
        (.ready (), { v with
          inner := { v.inner with inner := { v.inner.inner with writeDirect := true } }
          switchWrite := false })
      else (.ready (), v)
    | (r, sink) => (r, { v.withSink sink with written := v.written + m })
  | (r, m, sink) => (r, { v.withSink sink with written := v.written + m })

/-! ## Reading -/

/-- `poll_read` of the inner stream. -/
def readInner (v : VisionStream) (n : Nat) : Poll IoError (List Byte) × VisionStream :=
  ((v.inner.pollRead RecordStream.pollRead n).1,
    { v with inner := (v.inner.pollRead RecordStream.pollRead n).2 })

/-- Hand out bytes read as a header that turned out to be payload. -/
def takeHeader (v : VisionStream) (n : Nat) : Poll IoError (List Byte) × VisionStream :=
  (.ready (v.readHeader.take n), { v with readHeader := v.readHeader.drop n })

/-- `poll_read` outside the framing (vision.rs:274-282). -/
def readOn (v : VisionStream) (n : Nat) : Poll IoError (List Byte) × VisionStream :=
  if v.readHeader ≠ [] then v.takeHeader n else v.readInner n

/-- `poll_read` inside the content of a frame (vision.rs:283-296). -/
def readContent (v : VisionStream) (n : Nat) : Poll IoError (List Byte) × VisionStream :=
  match v.readInner (min n v.content) with
  | (.pending, v) => (.pending, v)
  | (.failed e, v) => (.failed e, v)
  | (.ready [], v) => (.failed .unexpectedEof, v)
  | (.ready (b :: bs), v) =>
    (.ready (b :: bs), { v with
      sniff := v.sniff.observe (b :: bs) true
      content := v.content - (b :: bs).length })

/-- The loop that skips padding (vision.rs:297-306). -/
def skipPadding (v : VisionStream) : Poll IoError Bool × VisionStream :=
  match Reader.pull (ResponseStream.pollRead RecordStream.pollRead) 2048 v.padding v.padding
    v.inner with
  | (r, bytes, inner) => (r, { v with inner, padding := v.padding - bytes.length })

/-- The size of the next header: the UUID stands before the first one. -/
def need (v : VisionStream) : Nat := if v.readFirst then 21 else 5

/-- The loop that collects a header (vision.rs:314-330). -/
def fillHeader (v : VisionStream) : Poll IoError Bool × VisionStream :=
  match Reader.pull (ResponseStream.pollRead RecordStream.pollRead) v.need
    (v.need - v.readHeader.length) (v.need - v.readHeader.length) v.inner with
  | (r, bytes, inner) => (r, { v with inner, readHeader := v.readHeader ++ bytes })

/-- What a complete header says (vision.rs:331-357): whether the stream is framed at all,
and then whether its command is valid. `loop` is the next turn. -/
def openFrame (loop : VisionStream → Poll IoError (List Byte) × VisionStream)
    (v : VisionStream) (n : Nat) : Poll IoError (List Byte) × VisionStream :=
  if v.readFirst ∧ v.readHeader.take 16 ≠ v.id.toList then
    { v with readFirst := false, readPlain := true }.takeHeader n
  else
    let h := v.readHeader.drop (if v.readFirst then 16 else 0)
    let v := { v with readFirst := false, command := h.getD 0 0 }
    if 2 < v.command then
      (.failed (.other "invalid Vision command"), { v with failed := true })
    else
      loop { v with
        content := fromBe16 (h.getD 1 0) (h.getD 2 0)
        padding := fromBe16 (h.getD 3 0) (h.getD 4 0)
        readHeader := [] }

/-- The part of a turn behind the padding (vision.rs:307-357). -/
def nextFrame (loop : VisionStream → Poll IoError (List Byte) × VisionStream)
    (v : VisionStream) (n : Nat) : Poll IoError (List Byte) × VisionStream :=
  if v.command = 2 then
    { v with
      inner := { v.inner with inner := { v.inner.inner with readDirect := true } }
      readPlain := true }.readOn n
  else if v.command ≠ 0 then { v with readPlain := true }.readOn n
  else
    match v.fillHeader with
    | (.pending, v) => (.pending, v)
    | (.failed e, v) => (.failed e, v)
    | (.ready false, v) =>
      if v.readHeader = [] then (.ready [], v) else (.failed .unexpectedEof, v)
    | (.ready true, v) => v.openFrame loop n

/-- The part of a turn behind the content. -/
def passPadding (loop : VisionStream → Poll IoError (List Byte) × VisionStream)
    (v : VisionStream) (n : Nat) : Poll IoError (List Byte) × VisionStream :=
  match v.skipPadding with
  | (.pending, v) => (.pending, v)
  | (.failed e, v) => (.failed e, v)
  | (.ready false, v) => (.failed .unexpectedEof, v)
  | (.ready true, v) => v.nextFrame loop n

/-- The loop of `poll_read`, with the number of frames it may still open before it yields
(vision.rs:272-362). -/
def pollLoop : Nat → VisionStream → Nat → Poll IoError (List Byte) × VisionStream
  | 0, v, _ => (.pending, v)
  | frames + 1, v, n =>
    if v.readPlain then v.readOn n
    else if 0 < v.content then v.readContent n
    else v.passPadding (fun v => pollLoop frames v n) n

/-- `VisionStream::poll_read` (vision.rs:254-363) into a buffer with room for `n` bytes. -/
def pollRead (v : VisionStream) (n : Nat) : Poll IoError (List Byte) × VisionStream :=
  if n = 0 then (.ready [], v)
  else if v.failed then (.failed (.other "invalid Vision stream"), v)
  else
    match v.flushFrame with
    | (.failed e, v) => (.failed e, v)
    | (_, v) => pollLoop 64 v n

/-! ## Writing -/

/-- The command of the next frame (vision.rs:378-384). -/
def nextCommand (sniff : InnerTls) (bytes : List Byte) : Byte :=
  if sniff.tls ∧ bytes.take 3 = [0x17, 3, 3] then if sniff.tls13 then 2 else 1
  else if sniff.remaining = 0 ∨ (!sniff.tls ∧ 8 ≤ sniff.client.length) then 1
  else 0

/-- The padding of the next frame (vision.rs:385-391), when the generator gives `draw`. -/
def nextPadding (sniff : InnerTls) (length draw : Nat) : Nat :=
  if 900 ≤ length then 0
  else if sniff.tls then 900 - length + draw % 500
  else draw % 256

/-- A frame as it is sent (vision.rs:392-404). -/
def frame (command : Byte) (bytes : List Byte) (padding : Nat) : List Byte :=
  command :: be16 bytes.length ++ be16 padding ++ bytes ++ List.replicate padding 0

/-- The framed part of `poll_write` (vision.rs:372-409). -/
def writeFrame (v : VisionStream) (bytes : List Byte) : Poll IoError Nat × VisionStream :=
  let bytes := bytes.take (8192 - 21)
  let sniff := v.sniff.observe bytes false
  let command := nextCommand sniff bytes
  (.ready bytes.length, { v with
    sniff
    drawn := if 900 ≤ bytes.length then v.drawn else v.drawn + 1
    writeFirst := false
    pending := v.pending ++ (if v.writeFirst then v.id.toList else []) ++
      frame command bytes (nextPadding sniff bytes.length (v.draws v.drawn))
    writePlain := v.writePlain || command != 0
    switchWrite := command = 2 })

/-- `VisionStream::poll_write` (vision.rs:366-410). -/
def pollWrite (v : VisionStream) (bytes : List Byte) : Poll IoError Nat × VisionStream :=
  match v.flushFrame with
  | (.pending, v) => (.pending, v)
  | (.failed e, v) => (.failed e, v)
  | (.ready (), v) =>
    if v.writePlain then ((v.sink.write bytes).1, v.withSink (v.sink.write bytes).2)
    else if bytes = [] then (.ready 0, v)
    else v.writeFrame bytes

/-- `VisionStream::poll_flush`. -/
def pollFlush (v : VisionStream) : Poll IoError Unit × VisionStream := v.flushFrame

/-- `VisionStream::poll_shutdown`. -/
def pollShutdown (v : VisionStream) : Poll IoError Unit × VisionStream :=
  match v.flushFrame with
  | (.ready (), v) => (v.sink.shutdown.1, v.withSink v.sink.shutdown.2)
  | (r, v) => (r, v)

end VisionStream

end ClashMeta.Vision
