import ClashMeta.Core.Packet.Loop
import ClashMeta.Lib.Pipe

/-!
# The TCP bridge of a flow (core/src/packet.rs:109-174, 457-524)

Two tasks share a TCP flow of the packet loop. The loop pumps the flow: it moves received bytes
from the socket into the channel `input`, and what the session has sent, from the channel
`output`, into the socket. The session has the other ends, as the stream `ChannelStream`.

A step is one access to a channel, so that the steps of the session fall anywhere between those
of the pump. The stack moves the socket only while the pump is not at work. The socket is here
what the pump sees of it, two byte queues; what it answers beyond that (how long the front slice
of its buffer is, whether it may receive or can send, how much of a slice it takes) comes with
the step, as any of the answers it may give.

`poll_flush` does nothing. A write that waits for room holds a place in the queue of a single
sender, so that it gets the next one: a write is pending exactly while the channel is full.
-/

namespace ClashMeta.Packet

/-- `CHUNK`. -/
def chunk : Nat := 8192

/-- The room in the channels of a flow. -/
def depth : Nat := 4

/-- `ChannelStream`, with the channels whose other ends the flow has. -/
structure ChannelStream where
  input : Channel (List Byte)
  pending : Pending Byte
  output : Channel (List Byte)
  deriving DecidableEq, Repr

namespace ChannelStream

/-- A stream with two empty channels. -/
def new : ChannelStream := ⟨.new, none, .new⟩

/-- The pending bytes go into the buffer, as far as it has room. -/
def fill (s : ChannelStream) (bytes : List Byte) (offset remaining : Nat) :
    List Byte × ChannelStream :=
  let n := min remaining (bytes.length - offset)
  ((bytes.drop offset).take n, { s with pending := Pending.advance bytes offset n })

/-- `poll_read` with room for `remaining` bytes: `none` is `Pending`, otherwise the bytes it
puts into the buffer. -/
def pollRead (s : ChannelStream) (remaining : Nat) : Option (List Byte) × ChannelStream :=
  if remaining = 0 then (some [], s)
  else
    -- what is left of the last item goes first
    match s.pending with
    | some (bytes, offset) => (s.fill bytes offset remaining).map some id
    | none =>
      match s.input.recv with
      | (.empty, _) => (none, s)
      | (.disconnected, _) => (some [], s)
      | (.item bytes, input) => ({ s with input := input }.fill bytes 0 remaining).map some id

/-- What a write returns. -/
inductive WritePoll where
  | pending
  | brokenPipe
  | ok (n : Nat)
  deriving DecidableEq, Repr

/-- `poll_write`. -/
def pollWrite (s : ChannelStream) (bytes : List Byte) : WritePoll × ChannelStream :=
  if !s.output.sender then (.brokenPipe, s)
  else if bytes = [] then (.ok 0, s)
  else if !s.output.receiver then (.brokenPipe, s)
  else if s.output.queue.length < depth then
    (.ok (min bytes.length chunk),
      { s with output := s.output.send (bytes.take (min bytes.length chunk)) })
  else (.pending, s)

/-- `poll_shutdown`. -/
def pollShutdown (s : ChannelStream) : ChannelStream :=
  { s with output := { s.output with sender := false } }

/-- The session drops its stream. -/
def drop (s : ChannelStream) : ChannelStream :=
  { s with
    input := { s.input with receiver := false }
    output := { s.output with sender := false } }

end ChannelStream

/-- The socket: its state, the received bytes that wait, and whether the peer has finished. -/
structure TcpSocket where
  state : TcpState
  received : List Byte
  finished : Bool
  deriving DecidableEq, Repr

/-- What the socket answers to the pump, as far as its queues leave it open. -/
structure Answers where
  /-- the length of the front slice that `recv` offers -/
  front : Nat
  mayRecv : Bool
  canSend : Bool
  /-- how much of its slice `send_slice` takes -/
  accepts : Nat
  deriving DecidableEq, Repr

/-- Where the pump of the flow is. -/
inductive Pumping where
  /-- Elsewhere in the loop. -/
  | idle
  /-- At the head of the receiving loop. -/
  | receiving
  /-- With a place in the channel. -/
  | reserved
  /-- Without one. -/
  | refused
  /-- Behind the receiving loop. -/
  | received
  /-- At the head of the sending loop. -/
  | sending
  /-- In it, with what `try_recv` gave. -/
  | handing
  /-- Behind the sending loop. -/
  | sent
  deriving DecidableEq, Repr

/-- A flow with its socket and its stream. `pending` and `eof` are those of `TcpFlow`; its
`input` is there while the sender of that channel is. -/
structure TcpBridge where
  socket : TcpSocket
  stream : ChannelStream
  pending : Pending Byte
  eof : Bool
  pumping : Pumping
  aborted : Bool
  retired : Bool
  deriving DecidableEq, Repr

/-- What is seen of the two byte streams. Those of `down` go to the session: bytes are received
by the socket (`put`) and read from the stream (`take`), and an end of file is read (`close`).
Those of `up` come from it: bytes are written to the stream (`put`) and handed to the socket
(`take`), and the socket is closed (`close`). -/
inductive Sight where
  | down (e : Pipe.Event Byte)
  | up (e : Pipe.Event Byte)
  deriving DecidableEq, Repr

namespace TcpBridge

/-- A bridge to a listening socket. -/
def new : TcpBridge := ⟨⟨.listen, [], false⟩, .new, none, false, .idle, false, false⟩

variable (s : TcpBridge)

/-- The pump goes on. -/
def goto (pumping : Pumping) : TcpBridge := { s with pumping := pumping }

/-- `Socket::abort`. -/
def abort : TcpBridge :=
  { s with socket := { s.socket with state := .closed }, aborted := true }

/-- `may_recv` can be false: the peer has finished and nothing waits, or there is no
connection yet, or none any more. -/
def silent : Bool :=
  s.socket.finished && s.socket.received.isEmpty || s.socket.state.opening || s.aborted

/-- `try_reserve`, when there are bytes for it. -/
def reserve : TcpBridge :=
  if s.socket.received = [] then s.goto .received
  -- the session was told that nothing more comes
  else if !s.stream.input.sender then s.abort.goto .received
  else if s.stream.input.receiver && s.stream.input.queue.length < depth then s.goto .reserved
  else s.goto .refused

/-- `recv` and the use of the permit, on a front slice of `front` bytes. -/
def recv (front : Nat) : TcpBridge :=
  let n := min front chunk
  { s with
    socket := { s.socket with received := s.socket.received.drop n }
    stream := { s.stream with input := s.stream.input.send (s.socket.received.take n) }
    pumping := .receiving }

/-- `state.input.take()`. -/
def takeInput : TcpBridge :=
  { s with stream := { s.stream with input := { s.stream.input with sender := false } } }

/-- The flow is not pumped again, and its ends of the channels go. -/
def retire : TcpBridge :=
  { s.takeInput with
    stream := { s.takeInput.stream with output := { s.stream.output with receiver := false } }
    retired := true
    pumping := .idle }

/-- `try_recv`, when nothing is pending. -/
def next : TcpBridge :=
  if s.pending.isNone && !s.eof then
    match s.stream.output.recv with
    | (.item bytes, output) =>
      { s with
        stream := { s.stream with output := output }
        pending := some (bytes, 0)
        pumping := .handing }
    | (.disconnected, _) => { s with eof := true, pumping := .handing }
    | (.empty, _) => s.goto .sent
  else s.goto .handing

/-- `send_slice`, or `close` when nothing is left. -/
def hand (accepts : Nat) : Option (TcpBridge × List Sight) :=
  match s.pending with
  | none =>
    if s.eof then
      some ({ s with socket := { s.socket with state := s.socket.state.close } }.goto .sent,
        [.up .close])
    else some (s.goto .sent, [])
  | some (bytes, offset) =>
    -- `send_slice` takes at most what it is given; an error counts as nothing
    if (bytes.drop offset).length < accepts then none
    else if accepts = 0 then some (s.goto .sent, [])
    else
      some ({ s with pending := Pending.advance bytes offset accepts, pumping := .sending },
        [.up (.take ((bytes.drop offset).take accepts))])

/-- The next step of the pump, with the answers of the socket. -/
def pump (answers : Answers) : Option (TcpBridge × List Sight) :=
  match s.pumping with
  | .idle => none
  | .receiving => some (s.reserve, [])
  | .refused => some ((if s.stream.input.receiver then s else s.abort).goto .received, [])
  | .reserved =>
    if answers.front = 0 ∨ s.socket.received.length < answers.front then none
    else some (s.recv answers.front, [])
  | .received =>
    if answers.mayRecv then some (s.goto .sending, [])
    -- not an answer of the socket
    else if !s.silent then none
    else some ((if s.socket.state.opening then s else s.takeInput).goto .sending, [])
  | .sending => if answers.canSend then some (s.next, []) else some (s.goto .sent, [])
  | .handing => s.hand answers.accepts
  | .sent => if s.socket.state.isOpen then some (s.goto .idle, []) else some (s.retire, [])

end TcpBridge

/-- What happens next. -/
inductive BridgeAction where
  /-- Bytes of the peer arrive at the socket. -/
  | arrive (bytes : List Byte)
  /-- The peer finishes. -/
  | finish
  /-- The stack moves the socket. -/
  | wire (state : TcpState)
  /-- The loop joins the task of the session. -/
  | join (failed : Bool)
  /-- The loop comes to the flow, which may have timed out. -/
  | visit (timeout : Bool)
  | pump (answers : Answers)
  | read (remaining : Nat)
  | write (bytes : List Byte)
  | shutdown
  /-- The session drops its stream. -/
  | drop
  deriving DecidableEq, Repr

namespace TcpBridge

/-- What a read shows: room in the buffer that stays empty is the end of the stream. -/
def readSight (remaining : Nat) : Option (List Byte) → List Sight
  | none => []
  | some [] => if remaining = 0 then [] else [.down .close]
  | some bytes => [.down (.take bytes)]

/-- What a write shows. -/
def writeSight (bytes : List Byte) : ChannelStream.WritePoll → List Sight
  | .ok n => [.up (.put (bytes.take n))]
  | _ => []

/-- One step, with what it shows. The socket is moved while the pump is elsewhere. -/
def step (s : TcpBridge) : BridgeAction → Option (TcpBridge × List Sight)
  | .arrive bytes =>
    if s.pumping = .idle ∧ s.socket.finished = false then
      some ({ s with socket := { s.socket with received := s.socket.received ++ bytes } },
        [.down (.put bytes)])
    else none
  | .finish =>
    if s.pumping = .idle then
      some ({ s with socket := { s.socket with finished := true } }, [])
    else none
  | .wire state =>
    if s.pumping = .idle then some ({ s with socket := { s.socket with state := state } }, [])
    else none
  | .join failed =>
    if s.pumping = .idle ∧ s.stream.input.receiver = false then
      some (if failed then s.abort else s, [])
    else none
  | .visit timeout =>
    if s.pumping = .idle ∧ s.retired = false then
      some ((if timeout then s.abort else s).goto .receiving, [])
    else none
  | .pump answers => s.pump answers
  | .read remaining =>
    if s.stream.input.receiver then
      let (result, stream) := s.stream.pollRead remaining
      some ({ s with stream := stream }, readSight remaining result)
    else none
  | .write bytes =>
    if s.stream.input.receiver then
      let (result, stream) := s.stream.pollWrite bytes
      some ({ s with stream := stream }, writeSight bytes result)
    else none
  | .shutdown =>
    if s.stream.input.receiver then some ({ s with stream := s.stream.pollShutdown }, [])
    else none
  | .drop => some ({ s with stream := s.stream.drop }, [])

end TcpBridge

/-- The flow and its session, with what was seen of the byte streams. -/
def bridgeSystem : Lts (TcpBridge × List Sight) BridgeAction where
  init := (.new, [])
  step p a := (p.1.step a).map fun r => (r.1, p.2 ++ r.2)

end ClashMeta.Packet
