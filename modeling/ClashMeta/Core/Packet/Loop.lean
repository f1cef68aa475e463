import ClashMeta.Basic
import ClashMeta.Lib.Lts
import ClashMeta.Lib.Table

/-!
# The packet loop

The loop that turns raw IP packets into proxy sessions (core/src/packet.rs:340-576), as a
transition system. One iteration goes through its phases in the order of the source:

- `intake`: one packet, or nothing, from the device; a SYN opens a TCP flow, a datagram opens a
  UDP port;
- `poll`: the TCP/IP stack moves the sockets;
- `join`: the results of finished session tasks are consumed, one after another;
- `pump`: every TCP flow is pumped, and retired when its socket is not open;
- `dispatch`: datagrams go to their UDP flows, which open here;
- `reply`: at most 256 replies go back;
- `expire`: idle ports go, with the flows to them;
- `reap`: the stack moves the sockets again, then retired sockets go.

A session task finishes at any time, between any two steps of the loop, also after it was
aborted. The TCP/IP stack and the channels are external: a step that depends on them carries
what they do (`wire`, the `Pump` of a flow, the handle of a new socket).
-/

namespace ClashMeta.Packet

/-- `IpEndpoint`. -/
structure IpEndpoint where
  addr : IpAddr
  port : UInt16
  deriving DecidableEq, Repr

/-- `Flow`: the key of the flow tables. -/
structure Flow where
  source : IpEndpoint
  target : IpEndpoint
  tcp : Bool
  deriving DecidableEq, Repr

/-- `MAX_TCP`, `MAX_UDP` and `MAX_PORTS`. -/
def maxTcp : Nat := 512

@[inherit_doc maxTcp] def maxUdp : Nat := 512

@[inherit_doc maxTcp] def maxPorts : Nat := 256

/-- The states of a TCP socket, `smoltcp`'s `tcp::State`. -/
inductive TcpState where
  | closed
  | listen
  | synSent
  | synReceived
  | established
  | finWait1
  | finWait2
  | closeWait
  | closing
  | lastAck
  | timeWait
  deriving DecidableEq, Repr

namespace TcpState

/-- `Socket::is_open`, as `smoltcp` documents it: the socket still takes in or sends packets. It
does not when it is closed or waits for the time after a close. -/
def isOpen : TcpState → Bool
  | closed => false
  | timeWait => false
  | _ => true

/-- `Socket::close`, as `smoltcp` documents it: the transmit half is closed, by the transitions
of TCP for that request. -/
def close : TcpState → TcpState
  | listen => closed
  | synSent => closed
  | synReceived => finWait1
  | established => finWait1
  | closeWait => lastAck
  | state => state

/-- The handshake has not completed. -/
def opening (state : TcpState) : Bool := state == listen || state == synReceived

end TcpState

/-- A socket of the socket set. -/
inductive Socket where
  | tcp (state : TcpState)
  | udp (endpoint : IpEndpoint)
  deriving DecidableEq, Repr

/-- The control part of `TcpFlow`: its socket, its task and when it was last active. -/
structure TcpFlow where
  handle : Nat
  task : Nat
  last : Nat
  deriving DecidableEq, Repr

/-- The control part of `UdpFlow`. -/
structure UdpFlow where
  task : Nat
  deriving DecidableEq, Repr

/-- `UdpPort`. -/
structure UdpPort where
  handle : Nat
  last : Nat
  deriving DecidableEq, Repr

/-- How a task ended: with the session's result, by the abort, or by a panic. The last two
are a `JoinError`. -/
inductive Outcome where
  | ok
  | err
  | cancelled
  | panicked
  deriving DecidableEq, Repr

/-- A task of the `JoinSet`: the flow it returns, whether it was aborted, how it ended. -/
structure Task where
  flow : Flow
  aborted : Bool
  outcome : Option Outcome
  deriving DecidableEq, Repr

/-- Where the loop stands; `pump` and `expire` carry the entries still to visit. -/
inductive Phase where
  | intake
  | poll
  | join
  | pump (todo : List Flow)
  | dispatch
  | reply (left : Nat)
  | expire (todo : List IpEndpoint)
  | reap
  deriving DecidableEq, Repr

/-- The variables of the loop, its tasks, and the time in milliseconds. -/
structure Loop where
  tcp : Table Flow TcpFlow
  udp : Table Flow UdpFlow
  ports : Table IpEndpoint UdpPort
  sockets : Table Nat Socket
  tasks : Table Nat Task
  nextTask : Nat
  retired : List Nat
  phase : Phase
  now : Nat

namespace Loop

/-- The loop before its first iteration. -/
def new : Loop := ⟨∅, ∅, ∅, ∅, ∅, 0, [], .intake, 0⟩

/-- `tasks.spawn`. -/
def spawn (s : Loop) (flow : Flow) : Loop :=
  { s with tasks := s.tasks.insert s.nextTask ⟨flow, false, none⟩, nextTask := s.nextTask + 1 }

/-- `AbortHandle::abort` of the tasks that `p` selects. -/
def abortWhere (tasks : Table Nat Task) (p : Nat → Bool) : Table Nat Task :=
  tasks.filterMap fun k t => some { t with aborted := t.aborted || p k }

end Loop

/-- What the pump of one flow does beyond its timeouts (packet.rs:468-516): it may move data,
abort the socket (nobody takes the data) or close it (the session has ended its output). -/
structure Pump where
  active : Bool
  aborts : Bool
  closes : Bool
  deriving DecidableEq, Repr

/-- The steps of the loop, of its tasks and of the clock. -/
inductive Action where
  /-- Nothing for the tables: a tick, or a packet of no flow. -/
  | idle
  /-- A packet of a flow; `handle` is the socket the set would give. -/
  | packet (flow : Flow) (syn : Bool) (handle : Nat)
  /-- The stack moves a TCP socket, within `iface.poll`. -/
  | wire (handle : Nat) (state : TcpState)
  /-- The phase ends. -/
  | next
  /-- `try_join_next` returns this task. -/
  | join (task : Nat)
  /-- The next flow of the pump. -/
  | pump (does : Pump)
  /-- A datagram waits in the socket of a port. -/
  | datagram (source target : IpEndpoint)
  /-- A reply of a UDP session. -/
  | reply (flow : Flow)
  /-- The next port of the expiry. -/
  | expire
  /-- A task ends. -/
  | finish (task : Nat) (outcome : Outcome)
  /-- Time passes. -/
  | tick (ms : Nat)
  deriving DecidableEq, Repr

namespace Loop

variable (s : Loop)

/-- Opening a TCP flow (packet.rs:414-425). -/
def openTcp (flow : Flow) (handle : Nat) : Loop :=
  let s' := s.spawn flow
  { s' with
    sockets := s.sockets.insert handle (.tcp .listen)
    tcp := s.tcp.insert flow ⟨handle, s.nextTask, s.now⟩ }

/-- Opening a UDP port (packet.rs:426-431). -/
def openPort (target : IpEndpoint) (handle : Nat) : Loop :=
  { s with
    sockets := s.sockets.insert handle (.udp target)
    ports := s.ports.insert target ⟨handle, s.now⟩ }

/-- A SYN opens a flow that is not there and has room. -/
def opensTcp (flow : Flow) (syn : Bool) : Bool :=
  flow.tcp && syn && (s.tcp.lookup flow).isNone && s.tcp.size < maxTcp

/-- A datagram opens a port that is not there and has room. -/
def opensPort (flow : Flow) : Bool :=
  !flow.tcp && (s.ports.lookup flow.target).isNone && s.ports.size < maxPorts

/-- The packet intake (packet.rs:404-437); a new socket takes a free handle. -/
def intake (flow : Flow) (syn : Bool) (handle : Nat) : Option Loop :=
  if (s.sockets.lookup handle).isSome then none
  else if s.opensTcp flow syn then some (s.openTcp flow handle)
  else if s.opensPort flow then some (s.openPort flow.target handle)
  else some s

/-- Consuming the result of a finished task (packet.rs:444-456). -/
def consume (flow : Flow) : Outcome → Loop
  | .cancelled => s
  | .panicked => s
  | outcome =>
    if flow.tcp then
      match s.tcp.lookup flow with
      | some state =>
        if outcome = .err then
          { s with sockets := s.sockets.insert state.handle (.tcp .closed) }
        else s
      | none => s
    else { s with udp := s.udp.erase flow }

/-- `try_join_next` takes a finished task out of the set. -/
def join (k : Nat) : Option Loop :=
  match s.tasks.lookup k with
  | some ⟨flow, _, some outcome⟩ =>
    some ({ s with tasks := s.tasks.erase k }.consume flow outcome)
  | _ => none

/-- The state of a flow's socket after its pump (packet.rs:459-516). -/
def pumped (flow : TcpFlow) (does : Pump) (state : TcpState) : TcpState :=
  let idle := s.now - flow.last
  let state := if 300000 < idle then .closed else state
  let state := if state.opening && 30000 < idle then .closed else state
  if does.aborts then .closed else if does.closes then state.close else state

/-- Pumping one flow, and retiring it when its socket is not open (packet.rs:458-524). -/
def pump (flow : Flow) (does : Pump) : Loop :=
  match s.tcp.lookup flow with
  | none => s
  | some e =>
    match s.sockets.lookup e.handle with
    | some (.tcp state) =>
      let state := s.pumped e does state
      let s' := { s with sockets := s.sockets.insert e.handle (.tcp state) }
      if state.isOpen then
        { s' with tcp := s.tcp.insert flow (if does.active then { e with last := s.now } else e) }
      else
        { s' with
          tcp := s.tcp.erase flow
          tasks := abortWhere s.tasks (· == e.task)
          retired := s.retired ++ [e.handle] }
    | _ => s

/-- A datagram for a port (packet.rs:525-547): its flow opens when it is not there and has
room. -/
def datagram (source target : IpEndpoint) : Option Loop :=
  match s.ports.lookup target with
  | none => none
  | some port =>
    let flow : Flow := ⟨source, target, false⟩
    let s := { s with ports := s.ports.insert target { port with last := s.now } }
    if (s.udp.lookup flow).isNone && s.udp.size < maxUdp then
      some { s.spawn flow with udp := s.udp.insert flow ⟨s.nextTask⟩ }
    else some s

/-- A reply keeps its port alive (packet.rs:548-557). -/
def reply (flow : Flow) : Loop :=
  match s.ports.lookup flow.target with
  | some port => { s with ports := s.ports.insert flow.target { port with last := s.now } }
  | none => s

/-- The tasks of the UDP flows to an endpoint. -/
def tasksTo (target : IpEndpoint) : List Nat :=
  (s.udp.entries.filter fun e => e.1.target = target).map fun e => e.2.task

/-- The expiry of one port (packet.rs:558-571). -/
def expire (target : IpEndpoint) : Loop :=
  match s.ports.lookup target with
  | none => s
  | some port =>
    if s.now - port.last ≤ 120000 then s
    else
      { s with
        udp := s.udp.filterMap fun flow e => if flow.target = target then none else some e
        tasks := abortWhere s.tasks ((s.tasksTo target).contains ·)
        sockets := s.sockets.erase port.handle
        ports := s.ports.erase target }

/-- Retired sockets leave the set (packet.rs:573-575). -/
def reap : Loop :=
  { s with
    sockets := s.sockets.filterMap fun h socket => if h ∈ s.retired then none else some socket
    retired := [] }

/-- The end of a phase. The join goes on while a task has finished. -/
def next : Option Loop :=
  match s.phase with
  | .intake => none
  | .poll => some { s with phase := .join }
  | .join =>
    if s.tasks.values.all fun t => t.outcome.isNone then
      some { s with phase := .pump s.tcp.keys }
    else none
  | .pump [] => some { s with phase := .dispatch }
  | .pump _ => none
  | .dispatch => some { s with phase := .reply 256 }
  | .reply _ => some { s with phase := .expire s.ports.keys }
  | .expire [] => some { s with phase := .reap }
  | .expire _ => none
  | .reap => some { s.reap with phase := .intake }

/-- The end of a task: a cancelled one was aborted. -/
def finish (k : Nat) (outcome : Outcome) : Option Loop :=
  match s.tasks.lookup k with
  | some ⟨flow, aborted, none⟩ =>
    if outcome = .cancelled ∧ aborted = false then none
    else some { s with tasks := s.tasks.insert k ⟨flow, aborted, some outcome⟩ }
  | _ => none

/-- One step. -/
def step : Action → Option Loop
  | .idle => if s.phase = .intake then some { s with phase := .poll } else none
  | .packet flow syn handle =>
    if s.phase = .intake then
      (s.intake flow syn handle).map fun s => { s with phase := .poll }
    else none
  | .wire handle state =>
    match s.sockets.lookup handle with
    | some (.tcp _) =>
      if s.phase = .poll ∨ s.phase = .reap then
        some { s with sockets := s.sockets.insert handle (.tcp state) }
      else none
    | _ => none
  | .next => s.next
  | .join k => if s.phase = .join then s.join k else none
  | .pump does =>
    match s.phase with
    | .pump (flow :: todo) => some { s.pump flow does with phase := .pump todo }
    | _ => none
  | .datagram source target => if s.phase = .dispatch then s.datagram source target else none
  | .reply flow =>
    match s.phase with
    | .reply (left + 1) => some { s.reply flow with phase := .reply left }
    | _ => none
  | .expire =>
    match s.phase with
    | .expire (target :: todo) => some { s.expire target with phase := .expire todo }
    | _ => none
  | .finish k outcome => s.finish k outcome
  | .tick ms => some { s with now := s.now + ms }

end Loop

/-- The packet loop with its tasks. -/
def packetLoop : Lts Loop Action := ⟨Loop.new, Loop.step⟩

end ClashMeta.Packet
