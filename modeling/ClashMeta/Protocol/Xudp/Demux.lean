import ClashMeta.Protocol.Xudp.Mux
import ClashMeta.Protocol.Vless.Address

/-!
# The receive side of the XUDP multiplexer (protocol/src/xudp.rs)

`Mux` follows the bytes that sessions write. Here is the other direction: the reader task that
takes frames off the physical stream in pieces and hands packets to the sessions' queues,
`session` calls with their two checks of `alive` around the acquisition of the route mutex,
dropped sessions, `recv`, and `fail_multiplexer` from any caller.

- The route mutex is held across steps only inside `session` (`lock`); every other section that
  takes it is one step and needs it free.
- `alive` is swapped without the mutex, anywhere between the steps of a `session` call.
- A frame is looked up in one step and offered to the queue in a later one: the reader holds a
  clone of the route in between.
- `fail_multiplexer` swaps `alive`, takes the whole table, and then tells one route after another.

`inbound` is what the peer has sent; a step `read n` hands the next `n` bytes to the read under
way, so these steps are the fragmentation.
-/

namespace ClashMeta.Xudp

/-- The option that reports an error. -/
def optionError : Byte := 2
/-- `MAX_METADATA`. -/
def maxMetadata : Nat := 512

/-- `MuxMetadata` with its data flag. -/
structure Metadata extends MuxMetadata where
  data : Bool

/-! ## Reading frames -/

section

variable [IpText]

/-- The optional address of a frame's metadata: a network byte, then an address
that fills the rest (xudp.rs:202-209). -/
def metadataTarget (bytes : List Byte) (status : Byte) : Except String (Option Target) :=
  match bytes.drop 4 with
  | [] => .ok none
  | network :: address =>
    if status ≠ statusKeep ∨ network ≠ networkUdp then .error "invalid XUDP network"
    else do
      let (target, consumed) ← Vless.decodeAddress address
      if consumed + 5 ≠ bytes.length then .error "trailing XUDP metadata"
      else return some target

/-- `multiplexed_metadata` (xudp.rs:189-221). -/
def multiplexedMetadata (bytes : List Byte) : Except String Metadata :=
  match bytes with
  | hi :: lo :: status :: flags :: _ =>
    if maxMetadata < bytes.length then .error "invalid XUDP metadata length"
    else if flags &&& ~~~(optionData ||| optionError) ≠ 0 then .error "invalid XUDP options"
    else if flags &&& optionError ≠ 0 then .error "XUDP peer rejected session"
    else if status ≠ statusKeep ∧ status ≠ statusEnd ∧ status ≠ statusKeepalive then
      .error "unexpected XUDP frame status"
    else do
      let target ← metadataTarget bytes status
      if status = statusKeepalive ∧ flags ≠ 0 then .error "XUDP keepalive cannot carry data"
      else return ⟨⟨UInt16.ofNat (fromBe16 hi lo), status, target⟩, flags &&& optionData ≠ 0⟩
  | _ => .error "invalid XUDP metadata length"

end

/-- Where `read_multiplexed` stands: in one of its four reads, each with the bytes
it has got; before the route table with a whole frame; with a route in hand; or
ended. -/
inductive Phase where
  | length (got : List Byte)
  | header (length : Nat) (got : List Byte)
  | payloadLength (metadata : Metadata) (got : List Byte)
  | payload (metadata : Metadata) (length : Nat) (got : List Byte)
  | routing (metadata : Metadata) (payload : Option (List Byte))
  | delivering (route : Route) (item : RoutedPacket)
  | stopped

namespace Phase

/-- The top of the loop. -/
def idle : Phase := .length []

/-- Whether the reader is at the top of the loop. -/
def isIdle : Phase → Bool
  | .length [] => true
  | _ => false

theorem isIdle_iff {p : Phase} : p.isIdle = true ↔ p = .idle := by
  constructor
  · intro h
    unfold isIdle at h
    split at h
    · rfl
    · cases h
  · rintro rfl
    rfl

/-- How many bytes the read under way still wants; none outside the reads. -/
def wants : Phase → Nat
  | length got => 2 - got.length
  | header n got => n - got.length
  | payloadLength _ got => 2 - got.length
  | payload _ n got => n - got.length
  | routing _ _ | delivering _ _ | stopped => 0

/-- The read under way gets more bytes. -/
def append (bytes : List Byte) : Phase → Phase
  | length got => .length (got ++ bytes)
  | header n got => .header n (got ++ bytes)
  | payloadLength m got => .payloadLength m (got ++ bytes)
  | payload m n got => .payload m n (got ++ bytes)
  | routing m p => .routing m p
  | delivering r item => .delivering r item
  | stopped => .stopped

variable [IpText]

/-- What follows a complete read (xudp.rs:226-243), up to the next read that wants
bytes or to the route table. -/
def complete : Phase → Except String Phase
  | length got =>
    if fromBe got < 4 ∨ maxMetadata < fromBe got then .error "invalid XUDP metadata length"
    else .ok (.header (fromBe got) [])
  | header _ got => do
    let m ← multiplexedMetadata got
    return if m.data then .payloadLength m [] else .routing m none
  | payloadLength m got =>
    if maxPayload < fromBe got then .error "XUDP payload exceeds limit"
    else if fromBe got = 0 then .ok (.routing m (some []))
    else .ok (.payload m (fromBe got) [])
  | payload m _ got => .ok (.routing m (some got))
  | routing m p => .ok (.routing m p)
  | delivering r item => .ok (.delivering r item)
  | stopped => .ok .stopped

/-- The stream hands bytes to the read under way. -/
def feed (p : Phase) (bytes : List Byte) : Except String Phase :=
  if (p.append bytes).wants = 0 then (p.append bytes).complete else .ok (p.append bytes)

end Phase

/-! ## The parties -/

/-- Where a call of `session` stands: past its first check of `alive`, holding the
route mutex, or holding it with `alive` checked once more. -/
inductive CallStage where
  | entered
  | locked
  | allowed
  deriving DecidableEq

/-- A call of `session` under way. -/
structure SessionCall where
  target : Target
  globalId : Option GlobalId
  stage : CallStage

/-- Where a call of `fail_multiplexer` stands: before the swap of `alive`, before
the route table is taken, or telling the routes it has taken. -/
inductive FailStage where
  | called
  | swapped
  | telling (routes : List Route)

/-- A call of `fail_multiplexer` under way. -/
structure Failure where
  message : String
  stage : FailStage

/-- The shared state of the multiplexer and the parties of the receive side. -/
structure Demux where
  routes : Table UInt16 Route
  /-- The `session` call that holds the route mutex. -/
  lock : Option Nat
  nextId : UInt16
  alive : Bool
  /-- The `Multiplexer` itself is not dropped. -/
  held : Bool
  calls : Table Nat SessionCall
  sessions : Table Nat MuxSession
  fails : Table Caller Failure
  reader : Phase
  inbound : List Byte
  fresh : Nat

namespace Demux

/-- `Multiplexer::new` over a stream on which the peer sends `inbound`. -/
def new (inbound : List Byte) : Demux where
  routes := ∅
  lock := none
  nextId := 0
  alive := true
  held := true
  calls := ∅
  sessions := ∅
  fails := ∅
  reader := .idle
  inbound := inbound
  fresh := 0

/-! ### Sessions -/

/-- `session` up to its first check of `alive` (xudp.rs:106). -/
def call (s : Demux) (target : Target) (globalId : Option GlobalId) : Except String Demux :=
  if s.alive then
    .ok { s with
      calls := s.calls.insert s.fresh ⟨target, globalId, .entered⟩
      fresh := s.fresh + 1 }
  else .error "XUDP multiplexer is closed"

/-- A `session` call obtains the route mutex. -/
def lockRoutes (s : Demux) (key : Nat) : Option Demux := do
  let c ← s.calls.lookup key
  if c.stage ≠ .entered ∨ s.lock ≠ none then none
  else some { s with lock := some key, calls := s.calls.insert key { c with stage := .locked } }

/-- A `session` call that holds the mutex returns: the guard is dropped. -/
def leave (s : Demux) (key : Nat) : Demux :=
  { s with lock := none, calls := s.calls.erase key }

/-- The second check of `alive`, under the mutex (xudp.rs:109). -/
def check (s : Demux) (key : Nat) : Option Demux := do
  let c ← s.calls.lookup key
  if c.stage ≠ .locked then none
  else if s.alive then some { s with calls := s.calls.insert key { c with stage := .allowed } }
  else some (s.leave key)

/-- A free id is found and the route registered (xudp.rs:110-134); the session is
returned. -/
def register (s : Demux) (key : Nat) : Option Demux := do
  let c ← s.calls.lookup key
  if c.stage ≠ .allowed then none
  else
    match Mux.nextFree s.routes 65536 s.nextId with
    | none => some (s.leave key)
    | some id => some { s.leave key with
        routes := s.routes.insert id ⟨c.target, key⟩
        nextId := id + 1
        sessions := s.sessions.insert key
          ⟨id, c.target, c.globalId, ⟨true, true⟩, none, []⟩ }

/-- `MuxSession::drop`: the route under the session's id goes, whoever registered
it (xudp.rs:310-318), then the receiver. -/
def dropSession (s : Demux) (key : Nat) : Option Demux := do
  let m ← s.sessions.lookup key
  if s.lock ≠ none then none
  else some { s with routes := s.routes.erase m.id, sessions := s.sessions.erase key }

/-- A `Sender` of the session's channel is still about: in the route table, in the
reader's hand, or among the routes a failing call has still to tell. -/
def senderLeft (s : Demux) (key : Nat) : Bool :=
  (Table.values s.routes).any (fun r => r.sender = key) ||
    (match s.reader with
      | .delivering r _ => decide (r.sender = key)
      | _ => false) ||
    (Table.values s.fails).any fun f =>
      match f.stage with
      | .telling routes => routes.any fun r => r.sender = key
      | _ => false

/-- What `MuxSession::recv` returns: a queued item, the end of a channel that is
empty and has no sender left, or nothing yet. -/
def recv (s : Demux) (key : Nat) : Option RoutedPacket := do
  let m ← s.sessions.lookup key
  match m.receiver with
  | item :: _ => some item
  | [] => if s.senderLeft key then none else some (.error "XUDP multiplexer closed")

/-- The step of a `recv` that returns: a queued item leaves the queue. -/
def received (s : Demux) (key : Nat) : Option Demux := do
  let m ← s.sessions.lookup key
  let _ ← s.recv key
  return { s with sessions := s.sessions.insert key { m with receiver := m.receiver.tail } }

/-! ### Failure -/

/-- A party of the write side calls `fail_multiplexer`. -/
def fail (s : Demux) (key : Nat) (message : String) : Option Demux :=
  match s.fails.lookup (.task key) with
  | none => some { s with fails := s.fails.insert (.task key) ⟨message, .called⟩ }
  | some _ => none

/-- `alive.swap(false)`: only the call that found it set goes on. -/
def swap (s : Demux) (c : Caller) : Option Demux := do
  let f ← s.fails.lookup c
  match f.stage with
  | .called =>
    if s.alive then
      some { s with alive := false, fails := s.fails.insert c { f with stage := .swapped } }
    else some { s with fails := s.fails.erase c }
  | _ => none

/-- The route table is taken under its mutex. -/
def take (s : Demux) (c : Caller) : Option Demux := do
  let f ← s.fails.lookup c
  match f.stage with
  | .swapped =>
    if s.lock ≠ none then none
    else some { s with
      routes := ∅
      fails := s.fails.insert c { f with stage := .telling (Table.values s.routes) } }
  | _ => none

/-- The next of the taken routes is told, and dropped. -/
def tell (s : Demux) (c : Caller) : Option Demux := do
  let f ← s.fails.lookup c
  match f.stage with
  | .telling (r :: rest) => some { s with
      sessions := Mux.trySend r.sender (.error f.message) s.sessions
      fails := s.fails.insert c { f with stage := .telling rest } }
  | _ => none

/-- Every route is told: `fail_multiplexer` returns. -/
def failed (s : Demux) (c : Caller) : Option Demux := do
  let f ← s.fails.lookup c
  match f.stage with
  | .telling [] => some { s with fails := s.fails.erase c }
  | _ => none

/-- `Multiplexer::drop`: every session is gone and none is being made. -/
def dropMux (s : Demux) : Option Demux :=
  if s.held ∧ s.sessions.entries = [] ∧ s.calls.entries = [] then
    some { s with
      held := false
      fails := s.fails.insert .mux ⟨"XUDP multiplexer dropped", .called⟩ }
  else none

/-! ### The reader -/

/-- The reader loop ends with an error and calls `fail_multiplexer`. -/
def readerFails (s : Demux) (message : String) : Demux :=
  { s with reader := .stopped, fails := s.fails.insert .reader ⟨message, .called⟩ }

/-- The stream hands over its next `n` bytes. -/
def read [IpText] (s : Demux) (n : Nat) : Option Demux :=
  if n = 0 ∨ s.reader.wants < n ∨ s.inbound.length < n then none
  else
    let s' := { s with inbound := s.inbound.drop n }
    match s.reader.feed (s.inbound.take n) with
    | .ok p => some { s' with reader := p }
    | .error message => some (s'.readerFails message)

/-- The stream ends or fails inside a read. -/
def readError (s : Demux) (message : String) : Option Demux :=
  if s.reader.wants = 0 then none else some (s.readerFails message)

/-- The reader handles a whole frame (xudp.rs:246-257): END removes the route, KEEP
clones it, and a frame without a route is skipped. -/
def route (s : Demux) : Option Demux :=
  match s.reader with
  | .routing m payload =>
    if m.status = statusKeepalive then some { s with reader := .idle }
    else if s.lock ≠ none then none
    else
      match s.routes.lookup m.id with
      | none => some { s with reader := .idle }
      | some r =>
        if m.status = statusEnd then
          some { s with
            routes := s.routes.erase m.id
            reader := .delivering r (.error "XUDP session ended") }
        else
          match payload with
          | none => some { s with reader := .idle }
          | some bytes =>
            some { s with reader := .delivering r (.ok (m.target.getD r.target, bytes)) }
  | _ => none

/-- The reader's `try_send` on the route in hand, which is then dropped. -/
def deliver (s : Demux) : Option Demux :=
  match s.reader with
  | .delivering r item => some { s with
      sessions := Mux.trySend r.sender item s.sessions
      reader := .idle }
  | _ => none

/-- The reader ends without a failure: aborted at an await by `Multiplexer::drop`, or
at a frame whose `Weak` finds the shared state gone. -/
def abort (s : Demux) : Option Demux :=
  if s.held then none
  else
    match s.reader with
    | .delivering _ _ | .stopped => none
    | _ => some { s with reader := .stopped }

end Demux

/-! ## The system -/

/-- What can happen next on the receive side. -/
inductive RecvAction where
  | call (target : Target) (globalId : Option GlobalId)
  | lockRoutes (key : Nat)
  | check (key : Nat)
  | register (key : Nat)
  | dropSession (key : Nat)
  | recv (key : Nat)
  | fail (key : Nat) (message : String)
  | swap (c : Caller)
  | take (c : Caller)
  | tell (c : Caller)
  | failed (c : Caller)
  | dropMux
  | read (n : Nat)
  | readError (message : String)
  | route
  | deliver
  | abort

/-- One step of the receive side. -/
def Demux.step [IpText] (s : Demux) : RecvAction → Option Demux
  | .call target globalId =>
    if s.held then
      match s.call target globalId with
      | .ok s' => some s'
      | .error _ => some s
    else none
  | .lockRoutes key => s.lockRoutes key
  | .check key => s.check key
  | .register key => s.register key
  | .dropSession key => s.dropSession key
  | .recv key => s.received key
  | .fail key message => s.fail key message
  | .swap c => s.swap c
  | .take c => s.take c
  | .tell c => s.tell c
  | .failed c => s.failed c
  | .dropMux => s.dropMux
  | .read n => s.read n
  | .readError message => s.readError message
  | .route => s.route
  | .deliver => s.deliver
  | .abort => s.abort

/-- What a run shows: sessions coming and going, frames looked up and offered, the
route table taken, routes told, and what `recv` took from a queue. -/
inductive Event where
  | registered (key : Nat) (id : UInt16) (target : Target)
  | dropped (key : Nat)
  | frame (metadata : Metadata) (payload : Option (List Byte))
  | offered
  | swept
  | told (key : Nat) (item : RoutedPacket)
  | failed
  | received (key : Nat) (item : RoutedPacket)

/-- What a step shows. -/
def Demux.observe (s : Demux) : RecvAction → List Event
  | .register key =>
    match s.calls.lookup key, Mux.nextFree s.routes 65536 s.nextId with
    | some c, some id => [.registered key id c.target]
    | _, _ => []
  | .dropSession key => [.dropped key]
  | .recv key =>
    match (s.sessions.lookup key).map MuxSession.receiver with
    | some (item :: _) => [.received key item]
    | _ => []
  | .take _ => [.swept]
  | .tell c =>
    match s.fails.lookup c with
    | some ⟨message, .telling (r :: _)⟩ => [.told r.sender (.error message)]
    | _ => []
  | .failed _ => [.failed]
  | .route =>
    match s.reader with
    | .routing m payload => [.frame m payload]
    | _ => []
  | .deliver => [.offered]
  | _ => []

/-- The receive side as a transition system with its history. -/
def demuxSystem [IpText] (inbound : List Byte) : Lts (Demux × List Event) RecvAction :=
  Lts.recorded ⟨Demux.new inbound, Demux.step⟩ Demux.observe

end ClashMeta.Xudp
