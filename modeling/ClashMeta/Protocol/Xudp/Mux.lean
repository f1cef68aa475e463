import ClashMeta.Lib.Lts
import ClashMeta.Lib.Table
import ClashMeta.Protocol.Xudp.Frame

/-!
# The XUDP multiplexer as a transition system (protocol/src/xudp.rs)

One physical stream shared by any number of `MuxSession`s. The parties are the `send` futures,
the detached tasks that write END frames after a drop, the reader task and the drop of the
multiplexer itself; they share the writer mutex, the route table and the `alive` flag.

A step is what one party does between two points where another can run: an await, a mutex
acquisition, or one of the two sections of `fail_multiplexer` (the swap of `alive`, then the
route table taken under its mutex). Sections that hold the route mutex are one step. An action
that is not possible in a state (a mutex that is held, a future that does not exist) is not
enabled there. Which waiter a mutex wakes is left open, so every order is covered, tokio's
first-in-first-out order included.

`writes` records the calls of `write_all`, newest first, each with the number of its bytes the
stream has accepted; `wire` is what those bytes are.
-/

namespace ClashMeta.Xudp

/-- What a session's receive channel carries. -/
abbrev RoutedPacket := Except String (Target × List Byte)

/-- Whether this packet is what arrives. -/
def RoutedPacket.carries (x : Target × List Byte) : RoutedPacket → Bool
  | .ok y => y == x
  | .error _ => false

theorem RoutedPacket.carries_iff {x : Target × List Byte} {item : RoutedPacket} :
    RoutedPacket.carries x item = true ↔ item = .ok x := by
  cases item with
  | ok y => exact beq_iff_eq.trans (by rw [Except.ok.injEq])
  | error e => exact ⟨fun h => (by cases h), fun h => (by cases h)⟩

/-- Whether this error is what arrives. -/
def RoutedPacket.fails (e : String) : RoutedPacket → Bool
  | .ok _ => false
  | .error e' => e' == e

theorem RoutedPacket.fails_iff {e : String} {item : RoutedPacket} :
    RoutedPacket.fails e item = true ↔ item = .error e := by
  cases item with
  | ok y => exact ⟨fun h => (by cases h), fun h => (by cases h)⟩
  | error e' => exact beq_iff_eq.trans (by rw [Except.error.injEq])

/-- A registered route: the session's target and the session whose receiver
holds the other end of `sender`. -/
structure Route where
  target : Target
  sender : Nat

/-- `MuxSendState`, behind the session's own mutex. -/
structure MuxSendState where
  first : Bool
  usable : Bool

/-- A live `MuxSession`: `sendLock` is the future that holds the mutex `send`,
`receiver` what its channel holds. -/
structure MuxSession where
  id : UInt16
  target : Target
  globalId : Option GlobalId
  send : MuxSendState
  sendLock : Option Nat
  receiver : List RoutedPacket

/-- Where a future that writes stands. A `send` future is `queued` while it waits
for its session's mutex, a close task until it is first polled; both then wait
for the writer mutex, write and flush. `failing` is the call of
`fail_multiplexer` after an interrupted or failed write, the mutexes still held. -/
inductive Stage where
  | queued
  | waiting
  | writing
  | failing
  deriving DecidableEq

/-- A future that writes: a `send` call, or (`close`) the task spawned by
`MuxSession::drop`. `owner` is the session it was made for. -/
structure Task where
  close : Bool
  owner : Nat
  id : UInt16
  payload : List Byte
  frame : List Byte
  status : Byte
  stage : Stage

/-- One `write_all` on the physical stream and how much of it was accepted. -/
structure Write where
  owner : Nat
  id : UInt16
  status : Byte
  frame : List Byte
  sent : Nat

/-- The bytes of a write that reached the stream. -/
def Write.bytes (w : Write) : List Byte := w.frame.take w.sent

/-- Who is inside `fail_multiplexer`. -/
inductive Caller where
  | task (key : Nat)
  | reader
  | mux
  deriving DecidableEq

/-- A call of `fail_multiplexer`: before the swap of `alive`, or after it, with
the route table still to be taken. -/
structure FailCall where
  swapped : Bool
  message : String

/-- `read_multiplexed`: waiting for a frame, holding a route to deliver to, or
ended. -/
inductive Reader where
  | idle
  | delivering (route : Route) (item : RoutedPacket)
  | stopped

/-- The metadata of an inbound frame (`MuxMetadata`). -/
structure MuxMetadata where
  id : UInt16
  status : Byte
  target : Option Target

/-- The multiplexer and everything that uses it. `held` is false once the
`Multiplexer` itself is dropped; `fresh` is the next unused key for sessions and
futures. -/
structure Mux where
  routes : Table UInt16 Route
  nextId : UInt16
  alive : Bool
  held : Bool
  writer : Option Nat
  writes : List Write
  sessions : Table Nat MuxSession
  tasks : Table Nat Task
  fails : Table Caller FailCall
  reader : Reader
  fresh : Nat

namespace Mux

/-- `Multiplexer::new`. -/
def new : Mux where
  routes := ∅
  nextId := 0
  alive := true
  held := true
  writer := none
  writes := []
  sessions := ∅
  tasks := ∅
  fails := ∅
  reader := .idle
  fresh := 0

/-- The bytes on the physical stream. -/
def wire (s : Mux) : List Byte := s.writes.reverse.flatMap Write.bytes

/-! ## Sessions -/

/-- The search of `session`: from `next_id` on, at most `n` ids, the first that
is not registered. -/
def nextFree (routes : Table UInt16 Route) : Nat → UInt16 → Option UInt16
  | 0, _ => none
  | n + 1, id => if id ∈ routes then nextFree routes n (id + 1) else some id

/-- `Multiplexer::session` (xudp.rs:101-135). A search that fails has moved the
16-bit counter once around, that is not at all. -/
def session (s : Mux) (target : Target) (globalId : Option GlobalId) :
    Except String (Nat × Mux) :=
  if !s.alive then .error "XUDP multiplexer is closed"
  else
    match nextFree s.routes 65536 s.nextId with
    | none => .error "XUDP session ID space exhausted"
    | some id => .ok (s.fresh,
        { s with
          routes := s.routes.insert id ⟨target, s.fresh⟩
          nextId := id + 1
          sessions := s.sessions.insert s.fresh
            ⟨id, target, globalId, ⟨true, true⟩, none, []⟩
          fresh := s.fresh + 1 })

/-- `Sender::try_send` to the session `key`: dropped when its queue of 64 is full
or the receiver is gone. -/
def trySend (key : Nat) (item : RoutedPacket) (sessions : Table Nat MuxSession) :
    Table Nat MuxSession :=
  match sessions.lookup key with
  | none => sessions
  | some m =>
    if m.receiver.length < 64 then
      sessions.insert key { m with receiver := m.receiver ++ [item] }
    else sessions

theorem lookup_trySend_other {key k : Nat} (hne : k ≠ key) (item : RoutedPacket)
    (sessions : Table Nat MuxSession) :
    (trySend key item sessions).lookup k = sessions.lookup k := by
  rw [trySend]
  split
  · rfl
  split
  · exact AList.lookup_insert_ne hne
  · rfl

/-- `MuxSession::drop` (xudp.rs:308-336); possible once no `send` future borrows
the session. The close task is spawned only when the route was still there and a
runtime is entered. -/
def dropSession (s : Mux) (key : Nat) (inRuntime : Bool) : Option Mux := do
  let m ← s.sessions.lookup key
  if s.tasks.entries.any (fun e => !e.2.close && e.2.owner = key) then none
  else
    let s' := { s with sessions := s.sessions.erase key }
    match s.routes.lookup m.id with
    | none => some s'
    | some _ =>
      let s' := { s' with routes := s.routes.erase m.id }
      if inRuntime then
        some { s' with
          tasks := s.tasks.insert s.fresh
            ⟨true, key, m.id, [], endFrame m.id, statusEnd, .queued⟩
          fresh := s.fresh + 1 }
      else some s'

/-! ## Writing futures -/

/-- A future ends: its guards are released. -/
def finish (s : Mux) (key : Nat) (t : Task) : Mux :=
  { s with
    writer := if s.writer = some key then none else s.writer
    tasks := s.tasks.erase key
    sessions :=
      match s.sessions.lookup t.owner with
      | some m =>
        if m.sendLock = some key then s.sessions.insert t.owner { m with sendLock := none }
        else s.sessions
      | none => s.sessions }

/-- Replace the record of a future. -/
def setTask (s : Mux) (key : Nat) (t : Task) : Mux :=
  { s with tasks := s.tasks.insert key t }

variable [IpText]

/-- `MuxSession::send` up to its first await: the target and `alive` are
checked. -/
def send (s : Mux) (key : Nat) (target : Target) (payload : List Byte) : Option Mux := do
  let m ← s.sessions.lookup key
  if target ≠ m.target ∨ !s.alive then some s
  else
    some { s.setTask s.fresh ⟨false, key, m.id, payload, [], statusKeep, .queued⟩ with
      fresh := s.fresh + 1 }

/-- A `send` future obtains the session's mutex: `usable` is checked, the frame is
built and `usable` cleared before the next await. -/
def lockState (s : Mux) (key : Nat) : Option Mux := do
  let t ← s.tasks.lookup key
  let m ← s.sessions.lookup t.owner
  if t.close ∨ t.stage ≠ .queued ∨ m.sendLock ≠ none then none
  else if !m.send.usable then some (s.finish key t)
  else
    match packet m.id m.target t.payload m.send.first m.globalId with
    | .error _ => some (s.finish key t)
    | .ok frame =>
      some { s.setTask key
          { t with
            frame := frame
            status := if m.send.first then statusNew else statusKeep
            stage := .waiting } with
        sessions := s.sessions.insert t.owner
          { m with send := { m.send with usable := false }, sendLock := some key } }

/-- The first poll of a close task: it returns when the multiplexer has failed. -/
def poll (s : Mux) (key : Nat) : Option Mux := do
  let t ← s.tasks.lookup key
  if !t.close ∨ t.stage ≠ .queued then none
  else if !s.alive then some (s.finish key t)
  else some (s.setTask key { t with stage := .waiting })

/-- A future obtains the writer mutex. `send` checks `alive` again here
(xudp.rs:285); the close task does not (xudp.rs:328-330). -/
def lockWriter (s : Mux) (key : Nat) : Option Mux := do
  let t ← s.tasks.lookup key
  if t.stage ≠ .waiting ∨ s.writer ≠ none then none
  else if !t.close ∧ !s.alive then some (s.finish key t)
  else
    some { s.setTask key { t with stage := .writing } with
      writer := some key
      writes := ⟨t.owner, t.id, t.status, t.frame, 0⟩ :: s.writes }

/-- The stream accepts `n` more bytes of the write in progress. -/
def accept (s : Mux) (key n : Nat) : Option Mux := do
  let t ← s.tasks.lookup key
  match s.writes with
  | [] => none
  | w :: ws =>
    if t.stage ≠ .writing ∨ n = 0 ∨ w.frame.length < w.sent + n then none
    else some { s with writes := { w with sent := w.sent + n } :: ws }

/-- `write_all` and `flush` are done: a `send` commits its attempt, and the
mutexes are released. -/
def flushed (s : Mux) (key : Nat) : Option Mux := do
  let t ← s.tasks.lookup key
  match s.writes with
  | [] => none
  | w :: _ =>
    if t.stage ≠ .writing ∨ w.sent < w.frame.length then none
    else if t.close then some (s.finish key t)
    else
      match s.sessions.lookup t.owner with
      | none => none
      | some m =>
        some ({ s with
          sessions := s.sessions.insert t.owner { m with send := ⟨false, true⟩ } }.finish key t)

/-- The write in progress is given up: `WriteAttempt` is dropped uncommitted, or
the close task sees an error. Both call `fail_multiplexer` before any mutex is
released. -/
def giveUp (s : Mux) (key : Nat) (t : Task) : Mux :=
  { s.setTask key { t with stage := .failing } with
    fails := s.fails.insert (.task key)
      ⟨false, if t.close then "XUDP close frame failed" else "XUDP write interrupted"⟩ }

/-- `write_all` or `flush` returns an error. -/
def writeError (s : Mux) (key : Nat) : Option Mux := do
  let t ← s.tasks.lookup key
  if t.stage ≠ .writing then none else some (s.giveUp key t)

/-- A `send` future is dropped at an await point. -/
def cancel (s : Mux) (key : Nat) : Option Mux := do
  let t ← s.tasks.lookup key
  if t.close then none
  else
    match t.stage with
    | .queued | .waiting => some (s.finish key t)
    | .writing => some (s.giveUp key t)
    | .failing => none

/-! ## Failure -/

/-- A call of `fail_multiplexer` returns to its caller. -/
def endFail (s : Mux) (c : Caller) : Mux :=
  let s' := { s with fails := s.fails.erase c }
  match c with
  | .task key =>
    match s.tasks.lookup key with
    | some t => s'.finish key t
    | none => s'
  | .reader | .mux => s'

/-- `alive.swap(false)`: only the call that found it set goes on. -/
def swap (s : Mux) (c : Caller) : Option Mux := do
  let f ← s.fails.lookup c
  if f.swapped then none
  else if s.alive then
    some { s with alive := false, fails := s.fails.insert c { f with swapped := true } }
  else some (s.endFail c)

/-- The route table is taken and every route told. -/
def sweep (s : Mux) (c : Caller) : Option Mux := do
  let f ← s.fails.lookup c
  if !f.swapped then none
  else
    some ({ s with
      routes := ∅
      sessions := (Table.values s.routes).foldl
        (fun ss (r : Route) => trySend r.sender (.error f.message) ss) s.sessions }.endFail c)

/-! ## The reader and the multiplexer's own drop -/

/-- The reader handles one frame (xudp.rs:246-262): END removes the route, KEEP
clones it; a route in hand is told in a later step. -/
def peer (s : Mux) (metadata : MuxMetadata) (payload : Option (List Byte)) : Option Mux :=
  match s.reader with
  | .idle =>
    if metadata.status = statusKeepalive then some s
    else if metadata.status = statusEnd then
      match s.routes.lookup metadata.id with
      | none => some s
      | some r => some { s with
          routes := s.routes.erase metadata.id
          reader := .delivering r (.error "XUDP session ended") }
    else
      match s.routes.lookup metadata.id, payload with
      | some r, some bytes => some { s with
          reader := .delivering r (.ok (metadata.target.getD r.target, bytes)) }
      | _, _ => some s
  | _ => none

/-- The reader's `try_send` on the route in hand. -/
def deliver (s : Mux) : Option Mux :=
  match s.reader with
  | .delivering r item => some { s with
      sessions := trySend r.sender item s.sessions
      reader := .idle }
  | _ => none

/-- The reader loop ends with an error or at the end of the stream. -/
def readError (s : Mux) (message : String) : Option Mux :=
  match s.reader with
  | .idle => some { s with reader := .stopped, fails := s.fails.insert .reader ⟨false, message⟩ }
  | _ => none

/-- `Multiplexer::drop`: the last session is gone, the reader is aborted. -/
def dropMux (s : Mux) : Option Mux :=
  if s.held ∧ s.sessions.entries = [] then
    some { s with
      held := false
      reader := .stopped
      fails := s.fails.insert .mux ⟨false, "XUDP multiplexer dropped"⟩ }
  else none

/-- `MuxSession::recv` takes a queued item. -/
def recv (s : Mux) (key : Nat) : Option Mux := do
  let m ← s.sessions.lookup key
  match m.receiver with
  | [] => none
  | _ :: rest => some { s with sessions := s.sessions.insert key { m with receiver := rest } }

end Mux

/-- What can happen next. -/
inductive Action where
  | session (target : Target) (globalId : Option GlobalId)
  | dropSession (key : Nat) (inRuntime : Bool)
  | send (key : Nat) (target : Target) (payload : List Byte)
  | lockState (key : Nat)
  | poll (key : Nat)
  | lockWriter (key : Nat)
  | accept (key n : Nat)
  | flushed (key : Nat)
  | writeError (key : Nat)
  | cancel (key : Nat)
  | swap (c : Caller)
  | sweep (c : Caller)
  | peer (metadata : MuxMetadata) (payload : Option (List Byte))
  | deliver
  | readError (message : String)
  | dropMux
  | recv (key : Nat)

variable [IpText]

/-- One step of the multiplexer. -/
def Mux.step (s : Mux) : Action → Option Mux
  | .session target globalId =>
    if s.held then
      match s.session target globalId with
      | .ok (_, s') => some s'
      | .error _ => some s
    else none
  | .dropSession key inRuntime => s.dropSession key inRuntime
  | .send key target payload => s.send key target payload
  | .lockState key => s.lockState key
  | .poll key => s.poll key
  | .lockWriter key => s.lockWriter key
  | .accept key n => s.accept key n
  | .flushed key => s.flushed key
  | .writeError key => s.writeError key
  | .cancel key => s.cancel key
  | .swap c => s.swap c
  | .sweep c => s.sweep c
  | .peer metadata payload => s.peer metadata payload
  | .deliver => s.deliver
  | .readError message => s.readError message
  | .dropMux => s.dropMux
  | .recv key => s.recv key

/-- The multiplexer as a transition system. -/
def muxSystem : Lts Mux Action where
  init := Mux.new
  step := Mux.step

end ClashMeta.Xudp
