import ClashMeta.Lib.Lts
import ClashMeta.Lib.PollIo
import ClashMeta.Lib.Table
import Mathlib.Data.UInt

/-!
# The registry of connections (core/src/traffic.rs)

A `Tracker` stands for a live connection: creating it enters its `State` into the registry of
the core, transfers are recorded on it and on the core, and dropping it takes the entry out.

The parties run on different threads, so a step is what one of them does at once: the checks
in front of the lock and the lock itself are two steps of a creation, and the three atomic
accesses of `record` are steps of their own. A tracker is not dropped while a call of `record`
borrows it. Calls that have returned stay in the list with their stage, as the history of what
was recorded; so do the states of finished connections.
-/

namespace ClashMeta.Traffic

/-! ## Counters -/

/-- Bytes in the two directions, as `u64`. -/
structure Counters where
  upload : UInt64
  download : UInt64
  deriving DecidableEq, Repr

namespace Counters

/-- Nothing counted. -/
def zero : Counters := ⟨0, 0⟩

/-- The counter of one direction. -/
def get (c : Counters) (upload : Bool) : UInt64 := if upload then c.upload else c.download

/-- `fetch_add(n as u64)` on the counter of one direction, which wraps. -/
def fetchAdd (c : Counters) (upload : Bool) (n : Nat) : Counters :=
  if upload then { c with upload := c.upload + UInt64.ofNat n }
  else { c with download := c.download + UInt64.ofNat n }

@[simp] theorem get_zero (up : Bool) : zero.get up = 0 := by cases up <;> rfl

theorem get_fetchAdd (c : Counters) (up d : Bool) (n : Nat) :
    (c.fetchAdd up n).get d = c.get d + if up = d then UInt64.ofNat n else 0 := by
  cases up <;> cases d <;> simp [fetchAdd, get]

end Counters

/-! ## Connections and calls -/

/-- `State`, with the token of `Connection`. What describes the connection is left out. -/
structure ConnState (ι : Type) where
  id : ι
  counters : Counters
  active : UInt64
  cancelled : Bool
  deriving DecidableEq, Repr

/-- How far a call of `record` has come: each stage is the access it has made last. -/
inductive Stage where
  | called
  | counted
  | totalled
  | returned
  deriving DecidableEq, Repr

/-- The connection's own counter has the bytes. -/
def Stage.isCounted : Stage → Bool
  | .called => false
  | _ => true

/-- The counter of the core has the bytes. -/
def Stage.isTotalled : Stage → Bool
  | .called | .counted => false
  | _ => true

/-- A call of `record(upload, n)` on the tracker of a state. -/
structure Call where
  state : Nat
  upload : Bool
  n : Nat
  stage : Stage
  deriving DecidableEq, Repr

/-- What a tracked stream or session has just done. -/
inductive Transfer where
  /-- `Stream::poll_read`, with the bytes that were added to the buffer, whatever the result. -/
  | read (filled : Nat)
  /-- `Stream::poll_write`. -/
  | write (result : Poll String Nat)
  /-- `PacketSession::send` of so many bytes. -/
  | send (result : Except String Unit) (len : Nat)
  /-- `PacketSession::recv`. -/
  | recv (result : Except String Nat)

/-- The call of `record` that a transfer makes. -/
def Transfer.recorded : Transfer → Option (Bool × Nat)
  | .read filled => some (false, filled)
  | .write (.ready n) => some (true, n)
  | .write _ => none
  | .send (.ok ()) len => some (true, len)
  | .send (.error _) _ => none
  | .recv (.ok len) => some (false, len)
  | .recv (.error _) => none

/-- Why a tracker is dropped. -/
inductive Exit where
  /-- Its token was cancelled. -/
  | closed
  /-- Nothing was transferred for 300 seconds. -/
  | idle
  | completed
  | failed
  | aborted
  deriving DecidableEq, Repr

/-- The core, as far as its connections go. -/
structure Sys (ι : Type) where
  /-- The token of the core is cancelled. -/
  stopped : Bool
  /-- Calls of `Tracker::new` that have passed the checks in front of the lock. -/
  creating : Nat
  /-- Every state that was ever registered; an `Arc<State>` is its position. -/
  states : List (ConnState ι)
  registry : Table ι Nat
  /-- The states of the live trackers. -/
  live : List Nat
  /-- Every call of `record` with something to record. -/
  calls : List Call
  /-- `Core::upload` and `Core::download`. -/
  totals : Counters

/-- What a party does at once. -/
inductive Action (ι : Type) where
  /-- `Tracker::new` up to the lock; the clock can be before the epoch. -/
  | check (clock : Option Nat)
  /-- `Tracker::new` under the lock, with the id it has drawn. -/
  | register (id : ι)
  | transfer (r : Nat) (x : Transfer)
  /-- The next access of a call, with the time that has elapsed on its connection. -/
  | advance (k : Nat) (elapsed : UInt64)
  | drop (r : Nat) (exit : Exit)
  /-- `close_connection`. -/
  | close (id : ι)
  /-- A clone of the token of a connection is cancelled (`network_changed`, `close_all`). -/
  | cancel (r : Nat)
  | stop

variable {ι : Type} [DecidableEq ι]

/-- `MAX_CONNECTIONS`. -/
def maxConnections : Nat := 4096

/-- The error of a creation that is refused. -/
def refused (s : Sys ι) : Action ι → Option String
  | .check clock =>
    if s.stopped then some "core stopped"
    else if clock = none then some "second time provided was later than self"
    else none
  | .register _ =>
    if Table.size s.registry < maxConnections then none else some "connection limit reached"
  | _ => none

/-- The token of a connection is a child of the core's. -/
def newState (id : ι) (stopped : Bool) : ConnState ι := ⟨id, .zero, 0, stopped⟩

/-- The insertion under the lock. -/
def insert (s : Sys ι) (id : ι) : Sys ι :=
  { s with
    states := s.states ++ [newState id s.stopped]
    registry := s.registry.insert id s.states.length
    live := s.live ++ [s.states.length] }

/-- `record` up to its first access. -/
def record (s : Sys ι) (r : Nat) (upload : Bool) (n : Nat) : Sys ι :=
  if n = 0 then s else { s with calls := s.calls ++ [⟨r, upload, n, .called⟩] }

/-- One access of `record`. -/
def access (s : Sys ι) (k : Nat) (c : Call) (elapsed : UInt64) : Option (Sys ι) :=
  match c.stage with
  | .called => some { s with
      states := s.states.modify c.state fun x =>
        { x with counters := x.counters.fetchAdd c.upload c.n }
      calls := s.calls.set k { c with stage := .counted } }
  | .counted => some { s with
      totals := s.totals.fetchAdd c.upload c.n
      calls := s.calls.set k { c with stage := .totalled } }
  | .totalled => some { s with
      states := s.states.modify c.state fun x => { x with active := elapsed }
      calls := s.calls.set k { c with stage := .returned } }
  | .returned => none

/-- No call of `record` borrows the tracker. -/
def unborrowed (s : Sys ι) (r : Nat) : Prop :=
  ∀ c ∈ s.calls, c.state = r → c.stage = .returned

instance (s : Sys ι) (r : Nat) : Decidable (unborrowed s r) :=
  inferInstanceAs (Decidable (∀ c ∈ s.calls, c.state = r → c.stage = .returned))

/-- The token of a connection is cancelled. -/
def setCancelled (s : Sys ι) (r : Nat) : Sys ι :=
  { s with states := s.states.modify r fun x => { x with cancelled := true } }

/-- One step of a party. -/
def step (s : Sys ι) (a : Action ι) : Option (Sys ι) :=
  match a with
  | .check _ =>
    -- The token of the core can still be cancelled between this check and the lock.
    match refused s a with
    | some _ => some s
    | none => some { s with creating := s.creating + 1 }
  | .register id =>
    if s.creating = 0 then none
    else
      -- Limit and insertion are under one lock; a refused creation has no tracker to drop.
      match refused s a with
      | some _ => some { s with creating := s.creating - 1 }
      | none => some (insert { s with creating := s.creating - 1 } id)
  | .transfer r x =>
    if r ∈ s.live then
      match x.recorded with
      | none => some s
      | some (upload, n) => some (record s r upload n)
    else none
  | .advance k elapsed => s.calls[k]?.bind fun c => access s k c elapsed
  | .drop r exit =>
    -- Every way out drops the tracker, which removes by id whatever is registered under it.
    s.states[r]?.bind fun x =>
      if r ∈ s.live ∧ unborrowed s r ∧ (exit = .closed → x.cancelled = true) then
        some { s with registry := s.registry.erase x.id, live := s.live.erase r }
      else none
  | .close id =>
    match s.registry.lookup id with
    | none => some s
    | some r => some (setCancelled s r)
  | .cancel r => some (setCancelled s r)
  | .stop => some { s with
      stopped := true
      states := s.states.map fun x => { x with cancelled := true } }

/-- A core without connections. -/
def init : Sys ι where
  stopped := false
  creating := 0
  states := []
  registry := ∅
  live := []
  calls := []
  totals := .zero

/-- The core and its connections. -/
def system (ι : Type) [DecidableEq ι] : Lts (Sys ι) (Action ι) := ⟨init, step⟩

/-- The ids of the states. -/
def ids (s : Sys ι) : List ι := s.states.map ConnState.id

/-- A new id is none of a live tracker. -/
def Distinct (s : Sys ι) : Action ι → Prop
  | .register id => ∀ r ∈ s.live, (ids s)[r]? ≠ some id
  | _ => True

instance : DecidableRel (Distinct : Sys ι → Action ι → Prop) := fun s a =>
  match a with
  | .register id => inferInstanceAs (Decidable (∀ r ∈ s.live, (ids s)[r]? ≠ some id))
  | .check _ | .transfer _ _ | .advance _ _ | .drop _ _ | .close _ | .cancel _ | .stop =>
    .isTrue True.intro

end ClashMeta.Traffic
