import ClashMeta.Config.Document
import ClashMeta.Lib.Lts

/-!
# The gRPC connection pool (protocol/src/grpc.rs:56-257)

`connect` reuses a pooled HTTP/2 connection or makes one. Calls for one pool key hold the
key's creation lock from before they look into the pool until their lease is taken and the
connection is ready; everything else interleaves: other calls that already have their lease,
closing connections, and streams that are dropped.

A step is one access to what the calls share: the lock, the pool with its mutex, a counter.
`pooled` holds the mutex while it reads one counter after the other, so a counter can go down
between two of its reads. An `AtomicUsize` is an integer: an underflow would be negative. The
pool of the key is the list of the ids of its connections; no connections and no key are the same.
-/

namespace ClashMeta.Grpc

/-- `reuse_least_loaded`. -/
def reuseLeastLoaded (load : Int) (connections : Nat) (options : GrpcOptions) : Bool :=
  if load = 0 then true
  else if 0 < options.maxConnections then
    options.maxConnections ≤ connections || load < options.minStreams
  else options.maxStreams == 0 || load < options.maxStreams

/-- Where a call of `connect` is. -/
inductive Stage where
  /-- In `connect_lock`. -/
  | waiting
  /-- At the head of the loop. -/
  | looking
  /-- In `pooled`: the connections still to be read, and the least loaded one so far. -/
  | scanning (rest : List Nat) (least : Option (Nat × Int))
  /-- `pooled` returned the connection. -/
  | chosen (id : Nat)
  /-- With a lease, until the connection is ready. -/
  | leased (id : Nat)
  /-- The connection is dead and goes out of the pool. -/
  | dead (id : Nat)
  /-- It is out of the pool, and the lease is dropped. -/
  | removed (id : Nat)
  /-- In the TLS and HTTP/2 handshakes with the stream. -/
  | creating
  /-- The handshakes are done. -/
  | created
  /-- The new connection is in the pool. -/
  | pushed (id : Nat)
  /-- With a lease of the new connection, until it is ready. -/
  | fresh (id : Nat)
  /-- Behind the loop, with the lock. -/
  | connected (id : Nat)
  /-- Without the lock. -/
  | requesting (id : Nat)
  /-- Giving up with the lock: the lease is dropped, then the lock. -/
  | failing (lease : Option Nat)
  /-- Giving up without the lock. -/
  | leaving (id : Nat)
  | ended
  /-- `expect` on a stream that is gone. -/
  | panicked
  deriving DecidableEq, Repr

/-- A call of `connect`. `taken` counts how often its stream was taken out of `incoming`. -/
structure Connect where
  stage : Stage
  incoming : Bool
  taken : Nat
  deriving DecidableEq, Repr

/-- What the calls for one key share, with the calls and the live streams. -/
structure Pool where
  lock : Option Nat
  mutex : Bool
  pool : List Nat
  active : Nat → Int
  nextId : Nat
  /-- connections whose task removes them when they close -/
  watched : List Nat
  /-- the connection of each live `GrpcStream` -/
  streams : List Nat
  calls : List Connect

/-- `fetch_add` and `fetch_sub` of one. -/
def count (active : Nat → Int) (id : Nat) (n : Int) : Nat → Int :=
  fun j => if j = id then active j + n else active j

namespace Connect

/-- A call that waits for the pool. -/
def new : Connect := ⟨.waiting, true, 0⟩

/-- `incoming.take()`. -/
def take (c : Connect) (stage : Stage) : Connect :=
  if c.incoming then ⟨stage, false, c.taken + 1⟩ else { c with stage := stage }

/-- The call goes on to make a connection: `incoming.take().expect(..)`. -/
def create (c : Connect) : Connect :=
  if c.incoming then c.take .creating else { c with stage := .panicked }

end Connect

namespace Pool

/-- A pool without connections. -/
def new : Pool := ⟨none, false, [], fun _ => 0, 1, [], [], []⟩

/-- Call `k` is now `c`. -/
def setCall (s : Pool) (k : Nat) (c : Connect) : Pool := { s with calls := s.calls.set k c }

/-- Call `k` moves to a stage. -/
def move (s : Pool) (k : Nat) (c : Connect) (stage : Stage) : Pool :=
  s.setCall k { c with stage := stage }

/-- `remove_physical`. -/
def removePhysical (s : Pool) (id : Nat) : Pool :=
  { s with pool := s.pool.filter (· ≠ id) }

/-- `ActiveLease::new` and the two drops that give a count back. -/
def addActive (s : Pool) (id : Nat) (n : Int) : Pool := { s with active := count s.active id n }

/-- The end of `pooled`: the load is read once more and the mutex released. -/
def decide (options : GrpcOptions) (s : Pool) (k : Nat) (c : Connect) :
    Option (Nat × Int) → Pool
  | none => { s with mutex := false }.setCall k c.create
  | some (id, _) =>
    if reuseLeastLoaded (s.active id) s.pool.length options then
      { s with mutex := false }.move k c (.chosen id)
    else { s with mutex := false }.setCall k c.create

/-- The next step of call `k`, when nothing fails. `skipped` ids went to connections of other
keys. -/
def advance (options : GrpcOptions) (s : Pool) (k : Nat) (c : Connect) (skipped : Nat) :
    Option Pool :=
  match c.stage with
  | .waiting =>
    match s.lock with
    | none => some ({ s with lock := some k }.move k c .looking)
    | some _ => none
  | .looking =>
    if s.mutex then none else some ({ s with mutex := true }.move k c (.scanning s.pool none))
  -- `min_by_key` reads one counter after the other and keeps the first of the smallest
  | .scanning (id :: rest) none => some (s.move k c (.scanning rest (some (id, s.active id))))
  | .scanning (id :: rest) (some (best, load)) =>
    if s.active id < load then some (s.move k c (.scanning rest (some (id, s.active id))))
    else some (s.move k c (.scanning rest (some (best, load))))
  | .scanning [] least => some (s.decide options k c least)
  | .chosen id => some ((s.addActive id 1).move k c (.leased id))
  -- `ready` has returned: the stream is not needed and dropped
  | .leased id => some (s.setCall k (c.take (.connected id)))
  | .dead id => if s.mutex then none else some ((s.removePhysical id).move k c (.removed id))
  | .removed id => some ((s.addActive id (-1)).move k c .looking)
  | .creating => some (s.move k c .created)
  | .created =>
    if s.mutex then none
    else
      -- the id counter is shared by all keys
      let id := s.nextId + skipped
      some ({ s with
        pool := s.pool ++ [id]
        active := fun j => if j = id then 0 else s.active j
        nextId := id + 1
        watched := id :: s.watched }.move k c (.pushed id))
  | .pushed id => some ((s.addActive id 1).move k c (.fresh id))
  | .fresh id => some (s.move k c (.connected id))
  -- `drop(creation_guard)`
  | .connected id => some ({ s with lock := none }.move k c (.requesting id))
  -- `lease.transfer()`: the count stays, its owner is now the stream
  | .requesting id => some ({ s with streams := id :: s.streams }.move k c .ended)
  | .failing (some id) => some ((s.addActive id (-1)).move k c (.failing none))
  | .failing none => some ({ s with lock := none }.move k c .ended)
  | .leaving id => some ((s.addActive id (-1)).move k c .ended)
  | .ended => none
  | .panicked => none

/-- An error ends the wait of call `k`, or its last step. -/
def fail (s : Pool) (k : Nat) (c : Connect) : Option Pool :=
  match c.stage with
  | .leased id => some (s.move k c (.dead id))
  | .creating => some (s.move k c (.failing none))
  | .fresh id => some (s.move k c (.failing (some id)))
  | .requesting id => some (s.move k c (.leaving id))
  | _ => none

/-- The call is dropped while it waits. -/
def cancel (s : Pool) (k : Nat) (c : Connect) : Option Pool :=
  match c.stage with
  | .waiting => some (s.move k c .ended)
  | .leased id => some (s.move k c (.failing (some id)))
  | .creating => some (s.move k c (.failing none))
  | .fresh id => some (s.move k c (.failing (some id)))
  | _ => none

end Pool

/-- What happens next: a call starts, goes on, meets an error or is dropped; a connection
closes; a stream of a connection is dropped. -/
inductive PoolAction where
  | call
  | advance (k skipped : Nat)
  | fail (k : Nat)
  | cancel (k : Nat)
  | close (id : Nat)
  | drop (id : Nat)

namespace Pool

/-- One step of the pool. -/
def step (options : GrpcOptions) (s : Pool) : PoolAction → Option Pool
  | .call => some { s with calls := s.calls ++ [.new] }
  | .advance k skipped => s.calls[k]?.bind fun c => s.advance options k c skipped
  | .fail k => s.calls[k]?.bind fun c => s.fail k c
  | .cancel k => s.calls[k]?.bind fun c => s.cancel k c
  | .close id =>
    if s.mutex ∨ id ∉ s.watched then none
    else some { s.removePhysical id with watched := s.watched.erase id }
  | .drop id =>
    if id ∈ s.streams then some { s.addActive id (-1) with streams := s.streams.erase id }
    else none

end Pool

/-- All calls for one key, with the same options. -/
def poolSystem (options : GrpcOptions) : Lts Pool PoolAction := ⟨.new, Pool.step options⟩

end ClashMeta.Grpc
