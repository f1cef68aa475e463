import ClashMeta.Config.Net
import ClashMeta.Lib.Faulty
import ClashMeta.Lib.Lts

/-!
# The TUN route journal

`Transaction` (platform/src/desktop.rs:244-408) changes the routes of the operating system and
keeps a journal of the routes it owns, in memory and in a file, so that a later process can take
them back.

The routes of the system are a list; adding appends, deleting takes out every copy, as in the
source's own test double. Each call of the backend, and each save of the journal, is one
operation of a `Prog`. A journal file is opaque (`JournalFile`): the JSON library writes and reads
it, and reading what was written gives it back.
-/

namespace ClashMeta.Tun

/-- The systems the module is built for. -/
inductive Platform where
  | linux
  | windows
  | macos
  deriving DecidableEq, Repr

/-- Routes carry a metric on this system. -/
def Platform.hasMetric : Platform → Bool
  | .macos => false
  | _ => true

/-- `route_manager::Route`; the destination and its prefix length are one network.
Fields that a system does not have stay at their defaults. -/
structure Route where
  dest : IpNet
  gateway : Option IpAddr := none
  ifName : Option String := none
  ifIndex : Option UInt32 := none
  table : UInt8 := 0
  source : Option IpAddr := none
  sourcePrefix : UInt8 := 0
  prefSource : Option IpAddr := none
  metric : Option UInt32 := none
  luid : Option UInt64 := none
  deriving DecidableEq

/-- `ExitInterface`. -/
structure ExitInterface where
  index : UInt32
  name : String
  gateway : Option IpAddr
  deriving DecidableEq

/-- `RouteSpec`: a route to own. -/
structure RouteSpec where
  network : IpNet
  interface : ExitInterface
  deriving DecidableEq

namespace RouteSpec

/-- `RouteSpec::route` (desktop.rs:250-265). -/
def route (os : Platform) (spec : RouteSpec) : Route where
  dest := spec.network.trunc
  gateway := spec.interface.gateway
  ifIndex := some spec.interface.index
  table := if os = .linux then 254 else 0
  metric := if os.hasMetric then some 7 else none

/-- `RouteSpec::matches` (desktop.rs:266-275). -/
def «matches» (os : Platform) (spec : RouteSpec) (route : Route) : Bool :=
  (!os.hasMetric || route.metric == some 7) &&
    spec.network.networkAddr == route.dest.networkAddr &&
    spec.network.prefixLen == route.dest.prefixLen &&
    route.ifIndex == some spec.interface.index &&
    route.gateway.filter (fun ip => !ip.isUnspecified) == spec.interface.gateway

end RouteSpec

/-- `Journal`. -/
structure Journal where
  format : Nat
  platform : Platform
  routes : List RouteSpec
  deriving DecidableEq

/-- The limit on owned routes. -/
def routeLimit : Nat := 4096

/-- The limit on the size of a journal file. -/
def fileLimit : Nat := 1024 * 1024

/-- Journal files: what the JSON library writes and reads. -/
structure JournalFile where
  Bytes : Type
  size : Bytes → Nat
  encode : Journal → Bytes
  decode : Bytes → Option Journal
  decode_encode : ∀ j, decode (encode j) = some j

/-- What a transaction works on: the system's routes, the journal file, and the journal in
memory. -/
structure Store (F : JournalFile) where
  table : List Route
  disk : Option F.Bytes
  journal : Journal

/-- The errors of a transaction. -/
inductive TunError where
  /-- An error of the system or the file system. -/
  | io
  /-- "TUN journal route limit". -/
  | routeLimit
  /-- "cannot add TUN route" with its network. -/
  | cannotAdd (network : IpNet)

section

variable {F : JournalFile} (os : Platform)

/-- The journal of a directory without a file. -/
def Journal.new : Journal := ⟨1, os, []⟩

/-- `Transaction::open` (desktop.rs:307-346), from the file to the journal. -/
def openJournal (disk : Option F.Bytes) : Except String Journal :=
  match disk with
  | none => .ok (.new os)
  | some bytes =>
    if fileLimit < F.size bytes then .error "TUN journal size limit"
    else
      match F.decode bytes with
      | none => .error "invalid TUN recovery journal"
      | some j =>
        if j.format = 1 ∧ j.platform = os ∧ j.routes.length ≤ routeLimit then .ok j
        else .error "unsupported TUN journal"

/-- A transaction's program. -/
abbrev Tx (F : JournalFile) (α : Type) := Prog (Store F) TunError α

/-- `Routes::list`. -/
def list : Tx F (List Route) := .op .io fun s => (s.table, s)

/-- `Routes::add`, with the context that `apply` gives its error. -/
def add (network : IpNet) (route : Route) : Tx F Unit :=
  .op (.cannotAdd network) fun s => ((), { s with table := s.table ++ [route] })

/-- `Routes::delete`. -/
def delete (route : Route) : Tx F Unit :=
  .op .io fun s => ((), { s with table := s.table.filter (· ≠ route) })

/-- `Transaction::save` (desktop.rs:347-362): the file is replaced as a whole. -/
def save : Tx F Unit :=
  .op .io fun s => ((), { s with disk := some (F.encode s.journal) })

/-- `std::fs::remove_file` of the journal. -/
def removeFile : Tx F Unit := .op .io fun s => ((), { s with disk := none })

/-- A change of the owned routes in memory. -/
def updateRoutes (f : List RouteSpec → List RouteSpec) : Tx F Unit :=
  .modify fun s => { s with journal := { s.journal with routes := f s.journal.routes } }

/-- The routes in the journal in memory. -/
def journalRoutes : Tx F (List RouteSpec) := .get fun s => s.journal.routes

/-- The first loop of `apply` (desktop.rs:365-377), for one spec. -/
def addOne (present : List Route) (spec : RouteSpec) : Tx F Unit :=
  if present.any (spec.matches os) then pure ()
  else do
    let routes ← journalRoutes
    if spec ∈ routes then add spec.network (spec.route os)
    else if routeLimit ≤ routes.length then .fail .routeLimit
    else do
      updateRoutes (· ++ [spec])
      save
      add spec.network (spec.route os)

/-- `Transaction::remove` (desktop.rs:392-397). -/
def remove (spec : RouteSpec) : Tx F Unit := do
  let routes ← list
  Prog.forEach delete (routes.filter (spec.matches os))

/-- Giving up one route: out of the system, then out of the journal and its file. -/
def giveUp (spec : RouteSpec) : Tx F Unit := do
  remove os spec
  updateRoutes (·.filter (· ≠ spec))
  save

/-- `Transaction::apply` (desktop.rs:363-391). -/
def apply (desired : List RouteSpec) : Tx F Unit := do
  let present ← list
  Prog.forEach (addOne os present) desired
  let routes ← journalRoutes
  Prog.forEach (giveUp os) (routes.filter (· ∉ desired))

/-- `Transaction::restore` (desktop.rs:398-407). -/
def restore : Tx F Unit := do
  let routes ← journalRoutes
  Prog.forEach (giveUp os) routes.reverse
  let present ← Prog.get fun s => s.disk.isSome
  if present then removeFile else pure ()

end

/-! ## The system -/

/-- The store, and whether a process works on it. -/
structure Sys (F : JournalFile) where
  store : Store F
  alive : Bool

/-- A call of `apply` with the fates of its operations, or a process that opens the journal
anew, in place of one that stopped. -/
inductive Event where
  | apply (desired : List RouteSpec) (fates : List Fault)
  | reopen

/-- The store after a run. -/
def leftBy {F : JournalFile} {α : Type} (run : Ending TunError α × Store F × List Fault) :
    Store F := run.2.1

/-- The process survives the run. -/
def survives {F : JournalFile} {α : Type} (run : Ending TunError α × Store F × List Fault) :
    Bool :=
  match run.1 with
  | .stopped => false
  | _ => true

/-- The system from routes that are there before, without a journal. -/
def tunSystem (F : JournalFile) (os : Platform) (before : List Route) : Lts (Sys F) Event where
  init := ⟨⟨before, none, .new os⟩, true⟩
  step s event :=
    match event with
    | .apply desired fates =>
      if s.alive then
        let run := apply os desired s.store fates
        some ⟨leftBy run, survives run⟩
      else none
    | .reopen =>
      match openJournal os s.store.disk with
      | .ok journal => some ⟨{ s.store with journal := journal }, true⟩
      | .error _ => none

/-- The routes of the journal file, as the next process will read them. -/
def onDisk {F : JournalFile} (s : Store F) : List RouteSpec :=
  ((s.disk.bind F.decode).map Journal.routes).getD []

end ClashMeta.Tun
