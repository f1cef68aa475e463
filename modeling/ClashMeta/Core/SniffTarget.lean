import ClashMeta.Core.Dns.Answers
import ClashMeta.Core.Sniff
import ClashMeta.Lib.PollIo

/-!
# Sniffing the target of a connection

`http`, `should_sniff`, `sniff_target` and `domain` (core/src/sniff.rs:80-155, 167-170): the
first bytes of a client are read for at most 500 ms, until a host is found in them.

The stream of the client is a `Source`; `polls` is how often it is polled before the deadline.
-/

namespace ClashMeta

/-- `PortRange::contains` (compat.rs:121-123). -/
def PortRange.contains (r : PortRange) (n : UInt16) : Bool :=
  match r.bounds with
  | .ok (a, b) => a ≤ n && n ≤ b
  | .error _ => false

/-- What `httparse` reads. -/
class HttpText where
  /-- The value of the first header named `host`, among the headers that are read without an
  error. -/
  hostHeader : List Byte → Option (List Byte)

namespace Sniff

/-- `SniffProtocol`. -/
structure SniffProtocol where
  ports : List PortRange
  overrideDestination : Bool

/-- `Sniffer`, with the protocols in the order of their names. -/
structure Sniffer where
  enable : Bool
  sniff : List (Str × SniffProtocol)
  forceDomain : List Str
  skipDomain : List Str

section

variable [RuleText]

/-- `domain`: a pattern against a host. -/
def domain (pattern host : Str) : Bool :=
  match domainPattern pattern with
  | .ok m => m.evaluate (asciiLower host) none 0 [] false == some true
  | .error _ => false

variable [IpText]

/-- `should_sniff`. -/
def shouldSniff (s : Sniffer) (target : Target) : Bool :=
  if !s.enable then false
  else if s.skipDomain.any (domain · target.host) then false
  else (target.ip.isSome || s.forceDomain.any (domain · target.host)) &&
    s.sniff.any fun p => p.2.ports.any (·.contains target.port)

end

section

variable [HttpText]

/-- `http`: the host of a request, in lower case. -/
def http (data : List Byte) : Option Str := do
  let value ← HttpText.hostHeader data
  let host ← fromUtf8 value
  let host := asciiLower (trim (host.takeWhile (· ≠ ':')))
  if validHost host then some host else none

/-- The first protocol of the port that finds a host, with its settings. -/
def findHost (s : Sniffer) (port : UInt16) (head : List Byte) : Option (Str × SniffProtocol) :=
  s.sniff.findSome? fun (kind, settings) =>
    if settings.ports.any (·.contains port) then
      (if kind = "TLS" then tls head
        else if kind = "HTTP" then http head
        else none).map fun host => (host, settings)
    else none

/-- The loop that reads, with the bytes it has so far. -/
def readLoop (s : Sniffer) (port : UInt16) : Nat → Source String Byte → List Byte →
    Option (Str × SniffProtocol) × List Byte × Source String Byte
  | 0, stream, head => (none, head, stream)
  | polls + 1, stream, head =>
    match stream.poll 4096 with
    | (.pending, stream) => readLoop s port polls stream head
    -- An error ends the loop like the end of the stream; the relay meets it again.
    | (.failed _, stream) => (none, head, stream)
    | (.ready [], stream) => (none, head, stream)
    | (.ready (b :: bytes), stream) =>
      let head := head ++ b :: bytes
      match findHost s port head with
      | some found => (some found, head, stream)
      | none =>
        if 32768 ≤ head.length then (none, head, stream) else readLoop s port polls stream head

/-- What `sniff_target` returns, and the rest of the stream. -/
structure Sniffed where
  route : Target
  destination : Target
  head : List Byte
  stream : Source String Byte

variable [IpText] [RuleText]

/-- The route and the destination with the host that was found, unless it is skipped. -/
def renamed (s : Sniffer) (route : Target) : Option (Str × SniffProtocol) → Target × Target
  | none => (route, route)
  | some (host, settings) =>
    if s.skipDomain.any (domain · host) then (route, route)
    else (⟨host, route.port⟩, if settings.overrideDestination then ⟨host, route.port⟩ else route)

/-- `sniff_target`: the target to route by, the one to dial, and what was read for it. -/
def sniffTarget (s : Sniffer) (fakes : FakeMap) (target : Target) (polls : Nat)
    (stream : Source String Byte) : Sniffed :=
  let route := restoreTarget fakes target
  if !shouldSniff s route then ⟨route, route, [], stream⟩
  else
    let (found, head, stream) := readLoop s target.port polls stream []
    ⟨(renamed s route found).1, (renamed s route found).2, head, stream⟩

end

/-! ## What is read -/

/-- No byte is there in so many polls. -/
def quiet : Nat → List (Event Byte) → Bool
  | 0, _ => true
  | _ + 1, [] => true
  | polls + 1, .pending :: events => quiet polls events
  | _ + 1, .data _ _ :: _ => false

section

variable [HttpText] {s : Sniffer} {port : UInt16}

/-- What was read and what is left is what the client sends, and how much the loop reads at most. -/
theorem readLoop_spec (polls : Nat) (stream : Source String Byte) (head : List Byte) :
    (readLoop s port polls stream head).2.1 ++ (readLoop s port polls stream head).2.2.bytes =
        head ++ stream.bytes ∧
      (readLoop s port polls stream head).2.2.tail = stream.tail ∧
      head.length ≤ (readLoop s port polls stream head).2.1.length ∧
      (head.length < 32768 → (readLoop s port polls stream head).2.1.length < 36864) := by
  induction polls generalizing stream head with
  | zero => exact ⟨rfl, rfl, le_rfl, fun h => lt_trans h (by decide)⟩
  | succ polls ih =>
    have hpoll := stream.poll_step (show 0 < 4096 by decide)
    rw [readLoop]
    generalize stream.poll 4096 = r at hpoll ⊢
    obtain ⟨r, left⟩ := r
    cases hpoll with
    | pending es hevents =>
      obtain ⟨hbytes, htail, hle, hlt⟩ := ih { stream with events := es } head
      refine ⟨hbytes.trans ?_, htail, hle, hlt⟩
      simp [Source.bytes, hevents]
    | silent hevents htail => exact ih _ head
    | eof hevents htail => exact ⟨rfl, rfl, le_rfl, fun h => lt_trans h (by decide)⟩
    | broken e hevents htail =>
      exact ⟨rfl, rfl, le_rfl, fun h => lt_trans h (by decide)⟩
    | data c _ hne hle hbytes htail hsize =>
      obtain ⟨b, bytes, rfl⟩ := List.exists_cons_of_ne_nil hne
      have hsame : (head ++ b :: bytes) ++ left.bytes = head ++ stream.bytes := by
        rw [List.append_assoc, ← hbytes]
      have hgrow : (head ++ b :: bytes).length = head.length + (b :: bytes).length :=
        List.length_append
      -- the loop stops with a name or at the limit, and a read adds 4096 bytes at most
      dsimp only
      split
      · exact ⟨hsame, htail, by dsimp only; omega, fun h => by dsimp only; omega⟩
      · split
        · exact ⟨hsame, htail, by dsimp only; omega, fun h => by dsimp only; omega⟩
        · obtain ⟨ih1, ih2, ih3, ih4⟩ := ih left (head ++ b :: bytes)
          exact ⟨ih1.trans hsame, ih2.trans htail, by omega, fun _ => ih4 (by omega)⟩

theorem readLoop_ready {polls : Nat} {stream left : Source String Byte} {b : Byte}
    {head bytes : List Byte} (h : stream.poll 4096 = (.ready (b :: bytes), left)) :
    (head ++ b :: bytes).length ≤ (readLoop s port (polls + 1) stream head).2.1.length := by
  rw [readLoop, h]
  dsimp only
  split
  · exact le_rfl
  · split
    · exact le_rfl
    · exact (readLoop_spec polls left (head ++ b :: bytes)).2.2.1

theorem readLoop_eq_nil_iff (polls : Nat) (stream : Source String Byte) :
    (readLoop s port polls stream []).2.1 = [] ↔ quiet polls stream.events = true := by
  induction polls generalizing stream with
  | zero => exact iff_of_true rfl rfl
  | succ polls ih =>
    obtain ⟨events, tail⟩ := stream
    cases events with
    | nil =>
      cases tail with
      | eof | broken e => exact iff_of_true rfl rfl
      | silent =>
        refine (ih ⟨[], .silent⟩).trans (iff_of_true ?_ rfl)
        cases polls <;> rfl
    | cons event events =>
      cases event with
      | pending => exact ih ⟨events, tail⟩
      | data b bytes =>
        refine iff_of_false (fun hnil => ?_) (by simp [quiet])
        have hlong : ([] ++ b :: bytes.take 4095).length ≤
            (readLoop s port (polls + 1) ⟨.data b bytes :: events, tail⟩ []).2.1.length :=
          readLoop_ready rfl
        rw [hnil] at hlong
        cases hlong

variable [IpText] [RuleText] {fakes : FakeMap} {target : Target} {polls : Nat}
  {stream : Source String Byte}

theorem sniffTarget_of_not (h : shouldSniff s (restoreTarget fakes target) = false) :
    (sniffTarget s fakes target polls stream).head = [] ∧
      (sniffTarget s fakes target polls stream).stream = stream := by
  simp [sniffTarget, h]

theorem sniffTarget_of (h : shouldSniff s (restoreTarget fakes target)) :
    (sniffTarget s fakes target polls stream).head =
        (readLoop s target.port polls stream []).2.1 ∧
      (sniffTarget s fakes target polls stream).stream =
        (readLoop s target.port polls stream []).2.2 := by
  simp [sniffTarget, h]

theorem sniffTarget_spec :
    (sniffTarget s fakes target polls stream).head ++
        (sniffTarget s fakes target polls stream).stream.bytes = stream.bytes ∧
      (sniffTarget s fakes target polls stream).stream.tail = stream.tail ∧
      (sniffTarget s fakes target polls stream).head.length < 36864 := by
  cases h : shouldSniff s (restoreTarget fakes target) with
  | false =>
    rw [(sniffTarget_of_not h).1, (sniffTarget_of_not h).2]
    exact ⟨rfl, rfl, by decide⟩
  | true =>
    rw [(sniffTarget_of h).1, (sniffTarget_of h).2]
    obtain ⟨hbytes, htail, -, hlength⟩ := readLoop_spec polls stream []
    exact ⟨hbytes, htail, hlength (by decide)⟩

/-- Nothing is read exactly when nothing is there in time. -/
theorem sniffTarget_head_eq_nil_iff :
    (sniffTarget s fakes target polls stream).head = [] ↔
      shouldSniff s (restoreTarget fakes target) = false ∨ quiet polls stream.events = true := by
  cases h : shouldSniff s (restoreTarget fakes target) with
  | false => exact iff_of_true (sniffTarget_of_not h).1 (.inl rfl)
  | true =>
    rw [(sniffTarget_of h).1, readLoop_eq_nil_iff]
    exact ⟨.inr, fun h => h.resolve_left (by decide)⟩

end

end Sniff

end ClashMeta
