import ClashMeta.Lib.Reader
import ClashMeta.Protocol.Grpc.GunFrame

/-!
# The reading side of a gRPC stream (protocol/src/grpc.rs:259-364)

`GrpcStream::poll_read` collects the DATA chunks of an HTTP/2 response in `incoming`, takes
one frame after another off its front and hands the payload out as buffers come. The response
and its body are what the HTTP/2 library answers: the response after a number of polls, the
body as a list of answers and an end.
-/

namespace ClashMeta.Grpc

open List Reader

/-- What a poll of the body answers: a DATA chunk, or "not yet". -/
inductive BodyEvent where
  | data (bytes : List Byte)
  | pending
  deriving DecidableEq, Repr

namespace BodyEvent

/-- The bytes of an event. -/
def bytes : BodyEvent → List Byte
  | data bytes => bytes
  | pending => []

/-- A bound on the polls of an event. -/
def size : BodyEvent → Nat
  | data bytes => bytes.length + 1
  | pending => 1

end BodyEvent

/-- `h2::RecvStream`. -/
structure RecvStream where
  events : List BodyEvent
  tail : Tail String
  deriving DecidableEq, Repr

/-- `poll_data`: a chunk, or `none` at the end of the body. -/
def RecvStream.pollData (r : RecvStream) : Poll String (Option (List Byte)) × RecvStream :=
  match r.events with
  | .data bytes :: es => (.ready (some bytes), { r with events := es })
  | .pending :: es => (.pending, { r with events := es })
  | [] =>
    match r.tail with
    | .eof => (.ready none, r)
    | .silent => (.pending, r)
    | .broken e => (.failed e, r)

/-- A bound on the polls of a body, with one for every byte. -/
def RecvStream.size (r : RecvStream) : Nat := (r.events.map BodyEvent.size).sum

/-- A response: its status, in numbers and as text, and its body. -/
structure Response where
  status : Nat
  statusText : String
  body : RecvStream
  deriving DecidableEq, Repr

/-- `StatusCode::is_success`. -/
def Response.isSuccess (r : Response) : Bool := 200 ≤ r.status && r.status < 300

/-- Where a stream takes its bytes from: the response that is still to come, after `waits`
polls, or its body. The source has an `Option` for each, of which one is set. -/
inductive Body where
  | response (waits : Nat) (result : Except String Response)
  | recv (stream : RecvStream)
  deriving Repr

/-- A bound on the polls of a body. -/
def Body.size : Body → Nat
  | .response _ (.ok r) => r.body.size + 1
  | .response _ (.error _) => 0
  | .recv stream => stream.size

/-- The payload of a protobuf message. The sum of the two lengths wraps as a `usize` does. -/
def protoPayload (proto : List Byte) : Except String (List Byte) :=
  if proto.head? ≠ some 0x0a then .error "invalid Gun protobuf message"
  else
    match decodeVarint (proto.drop 1) with
    | none => .error "invalid Gun protobuf length"
    | some (payloadLen, taken) =>
      let start := 1 + taken
      if (start + payloadLen) % 2 ^ 64 ≠ proto.length then .error "invalid Gun protobuf payload"
      else .ok (proto.drop start)

/-- `GrpcStream`, without the sending half. -/
structure GrpcStream where
  body : Body
  incoming : List Byte
  payload : List Byte
  payloadAt : Nat
  closed : Bool
  deriving Repr

/-- The limit on a message, 16 MiB. -/
def maxMessage : Nat := 16 * 1024 * 1024

namespace GrpcStream

/-- `GrpcStream` as `connect` makes it. -/
def new (waits : Nat) (result : Except String Response) : GrpcStream where
  body := .response waits result
  incoming := []
  payload := []
  payloadAt := 0
  closed := false

/-- `GrpcStream::parse`: whether a frame was taken off `incoming`. -/
def parse (s : GrpcStream) : Except String (Bool × GrpcStream) :=
  if s.incoming.length < 5 then .ok (false, s)
  else if s.incoming.head? ≠ some 0 then .error "compressed gRPC messages are unsupported"
  else
    let length := fromBe ((s.incoming.drop 1).take 4)
    if maxMessage < length then .error "oversized gRPC message"
    else if s.incoming.length < 5 + length then .ok (false, s)
    else do
      let payload ← protoPayload ((s.incoming.drop 5).take length)
      return (true, { s with
        payload := payload
        payloadAt := 0
        incoming := s.incoming.drop (5 + length) })

/-- The bytes that are left of the payload go into a buffer with room for `room`. -/
def handOut (s : GrpcStream) (room : Nat) : Poll String (List Byte) × GrpcStream :=
  let n := min room (s.payload.length - s.payloadAt)
  (.ready ((s.payload.drop s.payloadAt).take n), { s with payloadAt := s.payloadAt + n })

/-- How a round of `poll_read` ends: the poll returns, or the loop goes on. -/
inductive Round where
  | returns (answer : Poll String (List Byte)) (s : GrpcStream)
  | again (s : GrpcStream)

/-- The end of a round: the response is awaited and the body polled. -/
def pollBody (s : GrpcStream) : Round :=
  match s.body with
  | .response (waits + 1) result => .returns .pending { s with body := .response waits result }
  | .response 0 (.error e) => .returns (.failed e) s
  | .response 0 (.ok response) =>
    if response.isSuccess then .again { s with body := .recv response.body }
    else .returns (.failed ("gRPC transport rejected: " ++ response.statusText)) s
  | .recv stream =>
    match stream.pollData with
    | (.pending, stream') => .returns .pending { s with body := .recv stream' }
    | (.failed e, stream') => .returns (.failed e) { s with body := .recv stream' }
    | (.ready (some data), stream') =>
      .again { s with body := .recv stream', incoming := s.incoming ++ data }
    | (.ready none, stream') => .again { s with body := .recv stream', closed := true }

/-- One round of `poll_read` with room for `room` bytes. -/
def round (s : GrpcStream) (room : Nat) : Round :=
  if s.payloadAt < s.payload.length then .returns (s.handOut room).1 (s.handOut room).2
  else
    match s.parse with
    | .error e => .returns (.failed e) s
    | .ok (true, s') => .again s'
    | .ok (false, _) => if s.closed then .returns (.ready []) s else s.pollBody

/-- The rounds of `poll_read`. Each takes a frame, a chunk, the response or the end; `fuel`
bounds their number. -/
def pollReadLoop (room : Nat) : Nat → GrpcStream → Poll String (List Byte) × GrpcStream
  | 0, s => (.pending, s)
  | fuel + 1, s =>
    match s.round room with
    | .returns answer s' => (answer, s')
    | .again s' => pollReadLoop room fuel s'

/-- A bound on the rounds of a poll. -/
def size (s : GrpcStream) : Nat :=
  s.incoming.length + s.body.size + if s.closed then 0 else 1

/-- `GrpcStream::poll_read`. -/
def pollRead (s : GrpcStream) (room : Nat) : Poll String (List Byte) × GrpcStream :=
  s.pollReadLoop room (s.size + 1)

end GrpcStream

/-! ## Parsing -/

theorem protoPayload_gunProto {p : List Byte} (h : p.length ≤ maxChunk) :
    protoPayload (gunProto p) = .ok p := by
  have hmax : maxChunk = 16384 := rfl
  have hlength : (gunProto p).length = 1 + (varint p.length).length + p.length := by
    rw [gunProto, length_cons, length_append]
    omega
  have hshort := length_gunProto h
  show (match decodeVarint (varint p.length ++ p) with
    | none => _
    | some (payloadLen, taken) => _) = _
  rw [decodeVarint_varint (by omega)]
  dsimp only
  rw [if_neg, gunProto, add_comm 1, drop_succ_cons, drop_left]
  rw [Nat.mod_eq_of_lt (by omega), hlength]
  exact fun hne => hne rfl

theorem split_front {front rest header tail : List Byte} (h : front ++ rest = header ++ tail)
    (hlength : header.length ≤ front.length) :
    ∃ more, front = header ++ more ∧ more ++ rest = tail := by
  obtain ⟨more, rfl⟩ : header <+: front :=
    prefix_of_prefix_length_le ⟨tail, h.symm⟩ ⟨rest, rfl⟩ hlength
  rw [append_assoc] at h
  exact ⟨more, rfl, append_cancel_left h⟩

namespace GrpcStream

variable {s : GrpcStream}

theorem parse_header {length : Nat} {more : List Byte} (hlength : length ≤ maxChunk + 4)
    (h : s.incoming = 0 :: (beBytes 4 length ++ more)) :
    s.parse = if more.length < length then .ok (false, s)
      else do
        let payload ← protoPayload (more.take length)
        return (true, { s with
          payload := payload
          payloadAt := 0
          incoming := more.drop length }) := by
  have hmax : maxChunk = 16384 := rfl
  have hmessage : maxMessage = 16777216 := rfl
  have hcount : s.incoming.length = 5 + more.length := by
    rw [h, length_cons, length_append, length_beBytes]
    omega
  have hfield : fromBe ((s.incoming.drop 1).take 4) = length := by
    rw [h, drop_succ_cons, drop_zero, take_append_of_le_length (by simp),
      take_of_length_le (by simp)]
    exact fromBe_beBytes (by omega)
  have hdrop : ∀ n, s.incoming.drop (5 + n) = more.drop n := by
    intro n
    rw [h, ← cons_append, ← drop_drop, drop_left' (by simp)]
  have hdrop0 : s.incoming.drop 5 = more := hdrop 0
  rw [parse, if_neg (by omega), if_neg (by simp [h])]
  simp only [hfield, hcount, hdrop, hdrop0]
  rw [if_neg (by omega)]
  simp only [Nat.add_lt_add_iff_left]

/-- What `parse` does with frames of which `incoming` is the beginning. -/
inductive Parsed (s : GrpcStream) (rest : List Byte) :
    List (List Byte) → Except String (Bool × GrpcStream) → Prop where
  | more {frames : List (List Byte)} (h : rest = [] → frames = []) :
      Parsed s rest frames (.ok (false, s))
  | frame {p more : List Byte} {frames : List (List Byte)}
      (hlength : more.length < s.incoming.length) (h : more ++ rest = frames.flatMap gunFrame) :
      Parsed s rest (p :: frames)
        (.ok (true, { s with payload := p, payloadAt := 0, incoming := more }))

theorem parse_parsed {frames : List (List Byte)} {rest : List Byte}
    (hframes : ∀ p ∈ frames, p.length ≤ maxChunk)
    (h : s.incoming ++ rest = frames.flatMap gunFrame) : Parsed s rest frames s.parse := by
  cases frames with
  | nil =>
    have hnil : s.incoming = [] := (append_eq_nil_iff.mp h).1
    have hparse : s.parse = .ok (false, s) := by
      rw [parse, if_pos (by simp [hnil])]
    rw [hparse]
    exact .more fun _ => rfl
  | cons p frames =>
    obtain ⟨hp, -⟩ := forall_mem_cons.mp hframes
    have hwhole : s.incoming ++ rest = (0 :: beBytes 4 (gunProto p).length) ++
        (gunProto p ++ frames.flatMap gunFrame) := by
      rw [h, flatMap_cons, gunFrame]
      simp
    -- the five bytes of the header first, then the message whose length they have
    rcases lt_or_ge s.incoming.length 5 with hshort | hheader
    · have hparse : s.parse = .ok (false, s) := by rw [parse, if_pos hshort]
      rw [hparse]
      refine .more fun hnil => absurd (congrArg List.length hwhole) ?_
      rw [hnil, append_nil, length_append, length_cons, length_beBytes]
      omega
    · obtain ⟨more, hmore, hproto⟩ := split_front hwhole (by simpa using hheader)
      rw [parse_header (length_gunProto hp) hmore]
      split
      · next hlt =>
        refine .more fun hnil => absurd (congrArg List.length hproto) ?_
        rw [hnil, append_nil, length_append]
        omega
      · next hge =>
        obtain ⟨tail, htail, hrest⟩ := split_front hproto (not_lt.mp hge)
        rw [htail, take_left, drop_left, protoPayload_gunProto hp]
        refine .frame ?_ hrest
        rw [hmore, htail]
        simp only [length_cons, length_append]
        omega

end GrpcStream

/-! ## Reading -/

/-- The body ends after `bytes`, with `k` answers "not yet" among its chunks. -/
structure RecvStream.Carries (r : RecvStream) (bytes : List Byte) (k : Nat) : Prop where
  tail : r.tail = .eof
  bytes : r.events.flatMap BodyEvent.bytes = bytes
  waits : r.events.count .pending = k

/-- The same for a response that is still to come. -/
inductive Body.Carries : Body → List Byte → Nat → Prop where
  | response {waits : Nat} {r : Response} {bytes : List Byte} {k : Nat} (hok : r.isSuccess = true)
      (h : r.body.Carries bytes k) : Carries (.response waits (.ok r)) bytes (waits + k)
  | recv {r : RecvStream} {bytes : List Byte} {k : Nat} (h : r.Carries bytes k) :
      Carries (.recv r) bytes k

namespace GrpcStream

/-- `out` is what is left of the payload and the payloads of the frames to come, then the
stream ends. -/
structure Holds (s : GrpcStream) (out : List Byte) (fin : Finish) (m : Nat) : Prop where
  finish : fin = .eof
  frames : ∃ (frames : List (List Byte)) (rest : List Byte) (k : Nat),
    (∀ p ∈ frames, p.length ≤ maxChunk) ∧ s.body.Carries rest k ∧
    s.incoming ++ rest = frames.flatMap gunFrame ∧
    out = s.payload.drop s.payloadAt ++ frames.flatten ∧
    (s.closed = true → rest = [] ∧ k = 0) ∧ out.length + k ≤ m

/-- How a poll ends. -/
inductive Outcome (room : Nat) (out : List Byte) (fin : Finish) (m : Nat) :
    Poll String (List Byte) → GrpcStream → Prop where
  | handOut {s : GrpcStream} (h : s.Holds out fin m) (hleft : s.payloadAt < s.payload.length) :
      Outcome room out fin m (s.handOut room).1 (s.handOut room).2
  | pending {s : GrpcStream} {k : Nat} (h : s.Holds out fin k) (hk : k < m) :
      Outcome room out fin m .pending s
  | eof {s : GrpcStream} (hout : out = []) (h : s.Holds [] fin 0) :
      Outcome room out fin m (.ready []) s

/-- A round from a state of size `n` ends the poll, or the loop goes on with less to do. -/
inductive Advances (room : Nat) (out : List Byte) (fin : Finish) (m n : Nat) : Round → Prop where
  | returns {answer : Poll String (List Byte)} {s : GrpcStream}
      (h : Outcome room out fin m answer s) : Advances room out fin m n (.returns answer s)
  | again {s : GrpcStream} (hsize : s.size < n) (h : s.Holds out fin m) :
      Advances room out fin m n (.again s)

variable {s : GrpcStream} {out : List Byte} {m : Nat}

theorem pollBody_advances (room : Nat) {frames : List (List Byte)} {rest : List Byte} {k : Nat}
    (hopen : s.closed = false) (hframes : ∀ p ∈ frames, p.length ≤ maxChunk)
    (hbody : s.body.Carries rest k) (hwire : s.incoming ++ rest = frames.flatMap gunFrame)
    (hout : out = s.payload.drop s.payloadAt ++ frames.flatten) (hm : out.length + k ≤ m) :
    Advances room out .eof m s.size s.pollBody := by
  obtain ⟨body, incoming, payload, payloadAt, closed⟩ := s
  obtain rfl : closed = false := hopen
  -- the response comes first, then the body: every event makes the stream smaller
  cases hbody with
  | @response waits r _ k hok hr =>
    cases waits with
    | succ waits =>
      refine .returns (.pending (k := out.length + (waits + k)) ?_ (by omega))
      exact ⟨rfl, frames, rest, waits + k, hframes, .response hok hr, hwire, hout,
        nofun, le_rfl⟩
    | zero =>
      rw [pollBody]
      simp only [hok, if_true]
      refine .again ?_ ⟨rfl, frames, rest, k, hframes, .recv hr, hwire, hout,
        nofun, by omega⟩
      simp only [size, Body.size]
      omega
  | @recv r _ _ hr =>
    obtain ⟨events, tail⟩ := r
    obtain ⟨rfl, rfl, rfl⟩ := hr
    cases events with
    | nil =>
      refine .again ?_ ⟨rfl, frames, [], 0, hframes, .recv ⟨rfl, rfl, rfl⟩, hwire, hout,
        fun _ => ⟨rfl, rfl⟩, hm⟩
      simp [size, Body.size]
    | cons event es =>
      cases event with
      | pending =>
        rw [count_cons_self] at hm
        refine .returns (.pending (k := out.length + es.count .pending) ?_ (by omega))
        exact ⟨rfl, frames, _, _, hframes, .recv ⟨rfl, rfl, rfl⟩, hwire, hout,
          nofun, le_rfl⟩
      | data bytes =>
        refine .again ?_ ⟨rfl, frames, _, _, hframes, .recv ⟨rfl, rfl, rfl⟩, ?_, hout,
          nofun, hm⟩
        · simp [size, Body.size, RecvStream.size, BodyEvent.size]
          omega
        · rw [append_assoc]
          exact hwire

variable {fin : Finish}

theorem round_advances (room : Nat) (h : s.Holds out fin m) :
    Advances room out fin m s.size (s.round room) := by
  rw [round]
  by_cases hleft : s.payloadAt < s.payload.length
  · rw [if_pos hleft]
    exact .returns (.handOut h hleft)
  · rw [if_neg hleft]
    obtain ⟨rfl, frames, rest, k, hframes, hbody, hwire, hout, hclosed, hm⟩ := h
    have hnil : s.payload.drop s.payloadAt = [] :=
      drop_of_length_le (not_lt.mp hleft)
    have hparsed := parse_parsed hframes hwire
    generalize s.parse = r at hparsed ⊢
    cases hparsed with
    | @frame p more frames hlength hmore =>
      rw [forall_mem_cons] at hframes
      rw [hnil] at hout
      refine .again ?_ ⟨rfl, frames, rest, k, hframes.2, hbody, hmore, hout, hclosed, hm⟩
      simp only [size]
      omega
    | more hnone =>
      cases hend : s.closed with
      | false => exact pollBody_advances room hend hframes hbody hwire hout hm
      | true =>
        obtain ⟨rfl, rfl⟩ := hclosed hend
        obtain rfl := hnone rfl
        rw [hnil] at hout
        refine .returns (.eof hout ⟨rfl, [], [], 0, hframes, hbody, hwire, ?_, fun _ => ⟨rfl, rfl⟩,
          Nat.le_refl 0⟩)
        rw [hnil]
        rfl

theorem pollReadLoop_outcome (room : Nat) {fuel : Nat} (hfuel : s.size < fuel)
    (h : s.Holds out fin m) :
    Outcome room out fin m (pollReadLoop room fuel s).1 (pollReadLoop room fuel s).2 := by
  induction fuel generalizing s with
  | zero => exact absurd hfuel (Nat.not_lt_zero _)
  | succ fuel ih =>
    have hround := round_advances room h
    rw [pollReadLoop]
    generalize s.round room = r at hround ⊢
    cases hround with
    | returns houtcome => exact houtcome
    | again hsize h' => exact ih (by omega) h'

theorem handOut_holds (room : Nat) (h : s.Holds out fin m)
    (hleft : s.payloadAt < s.payload.length) :
    ∃ c rest k, (s.handOut room).1 = .ready c ∧
      c.length = min room (s.payload.length - s.payloadAt) ∧ out = c ++ rest ∧
      k + c.length ≤ m ∧ (s.handOut room).2.Holds rest fin k := by
  obtain ⟨hfin, frames, bytes, k, hframes, hbody, hwire, hout, hclosed, hm⟩ := h
  have hsplit : s.payload.drop s.payloadAt =
      (s.payload.drop s.payloadAt).take (min room (s.payload.length - s.payloadAt)) ++
        s.payload.drop (s.payloadAt + min room (s.payload.length - s.payloadAt)) := by
    rw [← drop_drop, take_append_drop]
  rw [hsplit, append_assoc] at hout
  refine ⟨_, _, _, rfl, ?_, hout, ?_, ⟨hfin, frames, bytes, k, hframes, hbody, hwire, rfl, hclosed,
    le_rfl⟩⟩
  · rw [length_take, length_drop]
    omega
  · rw [hout, length_append] at hm
    omega

/-- **A gRPC stream is a reader of the payloads**, whatever the chunks of the body and the
buffers are. A poll without room may still wait for the body. -/
theorem polls : Polls pollRead Holds where
  idle {s out fin m} h := by
    have houtcome := pollReadLoop_outcome 0 (Nat.lt_succ_self s.size) h
    rw [pollRead]
    generalize pollReadLoop 0 (s.size + 1) s = r at houtcome ⊢
    obtain ⟨answer, s'⟩ := r
    cases houtcome with
    | @handOut s' h' hleft =>
      obtain ⟨c, rest, k, hanswer, hlength, hout, hk, hrest⟩ := handOut_holds 0 h' hleft
      obtain rfl : c = [] := length_eq_zero_iff.mp (by omega)
      exact .ready _ k hk (hout ▸ hrest)
    | pending h' hk => exact .pending _ _ (le_of_lt hk) h'
    | eof hout h' => exact .ready _ 0 (Nat.zero_le m) (hout ▸ h')
  step {s out fin m room} h hroom := by
    have houtcome := pollReadLoop_outcome room (Nat.lt_succ_self s.size) h
    rw [pollRead]
    generalize pollReadLoop room (s.size + 1) s = r at houtcome ⊢
    obtain ⟨answer, s'⟩ := r
    dsimp only at houtcome
    cases houtcome with
    | @handOut s' h' hleft =>
      obtain ⟨c, rest, k, hanswer, hlength, hout, hk, hrest⟩ := handOut_holds room h' hleft
      rw [hanswer]
      refine .data c rest _ k ?_ (by omega) hout hk hrest
      exact ne_nil_of_length_pos (by omega)
    | pending h' hk => exact .pending _ _ hk h'
    | eof hout h' =>
      obtain rfl := h'.finish
      exact .eof _ hout rfl h'

end GrpcStream

/-! ## Round trips -/

/-- The response to a stream: accepted, with a body that ends. -/
def accepted (waits : Nat) (events : List BodyEvent) : GrpcStream :=
  .new waits (.ok ⟨200, "200 OK", ⟨events, .eof⟩⟩)

/-- **Gun framing round-trips.** Whatever chunks the frames come in and whatever buffers are
polled, the stream hands out the strings in order, ends only after all of them, and does end
when it is polled often enough; and a length is read back as it was written. -/
theorem gun_frames_roundtrip (strings : List (List Byte))
    (hstrings : ∀ p ∈ strings, p.length ≤ maxChunk) (waits : Nat)
    (events : List BodyEvent)
    (hevents : events.flatMap BodyEvent.bytes = strings.flatMap gunFrame) :
    (∀ sizes, (readAll GrpcStream.pollRead (accepted waits events) sizes).1 <+:
        strings.flatten ∧
      ∀ fin, (readAll GrpcStream.pollRead (accepted waits events) sizes).2 = some fin →
        fin = .eof ∧
          (readAll GrpcStream.pollRead (accepted waits events) sizes).1 = strings.flatten) ∧
    (∃ m, ∀ sizes : List Nat, m < sizes.countP (0 < ·) →
      readAll GrpcStream.pollRead (accepted waits events) sizes =
        (strings.flatten, some .eof)) ∧
    ∀ n < 2 ^ 64, ∀ rest, decodeVarint (varint n ++ rest) = some (n, (varint n).length) := by
  have hholds : (accepted waits events).Holds strings.flatten .eof
      (strings.flatten.length + (waits + events.count .pending)) :=
    ⟨rfl, strings, _, _, hstrings, .response rfl ⟨rfl, rfl, rfl⟩, hevents, rfl,
      nofun, le_rfl⟩
  refine ⟨fun sizes => ?_, ⟨strings.flatten.length + (waits + events.count .pending),
    fun sizes hm => ?_⟩, fun n hn rest => decodeVarint_varint hn rest⟩
  · obtain ⟨rest, k, hrest, -, -, hsome⟩ := GrpcStream.polls.run hholds sizes
    refine ⟨⟨rest, hrest.symm⟩, fun fin hfin => ?_⟩
    obtain ⟨rfl, -, rfl⟩ := hsome fin hfin
    exact ⟨rfl, by rw [hrest, append_nil]⟩
  · obtain ⟨hend, hall⟩ := GrpcStream.polls.readAll_ends hholds hm
    exact Prod.ext hall hend

/-- Two strings whose frames come in three chunks, cut in a length and in a payload. -/
def threeChunks : List BodyEvent :=
  [.data [0, 0, 0], .pending, .data [0, 3, 10, 1, 7, 0, 0, 0, 0, 4, 10, 2, 8], .data [9]]

theorem gun_frames_roundtrip_threeChunks :
    threeChunks.flatMap BodyEvent.bytes = [[7], [8, 9]].flatMap gunFrame ∧
      ∃ m, ∀ sizes : List Nat, m < sizes.countP (0 < ·) →
        readAll GrpcStream.pollRead (accepted 1 threeChunks) sizes =
          ([7, 8, 9], some .eof) := by
  have hevents : threeChunks.flatMap BodyEvent.bytes = [[7], [8, 9]].flatMap gunFrame := by
    simp [threeChunks, BodyEvent.bytes, gunFrame, gunProto, varint_of_lt, beBytes]
  exact ⟨hevents, (gun_frames_roundtrip [[7], [8, 9]] (by decide) 1 threeChunks hevents).2.1⟩

end ClashMeta.Grpc
