import ClashMeta.Core.Packet.Bridge

/-!
# The TCP bridge keeps both byte streams

What is on its way to the session waits in three places: the pending buffer of the stream, the
channel and the socket. What comes from it waits in two. Put end to end these are the two pipes
`TcpBridge.down` and `TcpBridge.up`, and every step of the bridge is a step of each of them
(`Simulates`): a move from one place to the next is no step of the pipe at all.
-/

namespace ClashMeta.Packet

open List Option Bool Pending

/-- What was seen of the stream to the session. -/
def downs (log : List Sight) : List (Pipe.Event Byte) :=
  log.filterMap fun
    | .down e => some e
    | .up _ => none

/-- What was seen of the stream from the session. -/
def ups (log : List Sight) : List (Pipe.Event Byte) :=
  log.filterMap fun
    | .down _ => none
    | .up e => some e

theorem downs_append (log es : List Sight) : downs (log ++ es) = downs log ++ downs es :=
  filterMap_append

theorem ups_append (log es : List Sight) : ups (log ++ es) = ups log ++ ups es :=
  filterMap_append

variable {log : List Sight} {e : Pipe.Event Byte}

/-- An event to the session was seen. -/
theorem mem_downs : e ∈ downs log ↔ .down e ∈ log := by
  rw [downs, mem_filterMap]
  constructor
  · rintro ⟨sight, hmem, heq⟩
    cases sight <;> cases heq
    exact hmem
  · exact fun hmem => ⟨_, hmem, rfl⟩

/-- An event from the session was seen. -/
theorem mem_ups : e ∈ ups log ↔ .up e ∈ log := by
  rw [ups, mem_filterMap]
  constructor
  · rintro ⟨sight, hmem, heq⟩
    cases sight <;> cases heq
    exact hmem
  · exact fun hmem => ⟨_, hmem, rfl⟩

namespace TcpBridge

/-- The way to the session: it ends with the peer. -/
def down (s : TcpBridge) : Pipe Byte :=
  ⟨s.stream.pending.rest ++ (s.stream.input.queue.flatten ++ s.socket.received), s.socket.finished⟩

/-- The way from the session: it ends with the session's end of the channel. -/
def up (s : TcpBridge) : Pipe Byte :=
  ⟨s.pending.rest ++ s.stream.output.queue.flatten, !s.stream.output.sender⟩

/-- The flow was neither aborted nor retired. -/
def Alive (s : TcpBridge) : Prop := s.aborted = false ∧ s.retired = false

/-- What holds of the places in which bytes wait, whatever happened before. -/
structure Wf (s : TcpBridge) : Prop where
  items : ∀ bytes ∈ s.stream.input.queue, bytes ≠ []
  started : s.stream.pending.Started
  reserved : s.pumping = .reserved → s.stream.input.sender = true
  eof : s.eof = true → s.stream.output.sender = false ∧ s.stream.output.queue = []
  cut : s.stream.input.sender = false → s.Alive →
    s.socket.finished = true ∧ s.socket.received = []

/-- A step of the bridge as a step of both pipes. -/
structure Simulates (s : TcpBridge) (es : List Sight) (s' : TcpBridge) : Prop where
  down : s.Alive → Pipe.Step s.down (downs es) s'.down
  up : Pipe.Step s.up (ups es) s'.up
  wf : s'.Wf
  alive : s'.Alive → s.Alive

variable {s s' : TcpBridge} {es : List Sight}

namespace Wf

theorem new : Wf .new where
  items _ h := by cases h
  started := started_none
  reserved h := by cases h
  eof h := by cases h
  cut h := by cases h

theorem goto (h : s.Wf) {pumping : Pumping}
    (hreserved : pumping = .reserved → s.stream.input.sender = true) : (s.goto pumping).Wf :=
  ⟨h.items, h.started, hreserved, h.eof, h.cut⟩

theorem abort (h : s.Wf) : s.abort.Wf :=
  ⟨h.items, h.started, h.reserved, h.eof, fun _ halive => by cases halive.1⟩

theorem wire (h : s.Wf) (state : TcpState) :
    Wf { s with socket := { s.socket with state := state } } :=
  ⟨h.items, h.started, h.reserved, h.eof, h.cut⟩

theorem takeInput (h : s.Wf) (hpumping : s.pumping ≠ .reserved)
    (hcut : s.Alive → s.socket.finished = true ∧ s.socket.received = []) : s.takeInput.Wf :=
  ⟨h.items, h.started, fun he => absurd he hpumping, h.eof, fun _ => hcut⟩

end Wf

/-- A move that leaves both pipes as they are. -/
theorem Simulates.still (hdown : s'.down = s.down) (hup : s'.up = s.up) (hwf : s'.Wf)
    (halive : s'.Alive → s.Alive) : Simulates s [] s' where
  down _ := by
    rw [hdown]
    exact .idle _
  up := by
    rw [hup]
    exact .idle _
  wf := hwf
  alive := halive

/-! ## The pump -/

variable {pumping : Pumping} (h : s.Wf)

include h

theorem simulates_goto (hne : pumping ≠ .reserved := by decide) : Simulates s [] (s.goto pumping) :=
  .still rfl rfl (h.goto fun he => absurd he hne) id

theorem simulates_abort (hne : pumping ≠ .reserved := by decide) :
    Simulates s [] (s.abort.goto pumping) :=
  .still rfl rfl (h.abort.goto fun he => absurd he hne) fun halive => by cases halive.1

/-- Reserving a place moves nothing. -/
theorem simulates_reserve : Simulates s [] s.reserve := by
  rw [reserve]
  split
  · exact simulates_goto h
  split
  · exact simulates_abort h
  · next hsender =>
    have hsender : s.stream.input.sender = true := by simpa using hsender
    split
    · exact .still rfl rfl (h.goto fun _ => hsender) id
    · exact simulates_goto h

/-- A slice moves from the socket to the end of the channel. -/
theorem simulates_recv (hpumping : s.pumping = .reserved) {front : Nat} (hfront : 0 < front)
    (hlength : front ≤ s.socket.received.length) : Simulates s [] (s.recv front) := by
  have hsender := h.reserved hpumping
  have hchunk : s.socket.received.take (min front chunk) ≠ [] := by
    have : 0 < (s.socket.received.take (min front chunk)).length := by
      rw [length_take, chunk]
      omega
    exact ne_nil_of_length_pos this
  have hwaiting : (s.stream.input.queue ++ [s.socket.received.take (min front chunk)]).flatten ++
      s.socket.received.drop (min front chunk) =
        s.stream.input.queue.flatten ++ s.socket.received := by
    rw [flatten_append, flatten_singleton, append_assoc, take_append_drop]
  refine .still ?_ rfl ⟨?_, h.started, nofun, h.eof, fun hcut => ?_⟩ id
  · exact congrArg (fun w => Pipe.mk (s.stream.pending.rest ++ w) s.socket.finished) hwaiting
  · intro bytes hmem
    rcases mem_append.mp hmem with hmem | hmem
    · exact h.items bytes hmem
    · rwa [mem_singleton.mp hmem]
  · cases hsender.symm.trans hcut

/-- The channel is closed behind the last byte of the peer. -/
theorem simulates_received (hpumping : s.pumping = .received) (hsilent : s.silent) :
    Simulates s [] ((if s.socket.state.opening then s else s.takeInput).goto .sending) := by
  split
  · exact simulates_goto h
  · next hopening =>
    -- the handshake is over and the flow lives: `may_recv` was false for the peer's end
    refine .still rfl rfl (.goto (h.takeInput ?_ fun halive => ?_) fun he => by cases he) id
    · rw [hpumping]
      exact nofun
    · rw [silent, or_eq_true, or_eq_true, and_eq_true, List.isEmpty_iff] at hsilent
      rcases hsilent with (hdone | hopen) | haborted
      · exact hdone
      · exact absurd hopen hopening
      · cases halive.1.symm.trans haborted

/-- An item moves from the channel into the buffer. -/
theorem simulates_next : Simulates s [] s.next := by
  rw [next]
  split
  · next hready =>
    rw [and_eq_true, isNone_iff_eq_none, not_eq_true'] at hready
    obtain ⟨hpending, heof⟩ := hready
    rw [Channel.recv]
    cases hqueue : s.stream.output.queue with
    | nil =>
      cases hsender : s.stream.output.sender with
      | true => exact simulates_goto h
      | false =>
        exact .still rfl rfl ⟨h.items, h.started, nofun, fun _ => ⟨hsender, hqueue⟩, h.cut⟩ id
    | cons bytes rest =>
      -- an item moves from the channel into the buffer in front of it
      refine .still rfl ?_ ⟨h.items, h.started, nofun, fun he => ?_, h.cut⟩ id
      · show Pipe.mk (bytes.drop 0 ++ rest.flatten) _ = Pipe.mk (_ ++ _) _
        rw [hpending, hqueue]
        rfl
      · cases heof.symm.trans he
  · exact simulates_goto h

/-- The socket takes bytes from the buffer, or is closed. -/
theorem simulates_hand {accepts : Nat} (hstep : s.hand accepts = some (s', es)) :
    Simulates s es s' := by
  rw [hand] at hstep
  split at hstep
  · next hpending =>
    split at hstep
    · next heof =>
      -- `close`: the buffer and the channel are empty, and nothing comes any more
      cases hstep
      obtain ⟨hsender, hqueue⟩ := h.eof heof
      refine ⟨fun _ => .idle _, ?_, (h.wire _).goto nofun, id⟩
      show Pipe.Step ⟨s.pending.rest ++ s.stream.output.queue.flatten, !s.stream.output.sender⟩ _
        ⟨s.pending.rest ++ s.stream.output.queue.flatten, !s.stream.output.sender⟩
      rw [hpending, hqueue, hsender]
      exact .close
    · cases hstep
      exact simulates_goto h
  · next bytes offset hpending =>
    split at hstep
    · cases hstep
    split at hstep
    · cases hstep
      exact simulates_goto h
    · cases hstep
      have hwaiting : s.pending.rest ++ s.stream.output.queue.flatten =
          (bytes.drop offset).take accepts ++
            ((advance bytes offset accepts).rest ++ s.stream.output.queue.flatten) := by
        rw [hpending, rest_some, ← append_assoc, take_append_rest_advance]
      refine ⟨fun _ => .idle _, ?_, ⟨h.items, h.started, nofun, h.eof, h.cut⟩, id⟩
      rw [up, hwaiting]
      exact .take ..

/-- **Every step of the pump.** -/
theorem simulates_pump {answers : Answers} (hstep : s.pump answers = some (s', es)) :
    Simulates s es s' := by
  rw [pump] at hstep
  generalize hpumping : s.pumping = pumping at hstep
  cases pumping with
  | idle => cases hstep
  | receiving =>
    cases hstep
    exact simulates_reserve h
  | refused =>
    cases hstep
    split
    · exact simulates_goto h
    · exact simulates_abort h
  | reserved =>
    -- an answer the socket cannot give is no step
    dsimp only at hstep
    split at hstep
    · cases hstep
    · next hanswer =>
      cases hstep
      exact simulates_recv h hpumping (by omega) (by omega)
  | received =>
    dsimp only at hstep
    split at hstep
    · cases hstep
      exact simulates_goto h
    split at hstep
    · cases hstep
    · next hsilent =>
      cases hstep
      exact simulates_received h hpumping (by simpa using hsilent)
  | sending =>
    dsimp only at hstep
    split at hstep
    · cases hstep
      exact simulates_next h
    · cases hstep
      exact simulates_goto h
  | handing => exact simulates_hand h hstep
  | sent =>
    dsimp only at hstep
    split at hstep
    · cases hstep
      exact simulates_goto h
    · cases hstep
      exact .still rfl rfl ⟨h.items, h.started, nofun, h.eof,
        (fun _ halive => by cases halive.2)⟩ fun halive => by cases halive.2

/-! ## The session -/

end TcpBridge

namespace ChannelStream

variable {t t' : ChannelStream}

/-- What a read does: nothing, or it takes the front of what waits, or it finds that nothing
waits and nothing will. -/
inductive Reads (t : ChannelStream) (remaining : Nat) :
    Option (List Byte) → ChannelStream → Prop where
  | still (result : Option (List Byte)) (h : result = none ∨ result = some [] ∧ remaining = 0) :
    Reads t remaining result t
  | bytes (bytes : List Byte) (input : Channel (List Byte)) (pending : Pending Byte)
    (hne : bytes ≠ []) (hsender : input.sender = t.input.sender)
    (hitems : ∀ item ∈ input.queue, item ∈ t.input.queue) (hstarted : pending.Started)
    (hwaiting : t.pending.rest ++ t.input.queue.flatten =
      bytes ++ (pending.rest ++ input.queue.flatten)) :
    Reads t remaining (some bytes) { t with input := input, pending := pending }
  | eof (hremaining : 0 < remaining) (hpending : t.pending = none) (hqueue : t.input.queue = [])
    (hsender : t.input.sender = false) : Reads t remaining (some []) t

/-- Filling a read from a buffer takes some of its bytes. -/
theorem fill_reads (t : ChannelStream) {bytes : List Byte} {offset remaining : Nat}
    (hremaining : 0 < remaining) (hoffset : offset < bytes.length) :
    (t.fill bytes offset remaining).1 ≠ [] ∧
      (t.fill bytes offset remaining).2.pending.Started ∧
      (t.fill bytes offset remaining).1 ++ (t.fill bytes offset remaining).2.pending.rest =
        bytes.drop offset := by
  refine ⟨?_, started_advance (by omega), take_append_rest_advance ..⟩
  apply ne_nil_of_length_pos
  rw [fill, length_take, length_drop]
  omega

/-- Every read is one of these. -/
theorem pollRead_reads (t : ChannelStream) (remaining : Nat)
    (hitems : ∀ item ∈ t.input.queue, item ≠ []) (hstarted : t.pending.Started) :
    Reads t remaining (t.pollRead remaining).1 (t.pollRead remaining).2 := by
  rw [pollRead]
  split
  · next hzero => exact .still _ (.inr ⟨rfl, hzero⟩)
  next hremaining =>
  have hremaining : 0 < remaining := pos_of_ne_zero hremaining
  split
  · next bytes offset hpending =>
    obtain ⟨hne, hstarted', hrest⟩ := t.fill_reads hremaining (hstarted _ _ hpending)
    refine .bytes _ t.input _ hne rfl (fun _ hmem => hmem) hstarted' ?_
    rw [hpending]
    exact (congrArg (· ++ t.input.queue.flatten) hrest.symm).trans (append_assoc ..)
  · next hpending =>
    rw [Channel.recv]
    cases hqueue : t.input.queue with
    | nil =>
      cases hsender : t.input.sender with
      | true => exact .still _ (.inl rfl)
      | false => exact .eof hremaining hpending hqueue hsender
    | cons item rest =>
      have hitem : item ≠ [] := hitems item (by rw [hqueue]; exact mem_cons_self)
      obtain ⟨hne, hstarted', hrest⟩ :=
        fill_reads { t with input := { t.input with queue := rest } } hremaining
          (length_pos_of_ne_nil hitem)
      refine .bytes _ { t.input with queue := rest } _ hne rfl (fun _ hmem => ?_) hstarted' ?_
      · rw [hqueue]
        exact mem_cons_of_mem _ hmem
      · rw [hpending, hqueue, rest_none]
        exact (congrArg (· ++ rest.flatten) hrest.symm).trans (append_assoc ..)

end ChannelStream

namespace TcpBridge

variable {s s' : TcpBridge} {es : List Sight}

/-- A read takes from the front of the way to the session. -/
theorem simulates_read (h : s.Wf) (remaining : Nat) :
    Simulates s (readSight remaining (s.stream.pollRead remaining).1)
      { s with stream := (s.stream.pollRead remaining).2 } := by
  have hreads := s.stream.pollRead_reads remaining h.items h.started
  generalize s.stream.pollRead remaining = r at hreads ⊢
  obtain ⟨result, stream⟩ := r
  cases hreads with
  | still _ hresult =>
    have hsight : readSight remaining result = [] := by
      rcases hresult with rfl | ⟨rfl, rfl⟩ <;> rfl
    rw [hsight]
    exact .still rfl rfl h id
  | bytes bytes input pending hne hsender hitems hstarted hwaiting =>
    have hsight : readSight remaining (some bytes) = [.down (.take bytes)] := by
      cases bytes with
      | nil => exact absurd rfl hne
      | cons b bytes => rfl
    rw [hsight]
    refine ⟨fun _ => ?_, .idle _, ⟨?_, hstarted, ?_, h.eof, ?_⟩, id⟩
    · rw [down, ← append_assoc, hwaiting, append_assoc, append_assoc]
      exact .take ..
    · exact fun item hmem => h.items item (hitems item hmem)
    · exact fun hpumping => hsender.trans (h.reserved hpumping)
    · exact fun hcut => h.cut (hsender.symm.trans hcut)
  | eof hremaining hpending hqueue hsender =>
    have hsight : readSight remaining (some []) = [.down .close] :=
      if_neg (Nat.pos_iff_ne_zero.mp hremaining)
    rw [hsight]
    -- only here it matters that the flow lives: a retired flow cuts the channel as well
    refine ⟨fun halive => ?_, .idle _, h, id⟩
    obtain ⟨hfinished, hreceived⟩ := h.cut hsender halive
    rw [down, hpending, hqueue, hreceived, hfinished]
    exact .close

/-- A write puts bytes at the end of the way from it. -/
theorem simulates_write (h : s.Wf) (bytes : List Byte) :
    Simulates s (writeSight bytes (s.stream.pollWrite bytes).1)
      { s with stream := (s.stream.pollWrite bytes).2 } := by
  have hstill : Simulates s [] s := .still rfl rfl h id
  rw [ChannelStream.pollWrite]
  split
  · exact hstill
  next hsender =>
  have hsender : s.stream.output.sender = true := by simpa using hsender
  -- the pump has not seen the end of a channel that is written to
  have heof : s.eof = true → False := fun he => by cases hsender.symm.trans (h.eof he).1
  split
  · next hempty =>
    -- an empty write shows that nothing was written
    refine ⟨fun _ => .idle _, ?_, h, id⟩
    have hput := Pipe.Step.put (s.pending.rest ++ s.stream.output.queue.flatten) ([] : List Byte)
    rw [append_nil] at hput
    rw [up, hsender]
    exact hput
  split
  · exact hstill
  split
  · refine ⟨fun _ => .idle _, ?_, ⟨h.items, h.started, h.reserved, (fun he => ?_), h.cut⟩, id⟩
    · have hput := Pipe.Step.put (s.pending.rest ++ s.stream.output.queue.flatten)
        (bytes.take (min bytes.length chunk))
      have hqueue : s.pending.rest ++ s.stream.output.queue.flatten ++
          bytes.take (min bytes.length chunk) = s.pending.rest ++
            (s.stream.output.queue ++ [bytes.take (min bytes.length chunk)]).flatten := by
        rw [flatten_append, flatten_singleton, append_assoc]
      rw [hqueue] at hput
      show Pipe.Step ⟨_, !s.stream.output.sender⟩ _ ⟨_, !s.stream.output.sender⟩
      rw [hsender]
      exact hput
    · exact (heof he).elim
  · exact hstill

/-! ## Every step -/

/-- **Every step of the bridge is a step of both pipes.** -/
theorem step_simulates (h : s.Wf) {a : BridgeAction} (hstep : s.step a = some (s', es)) :
    Simulates s es s' := by
  cases a with
  | arrive bytes =>
    obtain ⟨henabled, ⟨⟩⟩ := ite_none_right_eq_some.mp hstep
    refine ⟨fun _ => ?_, .idle _, ⟨h.items, h.started, h.reserved, h.eof, ?_⟩, id⟩
    · have hput := Pipe.Step.put
        (s.stream.pending.rest ++ (s.stream.input.queue.flatten ++ s.socket.received)) bytes
      rw [append_assoc, append_assoc] at hput
      show Pipe.Step ⟨_, s.socket.finished⟩ _ ⟨_, s.socket.finished⟩
      rwa [henabled.2]
    · -- a peer that has finished sends nothing
      exact fun hcut halive => by cases henabled.2.symm.trans (h.cut hcut halive).1
  | finish =>
    obtain ⟨-, ⟨⟩⟩ := ite_none_right_eq_some.mp hstep
    exact ⟨fun _ => .finish _, .idle _, ⟨h.items, h.started, h.reserved, h.eof,
      fun hcut halive => ⟨rfl, (h.cut hcut halive).2⟩⟩, id⟩
  | wire state =>
    obtain ⟨-, ⟨⟩⟩ := ite_none_right_eq_some.mp hstep
    exact .still rfl rfl (h.wire state) id
  | join failed =>
    obtain ⟨-, ⟨⟩⟩ := ite_none_right_eq_some.mp hstep
    cases failed with
    | true => exact .still rfl rfl h.abort fun halive => by cases halive.1
    | false => exact .still rfl rfl h id
  | visit timeout =>
    obtain ⟨-, ⟨⟩⟩ := ite_none_right_eq_some.mp hstep
    cases timeout with
    | true => exact simulates_abort h
    | false => exact simulates_goto h
  | pump answers => exact simulates_pump h hstep
  | read remaining =>
    obtain ⟨-, ⟨⟩⟩ := ite_none_right_eq_some.mp hstep
    exact simulates_read h remaining
  | write bytes =>
    obtain ⟨-, ⟨⟩⟩ := ite_none_right_eq_some.mp hstep
    exact simulates_write h bytes
  | shutdown =>
    obtain ⟨-, ⟨⟩⟩ := ite_none_right_eq_some.mp hstep
    exact ⟨fun _ => .idle _, .finish _, ⟨h.items, h.started, h.reserved,
      fun he => ⟨rfl, (h.eof he).2⟩, h.cut⟩, id⟩
  | drop =>
    cases hstep
    exact ⟨fun _ => .idle _, .finish _, ⟨h.items, h.started, h.reserved,
      fun he => ⟨rfl, (h.eof he).2⟩, h.cut⟩, id⟩

/-- What holds of a run: both histories are those of their pipes. -/
structure Kept (s : TcpBridge) (log : List Sight) : Prop where
  wf : s.Wf
  down : s.Alive → Pipe.Explains (downs log) s.down
  up : Pipe.Explains (ups log) s.up

namespace Kept

/-- Nothing has been seen of a new bridge. -/
theorem new : Kept .new [] where
  wf := .new
  down _ := .nil false
  up := .nil false

variable {log : List Sight}

/-- A step extends both histories. -/
theorem step (h : Kept s log) (hs : Simulates s es s') : Kept s' (log ++ es) where
  wf := hs.wf
  down halive := by
    rw [downs_append]
    exact (h.down (hs.alive halive)).step (hs.down (hs.alive halive))
  up := by
    rw [ups_append]
    exact h.up.step hs.up

/-- Every run is explained, by induction on it. -/
theorem reached (h : bridgeSystem.Reaches Lts.anyStep (.new, []) (s, log)) : Kept s log := by
  refine h.invariant (I := fun p => Kept p.1 p.2) new fun {p q a} hp _ hstep => ?_
  obtain ⟨⟨s', es⟩, hs, heq⟩ := map_eq_some_iff.mp hstep
  cases heq
  exact hp.step (step_simulates hp.wf hs)

end Kept

end TcpBridge

/-- The bytes the socket has received. -/
def bytesReceived (log : List Sight) : List Byte := Pipe.given (downs log)

/-- The bytes the session has read. -/
def bytesRead (log : List Sight) : List Byte := Pipe.taken (downs log)

/-- The bytes the session has written. -/
def bytesWritten (log : List Sight) : List Byte := Pipe.given (ups log)

/-- The bytes the socket was handed. -/
def bytesHanded (log : List Sight) : List Byte := Pipe.taken (ups log)

/-- **The TCP bridge preserves both byte streams**, in every run of the pump, the session and
the stack that has not aborted or retired the flow. The session has read a beginning of what the
socket received, and has seen the end of the stream only if it has read all of it and the peer
has finished. The socket was handed a beginning of what the session wrote, and was closed only
if it was handed all of it and the session has given up its end. -/
theorem bridge_preserves_streams {s : TcpBridge} {log : List Sight}
    (hreach : bridgeSystem.Reaches Lts.anyStep (.new, []) (s, log))
    (haborted : s.aborted = false) (hretired : s.retired = false) :
    (bytesRead log <+: bytesReceived log ∧
      (.down .close ∈ log → bytesRead log = bytesReceived log ∧ s.socket.finished = true)) ∧
    (bytesHanded log <+: bytesWritten log ∧
      (.up .close ∈ log →
        bytesHanded log = bytesWritten log ∧ s.stream.output.sender = false)) := by
  have hkept := TcpBridge.Kept.reached hreach
  have hdown := hkept.down ⟨haborted, hretired⟩
  have hup := hkept.up
  refine ⟨⟨hdown.taken_le, fun hclose => ?_⟩, hup.taken_le, fun hclose => ?_⟩
  · rw [← mem_downs] at hclose
    exact ⟨hdown.taken_eq hclose, (hdown.closed hclose).1⟩
  · rw [← mem_ups] at hclose
    exact ⟨hup.taken_eq hclose, by simpa [TcpBridge.up] using (hup.closed hclose).1⟩

/-- Both directions with pieces and half-closes: three bytes come in two slices and are read in
three pieces, two bytes are taken one by one, and each side ends. -/
def halfClosedRun : List BridgeAction :=
  [.wire .established, .arrive [1, 2, 3], .visit false,
    .pump ⟨0, true, true, 0⟩, .pump ⟨2, true, true, 0⟩, .read 1,
    .pump ⟨0, true, true, 0⟩, .pump ⟨1, true, true, 0⟩, .pump ⟨0, true, true, 0⟩,
    .write [9, 8], .pump ⟨0, true, true, 0⟩, .pump ⟨0, true, true, 0⟩,
    .pump ⟨0, true, true, 1⟩, .pump ⟨0, true, true, 0⟩, .pump ⟨0, true, true, 1⟩,
    .shutdown, .pump ⟨0, true, true, 0⟩, .pump ⟨0, true, true, 0⟩,
    .pump ⟨0, true, true, 0⟩, .finish, .visit false,
    .pump ⟨0, false, false, 0⟩, .pump ⟨0, false, false, 0⟩,
    .pump ⟨0, false, false, 0⟩, .pump ⟨0, false, false, 0⟩,
    .read 5, .read 5, .read 5]

/-- Both ends are seen, with all the bytes before them. -/
theorem bridge_preserves_streams_halfClosed :
    ∃ s log, bridgeSystem.Reaches Lts.anyStep (.new, []) (s, log) ∧
      (s.aborted = false ∧ s.retired = false ∧ .down .close ∈ log ∧ .up .close ∈ log ∧
        bytesReceived log = [1, 2, 3] ∧ bytesWritten log = [9, 8]) ∧
      bytesRead log = bytesReceived log ∧ bytesHanded log = bytesWritten log := by
  obtain ⟨⟨s, log⟩, hreach, htest⟩ : ∃ p, bridgeSystem.Reaches Lts.anyStep (.new, []) p ∧
      decide (p.1.aborted = false ∧ p.1.retired = false ∧ .down .close ∈ p.2 ∧ .up .close ∈ p.2 ∧
        bytesReceived p.2 = [1, 2, 3] ∧ bytesWritten p.2 = [9, 8]) = true :=
    Lts.run_any _ halfClosedRun (by decide +kernel)
  have htest := of_decide_eq_true htest
  have h := bridge_preserves_streams hreach htest.1 htest.2.1
  exact ⟨s, log, hreach, htest, (h.1.2 htest.2.2.1).1, (h.2.2 htest.2.2.2.1).1⟩

end ClashMeta.Packet
