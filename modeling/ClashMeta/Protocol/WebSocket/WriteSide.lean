import ClashMeta.Lib.Lts
import ClashMeta.Protocol.WebSocket.Stream

/-!
# What a WebSocket stream sends

The buffer `outgoing` has two users: a write replaces it with the frame of its data, a read
appends a Pong for every Ping it parses. A `Message` is what the stream has taken on to
send, by either way; `frames` is the byte string these messages should become, each in a
frame of its own with its own key.
-/

namespace ClashMeta.WebSocket

open List Bool

/-- What the stream has taken on to send: the data of a write, or the answer to a Ping. -/
inductive Message where
  | binary (data : List Byte)
  | pong (data : List Byte)
  deriving DecidableEq, Repr

/-- The frame of a message. -/
def Message.frame (mask : Mask) : Message → List Byte
  | .binary data => WebSocket.frame mask data 2
  | .pong data => WebSocket.frame mask data 10

/-- The frames of messages, with the keys from number `k` on. -/
def frames (masks : Nat → Mask) : Nat → List Message → List Byte
  | _, [] => []
  | k, m :: ms => m.frame (masks k) ++ frames masks (k + 1) ms

/-- The keys go on where those of the messages before end. -/
theorem frames_append (masks : Nat → Mask) (k : Nat) (ms ms' : List Message) :
    frames masks k (ms ++ ms') = frames masks k ms ++ frames masks (k + ms.length) ms' := by
  induction ms generalizing k with
  | nil => rfl
  | cons m ms ih =>
    rw [cons_append, frames, frames, ih, append_assoc, length_cons, add_assoc, add_comm 1]

/-- The form in which a length is written. -/
def formOf (len : Nat) : LengthForm :=
  if len < 126 then .short else if len ≤ 0xffff then .medium else .long

theorem fin_bit_lt : 8 < 16 := by decide

/-- A length fits into its form. -/
theorem lt_limit_formOf (data : List Byte) (h : data.length < 2 ^ 63) :
    data.length < (formOf data.length).limit := by
  rw [formOf]
  split
  · assumption
  split
  · exact Nat.lt_succ_of_le (by assumption)
  · exact h

/-- A frame of the client, as its peer sees it. -/
def clientFrame (mask : Mask) (opcode : Opcode) (data : List Byte) (h : data.length < 2 ^ 63) :
    ServerFrame where
  high := ⟨8, fin_bit_lt⟩
  opcode := opcode
  form := formOf data.length
  mask := some mask
  payload := data
  fits := lt_limit_formOf data h

theorem or_eq_add (n : Fin 128) : (0x80 : Byte) ||| UInt8.ofNat n = UInt8.ofNat (128 + n) := by
  revert n
  decide

/-- The bytes of a frame are those of a complete, masked frame. -/
theorem frame_eq_encode (mask : Mask) (opcode : Opcode) (data : List Byte)
    (h : data.length < 2 ^ 63) :
    WebSocket.frame mask data (UInt8.ofNat opcode.code) =
      (clientFrame mask opcode data h).encode := by
  have hfirst : 0x80 ||| UInt8.ofNat opcode.code = (clientFrame mask opcode data h).first :=
    or_eq_add ⟨opcode.code, by cases opcode <;> decide⟩
  have hmedium : (0x80 : Byte) ||| 126 = UInt8.ofNat (128 + 126) := by decide
  have hlong : (0x80 : Byte) ||| 127 = UInt8.ofNat (128 + 127) := by decide
  have hsecond : (clientFrame mask opcode data h).second =
      UInt8.ofNat (128 + (formOf data.length).code data.length) := rfl
  have hextended : (clientFrame mask opcode data h).extended =
      (formOf data.length).extended data.length := rfl
  rw [ServerFrame.encode, ServerFrame.header, ← hfirst, hsecond, hextended, WebSocket.frame, formOf]
  split
  · rename_i hshort
    rw [or_eq_add ⟨data.length, by omega⟩]
    rfl
  split
  · rw [hmedium]
    rfl
  · rw [hlong]
    rfl

/-- A peer reads the data off a frame and goes on behind it. -/
theorem parseFrame_frame (mask : Mask) (opcode : Opcode) (data rest : List Byte)
    (h : data.length < 2 ^ 63) :
    parseFrame (WebSocket.frame mask data (UInt8.ofNat opcode.code) ++ rest) =
      .frame (UInt8.ofNat opcode.code) data rest := by
  rw [frame_eq_encode mask opcode data h]
  exact (clientFrame mask opcode data h).parseFrame_complete rest

/-- A part of a frame is not taken for one. -/
theorem parseFrame_part (mask : Mask) (opcode : Opcode) {data part : List Byte}
    (h : data.length < 2 ^ 63)
    (hpart : part <+: WebSocket.frame mask data (UInt8.ofNat opcode.code))
    (hne : part ≠ WebSocket.frame mask data (UInt8.ofNat opcode.code)) :
    parseFrame part = .incomplete := by
  have hlt := lt_of_le_of_ne hpart.length_le fun hlen => hne (hpart.eq_of_length hlen)
  rw [frame_eq_encode mask opcode data h] at hpart hlt
  exact (clientFrame mask opcode data h).parseFrame_incomplete
    (hpart.trans (prefix_append _ [])) hlt

/-- **The parser inverts the encoder**: of a buffer that starts with the frame of a write,
whatever follows it, exactly the frame is taken and its payload are the data of the write; of
a buffer with a part of the frame nothing is taken. The bound is that of the slice `frame` is
given: no allocation has more than `isize::MAX` bytes. -/
theorem parseFrame_inverts_frame (ws : WsStream) (mask : Mask) (data rest : List Byte)
    (hdata : data.length < 2 ^ 63) :
    WsStream.parseFrame { ws with incoming := WebSocket.frame mask data 2 ++ rest } =
        (.ok true, { ws with incoming := rest, payload := data, payloadAt := 0 }) ∧
      ∀ part, part <+: WebSocket.frame mask data 2 → part ≠ WebSocket.frame mask data 2 →
        WsStream.parseFrame { ws with incoming := part } =
          (.ok false, { ws with incoming := part }) := by
  constructor
  · have hframe : parseFrame (WebSocket.frame mask data 2 ++ rest) = .frame 2 data rest :=
      parseFrame_frame mask .binary data rest hdata
    unfold WsStream.parseFrame
    rw [hframe]
    rfl
  · intro part hpart hne
    unfold WsStream.parseFrame
    rw [parseFrame_part mask .binary hdata hpart hne]

/-- Data whose length takes eight bytes, with the start of a Ping behind the frame. -/
theorem parseFrame_inverts_frame_long :
    (List.replicate 70000 (7 : Byte)).length < 2 ^ 63 ∧
      WsStream.parseFrame { WsStream.new ⟨⟨[], .eof⟩, ⟨[], [], false⟩⟩ true none
            (fun _ => #v[1, 2, 3, 4]) with
          incoming := WebSocket.frame #v[1, 2, 3, 4] (List.replicate 70000 7) 2 ++ [0x89] } =
        (.ok true, { WsStream.new ⟨⟨[], .eof⟩, ⟨[], [], false⟩⟩ true none
            (fun _ => #v[1, 2, 3, 4]) with
          incoming := [0x89], payload := List.replicate 70000 7, payloadAt := 0 }) := by
  have hdata : (List.replicate 70000 (7 : Byte)).length < 2 ^ 63 := by
    rw [length_replicate]
    decide
  exact ⟨hdata, (parseFrame_inverts_frame _ _ _ _ hdata).1⟩

/-! ## The Pings a read parses -/

/-- The payload of a Ping that has been found. -/
def pingIn : Parsed → List (List Byte)
  | .frame opcode data _ => if opcode = 9 then [data] else []
  | _ => []

namespace WsStream

/-- The payloads of the Pings that the loop of `poll_read` parses. -/
def loopPings : Nat → WsStream → List (List Byte)
  | 0, _ => []
  | fuel + 1, ws =>
    if ws.closed then []
    else
      pingIn (WebSocket.parseFrame ws.incoming) ++
        match ws.parseFrame with
        | (.error _, _) => []
        | (.ok took, ws) =>
          if took ∧ ws.hasPayload then []
          else
            match ws.readInner 8192 with
            | (.ready (b :: bs), ws) =>
              loopPings fuel { ws with incoming := ws.incoming ++ b :: bs }
            | _ => []

/-- The payloads of the Pings that `poll_read` parses once the upgrade is done. -/
def upgradedPings (ws : WsStream) : List (List Byte) :=
  if ws.raw then []
  else if ws.hasPayload then []
  else loopPings (ws.inner.source.size + 1) ws

/-- The same with at most `fuel` inner reads for the upgrade response. -/
def upgradePings : Nat → WsStream → List (List Byte)
  | 0, _ => []
  | fuel + 1, ws =>
    if ws.upgraded then ws.upgradedPings
    else
      match ws.parseUpgrade with
      | .error _ => []
      | .ok (true, ws) => ws.upgradedPings
      | .ok (false, ws) =>
        match ws.readInner 2048 with
        | (.ready (b :: bs), ws) => upgradePings fuel { ws with incoming := ws.incoming ++ b :: bs }
        | _ => []

/-- The payloads of the Pings that one `poll_read` parses, in order. -/
def readPings (ws : WsStream) : List (List Byte) :=
  upgradePings (ws.inner.source.size + 1) ws

/-! ## The rule for reads -/

/-- An inner read, with what it brought behind the bytes that wait to be parsed. -/
def receive (ws : WsStream) (n : Nat) : WsStream :=
  match ws.readInner n with
  | (.ready bytes, ws) => { ws with incoming := ws.incoming ++ bytes }
  | (_, ws) => ws

/-- What the parts of a framed read keep, with the Pings parsed so far. -/
structure ReadRule (I : List (List Byte) → WsStream → Prop) : Prop where
  parse : ∀ {pings ws}, I pings ws → ws.closed = false →
    I (pings ++ pingIn (WebSocket.parseFrame ws.incoming)) ws.parseFrame.2
  receive : ∀ {pings ws}, I pings ws → I pings (ws.receive 8192)
  take : ∀ {pings ws} (n : Nat), I pings ws → I pings (ws.takePayload n).2

namespace ReadRule

variable {I : List (List Byte) → WsStream → Prop} {pings : List (List Byte)} {ws : WsStream}

/-- The loop keeps it, by induction on its inner reads. -/
theorem pollLoop (h : ReadRule I) (n fuel : Nat) (hI : I pings ws) :
    I (pings ++ loopPings fuel ws) (pollLoop fuel ws n).2 := by
  induction fuel generalizing pings ws with
  | zero =>
    rw [loopPings, append_nil]
    exact hI
  | succ fuel ih =>
    rw [loopPings, WsStream.pollLoop]
    by_cases hclosed : ws.closed = true
    · rw [if_pos hclosed, if_pos hclosed, append_nil]
      exact hI
    rw [if_neg hclosed, if_neg hclosed, ← append_assoc]
    have hparse := h.parse hI (eq_false_iff.mpr hclosed)
    generalize ws.parseFrame = found at hparse ⊢
    obtain ⟨found, w⟩ := found
    cases found with
    | error e =>
      rw [append_nil]
      exact hparse
    | ok took =>
      dsimp only at hparse ⊢
      -- a frame with a payload ends the loop, any other is paid for with a read
      by_cases hpayload : took = true ∧ w.hasPayload = true
      · rw [if_pos hpayload, if_pos hpayload, append_nil]
        exact h.take n hparse
      rw [if_neg hpayload, if_neg hpayload]
      have hreceive := h.receive hparse
      unfold WsStream.receive at hreceive
      generalize w.readInner 8192 = r at hreceive ⊢
      obtain ⟨r, w'⟩ := r
      cases r with
      | pending | failed e =>
        rw [append_nil]
        exact hreceive
      | ready bytes =>
        cases bytes with
        | nil =>
          dsimp only at hreceive
          rw [append_nil] at hreceive ⊢
          exact hreceive
        | cons b bs => exact ih hreceive

/-- A framed read keeps it. -/
theorem pollUpgraded (h : ReadRule I) (n : Nat) (hframed : ws.raw = false) (hI : I pings ws) :
    I (pings ++ ws.upgradedPings) (ws.pollUpgraded n).2 := by
  have hraw := eq_false_iff.mp hframed
  rw [upgradedPings, WsStream.pollUpgraded, if_neg hraw, if_neg hraw]
  by_cases hpayload : ws.hasPayload = true
  · rw [if_pos hpayload, if_pos hpayload, append_nil]
    exact h.take n hI
  · rw [if_neg hpayload, if_neg hpayload]
    exact h.pollLoop n _ hI

end ReadRule

/-! ## Calls -/

/-- A call of the stream's owner. -/
inductive Call where
  | write (bytes : List Byte)
  | flush
  | shutdown
  | read (n : Nat)

/-- The stream after a call. -/
def call (ws : WsStream) : Call → WsStream
  | .write bytes => (ws.pollWrite bytes).2
  | .flush => ws.pollFlush.2
  | .shutdown => ws.pollShutdown.2
  | .read n => (ws.pollRead n).2

/-- The message of a write that has been answered. -/
def accepted (bytes : List Byte) : Poll IoError Nat → List Message
  | .ready n => [.binary (bytes.take n)]
  | _ => []

/-- The messages that a call takes on. -/
def takesOn (ws : WsStream) : Call → List Message
  | .write bytes => accepted bytes (ws.pollWrite bytes).1
  | .flush => []
  | .shutdown => []
  | .read _ => ws.readPings.map .pong

end WsStream

open WsStream

/-- A stream under its owner's calls, with the messages taken on so far. -/
def writerSystem (ws : WsStream) : Lts (WsStream × List Message) WsStream.Call :=
  Lts.recorded ⟨ws, fun s a => some (s.call a)⟩ WsStream.takesOn

/-! ## What is sent and what waits -/

namespace WsStream

/-- What the inner stream has taken, and what waits for it. -/
def sent (ws : WsStream) : List Byte :=
  ws.inner.sink.accepted ++ ws.outgoing.drop ws.outgoingAt

/-- The cursor stands inside the buffer. -/
def InBuffer (ws : WsStream) : Prop := ws.outgoingAt ≤ ws.outgoing.length

/-- What the writing half of a stream depends on. -/
structure WriteSide where
  sink : Sink IoError Byte
  outgoing : List Byte
  outgoingAt : Nat
  masks : Nat → Mask
  drawn : Nat
  raw : Bool

/-- The writing half of a stream. -/
def writeSide (ws : WsStream) : WriteSide :=
  ⟨ws.inner.sink, ws.outgoing, ws.outgoingAt, ws.masks, ws.drawn, ws.raw⟩

end WsStream

/-- From `ws` to `ws'` the messages `ms` have been taken on: their frames have been sent, or
wait behind what waited before. -/
structure Adds (ws : WsStream) (ms : List Message) (ws' : WsStream) : Prop where
  sent : ws'.sent = ws.sent ++ frames ws.masks ws.drawn ms
  grows : ws.inner.sink.accepted <+: ws'.inner.sink.accepted
  inBuffer : ws'.InBuffer
  masks : ws'.masks = ws.masks
  drawn : ws'.drawn = ws.drawn + ms.length
  raw : ws'.raw = ws.raw

namespace Adds

variable {ws ws' ws'' : WsStream} {ms ms' : List Message}

/-- A stream with the same writing half has taken on nothing. -/
theorem of_writeSide (hin : ws.InBuffer) (h : ws'.writeSide = ws.writeSide) : Adds ws [] ws' := by
  simp only [writeSide, WriteSide.mk.injEq] at h
  obtain ⟨hsink, hout, hat, hmasks, hdrawn, hraw⟩ := h
  refine ⟨?_, by rw [hsink], ?_, hmasks, hdrawn, hraw⟩
  · rw [WsStream.sent, WsStream.sent, hsink, hout, hat, frames, append_nil]
  · rw [WsStream.InBuffer, hout, hat]
    exact hin

theorem trans (h : Adds ws ms ws') (h' : Adds ws' ms' ws'') : Adds ws (ms ++ ms') ws'' where
  sent := by
    rw [h'.sent, h.sent, h.masks, h.drawn, frames_append, append_assoc]
  grows := h.grows.trans h'.grows
  inBuffer := h'.inBuffer
  masks := h'.masks.trans h.masks
  drawn := by rw [h'.drawn, h.drawn, length_append, add_assoc]
  raw := h'.raw.trans h.raw

theorem append_nil (h : Adds ws ms ws') (h' : Adds ws' [] ws'') : Adds ws ms ws'' := by
  have htrans := h.trans h'
  rwa [List.append_nil] at htrans

end Adds

variable {ws : WsStream}

/-! ## Reads -/

/-- Parsing a Ping takes its Pong on. -/
theorem adds_pong (hin : ws.InBuffer) (data rest : List Byte) :
    Adds ws [.pong data] { ws with
      incoming := rest
      outgoing := ws.outgoing ++ WebSocket.frame (ws.masks ws.drawn) data 10
      drawn := ws.drawn + 1 } where
  sent := by
    show ws.inner.sink.accepted ++ (ws.outgoing ++ _).drop ws.outgoingAt = _
    rw [drop_append_of_le_length hin, ← append_assoc, frames, frames, append_nil]
    rfl
  grows := prefix_rfl
  inBuffer := by
    show ws.outgoingAt ≤ (ws.outgoing ++ _).length
    rw [length_append]
    exact Nat.le_add_right_of_le hin
  masks := rfl
  drawn := rfl
  raw := rfl

/-- Parsing a frame takes the Pong of a Ping on, and nothing else. -/
theorem adds_parseFrame (hin : ws.InBuffer) :
    Adds ws ((pingIn (WebSocket.parseFrame ws.incoming)).map .pong) ws.parseFrame.2 := by
  rw [WsStream.parseFrame]
  cases WebSocket.parseFrame ws.incoming with
  | incomplete | oversized | panicked => exact .of_writeSide hin rfl
  | frame opcode data rest =>
    by_cases hping : opcode = 9
    · subst hping
      exact adds_pong hin data rest
    · simp only [pingIn, hping, if_false, map_nil]
      repeat' split
      all_goals exact .of_writeSide hin rfl

theorem writeSide_readInner (ws : WsStream) (n : Nat) :
    (ws.readInner n).2.writeSide = ws.writeSide := rfl

theorem writeSide_takePayload (ws : WsStream) (n : Nat) :
    (ws.takePayload n).2.writeSide = ws.writeSide := rfl

theorem writeSide_receive (ws : WsStream) (n : Nat) : (ws.receive n).writeSide = ws.writeSide := by
  have hread := writeSide_readInner ws n
  unfold WsStream.receive
  generalize ws.readInner n = r at hread ⊢
  obtain ⟨r, w⟩ := r
  cases r <;> exact hread

/-- Adding the Pongs is kept by the parts of a read. -/
theorem readRule_adds (ws : WsStream) : ReadRule fun pings w => Adds ws (pings.map .pong) w where
  parse h _ := by
    rw [map_append]
    exact h.trans (adds_parseFrame h.inBuffer)
  receive h := h.append_nil (.of_writeSide h.inBuffer (writeSide_receive _ _))
  take n h := h.append_nil (.of_writeSide h.inBuffer (writeSide_takePayload _ n))

theorem adds_pollUpgraded (n : Nat) (hin : ws.InBuffer) :
    Adds ws (ws.upgradedPings.map .pong) (ws.pollUpgraded n).2 := by
  cases hraw : ws.raw with
  | false =>
    have hstart : Adds ws (([] : List (List Byte)).map .pong) ws := .of_writeSide hin rfl
    exact (readRule_adds ws).pollUpgraded n hraw hstart
  | true =>
    rw [upgradedPings, pollUpgraded, if_pos hraw, if_pos hraw]
    split
    · exact .of_writeSide hin rfl
    · have hread : Adds ws [] (ws.readInner n).2 :=
        .of_writeSide hin (writeSide_readInner ws n)
      generalize ws.readInner n = r at hread ⊢
      obtain ⟨r, w⟩ := r
      cases r <;> exact hread

/-- The upgrade response does not reach the writing half. -/
theorem writeSide_parseUpgrade {found : Bool} {w : WsStream}
    (h : ws.parseUpgrade = .ok (found, w)) : w.writeSide = ws.writeSide := by
  rw [parseUpgrade] at h
  split at h
  · cases h
    rfl
  split at h
  · cases h
  dsimp only at h
  split at h
  · cases h
  split at h
  · cases h
  · cases h
    rfl

theorem adds_pollUpgrade (n fuel : Nat) (hin : ws.InBuffer) :
    Adds ws ((upgradePings fuel ws).map .pong) (pollUpgrade fuel ws n).2 := by
  induction fuel generalizing ws with
  | zero => exact .of_writeSide hin rfl
  | succ fuel ih =>
    rw [upgradePings, pollUpgrade]
    by_cases hup : ws.upgraded = true
    · rw [if_pos hup, if_pos hup]
      exact adds_pollUpgraded n hin
    rw [if_neg hup, if_neg hup]
    cases hparse : ws.parseUpgrade with
    | error message => exact .of_writeSide hin rfl
    | ok r =>
      obtain ⟨found, w⟩ := r
      have hw : Adds ws [] w := .of_writeSide hin (writeSide_parseUpgrade hparse)
      cases found with
      | true => exact hw.trans (adds_pollUpgraded n hw.inBuffer)
      | false =>
        have hread : Adds ws [] (w.readInner 2048).2 :=
          hw.append_nil (.of_writeSide hw.inBuffer (writeSide_readInner w 2048))
        dsimp only
        generalize w.readInner 2048 = r at hread ⊢
        obtain ⟨r, w'⟩ := r
        cases r with
        | pending | failed e => exact hread
        | ready bytes =>
          cases bytes with
          | nil => exact hread
          | cons b bs =>
            have hmore : Adds ws [] { w' with incoming := w'.incoming ++ b :: bs } :=
              hread.append_nil (.of_writeSide hread.inBuffer rfl)
            exact hmore.trans (ih hmore.inBuffer)

/-- A read takes on the Pongs of the Pings it parses. -/
theorem adds_pollRead (n : Nat) (hin : ws.InBuffer) :
    Adds ws (ws.readPings.map .pong) (ws.pollRead n).2 :=
  adds_pollUpgrade n _ hin

/-! ## Writes -/

/-- Flushing moves bytes from the buffer to the inner stream; when it is done the buffer is
empty. -/
theorem adds_flushOutgoing (hin : ws.InBuffer) :
    Adds ws [] ws.flushOutgoing.2 ∧
      (ws.flushOutgoing.1 = .ready () →
        ws.flushOutgoing.2.outgoing = [] ∧ ws.flushOutgoing.2.outgoingAt = 0) := by
  have hwrite := Sink.writeAll_accepted .writeZero (ws.outgoing.drop ws.outgoingAt).length
    ws.inner.sink (ws.outgoing.drop ws.outgoingAt)
  rw [flushOutgoing]
  generalize Sink.writeAll .writeZero (ws.outgoing.drop ws.outgoingAt).length ws.inner.sink
    (ws.outgoing.drop ws.outgoingAt) = w at hwrite ⊢
  obtain ⟨r, m, sink⟩ := w
  obtain ⟨haccepted, hle, hall⟩ := hwrite
  dsimp only at haccepted hle hall
  rw [length_drop] at hle hall
  have hcursor : ws.outgoingAt ≤ ws.outgoing.length := hin
  have hrest : Adds ws [] { ws with
      inner := { ws.inner with sink := sink }
      outgoingAt := ws.outgoingAt + m } := by
    refine ⟨?_, ⟨_, haccepted.symm⟩, ?_, rfl, rfl, rfl⟩
    · show sink.accepted ++ ws.outgoing.drop (ws.outgoingAt + m) = _
      rw [haccepted, append_assoc, ← drop_drop, take_append_drop, frames, append_nil]
      rfl
    · show ws.outgoingAt + m ≤ ws.outgoing.length
      omega
  cases r with
  | pending | failed e => exact ⟨hrest, fun h => by cases h⟩
  | ready u =>
    -- all has been taken, so that the buffer is emptied
    refine ⟨⟨?_, ?_, Nat.le_refl 0, rfl, rfl, rfl⟩, fun _ => ⟨rfl, rfl⟩⟩
    rotate_left
    · show _ <+: sink.flush.2.accepted
      rw [Sink.flush_accepted]
      exact hrest.grows
    have hend : ws.outgoingAt + m = ws.outgoing.length := by
      have hm := hall rfl
      omega
    have hsent := hrest.sent
    rw [WsStream.sent] at hsent
    rw [hend, drop_length, append_nil] at hsent
    show sink.flush.2.accepted ++ [] = _
    rw [Sink.flush_accepted, append_nil, hsent]

/-- A write takes on the data it answers for. -/
theorem adds_pollWrite (bytes : List Byte) (hin : ws.InBuffer) (hraw : ws.raw = false) :
    Adds ws (accepted bytes (ws.pollWrite bytes).1) (ws.pollWrite bytes).2 := by
  obtain ⟨hflush, hempty⟩ := adds_flushOutgoing hin
  rw [pollWrite]
  generalize ws.flushOutgoing = r at hflush hempty ⊢
  obtain ⟨r, w⟩ := r
  cases r with
  | pending | failed e => exact hflush
  | ready u =>
    obtain ⟨hout, hat⟩ := hempty rfl
    have hw : w.raw = false := hflush.raw.trans hraw
    dsimp only at hout hat ⊢
    rw [if_neg (eq_false_iff.mp hw)]
    have hmessage : Adds w [.binary (bytes.take (min bytes.length (16 * 1024)))] { w with
        outgoing := WebSocket.frame (w.masks w.drawn)
          (bytes.take (min bytes.length (16 * 1024))) 2
        drawn := w.drawn + 1 } := by
      refine ⟨?_, prefix_rfl, ?_, rfl, rfl, rfl⟩
      · show w.inner.sink.accepted ++ (WebSocket.frame _ _ 2).drop w.outgoingAt = _
        rw [hat, WsStream.sent, hout, frames, frames, append_nil, drop_nil, append_nil]
        rfl
      · show w.outgoingAt ≤ _
        rw [hat]
        exact Nat.zero_le _
    exact hflush.trans hmessage

/-- A shutdown takes on nothing. -/
theorem adds_pollShutdown (hin : ws.InBuffer) : Adds ws [] ws.pollShutdown.2 := by
  obtain ⟨hflush, -⟩ := adds_flushOutgoing hin
  rw [pollShutdown]
  generalize ws.flushOutgoing = r at hflush ⊢
  obtain ⟨r, w⟩ := r
  cases r with
  | pending | failed e => exact hflush
  | ready u =>
    refine hflush.append_nil ⟨?_, ?_, hflush.inBuffer, rfl, rfl, rfl⟩
    · show w.inner.sink.shutdown.2.accepted ++ w.outgoing.drop w.outgoingAt = _
      rw [Sink.shutdown_accepted, frames, append_nil]
      rfl
    · show _ <+: w.inner.sink.shutdown.2.accepted
      rw [Sink.shutdown_accepted]

/-! ## Runs -/

/-- **One call**: the messages it takes on are sent or wait, in order, after the others. -/
theorem adds_call (hin : ws.InBuffer) (hraw : ws.raw = false) (c : WsStream.Call) :
    Adds ws (ws.takesOn c) (ws.call c) := by
  cases c with
  | write bytes => exact adds_pollWrite bytes hin hraw
  | flush => exact (adds_flushOutgoing hin).1
  | shutdown => exact adds_pollShutdown hin
  | read n => exact adds_pollRead n hin

/-- **Writes stay framed**: after any calls on a framed stream with nothing to send, what the
inner stream has received is a prefix of the frames of the messages taken on, one for each
accepted write and each Ping parsed, in that order; the rest of the frames waits. -/
theorem writes_stay_framed {ws t : WsStream} {log : List Message} (hraw : ws.raw = false)
    (hout : ws.outgoing = []) (hat : ws.outgoingAt = 0)
    (h : (writerSystem ws).Reaches Lts.anyStep (ws, []) (t, log)) :
    ∃ written, t.inner.sink.accepted = ws.inner.sink.accepted ++ written ∧
      written <+: frames ws.masks ws.drawn log ∧
      written ++ t.outgoing.drop t.outgoingAt = frames ws.masks ws.drawn log := by
  have hadds : Adds ws log t := by
    refine h.invariant (I := fun p => Adds ws p.2 p.1) ?_ ?_
    · refine .of_writeSide ?_ rfl
      rw [InBuffer, hat]
      exact Nat.zero_le _
    · intro p q c hp _ hstep
      obtain ⟨hcall, hlog⟩ := Lts.recorded_step_iff.mp hstep
      rw [hlog, ← Option.some.inj hcall]
      exact hp.trans (adds_call hp.inBuffer (hp.raw.trans hraw) c)
  obtain ⟨written, hwritten⟩ := hadds.grows
  have hsent := hadds.sent
  rw [WsStream.sent, WsStream.sent, hout, drop_nil, append_nil, ← hwritten, append_assoc] at hsent
  have hall := append_cancel_left hsent
  exact ⟨written, hwritten.symm, ⟨_, hall⟩, hall⟩

/-- An upgraded stream whose peer sends a Ping, and whose inner stream takes three bytes and
is then busy. -/
def pingedStream : WsStream :=
  { WsStream.new ⟨⟨[.data 0x89 [1, 7]], .silent⟩, ⟨[], [.room 0, .room 2, .block], false⟩⟩
      false none (fun k => Vector.replicate 4 (UInt8.ofNat k)) with
    upgraded := true }

/-- The Pong of a Ping that is parsed in the middle of a frame goes behind that frame. -/
theorem writes_stay_framed_pinged :
    ∃ t log written,
      (writerSystem pingedStream).Reaches Lts.anyStep (pingedStream, []) (t, log) ∧
      log = [.binary [1, 2], .pong [7]] ∧ written.length = 3 ∧
      t.inner.sink.accepted = written ∧
      written <+: frames pingedStream.masks 0 [.binary [1, 2], .pong [7]] := by
  obtain ⟨⟨t, log⟩, hreach, htest⟩ := Lts.run_any (M := writerSystem pingedStream)
    (s := (pingedStream, []))
    (fun p => p.2 == [.binary [1, 2], .pong [7]] && p.1.inner.sink.accepted.length == 3)
    [.write [1, 2], .flush, .read 10]
    (show (Lts.run _ Lts.anyStep _ _).any _ = true by decide +kernel)
  rw [and_eq_true, beq_iff_eq, beq_iff_eq] at htest
  obtain ⟨hlog, hlength⟩ := htest
  obtain ⟨written, hwritten, hprefix, -⟩ := writes_stay_framed rfl rfl rfl hreach
  have heq : t.inner.sink.accepted = written := hwritten
  exact ⟨t, log, written, hreach, hlog, heq ▸ hlength, heq, hlog ▸ hprefix⟩

end ClashMeta.WebSocket
