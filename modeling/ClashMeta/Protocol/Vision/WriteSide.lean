import ClashMeta.Protocol.Vision.ReadSide

/-!
# What a Vision writer sends, and the round trip

A writer is driven by any sequence of calls (`WriterCall`): writes of any bytes,
flushes, shutdowns, and reads, which flush too and feed the search for a
ServerHello. `Writes v accepted` ties what has been handed to the outer stream or
waits in the frame buffer to the bytes the writer has accepted, through the
reference decoder; every call keeps it.
-/

namespace ClashMeta.Vision

open List Reader

open Vless (ResponseStream stripResponse)

namespace VisionStream

/-- What the writing half of a stream depends on. -/
structure WriteSide where
  sink : Sink IoError Byte
  pending : List Byte
  written : Nat
  id : Uuid
  writeFirst : Bool
  writePlain : Bool

/-- The writing half of a stream. -/
def writeSide (v : VisionStream) : WriteSide :=
  ⟨v.sink, v.pending, v.written, v.id, v.writeFirst, v.writePlain⟩

/-! ## Reads leave the writing half alone -/

section

variable (v : VisionStream)
include v

/-- Only the sink of the outer stream belongs to the writing half. -/
theorem writeSide_inner {s : ResponseStream RecordStream}
    (h : s.inner.carried.sink = v.inner.inner.carried.sink) :
    writeSide { v with inner := s } = v.writeSide := by
  show WriteSide.mk s.inner.carried.sink _ _ _ _ _ = _
  rw [h]
  rfl

theorem writeSide_readInner (n : Nat) : (v.readInner n).2.writeSide = v.writeSide :=
  v.writeSide_inner (sink_pollRead v.inner n)

theorem writeSide_readOn (n : Nat) : (v.readOn n).2.writeSide = v.writeSide := by
  unfold readOn
  split
  · rfl
  · exact v.writeSide_readInner n

theorem writeSide_readContent (n : Nat) : (v.readContent n).2.writeSide = v.writeSide := by
  have h := v.writeSide_readInner (min n v.content)
  unfold readContent
  generalize v.readInner (min n v.content) = r at h ⊢
  obtain ⟨r, w⟩ := r
  match r with
  | .pending | .failed _ | .ready [] | .ready (_ :: _) => exact h

theorem writeSide_skipPadding : v.skipPadding.2.writeSide = v.writeSide :=
  v.writeSide_inner (sink_pull 2048 v.padding v.inner)

theorem writeSide_fillHeader : v.fillHeader.2.writeSide = v.writeSide :=
  v.writeSide_inner (sink_pull v.need (v.need - v.readHeader.length) v.inner)

end

section

variable {loop : VisionStream → Poll IoError (List Byte) × VisionStream}
  (hloop : ∀ w, (loop w).2.writeSide = w.writeSide) (v : VisionStream) (n : Nat)

include hloop

theorem writeSide_openFrame : (v.openFrame loop n).2.writeSide = v.writeSide := by
  unfold openFrame
  split
  · rfl
  · generalize v.readHeader.drop (if v.readFirst then 16 else 0) = header
    dsimp only
    split
    · rfl
    · exact hloop _

theorem writeSide_nextFrame : (v.nextFrame loop n).2.writeSide = v.writeSide := by
  unfold nextFrame
  split
  · exact writeSide_readOn _ n
  · split
    · exact writeSide_readOn _ n
    · have h := v.writeSide_fillHeader
      generalize v.fillHeader = r at h ⊢
      obtain ⟨r, w⟩ := r
      match r with
      | .pending | .failed _ => exact h
      | .ready false =>
        dsimp only
        split <;> exact h
      | .ready true => exact (writeSide_openFrame hloop w n).trans h

theorem writeSide_passPadding : (v.passPadding loop n).2.writeSide = v.writeSide := by
  have h := v.writeSide_skipPadding
  unfold passPadding
  generalize v.skipPadding = r at h ⊢
  obtain ⟨r, w⟩ := r
  match r with
  | .pending | .failed _ | .ready false => exact h
  | .ready true => exact (writeSide_nextFrame hloop w n).trans h

end

/-- The loop of a read leaves it alone. -/
theorem writeSide_pollLoop (frames : Nat) (v : VisionStream) (n : Nat) :
    (pollLoop frames v n).2.writeSide = v.writeSide := by
  induction frames generalizing v with
  | zero => rfl
  | succ frames ih =>
    rw [pollLoop]
    split
    · exact v.writeSide_readOn n
    · split
      · exact v.writeSide_readContent n
      · exact writeSide_passPadding ih v n

/-! ## What has been sent -/

/-- What the outer stream has taken, and what waits for it. -/
def sent (v : VisionStream) : List Byte := v.sink.accepted ++ v.pending.drop v.written

/-- How the bytes sent so far, under the UUID `id`, stand for the bytes accepted so far. -/
inductive Writes (id : Uuid) (v : VisionStream) (accepted : List Byte) : Prop where
  | fresh (hid : v.id = id) (hfirst : v.writeFirst = true) (hplain : v.writePlain = false)
      (hsent : v.sent = []) (haccepted : accepted = [])
  | framed (frames : List Byte) (hid : v.id = id) (hfirst : v.writeFirst = false)
      (hplain : v.writePlain = false) (hsent : v.sent = id.toList ++ frames) (hne : frames ≠ [])
      (hframes : ∀ rest, decodeFrames (frames ++ rest) = prepend accepted (decodeFrames rest))
  | plain (frames : List Byte) (hid : v.id = id) (hplain : v.writePlain = true)
      (hsent : v.sent = id.toList ++ frames) (hne : frames ≠ [])
      (hframes : ∀ rest, decodeFrames (frames ++ rest) = (accepted ++ rest, .eof))

variable {id : Uuid} {v : VisionStream} {accepted : List Byte}

theorem nextCommand_le (sniff : InnerTls) (bytes : List Byte) : nextCommand sniff bytes ≤ 2 := by
  unfold nextCommand
  split
  · split <;> decide
  · split <;> decide

theorem nextPadding_lt (sniff : InnerTls) (length draw : Nat) :
    nextPadding sniff length draw < 65536 := by
  unfold nextPadding
  split
  · omega
  · split <;> omega

theorem frame_ne_nil (command : Byte) (bytes : List Byte) (padding : Nat) :
    frame command bytes padding ≠ [] := cons_ne_nil _ _

/-- The decoder reads one more frame. -/
theorem decodeFrames_snoc {frames bytes : List Byte} {command : Byte} {padding : Nat}
    (hframes : ∀ rest, decodeFrames (frames ++ rest) = prepend accepted (decodeFrames rest))
    (hcommand : command ≤ 2) (hbytes : bytes.length < 65536) (hpadding : padding < 65536)
    (rest : List Byte) :
    decodeFrames (frames ++ frame command bytes padding ++ rest) =
      prepend (accepted ++ bytes) (behind command rest) := by
  rw [append_assoc, hframes, decodeFrames_frame hcommand hbytes hpadding]
  simp only [prepend, append_assoc]

/-- Nothing waits. -/
theorem sent_of_pending (h : v.pending = []) : v.sent = v.sink.accepted := by
  rw [sent, h, drop_nil, append_nil]

section

variable (h : Writes id v accepted)

include h

/-- The decoder reads what has been accepted. -/
theorem Writes.unpad_sent : unpad id v.sent = (accepted, .eof) := by
  cases h with
  | fresh _ _ _ hsent haccepted =>
    rw [hsent, haccepted]
    rfl
  | framed frames _ _ _ hsent hne hframes =>
    have hall := hframes []
    rw [append_nil, decodeFrames_nil] at hall
    rw [hsent, unpad_framed, if_neg hne, hall, prepend, append_nil]
  | plain frames _ _ hsent hne hframes =>
    have hall := hframes []
    rw [append_nil, append_nil] at hall
    rw [hsent, unpad_framed, if_neg hne, hall]

/-- It depends on the writing half only. -/
theorem Writes.congr {w : VisionStream} (hid : w.id = v.id) (hfirst : w.writeFirst = v.writeFirst)
    (hplain : w.writePlain = v.writePlain) (hsent : w.sent = v.sent) : Writes id w accepted := by
  cases h with
  | fresh h0 h1 h2 h3 h4 =>
    exact .fresh (hid.trans h0) (hfirst.trans h1) (hplain.trans h2) (hsent.trans h3) h4
  | framed frames h0 h1 h2 h3 h4 h5 =>
    exact .framed frames (hid.trans h0) (hfirst.trans h1) (hplain.trans h2) (hsent.trans h3) h4 h5
  | plain frames h0 h1 h2 h3 h4 =>
    exact .plain frames (hid.trans h0) (hplain.trans h1) (hsent.trans h2) h3 h4

theorem Writes.id_eq : v.id = id := by
  cases h <;> assumption

/-- A flush moves bytes to the outer stream. -/
theorem Writes.flushFrame : Writes id v.flushFrame.2 accepted ∧
      (v.flushFrame.1 = .ready () →
        v.flushFrame.2.pending = [] ∧ v.flushFrame.2.written = 0) := by
  have hflush := v.flushFrame_cases
  generalize v.flushFrame = f at hflush ⊢
  cases hflush with
  | stops r m sink hr hfine haccepted =>
    refine ⟨h.congr rfl rfl rfl ?_, fun hready => absurd hready hr⟩
    show sink.accepted ++ v.pending.drop (v.written + m) = v.sent
    rw [haccepted, append_assoc, ← drop_drop, take_append_drop]
    rfl
  | done sink hfine haccepted =>
    refine ⟨h.congr rfl rfl rfl ?_, fun _ => ⟨rfl, rfl⟩⟩
    show sink.accepted ++ [].drop 0 = v.sent
    rw [haccepted, drop_nil, append_nil]
    rfl

/-- A read flushes, and goes on without the writing half. -/
theorem Writes.pollRead (n : Nat) : Writes id (v.pollRead n).2 accepted := by
  unfold VisionStream.pollRead
  split
  · exact h
  · split
    · exact h
    · have hflushed := h.flushFrame.1
      generalize v.flushFrame = f at hflushed ⊢
      obtain ⟨r, w⟩ := f
      have hloop : Writes id (pollLoop 64 w n).2 accepted := by
        have hside := writeSide_pollLoop 64 w n
        simp only [writeSide, WriteSide.mk.injEq] at hside
        obtain ⟨hsink, hpending, hwritten, hid, hfirst, hplain⟩ := hside
        exact hflushed.congr hid hfirst hplain (by rw [sent, hsink, hpending, hwritten]; rfl)
      cases r with
      | pending | ready u => exact hloop
      | failed e => exact hflushed

/-- A write becomes a frame. -/
theorem Writes.writeFrame (hplain : v.writePlain = false) (hpending : v.pending = [])
    (hwritten : v.written = 0) (bytes : List Byte) :
    Writes id (v.writeFrame bytes).2 (accepted ++ bytes.take (8192 - 21)) := by
  unfold VisionStream.writeFrame
  dsimp only
  generalize hcut : bytes.take (8192 - 21) = cut
  have hlen : cut.length < 65536 := by
    rw [← hcut, length_take]
    omega
  generalize v.sniff.observe cut false = sniff
  have hcommand := nextCommand_le sniff cut
  generalize nextCommand sniff cut = command at hcommand ⊢
  have hpadding := nextPadding_lt sniff cut.length (v.draws v.drawn)
  generalize nextPadding sniff cut.length (v.draws v.drawn) = padding at hpadding ⊢
  -- the frames so far, and that the new one follows the UUID and them
  obtain ⟨frames, hsent, hframes⟩ : ∃ frames,
      v.sink.accepted ++ (if v.writeFirst then v.id.toList else []) = id.toList ++ frames ∧
      ∀ rest, decodeFrames (frames ++ rest) = prepend accepted (decodeFrames rest) := by
    have hnone := sent_of_pending hpending
    cases h with
    | fresh hid hfirst _ hs haccepted =>
      refine ⟨[], ?_, fun rest => by rw [haccepted]; rfl⟩
      rw [if_pos hfirst, ← hnone, hs, nil_append, append_nil, hid]
    | framed frames _ hfirst _ hs _ hframes =>
      refine ⟨frames, ?_, hframes⟩
      rw [if_neg (by simp [hfirst]), ← hnone, hs, append_nil]
    | plain _ _ hp _ _ _ => exact absurd (hp.symm.trans hplain) nofun
  have hall := decodeFrames_snoc hframes hcommand hlen hpadding
  have hne : frames ++ frame command cut padding ≠ [] :=
    append_ne_nil_of_right_ne_nil _ (frame_ne_nil _ _ _)
  have hnew : v.sink.accepted ++ (v.pending ++ (if v.writeFirst then v.id.toList else []) ++
      frame command cut padding).drop v.written =
        id.toList ++ (frames ++ frame command cut padding) := by
    rw [hpending, hwritten, drop_zero, nil_append, ← append_assoc, hsent, append_assoc]
  by_cases hzero : command = 0
  · refine .framed _ h.id_eq rfl ?_ hnew hne fun rest => ?_
    · simp [hplain, hzero]
    · rw [hall, behind, if_pos hzero]
  · refine .plain _ h.id_eq ?_ hnew hne fun rest => ?_
    · simp [hzero]
    · rw [hall, behind, if_neg hzero, prepend]

/-- Behind the last frame a write goes through. -/
theorem Writes.writePlain (hplain : v.writePlain) (hpending : v.pending = [])
    {sink : Sink IoError Byte} (bytes : List Byte)
    (haccepted : sink.accepted = v.sink.accepted ++ bytes) :
    Writes id (v.withSink sink) (accepted ++ bytes) := by
  cases h with
  | fresh _ _ hp _ _ | framed _ _ _ hp _ _ _ => exact absurd (hplain.symm.trans hp) nofun
  | plain frames hid _ hsent hne hframes =>
    refine .plain (frames ++ bytes) hid hplain ?_ (append_ne_nil_of_left_ne_nil hne _)
      fun rest => ?_
    · show sink.accepted ++ v.pending.drop v.written = id.toList ++ (frames ++ bytes)
      rw [haccepted, hpending, drop_nil, append_nil, ← sent_of_pending hpending, hsent,
        append_assoc]
    · rw [append_assoc, hframes, append_assoc]

/-- Behind a shutdown nothing waits. -/
theorem Writes.pollShutdown : Writes id v.pollShutdown.2 accepted ∧
      (v.pollShutdown.1 = .ready () → v.pollShutdown.2.sent = v.pollShutdown.2.sink.accepted) := by
  obtain ⟨hflushed, hempty⟩ := h.flushFrame
  unfold VisionStream.pollShutdown
  generalize v.flushFrame = f at hflushed hempty ⊢
  obtain ⟨r, w⟩ := f
  cases r with
  | pending | failed e => exact ⟨hflushed, nofun⟩
  | ready u =>
    refine ⟨hflushed.congr rfl rfl rfl ?_, fun _ => ?_⟩
    · show w.sink.shutdown.2.accepted ++ w.pending.drop w.written = w.sent
      rw [Sink.shutdown_accepted]
      rfl
    · have hpending : w.pending = [] := (hempty rfl).1
      show w.sink.shutdown.2.accepted ++ w.pending.drop w.written = w.sink.shutdown.2.accepted
      rw [hpending, drop_nil, append_nil]

/-! ## Runs of a writer -/

/-- A call on a writer. -/
inductive WriterCall where
  | write (bytes : List Byte)
  | flush
  | shutdown
  | read (n : Nat)
  deriving DecidableEq, Repr

/-- One call: the bytes it accepts, and the stream after it. -/
def call (v : VisionStream) : WriterCall → List Byte × VisionStream
  | .write bytes =>
    match v.pollWrite bytes with
    | (.ready n, w) => (bytes.take n, w)
    | (_, w) => ([], w)
  | .flush => ([], v.pollFlush.2)
  | .shutdown => ([], v.pollShutdown.2)
  | .read n => ([], (v.pollRead n).2)

/-- A sequence of calls. -/
def calls (v : VisionStream) : List WriterCall → List Byte × VisionStream
  | [] => ([], v)
  | c :: cs => ((v.call c).1 ++ ((v.call c).2.calls cs).1, ((v.call c).2.calls cs).2)

theorem Writes.write (bytes : List Byte) :
    Writes id (v.call (.write bytes)).2 (accepted ++ (v.call (.write bytes)).1) := by
  obtain ⟨hflushed, hempty⟩ := h.flushFrame
  unfold call VisionStream.pollWrite
  generalize v.flushFrame = f at hflushed hempty ⊢
  obtain ⟨r, w⟩ := f
  cases r with
  | pending | failed e => exact (append_nil accepted).symm ▸ hflushed
  | ready u =>
    obtain ⟨hpending, hwritten⟩ := hempty rfl
    dsimp only at hpending hwritten hflushed ⊢
    by_cases hplain : w.writePlain = true
    · rw [if_pos hplain]
      have hwrite := w.sink.write_cases bytes
      generalize w.sink.write bytes = f at hwrite ⊢
      obtain ⟨r, sink⟩ := f
      obtain ⟨n, rfl, -, -, haccepted⟩ | ⟨hnot, haccepted⟩ := hwrite
      · exact hflushed.writePlain hplain hpending _ haccepted
      · have hkept := hflushed.writePlain hplain hpending []
          (haccepted.trans (append_nil _).symm)
        cases r with
        | pending | failed e => exact hkept
        | ready n => exact absurd rfl (hnot n)
    · rw [if_neg hplain]
      by_cases hnil : bytes = []
      · rw [hnil]
        exact (append_nil accepted).symm ▸ hflushed
      · rw [if_neg hnil]
        have hframe := hflushed.writeFrame (by simpa using hplain) hpending hwritten bytes
        show Writes id (w.writeFrame bytes).2
          (accepted ++ bytes.take (bytes.take (8192 - 21)).length)
        rwa [length_take, ← take_eq_take_min]

/-- **Every call** keeps it. -/
theorem Writes.call (c : WriterCall) : Writes id (v.call c).2 (accepted ++ (v.call c).1) := by
  cases c with
  | write bytes => exact h.write bytes
  | flush => exact (append_nil accepted).symm ▸ h.flushFrame.1
  | read n => exact (append_nil accepted).symm ▸ h.pollRead n
  | shutdown => exact (append_nil accepted).symm ▸ h.pollShutdown.1

/-- So do all calls, by induction on them. -/
theorem Writes.calls (cs : List WriterCall) :
    Writes id (v.calls cs).2 (accepted ++ (v.calls cs).1) := by
  induction cs generalizing v accepted with
  | nil => exact (append_nil accepted).symm ▸ h
  | cons c cs ih =>
    have hrest := ih (h.call c)
    rwa [append_assoc] at hrest

end

theorem writes_framed (inner : RecordStream) (id : Uuid) (draws : Nat → Nat)
    (haccepted : inner.carried.sink.accepted = []) : Writes id (framed inner id draws) [] :=
  .fresh rfl rfl rfl (by rw [sent]; exact (append_nil _).trans haccepted) rfl

end VisionStream

/-! ## The round trip -/

/-- **Encoder and decoder agree.** Let a writer get any sequence of calls over any sink and
any inbound stream, and then shut down. A reader of what it sent, behind a response
header, delivers a beginning of the accepted bytes at any time; when it ends it has
delivered all of them and ends cleanly; and with enough room it ends. -/
theorem round_trip (id : Uuid) (inbound : Source IoError Byte) (plan : List (Room IoError))
    (draws : Nat → Nat) (cs : List VisionStream.WriterCall) (accepted : List Byte)
    (writer : VisionStream)
    (hrun : (VisionStream.framed ⟨⟨inbound, ⟨[], plan, false⟩⟩, false, false⟩ id draws).calls cs =
      (accepted, writer))
    (hshutdown : writer.pollShutdown.1 = .ready ()) (receiver : RecordStream)
    (draws' : Nat → Nat)
    (hcarried : stripResponse receiver.carried.source.bytes .eof =
      (writer.pollShutdown.2.sink.accepted, .eof))
    (htail : receiver.carried.source.tail = .eof) (hhealthy : receiver.carried.sink.Healthy)
    (sizes : List Nat) :
    (∃ rest, accepted =
        (readAll VisionStream.pollRead (.framed receiver id draws') sizes).1 ++ rest) ∧
      (∀ fin, (readAll VisionStream.pollRead (.framed receiver id draws') sizes).2 =
          some fin →
        fin = .eof ∧
          (readAll VisionStream.pollRead (.framed receiver id draws') sizes).1 =
            accepted) ∧
      (receiver.carried.source.size + 21 < sizes.countP (0 < ·) →
        readAll VisionStream.pollRead (.framed receiver id draws') sizes =
          (accepted, some .eof)) := by
  have hwrites := (VisionStream.writes_framed ⟨⟨inbound, ⟨[], plan, false⟩⟩, false, false⟩ id draws
    rfl).calls cs
  rw [hrun] at hwrites
  obtain ⟨hsent, hall⟩ := hwrites.pollShutdown
  -- what was sent unpads to what was accepted, and the reader delivers that
  have hdecodes := VisionStream.decodes_framed receiver id draws' hcarried htail hhealthy
  rw [← hall hshutdown, hsent.unpad_sent] at hdecodes
  obtain ⟨rest, k, hrest, -, -, hsome⟩ := VisionStream.reads.polls.run hdecodes sizes
  refine ⟨⟨rest, hrest⟩, fun fin hfin => ?_, fun hm => ?_⟩
  · obtain ⟨rfl, -, rfl⟩ := hsome fin hfin
    rw [append_nil] at hrest
    exact ⟨rfl, hrest.symm⟩
  · obtain ⟨hend, hout⟩ := VisionStream.reads.polls.readAll_ends hdecodes hm
    exact Prod.ext hout hend

/-- A writer on a sink that is slow at first, after three writes. -/
def slowWriter : List Byte × VisionStream :=
  (VisionStream.framed
    ⟨⟨⟨[.data 0 [], .pending], .silent⟩, ⟨[], [.room 3, .block, .room 0], false⟩⟩, false, false⟩
    (Vector.replicate 16 7) fun _ => 3).calls
    [.write [104, 105], .flush, .write [33], .read 4, .write [33]]

/-- The reader ends with all four bytes. -/
theorem round_trip_slowWriter :
    readAll VisionStream.pollRead
      (.framed (.parts [[0, 1], [9], slowWriter.2.pollShutdown.2.sink.accepted])
        (Vector.replicate 16 7) fun _ => 0)
      (List.replicate 120 3) = ([104, 105, 33, 33], some .eof) :=
  (round_trip (Vector.replicate 16 7) ⟨[.data 0 [], .pending], .silent⟩
    [.room 3, .block, .room 0] (fun _ => 3)
    [.write [104, 105], .flush, .write [33], .read 4, .write [33]] [104, 105, 33, 33]
    slowWriter.2 rfl (by decide)
    (.parts [[0, 1], [9], slowWriter.2.pollShutdown.2.sink.accepted]) (fun _ => 0) (by decide) rfl
    nofun (List.replicate 120 3)).2.2 (by decide +kernel)

end ClashMeta.Vision
