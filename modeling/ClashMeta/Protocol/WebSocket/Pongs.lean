import ClashMeta.Protocol.WebSocket.Parsing
import ClashMeta.Protocol.WebSocket.ReadSide
import ClashMeta.Protocol.WebSocket.WriteSide

/-!
# When a Pong is written

`poll_read` puts a Pong into the write buffer and never flushes it: reads leave the inner
stream's writing end alone (`readRule_idle`). An owner that only reads therefore never
answers a Ping.
-/

namespace ClashMeta.WebSocket

open List

/-! ## The Pings of a byte string -/

variable {bytes data rest : List Byte}

theorem take_drop_append (more : List Byte) {i k : Nat} (h : i + k ≤ bytes.length) :
    ((bytes ++ more).drop i).take k = (bytes.drop i).take k := by
  rw [drop_append_of_le_length (by omega), take_append_of_le_length]
  rw [length_drop]
  omega

theorem lengthField_append (more : List Byte) {field : Nat × Nat} (h2 : 2 ≤ bytes.length)
    (h : lengthField bytes = some field) : lengthField (bytes ++ more) = some field := by
  have hsecond : (bytes ++ more).getD 1 0 = bytes.getD 1 0 := getD_append _ _ _ _ h2
  unfold lengthField at h ⊢
  rw [hsecond]
  dsimp only at h ⊢
  split at h
  · rename_i hmedium
    rw [if_pos hmedium]
    split at h
    · cases h
    · rename_i hlen
      rw [if_neg (by rw [length_append]; omega), take_drop_append more (by omega)]
      exact h
  · rename_i hmedium
    rw [if_neg hmedium]
    split at h
    · rename_i hlong
      rw [if_pos hlong]
      split at h
      · cases h
      · rename_i hlen
        rw [if_neg (by rw [length_append]; omega), take_drop_append more (by omega)]
        exact h
    · rename_i hlong
      rw [if_neg hlong]
      exact h

variable {opcode : Byte}

theorem parseFrame_append (more : List Byte) (h : parseFrame bytes = .frame opcode data rest) :
    parseFrame (bytes ++ more) = .frame opcode data (rest ++ more) := by
  have hlonger : bytes.length ≤ (bytes ++ more).length := by
    rw [length_append]
    omega
  unfold parseFrame at h ⊢
  split at h
  · cases h
  have hfirst : (bytes ++ more).getD 0 0 = bytes.getD 0 0 := getD_append _ _ _ _ (by omega)
  have hsecond : (bytes ++ more).getD 1 0 = bytes.getD 1 0 := getD_append _ _ _ _ (by omega)
  rw [if_neg (by omega), hfirst, hsecond]
  cases hfield : lengthField bytes with
  | none =>
    rw [hfield] at h
    cases h
  | some field =>
    obtain ⟨len, start⟩ := field
    rw [lengthField_append more (by omega) hfield]
    rw [hfield] at h
    dsimp only at h ⊢
    split at h
    · cases h
    rename_i hsize
    rw [if_neg hsize]
    split at h
    · cases h
    rename_i hmask
    rw [if_neg fun hc => hmask ⟨hc.1, by omega⟩]
    -- where the payload starts, with or without a key
    generalize hstart : (if (bytes.getD 1 0 &&& 0x80 != 0) = true then start + 4 else start) = i
      at h ⊢
    split at h
    · cases h
    rename_i hover
    rw [if_neg hover]
    split at h
    · cases h
    have hkey : (if (bytes.getD 1 0 &&& 0x80 != 0) = true then
          ((bytes ++ more).drop start).take 4 else []) =
        if (bytes.getD 1 0 &&& 0x80 != 0) = true then (bytes.drop start).take 4 else [] := by
      split
      · rename_i hmasked
        rw [if_pos hmasked] at hstart
        exact take_drop_append more (by omega)
      · rfl
    rw [if_neg (by omega), hkey, take_drop_append more (by omega),
      drop_append_of_le_length (by omega)]
    cases h
    rfl

/-- A Ping stands among the frames of a byte string, before a Close. A frame that is refused
is skipped: the next read goes on behind it. -/
inductive HoldsPing : List Byte → Prop
  | here {bytes data rest : List Byte} (h : parseFrame bytes = .frame 9 data rest) :
      HoldsPing bytes
  | later {bytes data rest : List Byte} {opcode : Byte}
      (h : parseFrame bytes = .frame opcode data rest) (hopen : opcode ≠ 8)
      (hrest : HoldsPing rest) : HoldsPing bytes

open WsStream

/-! ## Reads leave the writing end alone -/

theorem parseFrame_keeps (ws : WsStream) :
    ws.parseFrame.2.inner = ws.inner ∧ ws.parseFrame.2.upgraded = ws.upgraded ∧
      ws.parseFrame.2.raw = ws.raw := by
  rw [WsStream.parseFrame]
  cases WebSocket.parseFrame ws.incoming with
  | incomplete | oversized | panicked => exact ⟨rfl, rfl, rfl⟩
  | frame opcode data rest =>
    dsimp only
    split
    · exact ⟨rfl, rfl, rfl⟩
    split
    · exact ⟨rfl, rfl, rfl⟩
    split
    · exact ⟨rfl, rfl, rfl⟩
    split
    · exact ⟨rfl, rfl, rfl⟩
    · exact ⟨rfl, rfl, rfl⟩

theorem receive_keeps (ws : WsStream) :
    (ws.receive 8192).incoming ++ (ws.receive 8192).inner.source.bytes =
        ws.incoming ++ ws.inner.source.bytes ∧
      (ws.receive 8192).inner.sink = ws.inner.sink ∧
      (ws.receive 8192).upgraded = ws.upgraded ∧ (ws.receive 8192).raw = ws.raw ∧
      (ws.receive 8192).closed = ws.closed := by
  have hpoll := ws.inner.source.poll_step (show 0 < 8192 by decide)
  unfold WsStream.receive readInner
  generalize ws.inner.source.poll 8192 = r at hpoll ⊢
  obtain ⟨r, source⟩ := r
  cases hpoll with
  | pending es hevents =>
    refine ⟨?_, rfl, rfl, rfl, rfl⟩
    show ws.incoming ++ es.flatMap _ = _
    rw [Source.bytes, hevents]
    rfl
  | silent hevents htail | broken e hevents htail => exact ⟨rfl, rfl, rfl, rfl, rfl⟩
  | eof hevents htail =>
    refine ⟨?_, rfl, rfl, rfl, rfl⟩
    dsimp only
    rw [append_nil]
  | data c source hne hle hbytes htail hsize =>
    refine ⟨?_, rfl, rfl, rfl, rfl⟩
    rw [hbytes, append_assoc]

/-- An upgraded, framed stream that has this writing end. -/
structure Idle (sink : Sink IoError Byte) (ws : WsStream) : Prop where
  upgraded : ws.upgraded = true
  framed : ws.raw = false
  sink : ws.inner.sink = sink

/-- **Reads write nothing**: no part of a framed read touches the writing end. -/
theorem readRule_idle (sink : Sink IoError Byte) : ReadRule fun _ w => Idle sink w where
  parse {_ w} h _ := by
    obtain ⟨hinner, hupgraded, hraw⟩ := parseFrame_keeps w
    exact ⟨hupgraded.trans h.upgraded, hraw.trans h.framed, by rw [hinner, h.sink]⟩
  receive {_ w} h := by
    obtain ⟨-, hsink, hupgraded, hraw, -⟩ := receive_keeps w
    exact ⟨hupgraded.trans h.upgraded, hraw.trans h.framed, hsink.trans h.sink⟩
  take _ h := ⟨h.upgraded, h.framed, h.sink⟩

/-! ## A server without Pings -/

/-- The stream is upgraded and framed, and has seen a Close or will see no Ping. -/
structure Quiet (ws : WsStream) : Prop where
  upgraded : ws.upgraded = true
  framed : ws.raw = false
  silent : ws.closed = true ∨ ¬ HoldsPing (ws.incoming ++ ws.inner.source.bytes)

variable {ws : WsStream}

theorem parseFrame_takes (h : WebSocket.parseFrame ws.incoming = .frame opcode data rest) :
    ws.parseFrame.2.incoming = rest ∧
      (opcode = 8 → ws.parseFrame.2.closed = true) ∧
      (opcode ≠ 8 → ws.parseFrame.2.closed = ws.closed) := by
  rw [WsStream.parseFrame, h]
  dsimp only
  split
  · rename_i hdata
    refine ⟨rfl, fun hclose => ?_, fun _ => rfl⟩
    rw [hclose] at hdata
    exact absurd hdata (by decide)
  split
  · exact ⟨rfl, fun _ => rfl, fun hopen => absurd ‹_› hopen⟩
  · rename_i hopen
    split
    · exact ⟨rfl, fun hclose => absurd hclose hopen, fun _ => rfl⟩
    split
    · exact ⟨rfl, fun hclose => absurd hclose hopen, fun _ => rfl⟩
    · exact ⟨rfl, fun hclose => absurd hclose hopen, fun _ => rfl⟩

theorem quiet_parseFrame (h : Quiet ws) (hopen : ws.closed = false) :
    pingIn (WebSocket.parseFrame ws.incoming) = [] ∧ Quiet ws.parseFrame.2 := by
  have hno : ¬ HoldsPing (ws.incoming ++ ws.inner.source.bytes) := by
    rcases h.silent with hclosed | hno
    · rw [hopen] at hclosed
      cases hclosed
    · exact hno
  have hsame : ∀ e, ws.parseFrame = (e, ws) → Quiet ws.parseFrame.2 := by
    intro e he
    rw [he]
    exact h
  cases hparse : WebSocket.parseFrame ws.incoming with
  | incomplete | oversized | panicked => exact ⟨rfl, hsame _ (by rw [WsStream.parseFrame, hparse])⟩
  | frame opcode data rest =>
    have hwhole := parseFrame_append ws.inner.source.bytes hparse
    obtain ⟨hinner, hupgraded, hraw⟩ := parseFrame_keeps ws
    obtain ⟨hincoming, hcloses, -⟩ := parseFrame_takes hparse
    have hping : opcode ≠ 9 := by
      rintro rfl
      exact hno (.here hwhole)
    refine ⟨by rw [pingIn, if_neg hping], hupgraded.trans h.upgraded, hraw.trans h.framed, ?_⟩
    by_cases hclose : opcode = 8
    · exact .inl (hcloses hclose)
    · right
      rw [hincoming, hinner]
      exact fun hrest => hno (.later hwhole hclose hrest)

/-- **A server without Pings**: no read parses one. -/
theorem readRule_quiet : ReadRule fun found w => found = [] ∧ Quiet w where
  parse {_ w} h hopen := by
    obtain ⟨rfl, hquiet⟩ := h
    exact quiet_parseFrame hquiet hopen
  receive {_ w} h := by
    obtain ⟨hbytes, -, hupgraded, hraw, hclosed⟩ := receive_keeps w
    refine ⟨h.1, hupgraded.trans h.2.upgraded, hraw.trans h.2.framed, ?_⟩
    rw [hbytes, hclosed]
    exact h.2.silent
  take _ h := ⟨h.1, h.2.upgraded, h.2.framed, h.2.silent⟩

/-! ## A server with Pings -/

/-- All bytes have arrived, and the peer says nothing more. -/
structure Still (ws : WsStream) : Prop where
  upgraded : ws.upgraded = true
  framed : ws.raw = false
  notClosed : ws.closed = false
  unread : ws.unread = []
  source : ws.inner.source = ⟨[], .silent⟩

theorem Still.pollRead (h : Still ws) (n : Nat) : ws.pollRead n = pollLoop 1 ws n := by
  rw [pollRead_upgraded h.upgraded, pollUpgraded, if_neg (by simp [h.framed]),
    if_neg fun hp => (hasPayload_iff ws).mp hp h.unread, h.source]
  rfl

theorem Still.readPings (h : Still ws) : ws.readPings = loopPings 1 ws := by
  rw [WsStream.readPings, upgradePings, if_pos h.upgraded, upgradedPings,
    if_neg (by simp [h.framed]), if_neg fun hp => (hasPayload_iff ws).mp hp h.unread, h.source]
  rfl

theorem Still.readPings_ne_nil (h : Still ws)
    (hparse : WebSocket.parseFrame ws.incoming = .frame 9 data rest) : ws.readPings ≠ [] := by
  rw [h.readPings, loopPings, if_neg (by simp [h.notClosed]), hparse]
  simp [pingIn]

/-- A frame that is found is reported and may leave its payload to be read, or it is refused
and leaves none. -/
theorem parseFrame_unread (h : WebSocket.parseFrame ws.incoming = .frame opcode data rest)
    (hunread : ws.unread = []) :
    (ws.parseFrame.1 = .ok true ∧ ws.parseFrame.2.unread <+: data) ∨
      ∃ e, ws.parseFrame.1 = .error e ∧ ws.parseFrame.2.unread = [] := by
  have hkeeps : ∀ w : WsStream, w.payload = ws.payload → w.payloadAt = ws.payloadAt →
      w.unread = [] := by
    intro w hpayload hat
    rw [unread, hpayload, hat]
    exact hunread
  have hnothing : ∀ w : WsStream, w.payload = ws.payload → w.payloadAt = ws.payloadAt →
      w.unread <+: data := by
    intro w hpayload hat
    rw [hkeeps w hpayload hat]
    exact nil_prefix
  rw [WsStream.parseFrame, h]
  dsimp only
  split
  · exact .inl ⟨rfl, prefix_rfl⟩
  split
  · exact .inl ⟨rfl, hnothing _ rfl rfl⟩
  split
  · exact .inl ⟨rfl, hnothing _ rfl rfl⟩
  split
  · exact .inl ⟨rfl, hnothing _ rfl rfl⟩
  · exact .inr ⟨_, rfl, hkeeps _ rfl rfl⟩

theorem Still.next (h : Still ws)
    (hparse : WebSocket.parseFrame ws.incoming = .frame opcode data rest) (hopen : opcode ≠ 8) :
    Still (ws.pollRead data.length).2 ∧ (ws.pollRead data.length).2.incoming = rest := by
  obtain ⟨hinner, hupgraded, hraw⟩ := parseFrame_keeps ws
  obtain ⟨hincoming, -, hclosed⟩ := parseFrame_takes hparse
  have hunread := parseFrame_unread hparse h.unread
  rw [h.pollRead, pollLoop, if_neg (by simp [h.notClosed])]
  generalize ws.parseFrame = found at hinner hupgraded hraw hincoming hclosed hunread ⊢
  obtain ⟨found, w⟩ := found
  have hsource : w.inner.source = ⟨[], .silent⟩ := by rw [hinner, h.source]
  have hstill : w.unread = [] → Still w := fun hempty =>
    ⟨hupgraded.trans h.upgraded, hraw.trans h.framed, (hclosed hopen).trans h.notClosed, hempty,
      hsource⟩
  rcases hunread with ⟨rfl, hpayload⟩ | ⟨e, rfl, hempty⟩
  · dsimp only
    by_cases hhas : w.hasPayload = true
    · rw [if_pos ⟨rfl, hhas⟩]
      refine ⟨⟨hupgraded.trans h.upgraded, hraw.trans h.framed, (hclosed hopen).trans h.notClosed,
        ?_, hsource⟩, hincoming⟩
      rw [(takePayload_eq w data.length).2]
      exact drop_of_length_le hpayload.length_le
    · rw [if_neg fun hc => hhas hc.2, readInner_stays (by rw [hsource]; rfl)]
      exact ⟨hstill (not_not.mp fun hne => hhas ((hasPayload_iff w).mpr hne)), hincoming⟩
  · exact ⟨hstill hempty, hincoming⟩

/-! ## Owners that only read -/

/-- The owner reads. -/
def OnlyReads (_ : WsStream × List Message) (c : WsStream.Call) : Prop := ∃ n, c = .read n

theorem reaches_read (ws t : WsStream) (log : List Message) (n : Nat) :
    (writerSystem ws).Reaches OnlyReads (t, log)
      ((t.pollRead n).2, log ++ t.readPings.map .pong) :=
  .single ⟨.read n, ⟨n, rfl⟩, Lts.recorded_step_iff.mpr ⟨rfl, rfl⟩⟩

/-- **Polling parses a Ping that is there**, by induction on the frames before it: each poll
takes one off. -/
theorem exists_pinged (hping : HoldsPing bytes) (ws : WsStream) {t : WsStream} (log : List Message)
    (ht : Still t) (hbytes : t.incoming = bytes) :
    ∃ u log', (writerSystem ws).Reaches OnlyReads (t, log) (u, log') ∧ log' ≠ [] := by
  induction hping generalizing t log with
  | here hparse =>
    refine ⟨_, _, reaches_read ws t log 0, fun hnil => ?_⟩
    have hpings := (append_eq_nil_iff.mp hnil).2
    exact ht.readPings_ne_nil (hbytes ▸ hparse) (map_eq_nil_iff.mp hpings)
  | @later bytes data rest opcode hparse hopen _ ih =>
    obtain ⟨hnext, hrest⟩ := ht.next (hbytes ▸ hparse) hopen
    obtain ⟨u, log', hreach, hne⟩ := ih (log ++ t.readPings.map .pong) hnext hrest
    exact ⟨u, log', (reaches_read ws t log data.length).trans hreach, hne⟩

theorem reads_keep {I : List (List Byte) → WsStream → Prop} (hrule : ReadRule I)
    (hkind : ∀ found w, I found w → w.upgraded = true ∧ w.raw = false) {t : WsStream}
    {log : List Message} (h0 : I [] ws)
    (h : (writerSystem ws).Reaches OnlyReads (ws, []) (t, log)) :
    ∃ found, log = found.map .pong ∧ I found t := by
  refine h.invariant (I := fun p => ∃ found, p.2 = found.map .pong ∧ I found p.1)
    ⟨[], rfl, h0⟩ ?_
  rintro ⟨w, log⟩ ⟨w', log'⟩ c ⟨found, hlog, hI⟩ ⟨n, rfl⟩ hstep
  obtain ⟨hcall, hlog'⟩ := Lts.recorded_step_iff.mp hstep
  obtain ⟨hupgraded, hframed⟩ := hkind found w hI
  have hpings : w.readPings = w.upgradedPings := by
    rw [WsStream.readPings, upgradePings, if_pos hupgraded]
  have hread : w' = (w.pollUpgraded n).2 := by
    rw [← pollRead_upgraded hupgraded]
    exact (Option.some.inj hcall).symm
  refine ⟨found ++ w.upgradedPings, ?_, ?_⟩
  · dsimp only at hlog hlog' ⊢
    rw [hlog', hlog, map_append, ← hpings]
    rfl
  · dsimp only
    rw [hread]
    exact hrule.pollUpgraded n hframed hI

/-- The inner stream always accepts writes, in part or as a whole. -/
def Accepting (sink : Sink IoError Byte) : Prop := ∀ r ∈ sink.plan, ∃ n, r = .room n

/-- Every Pong of `log` has been written, behind what was sent or waited at the start. -/
def Answered (ws t : WsStream) (log : List Message) : Prop :=
  log ≠ [] → ws.sent ++ frames ws.masks ws.drawn log <+: t.inner.sink.accepted

theorem frames_ne_nil {masks : Nat → Mask} {k : Nat} {log : List Message} (h : log ≠ []) :
    frames masks k log ≠ [] := by
  cases log with
  | nil => exact absurd rfl h
  | cons m ms => cases m <;> exact nofun

/-- **Pongs are written by reads alone only when none is owed.** For every byte string that a
server sends on an upgraded connection: in all runs that only read, over all cuttings into
inner reads and all writing ends that accept, every Pong for the Pings parsed so far has
been written whenever a read returns, if and only if no Ping stands in the bytes before a
Close. -/
theorem pongs_written_iff (bytes : List Byte) :
    (∀ ws : WsStream, ws.upgraded = true → ws.raw = false → Accepting ws.inner.sink →
        ws.incoming ++ ws.inner.source.bytes = bytes →
        ∀ t log, (writerSystem ws).Reaches OnlyReads (ws, []) (t, log) → Answered ws t log) ↔
      ¬ HoldsPing bytes := by
  constructor
  · intro hall hping
    -- everything is in the buffer, and the peer is silent
    obtain ⟨ws, hstill, hincoming, hsink⟩ : ∃ ws : WsStream, Still ws ∧ ws.incoming = bytes ∧
        ws.inner.sink = ⟨[], [], false⟩ :=
      ⟨{ upgradedStream [] .silent with incoming := bytes }, ⟨rfl, rfl, rfl, rfl, rfl⟩, rfl, rfl⟩
    obtain ⟨t, log, hreach, hne⟩ := exists_pinged hping ws [] hstill hincoming
    have haccepting : Accepting ws.inner.sink := by
      rw [hsink]
      exact nofun
    have hbytes : ws.incoming ++ ws.inner.source.bytes = bytes := by
      rw [hincoming, hstill.source]
      exact append_nil bytes
    have hanswered := hall ws hstill.upgraded hstill.framed haccepting hbytes t log hreach hne
    obtain ⟨-, -, hidle⟩ := reads_keep (readRule_idle ws.inner.sink)
      (fun _ w h => ⟨h.upgraded, h.framed⟩) ⟨hstill.upgraded, hstill.framed, rfl⟩ hreach
    rw [hidle.sink, hsink] at hanswered
    exact frames_ne_nil hne (append_eq_nil_iff.mp (prefix_nil.mp hanswered)).2
  · intro hno ws hupgraded hframed _ hbytes t log hreach hne
    have hquiet : Quiet ws := ⟨hupgraded, hframed, .inr (hbytes ▸ hno)⟩
    obtain ⟨found, hlog, hfound, -⟩ := reads_keep readRule_quiet
      (fun _ w h => ⟨h.2.upgraded, h.2.framed⟩) ⟨rfl, hquiet⟩ hreach
    rw [hfound] at hlog
    exact absurd hlog hne

/-- A Ping with one byte and a data frame with one byte, each in a read of its own. -/
def pingedReads : List (Event Byte) := [.data 0x89 [1, 7], .data 0x82 [1, 5]]

/-- The read parses the Ping and hands out the data; the inner stream, which takes all that it
is given, has been given nothing. -/
theorem pong_waits_for_write :
    ∃ t, (writerSystem (upgradedStream pingedReads .silent)).Reaches OnlyReads
        (upgradedStream pingedReads .silent, []) (t, [.pong [7]]) ∧
      ((upgradedStream pingedReads .silent).pollRead 16).1 = .ready [5] ∧
      t.inner.sink.plan = [] ∧ t.inner.sink.accepted = [] :=
  ⟨_, reaches_read _ _ [] 16, rfl, rfl, rfl⟩

end ClashMeta.WebSocket
