import ClashMeta.Protocol.WebSocket.Stream
import ClashMeta.Protocol.WebSocket.Timely

/-!
# What the WebSocket read side delivers

A stream of complete server frames, cut anywhere into inner reads, should be delivered in full
before `poll_read` reports the end of the stream or, with a silent peer, before it reports
`Pending` with nothing left to read.

The loop of `poll_read` looks for one frame between two inner reads. A frame that has nothing to
hand out (a control frame, an empty data frame) is therefore paid for with a read, even when the
next frame is already in the buffer; when the reads run out first, complete data frames stay
behind (`ping_hides_data`).
-/

namespace ClashMeta.WebSocket

open List Option

namespace WsStream

/-- Read with buffers of the given sizes until the end of the stream is seen (no
bytes into a buffer with room) or `Pending` with all received bytes read: the
bytes delivered before that. -/
def readAll (ws : WsStream) : List Nat → Option (List Byte)
  | [] => none
  | n :: ns =>
    match ws.pollRead n with
    | (.ready bytes, ws) =>
      if bytes = [] ∧ 0 < n then some [] else (readAll ws ns).map (bytes ++ ·)
    | (.pending, ws) =>
      if ws.inner.source.events.any Event.carries then readAll ws ns else some []
    | (.failed _, _) => none

/-- What is left of the last data frame. -/
def unread (ws : WsStream) : List Byte := ws.payload.drop ws.payloadAt

/-- Everything the stream still has to go through. -/
def backlog (ws : WsStream) : Nat :=
  ws.unread.length + ws.incoming.length + ws.inner.source.size

/-- There is payload if something of it is unread. -/
theorem hasPayload_iff (ws : WsStream) : ws.hasPayload = true ↔ ws.unread ≠ [] := by
  unfold hasPayload unread
  rw [decide_eq_true_iff, ne_eq, drop_eq_nil_iff]
  omega

end WsStream

open WsStream

/-- The stream is upgraded, framed and open; its buffer and the reads to come are
the given frames, none of them longer than the read buffer. -/
structure Receives (ws : WsStream) (frames : List ServerFrame) (events : List (Event Byte))
    (tail : Tail IoError) : Prop where
  upgraded : ws.upgraded = true
  framed : ws.raw = false
  notClosed : ws.closed = false
  source : ws.inner.source = ⟨events, tail⟩
  bytes : ws.incoming ++ events.flatMap Event.bytes = frames.flatMap ServerFrame.encode
  fits : ∀ e ∈ events, e.bytes.length ≤ 8192
  tail : tail = .eof ∨ tail = .silent

/-- The stream has parsed a Close. -/
structure Closed (ws : WsStream) : Prop where
  upgraded : ws.upgraded = true
  framed : ws.raw = false
  closed : ws.closed = true
  unread : ws.unread = []

variable {ws : WsStream} {f : ServerFrame} {fs : List ServerFrame} {events : List (Event Byte)}
  {tail : Tail IoError}

/-- No read carries anything if there are no bytes. -/
theorem flatMap_bytes_eq_nil_iff (es : List (Event Byte)) :
    es.flatMap Event.bytes = [] ↔ es.any Event.carries = false := by
  induction es with
  | nil => simp
  | cons e es ih =>
    rw [flatMap_cons, append_eq_nil_iff, ih]
    cases e <;> simp [Event.bytes, Event.carries]

/-! ## Looking for a frame -/

/-- Behind the last frame nothing is found. -/
theorem parse_nothing (h : Receives ws [] events tail) : ws.parseFrame = (.ok false, ws) := by
  have hnil : ws.incoming = [] := (append_eq_nil_iff.mp h.bytes).1
  simp [WsStream.parseFrame, hnil, WebSocket.parseFrame]

/-- The buffer starts with the next frame, as far as it goes. -/
theorem Receives.incoming_prefix (h : Receives ws (f :: fs) events tail) :
    ws.incoming <+: f.encode ++ fs.flatMap ServerFrame.encode :=
  ⟨events.flatMap Event.bytes, by rw [h.bytes, flatMap_cons]⟩

/-- A frame that is not complete is left for later. -/
theorem parse_incomplete (h : Receives ws (f :: fs) events tail)
    (hlt : ws.incoming.length < f.encode.length) : ws.parseFrame = (.ok false, ws) := by
  unfold WsStream.parseFrame
  rw [f.parseFrame_incomplete h.incoming_prefix hlt]

/-- The stream after the frame `f`, with `r` left in the buffer. -/
def afterFrame (ws : WsStream) (f : ServerFrame) (r : List Byte) : WsStream :=
  match f.opcode with
  | .continuation | .binary => { ws with incoming := r, payload := f.payload, payloadAt := 0 }
  | .close => { ws with incoming := r, closed := true }
  | .ping => { ws with
      incoming := r
      outgoing := ws.outgoing ++ WebSocket.frame (ws.masks ws.drawn) f.payload 10
      drawn := ws.drawn + 1 }
  | .pong => { ws with incoming := r }

/-- A complete frame is taken from the buffer. -/
theorem parse_complete (h : Receives ws (f :: fs) events tail)
    (hle : f.encode.length ≤ ws.incoming.length) :
    ∃ r, ws.incoming = f.encode ++ r ∧
      r ++ events.flatMap Event.bytes = fs.flatMap ServerFrame.encode ∧
      ws.parseFrame = (.ok true, afterFrame ws f r) := by
  obtain ⟨r, hr, -⟩ := prefix_append_split h.incoming_prefix hle
  refine ⟨r, hr, ?_, ?_⟩
  · have hbytes := h.bytes
    rw [hr, append_assoc] at hbytes
    exact append_cancel_left hbytes
  · unfold WsStream.parseFrame afterFrame
    rw [hr, f.parseFrame_complete]
    cases f.opcode <;> rfl

theorem afterFrame_incoming (ws : WsStream) (f : ServerFrame) (r : List Byte) :
    (afterFrame ws f r).incoming = r := by
  unfold afterFrame
  cases f.opcode <;> rfl

theorem afterFrame_inner (ws : WsStream) (f : ServerFrame) (r : List Byte) :
    (afterFrame ws f r).inner = ws.inner := by
  unfold afterFrame
  cases f.opcode <;> rfl

variable {r bytes : List Byte}

/-- Behind a frame that is no Close the rest is received. -/
theorem Receives.afterFrame (h : Receives ws (f :: fs) events tail) (hclose : f.opcode ≠ .close)
    (hr : r ++ events.flatMap Event.bytes = fs.flatMap ServerFrame.encode) :
    Receives (afterFrame ws f r) fs events tail := by
  have hsource : (WebSocket.afterFrame ws f r).inner.source = ⟨events, tail⟩ := by
    rw [afterFrame_inner, h.source]
  refine ⟨?_, ?_, ?_, hsource, by rw [afterFrame_incoming, hr], h.fits, h.tail⟩
  all_goals unfold WebSocket.afterFrame
  · cases f.opcode <;> exact h.upgraded
  · cases f.opcode <;> exact h.framed
  · cases hop : f.opcode <;> first | exact h.notClosed | exact absurd hop hclose

/-- A data frame has its payload unread. -/
theorem afterFrame_unread_data (ws : WsStream) (hskip : f.isSkip = false) (r : List Byte) :
    (afterFrame ws f r).unread = f.payload := by
  obtain ⟨hdata, -⟩ := isSkip_eq_false.mp hskip
  unfold afterFrame unread
  cases hop : f.opcode <;> first | rfl | (rw [hop] at hdata; cases hdata)

/-- A frame that is skipped has nothing to read. -/
theorem afterFrame_unread_skip (hskip : f.isSkip) (hunread : ws.unread = [])
    (r : List Byte) : (afterFrame ws f r).unread = [] := by
  have hempty : f.opcode.isData = true → f.payload = [] := by
    intro hdata
    simpa [ServerFrame.isSkip, hdata] using hskip
  unfold afterFrame
  cases hop : f.opcode
  case continuation | binary =>
    rw [hempty (by rw [hop]; rfl)]
    rfl
  all_goals exact hunread

/-- A Close closes the stream. -/
theorem Receives.closed (h : Receives ws (f :: fs) events tail) (hclose : f.opcode = .close)
    (hunread : ws.unread = []) (r : List Byte) : Closed (WebSocket.afterFrame ws f r) := by
  unfold WebSocket.afterFrame
  rw [hclose]
  exact ⟨h.upgraded, h.framed, rfl, hunread⟩

/-! ## Reading -/

/-- The stream with other answers to come. -/
def WsStream.withEvents (ws : WsStream) (es : List (Event Byte)) : WsStream :=
  { ws with inner := { ws.inner with source := { ws.inner.source with events := es } } }

/-- The stream after an answer that carries the bytes of `e`. -/
def afterRead (ws : WsStream) (e : Event Byte) (es : List (Event Byte)) : WsStream :=
  { ws.withEvents es with incoming := ws.incoming ++ e.bytes }

variable {es : List (Event Byte)}

/-- A read that is not ready. -/
theorem readInner_pending (h : ws.inner.source = ⟨.pending :: es, tail⟩) :
    ws.readInner 8192 = (.pending, afterRead ws .pending es) := by
  rw [readInner_moves (s := ⟨es, tail⟩) (by rw [h]; rfl), afterRead, withEvents, h,
    Event.bytes_pending, append_nil]

/-- A read that brings a chunk. -/
theorem readInner_data {b : Byte} {bs : List Byte} (h : ws.inner.source = ⟨.data b bs :: es, tail⟩)
    (hfit : (b :: bs).length ≤ 8192) :
    ws.readInner 8192 = (.ready (b :: bs), ws.withEvents es) := by
  rw [readInner_moves (s := ⟨es, tail⟩) (by rw [h]; exact Source.poll_data hfit), withEvents, h]

variable {e : Event Byte}

theorem afterRead_source (h : ws.inner.source = ⟨e :: es, tail⟩) :
    (afterRead ws e es).inner.source = ⟨es, tail⟩ := by
  show ({ ws.inner.source with events := es } : Source IoError Byte) = _
  rw [h]

/-- A read moves bytes from the source to the buffer. -/
theorem Receives.afterRead (h : Receives ws fs (e :: es) tail) :
    Receives (WebSocket.afterRead ws e es) fs es tail := by
  refine ⟨h.upgraded, h.framed, h.notClosed, afterRead_source h.source, ?_, ?_, h.tail⟩
  · show (ws.incoming ++ e.bytes) ++ es.flatMap Event.bytes = _
    rw [append_assoc, ← flatMap_cons, h.bytes]
  · intro x hx
    exact h.fits x (mem_cons_of_mem _ hx)

theorem Closed.afterRead (h : Closed ws) (e : Event Byte) (es : List (Event Byte)) :
    Closed (WebSocket.afterRead ws e es) :=
  ⟨h.upgraded, h.framed, h.closed, h.unread⟩

theorem size_cons (e : Event Byte) (es : List (Event Byte)) (tail : Tail IoError) :
    (⟨e :: es, tail⟩ : Source IoError Byte).size =
      e.bytes.length + 1 + (⟨es, tail⟩ : Source IoError Byte).size := by
  simp [Source.size]

/-- A read makes the backlog smaller by one. -/
theorem backlog_afterRead (h : ws.inner.source = ⟨e :: es, tail⟩) :
    (afterRead ws e es).backlog + 1 = ws.backlog := by
  have hunread : (afterRead ws e es).unread = ws.unread := rfl
  have hincoming : (afterRead ws e es).incoming = ws.incoming ++ e.bytes := rfl
  unfold backlog
  rw [hunread, hincoming, afterRead_source h, h, size_cons, length_append]
  omega

/-! ## The loop -/

/-- How `pollLoop` comes back to a reader with room for `n` bytes, when `want` is
expected and `T` says whether it will all be delivered:

- `hands`: bytes of a data frame are handed out;
- `parks`: `Pending`, with reads that carry bytes still to come;
- `closes`: the peer's Close has been read, and nothing is expected;
- `dries`: no read that carries bytes is left. -/
inductive LoopOutcome (tail : Tail IoError) (n : Nat) (want : List Byte) (T : Prop) (m : Nat) :
    Poll Fault (List Byte) × WsStream → Prop where
  | hands (ws : WsStream) (fs : List ServerFrame) (es : List (Event Byte))
      (hrec : Receives ws fs es tail) (hne : ws.unread ≠ [])
      (hwant : want = ws.unread ++ expected fs) (hT : T ↔ Timely fs ws.incoming.length es)
      (hm : ws.backlog ≤ m) : LoopOutcome tail n want T m (ws.takePayload n)
  | parks (ws : WsStream) (fs : List ServerFrame) (es : List (Event Byte))
      (hrec : Receives ws fs es tail) (hunread : ws.unread = [])
      (hmore : es.any Event.carries = true) (hwant : want = expected fs)
      (hT : T ↔ Timely fs ws.incoming.length es) (hm : ws.backlog < m) :
      LoopOutcome tail n want T m (.pending, ws)
  | closes (r : Poll Fault (List Byte)) (ws : WsStream) (hr : r = .pending ∨ r = .ready [])
      (hclosed : Closed ws) (hwant : want = []) (hT : T) (hm : ws.backlog < m) :
      LoopOutcome tail n want T m (r, ws)
  | dries (r : Poll Fault (List Byte)) (ws : WsStream) (fs : List ServerFrame)
      (es : List (Event Byte)) (hr : r = .pending ∨ r = .ready [])
      (hrec : Receives ws fs es tail) (hunread : ws.unread = [])
      (hnone : es.any Event.carries = false) (hwant : want = expected fs)
      (hT : T ↔ want = []) : LoopOutcome tail n want T m (r, ws)

variable {m n fuel : Nat} {T : Prop}

/-- The bound on the backlog can be raised. -/
theorem LoopOutcome.mono {m' : Nat} {want : List Byte} {out : Poll Fault (List Byte) × WsStream}
    (h : LoopOutcome tail n want T m out) (hle : m ≤ m') : LoopOutcome tail n want T m' out := by
  cases h with
  | hands ws fs es hrec hne hwant hT hm =>
    exact .hands ws fs es hrec hne hwant hT (le_trans hm hle)
  | parks ws fs es hrec hunread hmore hwant hT hm =>
    exact .parks ws fs es hrec hunread hmore hwant hT (lt_of_lt_of_le hm hle)
  | closes r ws hr hclosed hwant hT hm =>
    exact .closes r ws hr hclosed hwant hT (lt_of_lt_of_le hm hle)
  | dries r ws fs es hr hrec hunread hnone hwant hT =>
    exact .dries r ws fs es hr hrec hunread hnone hwant hT

/-- The rest of a round of the loop once no frame has been handed out: one inner
read. -/
def WsStream.readOn (fuel : Nat) (ws : WsStream) (n : Nat) : Poll Fault (List Byte) × WsStream :=
  match ws.readInner 8192 with
  | (.pending, ws) => (.pending, ws)
  | (.failed e, ws) => (.failed (.io e), ws)
  | (.ready [], ws) => (.ready [], ws)
  | (.ready (b :: bs), ws) => pollLoop fuel { ws with incoming := ws.incoming ++ b :: bs } n

variable {ws' : WsStream}

/-- Behind the last read the tail answers. -/
theorem readOn_last (h : ws.inner.source = ⟨[], tail⟩) (htail : tail = .eof ∨ tail = .silent) :
    ∃ r, (r = .pending ∨ r = .ready []) ∧ ws.readOn fuel n = (r, ws) := by
  unfold readOn
  rcases htail with rfl | rfl
  · exact ⟨_, .inr rfl, by rw [readInner_stays (by rw [h]; rfl)]⟩
  · exact ⟨_, .inl rfl, by rw [readInner_stays (by rw [h]; rfl)]⟩

/-- A round that hands out nothing reads. -/
theorem pollLoop_readOn {took : Bool} (hclosed : ws.closed = false)
    (hparse : ws.parseFrame = (.ok took, ws')) (hno : ws'.unread = []) (fuel : Nat) :
    pollLoop (fuel + 1) ws n = ws'.readOn fuel n := by
  have hpayload : ¬ (took = true ∧ ws'.hasPayload = true) :=
    fun h => (ws'.hasPayload_iff.mp h.2) hno
  rw [pollLoop, if_neg (by simp [hclosed])]
  simp only [hparse]
  rw [if_neg hpayload]
  rfl

/-- What the inner read leads to, given what the loop does with less fuel. `T`
moves along with the read. -/
theorem readOn_outcome (h : Receives ws fs events tail) (hunread : ws.unread = [])
    (hm : ws.backlog ≤ m) (hfuel : ws.inner.source.size < fuel + 1)
    (ih : ∀ {ws : WsStream} {fs : List ServerFrame} {events : List (Event Byte)},
      Receives ws fs events tail → ws.unread = [] → ws.inner.source.size < fuel →
      LoopOutcome tail n (expected fs) (Timely fs ws.incoming.length events) ws.backlog
        (pollLoop fuel ws n))
    (hread : ∀ e es, events = e :: es → (e :: es).any Event.carries = true →
      (T ↔ Timely fs (ws.incoming.length + e.bytes.length) es))
    (hend : events.any Event.carries = false → (T ↔ expected fs = [])) :
    LoopOutcome tail n (expected fs) T m (ws.readOn fuel n) := by
  cases events with
  | nil =>
    obtain ⟨r, hr, heq⟩ := readOn_last h.source h.tail
    rw [heq]
    exact .dries r ws fs [] hr h hunread rfl rfl (hend rfl)
  | cons e es =>
    have hback := backlog_afterRead h.source
    have hlength : (WebSocket.afterRead ws e es).incoming.length =
        ws.incoming.length + e.bytes.length := by
      show (ws.incoming ++ e.bytes).length = _
      rw [length_append]
    -- a pause parks the loop, or dries it up when no bytes follow
    cases e with
    | pending =>
      unfold readOn
      rw [readInner_pending h.source]
      cases hmore : es.any Event.carries with
      | true =>
        refine .parks _ fs es h.afterRead hunread hmore rfl ?_ (by omega)
        rw [hlength]
        exact hread _ es rfl (by simpa [Event.carries] using hmore)
      | false =>
        exact .dries _ _ fs es (.inl rfl) h.afterRead hunread hmore rfl
          (hend (by simpa [Event.carries] using hmore))
    | data b bs =>
      unfold readOn
      rw [readInner_data h.source (h.fits _ mem_cons_self)]
      have hsize := size_cons (.data b bs) es tail
      rw [← h.source, ← afterRead_source h.source] at hsize
      have hout := ih h.afterRead hunread (by omega)
      rw [hread _ es rfl rfl, ← hlength]
      exact hout.mono (by omega)

/-- Behind a Close the read ends the loop. -/
theorem readOn_closed (h : Closed ws) (hT : T) (hsource : ws.inner.source = ⟨events, tail⟩)
    (hfits : ∀ e ∈ events, e.bytes.length ≤ 8192) (htail : tail = .eof ∨ tail = .silent)
    (hm : ws.backlog < m) (hfuel : ws.inner.source.size < fuel + 1) :
    LoopOutcome tail n [] T m (ws.readOn fuel n) := by
  cases events with
  | nil =>
    obtain ⟨r, hr, heq⟩ := readOn_last hsource htail
    rw [heq]
    exact .closes r ws hr h rfl hT hm
  | cons e es =>
    unfold readOn
    have hback := backlog_afterRead hsource
    cases e with
    | pending =>
      rw [readInner_pending hsource]
      exact .closes _ _ (.inl rfl) (h.afterRead _ es) rfl hT (by omega)
    | data b bs =>
      rw [readInner_data hsource (hfits _ mem_cons_self)]
      rw [hsource, size_cons] at hfuel
      obtain ⟨fuel, rfl⟩ : ∃ k, fuel = k + 1 := ⟨fuel - 1, by simp at hfuel; omega⟩
      have hclosed : (afterRead ws (.data b bs) es).closed = true := h.closed
      show LoopOutcome tail n [] T m (pollLoop (fuel + 1) (afterRead ws (.data b bs) es) n)
      rw [pollLoop, if_pos hclosed]
      exact .closes _ _ (.inr rfl) (h.afterRead _ es) rfl hT (by omega)

/-- A frame makes the backlog smaller. -/
theorem backlog_afterFrame (hunread : ws.unread = []) (hr : ws.incoming = f.encode ++ r)
    (hle : (afterFrame ws f r).unread.length ≤ f.payload.length) :
    (afterFrame ws f r).backlog < ws.backlog := by
  have hencode : f.payload.length < f.encode.length := by
    rw [← f.body_length]
    simp only [ServerFrame.encode, ServerFrame.header, length_append, length_cons]
    omega
  unfold backlog
  rw [hunread, hr, afterFrame_incoming, afterFrame_inner, length_append]
  omega

/-- **The loop of `poll_read`**, with enough fuel. -/
theorem pollLoop_outcome (n : Nat) (h : Receives ws fs events tail) (hunread : ws.unread = [])
    (hfuel : ws.inner.source.size < fuel) :
    LoopOutcome tail n (expected fs) (Timely fs ws.incoming.length events) ws.backlog
      (pollLoop fuel ws n) := by
  induction fuel generalizing ws fs events with
  | zero => omega
  | succ fuel ih =>
    cases fs with
    | nil =>
      rw [pollLoop_readOn h.notClosed (parse_nothing h) hunread]
      refine readOn_outcome h hunread le_rfl hfuel ih ?_ ?_
      · intro e es _ _
        exact iff_of_true (timely_of_expected_nil rfl _ _) (timely_of_expected_nil rfl _ _)
      · intro _
        exact iff_of_true (timely_of_expected_nil rfl _ _) rfl
    | cons f fs =>
      by_cases hlt : ws.incoming.length < f.encode.length
      · -- the next frame is incomplete, so reads that carry bytes are to come
        rw [pollLoop_readOn h.notClosed (parse_incomplete h hlt) hunread]
        refine readOn_outcome h hunread le_rfl hfuel ih ?_ ?_
        · rintro e es rfl hmore
          exact timely_wait hlt hmore
        · intro hnone
          have hlen := congrArg List.length h.bytes
          rw [(flatMap_bytes_eq_nil_iff events).mpr hnone, append_nil, flatMap_cons,
            length_append] at hlen
          omega
      · have hle : f.encode.length ≤ ws.incoming.length := by omega
        obtain ⟨r, hr, hrest, hparse⟩ := parse_complete h hle
        have hlength : (WebSocket.afterFrame ws f r).incoming.length =
            ws.incoming.length - f.encode.length := by
          rw [afterFrame_incoming, hr, length_append]
          omega
        cases hskip : f.isSkip with
        | false =>
          -- a data frame: its bytes are handed out
          have hdata := (isSkip_eq_false.mp hskip).1
          have hpayload := afterFrame_unread_data ws hskip r
          have hne : (WebSocket.afterFrame ws f r).unread ≠ [] :=
            hpayload ▸ (isSkip_eq_false.mp hskip).2
          rw [pollLoop, if_neg (by simp [h.notClosed])]
          simp only [hparse]
          rw [if_pos ⟨trivial, (hasPayload_iff _).mpr hne⟩]
          refine .hands _ fs events (h.afterFrame (not_close_of_data hdata) hrest) hne ?_ ?_ ?_
          · rw [hpayload, expected_data hskip]
          · rw [hlength]
            exact timely_data hle hskip
          · exact le_of_lt (backlog_afterFrame hunread hr (by rw [hpayload]))
        | true =>
          have hunread' := afterFrame_unread_skip hskip hunread r
          have hback := backlog_afterFrame hunread hr (by rw [hunread']; exact Nat.zero_le _)
          have hfuel' : (WebSocket.afterFrame ws f r).inner.source.size < fuel + 1 := by
            rw [afterFrame_inner]
            exact hfuel
          rw [pollLoop_readOn h.notClosed hparse hunread']
          by_cases hclose : f.opcode = .close
          · rw [expected_close hclose]
            exact readOn_closed (h.closed hclose hunread r)
              (timely_of_expected_nil (expected_close hclose fs) _ _)
              (by rw [afterFrame_inner, h.source]) h.fits h.tail hback hfuel'
          · rw [expected_skip hclose hskip]
            refine readOn_outcome (h.afterFrame hclose hrest) hunread' (le_of_lt hback)
              hfuel' ih ?_ ?_
            · rintro e es rfl hmore
              rw [hlength]
              exact timely_skip_read hle hclose hskip hmore
            · exact timely_skip_end hle hclose hskip

/-! ## Whole runs -/

theorem pollRead_upgraded (hupgraded : ws.upgraded) (n : Nat) :
    ws.pollRead n = ws.pollUpgraded n := by
  unfold pollRead
  rw [pollUpgrade, if_pos hupgraded]

/-- **A call of `poll_read`**: what is left of a data frame is handed out before the loop. -/
theorem pollRead_outcome (h : Receives ws fs events tail) (n : Nat) :
    LoopOutcome tail n (ws.unread ++ expected fs) (Timely fs ws.incoming.length events) ws.backlog
      (ws.pollRead n) := by
  rw [pollRead_upgraded h.upgraded, pollUpgraded, if_neg (by simp [h.framed])]
  by_cases hunread : ws.unread = []
  · rw [if_neg fun hp => (hasPayload_iff ws).mp hp hunread, hunread]
    exact pollLoop_outcome n h hunread (lt_add_one _)
  · rw [if_pos ((hasPayload_iff ws).mpr hunread)]
    exact .hands ws fs events h hunread rfl .rfl le_rfl

/-- A closed stream has ended. -/
theorem pollRead_closed (h : Closed ws) (n : Nat) : ws.pollRead n = (.ready [], ws) := by
  rw [pollRead_upgraded h.upgraded, pollUpgraded, if_neg (by simp [h.framed]),
    if_neg fun hp => (hasPayload_iff ws).mp hp h.unread, pollLoop, if_pos h.closed]

/-- The front of what is unread is handed out. -/
theorem takePayload_eq (ws : WsStream) (n : Nat) :
    (ws.takePayload n).1 = .ready (ws.unread.take n) ∧
      (ws.takePayload n).2.unread = ws.unread.drop n := by
  have hlen : ws.unread.length = ws.payload.length - ws.payloadAt := by
    simp [unread]
  refine ⟨?_, ?_⟩
  · show Poll.ready (ws.unread.take _) = _
    rw [← hlen, ← take_eq_take_min]
  · show ws.payload.drop (ws.payloadAt + min n _) = ws.unread.drop n
    rw [← drop_drop, ← hlen]
    exact (drop_eq_drop_min ..).symm

variable {sizes : List Nat}

/-- Nothing comes from a closed stream. -/
theorem readAll_closed (h : Closed ws) (hread : ws.readAll sizes = some bytes) : bytes = [] := by
  induction sizes generalizing bytes with
  | nil => cases hread
  | cons n ns ih =>
    rw [readAll, pollRead_closed h] at hread
    simp only at hread
    split at hread
    · cases hread
      rfl
    · obtain ⟨rest, hrest, rfl⟩ := map_eq_some_iff.mp hread
      exact ih hrest

/-- A run goes on behind what is handed out. -/
theorem readAll_hand (hpoll : ws.pollRead n = ws'.takePayload n) (hne : ws'.unread ≠ [])
    (ns : List Nat) :
    ws.readAll (n :: ns) = ((ws'.takePayload n).2.readAll ns).map (ws'.unread.take n ++ ·) := by
  have hsplit : ws'.takePayload n = (.ready (ws'.unread.take n), (ws'.takePayload n).2) := by
    rw [← (takePayload_eq ws' n).1]
  rw [readAll, hpoll, hsplit]
  simp only
  rw [if_neg]
  rintro ⟨hnil, hpos⟩
  rw [take_eq_nil_iff] at hnil
  rcases hnil with rfl | hnil
  · omega
  · exact hne hnil

section

variable (h : Receives ws fs events tail)
include h

theorem Receives.takePayload (n : Nat) : Receives (ws.takePayload n).2 fs events tail :=
  ⟨h.upgraded, h.framed, h.notClosed, h.source, h.bytes, h.fits, h.tail⟩

/-- What a whole run delivers: everything if the frames are timely; and, with room
in every buffer, only then. -/
theorem readAll_spec (hread : ws.readAll sizes = some bytes) :
    (Timely fs ws.incoming.length events → bytes = ws.unread ++ expected fs) ∧
      ((∀ n ∈ sizes, 0 < n) → bytes = ws.unread ++ expected fs →
        Timely fs ws.incoming.length events) := by
  induction sizes generalizing ws fs events bytes with
  | nil => cases hread
  | cons n ns ih =>
    have hout := pollRead_outcome h n
    generalize hpoll : ws.pollRead n = out at hout
    generalize ws.unread ++ expected fs = want at hout ⊢
    generalize Timely fs ws.incoming.length events = T at hout ⊢
    cases hout with
    | hands ws' fs' es' hrec hne hwant hT _ =>
      rw [readAll_hand hpoll hne] at hread
      obtain ⟨rest, hrest, rfl⟩ := map_eq_some_iff.mp hread
      have hih := ih (hrec.takePayload n) hrest
      rw [(takePayload_eq ws' n).2] at hih
      rw [hwant, hT, ← take_append_drop n ws'.unread, append_assoc]
      refine ⟨fun hT => by rw [hih.1 hT, take_append_drop], fun hpos heq => ?_⟩
      rw [take_append_drop] at heq
      exact hih.2 (fun k hk => hpos k (mem_cons_of_mem _ hk)) (append_cancel_left heq)
    | parks ws' fs' es' hrec hunread' hmore hwant hT _ =>
      rw [readAll, hpoll] at hread
      simp only [hrec.source, hmore, if_true] at hread
      have hih := ih hrec hread
      rw [hunread'] at hih
      rw [hwant, hT]
      exact ⟨hih.1, fun hpos => hih.2 fun k hk => hpos k (mem_cons_of_mem _ hk)⟩
    | closes r ws' hr hclosed hwant hT _ =>
      have hnil : bytes = [] := by
        rw [readAll, hpoll] at hread
        rcases hr with rfl | rfl
        all_goals
          simp only at hread
          split at hread
        · exact readAll_closed hclosed hread
        · cases hread
          rfl
        · cases hread
          rfl
        · obtain ⟨rest, hrest, rfl⟩ := map_eq_some_iff.mp hread
          exact readAll_closed hclosed hrest
      rw [hwant]
      exact ⟨fun _ => hnil, fun _ _ => hT⟩
    | dries r ws' fs' es' hr hrec hunread' hnone hwant hT =>
      have hend : bytes = [] →
          (T → bytes = want) ∧ ((∀ k ∈ n :: ns, 0 < k) → bytes = want → T) := by
        rintro rfl
        exact ⟨fun h => (hT.mp h).symm, fun _ heq => hT.mpr heq.symm⟩
      rw [readAll, hpoll] at hread
      rcases hr with rfl | rfl
      · simp only [hrec.source, hnone, Bool.false_eq_true, if_false, some.injEq] at hread
        exact hend hread.symm
      · simp only [true_and] at hread
        split at hread
        · cases hread
          exact hend rfl
        · -- a buffer without room does not see the end: the calls go on
          rename_i hn
          obtain ⟨rest, hrest, rfl⟩ := map_eq_some_iff.mp hread
          refine ⟨fun hTimely => ?_, fun hpos => absurd (hpos n mem_cons_self) hn⟩
          have hnil : expected fs' = [] := hwant ▸ hT.mp hTimely
          have hrest' := (ih hrec hrest).1 (timely_of_expected_nil hnil _ _)
          rw [hunread', hnil] at hrest'
          rw [hT.mp hTimely, hrest']
          rfl

/-- With room in every buffer the end is seen after as many calls as there is
backlog. -/
theorem readAll_isSome (hpos : ∀ n ∈ sizes, 0 < n)
    (hlong : ws.backlog < sizes.length) : (ws.readAll sizes).isSome = true := by
  induction sizes generalizing ws fs events with
  | nil =>
    rw [length_nil] at hlong
    omega
  | cons n ns ih =>
    rw [length_cons] at hlong
    have hn : 0 < n := hpos n mem_cons_self
    have hpos' : ∀ k ∈ ns, 0 < k := fun k hk => hpos k (mem_cons_of_mem _ hk)
    have hout := pollRead_outcome h n
    generalize hpoll : ws.pollRead n = out at hout
    cases hout with
    | hands ws' fs' es' hrec hne _ _ hm =>
      -- handing out at least one byte shrinks the backlog
      rw [readAll_hand hpoll hne, isSome_map]
      refine ih (hrec.takePayload n) hpos' ?_
      have hlen : 0 < ws'.unread.length := length_pos_iff.mpr hne
      have hback : (ws'.takePayload n).2.backlog < ws'.backlog := by
        show (ws'.takePayload n).2.unread.length + ws'.incoming.length +
          ws'.inner.source.size < ws'.backlog
        unfold backlog
        rw [(takePayload_eq ws' n).2, length_drop]
        omega
      omega
    | parks ws' fs' es' hrec _ hmore _ _ hm =>
      rw [readAll, hpoll]
      simp only [hrec.source, hmore, if_true]
      exact ih hrec hpos' (by omega)
    | closes r ws' hr hclosed _ _ hm =>
      rw [readAll, hpoll]
      rcases hr with rfl | rfl
      · simp only
        split
        · -- one more call finds the stream closed
          cases ns with
          | nil =>
            rw [length_nil] at hlong
            omega
          | cons k ks =>
            rw [readAll, pollRead_closed hclosed]
            simp only
            rw [if_pos ⟨trivial, hpos' k mem_cons_self⟩]
            rfl
        · rfl
      · simp only
        rw [if_pos ⟨trivial, hn⟩]
        rfl
    | dries r ws' fs' es' hr hrec _ hnone _ _ =>
      rw [readAll, hpoll]
      rcases hr with rfl | rfl
      · simp only [hrec.source, hnone, Bool.false_eq_true, if_false, isSome_some]
      · simp only
        rw [if_pos ⟨trivial, hn⟩]
        rfl

end

/-- **Exactly when nothing is lost**: on an upgraded, framed stream whose buffer
and reads make up the given frames, with the end of the stream or silence after
them, every run delivers the payloads of the data frames before the first Close if
and only if the frames are timely; and with room in every buffer a run always
comes to its end. -/
theorem delivers_all_iff (h : Receives ws fs events tail) (hunread : ws.unread = []) :
    ((∀ sizes bytes, ws.readAll sizes = some bytes → bytes = expected fs) ↔
        Timely fs ws.incoming.length events) ∧
      ∀ sizes, (∀ n ∈ sizes, 0 < n) → ws.backlog < sizes.length →
        (ws.readAll sizes).isSome = true := by
  refine ⟨⟨fun hall => ?_, fun hT sizes bytes hread => ?_⟩, fun sizes => readAll_isSome h⟩
  · -- any run with room in every buffer that comes to its end shows it
    have hpos : ∀ n ∈ List.replicate (ws.backlog + 1) 1, 0 < n := by
      intro n hn
      rw [(mem_replicate.mp hn).2]
      exact one_pos
    obtain ⟨bytes, hread⟩ := isSome_iff_exists.mp
      (readAll_isSome h hpos (by rw [length_replicate]; omega))
    refine (readAll_spec h hread).2 hpos ?_
    rw [hunread]
    exact hall _ bytes hread
  · have hspec := (readAll_spec h hread).1 hT
    rwa [hunread] at hspec

/-! ## A Ping before the data -/

/-- An upgraded stream with the given reads to come. -/
def upgradedStream (events : List (Event Byte)) (tail : Tail IoError) : WsStream :=
  { WsStream.new ⟨⟨events, tail⟩, ⟨[], [], false⟩⟩ false none (fun _ => .replicate 4 0) with
    upgraded := true }

/-- A Ping and a data frame with one byte. -/
def pingThenData : List ServerFrame :=
  [⟨8, .ping, .short, none, [], by decide⟩, ⟨8, .binary, .short, none, [7], by decide⟩]

/-- The two frames in two reads. -/
def twoReads : List (Event Byte) := [.data 0x89 [0], .data 0x82 [1, 7]]

/-- The two frames in one read. -/
def oneRead : List (Event Byte) := [.data 0x89 [0, 0x82, 1, 7]]

/-- Read one after the other, the data is delivered. -/
theorem delivers_all_twoReads :
    Receives (upgradedStream twoReads .eof) pingThenData twoReads .eof ∧
      ∀ sizes bytes, (upgradedStream twoReads .eof).readAll sizes = some bytes → bytes = [7] := by
  have hrec : Receives (upgradedStream twoReads .eof) pingThenData twoReads .eof :=
    ⟨rfl, rfl, rfl, rfl, by decide, by decide, .inl rfl⟩
  refine ⟨hrec, (delivers_all_iff hrec rfl).1.mpr ?_⟩
  rintro pre wait g hg
  -- the data frame is the second one: the stretch starts at it or at the Ping
  rcases dataAfter_cons.mp hg with ⟨-, -, hskip⟩ | ⟨wait', hwait, -, hg₁⟩
  · cases hskip
  · rcases dataAfter_cons.mp hg₁ with ⟨rfl, rfl, -⟩ | ⟨wait₂, -, -, hg₂⟩
    · rcases append_eq_singleton_iff.mp hwait with ⟨rfl, rfl⟩ | ⟨rfl, rfl⟩ <;> decide
    · exact absurd hg₂ not_dataAfter_nil

/-- In one read, the data is still in the buffer when the end of the stream, or
`Pending` from a silent peer, is reported. -/
theorem ping_hides_data :
    expected pingThenData = [7] ∧
      Receives (upgradedStream oneRead .eof) pingThenData oneRead .eof ∧
      (upgradedStream oneRead .eof).readAll [16] = some [] ∧
      Receives (upgradedStream oneRead .silent) pingThenData oneRead .silent ∧
      (upgradedStream oneRead .silent).readAll [16] = some [] :=
  ⟨by decide, ⟨rfl, rfl, rfl, rfl, by decide, by decide, .inl rfl⟩, by decide +kernel,
    ⟨rfl, rfl, rfl, rfl, by decide, by decide, .inr rfl⟩, by decide +kernel⟩

end ClashMeta.WebSocket
