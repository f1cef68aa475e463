import ClashMeta.Protocol.Xudp.Framing

/-!
# A frame that ends or rejects a session

`ClosingFrame` is a well-formed frame by which the peer gives up one session: END, with or
without the error option, or KEEP with it. `Processes` are the steps the reader makes on it
alone: it takes the bytes of the frame in any pieces, looks up the route and delivers; or its
loop ends with an error and it goes on in `fail_multiplexer`.

The metadata parser answers the error option with an error, and that ends the reader of the
whole stream. So a rejection stays with its session exactly when it comes without that option
(`rejection_stays_local_iff`).
-/

namespace ClashMeta.Xudp

open List

section

variable [IpText]

/-- A well-formed frame that ends or rejects a session. -/
structure ClosingFrame where
  frame : InboundFrame
  error : Bool
  closes : frame.status = statusEnd ∨ (frame.status = statusKeep ∧ error = true)

namespace ClosingFrame

variable (f : ClosingFrame)

/-- The options: the frame's own, and the error option. -/
def options : Byte := f.frame.options ||| (if f.error then optionError else 0)

/-- The metadata bytes. -/
def header : List Byte := f.frame.headerWith f.options

/-- The frame on the wire. -/
def bytes : List Byte := f.frame.bytesWith f.options

/-- Without the error option it is a frame as the reader expects it. -/
theorem bytes_plain (h : f.error = false) : f.bytes = stream [f.frame] := by
  have hoptions : f.options = f.frame.options := by
    rw [options, h]
    exact UInt8.or_zero
  rw [stream, flatMap_cons, flatMap_nil, append_nil, bytes, hoptions]
  rfl

theorem status_plain (h : f.error = false) : f.frame.metadata.status = statusEnd := by
  rcases f.closes with hend | ⟨-, herror⟩
  · exact hend
  · rw [h] at herror
    cases herror

theorem multiplexedMetadata_header (h : f.error) :
    multiplexedMetadata f.header = .error "XUDP peer rejected session" := by
  have hshape : f.header = UInt8.ofNat (f.frame.id.toNat / 256) ::
      UInt8.ofNat f.frame.id.toNat :: f.frame.status :: f.options :: f.frame.address := rfl
  have hlength : ¬ maxMetadata < f.header.length := by
    exact not_lt.mpr f.frame.length_ok
  have hoptions : f.options &&& ~~~(optionData ||| optionError) = 0 ∧
      f.options &&& optionError ≠ 0 := by
    rw [options, InboundFrame.options, h]
    cases f.frame.payload.isSome <;> decide
  rw [hshape] at hlength ⊢
  rw [multiplexedMetadata, if_neg hlength, if_neg (not_not.mpr hoptions.1), if_pos hoptions.2]

end ClosingFrame

/-! ## Processing a frame -/

/-- The steps of the reader on a frame that `rest` follows: reads inside the frame, the route
table, the queue, and once its loop has ended `fail_multiplexer`. -/
def ReaderStep (rest : List Byte) (s : Demux) : RecvAction → Prop
  | .read n => rest.length + n ≤ s.inbound.length
  | .route | .deliver => True
  | .swap .reader | .take .reader | .tell .reader | .failed .reader => s.reader = .stopped
  | _ => False

/-- The receive side without its history. -/
def receiver : Lts Demux RecvAction := ⟨Demux.new [], Demux.step⟩

/-- The reader alone, from `s` to `t`. -/
def Processes (rest : List Byte) (s t : Demux) : Prop := receiver.Reaches (ReaderStep rest) s t

/-- The multiplexer is as alive as it was, and no session but the one under `id` has lost its
route or had its queue touched. -/
structure Unaffected (s : Demux) (id : UInt16) (t : Demux) : Prop where
  alive : t.alive = s.alive
  routes : ∀ other, other ≠ id → t.routes.lookup other = s.routes.lookup other
  sessions : ∀ key, (∀ r, s.routes.lookup id = some r → r.sender ≠ key) →
    t.sessions.lookup key = s.sessions.lookup key

/-! ## Frames without the error option -/

section

variable {s u v : Demux} {f : InboundFrame} {rest : List Byte}

/-- Where the reader is with an END frame, seen from the state `s` it started in: still
reading it, with its route in hand, or done with it. -/
inductive Handling (s : Demux) (f : InboundFrame) (rest : List Byte) (u : Demux) : Prop where
  | reading (left : List Byte) (hin : u.inbound = left ++ rest)
      (hstands : Stands u.reader left [f]) (hnot : ∀ r item, u.reader ≠ .delivering r item)
      (halive : u.alive = s.alive) (hroutes : u.routes = s.routes)
      (hsessions : u.sessions = s.sessions)
  | holding (r : Route) (item : RoutedPacket) (hreader : u.reader = .delivering r item)
      (hin : u.inbound = rest) (halive : u.alive = s.alive)
      (hroute : s.routes.lookup f.id = some r) (hroutes : u.routes = s.routes.erase f.id)
      (hsessions : u.sessions = s.sessions)
  | done (hreader : u.reader = .idle) (hin : u.inbound = rest) (hrest : Unaffected s f.id u)

section

variable (h : Handling s f rest u)

include h

theorem Handling.unaffected : Unaffected s f.id u := by
  cases h with
  | reading left hin hstands hnot halive hroutes hsessions =>
    exact ⟨halive, fun _ _ => by rw [hroutes], fun _ _ => by rw [hsessions]⟩
  | holding r item hreader hin halive hroute hroutes hsessions =>
    refine ⟨halive, fun other hne => ?_, fun _ _ => by rw [hsessions]⟩
    rw [hroutes, AList.lookup_erase_ne hne]
  | done hreader hin hrest => exact hrest

theorem Handling.not_stopped : u.reader ≠ .stopped := by
  intro hstopped
  cases h with
  | reading left hin hstands =>
    rw [hstopped] at hstands
    cases hstands
  | holding r item hreader | done hreader => exact nomatch hstopped.symm.trans hreader

theorem Handling.read {n : Nat} (hn : rest.length + n ≤ u.inbound.length)
    (hstep : u.step (.read n) = some v) : Handling s f rest v := by
  have hcases := recvStep_read hstep
  cases h with
  | reading left hin hstands hnot halive hroutes hsessions =>
    have hle : n ≤ left.length := by
      rw [hin, length_append] at hn
      omega
    have htake : u.inbound.take n = left.take n := by rw [hin, take_append_of_le_length hle]
    have hdrop : u.inbound.drop n = left.drop n ++ rest := by
      rw [hin, drop_append_of_le_length hle]
    have hfeed : 0 < n → n ≤ u.reader.wants →
        ∃ p, u.reader.feed (left.take n) = .ok p ∧ Stands p (left.drop n) [f] := by
      intro hpos hwants
      refine Stands.feed ?_ (by rw [length_take]; omega) (by rw [length_take]; omega)
      rwa [take_append_drop]
    cases hcases with
    | fed n p hpos hwants hlength hp =>
      obtain ⟨p', hp', hstands'⟩ := hfeed hpos hwants
      rw [htake, hp'] at hp
      cases hp
      exact .reading (left.drop n) hdrop hstands' (feed_ne_delivering hnot hp') halive hroutes
        hsessions
    | malformed n message hpos hwants hlength hp =>
      obtain ⟨p', hp', -⟩ := hfeed hpos hwants
      rw [htake, hp'] at hp
      cases hp
  | holding r item hreader hin | done hreader hin =>
    -- there is nothing left of the frame to read
    rw [hin] at hn
    cases hcases <;> omega

theorem Handling.route (hend : f.metadata.status = statusEnd)
    (hstep : u.step .route = some v) : Handling s f rest v := by
  have hcases := recvStep_route hstep
  have hframe : ∀ m payload, u.reader = .routing m payload →
      m = f.metadata ∧ u.inbound = rest ∧ u.alive = s.alive ∧ u.routes = s.routes ∧
        u.sessions = s.sessions := by
    intro m payload hrouting
    cases h with
    | reading left hin hstands hnot halive hroutes hsessions =>
      rw [hrouting] at hstands
      cases hstands with
      | routing hleft =>
        refine ⟨rfl, ?_, halive, hroutes, hsessions⟩
        rw [hin, hleft]
        rfl
    | holding r item hreader | done hreader => exact nomatch hrouting.symm.trans hreader
  generalize u.observe .route = log at hcases
  cases hcases with
  | skipped m payload hreader hskip =>
    obtain ⟨-, hin, halive, hroutes, hsessions⟩ := hframe m payload hreader
    exact .done rfl hin ⟨halive, fun _ _ => congrArg _ hroutes, fun _ _ => congrArg _ hsessions⟩
  | ended m payload r hreader hstatus hfree hroute =>
    obtain ⟨rfl, hin, halive, hroutes, hsessions⟩ := hframe m payload hreader
    refine .holding r _ rfl hin halive (by rw [← hroutes]; exact hroute) ?_ hsessions
    show u.routes.erase f.id = _
    rw [hroutes]
  | cloned m bytes r hreader hnot hstatus hfree hroute =>
    obtain ⟨rfl, -⟩ := hframe m (some bytes) hreader
    exact absurd hend hstatus

theorem Handling.deliver (hstep : u.step .deliver = some v) : Handling s f rest v := by
  have hcases := recv_step hstep
  cases hcases with
  | delivered r item hreader =>
    cases h with
    | reading left hin hstands hnot halive hroutes hsessions =>
      exact absurd hreader (hnot r item)
    | holding r' item' hreader' hin halive hroute hroutes hsessions =>
      rw [hreader] at hreader'
      cases hreader'
      refine .done rfl hin ⟨halive, fun other hne => ?_, fun key hother => ?_⟩
      · show u.routes.lookup other = _
        rw [hroutes, AList.lookup_erase_ne hne]
      · show (Mux.trySend r.sender item u.sessions).lookup key = _
        rw [Mux.lookup_trySend_other (fun heq => hother r hroute heq.symm), hsessions]
    | done hreader' => exact nomatch hreader.symm.trans hreader'

/-- **A step of the reader on an END frame** touches nothing but its session. -/
theorem Handling.step {a : RecvAction}
    (hend : f.metadata.status = statusEnd) (hok : ReaderStep rest u a)
    (hstep : u.step a = some v) : Handling s f rest v := by
  cases a with
  | read n => exact h.read hok hstep
  | route => exact h.route hend hstep
  | deliver => exact h.deliver hstep
  | swap c | take c | tell c | failed c =>
    cases c <;> first | exact absurd hok h.not_stopped | exact hok.elim
  | _ => exact hok.elim

end

theorem Stands.waits {p : Phase} {left : List Byte} (h : Stands p left [f])
    (hnot : ∀ r item, p ≠ .delivering r item) :
    (p = .routing f.metadata f.payload ∧ left = []) ∨ (0 < p.wants ∧ left ≠ []) := by
  have hmore : ∀ {got whole tail : List Byte}, got ++ left = whole ++ tail →
      got.length < whole.length → left ≠ [] := by
    rintro got whole tail heq hlt rfl
    have hlength := congrArg List.length heq
    rw [length_append, length_append, length_nil] at hlength
    omega
  cases h with
  | length hlength heq =>
    rw [stream_cons] at heq
    exact .inr ⟨Nat.sub_pos_of_lt hlength, hmore heq (by rwa [length_be16])⟩
  | header hlength heq | payload hpayload hlength heq =>
    exact .inr ⟨Nat.sub_pos_of_lt hlength, hmore heq hlength⟩
  | payloadLength hpayload hlength heq =>
    exact .inr ⟨Nat.sub_pos_of_lt hlength, hmore heq (by rwa [length_be16])⟩
  | routing heq => exact .inl ⟨rfl, heq⟩
  | delivering heq => exact absurd rfl (hnot _ _)

theorem reads_through {left : List Byte} (hin : u.inbound = left ++ rest)
    (hstands : Stands u.reader left [f]) (hnot : ∀ r item, u.reader ≠ .delivering r item) :
    Processes rest u { u with inbound := rest, reader := .routing f.metadata f.payload } := by
  induction left generalizing u with
  | nil =>
    rcases hstands.waits hnot with ⟨hreader, -⟩ | ⟨-, hne⟩
    · rw [← hreader, ← nil_append rest, ← hin]
      exact .refl
    · exact absurd rfl hne
  | cons b left ih =>
    rcases hstands.waits hnot with ⟨-, hnil⟩ | ⟨hwants, -⟩
    · cases hnil
    have hfirst : Stands u.reader ([b] ++ left) [f] := hstands
    obtain ⟨p, hp, hstands'⟩ := hfirst.feed one_pos hwants
    have hstep : u.step (.read 1) = some { u with inbound := left ++ rest, reader := p } := by
      have hle : 1 ≤ u.inbound.length := by
        rw [hin]
        exact Nat.succ_pos _
      have htake : u.inbound.take 1 = [b] := by rw [hin]; rfl
      have hdrop : u.inbound.drop 1 = left ++ rest := by rw [hin]; rfl
      simp only [Demux.step, Demux.read, htake, hdrop, hp]
      rw [if_neg (by omega)]
    have hok : ReaderStep rest u (.read 1) := by
      show rest.length + 1 ≤ u.inbound.length
      rw [hin, length_append, length_cons]
      omega
    exact .head ⟨_, hok, hstep⟩ (ih rfl
      hstands' (feed_ne_delivering hnot hp))

/-- **An END frame is processed to its end**, unless a `session` call holds the route table:
the reader gets back to the top of its loop, and the route is gone. -/
theorem closing_frame_is_processed {f : ClosingFrame} (hplain : f.error = false)
    (hidle : s.reader = .idle) (hin : s.inbound = f.bytes ++ rest) (hfree : s.lock = none) :
    ∃ t, Processes rest s t ∧ t.reader = .idle ∧ t.inbound = rest ∧
      t.routes.lookup f.frame.id = none := by
  have hstands : Stands s.reader f.bytes [f.frame] := by
    rw [hidle, f.bytes_plain hplain]
    exact stands_idle _
  have hnot : ∀ r item, s.reader ≠ .delivering r item :=
    fun r item hreader => nomatch hidle.symm.trans hreader
  have hreads := reads_through hin hstands hnot
  have hend := f.status_plain hplain
  have hkeepalive : f.frame.metadata.status ≠ statusKeepalive := by
    rw [hend]
    decide
  cases hroute : s.routes.lookup f.frame.id with
  | none =>
    refine ⟨{ s with inbound := rest, reader := .idle },
      hreads.tail ⟨.route, trivial, ?_⟩, rfl, rfl, hroute⟩
    have hlookup : s.routes.lookup f.frame.metadata.id = none := hroute
    simp only [receiver, Demux.step, Demux.route, if_neg hkeepalive, hfree, ne_eq, not_true,
      if_false, hlookup]
  | some r =>
    have hlookup : s.routes.lookup f.frame.metadata.id = some r := hroute
    have hrouted : Processes rest s { s with
        inbound := rest
        routes := s.routes.erase f.frame.id
        reader := .delivering r (.error "XUDP session ended") } := by
      refine hreads.tail ⟨.route, trivial, ?_⟩
      simp only [receiver, Demux.step, Demux.route, if_neg hkeepalive, hfree, ne_eq, not_true,
        if_false, hlookup, if_pos hend]
      rfl
    exact ⟨_, hrouted.tail ⟨.deliver, trivial, rfl⟩, rfl, rfl, AList.lookup_erase _ _⟩

end

/-! ## Frames with the error option -/

section

variable {s : Demux} {f : ClosingFrame} {rest : List Byte}

theorem read_whole {n : Nat} {whole tail : List Byte} (hpos : 0 < n) (hwants : s.reader.wants = n)
    (hin : s.inbound = whole ++ tail) (hlength : whole.length = n) :
    (∀ p, s.reader.feed whole = .ok p →
        s.step (.read n) = some { s with inbound := tail, reader := p }) ∧
      ∀ message, s.reader.feed whole = .error message →
        s.step (.read n) = some ({ s with inbound := tail }.readerFails message) := by
  have htake : s.inbound.take n = whole := by rw [hin, take_left' hlength]
  have hdrop : s.inbound.drop n = tail := by rw [hin, drop_left' hlength]
  have hle : n ≤ s.inbound.length := by
    rw [hin, length_append]
    omega
  constructor
  · intro p hp
    simp only [Demux.step, Demux.read, htake, hdrop, hp]
    rw [if_neg (by omega)]
  · intro message hmessage
    simp only [Demux.step, Demux.read, htake, hdrop, hmessage]
    rw [if_neg (by omega)]

theorem swap_readerFails (message : String) (halive : s.alive) :
    ∃ t, (s.readerFails message).step (.swap .reader) = some t ∧ t.alive = false := by
  refine ⟨{ s.readerFails message with
    alive := false
    fails := (s.readerFails message).fails.insert .reader ⟨message, .swapped⟩ }, ?_, rfl⟩
  exact if_pos halive

/-- The reader of a rejecting frame ends up in `fail_multiplexer`, and the multiplexer is
dead. -/
theorem rejected_kills (herror : f.error) (hidle : s.reader = .idle)
    (hin : s.inbound = f.bytes ++ rest) (halive : s.alive) :
    ∃ t, Processes rest s t ∧ t.alive = false := by
  have hheader : f.header.length = f.frame.address.length + 4 := f.frame.length_headerWith _
  have hok := f.frame.length_ok
  have hmax : maxMetadata = 512 := rfl
  have hsplit : s.inbound = be16 f.header.length ++ (f.header ++ (f.frame.body ++ rest)) := by
    rw [hin, ClosingFrame.bytes, InboundFrame.bytesWith, append_assoc]
    rfl
  -- the length field
  have hnumber : Phase.idle.feed (be16 f.header.length) = .ok (.header f.header.length []) := by
    rw [feed_complete rfl]
    have hvalue : fromBe ([] ++ be16 f.header.length) = f.header.length :=
      fromBe_be16 (by omega)
    simp only [Phase.idle, Phase.append, Phase.complete, hvalue]
    rw [if_neg (by omega)]
  have hlength : s.step (.read 2) = some { s with
      inbound := f.header ++ (f.frame.body ++ rest)
      reader := .header f.header.length [] } :=
    (read_whole (by decide) (by rw [hidle]; rfl) hsplit (length_be16 _)).1 _ (by rwa [hidle])
  -- the metadata
  have hrefuse : (Phase.header f.header.length []).feed f.header =
      .error "XUDP peer rejected session" := by
    rw [feed_complete (Nat.sub_self _)]
    show (multiplexedMetadata f.header >>= _) = _
    rw [f.multiplexedMetadata_header herror]
    rfl
  have hrest : Demux.inbound { s with
      inbound := f.header ++ (f.frame.body ++ rest)
      reader := .header f.header.length [] } = f.header ++ (f.frame.body ++ rest) := rfl
  have hmetadata := (read_whole (show 0 < f.header.length by omega) rfl hrest rfl).2 _ hrefuse
  obtain ⟨t, hswap, hdead⟩ := swap_readerFails
    (s := { s with inbound := f.frame.body ++ rest, reader := .header f.header.length [] })
    "XUDP peer rejected session" halive
  have hfirst : ReaderStep rest s (.read 2) := by
    show rest.length + 2 ≤ s.inbound.length
    rw [hsplit, length_append, length_append, length_append]
    omega
  have hsecond : ReaderStep rest { s with
      inbound := f.header ++ (f.frame.body ++ rest)
      reader := .header f.header.length [] } (.read f.header.length) := by
    show rest.length + f.header.length ≤ (f.header ++ (f.frame.body ++ rest)).length
    rw [length_append, length_append]
    omega
  have hthird : ReaderStep rest (Demux.readerFails
      { s with inbound := f.frame.body ++ rest, reader := .header f.header.length [] }
      "XUDP peer rejected session") (.swap .reader) := rfl
  exact ⟨t, ((Relation.ReflTransGen.single ⟨_, hfirst, hlength⟩).tail
    ⟨_, hsecond, hmetadata⟩).tail ⟨_, hthird, hswap⟩, hdead⟩

end

/-- **A rejection stays with its session** exactly when it comes without the error option:
from any state in which the reader is about to read the frame and the multiplexer is alive,
whatever the reader does on the frame. -/
theorem rejection_stays_local_iff (s : Demux) (f : ClosingFrame) (rest : List Byte)
    (hidle : s.reader = .idle) (hin : s.inbound = f.bytes ++ rest) (halive : s.alive = true) :
    (∀ t, Processes rest s t → Unaffected s f.frame.id t) ↔ f.error = false := by
  constructor
  · intro hlocal
    by_contra herror
    obtain ⟨t, ht, hdead⟩ := rejected_kills (Bool.eq_true_of_not_eq_false herror) hidle hin halive
    have hstill := (hlocal t ht).alive
    rw [hdead, halive] at hstill
    cases hstill
  · intro hplain t ht
    have hstart : Handling s f.frame rest s := by
      refine .reading f.bytes hin ?_ (fun r item hreader => ?_) rfl rfl rfl
      · rw [hidle, f.bytes_plain hplain]
        exact stands_idle _
      · cases hidle.symm.trans hreader
    exact (ht.invariant hstart fun h hok hstep =>
      h.step (f.status_plain hplain) hok hstep).unaffected

end

/-- An END frame for the session under id 0. -/
def endingFrame (error : Bool) : @ClosingFrame .namesOnly :=
  letI : IpText := .namesOnly
  { frame := closeFrame 0
    error := error
    closes := .inl rfl }

/-- Two sessions, the second with a packet in its queue, and the frame on its way. -/
def twoSessions (error : Bool) : Demux :=
  { Demux.new (@ClosingFrame.bytes .namesOnly (endingFrame error)) with
    nextId := 2
    fresh := 2
    routes := ((∅ : Table UInt16 Route).insert 1 ⟨⟨['b'], 53⟩, 1⟩).insert 0 ⟨⟨['a'], 53⟩, 0⟩
    sessions := ((∅ : Table Nat MuxSession).insert 1
        ⟨1, ⟨['b'], 53⟩, none, ⟨true, true⟩, none, [.ok (⟨['b'], 53⟩, [7])]⟩).insert 0
      ⟨0, ⟨['a'], 53⟩, none, ⟨true, true⟩, none, []⟩ }

theorem rejection_stays_local_ended :
    ∃ t, @Processes .namesOnly [] (twoSessions false) t ∧ t.reader = .idle ∧ t.alive = true ∧
      t.routes.lookup 0 = none ∧ t.routes.lookup 1 = some ⟨⟨['b'], 53⟩, 1⟩ ∧
      t.sessions.lookup 1 =
        some ⟨1, ⟨['b'], 53⟩, none, ⟨true, true⟩, none, [.ok (⟨['b'], 53⟩, [7])]⟩ := by
  obtain ⟨t, ht, hidle, -, hgone⟩ := @closing_frame_is_processed .namesOnly (twoSessions false) []
    (endingFrame false) rfl rfl rfl rfl
  have hlocal := (@rejection_stays_local_iff .namesOnly (twoSessions false) (endingFrame false) []
    rfl rfl rfl).mpr rfl t ht
  refine ⟨t, ht, hidle, hlocal.alive, hgone, (hlocal.routes 1 (by decide)).trans rfl,
    (hlocal.sessions 1 ?_).trans rfl⟩
  intro r hr
  cases hr
  decide

/-- The same frame with the error option ends every session: the multiplexer is dead. -/
theorem rejection_kills_multiplexer :
    ∃ t, @Processes .namesOnly [] (twoSessions true) t ∧ (twoSessions true).alive = true ∧
      t.alive = false ∧ ¬ Unaffected (twoSessions true) 0 t := by
  obtain ⟨t, ht, hdead⟩ := @rejected_kills .namesOnly (twoSessions true) (endingFrame true) []
    rfl rfl rfl rfl
  refine ⟨t, ht, rfl, hdead, fun hlocal => ?_⟩
  have hstill := hlocal.alive
  rw [hdead] at hstill
  cases hstill

end ClashMeta.Xudp
