import ClashMeta.Protocol.Xudp.Failure
import ClashMeta.Protocol.Xudp.Mailbox
import ClashMeta.Protocol.Xudp.Routes

/-!
# Delivery is exact

The receive side of the multiplexer against the mailboxes of its sessions: one step
keeps the agreement (`mailInv_step`), the frames looked up are the frames on the wire
(`wireInv_step`), and `demux_exact` puts both together for whole runs.
-/

namespace ClashMeta.Xudp

open List Table Bool InboundFrame

variable {s s' : Demux} {log : List Event}

/-! ## One step -/

/-- A reader that wants bytes delivers nothing. -/
theorem not_delivering_of_wants {p : Phase} (h : p.wants ≠ 0) (r : Route) (item : RoutedPacket) :
    p ≠ .delivering r item := by
  rintro rfl
  exact h rfl

variable {fails : Table Caller Failure}

/-- The reader moves on without anything in hand. -/
theorem MailInv.moved (hinv : MailInv s log) {log' : List Event}
    (hbox : ∀ k, mailbox k log' = mailbox k log) (htaken : ∀ k, takenBy k log' = takenBy k log)
    (hbefore : ∀ r item, s.reader ≠ .delivering r item) {p : Phase}
    (hafter : ∀ r item, p ≠ .delivering r item) {inbound : List Byte}
    (hfails : ∀ c f routes, fails.lookup c = some f → f.stage = .telling routes →
      s.fails.lookup c = some f) :
    MailInv { s with reader := p, inbound := inbound, fails := fails } log' :=
  hinv.quiet hbox htaken rfl
    (fun r item => ⟨fun h => absurd h (hafter r item), fun h => absurd h (hbefore r item)⟩)
    (fun _ => rfl) hfails (fun _ c hc => .inl ⟨c, hc⟩) le_rfl

/-- A step that changes nothing but the calls of `session`. -/
theorem MailInv.ofCalls (hinv : MailInv s log) {lock : Option Nat} {calls : Table Nat SessionCall}
    {fresh : Nat}
    (hcalls : ∀ k c, calls.lookup k = some c →
      (∃ c', s.calls.lookup k = some c') ∨ k = s.fresh ∧ s.fresh < fresh)
    (hfresh : s.fresh ≤ fresh) :
    MailInv { s with lock := lock, calls := calls, fresh := fresh } (log ++ []) := by
  rw [append_nil]
  exact hinv.quiet (fun _ => rfl) (fun _ => rfl) rfl (fun _ _ => .rfl) (fun _ => rfl)
    (fun _ _ _ hf _ => hf) hcalls hfresh

/-- A call that goes on is one that was there. -/
theorem known_of_insert {calls : Table Nat SessionCall} {key k : Nat} {c c₁ c₂ : SessionCall}
    (hcall : calls.lookup key = some c) (h : (calls.insert key c₁).lookup k = some c₂) :
    ∃ c', calls.lookup k = some c' := by
  obtain ⟨rfl, -⟩ | ⟨-, h⟩ := lookup_insert_cases h
  · exact ⟨c, hcall⟩
  · exact ⟨c₂, h⟩

/-- A step that changes nothing but the flags and the failing calls, and brings no route to
tell. -/
theorem MailInv.ofFails (hinv : MailInv s log) {alive held : Bool}
    (hfails : ∀ c f routes, fails.lookup c = some f → f.stage = .telling routes →
      s.fails.lookup c = some f) :
    MailInv { s with alive := alive, held := held, fails := fails } (log ++ []) := by
  rw [append_nil]
  exact hinv.quiet (fun _ => rfl) (fun _ => rfl) rfl (fun _ _ => .rfl) (fun _ => rfl) hfails
    (fun _ c hc => .inl ⟨c, hc⟩) le_rfl

/-- A failing call that tells nobody yet brings no route to tell. -/
theorem not_telling_insert {c c' : Caller} {f f' : Failure} {routes : List Route}
    (hstage : f.stage = .called ∨ f.stage = .swapped) (h : (fails.insert c f).lookup c' = some f')
    (hstage' : f'.stage = .telling routes) : fails.lookup c' = some f' := by
  obtain ⟨-, rfl⟩ | ⟨-, h⟩ := lookup_insert_cases h
  · rcases hstage with hstage | hstage <;> cases hstage.symm.trans hstage'
  · exact h

/-- **One step keeps the agreement** when a dropped session finds its own route only. -/
theorem mailInv_step [IpText] {a : RecvAction} {shown : List Event} (hinv : MailInv s log)
    (hok : DropsOwn (s, log) a) (h : RecvStep s a s' shown) : MailInv s' (log ++ shown) := by
  have hnil : ∀ k, mailbox k (log ++ []) = mailbox k log := fun k => by rw [append_nil]
  have htaken : ∀ k, takenBy k (log ++ []) = takenBy k log := fun k => by rw [append_nil]
  cases h with
  | refused _ _ _ => exact (append_nil log).symm ▸ hinv
  | entered target globalId _ =>
    refine hinv.ofCalls (fun k c hc => ?_) (Nat.le_succ _)
    obtain ⟨rfl, -⟩ | ⟨-, hc⟩ := lookup_insert_cases hc
    · exact .inr ⟨rfl, lt_add_one _⟩
    · exact .inl ⟨c, hc⟩
  | locked key c hcall _ _ | allowed key c hcall _ _ =>
    exact hinv.ofCalls (fun _ _ hc => .inl (known_of_insert hcall hc)) le_rfl
  | turnedAway key c _ _ _ | exhausted key c _ _ _ =>
    exact hinv.ofCalls (fun k c hc => .inl ⟨c, (lookup_erase_some hc).2⟩) le_rfl
  | registered key c id hcall _ hid =>
    -- the id was free, so no other mailbox loses its route
    obtain ⟨i, -, -, hfree, -⟩ := nextFree_eq_some_iff.mp hid
    exact hinv.registered hcall (AList.lookup_eq_none.mpr hfree)
  | dropped key m hm _ => exact hinv.dropped hm fun r hr => hok key m r rfl hm hr
  | received key m item rest hm hqueue => exact hinv.received hm hqueue
  | closed key m hm hqueue =>
    refine hinv.quiet hnil htaken rfl (fun _ _ => .rfl) ?_ (fun _ _ _ hf _ => hf)
      (fun _ c hc => .inl ⟨c, hc⟩) le_rfl
    -- a receiver that is closed again keeps its queue
    intro k
    rw [lookup_insert_if, ← hqueue]
    split
    · rename_i heq
      rw [heq, hm]
    · rfl
  | called key message _ | muxDropped _ _ _ =>
    exact hinv.ofFails fun _ _ _ => not_telling_insert (.inl rfl)
  | swapped c f _ _ _ => exact hinv.ofFails fun _ _ _ => not_telling_insert (.inr rfl)
  | late c f _ _ _ => exact hinv.ofFails fun _ _ _ hf _ => (lookup_erase_some hf).2
  | swept c f _ _ _ => exact hinv.swept
  | told c f r rest hfail hstage => exact hinv.told hfail hstage
  | failed c f _ _ =>
    exact hinv.quiet (fun _ => mailbox_snoc)
      (fun k => by rw [takenBy_append]; exact append_nil _) rfl (fun _ _ => .rfl)
      (fun _ => rfl) (fun _ _ _ hf _ => (lookup_erase_some hf).2)
      (fun _ c hc => .inl ⟨c, hc⟩) le_rfl
  | fed n p hpos hwants _ hfeed =>
    have hbefore := not_delivering_of_wants (p := s.reader) (by omega)
    exact hinv.moved hnil htaken hbefore (feed_ne_delivering hbefore hfeed)
      (fun _ _ _ hf _ => hf)
  | malformed n message hpos hwants _ _ =>
    exact hinv.moved (p := .stopped) hnil htaken (not_delivering_of_wants (by omega)) nofun
      (fun _ _ _ hf hstage => not_telling_insert (.inl rfl) hf hstage)
  | readError message hwants =>
    exact hinv.moved (p := .stopped) hnil htaken (not_delivering_of_wants hwants) nofun
      (fun _ _ _ hf hstage => not_telling_insert (.inl rfl) hf hstage)
  | skipped m payload hreader hskip =>
    exact hinv.moved (p := .idle) (hinv.mailbox_skipped hskip)
      (fun _ => takenBy_snoc fun _ => nofun) (by rw [hreader]; exact fun _ _ => nofun) nofun
      (fun _ _ _ hf _ => hf)
  | ended m payload r hreader hstatus _ hroute => exact hinv.ended hreader hstatus hroute
  | cloned m bytes r hreader hkeepalive hstatus _ hroute =>
    exact hinv.cloned hreader hkeepalive hstatus hroute
  | delivered r item hreader => exact hinv.delivered hreader
  | aborted _ hreader =>
    exact hinv.moved (p := .stopped) hnil htaken hreader nofun (fun _ _ _ hf _ => hf)

/-! ## What agreement means for one session -/

/-- A session's queue is what its mailbox says: what `recv` has taken and what waits is
everything that passed, only what the reader holds is still on its way, and after its
END an empty queue gives an error. -/
structure Exact (s : Demux) (log : List Event) (k : Nat) (m : MuxSession) : Prop where
  queue : takenBy k log ++ m.receiver = (mailbox k log).passed
  hand : ∀ item, (mailbox k log).hand = some item ↔ ∃ t, s.reader = .delivering ⟨t, k⟩ item
  ends : (mailbox k log).route = none → (mailbox k log).hand = none →
    (mailbox k log).noticed = false → m.receiver = [] →
    s.recv k = some (.error "XUDP multiplexer closed")

/-- Agreement is exactness for every session. -/
theorem MailInv.exact (hinv : MailInv s log) {k : Nat} {m : MuxSession}
    (hm : s.sessions.lookup k = some m) : Exact s log k m := by
  constructor
  · exact ((hinv k).queue m hm).1
  · exact (hinv k).hand
  · intro hroute hhand hnoticed hempty
    refine recv_of_no_sender hm hempty ?_
    rintro (⟨id, ⟨t, _⟩, hr, rfl⟩ | ⟨⟨t, _⟩, item, hr, rfl⟩ |
      ⟨c, f, routes, hf, hstage, r, hr, rfl⟩)
    · rw [((hinv _).route id t).mpr hr] at hroute
      cases hroute
    · rw [((hinv _).hand item).mpr ⟨t, hr⟩] at hhand
      cases hhand
    · rw [(hinv _).notice ⟨c, f, routes, hf, hstage, r, hr, rfl⟩] at hnoticed
      cases hnoticed

/-! ## The frames on the wire -/

section

variable [IpText]

/-- What the reader looks up of a frame. -/
def InboundFrame.content (f : InboundFrame) : Metadata × Option (List Byte) :=
  (f.metadata, f.payload)

/-- The frames looked up are the first of those sent, and the reader stands at the
rest. -/
def WireInv (frames : List InboundFrame) (s : Demux) (log : List Event) : Prop :=
  ∃ rest : List InboundFrame,
    framesOf log ++ rest.map InboundFrame.content = frames.map InboundFrame.content ∧
      (s.reader = .stopped ∨ Stands s.reader s.inbound rest)

/-- At first the reader stands before all frames. -/
theorem wireInv_new (frames : List InboundFrame) : WireInv frames (Demux.new (stream frames)) [] :=
  ⟨frames, rfl, .inr (stands_idle frames)⟩

variable {frames : List InboundFrame}

section

variable (hinv : WireInv frames s log)

include hinv

/-- Steps of others. -/
theorem WireInv.keep {shown : List Event} (hshown : framesOf shown = [])
    (hreader : s'.reader = s.reader)
    (hinbound : s'.inbound = s.inbound) : WireInv frames s' (log ++ shown) := by
  obtain ⟨rest, hrest, hstands⟩ := hinv
  refine ⟨rest, ?_, ?_⟩
  · rw [framesOf_append, hshown, append_nil]
    exact hrest
  · rw [hreader, hinbound]
    exact hstands

/-- A reader that has stopped. -/
theorem WireInv.stop (hreader : s'.reader = .stopped) : WireInv frames s' (log ++ []) := by
  obtain ⟨rest, hrest, -⟩ := hinv
  rw [append_nil]
  exact ⟨rest, hrest, .inl hreader⟩

/-- A frame is looked up. -/
theorem WireInv.frame {m : Metadata} {payload : Option (List Byte)}
    (hreader : s.reader = .routing m payload)
    (hnext : ∀ rest, s.inbound = stream rest → Stands s'.reader s'.inbound rest) :
    WireInv frames s' (log ++ [.frame m payload]) := by
  obtain ⟨rest, hrest, hstopped | hstands⟩ := hinv
  · rw [hreader] at hstopped
    cases hstopped
  · rw [hreader] at hstands
    generalize hp : Phase.routing m payload = p at hstands
    cases hstands with
    | @routing _ f rest h =>
      cases hp
      refine ⟨rest, ?_, .inr (hnext rest h)⟩
      rw [framesOf_append, ← hrest, append_assoc]
      rfl
    | _ => cases hp

/-- A piece of the stream is read. -/
theorem WireInv.feed {n : Nat} (hpos : 0 < n)
    (hwants : n ≤ s.reader.wants) (hlength : n ≤ s.inbound.length) :
    ∃ rest p, framesOf log ++ rest.map content = frames.map content ∧
      s.reader.feed (s.inbound.take n) = .ok p ∧ Stands p (s.inbound.drop n) rest := by
  obtain ⟨rest, hrest, hstopped | hstands⟩ := hinv
  · rw [hstopped] at hwants
    exact absurd hwants (not_le.mpr hpos)
  · rw [← take_append_drop n s.inbound] at hstands
    have htake : (s.inbound.take n).length = n := length_take_of_le hlength
    obtain ⟨p, hp, hstands⟩ := hstands.feed (by omega) (by omega)
    exact ⟨rest, p, hrest, hp, hstands⟩

/-- **One step keeps the reader on the wire.** -/
theorem wireInv_step {a : RecvAction} {shown : List Event}
    (h : RecvStep s a s' shown) : WireInv frames s' (log ++ shown) := by
  cases h with
  | fed n p hpos hwants hlength hfeed =>
    obtain ⟨rest, p', hrest, hp', hstands⟩ := hinv.feed hpos hwants hlength
    rw [hfeed] at hp'
    cases hp'
    rw [append_nil]
    exact ⟨rest, hrest, .inr hstands⟩
  | malformed n message hpos hwants hlength hfeed =>
    -- a stream of well-formed frames gives no error
    obtain ⟨rest, p', -, hp', -⟩ := hinv.feed hpos hwants hlength
    rw [hfeed] at hp'
    cases hp'
  | readError _ _ | aborted _ _ => exact hinv.stop rfl
  | skipped m payload hreader _ =>
    exact hinv.frame hreader fun rest h => h ▸ stands_idle rest
  | ended _ _ _ hreader _ _ _ | cloned _ _ _ hreader _ _ _ _ =>
    exact hinv.frame hreader fun rest h => .delivering h
  | delivered r item hreader =>
    obtain ⟨rest, hrest, hstopped | hstands⟩ := hinv
    · rw [hreader] at hstopped
      cases hstopped
    · rw [hreader] at hstands
      refine ⟨rest, ?_, .inr ?_⟩
      · rw [framesOf_append, ← hrest]
        exact congrArg (· ++ rest.map content) (append_nil _)
      · generalize hp : Phase.delivering r item = p at hstands
        cases hstands with
        | delivering h => exact h ▸ stands_idle rest
        | _ => cases hp
  -- the other steps leave the reader where it is
  | _ => exact hinv.keep rfl rfl rfl

/-- No read of well-formed frames stops the reader. -/
theorem WireInv.read_goes_on {n : Nat}
    (hstep : s.step (.read n) = some s') : s'.reader ≠ .stopped := by
  have hread := recv_step hstep
  cases hread with
  | fed _ p hpos hwants hlength hfeed =>
    obtain ⟨rest, p', -, hp', hstands⟩ := hinv.feed hpos hwants hlength
    rw [hfeed] at hp'
    cases hp'
    intro hstopped
    rw [show p = .stopped from hstopped] at hstands
    cases hstands
  | malformed _ _ hpos hwants hlength hfeed =>
    obtain ⟨rest, p', -, hp', -⟩ := hinv.feed hpos hwants hlength
    rw [hfeed] at hp'
    cases hp'

/-- Every frame sent has been looked up once the reader is idle at the end of the
stream. -/
theorem WireInv.all_looked_up (hreader : s.reader = .idle)
    (hinbound : s.inbound = []) : framesOf log = frames.map content := by
  obtain ⟨rest, hrest, hstopped | hstands⟩ := hinv
  · rw [hreader] at hstopped
    cases hstopped
  · rw [hreader, hinbound] at hstands
    generalize hp : Phase.idle = p at hstands
    cases hstands with
    | @length got _ _ _ h =>
      cases hp
      cases rest with
      | nil => rwa [map_nil, append_nil] at hrest
      | cons f rest =>
        cases h
    | _ => cases hp

end

/-! ## The guarantee -/

/-- A frame for an id without a route is passed over. -/
theorem route_unregistered {m : Metadata} {payload : Option (List Byte)}
    (hreader : s.reader = .routing m payload) (hnone : s.routes.lookup m.id = none)
    (h : s.step .route = some s') : s' = { s with reader := .idle } := by
  have hstep := recv_step h
  generalize s.observe .route = shown at hstep
  cases hstep with
  | skipped _ _ _ _ => rfl
  | ended m' _ r hreader' _ _ hroute | cloned m' _ r hreader' _ _ _ hroute =>
    rw [hreader] at hreader'
    cases hreader'
    rw [hnone] at hroute
    cases hroute

/-- **Delivery is exact**: for every stream of well-formed frames, every fragmentation
and every interleaving in which a dropped session finds only its own route under its
id, the frames are looked up in wire order, none is refused and none is left out, every
session sees exactly what its mailbox holds, and a frame for an unregistered id changes
nothing. -/
theorem demux_exact {frames : List InboundFrame}
    (h : (demuxSystem (stream frames)).Reaches DropsOwn (Demux.new (stream frames), [])
      (s, log)) :
    framesOf log <+: frames.map content ∧
    (s.reader = .idle → s.inbound = [] → framesOf log = frames.map content) ∧
    (∀ n s', s.step (.read n) = some s' → s'.reader ≠ .stopped) ∧
    (∀ k m, s.sessions.lookup k = some m → Exact s log k m) ∧
    ∀ m payload s', s.reader = .routing m payload → s.routes.lookup m.id = none →
      s.step .route = some s' → s' = { s with reader := .idle } := by
  have hinv : MailInv s log ∧ WireInv frames s log := by
    refine h.invariant (I := fun p => MailInv p.1 p.2 ∧ WireInv frames p.1 p.2)
      ⟨mailInv_new _, wireInv_new frames⟩ ?_
    intro p q a hinv hok hstep
    obtain ⟨hstep, hlog⟩ := Lts.recorded_step_iff.mp hstep
    rw [hlog]
    exact ⟨mailInv_step hinv.1 hok (recv_step hstep), wireInv_step hinv.2 (recv_step hstep)⟩
  obtain ⟨hmail, hwire⟩ := hinv
  refine ⟨?_, hwire.all_looked_up, ?_, fun k m hm => hmail.exact hm, ?_⟩
  · obtain ⟨rest, hrest, -⟩ := hwire
    exact ⟨_, hrest⟩
  · intro n s' hstep
    exact hwire.read_goes_on hstep
  · intro m payload s' hreader hnone hstep
    exact route_unregistered hreader hnone hstep

end

/-! ## Concrete runs -/

/-- A KEEP frame with one byte of payload and no address. -/
def keepFrame [IpText] (id : UInt16) (byte : Byte) : InboundFrame where
  id := id
  status := statusKeep
  address := []
  target := none
  payload := some [byte]
  status_ok := .inl rfl
  address_ok := .inl ⟨rfl, rfl⟩
  length_ok := bare_length_ok
  keepalive_ok := fun h => absurd h (by decide)
  payload_ok := by
    intro bytes h
    cases h
    show 1 ≤ 65507
    decide

/-- A packet for the second session, one for an id that nobody has, one for the first session. -/
def twoFrames [IpText] : List InboundFrame := [keepFrame 1 9, keepFrame 5 0, keepFrame 0 7]

/-- Two sessions; the first packet is cut in the middle of its header, and the second session
goes when it has it. -/
def bothServed : List RecvAction :=
  [.call ⟨['a'], 53⟩ none, .lockRoutes 0, .check 0, .register 0,
    .call ⟨['b'], 53⟩ none, .lockRoutes 1, .check 1, .register 1,
    .read 1, .read 1, .read 3, .read 1, .read 2, .read 1, .route, .deliver, .recv 1,
    .read 2, .read 4, .read 2, .dropSession 1, .read 1, .route,
    .read 2, .read 4, .read 2, .read 1, .route, .deliver, .recv 0]

attribute [local instance] IpText.namesOnly

/-- Each session receives its own packet, and the one that nobody has ordered is passed over. -/
theorem demux_exact_twoSessions :
    ∃ s log, (demuxSystem (stream twoFrames)).Reaches
        DropsOwn (Demux.new (stream twoFrames), []) (s, log) ∧
      takenBy 0 log = [.ok (⟨['a'], 53⟩, [7])] ∧ takenBy 1 log = [.ok (⟨['b'], 53⟩, [9])] ∧
      framesOf log = twoFrames.map content := by
  obtain ⟨⟨s, log⟩, hs, htest⟩ := Lts.run_any
    (M := demuxSystem (stream twoFrames))
    (s := (Demux.new (stream twoFrames), []))
    (fun p => decide (takenBy 0 p.2 = [.ok (⟨['a'], 53⟩, [7])] ∧
      takenBy 1 p.2 = [.ok (⟨['b'], 53⟩, [9])]) && p.1.inbound.isEmpty && p.1.reader.isIdle)
    bothServed (show (Lts.run _ DropsOwn _ _).any _ = true by decide +kernel)
  rw [and_eq_true, and_eq_true] at htest
  obtain ⟨⟨htaken, hinbound⟩, hreader⟩ := htest
  have htaken := of_decide_eq_true htaken
  have hidle : s.reader = .idle := Phase.isIdle_iff.mp hreader
  exact ⟨s, log, hs, htaken.1, htaken.2,
    (demux_exact hs).2.1 hidle (isEmpty_iff.mp hinbound)⟩

/-- The stream of the failing run: the first session is ended, and a packet for the
same id follows. -/
def reusedFrames [IpText] : List InboundFrame := [closeFrame 0, keepFrame 0 7]

/-- A live session 0 with id 0 that the peer has ended; the counter stands at `id`, and
the packet is still to come. -/
def endedFirst (id : UInt16) (n : Nat) : Demux :=
  { Demux.new (stream [keepFrame 0 7]) with
    nextId := id
    fresh := n + 1
    sessions := (∅ : Table Nat MuxSession).insert 0
      ⟨0, ⟨['a'], 53⟩, none, ⟨true, true⟩, none, [.error "XUDP session ended"]⟩ }

/-- Another session is opened and dropped. -/
def openDrop (n : Nat) : List RecvAction :=
  [.call ⟨['a'], 53⟩ none, .lockRoutes (n + 1), .check (n + 1), .register (n + 1),
    .dropSession (n + 1)]

/-- Another session moves the counter, and nothing else. -/
theorem run_openDrop (inbound : List Byte) (id : UInt16) (n : Nat) (log : List Event) :
    (demuxSystem inbound).run Lts.anyStep (endedFirst id n, log) (openDrop n) =
      some (endedFirst (id + 1) (n + 1),
        log ++ [.registered (n + 1) id ⟨['a'], 53⟩, .dropped (n + 1)]) := by
  have hkey : n + 1 ≠ 0 := Nat.succ_ne_zero n
  simp [openDrop, Lts.run, Lts.anyStep, demuxSystem, Lts.recorded, Demux.step, Demux.observe,
    endedFirst, Demux.new, Demux.call, Demux.lockRoutes, Demux.check, Demux.register, Demux.leave,
    Demux.dropSession, nextFree_empty, Table.erase_singleton, Table.lookup_singleton,
    AList.insert_singleton_eq, erase_insert_singleton hkey]

set_option maxRecDepth 4000 in
/-- After `n` further sessions the counter has moved by `n`, and no later key has been
seen. -/
theorem reaches_endedFirst (n : Nat) :
    ∃ log, (demuxSystem (stream reusedFrames)).Reaches
        Lts.anyStep (Demux.new (stream reusedFrames), [])
        (endedFirst (UInt16.ofNat (n + 1)) n, log) ∧
      ∀ k, n < k → mailbox k log = .empty := by
  induction n with
  | zero =>
    refine ⟨[.registered 0 0 ⟨['a'], 53⟩,
      .frame (closeFrame 0).metadata none, .offered],
      Lts.run_reaches [.call ⟨['a'], 53⟩ none, .lockRoutes 0, .check 0, .register 0, .read 2,
        .read 4, .route, .deliver] rfl, ?_⟩
    intro k hk
    have hne : ¬ 0 = k := by omega
    simp [mailbox, Mailbox.step, Mailbox.empty, Mailbox.frame, hne]
  | succ n ih =>
    obtain ⟨log, hreach, hlater⟩ := ih
    refine ⟨log ++ [.registered (n + 1) (UInt16.ofNat (n + 1)) ⟨['a'], 53⟩, .dropped (n + 1)],
      hreach.trans ?_, ?_⟩
    · rw [UInt16.ofNat_add (n + 1) 1]
      exact Lts.run_reaches (openDrop n) (run_openDrop _ (UInt16.ofNat (n + 1)) n log)
    · intro k hk
      have hne : ¬ n + 1 = k := by omega
      have hempty := hlater k (by omega)
      unfold mailbox at hempty ⊢
      simp [foldl_append, hempty, Mailbox.step, hne]

/-- What the reused id does: session 65536 is registered under id 0, the drop of
session 0 takes its route, and the KEEP frame is read and skipped. -/
def lastSteps : List RecvAction :=
  [.call ⟨['a'], 53⟩ none, .lockRoutes 65536, .check 65536, .register 65536, .dropSession 0,
    .read 2, .read 4, .read 2, .read 1, .route]

/-- The counter goes around and session 65536 gets the id 0; the drop of session 0
removes its route, and a KEEP frame with its id, while it is registered and its queue is
empty, never reaches it: the packet stays on its way with the reader idle. -/
theorem drop_diverts_frames :
    ∃ s log, (demuxSystem (stream reusedFrames)).Reaches
        Lts.anyStep (Demux.new (stream reusedFrames), []) (s, log) ∧
      ∃ m, s.sessions.lookup 65536 = some m ∧ m.receiver = [] ∧
        s.reader = .idle ∧ s.inbound = [] ∧
        (mailbox 65536 log).route = some (0, ⟨['a'], 53⟩) ∧
        (mailbox 65536 log).hand = some (.ok (⟨['a'], 53⟩, [7])) ∧ ¬ Exact s log 65536 m := by
  obtain ⟨log, hreach, hlater⟩ := reaches_endedFirst 65535
  have hrun : ((demuxSystem (stream reusedFrames)).run
      Lts.anyStep (endedFirst 0 65535, []) lastSteps).any (fun p =>
        (p.1.sessions.lookup 65536).any (fun m => m.receiver.isEmpty) &&
        p.1.reader.isIdle && p.1.inbound.isEmpty &&
        ((mailbox 65536 p.2).route == some (0, ⟨['a'], 53⟩)) &&
        (mailbox 65536 p.2).hand.any (RoutedPacket.carries (⟨['a'], 53⟩, [7]))) = true := by
    decide +kernel
  obtain ⟨⟨s, shown⟩, hs, htest⟩ := (Option.any_eq_true _ _).mp hrun
  simp only [and_eq_true, Option.any_eq_true, List.isEmpty_iff, beq_iff_eq] at htest
  obtain ⟨⟨⟨⟨⟨m, hm, hempty⟩, hreader⟩, hinbound⟩, hroute⟩, hhand⟩ := htest
  have hidle : s.reader = .idle := Phase.isIdle_iff.mp hreader
  obtain ⟨item, hitem, hcarries⟩ := hhand
  have hpacket : (mailbox 65536 shown).hand = some (.ok (⟨['a'], 53⟩, [7])) := by
    rw [hitem, RoutedPacket.carries_iff.mp hcarries]
  -- nothing before concerns session 65536
  have hmail : mailbox 65536 (log ++ shown) = mailbox 65536 shown := by
    have hfirst := hlater 65536 (by omega)
    unfold mailbox at hfirst ⊢
    rw [List.foldl_append, hfirst]
  refine ⟨s, log ++ shown, hreach.trans (Lts.run_reaches lastSteps ?_), m, hm, hempty, hidle,
    hinbound, by rw [hmail]; exact hroute, by rw [hmail]; exact hpacket, ?_⟩
  · refine (Lts.recorded_run (endedFirst 0 65535) log lastSteps).trans ?_
    exact congrArg (Option.map fun p => (p.1, log ++ p.2)) hs
  · intro hexact
    rw [← hmail] at hpacket
    obtain ⟨t, ht⟩ := (hexact.hand _).mp hpacket
    rw [hidle] at ht
    cases ht

end ClashMeta.Xudp
