import ClashMeta.Protocol.Xudp.Demux

/-!
# What a step of the receive side can do

`RecvStep` lists every branch of every action with its guards, the state it leaves
and what it shows; `recv_step` shows that a step is one of these. The invariants of
the receive side are proved by cases on it.
-/

namespace ClashMeta.Xudp

open Option Demux

/-- The branches of a step. -/
inductive RecvStep [IpText] (s : Demux) : RecvAction → Demux → List Event → Prop where
  | refused (target : Target) (globalId : Option GlobalId) (hdead : s.alive = false) :
      RecvStep s (.call target globalId) s []
  | entered (target : Target) (globalId : Option GlobalId) (halive : s.alive = true) :
      RecvStep s (.call target globalId)
        { s with
          calls := s.calls.insert s.fresh ⟨target, globalId, .entered⟩
          fresh := s.fresh + 1 } []
  | locked (key : Nat) (c : SessionCall) (hcall : s.calls.lookup key = some c)
      (hstage : c.stage = .entered) (hfree : s.lock = none) :
      RecvStep s (.lockRoutes key)
        { s with lock := some key, calls := s.calls.insert key { c with stage := .locked } } []
  | allowed (key : Nat) (c : SessionCall) (hcall : s.calls.lookup key = some c)
      (hstage : c.stage = .locked) (halive : s.alive = true) :
      RecvStep s (.check key)
        { s with calls := s.calls.insert key { c with stage := .allowed } } []
  | turnedAway (key : Nat) (c : SessionCall) (hcall : s.calls.lookup key = some c)
      (hstage : c.stage = .locked) (hdead : s.alive = false) :
      RecvStep s (.check key) (s.leave key) []
  | exhausted (key : Nat) (c : SessionCall) (hcall : s.calls.lookup key = some c)
      (hstage : c.stage = .allowed) (hnone : Mux.nextFree s.routes 65536 s.nextId = none) :
      RecvStep s (.register key) (s.leave key) []
  | registered (key : Nat) (c : SessionCall) (id : UInt16)
      (hcall : s.calls.lookup key = some c) (hstage : c.stage = .allowed)
      (hid : Mux.nextFree s.routes 65536 s.nextId = some id) :
      RecvStep s (.register key)
        { s.leave key with
          routes := s.routes.insert id ⟨c.target, key⟩
          nextId := id + 1
          sessions := s.sessions.insert key
            ⟨id, c.target, c.globalId, ⟨true, true⟩, none, []⟩ }
        [.registered key id c.target]
  | dropped (key : Nat) (m : MuxSession) (hm : s.sessions.lookup key = some m)
      (hfree : s.lock = none) :
      RecvStep s (.dropSession key)
        { s with routes := s.routes.erase m.id, sessions := s.sessions.erase key }
        [.dropped key]
  | received (key : Nat) (m : MuxSession) (item : RoutedPacket) (rest : List RoutedPacket)
      (hm : s.sessions.lookup key = some m) (hqueue : m.receiver = item :: rest) :
      RecvStep s (.recv key)
        { s with sessions := s.sessions.insert key { m with receiver := rest } }
        [.received key item]
  | closed (key : Nat) (m : MuxSession) (hm : s.sessions.lookup key = some m)
      (hqueue : m.receiver = []) :
      RecvStep s (.recv key)
        { s with sessions := s.sessions.insert key { m with receiver := [] } } []
  | called (key : Nat) (message : String) (hnone : s.fails.lookup (.task key) = none) :
      RecvStep s (.fail key message)
        { s with fails := s.fails.insert (.task key) ⟨message, .called⟩ } []
  | swapped (c : Caller) (f : Failure) (hfail : s.fails.lookup c = some f)
      (hstage : f.stage = .called) (halive : s.alive = true) :
      RecvStep s (.swap c)
        { s with alive := false, fails := s.fails.insert c { f with stage := .swapped } } []
  | late (c : Caller) (f : Failure) (hfail : s.fails.lookup c = some f)
      (hstage : f.stage = .called) (hdead : s.alive = false) :
      RecvStep s (.swap c) { s with fails := s.fails.erase c } []
  | swept (c : Caller) (f : Failure) (hfail : s.fails.lookup c = some f)
      (hstage : f.stage = .swapped) (hfree : s.lock = none) :
      RecvStep s (.take c)
        { s with
          routes := ∅
          fails := s.fails.insert c { f with stage := .telling (Table.values s.routes) } }
        [.swept]
  | told (c : Caller) (f : Failure) (r : Route) (rest : List Route)
      (hfail : s.fails.lookup c = some f) (hstage : f.stage = .telling (r :: rest)) :
      RecvStep s (.tell c)
        { s with
          sessions := Mux.trySend r.sender (.error f.message) s.sessions
          fails := s.fails.insert c { f with stage := .telling rest } }
        [.told r.sender (.error f.message)]
  | failed (c : Caller) (f : Failure) (hfail : s.fails.lookup c = some f)
      (hstage : f.stage = .telling []) :
      RecvStep s (.failed c) { s with fails := s.fails.erase c } [.failed]
  | muxDropped (hheld : s.held = true) (hsessions : s.sessions.entries = [])
      (hcalls : s.calls.entries = []) :
      RecvStep s .dropMux
        { s with
          held := false
          fails := s.fails.insert .mux ⟨"XUDP multiplexer dropped", .called⟩ } []
  | fed (n : Nat) (p : Phase) (hpos : 0 < n) (hwants : n ≤ s.reader.wants)
      (hlength : n ≤ s.inbound.length) (hfeed : s.reader.feed (s.inbound.take n) = .ok p) :
      RecvStep s (.read n) { s with inbound := s.inbound.drop n, reader := p } []
  | malformed (n : Nat) (message : String) (hpos : 0 < n) (hwants : n ≤ s.reader.wants)
      (hlength : n ≤ s.inbound.length)
      (hfeed : s.reader.feed (s.inbound.take n) = .error message) :
      RecvStep s (.read n) ({ s with inbound := s.inbound.drop n }.readerFails message) []
  | readError (message : String) (hwants : s.reader.wants ≠ 0) :
      RecvStep s (.readError message) (s.readerFails message) []
  | skipped (m : Metadata) (payload : Option (List Byte)) (hreader : s.reader = .routing m payload)
      (hskip : m.status = statusKeepalive ∨ s.routes.lookup m.id = none ∨
        (m.status ≠ statusEnd ∧ payload = none)) :
      RecvStep s .route { s with reader := .idle } [.frame m payload]
  | ended (m : Metadata) (payload : Option (List Byte)) (r : Route)
      (hreader : s.reader = .routing m payload) (hstatus : m.status = statusEnd)
      (hfree : s.lock = none) (hroute : s.routes.lookup m.id = some r) :
      RecvStep s .route
        { s with
          routes := s.routes.erase m.id
          reader := .delivering r (.error "XUDP session ended") }
        [.frame m payload]
  | cloned (m : Metadata) (bytes : List Byte) (r : Route)
      (hreader : s.reader = .routing m (some bytes)) (halive : m.status ≠ statusKeepalive)
      (hstatus : m.status ≠ statusEnd) (hfree : s.lock = none)
      (hroute : s.routes.lookup m.id = some r) :
      RecvStep s .route
        { s with reader := .delivering r (.ok (m.target.getD r.target, bytes)) }
        [.frame m (some bytes)]
  | delivered (r : Route) (item : RoutedPacket) (hreader : s.reader = .delivering r item) :
      RecvStep s .deliver
        { s with sessions := Mux.trySend r.sender item s.sessions, reader := .idle } [.offered]
  | aborted (hheld : s.held = false) (hreader : ∀ r item, s.reader ≠ .delivering r item) :
      RecvStep s .abort { s with reader := .stopped } []

variable [IpText] {s s' : Demux}

/-! ## One lemma for each action with branches -/

theorem recvStep_call {target : Target} {globalId : Option GlobalId}
    (h : s.step (.call target globalId) = some s') :
    RecvStep s (.call target globalId) s' [] := by
  simp only [Demux.step, Demux.call] at h
  split at h
  · by_cases halive : s.alive = true
    · rw [if_pos halive] at h
      cases h
      exact .entered target globalId halive
    · rw [if_neg halive] at h
      cases h
      exact .refused target globalId (Bool.eq_false_of_not_eq_true halive)
  · cases h

variable {key : Nat}

theorem recvStep_lockRoutes (h : s.step (.lockRoutes key) = some s') :
    RecvStep s (.lockRoutes key) s' [] := by
  obtain ⟨c, hcall, h⟩ := bind_eq_some_iff.mp h
  obtain ⟨hguard, h⟩ := ite_none_left_eq_some.mp h
  rw [not_or, not_not, not_not] at hguard
  cases h
  exact .locked key c hcall hguard.1 hguard.2

theorem recvStep_check (h : s.step (.check key) = some s') : RecvStep s (.check key) s' [] := by
  obtain ⟨c, hcall, h⟩ := bind_eq_some_iff.mp h
  obtain ⟨hstage, h⟩ := ite_none_left_eq_some.mp h
  rw [not_not] at hstage
  split at h
  · rename_i halive
    cases h
    exact .allowed key c hcall hstage halive
  · rename_i hdead
    cases h
    exact .turnedAway key c hcall hstage (Bool.eq_false_of_not_eq_true hdead)

theorem recvStep_register (h : s.step (.register key) = some s') :
    RecvStep s (.register key) s' (s.observe (.register key)) := by
  obtain ⟨c, hcall, h⟩ := bind_eq_some_iff.mp h
  obtain ⟨hstage, h⟩ := ite_none_left_eq_some.mp h
  rw [not_not] at hstage
  split at h
  · rename_i hnone
    cases h
    simp only [observe, hcall, hnone]
    exact .exhausted key c hcall hstage hnone
  · rename_i id hid
    cases h
    simp only [observe, hcall, hid]
    exact .registered key c id hcall hstage hid

theorem recvStep_recv (h : s.step (.recv key) = some s') :
    RecvStep s (.recv key) s' (s.observe (.recv key)) := by
  obtain ⟨m, hm, h⟩ := bind_eq_some_iff.mp h
  obtain ⟨item, -, h⟩ := bind_eq_some_iff.mp h
  cases h
  simp only [observe, hm, map_some]
  cases hqueue : m.receiver with
  | nil => exact .closed key m hm hqueue
  | cons item rest => exact .received key m item rest hm hqueue

variable {c : Caller}

theorem recvStep_swap (h : s.step (.swap c) = some s') : RecvStep s (.swap c) s' [] := by
  obtain ⟨f, hfail, h⟩ := bind_eq_some_iff.mp h
  split at h
  · rename_i hstage
    split at h
    · rename_i halive
      cases h
      exact .swapped c f hfail hstage halive
    · rename_i hdead
      cases h
      exact .late c f hfail hstage (Bool.eq_false_of_not_eq_true hdead)
  · cases h

theorem recvStep_take (h : s.step (.take c) = some s') : RecvStep s (.take c) s' [.swept] := by
  obtain ⟨f, hfail, h⟩ := bind_eq_some_iff.mp h
  split at h
  · rename_i hstage
    obtain ⟨hfree, h⟩ := ite_none_left_eq_some.mp h
    cases h
    exact .swept c f hfail hstage (not_not.mp hfree)
  · cases h

theorem recvStep_tell (h : s.step (.tell c) = some s') :
    RecvStep s (.tell c) s' (s.observe (.tell c)) := by
  obtain ⟨⟨message, stage⟩, hfail, h⟩ := bind_eq_some_iff.mp h
  dsimp only at h
  split at h
  · cases h
    simp only [observe, hfail]
    exact .told c _ _ _ hfail rfl
  · cases h

theorem recvStep_failed (h : s.step (.failed c) = some s') :
    RecvStep s (.failed c) s' [.failed] := by
  obtain ⟨f, hfail, h⟩ := bind_eq_some_iff.mp h
  split at h
  · rename_i hstage
    cases h
    exact .failed c f hfail hstage
  · cases h

theorem recvStep_read {n : Nat} (h : s.step (.read n) = some s') : RecvStep s (.read n) s' [] := by
  obtain ⟨hguard, h⟩ := ite_none_left_eq_some.mp h
  have hpos : 0 < n := by omega
  have hwants : n ≤ s.reader.wants := by omega
  have hlength : n ≤ s.inbound.length := by omega
  split at h
  · rename_i p hfeed
    cases h
    exact .fed n p hpos hwants hlength hfeed
  · rename_i message hfeed
    cases h
    exact .malformed n message hpos hwants hlength hfeed

theorem recvStep_route (h : s.step .route = some s') : RecvStep s .route s' (s.observe .route) := by
  simp only [Demux.step, Demux.route] at h
  split at h
  · rename_i m payload hreader
    simp only [observe, hreader]
    split at h
    · rename_i hkeepalive
      cases h
      exact .skipped m payload hreader (.inl hkeepalive)
    · rename_i hkeepalive
      obtain ⟨hfree, h⟩ := ite_none_left_eq_some.mp h
      rw [not_not] at hfree
      split at h
      · rename_i hnone
        cases h
        exact .skipped m payload hreader (.inr (.inl hnone))
      · rename_i r hroute
        split at h
        · rename_i hend
          cases h
          exact .ended m payload r hreader hend hfree hroute
        · rename_i hend
          split at h
          · cases h
            exact .skipped m none hreader (.inr (.inr ⟨hend, rfl⟩))
          · cases h
            exact .cloned m _ r hreader hkeepalive hend hfree hroute
  · cases h

/-- **A step is one of the listed branches.** -/
theorem recv_step {a : RecvAction} (h : s.step a = some s') : RecvStep s a s' (s.observe a) := by
  -- the actions that can end in several ways have their lemmas above
  cases a with
  | call target globalId => exact recvStep_call h
  | lockRoutes key => exact recvStep_lockRoutes h
  | check key => exact recvStep_check h
  | register key => exact recvStep_register h
  | recv key => exact recvStep_recv h
  | swap c => exact recvStep_swap h
  | take c => exact recvStep_take h
  | tell c => exact recvStep_tell h
  | failed c => exact recvStep_failed h
  | read n => exact recvStep_read h
  | route => exact recvStep_route h
  | dropSession key =>
    obtain ⟨m, hm, h⟩ := bind_eq_some_iff.mp h
    obtain ⟨hfree, h⟩ := ite_none_left_eq_some.mp h
    cases h
    exact .dropped key m hm (not_not.mp hfree)
  | fail key message =>
    simp only [Demux.step, Demux.fail] at h
    split at h
    · rename_i hnone
      cases h
      exact .called key message hnone
    · cases h
  | dropMux =>
    obtain ⟨⟨hheld, hsessions, hcalls⟩, h⟩ := ite_none_right_eq_some.mp h
    cases h
    exact .muxDropped hheld hsessions hcalls
  | readError message =>
    obtain ⟨hwants, h⟩ := ite_none_left_eq_some.mp h
    cases h
    exact .readError message hwants
  | deliver =>
    simp only [Demux.step, deliver] at h
    split at h
    · rename_i r item hreader
      cases h
      exact .delivered r item hreader
    · cases h
  | abort =>
    obtain ⟨hheld, h⟩ := ite_none_left_eq_some.mp h
    split at h
    · cases h
    · cases h
    · rename_i hreader _
      cases h
      exact .aborted (Bool.eq_false_of_not_eq_true hheld) hreader

end ClashMeta.Xudp
