import ClashMeta.Core.Packet.Loop

/-!
# What a step of the packet loop does

One inversion lemma for the whole transition system: `step_effect` says, for every
action, which tables a step changes and under which guard. The parts of an
iteration with several branches have an inductive of their own (`Pumped`,
`Consumed`, `Expired`). Invariants are proved against these and never unfold the
step function.
-/

namespace ClashMeta.Packet

/-- The outcomes whose consumption acts on a table or a socket: an error of a TCP session,
any result of a UDP session. -/
def acts (flow : Flow) : Outcome → Bool
  | .err => true
  | .ok => !flow.tcp
  | .cancelled => false
  | .panicked => false

/-! ## The parts of an iteration -/

/-- The pump of one flow: nothing, or the flow keeps its task and handle, or it is retired. -/
inductive Pumped (s : Loop) (flow : Flow) : Loop → Prop
  | skip : Pumped s flow s
  | keep {e e' : TcpFlow} {state state' : TcpState} (he : s.tcp.lookup flow = some e)
      (hsocket : s.sockets.lookup e.handle = some (.tcp state)) (htask : e'.task = e.task)
      (hhandle : e'.handle = e.handle) :
      Pumped s flow { s with
        sockets := s.sockets.insert e.handle (.tcp state')
        tcp := s.tcp.insert flow e' }
  | retire {e : TcpFlow} {state state' : TcpState} (he : s.tcp.lookup flow = some e)
      (hsocket : s.sockets.lookup e.handle = some (.tcp state)) :
      Pumped s flow { s with
        sockets := s.sockets.insert e.handle (.tcp state')
        tcp := s.tcp.erase flow
        tasks := Loop.abortWhere s.tasks (· == e.task)
        retired := s.retired ++ [e.handle] }

theorem pumped_pump (s : Loop) (flow : Flow) (does : Pump) : Pumped s flow (s.pump flow does) := by
  unfold Loop.pump
  cases he : s.tcp.lookup flow with
  | none => exact .skip
  | some e =>
    dsimp only
    cases hsocket : s.sockets.lookup e.handle with
    | none => exact .skip
    | some socket =>
      cases socket with
      | udp endpoint => exact .skip
      | tcp state =>
        dsimp only
        by_cases hopen : (s.pumped e does state).isOpen = true
        · rw [if_pos hopen]
          refine .keep he hsocket ?_ ?_
          · cases does.active <;> rfl
          · cases does.active <;> rfl
        · rw [if_neg hopen]
          exact .retire he hsocket

/-- The consumption of a result: nothing, or it aborts the socket of the TCP instance, or it
removes the UDP instance. -/
inductive Consumed (s : Loop) (flow : Flow) (o : Outcome) : Loop → Prop
  | nothing : Consumed s flow o s
  | abort {e : TcpFlow} (htcp : flow.tcp = true) (hacts : acts flow o = true)
      (he : s.tcp.lookup flow = some e) :
      Consumed s flow o { s with sockets := s.sockets.insert e.handle (.tcp .closed) }
  | remove (hudp : flow.tcp = false) (hacts : acts flow o = true) :
      Consumed s flow o { s with udp := s.udp.erase flow }

theorem consumed_consume (s : Loop) (flow : Flow) (o : Outcome) :
    Consumed s flow o (s.consume flow o) := by
  unfold Loop.consume
  split
  · exact .nothing
  · exact .nothing
  · rename_i hcancelled hpanicked
    split
    · rename_i htcp
      split
      · rename_i e he
        split
        · rename_i herr
          exact .abort htcp (by rw [herr]; rfl) he
        · exact .nothing
      · exact .nothing
    · rename_i htcp
      have hudp : flow.tcp = false := by simpa using htcp
      refine .remove hudp ?_
      cases o with
      | ok => simp [acts, hudp]
      | err => rfl
      | cancelled => exact (hcancelled rfl).elim
      | panicked => exact (hpanicked rfl).elim

/-- The expiry of one port: nothing, or the port goes with the flows to it. -/
inductive Expired (s : Loop) (target : IpEndpoint) : Loop → Prop
  | skip : Expired s target s
  | gone {port : UdpPort} {p : Nat → Bool} (hport : s.ports.lookup target = some port) :
      Expired s target { s with
        udp := s.udp.filterMap fun flow e => if flow.target = target then none else some e
        tasks := Loop.abortWhere s.tasks p
        sockets := s.sockets.erase port.handle
        ports := s.ports.erase target }

theorem expired_expire (s : Loop) (target : IpEndpoint) : Expired s target (s.expire target) := by
  unfold Loop.expire
  cases hport : s.ports.lookup target with
  | none => exact .skip
  | some port =>
    dsimp only
    by_cases hidle : s.now - port.last ≤ 120000
    · rw [if_pos hidle]
      exact .skip
    · rw [if_neg hidle]
      exact .gone hport

/-! ## Steps -/

/-- A port that has just been used. -/
def Loop.touch (s : Loop) (target : IpEndpoint) (port : UdpPort) : Loop :=
  { s with ports := s.ports.insert target { port with last := s.now } }

/-- What a step does to the tables, the sockets and the tasks. -/
inductive Effect (s : Loop) : Action → Loop → Prop
  | quiet {a : Action} : Effect s a s
  | openTcp {flow : Flow} {syn : Bool} {handle : Nat} (hfree : s.sockets.lookup handle = none)
      (hopens : s.opensTcp flow syn = true) :
      Effect s (.packet flow syn handle) (s.openTcp flow handle)
  | openPort {flow : Flow} {syn : Bool} {handle : Nat} (hfree : s.sockets.lookup handle = none)
      (hopens : s.opensPort flow = true) :
      Effect s (.packet flow syn handle) (s.openPort flow.target handle)
  | wire {handle : Nat} {old state : TcpState}
      (hsocket : s.sockets.lookup handle = some (.tcp old)) :
      Effect s (.wire handle state)
        { s with sockets := s.sockets.insert handle (.tcp state) }
  | reap : Effect s .next s.reap
  | join {k : Nat} {x : Task} {o : Outcome} {u : Loop} (hk : s.tasks.lookup k = some x)
      (ho : x.outcome = some o)
      (hconsumed : Consumed { s with tasks := s.tasks.erase k } x.flow o u) :
      Effect s (.join k) u
  | pump {does : Pump} {flow : Flow} {u : Loop} (hpumped : Pumped s flow u) :
      Effect s (.pump does) u
  | touch {a : Action} {target : IpEndpoint} {port : UdpPort}
      (hport : s.ports.lookup target = some port) : Effect s a (s.touch target port)
  | openUdp {source target : IpEndpoint} {port : UdpPort}
      (hport : s.ports.lookup target = some port)
      (hnone : s.udp.lookup ⟨source, target, false⟩ = none) (hroom : s.udp.size < maxUdp) :
      Effect s (.datagram source target)
        { (s.touch target port).spawn ⟨source, target, false⟩ with
          udp := s.udp.insert ⟨source, target, false⟩ ⟨s.nextTask⟩ }
  | expire {target : IpEndpoint} {u : Loop} (hexpired : Expired s target u) : Effect s .expire u
  | finish {k : Nat} {flow : Flow} {aborted : Bool} {outcome : Outcome}
      (hk : s.tasks.lookup k = some ⟨flow, aborted, none⟩) :
      Effect s (.finish k outcome)
        { s with tasks := s.tasks.insert k ⟨flow, aborted, some outcome⟩ }

/-- The same tables, sockets and tasks at another phase and time. -/
def Loop.at (s : Loop) (phase : Phase) (now : Nat) : Loop := { s with phase := phase, now := now }

variable {s t : Loop}

theorem intake_effect {flow : Flow} {syn : Bool} {handle : Nat}
    (h : s.intake flow syn handle = some t) : Effect s (.packet flow syn handle) t := by
  unfold Loop.intake at h
  split at h
  · cases h
  · rename_i hused
    have hfree : s.sockets.lookup handle = none := by simpa using hused
    split at h
    · rename_i hopens
      cases h
      exact .openTcp hfree hopens
    · split at h
      · rename_i hopens
        cases h
        exact .openPort hfree hopens
      · cases h
        exact .quiet

theorem datagram_effect {source target : IpEndpoint} (h : s.datagram source target = some t) :
    Effect s (.datagram source target) t := by
  unfold Loop.datagram at h
  split at h
  · cases h
  · rename_i port hport
    dsimp only at h
    split at h
    · rename_i hopens
      obtain ⟨hnone, hroom⟩ := Bool.and_eq_true_iff.mp hopens
      cases h
      exact .openUdp hport (Option.isNone_iff_eq_none.mp hnone) (of_decide_eq_true hroom)
    · cases h
      exact .touch hport

theorem join_effect {k : Nat} (h : s.join k = some t) : Effect s (.join k) t := by
  unfold Loop.join at h
  split at h
  · rename_i flow aborted o hk
    cases h
    exact .join hk rfl (consumed_consume _ flow o)
  · cases h

theorem finish_effect {k : Nat} {outcome : Outcome} (h : s.finish k outcome = some t) :
    Effect s (.finish k outcome) t := by
  unfold Loop.finish at h
  split at h
  · rename_i flow aborted hk
    split at h
    · cases h
    · cases h
      exact .finish hk
  · cases h

theorem next_effect (h : s.next = some t) : ∃ u phase, Effect s .next u ∧ t = u.at phase s.now := by
  unfold Loop.next at h
  split at h
  · cases h
  · cases h
    exact ⟨s, _, .quiet, rfl⟩
  · split at h
    · cases h
      exact ⟨s, _, .quiet, rfl⟩
    · cases h
  · cases h
    exact ⟨s, _, .quiet, rfl⟩
  · cases h
  · cases h
    exact ⟨s, _, .quiet, rfl⟩
  · cases h
    exact ⟨s, _, .quiet, rfl⟩
  · cases h
    exact ⟨s, _, .quiet, rfl⟩
  · cases h
  · cases h
    exact ⟨s.reap, _, .reap, rfl⟩

/-- **Inversion**: every step is one of the effects, at some phase and time. -/
theorem step_effect {a : Action} (h : s.step a = some t) :
    ∃ u phase now, Effect s a u ∧ t = u.at phase now := by
  -- outside its phase a step has no successor
  cases a with
  | idle =>
    simp only [Loop.step] at h
    split at h
    · cases h
      exact ⟨s, _, _, .quiet, rfl⟩
    · cases h
  | packet flow syn handle =>
    simp only [Loop.step] at h
    split at h
    · obtain ⟨u, hu, rfl⟩ := Option.map_eq_some_iff.mp h
      exact ⟨u, _, _, intake_effect hu, rfl⟩
    · cases h
  | wire handle state =>
    simp only [Loop.step] at h
    split at h
    · rename_i old hsocket
      split at h
      · cases h
        exact ⟨_, _, _, .wire hsocket, rfl⟩
      · cases h
    · cases h
  | next =>
    obtain ⟨u, phase, hu, ht⟩ := next_effect h
    exact ⟨u, phase, _, hu, ht⟩
  | join k =>
    simp only [Loop.step] at h
    split at h
    · exact ⟨t, _, _, join_effect h, rfl⟩
    · cases h
  | pump does =>
    simp only [Loop.step] at h
    split at h
    · rename_i flow todo hphase
      cases h
      exact ⟨_, _, _, .pump (pumped_pump s flow does), rfl⟩
    · cases h
  | datagram source target =>
    simp only [Loop.step] at h
    split at h
    · exact ⟨t, _, _, datagram_effect h, rfl⟩
    · cases h
  | reply flow =>
    simp only [Loop.step] at h
    split at h
    · cases h
      unfold Loop.reply
      split
      · rename_i port hport
        exact ⟨_, _, _, .touch hport, rfl⟩
      · exact ⟨_, _, _, .quiet, rfl⟩
    · cases h
  | expire =>
    simp only [Loop.step] at h
    split at h
    · rename_i target todo hphase
      cases h
      exact ⟨_, _, _, .expire (expired_expire s target), rfl⟩
    · cases h
  | finish k outcome => exact ⟨t, _, _, finish_effect h, rfl⟩
  | tick ms =>
    cases h
    exact ⟨s, _, _, .quiet, rfl⟩

end ClashMeta.Packet
