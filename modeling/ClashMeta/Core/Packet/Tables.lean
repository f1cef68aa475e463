import ClashMeta.Core.Packet.Instances

/-!
# The flow tables at the end of an iteration

The three tables and the socket set change in every phase of the loop. Between the phases a
retired socket has left its flow and is still in the set, so three facts are kept by every step,
beside the owners of sockets (`Owned`): `Roomy`, `Attended` and `Swept`. At the end of an
iteration nothing is retired, and sockets and owners match one to one.
-/

namespace ClashMeta.Packet

open Table Option Bool AList Loop

variable {s t : Loop} {target : IpEndpoint} {port : UdpPort} {flow : Flow} {handle x : Nat}
  {a : Action}

/-! ## Limits and ports -/

/-- The tables are within their limits, and every UDP flow has the port of its target. -/
structure Roomy (s : Loop) : Prop where
  tcp : s.tcp.size ≤ maxTcp
  udp : s.udp.size ≤ maxUdp
  ports : s.ports.size ≤ maxPorts
  target : ∀ flow e, s.udp.lookup flow = some e → (s.ports.lookup flow.target).isSome

theorem isSome_lookup_insert {ports : Table IpEndpoint UdpPort} {p : IpEndpoint}
    (target : IpEndpoint) (port : UdpPort) (h : (ports.lookup p).isSome) :
    ((ports.insert target port).lookup p).isSome := by
  rw [lookup_insert_if]
  split
  · rfl
  · exact h

section

variable (h : Roomy s)

include h

/-- Tables that do not grow stay within their limits. -/
theorem Roomy.of_le (htcp : t.tcp.size ≤ s.tcp.size)
    (hports : t.ports.size ≤ s.ports.size) (hudp : t.udp.size ≤ s.udp.size)
    (hflows : ∀ flow e, t.udp.lookup flow = some e → s.udp.lookup flow = some e ∧
      ((s.ports.lookup flow.target).isSome → (t.ports.lookup flow.target).isSome)) : Roomy t where
  tcp := htcp.trans h.tcp
  udp := hudp.trans h.udp
  ports := hports.trans h.ports
  target := by
    intro flow e he
    obtain ⟨hs, hstays⟩ := hflows flow e he
    exact hstays (h.target flow e hs)

theorem Roomy.of_tcp (htcp : t.tcp.size ≤ s.tcp.size) (hudp : t.udp = s.udp)
    (hports : t.ports = s.ports) : Roomy t := by
  refine h.of_le htcp (by rw [hports]) (by rw [hudp]) fun flow e he => ?_
  rw [hudp] at he
  rw [hports]
  exact ⟨he, id⟩

theorem roomy_touch (hport : s.ports.lookup target = some port) : Roomy (s.touch target port) :=
  h.of_le le_rfl (size_insert_of_lookup_some hport _).le le_rfl
    fun _ _ he => ⟨he, isSome_lookup_insert target _⟩

/-- A flow opens only when there is room. -/
theorem roomy_openTcp {syn : Bool} (hopens : s.opensTcp flow syn) :
    Roomy (s.openTcp flow handle) := by
  simp only [opensTcp, and_eq_true, isNone_iff_eq_none, decide_eq_true_eq]
    at hopens
  obtain ⟨⟨-, hnone⟩, hroom⟩ := hopens
  refine ⟨?_, h.udp, h.ports, h.target⟩
  show Table.size (s.tcp.insert flow _) ≤ maxTcp
  rw [size_insert_of_lookup_none hnone]
  exact hroom

theorem roomy_openPort (hopens : s.opensPort flow) : Roomy (s.openPort flow.target handle) := by
  simp only [opensPort, and_eq_true, isNone_iff_eq_none, decide_eq_true_eq]
    at hopens
  obtain ⟨⟨-, hnone⟩, hroom⟩ := hopens
  refine ⟨h.tcp, h.udp, ?_, fun f e he => isSome_lookup_insert _ _ (h.target f e he)⟩
  show Table.size (s.ports.insert flow.target _) ≤ maxPorts
  rw [size_insert_of_lookup_none hnone]
  exact hroom

/-- A UDP flow opens behind its port. -/
theorem roomy_openUdp {source : IpEndpoint} (hport : s.ports.lookup target = some port)
    (hnone : s.udp.lookup ⟨source, target, false⟩ = none) (hroom : s.udp.size < maxUdp) :
    Roomy { (s.touch target port).spawn ⟨source, target, false⟩ with
      udp := s.udp.insert ⟨source, target, false⟩ ⟨s.nextTask⟩ } := by
  have htouch : Roomy (s.touch target port) := roomy_touch h hport
  refine ⟨h.tcp, ?_, htouch.ports, fun f e he => ?_⟩
  · show Table.size (s.udp.insert _ _) ≤ maxUdp
    rw [size_insert_of_lookup_none hnone]
    exact hroom
  · obtain ⟨rfl, -⟩ | ⟨-, he⟩ := lookup_insert_cases he
    · show ((s.ports.insert target _).lookup target).isSome
      rw [lookup_insert]
      rfl
    · exact htouch.target f e he

theorem roomy_pumped (hpumped : Pumped s flow t) : Roomy t := by
  cases hpumped with
  | skip => exact h
  | keep he hsocket htask hhandle =>
    exact h.of_tcp (size_insert_of_lookup_some he _).le rfl rfl
  | retire he hsocket => exact h.of_tcp (size_erase_le _ _) rfl rfl

theorem roomy_consumed {o : Outcome} (hconsumed : Consumed s flow o t) : Roomy t := by
  cases hconsumed with
  | nothing => exact h
  | abort htcp hacts he => exact h.of_tcp le_rfl rfl rfl
  | remove hudp hacts =>
    exact h.of_le le_rfl le_rfl (size_erase_le _ _)
      fun f e he => ⟨(lookup_erase_some he).2, id⟩

/-- A port goes with all flows to it. -/
theorem roomy_expired (hexpired : Expired s target t) : Roomy t := by
  cases hexpired with
  | skip => exact h
  | gone hport =>
    refine h.of_le le_rfl (size_erase_le _ _) (size_filterMap_le _ _)
      fun f e he => ?_
    rw [lookup_filterMap] at he
    obtain ⟨y, hy, hkept⟩ := bind_eq_some_iff.mp he
    split at hkept
    · cases hkept
    · rename_i hother
      cases hkept
      refine ⟨hy, fun hsome => ?_⟩
      rw [lookup_erase_if, if_neg hother]
      exact hsome

/-- **One step** keeps the limits. -/
theorem roomy_effect (heff : Effect s a t) : Roomy t := by
  cases heff with
  | openTcp hfree hopens => exact roomy_openTcp h hopens
  | openPort hfree hopens => exact roomy_openPort h hopens
  | @join k x o u hk ho hconsumed =>
    have htaken : Roomy { s with tasks := s.tasks.erase k } := h.of_tcp le_rfl rfl rfl
    exact roomy_consumed htaken hconsumed
  | pump hpumped => exact roomy_pumped h hpumped
  | touch hport => exact roomy_touch h hport
  | openUdp hport hnone hroom => exact roomy_openUdp h hport hnone hroom
  | expire hexpired => exact roomy_expired h hexpired
  | _ => exact h.of_tcp le_rfl rfl rfl

end

/-! ## Owners -/

/-- A flow, a port or the list of retired ones refers to the socket. -/
def Loop.Refers (s : Loop) (x : Nat) : Prop :=
  (∃ f e, s.tcp.lookup f = some e ∧ e.handle = x) ∨
    (∃ p q, s.ports.lookup p = some q ∧ q.handle = x) ∨ x ∈ s.retired

/-- Every socket of the set belongs to a flow, to a port or to the retired ones. -/
def Attended (s : Loop) : Prop := ∀ x, s.kind x ≠ none → s.Refers x

theorem Attended.of_refers (h : Attended s) (hkind : ∀ x, t.kind x ≠ none → s.kind x ≠ none)
    (hrefers : ∀ x, t.kind x ≠ none → s.Refers x → t.Refers x) : Attended t :=
  fun x hx => hrefers x hx (h x (hkind x hx))

/-- A step after which the same sockets are there, and every flow's socket has a place. -/
theorem Attended.of_flows (h : Attended s) (hkind : ∀ x, t.kind x = s.kind x)
    (htcp : ∀ f e, s.tcp.lookup f = some e → t.Refers e.handle) (hports : t.ports = s.ports)
    (hretired : s.retired ⊆ t.retired) : Attended t := by
  refine h.of_refers (fun x hx => hkind x ▸ hx) fun x _ hx => ?_
  rcases hx with ⟨f, e, he, rfl⟩ | hport | hmem
  · exact htcp f e he
  · exact .inr (.inl (hports ▸ hport))
  · exact .inr (.inr (hretired hmem))

theorem Attended.of_kind (h : Attended s) (hkind : ∀ x, t.kind x = s.kind x) (htcp : t.tcp = s.tcp)
    (hports : t.ports = s.ports) (hretired : t.retired = s.retired) : Attended t :=
  h.of_flows hkind (fun f e he => .inl ⟨f, e, htcp ▸ he, rfl⟩) hports fun _ hx => hretired ▸ hx

theorem refers_touch (hport : s.ports.lookup target = some port) (h : s.Refers x) :
    (s.touch target port).Refers x := by
  rcases h with hflow | ⟨p, q, hq, rfl⟩ | hretired
  · exact .inl hflow
  · refine .inr (.inl ?_)
    by_cases hp : p = target
    · rw [hp, hport] at hq
      cases hq
      exact ⟨target, _, lookup_insert _, rfl⟩
    · exact ⟨p, q, (lookup_insert_ne hp).trans hq, rfl⟩
  · exact .inr (.inr hretired)

section

variable (h : Attended s)

include h

/-- The socket of a new flow is its own. -/
theorem attended_openTcp (hnone : s.tcp.lookup flow = none) : Attended (s.openTcp flow handle) := by
  intro x hx
  by_cases hhandle : x = handle
  · exact .inl ⟨flow, _, lookup_insert _, hhandle.symm⟩
  · have hold : s.kind x ≠ none := fun hk => hx ((kind_insert_ne _ hhandle).trans hk)
    rcases h x hold with ⟨f, e, he, rfl⟩ | hport | hretired
    · refine .inl ⟨f, e, (lookup_insert_ne ?_).trans he, rfl⟩
      rintro rfl
      rw [hnone] at he
      cases he
    · exact .inr (.inl hport)
    · exact .inr (.inr hretired)

/-- The socket of a new port is its own. -/
theorem attended_openPort (hnone : s.ports.lookup target = none) :
    Attended (s.openPort target handle) := by
  intro x hx
  by_cases hhandle : x = handle
  · exact .inr (.inl ⟨target, _, lookup_insert _, hhandle.symm⟩)
  · have hold : s.kind x ≠ none := fun hk => hx ((kind_insert_ne _ hhandle).trans hk)
    rcases h x hold with hflow | ⟨p, q, hq, rfl⟩ | hretired
    · exact .inl hflow
    · refine .inr (.inl ⟨p, q, (lookup_insert_ne ?_).trans hq, rfl⟩)
      rintro rfl
      rw [hnone] at hq
      cases hq
    · exact .inr (.inr hretired)

/-- A flow that is retired leaves its socket to the list. -/
theorem attended_pumped (howned : Owned s) (hpumped : Pumped s flow t) : Attended t := by
  cases hpumped with
  | skip => exact h
  | @keep e e' state state' he hsocket htask hhandle =>
    refine h.of_flows (kind_insert (howned.tcp.kinds flow e he)) (fun f y hy => .inl ?_) rfl
      fun _ hx => hx
    by_cases hf : f = flow
    · rw [hf, he] at hy
      cases hy
      exact ⟨flow, e', lookup_insert _, hhandle⟩
    · exact ⟨f, y, (lookup_insert_ne hf).trans hy, rfl⟩
  | @retire e state state' he hsocket =>
    refine h.of_flows (kind_insert (howned.tcp.kinds flow e he)) (fun f y hy => ?_) rfl
      (List.subset_append_left _ _)
    by_cases hf : f = flow
    · rw [hf, he] at hy
      cases hy
      exact .inr (.inr (List.mem_append_right _ List.mem_cons_self))
    · exact .inl ⟨f, y, (lookup_erase_ne hf).trans hy, rfl⟩

/-- The socket of a port goes with it. -/
theorem attended_expired (hexpired : Expired s target t) : Attended t := by
  cases hexpired with
  | skip => exact h
  | @gone port p hport =>
    have hsocket : ∀ x, ((s.sockets.erase port.handle).lookup x).map Socket.isTcp ≠ none →
        x ≠ port.handle ∧ s.kind x ≠ none := by
      intro x hx
      rw [lookup_erase_if] at hx
      split at hx
      · exact absurd rfl hx
      · exact ⟨‹_›, hx⟩
    refine h.of_refers (fun x hx => (hsocket x hx).2) fun x hx hrefers => ?_
    rcases hrefers with hflow | ⟨r, q, hq, rfl⟩ | hretired
    · exact .inl hflow
    · refine .inr (.inl ⟨r, q, (lookup_erase_ne ?_).trans hq, rfl⟩)
      rintro rfl
      rw [hport] at hq
      cases hq
      exact (hsocket _ hx).1 rfl
    · exact .inr (.inr hretired)

/-- The retired sockets go. -/
theorem attended_reap : Attended s.reap := by
  have hsocket : ∀ x, s.reap.kind x ≠ none → x ∉ s.retired ∧ s.kind x ≠ none := by
    intro x hx
    change ((s.sockets.filterMap _).lookup x).map _ ≠ none at hx
    rw [lookup_filterMap] at hx
    unfold Loop.kind
    cases hlookup : s.sockets.lookup x with
    | none => simp [hlookup] at hx
    | some socket =>
      refine ⟨fun hmem => ?_, by simp⟩
      simp [hlookup, hmem] at hx
  refine h.of_refers (fun x hx => (hsocket x hx).2) fun x hx hrefers => ?_
  rcases hrefers with hflow | hport | hretired
  · exact .inl hflow
  · exact .inr (.inl hport)
  · exact absurd hretired (hsocket x hx).1

/-- **One step** leaves no socket unattended. -/
theorem attended_effect (howned : Owned s) (heff : Effect s a t) : Attended t := by
  cases heff with
  | quiet => exact h
  | openTcp hfree hopens =>
    simp only [opensTcp, and_eq_true, isNone_iff_eq_none] at hopens
    exact attended_openTcp h hopens.1.2
  | openPort hfree hopens =>
    simp only [opensPort, and_eq_true, isNone_iff_eq_none] at hopens
    exact attended_openPort h hopens.1.2
  | wire hsocket =>
    refine h.of_kind (kind_insert ?_) rfl rfl rfl
    unfold Loop.kind
    rw [hsocket]
    rfl
  | reap => exact attended_reap h
  | join hk ho hconsumed =>
    cases hconsumed with
    | abort htcp hacts he => exact h.of_kind (kind_insert (howned.tcp.kinds _ _ he)) rfl rfl rfl
    | _ => exact h.of_kind (fun _ => rfl) rfl rfl rfl
  | pump hpumped => exact attended_pumped h howned hpumped
  | touch hport | openUdp hport =>
    exact h.of_refers (fun _ hx => hx) fun _ _ hx => refers_touch hport hx
  | expire hexpired => exact attended_expired h hexpired
  | finish hk => exact h.of_kind (fun _ => rfl) rfl rfl rfl

end

/-! ## The end of an iteration -/

/-- The phases before the pump. -/
def Phase.early : Phase → Bool
  | .intake => true
  | .poll => true
  | .join => true
  | _ => false

/-- Before the pump nothing is retired. -/
def Swept (s : Loop) : Prop := s.phase.early = true → s.retired = []

/-- Only the pump and the sweep change the list. -/
theorem retired_effect (heff : Effect s a t) (hpump : ∀ does, a ≠ .pump does) (hnext : a ≠ .next) :
    t.retired = s.retired := by
  cases heff with
  | reap => exact absurd rfl hnext
  | join hk ho hconsumed => cases hconsumed <;> rfl
  | pump hpumped => exact absurd rfl (hpump _)
  | expire hexpired => cases hexpired <;> rfl
  | _ => rfl

/-- The end of a phase: the sweep empties the list, and no other phase leads to an early
one but an early one. -/
theorem swept_next (h : Swept s) (hnext : s.next = some t) : Swept t := by
  unfold Loop.next at hnext
  split at hnext
  · cases hnext
  · rename_i hphase
    cases hnext
    exact fun _ => h (by rw [hphase]; rfl)
  · split at hnext
    · cases hnext
      exact nofun
    · cases hnext
  · cases hnext
    exact nofun
  · cases hnext
  · cases hnext
    exact nofun
  · cases hnext
    exact nofun
  · cases hnext
    exact nofun
  · cases hnext
  · cases hnext
    exact fun _ => rfl

theorem not_early_pump {does : Pump} (hstep : s.step (.pump does) = some t) :
    t.phase.early = false := by
  simp only [Loop.step] at hstep
  split at hstep <;> cases hstep
  rfl

/-- Within a phase no step goes back to an early one. -/
theorem early_of_step (hstep : s.step a = some t) (hnext : a ≠ .next)
    (hearly : t.phase.early) : s.phase.early = true := by
  cases a with
  | next => exact absurd rfl hnext
  | idle | packet | join =>
    obtain ⟨hphase, -⟩ := ite_none_right_eq_some.mp hstep
    rw [hphase]
    rfl
  | wire handle state =>
    simp only [Loop.step] at hstep
    split at hstep
    · obtain ⟨-, hstep⟩ := ite_none_right_eq_some.mp hstep
      cases hstep
      exact hearly
    · cases hstep
  | pump does =>
    rw [not_early_pump hstep] at hearly
    cases hearly
  | datagram source target =>
    -- whatever becomes of the datagram, the phase stays
    obtain ⟨-, hstep⟩ := ite_none_right_eq_some.mp hstep
    have hsame : t.phase = s.phase := by
      unfold datagram at hstep
      split at hstep
      · cases hstep
      · dsimp only at hstep
        split at hstep <;> cases hstep <;> rfl
    rwa [← hsame]
  | reply | expire =>
    simp only [Loop.step] at hstep
    split at hstep <;> cases hstep
    exact absurd hearly false_ne_true
  | finish k outcome =>
    simp only [Loop.step, Loop.finish] at hstep
    split at hstep
    · split at hstep
      · cases hstep
      · cases hstep
        exact hearly
    · cases hstep
  | tick ms =>
    cases hstep
    exact hearly

/-- **One step** retires nothing before the pump. -/
theorem swept_step (h : Swept s) (hstep : s.step a = some t) : Swept t := by
  by_cases hnext : a = .next
  · rw [hnext] at hstep
    exact swept_next h hstep
  · intro hearly
    have hpump : ∀ does, a ≠ .pump does := by
      rintro does rfl
      rw [not_early_pump hstep] at hearly
      cases hearly
    have hbefore := early_of_step hstep hnext hearly
    obtain ⟨u, phase, now, heff, rfl⟩ := step_effect hstep
    exact (retired_effect heff hpump hnext).trans (h hbefore)

/-- What every step keeps. -/
structure Tidy (s : Loop) : Prop where
  roomy : Roomy s
  owned : Owned s
  attended : Attended s
  swept : Swept s

theorem tidy_new : Tidy Loop.new where
  roomy := ⟨Nat.zero_le _, Nat.zero_le _, Nat.zero_le _, nofun⟩
  owned := owned_new
  attended := fun _ h => absurd rfl h
  swept := fun _ => rfl

/-- **One step** keeps all of it. -/
theorem tidy_step (h : Tidy s) (hstep : s.step a = some t) : Tidy t := by
  have hswept : Swept t := swept_step h.swept hstep
  obtain ⟨u, phase, now, heff, rfl⟩ := step_effect hstep
  have hroomy := roomy_effect h.roomy heff
  have howned := owned_effect h.owned heff
  have hattended : Attended u := attended_effect h.attended h.owned heff
  exact ⟨⟨hroomy.tcp, hroomy.udp, hroomy.ports, hroomy.target⟩,
    ⟨howned.tcp, howned.port, howned.retired, howned.live⟩, hattended, hswept⟩

theorem tidy_of_reaches {ok : Loop → Action → Prop} (hrun : packetLoop.Reaches ok Loop.new s) :
    Tidy s :=
  hrun.invariant tidy_new fun h _ hstep => tidy_step h hstep

/-- Who owns sockets at the end of an iteration. -/
inductive Owner where
  | flow (flow : Flow)
  | port (endpoint : IpEndpoint)
  deriving DecidableEq, Repr

/-- The owner's socket is a TCP socket. -/
def Owner.isTcp : Owner → Bool
  | .flow _ => true
  | .port _ => false

/-- The socket that an owner refers to. -/
def Loop.handleOf (s : Loop) : Owner → Option Nat
  | .flow f => (s.tcp.lookup f).map TcpFlow.handle
  | .port p => (s.ports.lookup p).map UdpPort.handle

/-- The tables are within their limits, every UDP flow has its port, and sockets and their
owners match one to one. -/
structure Orderly (s : Loop) : Prop where
  tcpFlows : s.tcp.size ≤ 512
  udpFlows : s.udp.size ≤ 512
  udpPorts : s.ports.size ≤ 256
  target : ∀ flow e, s.udp.lookup flow = some e → (s.ports.lookup flow.target).isSome
  present : ∀ o x, s.handleOf o = some x → ∃ socket, s.sockets.lookup x = some socket ∧
    socket.isTcp = o.isTcp
  distinct : ∀ o o' x, s.handleOf o = some x → s.handleOf o' = some x → o = o'
  owner : ∀ x socket, s.sockets.lookup x = some socket → ∃ o, s.handleOf o = some x

theorem Owned.kind_of_handle (h : Owned s) {o : Owner} (hx : s.handleOf o = some x) :
    s.kind x = some o.isTcp := by
  cases o with
  | flow f =>
    obtain ⟨e, he, rfl⟩ := map_eq_some_iff.mp hx
    exact h.tcp.kinds f e he
  | port p =>
    obtain ⟨q, hq, rfl⟩ := map_eq_some_iff.mp hx
    exact h.port.kinds p q hq

/-- A socket has one owner. -/
theorem Owned.owner_unique (h : Owned s) {o o' : Owner} (hx : s.handleOf o = some x)
    (hx' : s.handleOf o' = some x) : o = o' := by
  have hkinds : o.isTcp = o'.isTcp :=
    some.inj ((h.kind_of_handle hx).symm.trans (h.kind_of_handle hx'))
  cases o with
  | flow f =>
    cases o' with
    | port p => cases hkinds
    | flow f' =>
      obtain ⟨e, he, rfl⟩ := map_eq_some_iff.mp hx
      obtain ⟨e', he', heq⟩ := map_eq_some_iff.mp hx'
      rw [h.tcp.distinct f f' e e' he he' heq.symm]
  | port p =>
    cases o' with
    | flow f => cases hkinds
    | port p' =>
      obtain ⟨q, hq, rfl⟩ := map_eq_some_iff.mp hx
      obtain ⟨q', hq', heq⟩ := map_eq_some_iff.mp hx'
      rw [h.port.distinct p p' q q' hq hq' heq.symm]

/-- When nothing is retired, every socket has an owner. -/
theorem Attended.exists_owner (h : Attended s) (hretired : s.retired = []) {socket : Socket}
    (hsocket : s.sockets.lookup x = some socket) : ∃ o, s.handleOf o = some x := by
  have hkind : s.kind x ≠ none := by
    unfold Loop.kind
    rw [hsocket]
    exact some_ne_none _
  rcases h x hkind with ⟨f, e, he, rfl⟩ | ⟨p, q, hq, rfl⟩ | hmem
  · exact ⟨.flow f, by rw [handleOf, he]; rfl⟩
  · exact ⟨.port p, by rw [handleOf, hq]; rfl⟩
  · rw [hretired] at hmem
    cases hmem

/-- **The flow tables are consistent and bounded.** In every state that the loop reaches at
the end of an iteration, under all packets, moves of the stack, completions of tasks and
times: at most 512 TCP flows, 512 UDP flows and 256 ports; every UDP flow's target has a
port; every TCP flow and every port has a socket of its own kind in the set, no two the
same; and every socket of the set is one of these. -/
theorem flow_tables_consistent (hrun : packetLoop.Reaches Lts.anyStep Loop.new s)
    (hend : s.phase = .intake) : Orderly s := by
  have h : Tidy s := tidy_of_reaches hrun
  have hretired : s.retired = [] := h.swept (by rw [hend]; rfl)
  refine ⟨h.roomy.tcp, h.roomy.udp, h.roomy.ports, h.roomy.target, fun o x hx => ?_,
    fun o o' x => h.owned.owner_unique, fun x socket => h.attended.exists_owner hretired⟩
  exact map_eq_some_iff.mp (h.owned.kind_of_handle hx)

section

/-- A client and a server, for one TCP flow and one UDP flow. -/
def sampleFlow (tcp : Bool) : Flow :=
  ⟨⟨.v4 10, 5000⟩, ⟨.v4 20, 53⟩, tcp⟩

/-- Three iterations: a TCP flow opens, a UDP flow opens behind its port, and the TCP socket
is closed and swept. -/
def threeIterations : List Action :=
  [.packet (sampleFlow true) true 0, .next, .next, .pump ⟨false, false, false⟩, .next, .next,
    .next, .next, .next,
   .packet (sampleFlow false) false 1, .next, .next, .pump ⟨true, false, false⟩, .next,
    .datagram (sampleFlow false).source (sampleFlow false).target, .next, .next, .expire, .next,
    .next,
   .idle, .wire 0 .closed, .next, .next, .pump ⟨false, false, false⟩, .next, .next, .next,
    .expire, .next, .next]

/-- The port and its flow are left, with one socket. -/
theorem flow_tables_consistent_three :
    ∃ s, packetLoop.Reaches Lts.anyStep Loop.new s ∧ s.phase = .intake ∧
      s.sockets.keys = [1] ∧ s.udp.keys = [sampleFlow false] ∧ Orderly s := by
  obtain ⟨s, hrun, htest⟩ : ∃ s, packetLoop.Reaches Lts.anyStep Loop.new s ∧
      decide (s.phase = .intake ∧ s.sockets.keys = [1] ∧ s.udp.keys = [sampleFlow false]) = true :=
    Lts.run_any _ threeIterations (by decide +kernel)
  obtain ⟨hend, hsockets, hudp⟩ := of_decide_eq_true htest
  exact ⟨s, hrun, hend, hsockets, hudp, flow_tables_consistent hrun hend⟩

end

end ClashMeta.Packet
