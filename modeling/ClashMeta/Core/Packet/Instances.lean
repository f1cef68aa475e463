import ClashMeta.Core.Packet.Effects

/-!
# Flow instances and the results of their tasks

A result is consumed under its flow's key, so it acts on whatever instance the
table holds for that key at that moment. This module says when that is the
instance whose task produced it.
-/

namespace ClashMeta.Packet

open List Table

/-- The socket is a TCP socket. -/
def Socket.isTcp : Socket → Bool
  | .tcp _ => true
  | .udp _ => false

namespace Loop

/-- The task of the instance that a flow's table holds. -/
def holder (s : Loop) (flow : Flow) : Option Nat :=
  if flow.tcp then (s.tcp.lookup flow).map TcpFlow.task else (s.udp.lookup flow).map UdpFlow.task

/-- The kind of a socket: TCP or not. -/
def kind (s : Loop) (handle : Nat) : Option Bool :=
  (s.sockets.lookup handle).map Socket.isTcp

end Loop

/-- An acting result of the flow's key waits to be consumed. -/
def Loop.waiting (s : Loop) (flow : Flow) : Bool :=
  s.tasks.values.any fun t => t.flow == flow && t.outcome.any (acts flow)

/-- The table holds another instance of the flow than the one of task `k`. -/
def Loop.takenOver (s : Loop) (k : Nat) (flow : Flow) : Bool := (s.holder flow).any (· ≠ k)

/-- The condition on a step, read on the state before it: a flow opens only when no acting
result of its key waits; and a task whose key was taken over does not end with an
acting result. -/
def SafeStep (s : Loop) : Action → Prop
  | .packet flow syn _ => (s.opensTcp flow syn && s.waiting flow) = false
  | .datagram source target =>
    ((s.udp.lookup ⟨source, target, false⟩).isNone && s.udp.size < maxUdp &&
      s.waiting ⟨source, target, false⟩) = false
  | .finish k o =>
    ((s.tasks.lookup k).any fun t => acts t.flow o && s.takenOver k t.flow) = false
  | _ => True

instance : DecidableRel SafeStep := fun s a => by
  unfold SafeStep
  split <;> infer_instance

/-! ## Results -/

/-- A task that has finished with a result that acts is the one its table holds, or the table holds
none. It is kept by every `SafeStep`: a flow does not open while an acting result of its key waits,
and a task whose key was taken over does not end with one. -/
def Calm (s : Loop) : Prop :=
  ∀ k t o, s.tasks.lookup k = some t → t.outcome = some o → acts t.flow o = true →
    ∀ j, s.holder t.flow = some j → j = k

/-- No task is new or newly finished, and no instance is new. -/
structure Settles (s t : Loop) : Prop where
  tasks : ∀ k x, t.tasks.lookup k = some x →
    ∃ y, s.tasks.lookup k = some y ∧ y.flow = x.flow ∧ y.outcome = x.outcome
  holder : ∀ flow j, t.holder flow = some j → s.holder flow = some j

variable {s t : Loop}

/-- Where nothing is new, it stays calm. -/
theorem Calm.settles (h : Calm s) (hst : Settles s t) : Calm t := by
  intro k x o hx ho hacts j hj
  obtain ⟨y, hy, hflow, hout⟩ := hst.tasks k x hx
  rw [← hflow] at hacts hj
  exact h k y o hy (hout.trans ho) hacts j (hst.holder _ j hj)

theorem Settles.of_eq (htasks : t.tasks = s.tasks) (htcp : t.tcp = s.tcp) (hudp : t.udp = s.udp) :
    Settles s t where
  tasks := fun k x hx => ⟨x, by rw [← htasks, hx], rfl, rfl⟩
  holder := by
    intro flow j hj
    unfold Loop.holder at hj ⊢
    rwa [← htcp, ← hudp]

variable {k x y handle : Nat}

/-- An abort changes neither the flow nor the outcome of a task. -/
theorem lookup_abortWhere {tasks : Table Nat Task} {p : Nat → Bool} {x : Task}
    (h : (Loop.abortWhere tasks p).lookup k = some x) :
    ∃ y, tasks.lookup k = some y ∧ y.flow = x.flow ∧ y.outcome = x.outcome := by
  unfold Loop.abortWhere at h
  rw [lookup_filterMap] at h
  obtain ⟨y, hy, hx⟩ := Option.bind_eq_some_iff.mp h
  cases hx
  exact ⟨y, hy, rfl, rfl⟩

theorem Settles.of_tables (htasks : ∀ k x, t.tasks.lookup k = some x →
      ∃ y, s.tasks.lookup k = some y ∧ y.flow = x.flow ∧ y.outcome = x.outcome)
    (htcp : ∀ f e, t.tcp.lookup f = some e → ∃ e', s.tcp.lookup f = some e' ∧ e'.task = e.task)
    (hudp : ∀ f e, t.udp.lookup f = some e → s.udp.lookup f = some e) : Settles s t where
  tasks := htasks
  holder := by
    intro flow j hj
    unfold Loop.holder at hj ⊢
    by_cases hf : flow.tcp = true
    · rw [if_pos hf] at hj ⊢
      obtain ⟨e, he, htask⟩ := Option.map_eq_some_iff.mp hj
      obtain ⟨e', he', hsame⟩ := htcp flow e he
      rw [he', Option.map_some, hsame, htask]
    · rw [if_neg hf] at hj ⊢
      obtain ⟨e, he, htask⟩ := Option.map_eq_some_iff.mp hj
      rw [hudp flow e he, Option.map_some, htask]

/-! ## What a step settles -/

variable {flow : Flow}

/-- Pumping a flow settles. -/
theorem settles_pumped (h : Pumped s flow t) : Settles s t := by
  cases h with
  | skip => exact .of_eq rfl rfl rfl
  | @keep e e' state state' he hsocket htask hhandle =>
    refine .of_tables (fun k x hx => ⟨x, hx, rfl, rfl⟩) (fun f x hx => ?_) fun f x hx => hx
    obtain ⟨hf, rfl⟩ | ⟨-, hx⟩ := lookup_insert_cases hx
    · exact ⟨e, by rw [hf, he], htask.symm⟩
    · exact ⟨x, hx, rfl⟩
  | retire he hsocket =>
    exact .of_tables (fun k x hx => lookup_abortWhere hx)
      (fun f x hx => ⟨x, (lookup_erase_some hx).2, rfl⟩) fun f x hx => hx

variable {target : IpEndpoint}

/-- So does the expiry of a port, -/
theorem settles_expired (h : Expired s target t) : Settles s t := by
  cases h with
  | skip => exact .of_eq rfl rfl rfl
  | gone hport =>
    refine .of_tables (fun k x hx => lookup_abortWhere hx) (fun f e he => ⟨e, he, rfl⟩)
      fun f x hx => ?_
    rw [lookup_filterMap] at hx
    obtain ⟨y, hy, hkept⟩ := Option.bind_eq_some_iff.mp hx
    split at hkept
    · cases hkept
    · cases hkept
      exact hy

/-- and consuming a result. -/
theorem settles_joined {o : Outcome} (h : Consumed { s with tasks := s.tasks.erase k } flow o t) :
    Settles s t := by
  have htasks : ∀ j x, (s.tasks.erase k).lookup j = some x →
      ∃ y, s.tasks.lookup j = some y ∧ y.flow = x.flow ∧ y.outcome = x.outcome :=
    fun j x hx => ⟨x, (lookup_erase_some hx).2, rfl, rfl⟩
  cases h with
  | remove hudp hacts =>
    exact .of_tables htasks (fun f e he => ⟨e, he, rfl⟩) fun f x hx =>
      (lookup_erase_some hx).2
  | _ => exact .of_tables htasks (fun f e he => ⟨e, he, rfl⟩) fun f x hx => hx

/-- A flow may open when no acting result of its key waits. -/
theorem Calm.opened (h : Calm s) (hquiet : s.waiting flow = false)
    (htasks : t.tasks = s.tasks.insert s.nextTask ⟨flow, false, none⟩)
    (hholder : ∀ f, f ≠ flow → t.holder f = s.holder f) : Calm t := by
  intro k x o hx ho hacts j hj
  rw [htasks] at hx
  obtain ⟨-, rfl⟩ | ⟨hk, hx⟩ := lookup_insert_cases hx
  · cases ho
  · by_cases hf : x.flow = flow
    · -- it would be waiting
      rw [Loop.waiting, any_eq_false] at hquiet
      have hno := hquiet x (mem_values_iff.mpr ⟨k, hx⟩)
      rw [hf] at hacts
      simp [hf, ho, hacts] at hno
    · rw [hholder x.flow hf] at hj
      exact h k x o hx ho hacts j hj

variable {a : Action}

/-- **One safe step** keeps the loop calm. -/
theorem calm_effect (h : Calm s) (hok : SafeStep s a) (heff : Effect s a t) : Calm t := by
  cases heff with
  | quiet => exact h
  | @openTcp flow syn handle hfree hopens =>
    have hquiet : s.waiting flow = false := by simpa [SafeStep, hopens] using hok
    refine h.opened hquiet rfl fun f hf => ?_
    show (if f.tcp then ((s.tcp.insert flow _).lookup f).map _ else _) = _
    rw [lookup_insert_if, if_neg hf]
    rfl
  | join hk ho hconsumed => exact h.settles (settles_joined hconsumed)
  | pump hpumped => exact h.settles (settles_pumped hpumped)
  | @openUdp source target port hport hnone hroom =>
    have hquiet : s.waiting ⟨source, target, false⟩ = false := by
      simpa [SafeStep, hnone, hroom] using hok
    refine h.opened hquiet rfl fun f hf => ?_
    show (if f.tcp then _ else ((s.udp.insert _ _).lookup f).map _) = _
    rw [lookup_insert_if, if_neg hf]
    rfl
  | expire hexpired => exact h.settles (settles_expired hexpired)
  | @finish k flow aborted outcome hk =>
    intro j x o hx ho hacts i hi
    obtain ⟨hj, rfl⟩ | ⟨-, hx⟩ := lookup_insert_cases hx
    · -- the task that has just ended
      cases ho
      have hnot : s.takenOver k flow = false := by simpa [SafeStep, hk, hacts] using hok
      change s.holder flow = some i at hi
      simpa [Loop.takenOver, hi, hj] using hnot
    · exact h j x o hx ho hacts i hi
  | _ => exact h.settles (.of_eq rfl rfl rfl)

/-! ## Sockets -/

section

variable {κ ν : Type} [DecidableEq κ] {kind kind' : Nat → Option Bool} {b : Bool}
  {m m' : Table κ ν} {handle : ν → Nat}

/-- Every entry of the table has a socket of kind `b` of its own. -/
structure Owns (kind : Nat → Option Bool) (b : Bool) (m : Table κ ν) (handle : ν → Nat) :
    Prop where
  kinds : ∀ k v, m.lookup k = some v → kind (handle v) = some b
  distinct : ∀ j k v w, m.lookup j = some v → m.lookup k = some w → handle v = handle w → j = k

/-- Entries that keep their handles keep their sockets. -/
theorem Owns.congr (h : Owns kind b m handle)
    (hm : ∀ k v, m'.lookup k = some v → ∃ w, m.lookup k = some w ∧ handle w = handle v ∧
      (kind (handle v) = some b → kind' (handle v) = some b)) : Owns kind' b m' handle where
  kinds := by
    intro k v hv
    obtain ⟨w, hw, hh, hkind⟩ := hm k v hv
    exact hkind (hh ▸ h.kinds k w hw)
  distinct := by
    intro j k v w hv hw heq
    obtain ⟨v', hv', hvh, -⟩ := hm j v hv
    obtain ⟨w', hw', hwh, -⟩ := hm k w hw
    exact h.distinct j k v' w' hv' hw' (by rw [hvh, hwh, heq])

/-- A new entry may take a socket that was free. -/
theorem Owns.insert (h : Owns kind b m handle) {k : κ} {v : ν} (hfree : kind (handle v) = none)
    (hnew : kind' (handle v) = some b) (hold : ∀ x, x ≠ handle v → kind' x = kind x) :
    Owns kind' b (m.insert k v) handle := by
  have hne : ∀ j w, m.lookup j = some w → handle w ≠ handle v := by
    intro j w hw heq
    have hkind := h.kinds j w hw
    rw [heq, hfree] at hkind
    cases hkind
  refine ⟨fun j w hw => ?_, fun i j x y hx hy heq => ?_⟩
  · obtain ⟨-, rfl⟩ | ⟨-, hw⟩ := lookup_insert_cases hw
    · exact hnew
    · rw [hold _ (hne j w hw)]
      exact h.kinds j w hw
  · obtain ⟨hi, rfl⟩ | ⟨-, hx⟩ := lookup_insert_cases hx <;>
      obtain ⟨hj, rfl⟩ | ⟨-, hy⟩ := lookup_insert_cases hy
    · exact hi.trans hj.symm
    · exact absurd heq.symm (hne j y hy)
    · exact absurd heq (hne i x hx)
    · exact h.distinct i j x y hx hy heq

end

/-- Every TCP flow has a TCP socket of its own that is not retired, every port a UDP socket
of its own, and retired sockets are TCP sockets. -/
structure Owned (s : Loop) : Prop where
  tcp : Owns s.kind true s.tcp TcpFlow.handle
  port : Owns s.kind false s.ports UdpPort.handle
  retired : ∀ h ∈ s.retired, s.kind h = some true
  live : ∀ f e, s.tcp.lookup f = some e → e.handle ∉ s.retired

/-- A socket that changes its state keeps its kind. -/
theorem kind_insert {socket : Socket} (hkind : s.kind y = some socket.isTcp) (x : Nat) :
    ((s.sockets.insert y socket).lookup x).map Socket.isTcp = s.kind x := by
  unfold Loop.kind at hkind ⊢
  rw [lookup_insert_if]
  by_cases hx : x = y
  · rw [if_pos hx, hx, hkind]
    rfl
  · rw [if_neg hx]

theorem kind_insert_ne (socket : Socket) (hx : x ≠ y) :
    ((s.sockets.insert y socket).lookup x).map Socket.isTcp = s.kind x := by
  unfold Loop.kind
  rw [lookup_insert_if, if_neg hx]

theorem kind_insert_self (socket : Socket) :
    ((s.sockets.insert y socket).lookup y).map Socket.isTcp = some socket.isTcp := by
  rw [lookup_insert_if, if_pos rfl]
  rfl

theorem kind_of_free (hfree : s.sockets.lookup y = none) : s.kind y = none := by
  unfold Loop.kind
  rw [hfree]
  rfl

/-- A new socket takes no other socket's place. -/
theorem kind_kept {b : Bool} (socket : Socket) (hnone : s.kind y = none) (hx : s.kind x = some b) :
    ((s.sockets.insert y socket).lookup x).map Socket.isTcp = some b := by
  refine (kind_insert_ne socket ?_).trans hx
  rintro rfl
  rw [hnone] at hx
  cases hx

/-- Where handles and kinds are kept, the sockets are still owned. -/
theorem Owned.congr (h : Owned s)
    (htcp : ∀ f e, t.tcp.lookup f = some e → ∃ e', s.tcp.lookup f = some e' ∧ e'.handle = e.handle)
    (hports : ∀ p q, t.ports.lookup p = some q →
      ∃ q', s.ports.lookup p = some q' ∧ q'.handle = q.handle)
    (hkind : ∀ x, t.kind x = s.kind x) (hretired : t.retired = s.retired) : Owned t where
  tcp := h.tcp.congr fun f e he => by
    obtain ⟨e', he', hh⟩ := htcp f e he
    exact ⟨e', he', hh, fun hk => (hkind _).trans hk⟩
  port := h.port.congr fun p q hq => by
    obtain ⟨q', hq', hh⟩ := hports p q hq
    exact ⟨q', hq', hh, fun hk => (hkind _).trans hk⟩
  retired := by
    intro x hx
    rw [hretired] at hx
    rw [hkind]
    exact h.retired x hx
  live := by
    intro f e he
    obtain ⟨e', he', hh⟩ := htcp f e he
    rw [hretired, ← hh]
    exact h.live f e' he'

theorem touch_ports {port : UdpPort} (hport : s.ports.lookup target = some port) (p : IpEndpoint)
    (q : UdpPort) (hq : (s.touch target port).ports.lookup p = some q) :
    ∃ q', s.ports.lookup p = some q' ∧ q'.handle = q.handle := by
  obtain ⟨hp, rfl⟩ | ⟨-, hq⟩ := lookup_insert_cases hq
  · exact ⟨port, by rw [hp, hport], rfl⟩
  · exact ⟨q, hq, rfl⟩

section

variable (h : Owned s)

include h

/-- A new flow owns its socket. -/
theorem owned_openTcp (hfree : s.sockets.lookup handle = none) : Owned (s.openTcp flow handle) := by
  have hnone : s.kind handle = none := kind_of_free hfree
  have hold : ∀ x b, s.kind x = some b → (s.openTcp flow handle).kind x = some b :=
    fun _ _ => kind_kept _ hnone
  refine ⟨h.tcp.insert hnone (kind_insert_self _) fun x hx => kind_insert_ne _ hx,
    h.port.congr fun p q hq => ⟨q, hq, rfl, hold _ _⟩, fun x hx => hold _ _ (h.retired x hx), ?_⟩
  intro f e he
  obtain ⟨-, rfl⟩ | ⟨-, he⟩ := lookup_insert_cases he
  · -- a retired handle is not free
    intro hx
    have hkind := h.retired handle hx
    rw [hnone] at hkind
    cases hkind
  · exact h.live f e he

/-- A new port owns its socket. -/
theorem owned_openPort (hfree : s.sockets.lookup handle = none) :
    Owned (s.openPort target handle) := by
  have hnone : s.kind handle = none := kind_of_free hfree
  have hold : ∀ x b, s.kind x = some b → (s.openPort target handle).kind x = some b :=
    fun _ _ => kind_kept _ hnone
  exact ⟨h.tcp.congr fun f e he => ⟨e, he, rfl, hold _ _⟩,
    h.port.insert hnone (kind_insert_self _) fun x hx => kind_insert_ne _ hx,
    fun x hx => hold _ _ (h.retired x hx), h.live⟩

/-- A flow that is retired gives its socket up. -/
theorem owned_pumped (hpumped : Pumped s flow t) : Owned t := by
  cases hpumped with
  | skip => exact h
  | @keep e e' state state' he hsocket htask hhandle =>
    refine h.congr (fun f x hx => ?_) (fun p q hq => ⟨q, hq, rfl⟩)
      (kind_insert (h.tcp.kinds flow e he)) rfl
    obtain ⟨hf, rfl⟩ | ⟨-, hx⟩ := lookup_insert_cases hx
    · exact ⟨e, by rw [hf, he], hhandle.symm⟩
    · exact ⟨x, hx, rfl⟩
  | @retire e state state' he hsocket =>
    have hkind : ∀ x, ((s.sockets.insert e.handle (.tcp state')).lookup x).map Socket.isTcp =
        s.kind x := kind_insert (h.tcp.kinds flow e he)
    refine ⟨h.tcp.congr fun f x hx =>
        ⟨x, (lookup_erase_some hx).2, rfl, fun hk => (hkind _).trans hk⟩,
      h.port.congr fun p q hq => ⟨q, hq, rfl, fun hk => (hkind _).trans hk⟩, fun x hx => ?_,
      fun f x hx hmem => ?_⟩
    · refine (hkind x).trans ?_
      rcases mem_append.mp hx with hx | hx
      · exact h.retired x hx
      · exact mem_singleton.mp hx ▸ h.tcp.kinds flow e he
    · -- the retired handle was this flow's own
      obtain ⟨hf, hx⟩ := lookup_erase_some hx
      rcases mem_append.mp hmem with hmem | hmem
      · exact h.live f x hx hmem
      · exact hf (h.tcp.distinct f flow x e hx he (mem_singleton.mp hmem))

/-- The socket of a port that expires was its own. -/
theorem owned_expired (hexpired : Expired s target t) : Owned t := by
  cases hexpired with
  | skip => exact h
  | @gone port p hport =>
    have hkind : ∀ x, x ≠ port.handle →
        ((s.sockets.erase port.handle).lookup x).map Socket.isTcp = s.kind x := by
      intro x hx
      rw [lookup_erase_if, if_neg hx]
      rfl
    -- a TCP socket is not the socket of the port
    have htcp : ∀ x, s.kind x = some true → x ≠ port.handle := by
      rintro x hx rfl
      rw [h.port.kinds target port hport] at hx
      cases hx
    refine ⟨h.tcp.congr fun f e he => ⟨e, he, rfl, fun hk => (hkind _ (htcp _ hk)).trans hk⟩,
      h.port.congr fun r q hq => ?_, fun x hx => ?_, h.live⟩
    · obtain ⟨hr, hq⟩ := lookup_erase_some hq
      refine ⟨q, hq, rfl, fun hk => (hkind _ fun heq => hr ?_).trans hk⟩
      exact h.port.distinct r target q port hq hport heq
    · have hx' := h.retired x hx
      exact (hkind x (htcp x hx')).trans hx'

/-- Only retired sockets are reaped. -/
theorem owned_reap : Owned s.reap := by
  have hkind : ∀ x, x ∉ s.retired → s.reap.kind x = s.kind x := by
    intro x hx
    show ((s.sockets.filterMap _).lookup x).map _ = (s.sockets.lookup x).map _
    rw [lookup_filterMap]
    cases s.sockets.lookup x with
    | none => rfl
    | some socket => simp [hx]
  refine ⟨h.tcp.congr fun f e he => ⟨e, he, rfl, fun hk => (hkind _ (h.live f e he)).trans hk⟩,
    h.port.congr fun p q hq => ⟨q, hq, rfl, fun hk => (hkind _ fun hmem => ?_).trans hk⟩,
    nofun, nofun⟩
  have hudp := h.port.kinds p q hq
  rw [h.retired _ hmem] at hudp
  cases hudp

/-- **One step** keeps the sockets owned. -/
theorem owned_effect (heff : Effect s a t) : Owned t := by
  cases heff with
  | quiet => exact h
  | openTcp hfree hopens => exact owned_openTcp h hfree
  | openPort hfree hopens => exact owned_openPort h hfree
  | @wire handle old state hsocket =>
    refine h.congr (fun f e he => ⟨e, he, rfl⟩) (fun p q hq => ⟨q, hq, rfl⟩) (kind_insert ?_) rfl
    unfold Loop.kind
    rw [hsocket]
    rfl
  | reap => exact owned_reap h
  | join hk ho hconsumed =>
    cases hconsumed with
    | abort htcp hacts he =>
      exact h.congr (fun f e he => ⟨e, he, rfl⟩) (fun p q hq => ⟨q, hq, rfl⟩)
        (kind_insert (h.tcp.kinds _ _ he)) rfl
    | _ =>
      exact h.congr (fun f e he => ⟨e, he, rfl⟩) (fun p q hq => ⟨q, hq, rfl⟩) (fun _ => rfl) rfl
  | pump hpumped => exact owned_pumped h hpumped
  | touch hport | openUdp hport =>
    exact h.congr (fun f e he => ⟨e, he, rfl⟩) (touch_ports hport) (fun _ => rfl) rfl
  | expire hexpired => exact owned_expired h hexpired
  | finish hk =>
    exact h.congr (fun f e he => ⟨e, he, rfl⟩) (fun p q hq => ⟨q, hq, rfl⟩) (fun _ => rfl) rfl

end

/-! ## Completions -/

theorem calm_new : Calm Loop.new := nofun

theorem owned_new : Owned Loop.new :=
  ⟨⟨nofun, nofun⟩, ⟨nofun, nofun⟩, nofun, nofun⟩

/-- Both hold along every safe run. -/
theorem invariants_of_reaches (hrun : packetLoop.Reaches SafeStep Loop.new s) :
    Calm s ∧ Owned s := by
  refine hrun.invariant (I := fun s => Calm s ∧ Owned s) ⟨calm_new, owned_new⟩ ?_
  intro s t a h hok hstep
  obtain ⟨u, phase, now, heff, rfl⟩ := step_effect hstep
  have hcalm : Calm u := calm_effect h.1 hok heff
  have howned : Owned u := owned_effect h.2 heff
  exact ⟨hcalm, howned.tcp, howned.port, howned.retired, howned.live⟩

/-- **A completion affects only its own instance.** In every run whose steps are all safe,
consuming the result of task `k` leaves the table entry and the socket of every TCP
flow instance with another task, and the table entry of every UDP flow instance with
another task, as they are. -/
theorem completion_isolated {k : Nat} (hrun : packetLoop.Reaches SafeStep Loop.new s)
    (hjoin : s.step (.join k) = some t) :
    (∀ f e, s.tcp.lookup f = some e → e.task ≠ k →
      t.tcp.lookup f = some e ∧ t.sockets.lookup e.handle = s.sockets.lookup e.handle) ∧
    (∀ f e, s.udp.lookup f = some e → e.task ≠ k → t.udp.lookup f = some e) := by
  obtain ⟨hcalm, howned⟩ := invariants_of_reaches hrun
  obtain ⟨u, phase, now, heff, rfl⟩ := step_effect hjoin
  cases heff with
  | @join k x o u hk ho hconsumed =>
    cases hconsumed with
    | nothing => exact ⟨fun f e he _ => ⟨he, rfl⟩, fun f e he _ => he⟩
    | @abort e' htcp hacts he' =>
      -- the aborted socket is that of the task's own instance
      have hholder : s.holder x.flow = some e'.task := by
        unfold Loop.holder
        rw [if_pos htcp, show s.tcp.lookup x.flow = some e' from he']
        rfl
      have hown : e'.task = k := hcalm k x o hk ho hacts e'.task hholder
      refine ⟨fun f e he hne => ⟨he, ?_⟩, fun f e he _ => he⟩
      show (s.sockets.insert e'.handle _).lookup e.handle = _
      rw [lookup_insert_if, if_neg]
      intro heq
      have hsame : f = x.flow := howned.tcp.distinct f x.flow e e' he he' heq
      rw [hsame, show s.tcp.lookup x.flow = some e' from he'] at he
      cases he
      exact hne hown
    | remove hudp hacts =>
      refine ⟨fun f e he _ => ⟨he, rfl⟩, fun f e he hne => ?_⟩
      show (s.udp.erase x.flow).lookup f = some e
      rw [lookup_erase_if, if_neg]
      · exact he
      · -- the removed entry is that of the task's own instance
        rintro rfl
        have hholder : s.holder x.flow = some e.task := by
          unfold Loop.holder
          rw [if_neg (by simp [hudp]), he]
          rfl
        exact hne (hcalm k x o hk ho hacts e.task hholder)
  | _ => exact ⟨fun f e he _ => ⟨he, rfl⟩, fun f e he _ => he⟩

/-! ## Two instances of one flow -/

/-- The flow of both. -/
def reused : Flow := ⟨⟨.v4 0x0a000002, 1000⟩, ⟨.v4 0x01010101, 443⟩, true⟩

/-- The steps from the join to the next intake while the flow is open. -/
def iteration : List Action :=
  [.next, .pump ⟨true, false, false⟩, .next, .next, .next, .next, .next]

/-- The first instance: a SYN, the handshake and a RST, an iteration each, up to the end of the
join phase of the last. -/
def upToReset : List Action :=
  [.packet reused true 0, .wire 0 .synReceived, .next] ++ iteration ++
    [.packet reused false 1, .wire 0 .established, .next] ++ iteration ++
    [.packet reused false 1, .wire 0 .closed, .next, .next]

/-- The flow is retired, and a new SYN takes over its key and its socket's place. -/
def reopen : List Action :=
  [.pump ⟨false, false, false⟩, .next, .next, .next, .next, .next,
    .packet reused true 0, .wire 0 .synReceived, .next]

/-- The second instance is open, and the result of the first task can be consumed. -/
def secondOpen (s : Loop) : Bool :=
  (s.step (.join 0)).isSome && s.tcp.lookup reused == some ⟨0, 1, 0⟩ &&
    s.sockets.lookup 0 == some (.tcp .synReceived)

/-- The first task ends by its abort when the second instance is open, and leaves it alone. -/
theorem completion_isolated_reopened :
    ∃ s t : Loop, packetLoop.Reaches SafeStep Loop.new s ∧ s.step (.join 0) = some t ∧
      t.tcp.lookup reused = some ⟨0, 1, 0⟩ ∧
      t.sockets.lookup 0 = some (.tcp .synReceived) := by
  have hany : (packetLoop.run SafeStep Loop.new (upToReset ++ reopen ++
      [.finish 0 .cancelled])).any secondOpen = true := by
    decide +kernel
  obtain ⟨s, hrun, hopen⟩ := Lts.run_any secondOpen _ hany
  simp only [secondOpen, Bool.and_eq_true, beq_iff_eq] at hopen
  obtain ⟨⟨hjoin, hflow⟩, hsocket⟩ := hopen
  obtain ⟨t, ht⟩ := Option.isSome_iff_exists.mp hjoin
  have hkept := (completion_isolated hrun ht).1 reused ⟨0, 1, 0⟩ hflow (by decide)
  exact ⟨s, t, hrun, ht, hkept.1, hkept.2.trans hsocket⟩

/-- The first task fails before its flow is retired, and its result aborts the socket of the
second instance. -/
theorem result_aborts_successor :
    ∃ s t : Loop, packetLoop.Reaches Lts.anyStep Loop.new s ∧ s.step (.join 0) = some t ∧
      s.tcp.lookup reused = some ⟨0, 1, 0⟩ ∧ s.sockets.lookup 0 = some (.tcp .synReceived) ∧
      t.sockets.lookup 0 = some (.tcp .closed) := by
  refine ⟨_, _, Lts.run_reaches (upToReset ++ [.finish 0 .err] ++ reopen) rfl, rfl, rfl, rfl, rfl⟩

end ClashMeta.Packet
