import ClashMeta.Protocol.Xudp.RecvSteps

/-!
# No session is stranded by a failure

`fail_multiplexer` clears `alive` before it takes the route table, and takes the
table under the mutex under which `session` checks `alive` a second time. So a
session is either registered before the table is taken, and then its sender is
among those taken, or not at all (`FailInv`).
-/

namespace ClashMeta.Xudp

open List Table AList

variable {s s' : Demux} {log : List Event}

/-! ## Senders -/

/-- Where the senders of a session's channel can be. -/
def HasSender (s : Demux) (key : Nat) : Prop :=
  (∃ id r, s.routes.lookup id = some r ∧ r.sender = key) ∨
  (∃ r item, s.reader = .delivering r item ∧ r.sender = key) ∨
  ∃ c f routes, s.fails.lookup c = some f ∧ f.stage = .telling routes ∧
    ∃ r ∈ routes, r.sender = key

/-- The check of `recv` finds them. -/
theorem senderLeft_eq_true_iff {key : Nat} : s.senderLeft key = true ↔ HasSender s key := by
  unfold Demux.senderLeft HasSender
  rw [Bool.or_eq_true, Bool.or_eq_true, any_eq_true, any_eq_true, or_assoc]
  refine or_congr ?_ (or_congr ?_ ?_)
  · constructor
    · rintro ⟨r, hr, hkey⟩
      obtain ⟨id, hid⟩ := mem_values_iff.mp hr
      exact ⟨id, r, hid, of_decide_eq_true hkey⟩
    · rintro ⟨id, r, hid, hkey⟩
      exact ⟨r, mem_values_iff.mpr ⟨id, hid⟩, decide_eq_true hkey⟩
  · cases s.reader <;> simp
  · constructor
    · rintro ⟨f, hf, htelling⟩
      obtain ⟨c, hc⟩ := mem_values_iff.mp hf
      split at htelling
      · rename_i routes hstage
        obtain ⟨r, hr, hkey⟩ := any_eq_true.mp htelling
        exact ⟨c, f, routes, hc, hstage, r, hr, of_decide_eq_true hkey⟩
      · cases htelling
    · rintro ⟨c, f, routes, hc, hstage, r, hr, hkey⟩
      refine ⟨f, mem_values_iff.mpr ⟨c, hc⟩, ?_⟩
      rw [hstage]
      exact any_eq_true.mpr ⟨r, hr, decide_eq_true hkey⟩

/-- A drained queue without a sender gives an error. -/
theorem recv_of_no_sender {key : Nat} {m : MuxSession} (hm : s.sessions.lookup key = some m)
    (hempty : m.receiver = []) (hnone : ¬ HasSender s key) :
    s.recv key = some (.error "XUDP multiplexer closed") := by
  have hleft : s.senderLeft key = false :=
    Bool.eq_false_of_not_eq_true (mt senderLeft_eq_true_iff.mp hnone)
  simp only [Demux.recv, hm, hempty, hleft, Option.bind_eq_bind, Option.bind_some,
    Bool.false_eq_true, if_false]

/-! ## The invariant -/

/-- The calls of `session` and `fail_multiplexer`, the mutex and the flag. -/
structure FailInv (s : Demux) (log : List Event) : Prop where
  /-- a `session` call past the acquisition holds the mutex -/
  holder : ∀ key c, s.calls.lookup key = some c → c.stage ≠ .entered → s.lock = some key
  /-- before the swap no failing call is past it and none has returned from the table -/
  before : s.alive = true →
    (∀ c f, s.fails.lookup c = some f → f.stage = .called) ∧ Event.failed ∉ log
  /-- one failing call at most is past the swap -/
  unique : ∀ c c' f f', s.fails.lookup c = some f → s.fails.lookup c' = some f' →
    f.stage ≠ .called → f'.stage ≠ .called → c = c'
  /-- once it has returned, none is -/
  done : Event.failed ∈ log → ∀ c f, s.fails.lookup c = some f → f.stage = .called
  /-- after the swap, the table is still to be taken, or it is empty and stays so -/
  swept : s.alive = false → (∃ c f, s.fails.lookup c = some f ∧ f.stage = .swapped) ∨
    (s.routes = ∅ ∧ ∀ key c, s.calls.lookup key = some c → c.stage ≠ .allowed)
  /-- the reader and the multiplexer's drop fail once at most -/
  reader : s.reader ≠ .stopped → s.fails.lookup .reader = none
  mux : s.held = true → s.fails.lookup .mux = none

theorem failInv_new (inbound : List Byte) : FailInv (Demux.new inbound) [] :=
  ⟨nofun, fun _ => ⟨nofun, not_mem_nil⟩, nofun, nofun, nofun, fun _ => rfl, fun _ => rfl⟩

section

variable {log' : List Event} {routes : Table UInt16 Route} {sessions : Table Nat MuxSession}
  {calls : Table Nat SessionCall} {lock : Option Nat} {reader : Phase} {inbound : List Byte}
  {held : Bool} {fresh : Nat} {nextId : UInt16} {key : Nat} {c : Caller} {f : Failure}

theorem lookup_insert_of_none {fails : Table Caller Failure} {c' : Caller}
    (hnone : fails.lookup c' = none) (hfail : fails.lookup c = some f) (f' : Failure) :
    (fails.insert c f').lookup c' = none := by
  rw [lookup_insert_ne]
  · exact hnone
  · rintro rfl
    rw [hnone] at hfail
    cases hfail

namespace FailInv

variable (hinv : FailInv s log)

include hinv

/-- Where no call gets past the swap, the rest of the invariant is left to show. -/
theorem of_past (halive : s'.alive = s.alive)
    (hpast : ∀ c f, s'.fails.lookup c = some f → f.stage ≠ .called →
      ∃ f', s.fails.lookup c = some f' ∧ f'.stage ≠ .called)
    (hlog : Event.failed ∈ log' → Event.failed ∈ log ∨
      s.alive = false ∧ ∀ c f, s'.fails.lookup c = some f → f.stage = .called)
    (hholder : ∀ key c, s'.calls.lookup key = some c → c.stage ≠ .entered → s'.lock = some key)
    (hswept : s.alive = false → (∃ c f, s'.fails.lookup c = some f ∧ f.stage = .swapped) ∨
      (s'.routes = ∅ ∧ ∀ key c, s'.calls.lookup key = some c → c.stage ≠ .allowed))
    (hreader : s'.reader ≠ .stopped → s'.fails.lookup .reader = none)
    (hmux : s'.held = true → s'.fails.lookup .mux = none) : FailInv s' log' := by
  -- calls before the swap stay before it
  have hcalled : (∀ c f, s.fails.lookup c = some f → f.stage = .called) →
      ∀ c f, s'.fails.lookup c = some f → f.stage = .called := by
    intro hall c f hf
    by_contra hstage
    obtain ⟨f', hf', hstage'⟩ := hpast c f hf hstage
    exact hstage' (hall c f' hf')
  refine ⟨hholder, ?_, ?_, ?_, by rwa [halive], hreader, hmux⟩
  · intro h
    rw [halive] at h
    obtain ⟨hall, hnot⟩ := hinv.before h
    refine ⟨hcalled hall, fun hfailed => ?_⟩
    rcases hlog hfailed with hbefore | ⟨hdead, -⟩
    · exact hnot hbefore
    · rw [hdead] at h
      cases h
  · intro c₁ c₂ f₁ f₂ h₁ h₂ hs₁ hs₂
    obtain ⟨g₁, hg₁, hgs₁⟩ := hpast c₁ f₁ h₁ hs₁
    obtain ⟨g₂, hg₂, hgs₂⟩ := hpast c₂ f₂ h₂ hs₂
    exact hinv.unique c₁ c₂ g₁ g₂ hg₁ hg₂ hgs₁ hgs₂
  · intro h
    rcases hlog h with hbefore | ⟨-, hall⟩
    · exact hcalled (hinv.done hbefore)
    · exact hall

section

variable (hlog : Event.failed ∈ log' → Event.failed ∈ log)

include hlog

/-- The steps that concern no call. -/
theorem keep (hroutes : s.routes = ∅ → routes = ∅)
    (hreader : reader ≠ .stopped → s.reader ≠ .stopped) :
    FailInv { s with routes := routes, sessions := sessions, reader := reader, inbound := inbound }
      log' :=
  hinv.of_past rfl (fun _ f hf hstage => ⟨f, hf, hstage⟩) (fun h => .inl (hlog h)) hinv.holder
    (fun h => (hinv.swept h).imp_right fun ⟨hempty, hcall⟩ => ⟨hroutes hempty, hcall⟩)
    (fun h => hinv.reader (hreader h)) hinv.mux

/-- The steps of a `session` call: what is left to show is who holds the mutex, and
that nothing is registered once the table has been taken. -/
theorem call
    (hholder : ∀ key c, calls.lookup key = some c → c.stage ≠ .entered → lock = some key)
    (hswept : s.alive = false → s.routes = ∅ →
      (∀ key c, s.calls.lookup key = some c → c.stage ≠ .allowed) →
      routes = ∅ ∧ ∀ key c, calls.lookup key = some c → c.stage ≠ .allowed) :
    FailInv { s with
      calls := calls, lock := lock, routes := routes, sessions := sessions
      nextId := nextId, fresh := fresh } log' :=
  hinv.of_past rfl (fun _ f hf hstage => ⟨f, hf, hstage⟩) (fun h => .inl (hlog h)) hholder
    (fun h => (hinv.swept h).imp_right fun ⟨hempty, hcall⟩ => hswept h hempty hcall)
    hinv.reader hinv.mux

/-- A `session` call that holds the mutex returns: nobody else was past the
acquisition. -/
theorem leave {c : SessionCall} (hcall : s.calls.lookup key = some c)
    (hstage : c.stage ≠ .entered) (hroutes : c.stage ≠ .allowed → s.routes = ∅ → routes = ∅) :
    FailInv { s with
      calls := s.calls.erase key, lock := lock, routes := routes, sessions := sessions
      nextId := nextId, fresh := fresh } log' := by
  refine hinv.call hlog ?_ ?_
  · intro key' c' hc' hstage'
    obtain ⟨hne, hc'⟩ := lookup_erase_some hc'
    have hlock := hinv.holder key c hcall hstage
    rw [hinv.holder key' c' hc' hstage'] at hlock
    exact absurd (Option.some.inj hlock) hne
  · intro _ hempty hnone
    exact ⟨hroutes (hnone key c hcall) hempty,
      fun key' c' hc' => hnone key' c' (lookup_erase_some hc').2⟩

/-- A failing call past the swap moves on to another stage past the swap, with the
table empty. -/
theorem advance {stage : FailStage} (hfail : s.fails.lookup c = some f)
    (hstage : f.stage ≠ .called) (hroutes : routes = ∅)
    (hallowed : ∀ key c, s.calls.lookup key = some c → c.stage ≠ .allowed) :
    FailInv { s with
      fails := s.fails.insert c { f with stage := stage }, routes := routes
      sessions := sessions } log' := by
  refine hinv.of_past rfl ?_ (fun h => .inl (hlog h)) hinv.holder
    (fun _ => .inr ⟨hroutes, hallowed⟩)
    (fun h => lookup_insert_of_none (hinv.reader h) hfail _)
    (fun h => lookup_insert_of_none (hinv.mux h) hfail _)
  intro c' f' hf' hstage'
  obtain ⟨rfl, -⟩ | ⟨-, hf'⟩ := lookup_insert_cases hf'
  · exact ⟨f, hfail, hstage⟩
  · exact ⟨f', hf', hstage'⟩

end

/-- A call of `fail_multiplexer` begins. -/
theorem enter {message : String} (hnone : s.fails.lookup c = none)
    (hreader : reader ≠ .stopped → c ≠ .reader ∧ s.reader ≠ .stopped)
    (hmux : held = true → c ≠ .mux ∧ s.held = true) :
    FailInv { s with
      fails := s.fails.insert c ⟨message, .called⟩, reader := reader, held := held
      inbound := inbound } log := by
  refine hinv.of_past rfl ?_ .inl hinv.holder ?_ ?_ ?_
  · -- the new call is not past the swap
    intro c' f hf hstage
    obtain ⟨-, rfl⟩ | ⟨-, hf⟩ := lookup_insert_cases hf
    · exact absurd rfl hstage
    · exact ⟨f, hf, hstage⟩
  · intro h
    refine (hinv.swept h).imp_left ?_
    rintro ⟨c', f, hf, hstage⟩
    refine ⟨c', f, (lookup_insert_ne ?_).trans hf, hstage⟩
    rintro rfl
    rw [hnone] at hf
    cases hf
  · intro h
    exact (lookup_insert_ne (hreader h).1.symm).trans (hinv.reader (hreader h).2)
  · intro h
    exact (lookup_insert_ne (hmux h).1.symm).trans (hinv.mux (hmux h).2)

/-- The reader begins one at most. -/
theorem readerFails (hwants : s.reader.wants ≠ 0) (message : String)
    (inbound : List Byte) :
    FailInv ({ s with inbound := inbound }.readerFails message) log := by
  refine hinv.enter (hinv.reader ?_) (fun h => absurd rfl h) (fun h => ⟨nofun, h⟩)
  intro h
  rw [h] at hwants
  exact hwants rfl

variable (hfail : s.fails.lookup c = some f)

include hfail

/-- Behind the swap `alive` is clear. -/
theorem dead (hstage : f.stage ≠ .called) : s.alive = false := by
  by_contra h
  exact hstage ((hinv.before (Bool.eq_true_of_not_eq_false h)).1 c f hfail)

/-- It returns from behind the last route, or because another came first. -/
theorem returns (hstage : f.stage ≠ .swapped)
    (hlog : Event.failed ∈ log' → Event.failed ∈ log ∨ f.stage ≠ .called)
    (hdead : s.alive = false) : FailInv { s with fails := s.fails.erase c } log' := by
  refine hinv.of_past rfl (fun _ f' hf' hs => ⟨f', (lookup_erase_some hf').2, hs⟩) ?_
    hinv.holder ?_ ?_ ?_
  · intro h
    refine (hlog h).imp_right fun hpast => ⟨hdead, fun c' f' hf' => ?_⟩
    -- the call that returns was the only one past the swap
    obtain ⟨hne, hf'⟩ := lookup_erase_some hf'
    by_contra hstage'
    exact hne (hinv.unique c' c f' f hf' hfail hstage' hpast)
  · intro _
    refine (hinv.swept hdead).imp_left ?_
    rintro ⟨c', f', hf', hswapped⟩
    refine ⟨c', f', (lookup_erase_ne ?_).trans hf', hswapped⟩
    rintro rfl
    rw [hfail] at hf'
    cases hf'
    exact hstage hswapped
  · intro h
    rw [lookup_erase_if, hinv.reader h, ite_self]
  · intro h
    rw [lookup_erase_if, hinv.mux h, ite_self]

/-- While the sessions are told, the table is empty and nobody is let in. -/
theorem taken {routes : List Route} (hstage : f.stage = .telling routes) :
    s.alive = false ∧ s.routes = ∅ ∧ ∀ key c, s.calls.lookup key = some c → c.stage ≠ .allowed := by
  have hpast : f.stage ≠ .called := by simp [hstage]
  have hdead := hinv.dead hfail hpast
  refine ⟨hdead, ?_⟩
  rcases hinv.swept hdead with ⟨c', f', hf', hswapped⟩ | hempty
  · obtain rfl := hinv.unique c c' f f' hfail hf' hpast (by simp [hswapped])
    rw [hfail] at hf'
    cases hf'
    rw [hstage] at hswapped
    cases hswapped
  · exact hempty

/-- The first to swap finds no other past it. -/
theorem swap (halive : s.alive) :
    FailInv { s with alive := false, fails := s.fails.insert c { f with stage := .swapped } }
      log := by
  obtain ⟨hcalled, hnone⟩ := hinv.before halive
  have hpast : ∀ c' f', (s.fails.insert c { f with stage := .swapped }).lookup c' = some f' →
      f'.stage ≠ .called → c' = c := by
    intro c' f' hf' hstage'
    obtain ⟨heq, -⟩ | ⟨-, hf'⟩ := lookup_insert_cases hf'
    · exact heq
    · exact absurd (hcalled c' f' hf') hstage'
  refine ⟨hinv.holder, nofun, ?_, fun h => absurd h hnone,
    fun _ => .inl ⟨c, { f with stage := .swapped }, lookup_insert _, rfl⟩,
    fun h => lookup_insert_of_none (hinv.reader h) hfail _,
    fun h => lookup_insert_of_none (hinv.mux h) hfail _⟩
  intro c₁ c₂ f₁ f₂ h₁ h₂ hs₁ hs₂
  exact (hpast c₁ f₁ h₁ hs₁).trans (hpast c₂ f₂ h₂ hs₂).symm

end FailInv

end

/-- **One step keeps the invariant.** -/
theorem failInv_step [IpText] {a : RecvAction} {shown : List Event} (hinv : FailInv s log)
    (h : RecvStep s a s' shown) : FailInv s' (log ++ shown) := by
  have hnil : Event.failed ∈ log ++ [] → Event.failed ∈ log := by simp
  cases h with
  | refused _ _ _ | closed key m hm hqueue => exact hinv.keep hnil id id
  | entered target globalId halive =>
    refine hinv.call hnil ?_ ?_
    · intro key c hc hstage
      obtain ⟨-, rfl⟩ | ⟨-, hc⟩ := lookup_insert_cases hc
      · exact absurd rfl hstage
      · exact hinv.holder key c hc hstage
    · intro hdead
      rw [halive] at hdead
      cases hdead
  | locked key c hcall hstage hfree =>
    refine hinv.call hnil ?_ ?_
    · intro key' c' hc' hstage'
      obtain ⟨rfl, -⟩ | ⟨-, hc'⟩ := lookup_insert_cases hc'
      · rfl
      · -- the mutex was free, so nobody else is past the acquisition
        rw [hinv.holder key' c' hc' hstage'] at hfree
        cases hfree
    · intro _ hempty hnone
      refine ⟨hempty, ?_⟩
      intro key' c' hc'
      obtain ⟨-, rfl⟩ | ⟨-, hc'⟩ := lookup_insert_cases hc'
      · exact nofun
      · exact hnone key' c' hc'
  | allowed key c hcall hstage halive =>
    refine hinv.call hnil ?_ ?_
    · intro key' c' hc' hstage'
      obtain ⟨rfl, -⟩ | ⟨-, hc'⟩ := lookup_insert_cases hc'
      · exact hinv.holder key' c hcall (by simp [hstage])
      · exact hinv.holder key' c' hc' hstage'
    · intro hdead
      rw [halive] at hdead
      cases hdead
  | turnedAway key c hcall hstage hdead | exhausted key c hcall hstage _ =>
    exact hinv.leave hnil hcall (by simp [hstage]) (fun _ h => h)
  | registered key c id hcall hstage _ =>
    -- a call let in before the swap may still register, but then the table is not yet taken
    exact hinv.leave (by simp) hcall (by simp [hstage])
      (fun hallowed _ => absurd hstage hallowed)
  | dropped key m hm hfree =>
    refine hinv.keep (by simp) ?_ id
    intro hempty
    rw [hempty]
    rfl
  | received key m item rest hm hqueue => exact hinv.keep (by simp) id id
  | called key message hnone =>
    rw [append_nil]
    exact hinv.enter hnone (fun h => ⟨nofun, h⟩) (fun h => ⟨nofun, h⟩)
  | swapped c f hfail hstage halive =>
    rw [append_nil]
    exact hinv.swap hfail halive
  | late c f hfail hstage hdead =>
    rw [append_nil]
    exact hinv.returns hfail (by simp [hstage]) .inl hdead
  | swept c f hfail hstage hfree =>
    refine hinv.advance (by simp) hfail (by simp [hstage]) rfl ?_
    intro key c' hc' hallowed
    rw [hinv.holder key c' hc' (by simp [hallowed])] at hfree
    cases hfree
  | told c f r rest hfail hstage =>
    obtain ⟨-, hempty, hnone⟩ := hinv.taken hfail hstage
    exact hinv.advance (by simp) hfail (by simp [hstage]) hempty hnone
  | failed c f hfail hstage =>
    obtain ⟨hdead, -, -⟩ := hinv.taken hfail hstage
    exact hinv.returns hfail (by simp [hstage])
      (fun _ => .inr (by simp [hstage])) hdead
  | muxDropped hheld _ _ =>
    rw [append_nil]
    exact hinv.enter (hinv.mux hheld) (fun h => ⟨nofun, h⟩) nofun
  | fed n p hpos hwants _ _ =>
    refine hinv.keep hnil id ?_
    intro _ hstopped
    rw [hstopped] at hwants
    exact absurd hwants (not_le.mpr hpos)
  | malformed n message hpos hwants _ _ =>
    rw [append_nil]
    exact hinv.readerFails (by omega) message (s.inbound.drop n)
  | readError message hwants =>
    rw [append_nil]
    exact hinv.readerFails hwants message s.inbound
  | skipped m payload hreader _ | cloned m bytes r hreader _ _ _ _ | delivered r item hreader =>
    exact hinv.keep (by simp) id (fun _ => by simp [hreader])
  | ended m payload r hreader _ _ hroute =>
    refine hinv.keep (by simp) ?_ (fun _ => by simp [hreader])
    intro hempty
    rw [hempty] at hroute
    cases hroute
  | aborted _ _ => exact hinv.keep hnil id (fun h => absurd rfl h)

/-- It holds along every run. -/
theorem failInv_of_reaches [IpText] {inbound : List Byte} {p : Demux × List Event}
    (h : (demuxSystem inbound).Reaches Lts.anyStep (Demux.new inbound, []) p) :
    FailInv p.1 p.2 := by
  refine h.invariant (I := fun p => FailInv p.1 p.2) (failInv_new inbound) ?_
  intro p q a hinv _ hstep
  obtain ⟨hstep, hlog⟩ := Lts.recorded_step_iff.mp hstep
  rw [hlog]
  exact failInv_step hinv (recv_step hstep)

/-! ## The guarantee -/

/-- **A failure strands no session**: once a `fail_multiplexer` call that found
`alive` set has returned, the route table is empty, `session` refuses, no call of it
under way gets past its second check, and a session whose queue is drained gets an
error from `recv`, at once or as soon as the reader has dropped the one route it may
still hold, which no other party can delay. -/
theorem failure_strands_no_session [IpText] {inbound : List Byte}
    (h : (demuxSystem inbound).Reaches Lts.anyStep (Demux.new inbound, []) (s, log))
    (hfailed : Event.failed ∈ log) :
    s.routes = ∅ ∧
    (∀ target globalId, s.call target globalId = .error "XUDP multiplexer is closed") ∧
    (∀ key c, s.calls.lookup key = some c → c.stage ≠ .allowed ∧
      (c.stage = .locked → s.step (.check key) = some (s.leave key))) ∧
    (∀ key m, s.sessions.lookup key = some m → m.receiver = [] →
      (∀ r item, s.reader = .delivering r item → r.sender ≠ key) →
      s.recv key = some (.error "XUDP multiplexer closed")) ∧
    ∀ r item, s.reader = .delivering r item →
      ∃ s', s.step .deliver = some s' ∧ s'.reader = .idle := by
  have hinv : FailInv s log := failInv_of_reaches h
  have hcalled := hinv.done hfailed
  have hdead : s.alive = false := by
    by_contra halive
    exact (hinv.before (Bool.eq_true_of_not_eq_false halive)).2 hfailed
  obtain ⟨hempty, hnone⟩ : s.routes = ∅ ∧
      ∀ key c, s.calls.lookup key = some c → c.stage ≠ .allowed := by
    rcases hinv.swept hdead with ⟨c, f, hf, hswapped⟩ | hempty
    · rw [hcalled c f hf] at hswapped
      cases hswapped
    · exact hempty
  refine ⟨hempty, ?_, ?_, ?_, ?_⟩
  · intro target globalId
    rw [Demux.call, if_neg (by rw [hdead]; exact Bool.false_ne_true)]
  · intro key c hc
    refine ⟨hnone key c hc, ?_⟩
    intro hstage
    simp [Demux.step, Demux.check, hc, hstage, hdead]
  · intro key m hm hdrained hreader
    refine recv_of_no_sender hm hdrained ?_
    -- no sender is left: not in the table, in the hand of the reader or with a failing call
    rintro (⟨id, r, hr, -⟩ | ⟨r, item, hr, hkey⟩ | ⟨c, f, routes, hf, hstage, -⟩)
    · rw [hempty] at hr
      cases hr
    · exact hreader r item hr hkey
    · rw [hcalled c f hf] at hstage
      cases hstage
  · intro r item hr
    refine ⟨{ s with sessions := Mux.trySend r.sender item s.sessions, reader := .idle }, ?_, rfl⟩
    simp only [Demux.step, Demux.deliver, hr]

/-- Whether the failure is over. -/
def Event.isFailed : Event → Bool
  | .failed => true
  | _ => false

theorem Event.isFailed_iff {e : Event} : e.isFailed = true ↔ e = .failed := by
  cases e <;> simp [Event.isFailed]

/-- A failing write clears `alive` while a `session` call that was let in still holds
the mutex; the call registers its route, and the route is taken with the others. -/
def failedRun : List RecvAction :=
  [.call ⟨['a'], 53⟩ none, .lockRoutes 0, .fail 7 "XUDP write interrupted", .check 0,
    .swap (.task 7), .register 0, .take (.task 7), .tell (.task 7), .failed (.task 7)]

attribute [local instance] IpText.namesOnly

/-- The session of the late call gets the error. -/
theorem failure_strands_no_session_failedRun :
    ∃ s log, (demuxSystem []).Reaches Lts.anyStep (Demux.new [], []) (s, log) ∧
      Event.failed ∈ log ∧ s.recv 0 = some (.error "XUDP write interrupted") ∧
      s.routes = ∅ := by
  obtain ⟨⟨s, log⟩, hs, htest⟩ := Lts.run_any (M := demuxSystem []) (s := (Demux.new [], []))
    (fun p => p.2.any Event.isFailed &&
      (p.1.recv 0).any (RoutedPacket.fails "XUDP write interrupted")) failedRun
    (show (Lts.run _ Lts.anyStep _ _).any _ = true by decide +kernel)
  rw [Bool.and_eq_true] at htest
  obtain ⟨hlog, hrecv⟩ := htest
  have hfailed : Event.failed ∈ log := by
    obtain ⟨e, he, hisFailed⟩ := any_eq_true.mp hlog
    rwa [← Event.isFailed_iff.mp hisFailed]
  obtain ⟨item, hitem, hfails⟩ := (Option.any_eq_true _ _).mp hrecv
  refine ⟨s, log, hs, hfailed, ?_, (failure_strands_no_session hs hfailed).1⟩
  rw [hitem, RoutedPacket.fails_iff.mp hfails]

end ClashMeta.Xudp
