import ClashMeta.Protocol.Xudp.Framing

/-!
# What each session receives

`Mailbox` is what one session should see of a run, from the events alone: it is registered under
an id with a target; a KEEP frame with that id and a payload is on its way to it, with the
frame's address or else the session's own target as its source; an END with that id ends it with
a notice; what is on its way enters the queue unless 64 entries are waiting there.
-/

namespace ClashMeta.Xudp

open List Table Option AList Mux

/-! ## The specification of one session -/

/-- One session's view of a run. -/
structure Mailbox where
  /-- the id and target it is registered with -/
  route : Option (UInt16 × Target)
  /-- an item on its way to the queue -/
  hand : Option RoutedPacket
  /-- the multiplexer has failed while it was registered -/
  noticed : Bool
  /-- everything that has entered the queue, in order -/
  passed : List RoutedPacket
  /-- how much of it has been taken out by `recv` -/
  taken : Nat

namespace Mailbox

/-- A mailbox that nothing was sent to. -/
def empty : Mailbox := ⟨none, none, false, [], 0⟩

/-- An item reaches the queue: it enters unless 64 entries are waiting. -/
def offer (b : Mailbox) (item : RoutedPacket) : Mailbox :=
  if b.passed.length - b.taken < 64 then { b with passed := b.passed ++ [item] } else b

section

variable (b : Mailbox) (item : RoutedPacket)

@[simp] theorem offer_route : (b.offer item).route = b.route := by
  unfold offer
  split <;> rfl

@[simp] theorem offer_hand : (b.offer item).hand = b.hand := by
  unfold offer
  split <;> rfl

@[simp] theorem offer_noticed : (b.offer item).noticed = b.noticed := by
  unfold offer
  split <;> rfl

@[simp] theorem offer_taken : (b.offer item).taken = b.taken := by
  unfold offer
  split <;> rfl

end

/-- A frame on the wire. -/
def frame (b : Mailbox) (m : Metadata) (payload : Option (List Byte)) : Mailbox :=
  match b.route with
  | none => b
  | some (id, target) =>
    if m.id ≠ id ∨ m.status = statusKeepalive then b
    else if m.status = statusEnd then
      { b with route := none, hand := some (.error "XUDP session ended") }
    else
      match payload with
      | none => b
      | some bytes => { b with hand := some (.ok (m.target.getD target, bytes)) }

/-- What an event means for session `k`. -/
def step (k : Nat) (b : Mailbox) : Event → Mailbox
  | .registered key id target => if key = k then { b with route := some (id, target) } else b
  | .dropped key => if key = k then { b with route := none } else b
  | .frame m payload => b.frame m payload
  | .offered =>
    match b.hand with
    | none => b
    | some item => { b.offer item with hand := none }
  | .swept => if b.route.isSome then { b with route := none, noticed := true } else b
  | .told key item => if key = k then b.offer item else b
  | .failed => b
  | .received key _ => if key = k then { b with taken := b.taken + 1 } else b

end Mailbox

/-- Session `k`'s view of a whole run. -/
def mailbox (k : Nat) (log : List Event) : Mailbox := log.foldl (Mailbox.step k) .empty

/-- What `recv` has taken from the queue of session `k`. -/
def takenBy (k : Nat) (log : List Event) : List RoutedPacket :=
  log.filterMap fun
    | .received key item => if key = k then some item else none
    | _ => none

/-- The frames looked up, in order. -/
def framesOf (log : List Event) : List (Metadata × Option (List Byte)) :=
  log.filterMap fun
    | .frame m payload => some (m, payload)
    | _ => none

section

variable {k : Nat} {log : List Event} {e : Event}

@[simp] theorem mailbox_snoc : mailbox k (log ++ [e]) = (mailbox k log).step k e := by
  simp [mailbox]

@[simp] theorem takenBy_append (log' : List Event) :
    takenBy k (log ++ log') = takenBy k log ++ takenBy k log' :=
  filterMap_append

@[simp] theorem framesOf_append (log' : List Event) :
    framesOf (log ++ log') = framesOf log ++ framesOf log' :=
  filterMap_append

/-- The session an event is about, if it is about one. -/
def Event.about : Event → Option Nat
  | .registered key _ _ | .dropped key | .told key _ | .received key _ => some key
  | .frame _ _ | .offered | .swept | .failed => none

/-- An event of another session changes nothing. -/
theorem mailbox_other {key : Nat} (h : e.about = some key) (hne : k ≠ key) :
    mailbox k (log ++ [e]) = mailbox k log := by
  rw [mailbox_snoc]
  cases e with
  | registered _ _ _ | dropped _ | told _ _ | received _ _ =>
    cases h
    rw [Mailbox.step, if_neg hne.symm]
  | frame _ _ | offered | swept | failed => cases h

/-- Only receiving takes from the queue. -/
theorem takenBy_snoc (h : ∀ item, e ≠ .received k item) :
    takenBy k (log ++ [e]) = takenBy k log := by
  rw [takenBy_append]
  cases e with
  | received key item =>
    have hne : key ≠ k := fun heq => h item (heq ▸ rfl)
    simp [takenBy, hne]
  | _ => exact append_nil _

end

/-! ## Queues -/

variable {item : RoutedPacket}

/-- What is offered enters the queue while there is room. -/
theorem lookup_trySend {key : Nat} {sessions : Table Nat MuxSession} {m : MuxSession}
    (h : (trySend key item sessions).lookup key = some m) :
    ∃ m₀, sessions.lookup key = some m₀ ∧ m.id = m₀.id ∧
      m.receiver = if m₀.receiver.length < 64 then m₀.receiver ++ [item] else m₀.receiver := by
  unfold trySend at h
  split at h
  · rename_i hnone
    rw [hnone] at h
    cases h
  · rename_i m₀ hm₀
    refine ⟨m₀, hm₀, ?_⟩
    split at h
    · rename_i hroom
      rw [lookup_insert] at h
      cases h
      exact ⟨rfl, (if_pos hroom).symm⟩
    · rename_i hfull
      rw [hm₀] at h
      cases h
      exact ⟨rfl, (if_neg hfull).symm⟩

/-! ## The invariant -/

/-- A dropped session finds only its own route under its id. -/
def DropsOwn (p : Demux × List Event) (a : RecvAction) : Prop :=
  ∀ key m r, a = .dropSession key → p.1.sessions.lookup key = some m →
    p.1.routes.lookup m.id = some r → r.sender = key

instance : DecidableRel DropsOwn := fun p a =>
  match a with
  | .dropSession key =>
    decidable_of_iff (((p.1.sessions.lookup key).bind fun m => p.1.routes.lookup m.id).all
        fun r => r.sender = key) <| by
      simp only [Option.all_eq_true, Option.bind_eq_some_iff, decide_eq_true_eq, DropsOwn,
        RecvAction.dropSession.injEq]
      constructor
      · rintro h _ m r rfl hm hr
        exact h r ⟨m, hm, hr⟩
      · rintro h r ⟨m, hm, hr⟩
        exact h key m r rfl hm hr
  | .call _ _ | .lockRoutes _ | .check _ | .register _ | .recv _ | .fail _ _ | .swap _ | .take _
  | .tell _ | .failed _ | .dropMux | .read _ | .readError _ | .route | .deliver | .abort =>
    .isTrue nofun

/-- A failing call still has to tell session `k`. -/
def Telling (s : Demux) (k : Nat) : Prop :=
  ∃ c f routes, s.fails.lookup c = some f ∧ f.stage = .telling routes ∧ ∃ r ∈ routes, r.sender = k

/-- The key of a call that has not registered yet, or one that is still to be given out. -/
def Spare (s : Demux) (k : Nat) : Prop := (∃ c, s.calls.lookup k = some c) ∨ s.fresh ≤ k

/-- The multiplexer agrees with the mailbox `b` of session `k`, from which `taken` was
received. -/
structure Agrees (s : Demux) (k : Nat) (b : Mailbox) (taken : List RoutedPacket) : Prop where
  route : ∀ id t, b.route = some (id, t) ↔ s.routes.lookup id = some ⟨t, k⟩
  hand : ∀ item, b.hand = some item ↔ ∃ t, s.reader = .delivering ⟨t, k⟩ item
  queue : ∀ m, s.sessions.lookup k = some m →
    taken ++ m.receiver = b.passed ∧ b.taken = taken.length
  own : ∀ m id t, s.sessions.lookup k = some m → b.route = some (id, t) → m.id = id
  notice : Telling s k → b.noticed = true
  spare : Spare s k → (b = .empty ∧ taken = []) ∧ s.sessions.lookup k = none
  below : ∀ c, s.calls.lookup k = some c → k < s.fresh

/-- The multiplexer and the mailboxes of its sessions agree. -/
def MailInv (s : Demux) (log : List Event) : Prop :=
  ∀ k, Agrees s k (mailbox k log) (takenBy k log)

variable {s s' : Demux} {log : List Event} {k key : Nat} {b : Mailbox}
  {taken : List RoutedPacket}

namespace Agrees

variable (h : Agrees s k b taken)
include h

/-- A mailbox that something was sent to belongs to a session. -/
theorem not_spare (hne : b ≠ .empty) : ¬ Spare s k :=
  fun hspare => hne (h.spare hspare).1.1

/-- The key of a session is taken. -/
theorem not_spare_of_lookup {m : MuxSession} (hm : s.sessions.lookup k = some m) : ¬ Spare s k := by
  intro hspare
  rw [(h.spare hspare).2] at hm
  cases hm

/-- Steps that do not concern the session. -/
theorem frame
    (hroutes : ∀ id t, s'.routes.lookup id = some ⟨t, k⟩ ↔ s.routes.lookup id = some ⟨t, k⟩)
    (hreader : ∀ t item, s'.reader = .delivering ⟨t, k⟩ item ↔
      s.reader = .delivering ⟨t, k⟩ item)
    (hsession : s'.sessions.lookup k = s.sessions.lookup k) (htelling : Telling s' k → Telling s k)
    (hcalls : ∀ c, s'.calls.lookup k = some c →
      (∃ c', s.calls.lookup k = some c') ∨ (k = s.fresh ∧ s.fresh < s'.fresh))
    (hfresh : s.fresh ≤ s'.fresh) : Agrees s' k b taken := by
  constructor
  · intro id t
    rw [hroutes, h.route]
  · intro item
    rw [h.hand]
    exact exists_congr fun t => (hreader t item).symm
  · rw [hsession]
    exact h.queue
  · rw [hsession]
    exact h.own
  · exact fun ht => h.notice (htelling ht)
  · rw [hsession]
    rintro (⟨c, hc⟩ | hk)
    · rcases hcalls c hc with hc' | ⟨rfl, -⟩
      · exact h.spare (.inl hc')
      · exact h.spare (.inr le_rfl)
    · exact h.spare (.inr (le_trans hfresh hk))
  · intro c hc
    rcases hcalls c hc with ⟨c', hc'⟩ | ⟨rfl, hlt⟩
    · exact lt_of_lt_of_le (h.below c' hc') hfresh
    · exact hlt

/-- A session is registered under one id. -/
theorem sender_inj {id id' : UInt16} {t t' : Target}
    (hid : s.routes.lookup id = some ⟨t, k⟩) (hid' : s.routes.lookup id' = some ⟨t', k⟩) :
    id = id' := by
  have hroute := (h.route id t).mpr hid
  rw [(h.route id' t').mpr hid'] at hroute
  cases hroute
  rfl

/-- What is offered to the queue is offered to the mailbox. -/
theorem offered {m : MuxSession} (hm : (trySend k item s.sessions).lookup k = some m) :
    (taken ++ m.receiver = (b.offer item).passed ∧ (b.offer item).taken = taken.length) ∧
      ∀ id t, b.route = some (id, t) → m.id = id := by
  obtain ⟨m₀, hm₀, hid, hqueue⟩ := lookup_trySend hm
  obtain ⟨hpassed, hcount⟩ := h.queue m₀ hm₀
  have hwaiting : b.passed.length - b.taken = m₀.receiver.length := by
    rw [← hpassed, length_append]
    omega
  refine ⟨⟨?_, by rw [Mailbox.offer_taken, hcount]⟩,
    fun id t hr => hid.trans (h.own m₀ id t hm₀ hr)⟩
  unfold Mailbox.offer
  rw [hwaiting, hqueue]
  split
  · rw [← hpassed, append_assoc]
  · exact hpassed

end Agrees

/-- At first all mailboxes are empty. -/
theorem mailInv_new (inbound : List Byte) : MailInv (Demux.new inbound) [] :=
  fun _ => ⟨fun _ _ => ⟨nofun, nofun⟩, fun _ => ⟨nofun, nofun⟩, nofun, nofun, nofun,
    fun _ => ⟨⟨rfl, rfl⟩, rfl⟩, nofun⟩

variable {r : Route} {m : Metadata} {payload : Option (List Byte)}

/-- A frame with another id changes nothing. -/
theorem mailbox_frame_other (h : ∀ t, (mailbox k log).route ≠ some (m.id, t)) :
    mailbox k (log ++ [.frame m payload]) = mailbox k log := by
  rw [mailbox_snoc, Mailbox.step, Mailbox.frame]
  split
  · rfl
  · rename_i id target hroute
    rw [if_pos]
    refine .inl ?_
    rintro rfl
    exact h target hroute

namespace MailInv

variable (hinv : MailInv s log)
include hinv

/-- Steps that leave the routes, the reader's hand, the queues and the mailboxes as they
are. -/
theorem quiet {log' : List Event}
    (hbox : ∀ k, mailbox k log' = mailbox k log) (htaken : ∀ k, takenBy k log' = takenBy k log)
    (hroutes : s'.routes = s.routes)
    (hreader : ∀ r item, s'.reader = .delivering r item ↔ s.reader = .delivering r item)
    (hsessions : ∀ k, s'.sessions.lookup k = s.sessions.lookup k)
    (hfails : ∀ c f routes, s'.fails.lookup c = some f → f.stage = .telling routes →
      s.fails.lookup c = some f)
    (hcalls : ∀ k c, s'.calls.lookup k = some c →
      (∃ c', s.calls.lookup k = some c') ∨ (k = s.fresh ∧ s.fresh < s'.fresh))
    (hfresh : s.fresh ≤ s'.fresh) : MailInv s' log' := by
  intro k
  rw [hbox, htaken]
  refine (hinv k).frame (fun _ _ => by rw [hroutes]) (fun _ _ => hreader _ _)
    (hsessions k) ?_ (hcalls k) hfresh
  rintro ⟨c, f, routes, hf, hstage, hr⟩
  exact ⟨c, f, routes, hfails c f routes hf hstage, hstage, hr⟩

/-- A session is registered. -/
theorem registered {c : SessionCall} {id : UInt16}
    (hcall : s.calls.lookup key = some c) (hfree : s.routes.lookup id = none) :
    MailInv { s.leave key with
        routes := s.routes.insert id ⟨c.target, key⟩
        nextId := id + 1
        sessions := s.sessions.insert key ⟨id, c.target, c.globalId, ⟨true, true⟩, none, []⟩ }
      (log ++ [.registered key id c.target]) := by
  intro k
  have h := hinv k
  rw [takenBy_snoc (e := .registered key id c.target) fun _ => nofun]
  by_cases hk : k = key
  · subst hk
    obtain ⟨hbox, htaken⟩ := (h.spare (.inl ⟨c, hcall⟩)).1
    rw [hbox] at h
    rw [mailbox_snoc, hbox, htaken, Mailbox.step, if_pos rfl]
    have hcalled : ∀ c', (s.calls.erase k).lookup k ≠ some c' := fun c' hc' =>
      (lookup_erase_some hc').1 rfl
    refine ⟨?_, h.hand, ?_, ?_, h.notice, ?_, fun c' hc' => absurd hc' (hcalled c')⟩
    · intro id' t
      rw [lookup_insert_if]
      by_cases hid : id' = id
      · subst hid
        simp
      · rw [if_neg hid, ← h.route]
        refine ⟨fun heq => ?_, nofun⟩
        cases heq
        exact absurd rfl hid
    · intro m hm
      rw [lookup_insert] at hm
      cases hm
      exact ⟨rfl, rfl⟩
    · intro m id' t hm hroute
      rw [lookup_insert] at hm
      cases hm
      cases hroute
      rfl
    · rintro (⟨c', hc'⟩ | hle)
      · exact absurd hc' (hcalled c')
      · exact absurd (h.below c hcall) (not_lt.mpr hle)
  · rw [mailbox_other rfl hk]
    refine h.frame ?_ (fun _ _ => .rfl) (lookup_insert_ne hk) (fun ht => ht)
      (fun c' hc' => .inl ⟨c', (lookup_erase_some hc').2⟩) le_rfl
    intro id' t
    rw [lookup_insert_if]
    split
    · rename_i hid
      rw [hid, hfree]
      exact ⟨fun heq => absurd (Route.mk.inj (some.inj heq)).2.symm hk, nofun⟩
    · exact .rfl

/-- A session is dropped, with its own route. -/
theorem dropped {m : MuxSession} (hm : s.sessions.lookup key = some m)
    (hown : ∀ r, s.routes.lookup m.id = some r → r.sender = key) :
    MailInv { s with routes := s.routes.erase m.id, sessions := s.sessions.erase key }
      (log ++ [.dropped key]) := by
  intro k
  have h := hinv k
  rw [takenBy_snoc (e := .dropped key) fun _ => nofun]
  by_cases hk : k = key
  · subst hk
    have hgone : (s.sessions.erase k).lookup k = none := lookup_erase k s.sessions
    rw [mailbox_snoc, Mailbox.step, if_pos rfl]
    refine ⟨?_, h.hand, ?_, nofun, h.notice, ?_, h.below⟩
    · intro id t
      rw [lookup_erase_if]
      refine ⟨nofun, fun hid => ?_⟩
      -- the session's route stood under its id
      split at hid
      · cases hid
      · rename_i hne
        exact absurd (h.own m id t hm ((h.route id t).mpr hid)).symm hne
    · intro m' hm'
      rw [hgone] at hm'
      cases hm'
    · exact fun hspare => absurd hspare (h.not_spare_of_lookup hm)
  · rw [mailbox_other rfl hk]
    refine h.frame ?_ (fun _ _ => .rfl) (lookup_erase_ne hk) id
      (fun c hc => .inl ⟨c, hc⟩) le_rfl
    intro id t
    rw [lookup_erase_if]
    split
    · rename_i hid
      exact ⟨nofun, fun heq => absurd (hown _ (hid ▸ heq)) hk⟩
    · exact .rfl

/-- The front of a queue is received. -/
theorem received {m : MuxSession} {rest : List RoutedPacket}
    (hm : s.sessions.lookup key = some m) (hqueue : m.receiver = item :: rest) :
    MailInv { s with sessions := s.sessions.insert key { m with receiver := rest } }
      (log ++ [.received key item]) := by
  intro k
  have h := hinv k
  by_cases hk : k = key
  · subst hk
    have htaken : takenBy k (log ++ [.received k item]) = takenBy k log ++ [item] := by
      simp [takenBy]
    rw [mailbox_snoc, Mailbox.step, if_pos rfl, htaken]
    refine ⟨h.route, h.hand, ?_, ?_, h.notice, ?_, h.below⟩
    · intro m' hm'
      rw [lookup_insert] at hm'
      cases hm'
      obtain ⟨hpassed, hcount⟩ := h.queue m hm
      rw [hqueue] at hpassed
      rw [append_assoc, length_append, ← hcount]
      exact ⟨hpassed, rfl⟩
    · intro m' id t hm' hroute
      rw [lookup_insert] at hm'
      cases hm'
      exact h.own m id t hm hroute
    · exact fun hspare => absurd hspare (h.not_spare_of_lookup hm)
  · rw [mailbox_other rfl hk, takenBy_snoc]
    · exact h.frame (fun _ _ => .rfl) (fun _ _ => .rfl) (lookup_insert_ne hk) id
        (fun c hc => .inl ⟨c, hc⟩) le_rfl
    · rintro _ heq
      cases heq
      exact hk rfl

/-- A failing call takes all routes, and owes each a notice. -/
theorem swept {c : Caller} {f : Failure} :
    MailInv { s with
        routes := ∅
        fails := s.fails.insert c { f with stage := .telling (Table.values s.routes) } }
      (log ++ [.swept]) := by
  intro k
  have h := hinv k
  have hregistered : ∀ r ∈ Table.values s.routes, r.sender = k →
      (mailbox k log).route.isSome = true := by
    rintro ⟨t, _⟩ hr rfl
    obtain ⟨id, hid⟩ := mem_values_iff.mp hr
    rw [(h.route id t).mpr hid]
    rfl
  rw [takenBy_snoc (e := .swept) fun _ => nofun, mailbox_snoc, Mailbox.step]
  split
  · rename_i hsome
    refine ⟨fun _ _ => ⟨nofun, nofun⟩, h.hand, h.queue, nofun, fun _ => rfl, ?_, h.below⟩
    refine fun hspare => absurd hspare (h.not_spare ?_)
    intro hempty
    rw [hempty] at hsome
    cases hsome
  · rename_i hnone
    have hroute := not_isSome_iff_eq_none.mp hnone
    refine ⟨fun _ _ => by rw [hroute]; exact ⟨nofun, nofun⟩, h.hand, h.queue, ?_, ?_, h.spare,
      h.below⟩
    · intro m id t _ heq
      rw [hroute] at heq
      cases heq
    · rintro ⟨c', f', routes, hf', hstage, r, hr, hsender⟩
      obtain ⟨rfl, rfl⟩ | ⟨-, hf'⟩ := lookup_insert_cases hf'
      · cases hstage
        exact absurd (hregistered r hr hsender) hnone
      · exact h.notice ⟨c', f', routes, hf', hstage, r, hr, hsender⟩

/-- A session is told of the failure. -/
theorem told {c : Caller} {f : Failure} {rest : List Route}
    (hfail : s.fails.lookup c = some f) (hstage : f.stage = .telling (r :: rest)) :
    MailInv { s with
        sessions := trySend r.sender (.error f.message) s.sessions
        fails := s.fails.insert c { f with stage := .telling rest } }
      (log ++ [.told r.sender (.error f.message)]) := by
  intro k
  have h := hinv k
  rw [takenBy_snoc (e := .told r.sender (.error f.message)) fun _ => nofun]
  have htelling : Telling { s with
      sessions := trySend r.sender (.error f.message) s.sessions
      fails := s.fails.insert c { f with stage := .telling rest } } k → Telling s k := by
    rintro ⟨c', f', routes, hf', hstage', r', hr', hsender⟩
    obtain ⟨rfl, rfl⟩ | ⟨-, hf'⟩ := lookup_insert_cases hf'
    · cases hstage'
      exact ⟨c', f, r :: rest, hfail, hstage, r', mem_cons_of_mem _ hr', hsender⟩
    · exact ⟨c', f', routes, hf', hstage', r', hr', hsender⟩
  by_cases hk : k = r.sender
  · subst hk
    have hnoticed := h.notice ⟨c, f, r :: rest, hfail, hstage, r, mem_cons_self, rfl⟩
    rw [mailbox_snoc, Mailbox.step, if_pos rfl]
    refine ⟨?_, ?_, fun m hm => (h.offered hm).1, ?_, ?_, ?_, h.below⟩
    · rw [Mailbox.offer_route]
      exact h.route
    · rw [Mailbox.offer_hand]
      exact h.hand
    · rw [Mailbox.offer_route]
      exact fun m id t hm => (h.offered hm).2 id t
    · rw [Mailbox.offer_noticed]
      exact fun ht => h.notice (htelling ht)
    · refine fun hspare => absurd hspare (h.not_spare ?_)
      intro hempty
      rw [hempty] at hnoticed
      cases hnoticed
  · rw [mailbox_other rfl hk]
    exact h.frame (fun _ _ => .rfl) (fun _ _ => .rfl) (lookup_trySend_other hk _ _)
      htelling (fun c hc => .inl ⟨c, hc⟩) le_rfl

/-! ### Frames -/

/-- A frame that the reader skips changes no mailbox: it is a KEEPALIVE, its id is not
registered, or it carries no payload. -/
theorem mailbox_skipped
    (hskip : m.status = statusKeepalive ∨ s.routes.lookup m.id = none ∨
      (m.status ≠ statusEnd ∧ payload = none)) (k : Nat) :
    mailbox k (log ++ [.frame m payload]) = mailbox k log := by
  rcases hskip with hstatus | hnone | ⟨hstatus, rfl⟩
  · rw [mailbox_snoc, Mailbox.step, Mailbox.frame]
    split
    · rfl
    · rw [if_pos (.inr hstatus)]
  · refine mailbox_frame_other ?_
    intro t hroute
    rw [((hinv k).route m.id t).mp hroute] at hnone
    cases hnone
  · rw [mailbox_snoc, Mailbox.step, Mailbox.frame]
    split
    · rfl
    · rw [if_neg hstatus, ite_self]

/-- The reader has a route in hand. In the mailbox of its session only the hand and the
route have changed. -/
theorem routed (routes : Table UInt16 Route)
    (route : Option (UInt16 × Target)) (hreader : ∀ r item, s.reader ≠ .delivering r item)
    (hroute : s.routes.lookup m.id = some r)
    (hframe : { mailbox r.sender log with route := some (m.id, r.target) }.frame m payload =
      { mailbox r.sender log with route := route, hand := some item })
    (hroutes : ∀ id t, route = some (id, t) ↔ routes.lookup id = some ⟨t, r.sender⟩)
    (hother : ∀ id t k, k ≠ r.sender →
      (routes.lookup id = some ⟨t, k⟩ ↔ s.routes.lookup id = some ⟨t, k⟩))
    (hown : ∀ id t, route = some (id, t) → id = m.id) :
    MailInv { s with routes := routes, reader := .delivering r item }
      (log ++ [.frame m payload]) := by
  intro k
  have h := hinv k
  rw [takenBy_snoc (e := .frame m payload) fun _ => nofun]
  -- no other session has this id, so none of their mailboxes sees the frame
  by_cases hk : k = r.sender
  · subst hk
    have hself := (h.route m.id r.target).mpr hroute
    have hbox : mailbox r.sender (log ++ [.frame m payload]) =
        { mailbox r.sender log with route := route, hand := some item } := by
      rw [mailbox_snoc, Mailbox.step, ← hframe, ← hself]
    rw [hbox]
    refine ⟨hroutes, ?_, h.queue, ?_, h.notice, ?_, h.below⟩
    · intro item'
      constructor
      · intro heq
        cases heq
        exact ⟨r.target, rfl⟩
      · rintro ⟨t, heq⟩
        rw [(Phase.delivering.inj heq).2]
    · intro m' id t hm' heq
      rw [hown id t heq]
      exact h.own m' m.id r.target hm' hself
    · refine fun hspare => absurd hspare (h.not_spare ?_)
      intro hempty
      rw [hempty] at hself
      cases hself
  · rw [mailbox_frame_other]
    · refine h.frame (fun id t => hother id t k hk) ?_ rfl id (fun c hc => .inl ⟨c, hc⟩) le_rfl
      intro t item'
      refine ⟨fun heq => ?_, fun heq => absurd heq (hreader _ _)⟩
      cases heq
      exact absurd rfl hk
    · intro t heq
      rw [(h.route m.id t).mp heq] at hroute
      cases hroute
      exact hk rfl

/-- An END takes the route along. -/
theorem ended (hreader : s.reader = .routing m payload)
    (hstatus : m.status = statusEnd) (hroute : s.routes.lookup m.id = some r) :
    MailInv { s with
        routes := s.routes.erase m.id
        reader := .delivering r (.error "XUDP session ended") }
      (log ++ [.frame m payload]) := by
  have hkeepalive : ¬ (m.id ≠ m.id ∨ m.status = statusKeepalive) := by
    rw [hstatus]
    simp [statusEnd, statusKeepalive]
  refine hinv.routed (s.routes.erase m.id) none (by rw [hreader]; exact fun _ _ => nofun) hroute
    ?_ ?_ ?_ nofun
  · unfold Mailbox.frame
    dsimp only
    rw [if_neg hkeepalive, if_pos hstatus]
  · intro id t
    rw [lookup_erase_if]
    refine ⟨nofun, fun hid => ?_⟩
    split at hid
    · cases hid
    · rename_i hne
      exact absurd ((hinv r.sender).sender_inj hid hroute) hne
  · intro id t k hk
    rw [lookup_erase_if]
    split
    · rename_i hid
      rw [hid, hroute]
      refine ⟨nofun, fun heq => ?_⟩
      cases heq
      exact absurd rfl hk
    · exact .rfl

/-- A packet is on its way to its session. -/
theorem cloned {bytes : List Byte}
    (hreader : s.reader = .routing m (some bytes)) (hkeepalive : m.status ≠ statusKeepalive)
    (hstatus : m.status ≠ statusEnd) (hroute : s.routes.lookup m.id = some r) :
    MailInv { s with reader := .delivering r (.ok (m.target.getD r.target, bytes)) }
      (log ++ [.frame m (some bytes)]) := by
  refine hinv.routed s.routes (some (m.id, r.target)) (by rw [hreader]; exact fun _ _ => nofun)
    hroute ?_ ?_ (fun _ _ _ _ => .rfl) ?_
  · unfold Mailbox.frame
    dsimp only
    rw [if_neg (by simp [hkeepalive]), if_neg hstatus]
  · intro id t
    rw [← (hinv _).route, ((hinv _).route _ _).mpr hroute]
  · intro id t heq
    cases heq
    rfl

/-- What is on its way is delivered. -/
theorem delivered (hreader : s.reader = .delivering r item) :
    MailInv { s with sessions := trySend r.sender item s.sessions, reader := .idle }
      (log ++ [.offered]) := by
  intro k
  have h := hinv k
  rw [takenBy_snoc (e := .offered) fun _ => nofun, mailbox_snoc, Mailbox.step]
  by_cases hk : k = r.sender
  · subst hk
    have hhand := (h.hand item).mpr ⟨r.target, hreader⟩
    rw [hhand]
    refine ⟨?_, fun _ => ⟨nofun, nofun⟩, fun m hm => (h.offered hm).1, ?_, ?_, ?_, h.below⟩
    · show ∀ id t, ((mailbox r.sender log).offer item).route = _ ↔ _
      rw [Mailbox.offer_route]
      exact h.route
    · show ∀ m id t, _ → ((mailbox r.sender log).offer item).route = _ → _
      rw [Mailbox.offer_route]
      exact fun m id t hm => (h.offered hm).2 id t
    · show Telling s r.sender → ((mailbox r.sender log).offer item).noticed = true
      rw [Mailbox.offer_noticed]
      exact h.notice
    · refine fun hspare => absurd hspare (h.not_spare ?_)
      intro hempty
      rw [hempty] at hhand
      cases hhand
  · have hnone : (mailbox k log).hand = none := by
      refine eq_none_iff_forall_not_mem.mpr fun item' hitem => ?_
      obtain ⟨t, ht⟩ := (h.hand item').mp hitem
      rw [hreader] at ht
      cases ht
      exact hk rfl
    rw [hnone]
    refine h.frame (fun _ _ => .rfl) ?_ (lookup_trySend_other hk _ _) id
      (fun c hc => .inl ⟨c, hc⟩) le_rfl
    intro t item'
    rw [hreader]
    refine ⟨nofun, fun heq => ?_⟩
    cases heq
    exact absurd rfl hk

end MailInv

end ClashMeta.Xudp
