import ClashMeta.Protocol.Xudp.Routes

/-!
# What a step does to the writing side

The writing side of the multiplexer is the writer mutex, the futures that write,
the writes on the stream, `alive` and the calls of `fail_multiplexer`. `LineStep`
lists everything one step can do to it, guards included; `step_effect` shows that
every step is one of these, and one of `RouteStep`. Invariants are then proved by
cases on the two, never by unfolding `step`.
-/

namespace ClashMeta.Xudp

open Table Option

/-- A step leaves the mutex, the writes and `alive` alone. -/
structure SameLine (s s' : Mux) : Prop where
  writer : s'.writer = s.writer
  writes : s'.writes = s.writes
  alive : s'.alive = s.alive

/-- No call of `fail_multiplexer` passes its swap of `alive`. -/
def NoSwap (s s' : Mux) : Prop :=
  ∀ c f, s'.fails.lookup c = some f → f.swapped = true → s.fails.lookup c = some f

/-- The writer mutex after the future `key` has ended. -/
def released (s : Mux) (key : Nat) : Option Nat :=
  if s.writer = some key then none else s.writer

theorem NoSwap.of_eq {s s' : Mux} (h : s'.fails = s.fails) : NoSwap s s' := by
  intro c f hf _
  rwa [← h]

variable {c : Caller}

theorem NoSwap.of_insert {s s' : Mux} {message : String}
    (h : s'.fails = s.fails.insert c ⟨false, message⟩) : NoSwap s s' := by
  intro c' f hf hsw
  rw [h] at hf
  obtain ⟨-, rfl⟩ | ⟨-, hf⟩ := lookup_insert_cases hf
  · cases hsw
  · exact hf

theorem NoSwap.of_erase {s s' : Mux} (h : s'.fails = s.fails.erase c) : NoSwap s s' := by
  intro c' f hf _
  rw [h] at hf
  obtain ⟨-, hf⟩ := lookup_erase_some hf
  exact hf

variable [IpText]

/-- Once it waits for the writer mutex a future carries a frame, a close task from
the start. -/
def Task.Ready (t : Task) : Prop := t.stage ≠ .queued ∨ t.close = true → IsFrame t.frame

/-- The future `t` at a later point. -/
structure Task.Later (t t' : Task) : Prop where
  close : t'.close = t.close
  owner : t'.owner = t.owner
  id : t'.id = t.id
  status : t'.status = statusEnd → t.status = statusEnd
  ready : t.Ready → t'.Ready

theorem Task.Later.refl (t : Task) : t.Later t :=
  ⟨rfl, rfl, rfl, fun h => h, fun h => h⟩

variable {t : Task}

theorem Task.Later.of_stage (h : t.stage ≠ .queued) (stage : Stage) :
    t.Later { t with stage := stage } :=
  ⟨rfl, rfl, rfl, fun hend => hend, fun hready _ => hready (.inl h)⟩

/-- The effects of a step on the writing side. -/
inductive LineStep (s s' : Mux) (a : Action) : Prop where
  /-- nothing changes -/
  | quiet (hline : SameLine s s') (hswap : NoSwap s s') (htasks : s'.tasks = s.tasks)
      (hfresh : s.fresh ≤ s'.fresh)
  /-- a future is created; a close task only by the drop of its session -/
  | spawn (t : Task) (hstage : t.stage = .queued) (hready : t.Ready)
      (hstatus : t.status = statusEnd → t.close = true)
      (hdrop : t.close = true → ∃ m inRuntime, a = .dropSession t.owner inRuntime ∧
        s.sessions.lookup t.owner = some m ∧ t.id = m.id)
      (hline : SameLine s s') (hswap : NoSwap s s')
      (htasks : s'.tasks = s.tasks.insert s.fresh t) (hfresh : s'.fresh = s.fresh + 1)
  /-- a future has its frame and waits for the writer mutex -/
  | ready (key : Nat) (t t' : Task) (hkey : s.tasks.lookup key = some t)
      (hstage : t.stage = .queued) (hstage' : t'.stage = .waiting) (hlater : t.Later t')
      (hline : SameLine s s') (hswap : NoSwap s s')
      (htasks : s'.tasks = s.tasks.insert key t') (hfresh : s'.fresh = s.fresh)
  /-- a future ends before it has written anything -/
  | leave (key : Nat) (t : Task) (hkey : s.tasks.lookup key = some t)
      (hstage : t.stage = .queued ∨ t.stage = .waiting)
      (hwriter : s'.writer = released s key) (hwrites : s'.writes = s.writes)
      (halive : s'.alive = s.alive) (hswap : NoSwap s s')
      (htasks : s'.tasks = s.tasks.erase key) (hfresh : s'.fresh = s.fresh)
  /-- a future obtains the writer mutex; a `send` only while `alive` is set -/
  | grant (key : Nat) (t : Task) (haction : a = .lockWriter key)
      (hkey : s.tasks.lookup key = some t) (hstage : t.stage = .waiting)
      (hfree : s.writer = none) (hsend : t.close = false → s.alive = true)
      (hwriter : s'.writer = some key)
      (hwrites : s'.writes = ⟨t.owner, t.id, t.status, t.frame, 0⟩ :: s.writes)
      (halive : s'.alive = s.alive) (hswap : NoSwap s s')
      (htasks : s'.tasks = s.tasks.insert key { t with stage := .writing })
      (hfresh : s'.fresh = s.fresh)
  /-- the stream accepts bytes of the write in progress -/
  | accept (key : Nat) (t : Task) (n : Nat) (w : Write) (ws : List Write)
      (haction : a = .accept key n)
      (hkey : s.tasks.lookup key = some t) (hstage : t.stage = .writing)
      (hpos : 0 < n) (hlast : s.writes = w :: ws) (hfit : w.sent + n ≤ w.frame.length)
      (hwriter : s'.writer = s.writer)
      (hwrites : s'.writes = { w with sent := w.sent + n } :: ws)
      (halive : s'.alive = s.alive) (hswap : NoSwap s s')
      (htasks : s'.tasks = s.tasks) (hfresh : s'.fresh = s.fresh)
  /-- a write is complete and flushed -/
  | commit (key : Nat) (t : Task) (w : Write) (ws : List Write)
      (hkey : s.tasks.lookup key = some t) (hstage : t.stage = .writing)
      (hlast : s.writes = w :: ws) (hdone : w.frame.length ≤ w.sent)
      (hwriter : s'.writer = released s key) (hwrites : s'.writes = s.writes)
      (halive : s'.alive = s.alive) (hswap : NoSwap s s')
      (htasks : s'.tasks = s.tasks.erase key) (hfresh : s'.fresh = s.fresh)
  /-- a write is given up, the mutex still held -/
  | giveUp (key : Nat) (t : Task) (hkey : s.tasks.lookup key = some t)
      (hstage : t.stage = .writing) (hline : SameLine s s')
      (hswap : NoSwap s s')
      (htasks : s'.tasks = s.tasks.insert key { t with stage := .failing })
      (hfresh : s'.fresh = s.fresh)
  /-- `alive` is cleared -/
  | poison (c : Caller) (f : FailCall) (hcall : s.fails.lookup c = some f)
      (hwriter : s'.writer = s.writer) (hwrites : s'.writes = s.writes)
      (halive : s'.alive = false) (htasks : s'.tasks = s.tasks) (hfresh : s'.fresh = s.fresh)
  /-- a future whose write failed ends, `alive` being cleared -/
  | retire (key : Nat) (t : Task) (f : FailCall) (hkey : s.tasks.lookup key = some t)
      (hcall : s.fails.lookup (.task key) = some f) (hdead : f.swapped = true ∨ s.alive = false)
      (hwriter : s'.writer = released s key) (hwrites : s'.writes = s.writes)
      (halive : s'.alive = s.alive) (hswap : NoSwap s s')
      (htasks : s'.tasks = s.tasks.erase key) (hfresh : s'.fresh = s.fresh)

/-! ## The effect of each action -/

/-- What a step does: to the writing side, and to ids and routes. -/
structure Effect (s s' : Mux) (a : Action) : Prop where
  line : LineStep s s' a
  route : RouteStep s s' a

variable {s s' : Mux} {a : Action}

/-- A step that moves no task. -/
theorem Effect.still (hdrop : a.drops = false) (hline : SameLine s s') (hswap : NoSwap s s')
    (htasks : s'.tasks = s.tasks) (hids : ids s'.sessions = ids s.sessions)
    (hroutes : s'.routes = s.routes) (hfresh : s.fresh ≤ s'.fresh) : Effect s s' a :=
  ⟨.quiet hline hswap htasks hfresh, .still (ne_drop hdrop) hids hroutes hfresh⟩

theorem Effect.none (hdrop : a.drops = false) : Effect s s a :=
  .still hdrop ⟨rfl, rfl, rfl⟩ (.of_eq rfl) rfl rfl rfl le_rfl

variable {key : Nat}

/-- A future that ends. -/
theorem effect_finish (hdrop : a.drops = false) (hkey : s.tasks.lookup key = some t)
    (hstage : t.stage = .queued ∨ t.stage = .waiting) : Effect s (s.finish key t) a :=
  ⟨.leave key t hkey hstage rfl rfl rfl (.of_eq rfl) rfl rfl, route_finish (ne_drop hdrop)⟩

theorem effect_session {target : Target} {globalId : Option GlobalId}
    (h : s.step (.session target globalId) = some s') :
    Effect s s' (.session target globalId) := by
  obtain ⟨-, h⟩ := ite_none_right_eq_some.mp h
  split at h
  · rename_i heq
    rw [Mux.session] at heq
    split at heq
    · cases heq
    · split at heq
      · cases heq
      · rename_i id hid
        cases heq
        cases h
        refine ⟨.quiet ⟨rfl, rfl, rfl⟩ (.of_eq rfl) rfl (Nat.le_succ _),
          .opened target globalId id rfl (nextFree_eq_some_iff.mp hid) ?_ rfl rfl⟩
        intro k
        unfold ids
        rw [lookup_insert_if]
        split <;> rfl
  · cases h
    exact .none rfl

theorem effect_dropSession {inRuntime : Bool} (h : s.step (.dropSession key inRuntime) = some s') :
    Effect s s' (.dropSession key inRuntime) := by
  obtain ⟨m, hm, h⟩ := bind_eq_some_iff.mp h
  obtain ⟨-, h⟩ := ite_none_left_eq_some.mp h
  have hids : ∀ k, ids (s.sessions.erase key) k = if k = key then none else ids s.sessions k := by
    intro k
    unfold ids
    rw [lookup_erase_if]
    split <;> rfl
  have hroutes := fun X => lookup_erase_if m.id X s.routes
  split at h
  · rename_i hnone
    cases h
    refine ⟨.quiet ⟨rfl, rfl, rfl⟩ (.of_eq rfl) rfl le_rfl,
      .dropped key inRuntime m rfl hm hids ?_ le_rfl⟩
    intro X
    split
    · rename_i heq
      rw [heq]
      exact hnone
    · rfl
  · split at h
    · cases h
      exact ⟨.spawn ⟨true, key, m.id, [], endFrame m.id, statusEnd, .queued⟩ rfl
          (fun _ => isFrame_endFrame m.id) (fun _ => rfl)
          (fun _ => ⟨m, inRuntime, rfl, hm, rfl⟩) ⟨rfl, rfl, rfl⟩ (.of_eq rfl) rfl rfl,
        .dropped key inRuntime m rfl hm hids hroutes (Nat.le_succ _)⟩
    · cases h
      exact ⟨.quiet ⟨rfl, rfl, rfl⟩ (.of_eq rfl) rfl le_rfl,
        .dropped key inRuntime m rfl hm hids hroutes le_rfl⟩

theorem effect_send {target : Target} {payload : List Byte}
    (h : s.step (.send key target payload) = some s') : Effect s s' (.send key target payload) := by
  obtain ⟨m, -, h⟩ := bind_eq_some_iff.mp h
  split at h
  · cases h
    exact .none rfl
  · cases h
    refine ⟨.spawn ⟨false, key, m.id, payload, [], statusKeep, .queued⟩ rfl ?_ nofun nofun
      ⟨rfl, rfl, rfl⟩ (.of_eq rfl) rfl rfl, .still (ne_drop rfl) rfl rfl (Nat.le_succ _)⟩
    rintro (hne | hc)
    · exact absurd rfl hne
    · cases hc

theorem effect_lockState (h : s.step (.lockState key) = some s') :
    Effect s s' (.lockState key) := by
  simp only [Mux.step, Mux.lockState, bind_eq_bind, bind_eq_some_iff,
    ite_none_left_eq_some, not_or, ne_eq, not_not] at h
  obtain ⟨t, hkey, m, hm, ⟨-, hstage, -⟩, h⟩ := h
  split at h
  · cases h
    exact effect_finish rfl hkey (.inl hstage)
  · split at h
    · cases h
      exact effect_finish rfl hkey (.inl hstage)
    · rename_i frame hpacket
      cases h
      refine ⟨.ready key t
        { t with
          frame := frame
          status := if m.send.first then statusNew else statusKeep
          stage := .waiting }
        hkey hstage rfl ⟨rfl, rfl, rfl, ?_, fun _ _ => isFrame_packet hpacket⟩
        ⟨rfl, rfl, rfl⟩ (.of_eq rfl) rfl rfl, .still (ne_drop rfl) (ids_insert hm rfl) rfl le_rfl⟩
      -- a `send` builds NEW and KEEP frames only
      intro hend
      cases hf : m.send.first <;> simp [hf, statusNew, statusKeep, statusEnd] at hend

theorem effect_poll (h : s.step (.poll key) = some s') : Effect s s' (.poll key) := by
  simp only [Mux.step, Mux.poll, bind_eq_bind, bind_eq_some_iff,
    ite_none_left_eq_some, not_or, ne_eq, not_not, Bool.not_eq_true',
    Bool.not_eq_false] at h
  obtain ⟨t, hkey, ⟨hclose, hstage⟩, h⟩ := h
  split at h
  · cases h
    exact effect_finish rfl hkey (.inl hstage)
  · cases h
    exact ⟨.ready key t { t with stage := .waiting } hkey hstage rfl
      ⟨rfl, rfl, rfl, id, fun hready _ => hready (.inr hclose)⟩
      ⟨rfl, rfl, rfl⟩ (.of_eq rfl) rfl rfl, .still (ne_drop rfl) rfl rfl le_rfl⟩

theorem effect_lockWriter (h : s.step (.lockWriter key) = some s') :
    Effect s s' (.lockWriter key) := by
  simp only [Mux.step, Mux.lockWriter, bind_eq_bind, bind_eq_some_iff,
    ite_none_left_eq_some, not_or, ne_eq, not_not] at h
  obtain ⟨t, hkey, ⟨hstage, hfree⟩, h⟩ := h
  split at h
  · cases h
    exact effect_finish rfl hkey (.inr hstage)
  · rename_i halive
    cases h
    refine ⟨.grant key t rfl hkey hstage hfree ?_ rfl rfl rfl (.of_eq rfl) rfl rfl,
      .still (ne_drop rfl) rfl rfl le_rfl⟩
    -- the branch was not taken, so an unset flag means a close task
    intro hclose
    by_contra hdead
    exact halive ⟨by simp [hclose], by simpa using hdead⟩

theorem effect_accept {n : Nat} (h : s.step (.accept key n) = some s') :
    Effect s s' (.accept key n) := by
  obtain ⟨t, hkey, h⟩ := bind_eq_some_iff.mp h
  split at h
  · cases h
  · rename_i w ws hlast
    simp only [ite_none_left_eq_some, not_or, ne_eq, not_not, not_lt] at h
    obtain ⟨⟨hstage, hpos, hfit⟩, h⟩ := h
    cases h
    exact ⟨.accept key t n w ws rfl hkey hstage (pos_of_ne_zero hpos) hlast hfit
      rfl rfl rfl (.of_eq rfl) rfl rfl, .still (ne_drop rfl) rfl rfl le_rfl⟩

theorem effect_flushed (h : s.step (.flushed key) = some s') : Effect s s' (.flushed key) := by
  obtain ⟨t, hkey, h⟩ := bind_eq_some_iff.mp h
  split at h
  · cases h
  · rename_i w ws hlast
    simp only [ite_none_left_eq_some, not_or, ne_eq, not_not, not_lt] at h
    obtain ⟨⟨hstage, hdone⟩, h⟩ := h
    split at h
    · cases h
      exact ⟨.commit key t w ws hkey hstage hlast hdone rfl rfl rfl (.of_eq rfl) rfl rfl,
        route_finish (ne_drop rfl)⟩
    · split at h
      · cases h
      · rename_i m hm
        cases h
        exact ⟨.commit key t w ws hkey hstage hlast hdone rfl rfl rfl (.of_eq rfl) rfl rfl,
          .still (ne_drop rfl) ((ids_finish _ _ _).trans (ids_insert hm rfl)) rfl le_rfl⟩

/-- A write that stops short. -/
theorem effect_giveUp (hdrop : a.drops = false) (hkey : s.tasks.lookup key = some t)
    (hstage : t.stage = .writing) : Effect s (s.giveUp key t) a :=
  ⟨.giveUp key t hkey hstage ⟨rfl, rfl, rfl⟩ (.of_insert rfl) rfl rfl,
    .still (ne_drop hdrop) rfl rfl le_rfl⟩

theorem effect_cancel (h : s.step (.cancel key) = some s') : Effect s s' (.cancel key) := by
  obtain ⟨t, hkey, h⟩ := bind_eq_some_iff.mp h
  obtain ⟨-, h⟩ := ite_none_left_eq_some.mp h
  generalize hstage : t.stage = stage at h
  cases stage with
  | queued =>
    cases h
    exact effect_finish rfl hkey (.inl hstage)
  | waiting =>
    cases h
    exact effect_finish rfl hkey (.inr hstage)
  | writing =>
    cases h
    exact effect_giveUp rfl hkey hstage
  | failing => cases h

/-- `fail_multiplexer` returns in `t`, which has the writing side and the ids of `s`;
the flag is cleared. -/
theorem effect_endFail {t : Mux} {f : FailCall} (hdrop : a.drops = false)
    (hcall : s.fails.lookup c = some f) (hdead : f.swapped = true ∨ s.alive = false)
    (hline : SameLine s t) (hfails : t.fails = s.fails) (htasks : t.tasks = s.tasks)
    (hids : ids t.sessions = ids s.sessions)
    (hroutes : ∀ X r, t.routes.lookup X = some r → s.routes.lookup X = some r)
    (hfresh : t.fresh = s.fresh) : Effect s (t.endFail c) a := by
  refine ⟨?_, route_endFail (ne_drop hdrop) hids hroutes hfresh⟩
  have hquiet : LineStep s { t with fails := t.fails.erase c } a :=
    .quiet ⟨hline.writer, hline.writes, hline.alive⟩
      (.of_erase (congrArg (AList.erase c) hfails)) htasks (le_of_eq hfresh.symm)
  cases c with
  | reader | mux => exact hquiet
  | task key =>
    simp only [Mux.endFail]
    split
    · rename_i task hkey
      rw [htasks] at hkey
      refine .retire key task f hkey hcall hdead ?_ hline.writes hline.alive ?_ ?_ hfresh
      · simp only [Mux.finish, released, hline.writer]
      · exact NoSwap.of_erase (congrArg (AList.erase _) hfails)
      · exact congrArg (AList.erase key) htasks
    · exact hquiet

theorem effect_swap (h : s.step (.swap c) = some s') : Effect s s' (.swap c) := by
  obtain ⟨f, hcall, h⟩ := bind_eq_some_iff.mp h
  obtain ⟨-, h⟩ := ite_none_left_eq_some.mp h
  split at h
  · cases h
    exact ⟨.poison c f hcall rfl rfl rfl rfl rfl, .still (ne_drop rfl) rfl rfl le_rfl⟩
  · rename_i hdead
    cases h
    exact effect_endFail rfl hcall (.inr (by simpa using hdead)) ⟨rfl, rfl, rfl⟩ rfl rfl
      rfl (fun _ _ h => h) rfl

theorem effect_sweep (h : s.step (.sweep c) = some s') : Effect s s' (.sweep c) := by
  obtain ⟨f, hcall, h⟩ := bind_eq_some_iff.mp h
  obtain ⟨hswapped, h⟩ := ite_none_left_eq_some.mp h
  cases h
  exact effect_endFail rfl hcall (.inl (by simpa using hswapped)) ⟨rfl, rfl, rfl⟩ rfl rfl
    (ids_sweep f.message _ s.sessions) nofun rfl

theorem effect_peer {metadata : MuxMetadata} {payload : Option (List Byte)}
    (h : s.step (.peer metadata payload) = some s') :
    Effect s s' (.peer metadata payload) := by
  simp only [Mux.step, Mux.peer] at h
  split at h
  · split at h
    · cases h
      exact .none rfl
    · split at h
      · split at h
        · cases h
          exact .none rfl
        · -- END removes the route
          cases h
          refine ⟨.quiet ⟨rfl, rfl, rfl⟩ (.of_eq rfl) rfl le_rfl, .keep rfl ?_ (ne_drop rfl) le_rfl⟩
          intro X r hX
          obtain ⟨-, hX⟩ := lookup_erase_some hX
          exact hX
      · split at h
        all_goals
          cases h
          exact .still rfl ⟨rfl, rfl, rfl⟩ (.of_eq rfl) rfl rfl rfl le_rfl
  · cases h

/-- **Every step is one of the listed effects on the writing side, and on ids and
routes.** -/
theorem step_effect (h : s.step a = some s') : Effect s s' a := by
  -- the actions with more than one outcome have their lemmas above
  cases a with
  | session target globalId => exact effect_session h
  | dropSession key inRuntime => exact effect_dropSession h
  | send key target payload => exact effect_send h
  | lockState key => exact effect_lockState h
  | poll key => exact effect_poll h
  | lockWriter key => exact effect_lockWriter h
  | accept key n => exact effect_accept h
  | flushed key => exact effect_flushed h
  | cancel key => exact effect_cancel h
  | swap c => exact effect_swap h
  | sweep c => exact effect_sweep h
  | peer metadata payload => exact effect_peer h
  | writeError key =>
    obtain ⟨t, hkey, h⟩ := bind_eq_some_iff.mp h
    obtain ⟨hstage, h⟩ := ite_none_left_eq_some.mp h
    cases h
    exact effect_giveUp rfl hkey (not_not.mp hstage)
  | deliver =>
    simp only [Mux.step, Mux.deliver] at h
    split at h
    · cases h
      exact .still rfl ⟨rfl, rfl, rfl⟩ (.of_eq rfl) rfl (ids_trySend _ _ _) rfl le_rfl
    · cases h
  | readError message =>
    simp only [Mux.step, Mux.readError] at h
    split at h
    · cases h
      exact .still rfl ⟨rfl, rfl, rfl⟩ (.of_insert rfl) rfl rfl rfl le_rfl
    · cases h
  | dropMux =>
    obtain ⟨-, h⟩ := ite_none_right_eq_some.mp h
    cases h
    exact .still rfl ⟨rfl, rfl, rfl⟩ (.of_insert rfl) rfl rfl rfl le_rfl
  | recv key =>
    obtain ⟨m, hm, h⟩ := bind_eq_some_iff.mp h
    split at h
    · cases h
    · cases h
      exact .still rfl ⟨rfl, rfl, rfl⟩ (.of_eq rfl) rfl (ids_insert hm rfl) rfl le_rfl

end ClashMeta.Xudp
