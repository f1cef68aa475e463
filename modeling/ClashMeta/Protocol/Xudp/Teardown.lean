import ClashMeta.Protocol.Xudp.Writing

/-!
# Sessions and each other's teardown

The peer's END frame removes a route while its owner is still alive, so after the
16-bit counter has wrapped `session` can hand the same id to a second session.
Both the removal on drop and the END frame go by id alone (xudp.rs:308-336), so
the first owner's drop then takes the second session's route and ends it at the
peer (`drop_ends_other_session`).
-/

namespace ClashMeta.Xudp

open Option

variable {s s' : Mux} {a : Action}

/-! ## Isolation -/

/-- The step does not open a session under an id that a live session holds or an
unfinished close task carries. -/
def IdsUnused (s : Mux) (a : Action) : Prop :=
  ∀ target globalId id, a = .session target globalId → FirstFree s id →
    (∀ k, ids s.sessions k ≠ some id) ∧
      ∀ key t, s.tasks.lookup key = some t → t.close = true → t.id ≠ id

instance : DecidableRel IdsUnused := fun s a =>
  match a with
  | .session target globalId =>
    match hnext : Mux.nextFree s.routes 65536 s.nextId with
    | none => .isTrue fun _ _ id _ hfree =>
        nomatch hnext.symm.trans (nextFree_eq_some_iff.mpr hfree)
    | some id =>
      decidable_of_iff ((∀ m ∈ Table.values s.sessions, m.id ≠ id) ∧
          ∀ t ∈ Table.values s.tasks, t.close = true → t.id ≠ id) <| by
        simp only [Table.mem_values_iff]
        constructor
        · rintro ⟨hsessions, htasks⟩ _ _ id' - hfree
          cases hnext.symm.trans (nextFree_eq_some_iff.mpr hfree)
          refine ⟨fun k hk => ?_, fun key t ht => htasks t ⟨key, ht⟩⟩
          obtain ⟨m, hm, hid⟩ := Option.map_eq_some_iff.mp hk
          exact hsessions m ⟨k, hm⟩ hid
        · intro h
          obtain ⟨hsessions, htasks⟩ := h target globalId id rfl (nextFree_eq_some_iff.mp hnext)
          refine ⟨?_, ?_⟩
          · rintro m ⟨k, hm⟩ hid
            exact hsessions k (Option.map_eq_some_iff.mpr ⟨m, hm, hid⟩)
          · rintro t ⟨key, ht⟩
            exact htasks key t ht
  | .dropSession _ _ | .send _ _ _ | .lockState _ | .poll _ | .lockWriter _ | .accept _ _
  | .flushed _ | .writeError _ | .cancel _ | .swap _ | .sweep _ | .peer _ _ | .deliver
  | .readError _ | .dropMux | .recv _ => .isTrue nofun

/-- The drop of one session removes the route of another that is live. -/
def DropHitsOther (s s' : Mux) (a : Action) : Prop :=
  ∃ key inRuntime X r, a = .dropSession key inRuntime ∧ s.routes.lookup X = some r ∧
    s'.routes.lookup X = none ∧ r.sender ≠ key ∧ ids s.sessions r.sender ≠ none

/-- Bytes of an END frame are written behind the NEW frame of another session that
is live and holds the same id. -/
def EndHitsLive (s : Mux) (a : Action) : Prop :=
  ∃ key n w ws w', a = .accept key n ∧ s.writes = w :: ws ∧ w.status = statusEnd ∧
    w' ∈ ws ∧ w'.status = statusNew ∧ 0 < w'.sent ∧ w'.id = w.id ∧ w'.owner ≠ w.owner ∧
    ids s.sessions w'.owner = some w.id

/-- The invariant behind isolation. -/
structure IdInv (s : Mux) : Prop where
  /-- live sessions hold distinct ids -/
  distinct : ∀ k k' id, ids s.sessions k = some id → ids s.sessions k' = some id → k = k'
  /-- no live session holds the id of an unfinished close task -/
  pending : ∀ key t k, s.tasks.lookup key = some t → t.close = true →
    ids s.sessions k ≠ some t.id
  /-- a live session's route is registered under its id -/
  route : ∀ X r id, s.routes.lookup X = some r → ids s.sessions r.sender = some id → id = X
  sessions : ∀ k id, ids s.sessions k = some id → k < s.fresh
  senders : ∀ X r, s.routes.lookup X = some r → r.sender < s.fresh

/-- At first there are no ids. -/
theorem idInv_new : IdInv Mux.new := ⟨nofun, nofun, nofun, nofun, nofun⟩

/-- A live session after the step was live before with the same id, or the step
opened it. -/
theorem ids_origin (h : RouteStep s s' a) {k : Nat} {id : UInt16}
    (hk : ids s'.sessions k = some id) :
    (ids s.sessions k = some id ∧ s.fresh ≤ s'.fresh) ∨
    (k = s.fresh ∧ s'.fresh = s.fresh + 1 ∧ FirstFree s id ∧
      ∃ target globalId, a = .session target globalId) := by
  cases h with
  | keep hids _ _ hfresh => exact .inl ⟨hids ▸ hk, hfresh⟩
  | opened target globalId id' haction hfree hids _ hfresh =>
    rw [hids] at hk
    split at hk
    · rename_i heq
      cases hk
      exact .inr ⟨heq, hfresh, hfree, target, globalId, haction⟩
    · exact .inl ⟨hk, by omega⟩
  | dropped key inRuntime m _ _ hids _ hfresh =>
    rw [hids] at hk
    split at hk
    · cases hk
    · exact .inl ⟨hk, hfresh⟩

/-- A route after the step was there before, or belongs to the session the step
opened. -/
theorem route_origin (h : RouteStep s s' a) {X : UInt16} {r : Route}
    (hX : s'.routes.lookup X = some r) :
    (s.routes.lookup X = some r ∧ s.fresh ≤ s'.fresh) ∨
    (r.sender = s.fresh ∧ s'.fresh = s.fresh + 1 ∧ ids s'.sessions s.fresh = some X) := by
  cases h with
  | keep _ hroutes _ hfresh => exact .inl ⟨hroutes X r hX, hfresh⟩
  | opened target globalId id haction hfree hids hroutes hfresh =>
    rw [hroutes] at hX
    obtain ⟨heq, rfl⟩ | ⟨-, hX⟩ := Table.lookup_insert_cases hX
    · refine .inr ⟨rfl, hfresh, ?_⟩
      rw [hids, if_pos rfl, heq]
    · exact .inl ⟨hX, by omega⟩
  | dropped key inRuntime m _ _ _ hroutes hfresh =>
    rw [hroutes] at hX
    split at hX
    · cases hX
    · exact .inl ⟨hX, hfresh⟩

/-- A new session has an id of its own. -/
theorem distinct_step (hinv : IdInv s) (hok : IdsUnused s a) (h : RouteStep s s' a)
    {k k' : Nat} {id : UInt16} (hk : ids s'.sessions k = some id)
    (hk' : ids s'.sessions k' = some id) : k = k' := by
  obtain ⟨hk, -⟩ | ⟨rfl, -, hfree, target, globalId, haction⟩ := ids_origin h hk
  · obtain ⟨hk', -⟩ | ⟨-, -, hfree, target, globalId, haction⟩ := ids_origin h hk'
    · exact hinv.distinct k k' id hk hk'
    · exact absurd hk ((hok target globalId id haction hfree).1 k)
  · obtain ⟨hk', -⟩ | ⟨rfl, -⟩ := ids_origin h hk'
    · exact absurd hk' ((hok target globalId id haction hfree).1 k')
    · rfl

section

variable [IpText]

/-- No live session gets the id of an unfinished close task. -/
theorem pending_step (hinv : IdInv s) (hok : IdsUnused s a) (h : s.step a = some s')
    {key k : Nat} {t' : Task} (hkey : s'.tasks.lookup key = some t') (hclose : t'.close) :
    ids s'.sessions k ≠ some t'.id := by
  intro hk
  have hroute := (step_effect h).route
  obtain ⟨-, -, -, -, hdrop⟩ | ⟨-, t, ht, hlater⟩ := task_origin (step_effect h).line hkey
  · -- the close task of this very drop: only the dropped session held the id
    obtain ⟨m, inRuntime, haction, hm, hid⟩ := hdrop hclose
    cases hroute with
    | keep _ _ hne => exact hne _ _ haction
    | opened target globalId id haction' =>
      rw [haction] at haction'
      cases haction'
    | dropped key' inRuntime' m' haction' hm' hids =>
      rw [haction] at haction'
      cases haction'
      rw [hids] at hk
      split at hk
      · cases hk
      · rename_i hne
        refine hne (hinv.distinct k t'.owner t'.id hk ?_)
        unfold ids
        rw [hm, hid]
        rfl
  · -- a close task from before: its id was not free for a new session
    rw [hlater.close] at hclose
    rw [hlater.id] at hk
    obtain ⟨hk, -⟩ | ⟨-, -, hfree, target, globalId, haction⟩ := ids_origin hroute hk
    · exact hinv.pending key t k ht hclose hk
    · exact (hok target globalId t.id haction hfree).2 key t ht hclose rfl

/-- **One step keeps the invariant** when a session is opened under an unused
id only. -/
theorem idInv_step (hinv : IdInv s) (hok : IdsUnused s a) (h : s.step a = some s') : IdInv s' := by
  have hroute := (step_effect h).route
  constructor
  · intro k k' id hk hk'
    exact distinct_step hinv hok hroute hk hk'
  · intro key t k hkey hclose
    exact pending_step hinv hok h hkey hclose
  · intro X r id hX hid
    obtain ⟨hX, -⟩ | ⟨hsender, -, hnew⟩ := route_origin hroute hX
    · obtain ⟨hid, -⟩ | ⟨hfresh, -⟩ := ids_origin hroute hid
      · exact hinv.route X r id hX hid
      · exact absurd hfresh (ne_of_lt (hinv.senders X r hX))
    · rw [hsender, hnew] at hid
      cases hid
      rfl
  · intro k id hk
    obtain ⟨hk, hfresh⟩ | ⟨hfresh, hnext, -⟩ := ids_origin hroute hk
    · exact lt_of_lt_of_le (hinv.sessions k id hk) hfresh
    · omega
  · intro X r hX
    obtain ⟨hX, hfresh⟩ | ⟨hsender, hnext, -⟩ := route_origin hroute hX
    · exact lt_of_lt_of_le (hinv.senders X r hX) hfresh
    · omega

/-- A drop removes no route of another live session. -/
theorem drop_isolated (hinv : IdInv s) (h : s.step a = some s') : ¬ DropHitsOther s s' a := by
  rintro ⟨key, inRuntime, X, r, haction, hX, hgone, hother, hlive⟩
  obtain ⟨id, hid⟩ := ne_none_iff_exists'.mp hlive
  cases (step_effect h).route with
  | keep _ _ hne => exact hne _ _ haction
  | opened target globalId id haction' =>
    rw [haction] at haction'
    cases haction'
  | dropped key' inRuntime' m haction' hm _ hroutes =>
    rw [haction] at haction'
    cases haction'
    rw [hroutes] at hgone
    split at hgone
    · -- the route was under the dropped session's id, which only it holds
      rename_i heq
      refine hother (hinv.distinct r.sender key id hid ?_)
      unfold ids
      rw [hm, hinv.route X r id hX hid, heq]
      rfl
    · rw [hX] at hgone
      cases hgone

/-- An END frame ends no other live session. -/
theorem end_isolated (hinv : IdInv s) (hline : LineInv s) (h : s.step a = some s') :
    ¬ EndHitsLive s a := by
  rintro ⟨key, n, w, ws, w', haction, hlast, hend, -, -, -, -, -, hlive⟩
  cases haction
  simp only [Mux.step, Mux.accept, bind_eq_bind, bind_eq_some_iff] at h
  obtain ⟨t, hkey, h⟩ := h
  rw [hlast] at h
  simp only at h
  split at h
  · cases h
  · rename_i hguard
    have hstage : t.stage = .writing := by
      by_contra hne
      exact hguard (.inl hne)
    -- the last write is the writing future's, so that future is a close task
    obtain ⟨sent, ws', hcur⟩ := hline.current key t hkey hstage
    rw [hlast] at hcur
    cases hcur
    exact hinv.pending key t w'.owner hkey (hline.status key t hkey hend) hlive

/-- **Teardown isolation**: when `session` gives out only ids that no live session
holds and no unfinished close task carries, dropping a session never removes
another live session's route, and no END frame follows the NEW frame of another
live session with the same id. -/
theorem teardown_isolated (h : muxSystem.Reaches IdsUnused Mux.new s)
    (hstep : muxSystem.step s a = some s') :
    ¬ DropHitsOther s s' a ∧ ¬ EndHitsLive s a := by
  have hinv : IdInv s := h.invariant idInv_new idInv_step
  exact ⟨drop_isolated hinv hstep, end_isolated hinv (lineInv_of_reaches h) hstep⟩

end

/-- Two sessions; both have sent their first frame when the first is dropped. -/
def twoSent : List Action :=
  [.session ⟨['a'], 53⟩ none, .session ⟨['a'], 53⟩ none, .send 0 ⟨['a'], 53⟩ [], .lockState 2,
    .lockWriter 2, .accept 2 14, .flushed 2, .send 1 ⟨['a'], 53⟩ [], .lockState 3,
    .lockWriter 3, .accept 3 14, .flushed 3]

attribute [local instance] IpText.namesOnly

/-- The drop of the first leaves the second alone. -/
theorem teardown_isolated_twoSent :
    ∃ s s', muxSystem.Reaches IdsUnused Mux.new s ∧
      muxSystem.step s (.dropSession 0 true) = some s' ∧
      (s'.routes.lookup 1).isSome = true ∧
      ¬ DropHitsOther s s' (.dropSession 0 true) ∧ ¬ EndHitsLive s (.dropSession 0 true) := by
  obtain ⟨s, hs, hdrop⟩ := Lts.run_any (M := muxSystem) (s := Mux.new)
    (fun s => (Mux.dropSession s 0 true).any fun s' => (s'.routes.lookup 1).isSome) twoSent
    (show (Lts.run _ IdsUnused _ _).any _ = true by decide +kernel)
  obtain ⟨s', hs', hroute⟩ := (any_eq_true _ _).mp hdrop
  exact ⟨s, s', hs, hs', hroute, teardown_isolated hs hs'⟩

/-! ## The counter goes around -/

/-- A live session 0 with id 0 whose route the peer has ended; the counter stands
at `id`. -/
def ended (id : UInt16) (n : Nat) : Mux :=
  { Mux.new with
    nextId := id
    fresh := n + 1
    sessions := (∅ : Table Nat MuxSession).insert 0
      ⟨0, ⟨['a'], 53⟩, none, ⟨true, true⟩, none, [.error "XUDP session ended"]⟩ }

/-- Another session is opened, ended by the peer and dropped. -/
def turn (id : UInt16) (n : Nat) : List Action :=
  [.session ⟨['a'], 53⟩ none, .peer ⟨id, statusEnd, none⟩ none, .deliver,
    .dropSession (n + 1) true]

/-- Another session moves the counter, and nothing else. -/
theorem run_turn (id : UInt16) (n : Nat) :
    muxSystem.run Lts.anyStep (ended id n) (turn id n) =
      some (ended (id + 1) (n + 1)) := by
  have hkey : n + 1 ≠ 0 := Nat.succ_ne_zero n
  simp [turn, Lts.run, Lts.anyStep, muxSystem, Mux.step, ended, Mux.new, Mux.session,
    nextFree_empty, Mux.peer, statusEnd, statusKeepalive, Table.lookup_singleton, Mux.deliver,
    Mux.trySend, Mux.dropSession, Table.erase_singleton, Table.erase_insert_singleton hkey]

/-- So the counter can stand anywhere. -/
theorem reaches_ended (n : Nat) :
    muxSystem.Reaches Lts.anyStep Mux.new (ended (UInt16.ofNat (n + 1)) n) := by
  induction n with
  | zero =>
    exact Lts.run_reaches
      [.session ⟨['a'], 53⟩ none, .peer ⟨0, statusEnd, none⟩ none, .deliver] rfl
  | succ n ih =>
    refine ih.trans ?_
    rw [UInt16.ofNat_add (n + 1) 1]
    exact Lts.run_reaches _ (run_turn (UInt16.ofNat (n + 1)) n)

/-- A second session gets the id 0 and sends its NEW frame; then the drop of the
first removes the second one's route, and its close task ends it at the peer. -/
theorem drop_ends_other_session :
    ∃ s₁ s₂ s₃ s₄, muxSystem.Reaches Lts.anyStep Mux.new s₁ ∧
      muxSystem.step s₁ (.dropSession 0 true) = some s₂ ∧
      DropHitsOther s₁ s₂ (.dropSession 0 true) ∧
      muxSystem.Reaches Lts.anyStep s₂ s₃ ∧
      muxSystem.step s₃ (.accept 65538 6) = some s₄ ∧
      EndHitsLive s₃ (.accept 65538 6) := by
  refine ⟨_, _, _, _, (reaches_ended 65535).trans (Lts.run_reaches
      [.session ⟨['a'], 53⟩ none, .send 65536 ⟨['a'], 53⟩ [], .lockState 65537,
        .lockWriter 65537, .accept 65537 14, .flushed 65537] rfl), rfl, ?_,
    Lts.run_reaches [.poll 65538, .lockWriter 65538] rfl, rfl, ?_⟩
  · exact ⟨0, true, 0, ⟨⟨['a'], 53⟩, 65536⟩, rfl, rfl, rfl, by decide, by decide +kernel⟩
  · exact ⟨65538, 6, _, _, _, rfl, rfl, rfl, List.mem_cons_self, rfl, by decide +kernel, rfl,
      by decide +kernel, rfl⟩

end ClashMeta.Xudp
