import ClashMeta.Protocol.Xudp.Mux

/-!
# What a step does to ids and routes

A session id is a 16-bit number, free as soon as no route is registered under it.
`nextFree_eq_some_iff` says which id `session` takes; `RouteStep` lists everything
one step can do to the live sessions' ids and to the route table.
-/

namespace ClashMeta.Xudp

/-! ## Ids -/

/-- The ids of the live sessions. -/
def ids (sessions : Table Nat MuxSession) (k : Nat) : Option UInt16 :=
  (sessions.lookup k).map MuxSession.id

/-- The first id from `next_id` on, once around, with no route. -/
def FirstFree (s : Mux) (id : UInt16) : Prop :=
  ∃ i < 65536, id = s.nextId + UInt16.ofNat i ∧ id ∉ s.routes ∧
    ∀ j < i, s.nextId + UInt16.ofNat j ∈ s.routes

/-- The search finds the first id with no route. -/
theorem nextFree_eq_some_iff {routes : Table UInt16 Route} {n : Nat} {start id : UInt16} :
    Mux.nextFree routes n start = some id ↔
      ∃ i < n, id = start + UInt16.ofNat i ∧ id ∉ routes ∧
        ∀ j < i, start + UInt16.ofNat j ∈ routes := by
  induction n generalizing start with
  | zero => simp [Mux.nextFree]
  | succ n ih =>
    have hshift : ∀ j, start + 1 + UInt16.ofNat j = start + UInt16.ofNat (j + 1) := by
      intro j
      rw [UInt16.ofNat_add, UInt16.add_assoc, UInt16.add_comm 1]
      rfl
    have hzero : start + UInt16.ofNat 0 = start := by simp
    simp only [Mux.nextFree]
    -- a taken id moves the search, and every offset, by one
    by_cases hmem : start ∈ routes
    · rw [if_pos hmem, ih]
      constructor
      · rintro ⟨i, hi, heq, hfree, hbefore⟩
        refine ⟨i + 1, by omega, heq.trans (hshift i), hfree, ?_⟩
        intro j hj
        cases j with
        | zero => exact hzero.symm ▸ hmem
        | succ j => exact hshift j ▸ hbefore j (by omega)
      · rintro ⟨i, hi, heq, hfree, hbefore⟩
        cases i with
        | zero => exact absurd hmem (hzero ▸ heq ▸ hfree)
        | succ i =>
          refine ⟨i, by omega, heq.trans (hshift i).symm, hfree, ?_⟩
          intro j hj
          exact (hshift j).symm ▸ hbefore (j + 1) (by omega)
    · rw [if_neg hmem]
      constructor
      · intro h
        cases h
        exact ⟨0, by omega, hzero.symm, hmem, fun j hj => absurd hj (Nat.not_lt_zero j)⟩
      · rintro ⟨i, hi, heq, hfree, hbefore⟩
        cases i with
        | zero => rw [heq, hzero]
        | succ i => exact absurd (hbefore 0 (by omega)) (hzero.symm ▸ hmem)

/-- Without routes the next id is free. -/
theorem nextFree_empty (id : UInt16) : Mux.nextFree ∅ 65536 id = some id :=
  nextFree_eq_some_iff.mpr ⟨0, by omega, by simp, AList.notMem_empty id, by omega⟩

/-- A session that keeps its id keeps the ids. -/
theorem ids_insert {sessions : Table Nat MuxSession} {key : Nat} {m m' : MuxSession}
    (hm : sessions.lookup key = some m) (hid : m'.id = m.id) :
    ids (sessions.insert key m') = ids sessions := by
  funext k
  unfold ids
  rw [Table.lookup_insert_if]
  split
  · rename_i heq
    rw [heq, hm, Option.map_some, Option.map_some, hid]
  · rfl

/-- What is sent to a queue changes no id. -/
theorem ids_trySend (key : Nat) (item : RoutedPacket) (sessions : Table Nat MuxSession) :
    ids (Mux.trySend key item sessions) = ids sessions := by
  unfold Mux.trySend
  split
  · rfl
  · rename_i m hm
    split
    · exact ids_insert hm rfl
    · rfl

theorem ids_sweep (message : String) (routes : List Route) (sessions : Table Nat MuxSession) :
    ids (routes.foldl (fun ss (r : Route) => Mux.trySend r.sender (.error message) ss) sessions) =
      ids sessions := by
  induction routes generalizing sessions with
  | nil => rfl
  | cons r routes ih =>
    rw [List.foldl_cons, ih]
    exact ids_trySend r.sender (.error message) sessions

theorem ids_finish (s : Mux) (key : Nat) (t : Task) :
    ids (s.finish key t).sessions = ids s.sessions := by
  simp only [Mux.finish]
  split
  · rename_i m hm
    split
    · exact ids_insert hm rfl
    · rfl
  · rfl

/-! ## What a step does to ids and routes -/

/-- The effects of a step on the live sessions' ids and on the routes. -/
inductive RouteStep (s s' : Mux) (a : Action) : Prop where
  /-- ids stay; routes may go -/
  | keep (hids : ids s'.sessions = ids s.sessions)
      (hroutes : ∀ X r, s'.routes.lookup X = some r → s.routes.lookup X = some r)
      (hdrop : ∀ key inRuntime, a ≠ .dropSession key inRuntime) (hfresh : s.fresh ≤ s'.fresh)
  /-- a session is opened under the first free id -/
  | opened (target : Target) (globalId : Option GlobalId) (id : UInt16)
      (haction : a = .session target globalId) (hfree : FirstFree s id)
      (hids : ∀ k, ids s'.sessions k = if k = s.fresh then some id else ids s.sessions k)
      (hroutes : s'.routes = s.routes.insert id ⟨target, s.fresh⟩)
      (hfresh : s'.fresh = s.fresh + 1)
  /-- a session is dropped, and whatever route its id has -/
  | dropped (key : Nat) (inRuntime : Bool) (m : MuxSession)
      (haction : a = .dropSession key inRuntime) (hm : s.sessions.lookup key = some m)
      (hids : ∀ k, ids s'.sessions k = if k = key then none else ids s.sessions k)
      (hroutes : ∀ X, s'.routes.lookup X = if X = m.id then none else s.routes.lookup X)
      (hfresh : s.fresh ≤ s'.fresh)

variable {s s' : Mux} {a : Action}

/-- Whether a session is dropped. -/
def Action.drops : Action → Bool
  | .dropSession _ _ => true
  | _ => false

theorem ne_drop (h : a.drops = false) : ∀ key inRuntime, a ≠ .dropSession key inRuntime := by
  rintro key inRuntime rfl
  cases h

theorem RouteStep.still (hdrop : ∀ key inRuntime, a ≠ .dropSession key inRuntime)
    (hids : ids s'.sessions = ids s.sessions) (hroutes : s'.routes = s.routes)
    (hfresh : s.fresh ≤ s'.fresh) : RouteStep s s' a :=
  .keep hids (fun _ _ h => hroutes ▸ h) hdrop hfresh

theorem route_finish {key : Nat} {t : Task}
    (hdrop : ∀ key inRuntime, a ≠ .dropSession key inRuntime) :
    RouteStep s (s.finish key t) a :=
  .still hdrop (ids_finish s key t) rfl le_rfl

theorem route_endFail {t : Mux} {c : Caller}
    (hdrop : ∀ key inRuntime, a ≠ .dropSession key inRuntime)
    (hids : ids t.sessions = ids s.sessions)
    (hroutes : ∀ X r, t.routes.lookup X = some r → s.routes.lookup X = some r)
    (hfresh : t.fresh = s.fresh) : RouteStep s (t.endFail c) a := by
  have hle : s.fresh ≤ t.fresh := le_of_eq hfresh.symm
  cases c with
  | reader | mux => exact .keep hids hroutes hdrop hle
  | task key =>
    simp only [Mux.endFail]
    split
    · exact .keep ((ids_finish _ _ _).trans hids) hroutes hdrop hle
    · exact .keep hids hroutes hdrop hle

end ClashMeta.Xudp
