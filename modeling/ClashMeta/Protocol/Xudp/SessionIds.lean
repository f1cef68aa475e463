import ClashMeta.Protocol.Xudp.Routes

/-!
# Session ids (protocol/src/xudp.rs:101-135)

`session` walks a wrapping 16-bit counter and takes the first id without a route. The walk comes
past every id once, from any start: it fails only when every id has a route
(`nextFree_eq_none_iff`), and a session never takes a registered id (`session_allocates`).

`Allocation` keeps, beside the multiplexer, the list of the routes that were registered and not
removed since. A table cannot show that an entry was overwritten; the list can.
-/

namespace ClashMeta.Xudp

open List

theorem exists_add_ofNat (start id : UInt16) : ∃ i < 65536, start + UInt16.ofNat i = id := by
  refine ⟨(id - start).toNat, (id - start).toNat_lt, ?_⟩
  rw [UInt16.ofNat_toNat, UInt16.add_comm, UInt16.sub_add_cancel]

theorem mem_of_nextFree_eq_none {routes : Table UInt16 Route} {n : Nat} {start : UInt16}
    (h : Mux.nextFree routes n start = none) : ∀ i < n, start + UInt16.ofNat i ∈ routes := by
  intro i
  induction i using Nat.strong_induction_on with
  | _ i ih =>
    intro hi
    by_contra hfree
    have hsome : Mux.nextFree routes n start = some (start + UInt16.ofNat i) :=
      nextFree_eq_some_iff.mpr ⟨i, hi, rfl, hfree, fun j hj => ih j hj (by omega)⟩
    cases h.symm.trans hsome

/-- **The search fails only when every id has a route.** -/
theorem nextFree_eq_none_iff {routes : Table UInt16 Route} {start : UInt16} :
    Mux.nextFree routes 65536 start = none ↔ ∀ id, id ∈ routes := by
  constructor
  · intro h id
    obtain ⟨i, hi, rfl⟩ := exists_add_ofNat start id
    exact mem_of_nextFree_eq_none h i hi
  · intro hall
    cases h : Mux.nextFree routes 65536 start with
    | none => rfl
    | some id =>
      obtain ⟨i, -, -, hfree, -⟩ := nextFree_eq_some_iff.mp h
      exact absurd (hall id) hfree

/-! ## One call -/

section

variable {s : Mux}

variable {globalId : Option GlobalId} {target : Target}

/-- A session that is returned has an id that was free, and its route is registered under
it. -/
theorem session_ok {key : Nat} {s' : Mux} (h : s.session target globalId = .ok (key, s')) :
    ∃ id, ids s'.sessions key = some id ∧ id ∉ s.routes ∧
      s'.routes = s.routes.insert id ⟨target, key⟩ ∧ s'.alive = s.alive := by
  unfold Mux.session at h
  split at h
  · cases h
  · split at h
    · cases h
    · rename_i id hid
      cases h
      obtain ⟨i, -, -, hfree, -⟩ := nextFree_eq_some_iff.mp hid
      refine ⟨id, ?_, hfree, rfl, rfl⟩
      rw [ids, AList.lookup_insert]
      rfl

theorem session_error (halive : s.alive) {e : String}
    (h : s.session target globalId = .error e) :
    e = "XUDP session ID space exhausted" ∧ ∀ id, id ∈ s.routes := by
  unfold Mux.session at h
  rw [halive] at h
  simp only [Bool.not_true, Bool.false_eq_true, if_false] at h
  split at h
  · rename_i hnone
    cases h
    exact ⟨rfl, nextFree_eq_none_iff.mp hnone⟩
  · cases h

end

/-! ## Sequences of calls -/

/-- What happens to the route table: a `session` call, the removal of one route (a dropped
session, a frame that ends it), or of all of them when the multiplexer fails. -/
inductive RouteCall where
  | session (target : Target) (globalId : Option GlobalId)
  | remove (id : UInt16)
  | fail

/-- The multiplexer with the routes that were registered and not removed since, in the order
of their registration. -/
structure Allocation where
  mux : Mux
  live : List (UInt16 × Route)

namespace Allocation

/-- The registrations of a route table. -/
def start (s : Mux) : Allocation := ⟨s, s.routes.entries.map fun e => (e.1, e.2)⟩

/-- One call. A route is entered under the id that the session got. -/
def step (a : Allocation) : RouteCall → Allocation
  | .session target globalId =>
    match a.mux.session target globalId with
    | .ok (key, mux) =>
      ⟨mux, a.live ++ (ids mux.sessions key).toList.map fun id => (id, ⟨target, key⟩)⟩
    | .error _ => a
  | .remove id =>
    ⟨{ a.mux with routes := a.mux.routes.erase id }, a.live.filter fun e => e.1 ≠ id⟩
  | .fail => ⟨{ a.mux with routes := ∅, alive := false }, []⟩

/-- The list is the table, without two entries for one id. -/
structure Distinct (a : Allocation) : Prop where
  nodup : (a.live.map Prod.fst).Nodup
  table : ∀ id r, (id, r) ∈ a.live ↔ a.mux.routes.lookup id = some r

theorem distinct_start (s : Mux) : (start s).Distinct where
  nodup := by
    show ((s.routes.entries.map _).map _).Nodup
    rw [map_map]
    exact s.routes.nodupKeys
  table id r := by
    rw [← Table.mem_entries_iff]
    constructor
    · intro h
      obtain ⟨⟨_, _⟩, hmem, heq⟩ := mem_map.mp h
      cases heq
      exact hmem
    · exact fun h => mem_map.mpr ⟨⟨id, r⟩, h, rfl⟩

variable {a : Allocation}

theorem Distinct.register (h : a.Distinct) {mux : Mux} {id : UInt16} {r : Route}
    (hfree : id ∉ a.mux.routes) (hroutes : mux.routes = a.mux.routes.insert id r) :
    Distinct ⟨mux, a.live ++ [(id, r)]⟩ := by
  have hnone : a.mux.routes.lookup id = none := AList.lookup_eq_none.mpr hfree
  have hnew : ∀ r', (id, r') ∉ a.live := fun r' hmem => by
    rw [h.table, hnone] at hmem
    cases hmem
  constructor
  · show ((a.live ++ [(id, r)]).map Prod.fst).Nodup
    rw [map_append, nodup_append]
    refine ⟨h.nodup, nodup_singleton id, ?_⟩
    rintro x hx y hy rfl
    obtain ⟨⟨_, r'⟩, hmem, rfl⟩ := mem_map.mp hx
    cases mem_singleton.mp hy
    exact hnew r' hmem
  · intro id' r'
    rw [hroutes, Table.lookup_insert_if, mem_append, mem_singleton, Prod.mk.injEq]
    split
    · rename_i heq
      subst heq
      simp only [hnew r', false_or, true_and, Option.some.injEq]
      exact eq_comm
    · rename_i hne
      simp only [hne, false_and, or_false]
      exact h.table id' r'

theorem Distinct.remove (h : a.Distinct) (id : UInt16) : (a.step (.remove id)).Distinct where
  nodup := h.nodup.sublist (filter_sublist.map Prod.fst)
  table id' r := by
    show (id', r) ∈ a.live.filter _ ↔ (a.mux.routes.erase id).lookup id' = some r
    rw [mem_filter, h.table, Table.lookup_erase_if]
    split
    · rename_i heq
      simp [heq]
    · rename_i hne
      simp [hne]

theorem Distinct.step (h : a.Distinct) (c : RouteCall) : (a.step c).Distinct := by
  cases c with
  | session target globalId =>
    unfold Allocation.step
    dsimp only
    split
    · rename_i key mux hok
      obtain ⟨id, hid, hfree, hroutes, -⟩ := session_ok hok
      rw [hid]
      exact h.register hfree hroutes
    · exact h
  | remove id => exact h.remove id
  | fail => exact ⟨nodup_nil, fun id r => ⟨nofun, nofun⟩⟩

/-- **Whatever the calls, no two registered routes share an id.** -/
theorem Distinct.run (h : a.Distinct) (calls : List RouteCall) :
    (calls.foldl Allocation.step a).Distinct := by
  induction calls generalizing a with
  | nil => exact h
  | cons c calls ih => exact ih (h.step c)

end Allocation

/-- **Session ids do not collide and are not given up early.** On a live multiplexer, with any
counter and any routes, a session that is returned has an id that was not registered and is
registered under it; `session` fails exactly when all ids are registered; and after any calls
and removals the routes that are registered have distinct ids. -/
theorem session_allocates (s : Mux) (halive : s.alive = true) (target : Target)
    (globalId : Option GlobalId) :
    (∀ key s', s.session target globalId = .ok (key, s') →
      ∃ id, ids s'.sessions key = some id ∧ id ∉ s.routes ∧
        s'.routes = s.routes.insert id ⟨target, key⟩) ∧
    ((∃ e, s.session target globalId = .error e) ↔ ∀ id, id ∈ s.routes) ∧
    ∀ calls : List RouteCall,
      ((calls.foldl Allocation.step (.start s)).live.map Prod.fst).Nodup ∧
      ∀ id r, (id, r) ∈ (calls.foldl Allocation.step (.start s)).live ↔
        (calls.foldl Allocation.step (.start s)).mux.routes.lookup id = some r := by
  refine ⟨fun key s' h => ?_, ⟨?_, fun hall => ?_⟩, fun calls => ?_⟩
  · obtain ⟨id, hid, hfree, hroutes, -⟩ := session_ok h
    exact ⟨id, hid, hfree, hroutes⟩
  · rintro ⟨e, he⟩
    exact (session_error halive he).2
  · match h : s.session target globalId with
    | .error e => exact ⟨e, rfl⟩
    | .ok (key, s') =>
      obtain ⟨id, -, hfree, -⟩ := session_ok h
      exact absurd (hall id) hfree
  · have hfinal := (Allocation.distinct_start s).run calls
    exact ⟨hfinal.nodup, hfinal.table⟩

/-- A multiplexer whose counter stands at its last value, and which has one route there: the
search wraps around. -/
def wrapping : Mux := { Mux.new with
  nextId := 65535
  routes := AList.singleton 65535 ⟨⟨"a", 1⟩, 0⟩
  fresh := 1 }

theorem session_allocates_wrapping :
    ∃ s' id, wrapping.session ⟨"b", 2⟩ none = .ok (1, s') ∧ ids s'.sessions 1 = some id ∧
      id ∉ wrapping.routes ∧ s'.nextId = 1 := by
  have hok : wrapping.session ⟨"b", 2⟩ none = .ok (1, _) := rfl
  obtain ⟨id, hid, hfree, -⟩ :=
    (session_allocates wrapping rfl ⟨"b", 2⟩ none).1 1 _ hok
  exact ⟨_, id, hok, hid, hfree, rfl⟩

end ClashMeta.Xudp
