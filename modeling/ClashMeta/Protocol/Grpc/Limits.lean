import ClashMeta.Protocol.Grpc.Pool

/-!
# The limits of the gRPC pool

Only a call that holds the creation lock adds a connection or takes a lease, and what it read
before it does so can only have gone down since: connections are removed and streams dropped by
anyone, but none is added. `CallOk` is what this means for a call at its stage, `Inv` for
the whole pool; `Inv.step_call` says when a step of one call keeps the invariant.
-/

namespace ClashMeta.Grpc

open List Option

namespace Stage

/-- The connection of the lease the call holds. -/
def lease : Stage → Option Nat
  | leased id | dead id | removed id | fresh id | connected id | requesting id | leaving id =>
    some id
  | failing lease => lease
  | _ => none

/-- The call holds the creation lock. -/
def locked : Stage → Bool
  | waiting | requesting _ | leaving _ | ended | panicked => false
  | _ => true

/-- The call is about to add a connection. -/
def makes : Stage → Bool
  | creating | created => true
  | _ => false

/-- The connection of which the call is about to take a lease. -/
def aim : Stage → Option Nat
  | chosen id | pushed id => some id
  | _ => none

/-- The stream is still in hand. -/
def early : Stage → Bool
  | waiting | looking | scanning _ _ | chosen _ | leased _ | dead _ | removed _ => true
  | _ => false

/-- A scan that has read no connection yet, with the number of those to come. -/
def unread : Stage → Option Nat
  | scanning rest none => some rest.length
  | _ => none

/-- The call is not about to add anything. -/
def plain : Stage → Bool
  | chosen _ | pushed _ | creating | created | scanning _ none | panicked => false
  | _ => true

/-- The connections a call knows. -/
def ids : Stage → List Nat
  | scanning rest least => rest ++ (least.map Prod.fst).toList
  | chosen id | leased id | dead id | removed id | pushed id | fresh id | connected id
  | requesting id | leaving id => [id]
  | failing lease => lease.toList
  | _ => []

end Stage

/-- The leases of a connection. -/
def Pool.leases (s : Pool) (id : Nat) : Nat := s.calls.countP fun c => c.stage.lease = some id

/-- The part of a call in the count of a connection. -/
def Connect.share (c : Connect) (id : Nat) : Nat := if c.stage.lease = some id then 1 else 0

/-- What holds of a call at its stage. -/
structure CallOk (options : GrpcOptions) (s : Pool) (c : Connect) : Prop where
  ids : ∀ id ∈ c.stage.ids, id < s.nextId
  once : c.taken + (if c.incoming then 1 else 0) = 1
  early : c.stage.early = true → c.incoming = true
  runs : c.stage ≠ .panicked
  room : 0 < options.maxConnections → c.stage.makes = true →
    s.pool.length < options.maxConnections
  light : options.maxConnections = 0 → 0 < options.maxStreams → ∀ id, c.stage.aim = some id →
    s.active id < options.maxStreams
  unread : ∀ n, c.stage.unread = some n → s.pool.length ≤ n

/-- The invariant of the pool. -/
structure Inv (options : GrpcOptions) (s : Pool) : Prop where
  counts : ∀ id, s.active id = s.leases id + s.streams.count id
  lock : ∀ k c, s.calls[k]? = some c → c.stage.locked = true → s.lock = some k
  calls : ∀ c ∈ s.calls, CallOk options s c
  poolIds : ∀ id ∈ s.pool, id < s.nextId
  streamIds : ∀ id ∈ s.streams, id < s.nextId
  limit : 0 < options.maxConnections → s.pool.length ≤ options.maxConnections
  load : options.maxConnections = 0 → 0 < options.maxStreams →
    ∀ id, s.active id ≤ options.maxStreams

variable {options : GrpcOptions} {s s' : Pool} {c c' : Connect} {k id : Nat} {load : Int}
  {old stage : Stage}

/-- A call knows the connection of its lease. -/
theorem Stage.mem_ids_of_lease (h : stage.lease = some id) : id ∈ stage.ids := by
  cases stage <;> cases h <;> exact mem_singleton_self _

/-- Without the lock, or at a plain stage, a call is not about to add anything. -/
theorem Stage.adds_nothing (h : stage.plain = true ∨ stage.locked = false) :
    stage.makes = false ∧ stage.aim = none ∧ stage.unread = none := by
  rcases stage with _ | _ | ⟨rest, _ | least⟩
  all_goals first | exact ⟨rfl, rfl, rfl⟩ | rcases h with h | h <;> cases h

namespace CallOk

/-- What holds of a call goes on to hold while others only take away, or when the call does
not have the lock. -/
theorem frame (h : CallOk options s c) (hnext : s.nextId ≤ s'.nextId)
    (hothers : (s'.pool.length ≤ s.pool.length ∧ ∀ id, s'.active id ≤ s.active id) ∨
      c.stage.locked = false) : CallOk options s' c where
  ids id hid := lt_of_lt_of_le (h.ids id hid) hnext
  once := h.once
  early := h.early
  runs := h.runs
  room hmax hmakes := by
    rcases hothers with hless | hfree
    · exact lt_of_le_of_lt hless.1 (h.room hmax hmakes)
    · cases (Stage.adds_nothing (.inr hfree)).1.symm.trans hmakes
  light hzero hmax id haim := by
    rcases hothers with hless | hfree
    · exact Int.lt_of_le_of_lt (hless.2 id) (h.light hzero hmax id haim)
    · cases (Stage.adds_nothing (.inr hfree)).2.1.symm.trans haim
  unread n hn := by
    rcases hothers with hless | hfree
    · exact le_trans hless.1 (h.unread n hn)
    · cases (Stage.adds_nothing (.inr hfree)).2.2.symm.trans hn

/-- What a call that is not about to add anything has to show. -/
theorem of_plain (hplain : c.stage.plain) (hids : ∀ id ∈ c.stage.ids, id < s.nextId)
    (honce : c.taken + (if c.incoming then 1 else 0) = 1)
    (hearly : c.stage.early = true → c.incoming = true) : CallOk options s c where
  ids := hids
  once := honce
  early := hearly
  runs hstage := by
    rw [hstage] at hplain
    cases hplain
  room _ hmakes := by cases (Stage.adds_nothing (.inl hplain)).1.symm.trans hmakes
  light _ _ id haim := by cases (Stage.adds_nothing (.inl hplain)).2.1.symm.trans haim
  unread n hn := by cases (Stage.adds_nothing (.inl hplain)).2.2.symm.trans hn

/-- The same for a call that goes on to another stage. -/
theorem move (h : CallOk options s c) (hnext : s.nextId ≤ s'.nextId)
    (hplain : stage.plain) (hids : ∀ id ∈ stage.ids, id < s.nextId)
    (hearly : stage.early = true → c.stage.early = true) :
    CallOk options s' { c with stage := stage } :=
  of_plain hplain (fun id hid => lt_of_lt_of_le (hids id hid) hnext) h.once fun he =>
    h.early (hearly he)

end CallOk

/-! ## A step of one call -/

/-- A step of one call changes the leases by its own part. -/
theorem leases_set (hc : s.calls[k]? = some c) (hcalls : s'.calls = s.calls.set k c') (id : Nat) :
    s'.leases id + c.share id = s.leases id + c'.share id := by
  obtain ⟨hk, rfl⟩ := List.getElem?_eq_some_iff.mp hc
  have hpos : s.calls[k].stage.lease = some id → 0 < s.leases id := fun h =>
    countP_pos_iff.mpr ⟨_, getElem_mem hk, decide_eq_true h⟩
  rw [Pool.leases, hcalls, countP_set hk, Connect.share, Connect.share]
  simp only [decide_eq_true_eq]
  change s.leases id - _ + _ + _ = s.leases id + _
  split
  · next h =>
    have := hpos h
    omega
  · omega

/-- **When a step of call `k` keeps the invariant.** The call may add connections or leases
only with the lock, which it may take when it is free. -/
theorem Inv.step_call (h : Inv options s) (hc : s.calls[k]? = some c)
    (hcalls : s'.calls = s.calls.set k c') (hnext : s.nextId ≤ s'.nextId)
    (hcounts : ∀ id, s'.active id + c.share id + s.streams.count id =
      s.active id + c'.share id + s'.streams.count id)
    (hlock : s'.lock = s.lock ∨ s.lock = none ∨ c.stage.locked = true)
    (hown : c'.stage.locked = true → s'.lock = some k)
    (hothers : (s'.pool.length ≤ s.pool.length ∧ ∀ id, s'.active id ≤ s.active id) ∨
      c.stage.locked = true)
    (hok : CallOk options s' c') (hpool : ∀ id ∈ s'.pool, id < s'.nextId)
    (hstreams : ∀ id ∈ s'.streams, id < s'.nextId)
    (hlimit : 0 < options.maxConnections → s'.pool.length ≤ options.maxConnections)
    (hload : options.maxConnections = 0 → 0 < options.maxStreams →
      ∀ id, s'.active id ≤ options.maxStreams) : Inv options s' := by
  have hkth : k < s.calls.length := (List.getElem?_eq_some_iff.mp hc).1
  -- a call that has the lock is the only one
  have halone : c.stage.locked = true → ∀ j d, s.calls[j]? = some d → j ≠ k →
      d.stage.locked = false := by
    intro hlocked j d hd hne
    cases hdl : d.stage.locked with
    | false => rfl
    | true =>
      have := (h.lock k c hc hlocked).symm.trans (h.lock j d hd hdl)
      exact absurd (some.inj this).symm hne
  refine ⟨fun id => ?_, fun j d hd hdl => ?_, fun d hd => ?_, hpool, hstreams, hlimit, hload⟩
  · -- the other calls have the leases they had
    have hleases := leases_set hc hcalls id
    have hbefore := h.counts id
    have hstep := hcounts id
    omega
  · rw [hcalls, getElem?_set] at hd
    split at hd
    · next heq =>
      subst heq
      cases hd
      exact hown hdl
    · next hne =>
      -- another call with the lock had it before, so this step did not move the lock
      have hbefore := h.lock j d hd hdl
      rcases hlock with hsame | hfree | hlocked
      · rw [hsame, hbefore]
      · rw [hfree] at hbefore
        cases hbefore
      · rw [halone hlocked j d hd (Ne.symm hne)] at hdl
        cases hdl
  · rw [hcalls] at hd
    obtain ⟨j, hj⟩ := mem_iff_getElem?.mp hd
    rw [getElem?_set] at hj
    split at hj
    · next heq =>
      cases hj
      exact hok
    · next hne =>
      -- what this call added, it added with the lock, and then the other one has none
      refine (h.calls d (mem_of_getElem? hj)).frame hnext (hothers.imp_right fun hlocked => ?_)
      exact halone hlocked j d hj (Ne.symm hne)

namespace Inv

/-- A connection is chosen for another stream below `max_streams`. -/
theorem light_of_reuse {connections : Nat} (h : reuseLeastLoaded load connections options)
    (hzero : options.maxConnections = 0) (hmax : 0 < options.maxStreams) :
    load < options.maxStreams := by
  rw [reuseLeastLoaded] at h
  split at h
  · omega
  · rw [if_neg (by omega)] at h
    simp only [Bool.or_eq_true, beq_iff_eq, decide_eq_true_eq] at h
    omega

/-- A connection is made below `max_connections`. -/
theorem room_of_not_reuse {connections : Nat}
    (h : ¬ reuseLeastLoaded load connections options) (hmax : 0 < options.maxConnections) :
    connections < options.maxConnections := by
  rw [reuseLeastLoaded] at h
  split at h
  · exact absurd rfl h
  · simp only [Bool.or_eq_true, decide_eq_true_eq, not_or] at h
    omega

/-- A connection that does not exist yet has no leases. -/
theorem idle (h : Inv options s) (hid : s.nextId ≤ id) : s.active id = 0 := by
  have hleases : s.leases id = 0 := by
    rw [Pool.leases, countP_eq_zero]
    intro c hc hlease
    have := (h.calls c hc).ids id (Stage.mem_ids_of_lease (of_decide_eq_true hlease))
    omega
  have hstreams : s.streams.count id = 0 := by
    rw [count_eq_zero]
    intro hmem
    have := h.streamIds id hmem
    omega
  rw [h.counts, hleases, hstreams]
  rfl

section

variable (h : Inv options s) (hc : s.calls[k]? = some c)
include h hc

theorem call : CallOk options s c := h.calls c (mem_of_getElem? hc)

/-- A step that leaves the leases and the lock alone. -/
theorem quiet (mutex : Bool) (hlease : c'.stage.lease = c.stage.lease)
    (hlocked : c'.stage.locked = true → c.stage.locked = true) (hok : CallOk options s c') :
    Inv options ({ s with mutex := mutex }.setCall k c') := by
  refine h.step_call hc rfl le_rfl (fun id => ?_) (.inl rfl)
    (fun hl => h.lock k c hc (hlocked hl)) (.inl ⟨le_rfl, fun _ => le_rfl⟩)
    (hok.frame le_rfl (.inl ⟨le_rfl, fun _ => le_rfl⟩)) h.poolIds h.streamIds
    h.limit h.load
  rw [Connect.share, Connect.share, hlease]
  rfl

section

variable (hstage : c.stage = old) (hplain : stage.plain = true)
  (hearly : stage.early = true → old.early = true)
include hstage hplain hearly

/-- Such a step to a plain stage. -/
theorem moves (hlease : stage.lease = old.lease)
    (hlocked : stage.locked = true → old.locked = true) (hids : ∀ id ∈ stage.ids, id < s.nextId) :
    Inv options (s.move k c stage) := by
  subst hstage
  exact h.quiet hc s.mutex hlease hlocked ((h.call hc).move le_rfl hplain hids hearly)

/-- A lease is taken. -/
theorem leases (hlocked : old.locked) (haim : old.aim = some id)
    (hnone : old.lease = none) (hids : old.ids = [id]) (hlease : stage.lease = some id)
    (hids' : stage.ids = [id]) : Inv options ((s.addActive id 1).move k c stage) := by
  subst hstage
  have hcall := h.call hc
  refine h.step_call hc rfl le_rfl (fun j => ?_) (.inl rfl)
    (fun _ => h.lock k c hc hlocked) (.inr hlocked)
    (hcall.move le_rfl hplain (hids' ▸ hids ▸ hcall.ids) hearly) h.poolIds
    h.streamIds h.limit ?_
  · show count s.active id 1 j + c.share j + s.streams.count j =
      s.active j + Connect.share { c with stage := stage } j + s.streams.count j
    rw [Connect.share, Connect.share, hnone, hlease, count]
    by_cases hj : j = id
    · subst hj
      simp
    · simp [hj, Ne.symm hj]
  · -- the load was below the limit when it was read, and has not gone up since
    intro hzero hmax j
    show count s.active id 1 j ≤ _
    have hlight := hcall.light hzero hmax id haim
    have hload := h.load hzero hmax j
    rw [count]
    split
    · next hj =>
      subst hj
      omega
    · exact hload

/-- A lease is given back. -/
theorem releases (hlease : old.lease = some id) (hnone : stage.lease = none)
    (hlocked : stage.locked = true → old.locked = true) (hids : stage.ids = []) :
    Inv options ((s.addActive id (-1)).move k c stage) := by
  subst hstage
  have hless : ∀ j, count s.active id (-1) j ≤ s.active j := by
    intro j
    rw [count]
    split <;> omega
  refine h.step_call hc rfl le_rfl (fun j => ?_) (.inl rfl)
    (fun hl => h.lock k c hc (hlocked hl)) (.inl ⟨le_rfl, hless⟩)
    ((h.call hc).move le_rfl hplain (fun j hj => ?_) hearly) h.poolIds
    h.streamIds h.limit fun hzero hmax j => Int.le_trans (hless j) (h.load hzero hmax j)
  · show count s.active id (-1) j + c.share j + s.streams.count j =
      s.active j + Connect.share { c with stage := stage } j + s.streams.count j
    rw [Connect.share, Connect.share, hnone, hlease, count]
    by_cases hj : j = id
    · subst hj
      simp only [if_true, reduceCtorEq, if_false]
      omega
    · simp [hj, Ne.symm hj]
  · rw [hids] at hj
    cases hj

/-- The lock is taken or given back. -/
theorem relocks {lock : Option Nat} (hlock : s.lock = none ∨ old.locked = true)
    (hown : stage.locked = true → lock = some k) (hlease : stage.lease = old.lease)
    (hids : stage.ids = old.ids) : Inv options ({ s with lock := lock }.move k c stage) := by
  subst hstage
  refine h.step_call hc rfl le_rfl (fun id => ?_) (.inr hlock) hown
    (.inl ⟨le_rfl, fun _ => le_rfl⟩)
    ((h.call hc).move le_rfl hplain (hids ▸ (h.call hc).ids) hearly)
    h.poolIds h.streamIds h.limit h.load
  rw [Connect.share, Connect.share, hlease]
  rfl

end

/-- The end of the scan: a connection is chosen, or one is made. -/
theorem decides {least : Option (Nat × Int)} (hstage : c.stage = .scanning [] least) :
    Inv options (s.decide options k c least) := by
  have hcall := h.call hc
  have hhand : c.incoming = true := hcall.early (by rw [hstage]; rfl)
  have hlease : c.stage.lease = none := by rw [hstage]; rfl
  have hlocked : c.stage.locked = true := by rw [hstage]; rfl
  -- the call is about to add a connection to a pool that is not full
  have hcreates : (0 < options.maxConnections → s.pool.length < options.maxConnections) →
      Inv options ({ s with mutex := false }.setCall k c.create) := by
    intro hroom
    have hcreate : c.create = ⟨.creating, false, c.taken + 1⟩ := by
      rw [Connect.create, if_pos hhand, Connect.take, if_pos hhand]
    have honce := hcall.once
    rw [if_pos hhand] at honce
    rw [hcreate]
    exact h.quiet hc false hlease.symm (fun _ => hlocked)
      ⟨nofun, by simpa using honce, nofun, nofun, fun hmax _ => hroom hmax, nofun, nofun⟩
  cases least with
  | none =>
    -- nothing was read, so the pool was empty when the scan began
    have hempty : s.pool.length ≤ 0 := hcall.unread 0 (by rw [hstage]; rfl)
    exact hcreates fun hmax => lt_of_le_of_lt hempty hmax
  | some found =>
    obtain ⟨id, load⟩ := found
    have hid : id < s.nextId := hcall.ids id (by rw [hstage]; exact mem_singleton_self id)
    rw [Pool.decide]
    by_cases hreuse : reuseLeastLoaded (s.active id) s.pool.length options = true
    · rw [if_pos hreuse]
      refine h.quiet hc false hlease.symm (fun _ => hlocked)
        ⟨fun j hj => ?_, hcall.once, fun _ => hhand, nofun, nofun, fun hzero hmax j hj => ?_, nofun⟩
      · rw [mem_singleton.mp hj]
        exact hid
      · cases hj
        exact light_of_reuse hreuse hzero hmax
    · rw [if_neg hreuse]
      exact hcreates (room_of_not_reuse hreuse)

/-- A scan begins. -/
theorem scans (hstage : c.stage = .looking) :
    Inv options ({ s with mutex := true }.move k c (.scanning s.pool none)) := by
  have hcall := h.call hc
  refine h.quiet hc true (by rw [hstage]; rfl) (fun _ => by rw [hstage]; rfl)
    ⟨fun id hid => ?_, hcall.once, fun _ => hcall.early (by rw [hstage]; rfl), nofun, nofun, nofun,
      fun n hn => le_of_eq (some.inj hn)⟩
  rw [Stage.ids, map_none, toList_none, append_nil] at hid
  exact h.poolIds id hid

/-- A scan reads a counter. -/
theorem reads {best : Nat} {rest : List Nat}
    {least : Option (Nat × Int)} (hstage : c.stage = .scanning (id :: rest) least)
    (hbest : best = id ∨ ∃ before, least = some (best, before)) :
    Inv options (s.move k c (.scanning rest (some (best, load)))) := by
  have hids := (h.call hc).ids
  rw [hstage] at hids
  refine h.moves hc hstage rfl (fun _ => rfl) rfl (fun _ => rfl) fun j hj => ?_
  rcases mem_append.mp hj with hj | hj
  · exact hids j (mem_append_left _ (mem_cons_of_mem _ hj))
  · rw [mem_singleton.mp hj]
    rcases hbest with rfl | ⟨_, rfl⟩
    · exact hids _ (mem_append_left _ mem_cons_self)
    · exact hids _ (mem_append_right _ (mem_singleton_self _))

/-- The stream is taken for a connection that is ready. -/
theorem takes (hstage : c.stage = .leased id) :
    Inv options (s.setCall k (c.take (.connected id))) := by
  have hcall := h.call hc
  have hhand : c.incoming = true := hcall.early (by rw [hstage]; rfl)
  have honce := hcall.once
  rw [if_pos hhand] at honce
  rw [Connect.take, if_pos hhand]
  exact h.quiet hc s.mutex (by rw [hstage]; rfl) (fun _ => by rw [hstage]; rfl)
    (.of_plain rfl (fun j hj => hcall.ids j (hstage ▸ hj)) honce nofun)

/-- A dead connection leaves the pool. -/
theorem removes (hstage : c.stage = .dead id) :
    Inv options ((s.removePhysical id).move k c (.removed id)) := by
  have hshorter : (s.pool.filter (· ≠ id)).length ≤ s.pool.length := length_filter_le ..
  refine h.step_call hc rfl le_rfl (fun j => ?_) (.inl rfl)
    (fun _ => h.lock k c hc (by rw [hstage]; rfl)) (.inl ⟨hshorter, fun _ => le_rfl⟩)
    ((h.call hc).move le_rfl rfl (fun j hj => (h.call hc).ids j (hstage ▸ hj))
      fun _ => by rw [hstage]; rfl)
    (fun j hj => h.poolIds j (mem_filter.mp hj |>.1)) h.streamIds
    (fun hmax => le_trans hshorter (h.limit hmax)) h.load
  rw [Connect.share, hstage]
  rfl

/-- A connection is made. -/
theorem creates (hstage : c.stage = .creating) : Inv options (s.move k c .created) := by
  have hcall := h.call hc
  exact h.quiet hc s.mutex (by rw [hstage]; rfl) (fun _ => by rw [hstage]; rfl)
    ⟨nofun, hcall.once, nofun, nofun, fun hmax _ => hcall.room hmax (by rw [hstage]; rfl), nofun,
      nofun⟩

/-- A new connection enters the pool. -/
theorem pushes (hstage : c.stage = .created) (skipped : Nat) :
    Inv options ({ s with
        pool := s.pool ++ [s.nextId + skipped]
        active := fun j => if j = s.nextId + skipped then 0 else s.active j
        nextId := s.nextId + skipped + 1
        watched := (s.nextId + skipped) :: s.watched
      }.move k c (.pushed (s.nextId + skipped))) := by
  have hcall := h.call hc
  have hlocked : c.stage.locked = true := by rw [hstage]; rfl
  -- the counter of the new connection starts where it stood
  have hactive : ∀ j, (if j = s.nextId + skipped then 0 else s.active j) = s.active j := by
    intro j
    split
    · next hj => rw [h.idle (by omega)]
    · rfl
  refine h.step_call hc rfl (by show s.nextId ≤ s.nextId + skipped + 1; omega) (fun j => ?_)
    (.inl rfl) (fun _ => h.lock k c hc hlocked) (.inr hlocked)
    ⟨fun j hj => ?_, hcall.once, nofun, nofun, nofun, fun _ hmax j hj => ?_, nofun⟩
    (fun j hj => ?_) (fun j hj => ?_) (fun hmax => ?_) fun hzero hmax j => ?_
  · rw [Connect.share, hstage]
    exact congrArg (fun n : Int => n + 0 + s.streams.count j) (hactive j)
  · rw [mem_singleton.mp hj]
    exact lt_add_one _
  · cases hj
    exact Int.lt_of_le_of_lt (Int.le_of_eq (if_pos rfl)) (Int.natCast_pos.mpr hmax)
  · show j < s.nextId + skipped + 1
    rcases mem_append.mp hj with hj | hj
    · have := h.poolIds j hj
      omega
    · rw [mem_singleton.mp hj]
      exact lt_add_one _
  · have := h.streamIds j hj
    show j < s.nextId + skipped + 1
    omega
  · -- there was room when the call decided to make the connection
    have hroom := hcall.room hmax (by rw [hstage]; rfl)
    show (s.pool ++ [s.nextId + skipped]).length ≤ _
    rw [length_append]
    exact hroom
  · exact Int.le_trans (Int.le_of_eq (hactive j)) (h.load hzero hmax j)

/-- The lease becomes that of the stream which is handed out. -/
theorem hands (hstage : c.stage = .requesting id) :
    Inv options ({ s with streams := id :: s.streams }.move k c .ended) := by
  have hid : id < s.nextId := (h.call hc).ids id (by rw [hstage]; exact mem_singleton_self id)
  refine h.step_call hc rfl le_rfl (fun j => ?_) (.inl rfl) nofun
    (.inl ⟨le_rfl, fun _ => le_rfl⟩)
    ((h.call hc).move le_rfl rfl nofun nofun)
    h.poolIds (fun j hj => ?_) h.limit h.load
  · show s.active j + c.share j + s.streams.count j = s.active j + 0 + (id :: s.streams).count j
    rw [Connect.share, hstage, Stage.lease, count_cons]
    by_cases hj : id = j
    · subst hj
      simp only [if_true, beq_self_eq_true]
      omega
    · simp [hj]
  · rcases mem_cons.mp hj with rfl | hj
    · exact hid
    · exact h.streamIds j hj

/-- Every step of a call is one of these. -/
theorem advance {skipped : Nat} (hstep : s.advance options k c skipped = some s') :
    Inv options s' := by
  have hids := (h.call hc).ids
  rw [Pool.advance] at hstep
  generalize hstage : c.stage = stage at hstep hids
  cases stage with
  | waiting =>
    dsimp only at hstep
    split at hstep
    · next hfree =>
      cases hstep
      exact h.relocks hc hstage rfl (fun _ => rfl) (.inl hfree) (fun _ => rfl) rfl rfl
    · cases hstep
  | looking =>
    obtain ⟨-, hstep⟩ := ite_none_left_eq_some.mp hstep
    cases hstep
    exact h.scans hc hstage
  | scanning rest least =>
    rcases rest with _ | ⟨id, rest⟩
    · cases hstep
      exact h.decides hc hstage
    rcases least with _ | ⟨best, load⟩
    · cases hstep
      exact h.reads hc hstage (.inl rfl)
    · dsimp only at hstep
      split at hstep
      · cases hstep
        exact h.reads hc hstage (.inl rfl)
      · cases hstep
        exact h.reads hc hstage (.inr ⟨load, rfl⟩)
  | chosen id =>
    cases hstep
    exact h.leases hc hstage rfl (fun _ => rfl) rfl rfl rfl rfl rfl rfl
  | leased id =>
    cases hstep
    exact h.takes hc hstage
  | dead id =>
    obtain ⟨-, hstep⟩ := ite_none_left_eq_some.mp hstep
    cases hstep
    exact h.removes hc hstage
  | removed id =>
    -- the lease of a dead connection goes, the stream stays in hand for another try
    cases hstep
    exact h.releases hc hstage rfl (fun _ => rfl) rfl rfl (fun _ => rfl) rfl
  | creating =>
    cases hstep
    exact h.creates hc hstage
  | created =>
    obtain ⟨-, hstep⟩ := ite_none_left_eq_some.mp hstep
    cases hstep
    exact h.pushes hc hstage skipped
  | pushed id =>
    cases hstep
    exact h.leases hc hstage rfl nofun rfl rfl rfl rfl rfl rfl
  | fresh id =>
    cases hstep
    exact h.moves hc hstage rfl nofun rfl (fun _ => rfl) hids
  | connected id =>
    cases hstep
    exact h.relocks hc hstage rfl (by nofun) (.inr rfl) nofun rfl rfl
  | requesting id =>
    cases hstep
    exact h.hands hc hstage
  | failing lease =>
    -- locals drop in reverse order: first the lease, then the lock
    rcases lease with _ | id
    · cases hstep
      exact h.relocks hc hstage rfl (by nofun) (.inr rfl) nofun rfl rfl
    · cases hstep
      exact h.releases hc hstage rfl nofun rfl rfl (fun _ => rfl) rfl
  | leaving id =>
    cases hstep
    exact h.releases hc hstage rfl nofun rfl rfl nofun rfl
  | ended | panicked => cases hstep

/-- A failure keeps the invariant. -/
theorem fail (hstep : s.fail k c = some s') : Inv options s' := by
  have hids := (h.call hc).ids
  rw [Pool.fail] at hstep
  generalize hstage : c.stage = stage at hstep hids
  cases stage with
  | leased id =>
    cases hstep
    exact h.moves hc hstage rfl (fun _ => rfl) rfl (fun _ => rfl) hids
  | creating | fresh id =>
    cases hstep
    exact h.moves hc hstage rfl nofun rfl (fun _ => rfl) hids
  | requesting id =>
    cases hstep
    exact h.moves hc hstage rfl nofun rfl nofun hids
  | _ => cases hstep

/-- A call that is dropped keeps it too. -/
theorem cancel (hstep : s.cancel k c = some s') : Inv options s' := by
  have hids := (h.call hc).ids
  rw [Pool.cancel] at hstep
  generalize hstage : c.stage = stage at hstep hids
  cases stage with
  | waiting =>
    cases hstep
    exact h.moves hc hstage rfl nofun rfl nofun hids
  | leased id | creating | fresh id =>
    cases hstep
    exact h.moves hc hstage rfl nofun rfl (fun _ => rfl) hids
  | _ => cases hstep

end

/-! ## The steps of no call -/

/-- A new call waits for the lock. -/
theorem starts (h : Inv options s) : Inv options { s with calls := s.calls ++ [.new] } := by
  refine ⟨fun id => ?_, fun j d hd hdl => ?_, fun d hd => ?_, h.poolIds, h.streamIds, h.limit,
    h.load⟩
  · have hleases : Pool.leases { s with calls := s.calls ++ [.new] } id = s.leases id := by
      rw [Pool.leases, countP_append]
      rfl
    rw [hleases]
    exact h.counts id
  · rw [getElem?_append] at hd
    split at hd
    · exact h.lock j d hd hdl
    · rw [mem_singleton.mp (mem_of_getElem? hd)] at hdl
      cases hdl
  · -- nothing the other calls rely on has changed
    rcases mem_append.mp hd with hd | hd
    · exact (h.calls d hd).frame le_rfl (.inl ⟨le_rfl, fun _ => le_rfl⟩)
    · rw [mem_singleton.mp hd]
      exact .of_plain rfl nofun rfl fun _ => rfl

/-- Steps of no call only take away. -/
theorem shrinks (h : Inv options s) (hcalls : s'.calls = s.calls) (hlock : s'.lock = s.lock)
    (hnext : s'.nextId = s.nextId) (hpool : s'.pool.Sublist s.pool)
    (hstreams : ∀ id ∈ s'.streams, id ∈ s.streams)
    (hcounts : ∀ id, s'.active id + s.streams.count id = s.active id + s'.streams.count id)
    (hless : ∀ id, s'.active id ≤ s.active id) : Inv options s' := by
  refine ⟨fun id => ?_, ?_, fun d hd => ?_, fun id hid => ?_, fun id hid => ?_, ?_, ?_⟩
  · have hbefore := h.counts id
    have hstep := hcounts id
    rw [Pool.leases, hcalls]
    change _ = (s.leases id : Int) + _
    omega
  · rw [hcalls, hlock]
    exact h.lock
  · rw [hcalls] at hd
    exact (h.calls d hd).frame (le_of_eq hnext.symm) (.inl ⟨hpool.length_le, hless⟩)
  · rw [hnext]
    exact h.poolIds id (hpool.subset hid)
  · rw [hnext]
    exact h.streamIds id (hstreams id hid)
  · exact fun hmax => le_trans hpool.length_le (h.limit hmax)
  · exact fun hzero hmax id => Int.le_trans (hless id) (h.load hzero hmax id)

/-- A stream is dropped. -/
theorem drops (h : Inv options s) (hid : id ∈ s.streams) :
    Inv options { s.addActive id (-1) with streams := s.streams.erase id } := by
  have hpos : 0 < s.streams.count id := count_pos_iff.mpr hid
  refine h.shrinks rfl rfl rfl (List.Sublist.refl _) (fun j hj => mem_of_mem_erase hj)
    (fun j => ?_) fun j => ?_
  · show count s.active id (-1) j + s.streams.count j = s.active j + (s.streams.erase id).count j
    rw [count_erase, count]
    by_cases hj : j = id
    · subst hj
      simp only [if_true, beq_self_eq_true]
      omega
    · simp [hj, Ne.symm hj]
  · show count s.active id (-1) j ≤ s.active j
    rw [count]
    split <;> omega

/-- **Every step keeps the invariant.** -/
theorem step (h : Inv options s) {a : PoolAction} (hstep : s.step options a = some s') :
    Inv options s' := by
  cases a with
  | call =>
    cases hstep
    exact h.starts
  | advance k skipped =>
    obtain ⟨c, hc, hstep⟩ := bind_eq_some_iff.mp hstep
    exact h.advance hc hstep
  | fail k =>
    obtain ⟨c, hc, hstep⟩ := bind_eq_some_iff.mp hstep
    exact h.fail hc hstep
  | cancel k =>
    obtain ⟨c, hc, hstep⟩ := bind_eq_some_iff.mp hstep
    exact h.cancel hc hstep
  | close id =>
    obtain ⟨-, hstep⟩ := ite_none_left_eq_some.mp hstep
    cases hstep
    exact h.shrinks rfl rfl rfl filter_sublist (fun _ hj => hj) (fun _ => rfl)
      fun _ => le_rfl
  | drop id =>
    obtain ⟨hid, hstep⟩ := ite_none_right_eq_some.mp hstep
    cases hstep
    exact h.drops hid

theorem new : Inv options .new where
  counts _ := rfl
  lock k c hc := by cases hc
  calls c hc := by cases hc
  poolIds id hid := by cases hid
  streamIds id hid := by cases hid
  limit _ := Nat.zero_le _
  load _ _ _ := Int.natCast_nonneg _

/-- It holds in every state. -/
theorem reached (hreach : (poolSystem options).Reaches Lts.anyStep .new s) : Inv options s :=
  hreach.invariant new fun h _ hstep => h.step hstep

end Inv

/-- **The limits of the pool, in every state that calls for one key, closing connections and
dropped streams can reach**: a counter is the number of the leases and streams of its
connection, so it never goes below zero; the pool keeps to `max_connections`, or without one
every connection to `max_streams`; and no call takes its stream a second time. -/
theorem pool_limits_hold (hreach : (poolSystem options).Reaches Lts.anyStep .new s) :
    (∀ id, 0 ≤ s.active id ∧ s.active id = s.leases id + s.streams.count id) ∧
      (0 < options.maxConnections → s.pool.length ≤ options.maxConnections) ∧
      (options.maxConnections = 0 → 0 < options.maxStreams →
        ∀ id, s.active id ≤ options.maxStreams) ∧
      ∀ c ∈ s.calls, c.taken ≤ 1 ∧ c.stage ≠ .panicked := by
  have h := Inv.reached hreach
  refine ⟨fun id => ⟨?_, h.counts id⟩, h.limit, h.load, fun c hc => ⟨?_, (h.calls c hc).runs⟩⟩
  · have := h.counts id
    omega
  · have := (h.calls c hc).once
    omega

/-- Two calls share a connection: the first has made it and has its stream, the second has its
lease and goes on to `ready`. -/
theorem pool_limits_hold_sharedConnection :
    ∃ s, (poolSystem { maxStreams := 2 }).Reaches Lts.anyStep .new s ∧
      (s.active 1 = 2 ∧ s.pool = [1] ∧ s.streams = [1]) ∧
      (∀ id, s.active id ≤ 2) ∧ ∀ c ∈ s.calls, c.taken ≤ 1 ∧ c.stage ≠ .panicked := by
  obtain ⟨s, hreach, htest⟩ : ∃ s, (poolSystem { maxStreams := 2 }).Reaches Lts.anyStep .new s ∧
      Decidable.decide (s.active 1 = 2 ∧ s.pool = [1] ∧ s.streams = [1]) = true :=
    Lts.run_any _ (.call :: .call :: List.replicate 9 (.advance 0 0) ++
      List.replicate 5 (.advance 1 0)) (by decide +kernel)
  have h := pool_limits_hold hreach
  exact ⟨s, hreach, of_decide_eq_true htest, h.2.2.1 rfl (by decide), h.2.2.2⟩

end ClashMeta.Grpc
