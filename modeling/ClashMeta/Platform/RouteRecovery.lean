import Mathlib.Data.List.TakeWhile
import ClashMeta.Platform.RouteJournal

/-!
# Recovery of the route journal

A journal is a write-ahead log when every route that was added is named by the journal file
before it appears in the system's table. `WellLogged` states this together with what makes
recovery exact: the journal never names a route that was there before.

Each program of the transaction keeps it wherever it fails or stops, provided the call is
`Logged`: a spec that is already in memory is not taken for one that is on disk, and no desired
gateway is the unspecified address.
-/

namespace ClashMeta.Tun

open List Prog

variable {F : JournalFile} {os : Platform} {before : List Route}

/-- Some spec of the list matches the route. -/
def Covered (os : Platform) (specs : List RouteSpec) (r : Route) : Prop :=
  ∃ spec ∈ specs, spec.matches os r = true

/-- The spec matches no route that was there before. -/
def Foreign (os : Platform) (before : List Route) (spec : RouteSpec) : Prop :=
  ∀ r ∈ before, spec.matches os r = false

/-- `open` accepts the journal. -/
def Readable (os : Platform) (j : Journal) : Prop :=
  j.format = 1 ∧ j.platform = os ∧ j.routes.length ≤ routeLimit

/-- The state of a correct write-ahead log over the routes `before`. -/
structure WellLogged (os : Platform) (before : List Route) (s : Store F) : Prop where
  /-- Behind the routes that were there before stand only routes named in memory and on
  disk. -/
  routes : ∃ added, s.table = before ++ added ∧
    ∀ r ∈ added, Covered os s.journal.routes r ∧ Covered os (onDisk s) r
  memory : ∀ spec ∈ s.journal.routes, Foreign os before spec
  disk : ∀ spec ∈ onDisk s, Foreign os before spec
  readable : Readable os s.journal
  file : ∀ bytes, s.disk = some bytes → ∃ j, bytes = F.encode j ∧ Readable os j

/-- The gateway of the spec is not the unspecified address. -/
def Specified (spec : RouteSpec) : Prop :=
  ∀ gateway, spec.interface.gateway = some gateway → gateway.isUnspecified = false

/-- Up to the first spec that is neither present nor in memory, every spec to be added
has its route named on disk. -/
def Ready (os : Platform) (present : List Route) (specs : List RouteSpec) (s : Store F) : Prop :=
  ∀ spec ∈ specs.takeWhile fun spec =>
      present.any (spec.matches os) || decide (spec ∈ s.journal.routes),
    present.any (spec.matches os) = false → Covered os (onDisk s) (spec.route os)

/-- The condition on a call of `apply`, read on the state before it. -/
def Logged (os : Platform) (s : Store F) (desired : List RouteSpec) : Prop :=
  (∀ spec ∈ desired, Specified spec) ∧ Ready os s.table desired s

/-! ## Specs and their routes -/

variable {spec : RouteSpec}

/-- A spec matches its own route. -/
theorem matches_route (h : Specified spec) : spec.matches os (spec.route os) = true := by
  have hgateway : (spec.interface.gateway.filter fun ip => !ip.isUnspecified) =
      spec.interface.gateway := by
    cases hg : spec.interface.gateway with
    | none => rfl
    | some ip => simp [Option.filter, h ip hg]
  have hmetric : (!os.hasMetric || (spec.route os).metric == some 7) = true := by
    unfold RouteSpec.route
    cases os.hasMetric <;> simp
  unfold RouteSpec.matches
  rw [hmetric]
  simp only [RouteSpec.route, hgateway, IpNet.networkAddr_trunc, IpNet.prefixLen_trunc,
    beq_self_eq_true, Bool.and_self]

theorem onDisk_encode (s : Store F) (j : Journal) :
    onDisk { s with disk := some (F.encode j) } = j.routes := by
  simp [onDisk, F.decode_encode]

theorem Covered.mono {specs specs' : List RouteSpec} {r : Route} (h : Covered os specs r)
    (hsub : ∀ spec ∈ specs, spec ∈ specs') : Covered os specs' r := by
  obtain ⟨spec, hmem, hmatch⟩ := h
  exact ⟨spec, hsub spec hmem, hmatch⟩

/-! ## The operations -/

namespace WellLogged

variable {s : Store F}

section

variable (h : WellLogged os before s)

include h

/-- A save puts on disk what is in memory. -/
theorem save : WellLogged os before { s with disk := some (F.encode s.journal) } where
  __ := h
  routes := by
    obtain ⟨added, htable, hcov⟩ := h.routes
    refine ⟨added, htable, fun r hr => ⟨(hcov r hr).1, ?_⟩⟩
    rw [onDisk_encode]
    exact (hcov r hr).1
  disk := by
    rw [onDisk_encode]
    exact h.memory
  file := fun _ hbytes => ⟨s.journal, (Option.some.inj hbytes).symm, h.readable⟩

/-- A route may be added that is named in memory and on disk. -/
theorem add {r : Route} (hmem : Covered os s.journal.routes r) (hdisk : Covered os (onDisk s) r) :
    WellLogged os before { s with table := s.table ++ [r] } where
  __ := h
  routes := by
    obtain ⟨added, htable, hcov⟩ := h.routes
    refine ⟨added ++ [r], by rw [htable, append_assoc], fun x hx => ?_⟩
    rcases mem_append.mp hx with hx | hx
    · exact hcov x hx
    · rw [mem_singleton.mp hx]
      exact ⟨hmem, hdisk⟩

/-- A route that was not there before may be deleted. -/
theorem delete {r : Route} (hr : r ∉ before) :
    WellLogged os before { s with table := s.table.filter (· ≠ r) } where
  __ := h
  routes := by
    obtain ⟨added, htable, hcov⟩ := h.routes
    refine ⟨added.filter (· ≠ r), ?_, fun x hx => hcov x (mem_filter.mp hx).1⟩
    have hkeep : before.filter (· ≠ r) = before :=
      filter_eq_self.mpr fun x hx => decide_eq_true fun heq => hr (heq ▸ hx)
    rw [htable, filter_append, hkeep]

/-- Memory may take up a spec that matches no route from before. -/
theorem push (hspec : Foreign os before spec)
    (hlimit : s.journal.routes.length < routeLimit) :
    WellLogged os before
      { s with journal := { s.journal with routes := s.journal.routes ++ [spec] } } where
  __ := h
  routes := by
    obtain ⟨added, htable, hcov⟩ := h.routes
    refine ⟨added, htable, fun r hr => ⟨(hcov r hr).1.mono fun x hx => ?_, (hcov r hr).2⟩⟩
    exact mem_append_left _ hx
  memory := by
    intro x hx
    rcases mem_append.mp hx with hx | hx
    · exact h.memory x hx
    · rwa [mem_singleton.mp hx]
  readable := by
    refine ⟨h.readable.1, h.readable.2.1, ?_⟩
    rw [length_append]
    exact hlimit

/-- A spec that matches no route any more may be forgotten. -/
theorem drop (hgone : ∀ r ∈ s.table, spec.matches os r = false) : WellLogged os before
      { s with journal := { s.journal with routes := s.journal.routes.filter (· ≠ spec) } } where
  __ := h
  routes := by
    obtain ⟨added, htable, hcov⟩ := h.routes
    refine ⟨added, htable, fun r hr => ⟨?_, (hcov r hr).2⟩⟩
    obtain ⟨x, hx, hmatch⟩ := (hcov r hr).1
    refine ⟨x, mem_filter.mpr ⟨hx, decide_eq_true ?_⟩, hmatch⟩
    rintro rfl
    rw [hgone r (by rw [htable]; exact mem_append_right _ hr)] at hmatch
    cases hmatch
  memory := fun x hx => h.memory x (mem_filter.mp hx).1
  readable :=
    ⟨h.readable.1, h.readable.2.1, le_trans (length_filter_le _ _) h.readable.2.2⟩

end

end WellLogged

/-! ## The programs -/

/-- Removing a spec takes every route it matches out of the table, and keeps what every deletion
of such a route keeps. -/
theorem remove_keeps {J E : Store F → Prop} (hE : ∀ s, J s → E s)
    (hJ : ∀ r s, spec.matches os r = true → J s →
      J { s with table := s.table.filter (· ≠ r) }) :
    Triple J (remove os spec)
      (fun _ s => J s ∧ ∀ r ∈ s.table, spec.matches os r = false) E := by
  -- the loop: what is left to delete contains what is left to match
  let I : List Route → Store F → Prop := fun rs s =>
    J s ∧ (∀ r ∈ rs, spec.matches os r = true) ∧
      ∀ r ∈ s.table, spec.matches os r = true → r ∈ rs
  have hdelete : ∀ r rs, Triple (I (r :: rs)) (delete r) (fun _ => I rs) E := by
    intro r rs
    refine .op (fun s hs => ?_) fun s hs => hE s hs.1
    obtain ⟨hs, hmatch, hleft⟩ := hs
    refine ⟨hJ r s (hmatch r mem_cons_self) hs,
      fun x hx => hmatch x (mem_cons_of_mem _ hx), fun x hx hxm => ?_⟩
    obtain ⟨hx, hne⟩ := mem_filter.mp hx
    exact (mem_cons.mp (hleft x hx hxm)).resolve_left (of_decide_eq_true hne)
  refine Triple.bind (Q := fun rs s => I (rs.filter (spec.matches os)) s) ?_ fun rs => ?_
  · exact .op (fun s hs => ⟨hs, fun r hr => (mem_filter.mp hr).2, fun r hr hm =>
      mem_filter.mpr ⟨hr, hm⟩⟩) hE
  · refine (Triple.forEach hdelete _).post fun _ s hs => ⟨hs.1, fun r hr => ?_⟩
    cases hm : spec.matches os r with
    | false => rfl
    | true => exact absurd (hs.2.2 r hr hm) not_mem_nil

/-- Giving a spec up removes its routes first, and then its entry. -/
theorem giveUp_logged (hspec : Foreign os before spec) (js : List RouteSpec) :
    Triple (fun s : Store F => WellLogged os before s ∧ s.journal.routes = js)
      (giveUp os spec)
      (fun _ s => WellLogged os before s ∧ s.journal.routes = js.filter (· ≠ spec))
      (WellLogged os before) := by
  let Q : Unit → Store F → Prop := fun _ s =>
    WellLogged os before s ∧ s.journal.routes = js.filter (· ≠ spec)
  refine Triple.bind (remove_keeps (fun s hs => hs.1) fun r s hm hs =>
    ⟨hs.1.delete fun hr => ?_, hs.2⟩) fun _ => Triple.bind (Q := Q) ?_ fun _ => ?_
  · rw [hspec r hr] at hm
    cases hm
  · refine .modify fun s hs => ⟨hs.1.1.drop hs.2, ?_⟩
    rw [hs.1.2]
  · exact .op (fun s hs => ⟨hs.1.save, hs.2⟩) fun s hs => hs.1

section

variable {present : List Route} {spec : RouteSpec} {specs : List RouteSpec}

/-- The invariant of the first loop of `apply`. -/
structure Adding (os : Platform) (before present : List Route) (specs : List RouteSpec)
    (s : Store F) : Prop where
  logged : WellLogged os before s
  seen : ∀ r ∈ before, r ∈ present
  specified : ∀ spec ∈ specs, Specified spec
  ready : Ready os present specs s

/-- A spec that no present route matches is foreign. -/
theorem foreign_of_absent (hseen : ∀ r ∈ before, r ∈ present)
    (habsent : present.any (spec.matches os) = false) : Foreign os before spec := by
  intro r hr
  rw [any_eq_false] at habsent
  simpa using habsent r (hseen r hr)

/-- When memory is on disk, the condition on the specs to come holds. -/
theorem ready_of_saved {s : Store F} (hspecs : ∀ spec ∈ specs, Specified spec)
    (hsaved : onDisk s = s.journal.routes) : Ready os present specs s := by
  intro x hx habsent
  have hpass := mem_takeWhile_imp hx
  rw [habsent] at hpass
  have hspec : Specified x := hspecs x ((takeWhile_sublist _).subset hx)
  rw [hsaved]
  exact ⟨x, of_decide_eq_true hpass, matches_route hspec⟩

theorem Ready.tail {s : Store F} (h : Ready os present (spec :: specs) s)
    (hpass : present.any (spec.matches os) = true ∨ spec ∈ s.journal.routes) :
    Ready os present specs s := by
  intro x hx habsent
  refine h x ?_ habsent
  rw [takeWhile_cons, if_pos (by simpa using hpass)]
  exact mem_cons_of_mem _ hx

/-- **One round of the first loop** of `apply`. -/
theorem addOne_logged :
    Triple (Adding (F := F) os before present (spec :: specs)) (addOne os present spec)
      (fun _ => Adding os before present specs) (WellLogged os before) := by
  unfold addOne
  have hrest : ∀ {s : Store F}, Adding os before present (spec :: specs) s →
      ∀ x ∈ specs, Specified x := fun h x hx => h.specified x (mem_cons_of_mem _ hx)
  by_cases hpresent : present.any (spec.matches os) = true
  · -- the route is there
    rw [if_pos hpresent]
    exact .pure fun s h => ⟨h.logged, h.seen, hrest h, h.ready.tail (.inl hpresent)⟩
  · rw [if_neg hpresent]
    have habsent : present.any (spec.matches os) = false := by simpa using hpresent
    refine Triple.bind (Q := fun routes s => Adding os before present (spec :: specs) s ∧
      s.journal.routes = routes) (.get fun s h => ⟨h, rfl⟩) fun routes => ?_
    by_cases hmem : spec ∈ routes
    · -- memory names it, and by the condition the file does
      rw [if_pos hmem]
      refine .op (fun s hs => ?_) fun s hs => hs.1.logged
      obtain ⟨h, rfl⟩ := hs
      have hdisk : Covered os (onDisk s) (spec.route os) := by
        refine h.ready spec ?_ habsent
        rw [takeWhile_cons, if_pos (by simp [hmem])]
        exact mem_cons_self
      have hown : Covered os s.journal.routes (spec.route os) :=
        ⟨spec, hmem, matches_route (h.specified spec mem_cons_self)⟩
      exact ⟨h.logged.add hown hdisk, h.seen, hrest h, h.ready.tail (.inr hmem)⟩
    · rw [if_neg hmem]
      by_cases hlimit : routeLimit ≤ routes.length
      · rw [if_pos hlimit]
        exact .fail fun s hs => hs.1.logged
      · -- memory takes it up, the file is saved, the route is added
        rw [if_neg hlimit]
        let Named : Store F → Prop := fun s => WellLogged os before s ∧ spec ∈ s.journal.routes ∧
          (∀ r ∈ before, r ∈ present) ∧ ∀ x ∈ spec :: specs, Specified x
        refine Triple.bind (Q := fun _ => Named) ?_ fun _ => ?_
        · refine .modify fun s hs => ?_
          obtain ⟨h, rfl⟩ := hs
          exact ⟨h.logged.push (foreign_of_absent h.seen habsent) (not_le.mp hlimit),
            mem_append_right _ mem_cons_self, h.seen, h.specified⟩
        · refine Triple.bind (Q := fun _ s => Named s ∧ onDisk s = s.journal.routes)
            (.op (fun s h => ⟨⟨h.1.save, h.2⟩, onDisk_encode s s.journal⟩) fun s h => h.1)
            fun _ => ?_
          refine .op (fun s hs => ?_) fun s hs => hs.1.1
          obtain ⟨⟨hlog, hin, hseen, hspecs⟩, hsaved⟩ := hs
          have hown : Covered os s.journal.routes (spec.route os) :=
            ⟨spec, hin, matches_route (hspecs spec mem_cons_self)⟩
          have hspecs' : ∀ x ∈ specs, Specified x :=
            fun x hx => hspecs x (mem_cons_of_mem _ hx)
          exact ⟨hlog.add hown (by rw [hsaved]; exact hown), hseen, hspecs',
            ready_of_saved hspecs' hsaved⟩

theorem filter_cons_notMem (js : List RouteSpec) (spec : RouteSpec) (specs : List RouteSpec) :
    (js.filter (· ≠ spec)).filter (· ∉ specs) = js.filter (· ∉ spec :: specs) := by
  rw [filter_filter]
  refine filter_congr fun r _ => ?_
  simp [Bool.and_comm]

/-- Giving up several specs, by induction on them. -/
theorem giveUps_logged (hspecs : ∀ spec ∈ specs, Foreign os before spec) (js : List RouteSpec) :
    Triple (fun s : Store F => WellLogged os before s ∧ s.journal.routes = js)
      (forEach (giveUp os) specs)
      (fun _ s => WellLogged os before s ∧ s.journal.routes = js.filter (· ∉ specs))
      (WellLogged os before) := by
  induction specs generalizing js with
  | nil =>
    refine .pure fun s hs => ⟨hs.1, hs.2.trans ?_⟩
    exact (filter_eq_self.mpr fun _ _ => by simp).symm
  | cons spec specs ih =>
    obtain ⟨hspec, hrest⟩ := forall_mem_cons.mp hspecs
    refine Triple.bind (giveUp_logged hspec js) fun _ => (ih hrest _).post fun _ s hs => ?_
    rwa [filter_cons_notMem] at hs

/-- **One call of `apply`**, wherever it ends. -/
theorem apply_logged (desired : List RouteSpec) :
    Triple (fun s : Store F => WellLogged os before s ∧ Logged os s desired)
      (apply os desired) (fun _ => WellLogged os before) (WellLogged os before) := by
  refine Triple.bind (Q := fun present => Adding os before present desired)
    (.op (fun s hs => ?_) fun s hs => hs.1) fun present => ?_
  · obtain ⟨hlog, hspecs, hready⟩ := hs
    refine ⟨hlog, fun r hr => ?_, hspecs, hready⟩
    obtain ⟨added, htable, -⟩ := hlog.routes
    rw [htable]
    exact mem_append_left _ hr
  · refine Triple.bind (Triple.forEach (fun _ _ => addOne_logged) desired) fun _ => ?_
    refine Triple.bind (Q := fun routes s => WellLogged os before s ∧
      ∀ spec ∈ routes, Foreign os before spec) (.get fun s h => ⟨h.logged, h.logged.memory⟩) ?_
    intro routes s fates hs
    exact (giveUps_logged (fun x hx => hs.2 x (mem_filter.mp hx).1) _ s fates
      ⟨hs.1, rfl⟩).mono fun _ _ ht => ht.1

end

/-! ## Recovery -/

variable {s : Store F}

/-- With an empty journal the table is the one from before. -/
theorem WellLogged.table_eq (h : WellLogged os before s) (hempty : s.journal.routes = []) :
    s.table = before := by
  obtain ⟨added, htable, hcov⟩ := h.routes
  cases added with
  | nil => rw [htable, append_nil]
  | cons r rest =>
    obtain ⟨spec, hmem, -⟩ := (hcov r mem_cons_self).1
    rw [hempty] at hmem
    cases hmem

/-- **Restoring** gives up all that memory names. -/
theorem restore_logged :
    Triple (WellLogged (F := F) os before) (restore os)
      (fun _ s => s.table = before ∧ s.disk = none) (WellLogged os before) := by
  let Done : Store F → Prop := fun s => WellLogged os before s ∧ s.journal.routes = []
  refine Triple.bind (Q := fun routes s => WellLogged os before s ∧ s.journal.routes = routes)
    (.get fun s h => ⟨h, rfl⟩) fun routes => ?_
  refine Triple.bind (Q := fun _ => Done) (fun s fates hs => ?_) fun _ => ?_
  · -- memory names nothing but what is given up
    have hforeign : ∀ x ∈ routes.reverse, Foreign os before x := fun x hx =>
      hs.1.memory x (hs.2 ▸ mem_reverse.mp hx)
    refine (giveUps_logged hforeign routes s fates hs).mono fun _ t ht => ⟨ht.1, ht.2.trans ?_⟩
    exact filter_eq_nil_iff.mpr fun x hx => by simp [hx]
  · refine Triple.bind (Q := fun there s => Done s ∧ s.disk.isSome = there)
      (.get fun s h => ⟨h, rfl⟩) fun there => ?_
    cases there with
    | true => exact .op (fun s hs => ⟨hs.1.1.table_eq hs.1.2, rfl⟩) fun s hs => hs.1.1
    | false =>
      refine .pure fun s hs => ⟨hs.1.1.table_eq hs.1.2, ?_⟩
      exact Option.isNone_iff_eq_none.mp (Option.isSome_eq_false_iff.mp hs.2)

/-- Without a failure from outside the programs do not fail. -/
theorem remove_unfailing (spec : RouteSpec) : Unfailing (remove (F := F) os spec) :=
  .bind (.op _ _) fun _ => .forEach (fun _ => .op _ _) _

theorem giveUp_unfailing (spec : RouteSpec) : Unfailing (giveUp (F := F) os spec) :=
  .bind (remove_unfailing spec) fun _ => .bind (.modify _) fun _ => .op _ _

theorem restore_unfailing : Unfailing (restore (F := F) os) := by
  refine .bind (.get _) fun routes => .bind (.forEach giveUp_unfailing _) fun _ =>
    .bind (.get _) fun there => ?_
  cases there with
  | true => exact .op _ _
  | false => exact .pure _

/-- Opening a saved journal. -/
theorem openJournal_encode {j : Journal} (h : Readable os j) :
    openJournal os (some (F.encode j)) =
      if fileLimit < F.size (F.encode j) then .error "TUN journal size limit" else .ok j := by
  unfold Readable at h
  simp only [openJournal, F.decode_encode]
  rw [if_pos h]

/-- A new process starts with the journal that is on disk. -/
theorem WellLogged.reopen (h : WellLogged os before s) {j : Journal}
    (hopen : openJournal os s.disk = .ok j) : WellLogged os before { s with journal := j } := by
  have hroutes : j.routes = onDisk s ∧ Readable os j := by
    unfold onDisk
    cases hdisk : s.disk with
    | none =>
      rw [hdisk] at hopen
      cases hopen
      exact ⟨rfl, rfl, rfl, Nat.zero_le _⟩
    | some bytes =>
      obtain ⟨saved, rfl, hread⟩ := h.file bytes hdisk
      rw [hdisk, openJournal_encode hread] at hopen
      split at hopen
      · cases hopen
      · cases hopen
        exact ⟨by simp [F.decode_encode], hread⟩
  obtain ⟨added, htable, hcov⟩ := h.routes
  refine ⟨⟨added, htable, fun r hr => ⟨?_, (hcov r hr).2⟩⟩, ?_, h.disk, hroutes.2, h.file⟩
  · show Covered os j.routes r
    rw [hroutes.1]
    exact (hcov r hr).2
  · show ∀ spec ∈ j.routes, Foreign os before spec
    rw [hroutes.1]
    exact h.disk

/-- It can open a file within the size limit. -/
theorem WellLogged.opens (h : WellLogged os before s)
    (hsize : ∀ bytes, s.disk = some bytes → F.size bytes ≤ fileLimit) :
    ∃ j, openJournal os s.disk = .ok j := by
  cases hdisk : s.disk with
  | none => exact ⟨_, rfl⟩
  | some bytes =>
    obtain ⟨saved, rfl, hread⟩ := h.file bytes hdisk
    refine ⟨saved, ?_⟩
    rw [openJournal_encode hread, if_neg (Nat.not_lt_of_le (hsize _ hdisk))]

/-! ## Runs -/

/-- The condition on the steps of a run: calls of `apply` are logged. -/
def LoggedStep (os : Platform) (s : Sys F) : Event → Prop
  | .apply desired _ => Logged os s.store desired
  | .reopen => True

theorem wellLogged_init : WellLogged os before (tunSystem F os before).init.store where
  routes := ⟨[], (append_nil _).symm, nofun⟩
  memory := nofun
  disk := nofun
  readable := ⟨rfl, rfl, Nat.zero_le _⟩
  file := nofun

/-- **One event** of a run. -/
theorem wellLogged_step {s t : Sys F} {event : Event} (h : WellLogged os before s.store)
    (hok : LoggedStep os s event) (hstep : (tunSystem F os before).step s event = some t) :
    WellLogged os before t.store := by
  cases event with
  | apply desired fates =>
    simp only [tunSystem] at hstep
    split at hstep
    · cases hstep
      have hend := apply_logged desired s.store fates ⟨h, hok⟩
      generalize apply os desired s.store fates = run at hend
      obtain ⟨ending, left, rest⟩ := run
      cases ending <;> exact hend
    · cases hstep
  | reopen =>
    simp only [tunSystem] at hstep
    split at hstep
    · rename_i journal hopen
      cases hstep
      exact h.reopen hopen
    · cases hstep

/-- **The journal is a write-ahead log.** In every run, from any routes and an empty journal,
whose calls of `apply` are logged, with any operation failing and the process stopping
anywhere: every route that was not there before is named by the journal file, and
when the file is within its size limit a new process opens it, and its restore leaves
exactly the routes from before and no file. -/
theorem journal_write_ahead (F : JournalFile) (os : Platform) (before : List Route) {s : Sys F}
    (hrun : (tunSystem F os before).Reaches (LoggedStep os) (tunSystem F os before).init s) :
    (∀ r ∈ s.store.table, r ∉ before → Covered os (onDisk s.store) r) ∧
    ((∀ bytes, s.store.disk = some bytes → F.size bytes ≤ fileLimit) →
      ∃ j t, openJournal os s.store.disk = .ok j ∧
        restore os { s.store with journal := j } [] = (.done (), t, []) ∧
        t.table = before ∧ t.disk = none) := by
  have hlog : WellLogged os before s.store := hrun.invariant wellLogged_init wellLogged_step
  constructor
  · intro r hr hnew
    obtain ⟨added, htable, hcov⟩ := hlog.routes
    rw [htable] at hr
    exact (hcov r ((mem_append.mp hr).resolve_left hnew)).2
  · intro hsize
    obtain ⟨j, hopen⟩ := hlog.opens hsize
    obtain ⟨a, t, hret, htable, hdisk⟩ :=
      restore_logged.returns restore_unfailing (hlog.reopen hopen)
    exact ⟨j, t, hopen, hret, htable, hdisk⟩

/-! ## Runs of one spec -/

/-- Journal files that are the journals themselves. -/
def plainFile : JournalFile where
  Bytes := Journal
  size j := j.routes.length
  encode := id
  decode := some
  decode_encode _ := rfl

/-- The lower half of IPv4 through interface 999. -/
def lowerHalf : RouteSpec := ⟨.v4 (.slash 0 1), ⟨999, "test-tun", none⟩⟩

/-- The upper half. -/
def upperHalf : RouteSpec := ⟨.v4 (.slash 0x80000000 1), ⟨999, "test-tun", none⟩⟩

/-- The default route of a system. -/
def defaultRoute : Route := { dest := .v4 (.slash 0 0), ifIndex := some 2, table := 254 }

/-- Only the journal knows the first half, whose route could not be added. -/
def addFailed : Sys plainFile :=
  ⟨⟨[defaultRoute], some ⟨1, .linux, [lowerHalf]⟩, ⟨1, .linux, [lowerHalf]⟩⟩, true⟩

/-- The next call adds it, and the process stops before it adds the second half. -/
def addStopped : Sys plainFile :=
  ⟨⟨[defaultRoute, lowerHalf.route .linux], some ⟨1, .linux, [lowerHalf, upperHalf]⟩,
    ⟨1, .linux, [lowerHalf, upperHalf]⟩⟩, false⟩

/-- Neither half has a gateway. -/
theorem specified_halves {specs : List RouteSpec} (h : specs ⊆ [lowerHalf, upperHalf]) :
    ∀ spec ∈ specs, Specified spec := by
  intro spec hspec gateway hgateway
  have hhalf := h hspec
  simp only [mem_cons, not_mem_nil, or_false] at hhalf
  rcases hhalf with rfl | rfl <;> cases hgateway

/-- After a failed addition and a stop, a restore leaves the route that was there before. -/
theorem journal_write_ahead_addStopped :
    ∃ j t, openJournal .linux addStopped.store.disk = .ok j ∧
      restore .linux { addStopped.store with journal := j } [] = (.done (), t, []) ∧
      t.table = [defaultRoute] ∧ t.disk = none := by
  have hfirst : LoggedStep .linux (tunSystem plainFile .linux [defaultRoute]).init
      (.apply [lowerHalf] [.succeeds, .succeeds, .fails]) := by
    refine ⟨specified_halves (by simp), ?_⟩
    intro spec hspec
    cases hspec
  have hsecond : LoggedStep .linux addFailed (.apply [lowerHalf, upperHalf]
      [.succeeds, .succeeds, .succeeds, .stops]) := by
    refine ⟨specified_halves (fun _ h => h), ?_⟩
    intro spec hspec hnew
    cases mem_singleton.mp hspec
    exact ⟨lowerHalf, mem_cons_self, rfl⟩
  have hrun : (tunSystem plainFile .linux [defaultRoute]).Reaches (LoggedStep .linux)
      (tunSystem plainFile .linux [defaultRoute]).init addStopped :=
    .tail (.single ⟨_, hfirst, rfl⟩) ⟨_, hsecond, rfl⟩
  refine (journal_write_ahead plainFile .linux [defaultRoute] hrun).2 fun bytes hbytes => ?_
  cases hbytes
  decide

/-- A save that fails leaves the spec in memory; the next call adds its route without saving.
The file names nothing, and a restore by a new process leaves the route. -/
theorem failed_save_loses_route :
    ∃ s : Sys plainFile,
      (tunSystem plainFile .linux []).Reaches Lts.anyStep (tunSystem plainFile .linux []).init s ∧
      s.store.table = [lowerHalf.route .linux] ∧ onDisk s.store = [] ∧
      ∃ j t, openJournal .linux s.store.disk = .ok j ∧
        restore .linux { s.store with journal := j } [] = (.done (), t, []) ∧
        t.table = [lowerHalf.route .linux] := by
  refine ⟨_, Lts.run_reaches [.apply [lowerHalf] [.succeeds, .fails], .apply [lowerHalf] []] rfl,
    rfl, rfl, _, _, rfl, rfl, rfl⟩

end ClashMeta.Tun
