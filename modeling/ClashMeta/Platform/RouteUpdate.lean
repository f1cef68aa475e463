import ClashMeta.Platform.RouteRecovery

/-!
# What a successful route update leaves

`apply` first adds the desired routes that no present route matches, then removes the routes
of the specs in the journal that are not desired any more. It compares specs with the system's
routes in the first pass and with each other in the second, and the two comparisons differ: a
spec also has the name of its interface and the host bits of its network, an OS route has
neither.
-/

namespace ClashMeta.Tun

open List Prog

variable {F : JournalFile} {os : Platform}

/-- The OS route of a spec: network address, prefix length, interface index and gateway. -/
def RouteSpec.osRoute (spec : RouteSpec) : IpAddr × Nat × UInt32 × Option IpAddr :=
  (spec.network.networkAddr, spec.network.prefixLen, spec.interface.index, spec.interface.gateway)

section

variable {a b : RouteSpec} {r : Route}

theorem matches_iff : a.matches os r = true ↔
    (os.hasMetric = true → r.metric = some 7) ∧
      (r.dest.networkAddr, r.dest.prefixLen, r.ifIndex,
        r.gateway.filter fun ip => !ip.isUnspecified) =
      (a.network.networkAddr, a.network.prefixLen, some a.interface.index,
        a.interface.gateway) := by
  unfold RouteSpec.matches
  simp only [Bool.and_eq_true, Bool.or_eq_true, Bool.not_eq_true', beq_iff_eq, Prod.mk.injEq]
  constructor
  · rintro ⟨⟨⟨⟨hmetric, hnet⟩, hlen⟩, hindex⟩, hgateway⟩
    refine ⟨fun hhas => hmetric.resolve_left (by simp [hhas]), hnet.symm, hlen.symm, hindex,
      hgateway⟩
  · rintro ⟨hmetric, hnet, hlen, hindex, hgateway⟩
    refine ⟨⟨⟨⟨?_, hnet.symm⟩, hlen.symm⟩, hindex⟩, hgateway⟩
    cases hhas : os.hasMetric with
    | false => exact .inl rfl
    | true => exact .inr (hmetric hhas)

theorem matches_congr (h : a.osRoute = b.osRoute) : a.matches os r = b.matches os r := by
  simp only [RouteSpec.osRoute, Prod.mk.injEq] at h
  obtain ⟨hnet, hlen, hindex, hgateway⟩ := h
  rw [Bool.eq_iff_iff, matches_iff, matches_iff, hnet, hlen, hindex, hgateway]

theorem osRoute_eq_of_matches (ha : a.matches os r) (hb : b.matches os r) :
    a.osRoute = b.osRoute := by
  have heq := (matches_iff.mp ha).2.symm.trans (matches_iff.mp hb).2
  simp only [Prod.mk.injEq, Option.some.injEq] at heq
  simp only [RouteSpec.osRoute, Prod.mk.injEq]
  exact heq

theorem specified_of_matches (h : a.matches os r) : Specified a := by
  intro gateway hgateway
  have heq := (matches_iff.mp h).2
  simp only [Prod.mk.injEq] at heq
  have hfilter := heq.2.2.2
  rw [hgateway, Option.filter_eq_some_iff] at hfilter
  simpa using hfilter.2

end

/-! ## The passes -/

/-- The table and the journal in memory are these. -/
def At (table : List Route) (js : List RouteSpec) (s : Store F) : Prop :=
  s.table = table ∧ s.journal.routes = js

/-- The routes that no spec of the list matches. -/
def spared (os : Platform) (specs : List RouteSpec) (table : List Route) : List Route :=
  table.filter fun r => !specs.any (·.matches os r)

/-- The routes that the first pass adds: those of the specs that nothing present matches. -/
def additions (os : Platform) (present : List Route) (desired : List RouteSpec) : List Route :=
  (desired.filter fun spec => !present.any (spec.matches os)).map (·.route os)

variable {table present : List Route} {js : List RouteSpec} {spec : RouteSpec}

theorem mem_spared {specs : List RouteSpec} {r : Route} :
    r ∈ spared os specs table ↔ r ∈ table ∧ ∀ spec ∈ specs, spec.matches os r = false := by
  simp [spared]

theorem spared_congr {specs specs' : List RouteSpec} (h : ∀ x, x ∈ specs ↔ x ∈ specs') :
    spared os specs table = spared os specs' table := by
  refine filter_congr fun r _ => ?_
  have hany : specs.any (·.matches os r) = specs'.any (·.matches os r) := by
    rw [Bool.eq_iff_iff, any_eq_true, any_eq_true]
    exact ⟨fun ⟨x, hx, hm⟩ => ⟨x, (h x).mp hx, hm⟩, fun ⟨x, hx, hm⟩ => ⟨x, (h x).mpr hx, hm⟩⟩
  rw [hany]

theorem remove_exact (os : Platform) (spec : RouteSpec) :
    Triple (At (F := F) table js) (remove os spec)
      (fun _ => At (spared os [spec] table) js) fun _ => True := by
  -- deleting a route that the spec matches leaves what is spared
  refine ((remove_keeps (fun _ _ => trivial) fun r s hm hs => ⟨?_, hs.2⟩).post
    fun _ s hs => ⟨?_, hs.1.2⟩).pre fun s hs =>
      (⟨by rw [hs.1], hs.2⟩ : spared os [spec] s.table = spared os [spec] table ∧
        s.journal.routes = js)
  · rw [← hs.1]
    show (s.table.filter (· ≠ r)).filter _ = _
    rw [filter_filter]
    refine filter_congr fun x _ => ?_
    cases hx : spec.matches os x with
    | true => simp [hx]
    | false =>
      have hne : x ≠ r := by
        rintro rfl
        rw [hm] at hx
        cases hx
      simp [hx, hne]
  · rw [← hs.1.1]
    exact (filter_eq_self.mpr fun r hr => by simp [hs.2 r hr]).symm

theorem giveUp_exact (os : Platform) (spec : RouteSpec) :
    Triple (At (F := F) table js) (giveUp os spec)
      (fun _ => At (spared os [spec] table) (js.filter (· ≠ spec))) fun _ => True := by
  refine Triple.bind (remove_exact os spec) fun _ => ?_
  refine Triple.bind (Q := fun _ => At (spared os [spec] table) (js.filter (· ≠ spec)))
    (.modify fun s hs => ⟨hs.1, ?_⟩) fun _ => .op (fun s hs => hs) fun _ _ => trivial
  rw [hs.2]

theorem giveUps_exact (os : Platform) (specs : List RouteSpec) :
    Triple (At (F := F) table js) (forEach (giveUp os) specs)
      (fun _ => At (spared os specs table) (js.filter (· ∉ specs))) fun _ => True := by
  induction specs generalizing table js with
  | nil =>
    refine .pure fun s hs => ⟨hs.1.trans ?_, hs.2.trans ?_⟩
    · exact (filter_eq_self.mpr fun r _ => rfl).symm
    · exact (filter_eq_self.mpr fun r _ => by simp).symm
  | cons spec specs ih =>
    refine Triple.bind (giveUp_exact os spec) fun _ => ih.post fun _ s hs => ?_
    refine ⟨hs.1.trans ?_, hs.2.trans ?_⟩
    · simp only [spared, filter_filter]
      refine filter_congr fun r _ => ?_
      simp [Bool.and_comm]
    · exact filter_cons_notMem js spec specs

/-- The journal only takes up desired specs. -/
def Grows (js specs js' : List RouteSpec) : Prop :=
  (∀ x ∈ js, x ∈ js') ∧ ∀ x ∈ js', x ∈ js ∨ x ∈ specs

theorem addOne_exact (present : List Route) (spec : RouteSpec) :
    Triple (At (F := F) table js) (addOne os present spec)
      (fun _ s => s.table = table ++ additions os present [spec] ∧
        Grows js [spec] s.journal.routes) fun _ => True := by
  have hself : Grows js [spec] js := ⟨fun _ h => h, fun _ h => .inl h⟩
  unfold addOne
  by_cases hpresent : present.any (spec.matches os) = true
  · rw [if_pos hpresent]
    have hnone : additions os present [spec] = [] := by simp [additions, hpresent]
    refine .pure fun s hs => ⟨?_, hs.2 ▸ hself⟩
    rw [hnone, append_nil, hs.1]
  · rw [if_neg hpresent]
    have hone : additions os present [spec] = [spec.route os] := by simp [additions, hpresent]
    rw [hone]
    refine Triple.bind (Q := fun routes s => At table js s ∧ routes = js)
      (.get fun s hs => ⟨hs, hs.2⟩) fun routes => ?_
    -- adding the route comes last, whatever was written down before
    have hadd : ∀ js', Grows js [spec] js' → Triple (At (F := F) table js')
        (add spec.network (spec.route os)) (fun _ s => s.table = table ++ [spec.route os] ∧
          Grows js [spec] s.journal.routes) fun _ => True := by
      intro js' hgrows
      refine .op (fun s hs => ⟨?_, hs.2 ▸ hgrows⟩) fun _ _ => trivial
      rw [hs.1]
    split
    · exact (hadd js hself).pre fun s hs => hs.1
    · split
      · exact .fail fun _ _ => trivial
      · refine Triple.bind (Q := fun _ => At table (js ++ [spec]))
          (.modify fun s hs => ⟨hs.1.1, ?_⟩) fun _ => ?_
        · show s.journal.routes ++ _ = _
          rw [hs.1.2]
        · refine Triple.bind (Q := fun _ => At table (js ++ [spec]))
            (.op (fun s hs => hs) fun _ _ => trivial) fun _ => hadd _ ?_
          exact ⟨fun x hx => mem_append_left _ hx, fun x hx => mem_append.mp hx⟩

theorem adding_exact (present : List Route) (desired : List RouteSpec) :
    Triple (At (F := F) table js) (forEach (addOne os present) desired)
      (fun _ s => s.table = table ++ additions os present desired ∧
        Grows js desired s.journal.routes) fun _ => True := by
  induction desired generalizing table js with
  | nil =>
    refine .pure fun s hs => ⟨by rw [hs.1]; exact (append_nil _).symm, ?_⟩
    rw [hs.2]
    exact ⟨fun _ h => h, fun _ h => .inl h⟩
  | cons spec desired ih =>
    refine Triple.bind (addOne_exact present spec) fun _ => ?_
    intro s fates hs
    refine (ih s fates ⟨hs.1, rfl⟩).mono fun _ t ht => ⟨?_, ?_⟩
    · rw [ht.1, append_assoc]
      simp only [additions, ← map_append, ← filter_append, singleton_append]
    · refine ⟨fun x hx => ht.2.1 x (hs.2.1 x hx), fun x hx => ?_⟩
      rcases ht.2.2 x hx with hx | hx
      · refine (hs.2.2 x hx).imp_right fun hmem => ?_
        rw [mem_singleton.mp hmem]
        exact mem_cons_self
      · exact .inr (mem_cons_of_mem _ hx)

/-- **What a successful call leaves**: the routes from before and the additions, without those
that a spec of the old journal matches which is not desired; and a journal of desired specs. -/
theorem apply_exact (os : Platform) (desired : List RouteSpec) :
    Triple (At (F := F) table js) (apply os desired)
      (fun _ s => s.table = spared os (js.filter (· ∉ desired))
          (table ++ additions os table desired) ∧
        ∀ spec ∈ s.journal.routes, spec ∈ desired) fun _ => True := by
  refine Triple.bind (Q := fun present s => At table js s ∧ present = table)
    (.op (fun s hs => ⟨hs, hs.1⟩) fun _ _ => trivial) fun present => ?_
  by_cases hpresent : present = table
  · subst hpresent
    refine Triple.bind ((adding_exact present desired).pre fun s hs => hs.1) fun _ => ?_
    refine Triple.bind (Q := fun routes s => At (present ++ additions os present desired)
      routes s ∧ Grows js desired routes) (.get fun s hs => ⟨⟨hs.1, rfl⟩, hs.2⟩) fun routes => ?_
    intro s fates hs
    obtain ⟨hat, hgrows⟩ := hs
    refine (giveUps_exact os _ s fates hat).mono fun _ t ht => ⟨ht.1.trans ?_, fun x hx => ?_⟩
    · refine spared_congr fun x => ?_
      simp only [mem_filter, decide_eq_true_eq]
      exact ⟨fun h => ⟨(hgrows.2 x h.1).resolve_right h.2, h.2⟩, fun h => ⟨hgrows.1 x h.1, h.2⟩⟩
    · rw [ht.2, mem_filter, decide_eq_true_eq, mem_filter, decide_eq_true_eq] at hx
      by_contra hnot
      exact hx.2 ⟨hx.1, hnot⟩
  · exact fun s fates hs => absurd hs.2 hpresent

/-! ## Installing what was asked -/

/-- The call from `s` to `t` installed the desired routes: each is matched by a route, the
journal has no others, and no route that went away matches one. -/
structure Installed (os : Platform) (desired : List RouteSpec) (s t : Store F) : Prop where
  routes : ∀ spec ∈ desired, ∃ r ∈ t.table, spec.matches os r = true
  journal : ∀ spec ∈ t.journal.routes, spec ∈ desired
  removed : ∀ r ∈ s.table ++ additions os s.table desired, r ∉ t.table →
    ∀ spec ∈ desired, spec.matches os r = false

/-- No desired gateway is the unspecified address, and no spec of the journal that is not
desired makes the OS route of a desired one. -/
structure Compatible (journal desired : List RouteSpec) : Prop where
  specified : ∀ spec ∈ desired, Specified spec
  apart : ∀ old ∈ journal, old ∉ desired → ∀ spec ∈ desired, old.osRoute ≠ spec.osRoute

theorem matched_of_specified {desired : List RouteSpec} (hmem : spec ∈ desired)
    (hspec : Specified spec) :
    ∃ r ∈ table ++ additions os table desired, spec.matches os r = true := by
  cases hpresent : table.any (spec.matches os) with
  | true =>
    obtain ⟨r, hr, hm⟩ := any_eq_true.mp hpresent
    exact ⟨r, mem_append_left _ hr, hm⟩
  | false =>
    refine ⟨spec.route os, mem_append_right _ ?_, matches_route hspec⟩
    exact mem_map_of_mem (mem_filter.mpr ⟨hmem, by rw [hpresent]; rfl⟩)

/-- **A successful update installs what was asked exactly when** the journal and the desired
specs are compatible. -/
theorem apply_installs_iff {s t : Store F} {desired : List RouteSpec} {fates rest : List Fault}
    (hrun : apply os desired s fates = (.done (), t, rest)) :
    Installed os desired s t ↔ Compatible s.journal.routes desired := by
  have hend := apply_exact os desired s fates ⟨rfl, rfl⟩
  rw [hrun] at hend
  obtain ⟨htable, hjournal⟩ := hend
  have hmem : ∀ r, r ∈ t.table ↔ r ∈ s.table ++ additions os s.table desired ∧
      ∀ old ∈ s.journal.routes, old ∉ desired → old.matches os r = false := by
    intro r
    rw [htable, mem_spared]
    simp only [mem_filter, decide_eq_true_eq, and_imp]
  constructor
  · intro h
    refine ⟨fun spec hspec => ?_, fun old hold hnot spec hspec heq => ?_⟩
    · obtain ⟨r, -, hm⟩ := h.routes spec hspec
      exact specified_of_matches hm
    · -- the route that serves the desired spec would have been removed with the old one
      obtain ⟨r, hr, hm⟩ := h.routes spec hspec
      have hgone := ((hmem r).mp hr).2 old hold hnot
      rw [matches_congr heq, hm] at hgone
      cases hgone
  · intro h
    have hkeep : ∀ r ∈ s.table ++ additions os s.table desired, ∀ spec ∈ desired,
        spec.matches os r = true → r ∈ t.table := by
      intro r hr spec hspec hm
      refine (hmem r).mpr ⟨hr, fun old hold hnot => ?_⟩
      cases hold' : old.matches os r with
      | false => rfl
      | true => exact absurd (osRoute_eq_of_matches hold' hm) (h.apart old hold hnot spec hspec)
    refine ⟨fun spec hspec => ?_, hjournal, fun r hr hgone spec hspec => ?_⟩
    · obtain ⟨r, hr, hm⟩ := matched_of_specified hspec (h.specified spec hspec)
      exact ⟨r, hkeep r hr spec hspec hm, hm⟩
    · cases hm : spec.matches os r with
      | false => rfl
      | true => exact absurd (hkeep r hr spec hspec hm) hgone

/-- The lower half of IPv4 through interface 999 under a new name. -/
def renamedHalf : RouteSpec := ⟨.v4 (.slash 0 1), ⟨999, "renamed", none⟩⟩

/-- A system on which a spec is installed. -/
def owns (spec : RouteSpec) : Store plainFile :=
  ⟨[spec.route .linux], some ⟨1, .linux, [spec]⟩, ⟨1, .linux, [spec]⟩⟩

/-- A system on which `lowerHalf` is installed. -/
def ownedHalf : Store plainFile := owns lowerHalf

/-- The lower half gives way to the upper one. -/
theorem apply_installs_other :
    apply .linux [upperHalf] ownedHalf [] = (.done (), owns upperHalf, []) ∧
      Installed .linux [upperHalf] ownedHalf (owns upperHalf) := by
  have hcompatible : Compatible ownedHalf.journal.routes [upperHalf] := by
    refine ⟨specified_halves (by simp), fun old hold _ spec hspec => ?_⟩
    cases mem_singleton.mp hold
    cases mem_singleton.mp hspec
    decide
  have hrun : apply .linux [upperHalf] ownedHalf [] = (.done (), owns upperHalf, []) := rfl
  exact ⟨hrun, (apply_installs_iff hrun).mpr hcompatible⟩

/-- The interface gets another name: the desired spec finds its route present, then the old
spec takes the route away, and the call returns. -/
theorem renamed_interface_loses_route :
    ∃ t rest, apply .linux [renamedHalf] ownedHalf [] = (.done (), t, rest) ∧ t.table = [] ∧
      t.journal.routes = [] ∧ ¬ Installed .linux [renamedHalf] ownedHalf t := by
  refine ⟨_, _, rfl, rfl, rfl, fun h => ?_⟩
  obtain ⟨r, hr, -⟩ := h.routes renamedHalf mem_cons_self
  cases hr

end ClashMeta.Tun
