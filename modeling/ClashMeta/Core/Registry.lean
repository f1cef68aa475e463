import ClashMeta.Core.Traffic
import Mathlib.Algebra.BigOperators.Group.List.Basic

/-!
# The registry mirrors the live connections

What holds in every state that the core and its connections (`Traffic.system`) can reach.
-/

namespace ClashMeta.Traffic

open List

variable {ι : Type} {s t : Sys ι}

/-! ## Sums over the calls -/

/-- The bytes of the calls with a property. -/
def tally (p : Call → Bool) (calls : List Call) : Nat :=
  (calls.map fun c => if p c then c.n else 0).sum

/-- A new call adds its own bytes. -/
theorem tally_append (p : Call → Bool) (calls : List Call) (c : Call) :
    tally p (calls ++ [c]) = tally p calls + if p c then c.n else 0 := by
  simp [tally]

variable {p : Call → Bool} {calls : List Call}

/-- Calls without the property add nothing. -/
theorem tally_eq_zero (h : ∀ c ∈ calls, p c = false) : tally p calls = 0 := by
  refine sum_eq_zero fun n hn => ?_
  obtain ⟨c, hc, rfl⟩ := mem_map.mp hn
  rw [h c hc]
  rfl

/-- Two properties that agree on the calls have one sum. -/
theorem tally_congr {q : Call → Bool} (h : ∀ c ∈ calls, p c = q c) :
    tally p calls = tally q calls := by
  exact congrArg List.sum (map_congr_left fun c hc => by rw [h c hc])

variable {k : Nat} {α : Type}

/-- Changing one element changes the sum by what that element gains. -/
theorem sum_map_modify {M : Type} [AddCommMonoid M] {f : α → α} {g : α → M} {d : M} {a : α}
    {l : List α} (h : l[k]? = some a) (hg : g (f a) = g a + d) :
    ((l.modify k f).map g).sum = (l.map g).sum + d := by
  induction l generalizing k with
  | nil => cases h
  | cons b l ih =>
    cases k with
    | zero =>
      cases h
      rw [modify_zero_cons, map_cons, map_cons, sum_cons, sum_cons, hg, add_right_comm]
    | succ k =>
      rw [modify_succ_cons, map_cons, map_cons, sum_cons, sum_cons, ih h, add_assoc]

variable {c : Call}

/-- A call that moves on adds its bytes when it gets the property. -/
theorem tally_set {stage : Stage} (h : calls[k]? = some c)
    (hp : p c = true → p { c with stage := stage } = true) :
    tally p (calls.set k { c with stage := stage }) =
      tally p calls + if p { c with stage := stage } && !p c then c.n else 0 := by
  rw [set_eq_modify]
  refine sum_map_modify h ?_
  cases hc : p c with
  | false => simp
  | true => simp [hp hc]

section

variable [DecidableEq ι]

/-! ## What a step does -/

/-- The ids of the states and what they have counted. -/
def views (s : Sys ι) : List (ι × Counters) := s.states.map fun x => (x.id, x.counters)

/-- The cases of a step. -/
inductive Effect (s : Sys ι) : Action ι → Sys ι → Prop
  | quiet {a : Action ι} {t : Sys ι} (hregistry : t.registry = s.registry)
      (hlive : t.live = s.live) (hcalls : t.calls = s.calls) (htotals : t.totals = s.totals)
      (hviews : views t = views s) : Effect s a t
  | inserted {id : ι} (hroom : Table.size s.registry < maxConnections) :
      Effect s (.register id) (insert { s with creating := s.creating - 1 } id)
  | called {r n : Nat} {x : Transfer} {upload : Bool} (hr : r ∈ s.live) :
      Effect s (.transfer r x) { s with calls := s.calls ++ [⟨r, upload, n, .called⟩] }
  | accessed {k : Nat} {elapsed : UInt64} {c : Call} {t : Sys ι} (hc : s.calls[k]? = some c)
      (ht : access s k c elapsed = some t) : Effect s (.advance k elapsed) t
  | dropped {r : Nat} {exit : Exit} {x : ConnState ι} (hx : s.states[r]? = some x)
      (hr : r ∈ s.live) (hfree : unborrowed s r) : Effect s (.drop r exit)
        { s with registry := s.registry.erase x.id, live := s.live.erase r }

/-- A change of one element seen through a projection. -/
theorem map_modify {β : Type} {f : α → α} {g : α → β} {f' : β → β} (h : ∀ a, g (f a) = f' (g a))
    (l : List α) (k : Nat) : (l.modify k f).map g = (l.map g).modify k f' := by
  refine ext_getElem? fun j => ?_
  simp only [getElem?_map, getElem?_modify]
  cases l[j]? with
  | none => rfl
  | some a => by_cases hj : k = j <;> simp [hj, h]

/-- A change that the projection does not see. -/
theorem map_modify_of_eq {β : Type} {f : α → α} {g : α → β} (h : ∀ a, g (f a) = g a) (l : List α)
    (k : Nat) : (l.modify k f).map g = l.map g := by
  have hid : ∀ a, g (f a) = id (g a) := h
  rw [map_modify hid, modify_id]

/-- A cancellation is seen by no counter. -/
theorem effect_setCancelled (s : Sys ι) (a : Action ι) (r : Nat) :
    Effect s a (setCancelled s r) := by
  exact .quiet rfl rfl rfl rfl (map_modify_of_eq (by exact fun _ => rfl) s.states r)

variable {a : Action ι}

/-- The cases of a step. -/
theorem effect_of_step (h : step s a = some t) : Effect s a t := by
  unfold step at h
  cases a with
  | check clock =>
    dsimp only at h
    split at h <;> cases h <;> exact .quiet rfl rfl rfl rfl rfl
  | register id =>
    dsimp only at h
    split at h
    · cases h
    · split at h
      · cases h
        exact .quiet rfl rfl rfl rfl rfl
      · rename_i hroom
        cases h
        -- a creation that is not refused has found room
        rw [refused, ite_eq_left_iff] at hroom
        exact .inserted (not_not.mp fun hfull => by cases hroom hfull)
  | transfer r x =>
    dsimp only at h
    split at h
    · rename_i hr
      split at h
      · cases h
        exact .quiet rfl rfl rfl rfl rfl
      · rename_i upload n _
        cases h
        unfold record
        split
        · exact .quiet rfl rfl rfl rfl rfl
        · exact .called hr
    · cases h
  | advance k elapsed =>
    obtain ⟨c, hc, ht⟩ := Option.bind_eq_some_iff.mp h
    exact .accessed hc ht
  | drop r exit =>
    obtain ⟨x, hx, ht⟩ := Option.bind_eq_some_iff.mp h
    split at ht
    · rename_i hguard
      cases ht
      exact .dropped hx hguard.1 hguard.2.1
    · cases ht
  | close id =>
    dsimp only at h
    split at h <;> cases h
    · exact .quiet rfl rfl rfl rfl rfl
    · exact effect_setCancelled s _ _
  | cancel r =>
    cases h
    exact effect_setCancelled s _ r
  | stop =>
    cases h
    exact .quiet rfl rfl rfl rfl (map_map ..)

/-! ## The registry -/

/-- The registry holds the states of the live trackers. -/
structure Mirror (s : Sys ι) : Prop where
  entry : ∀ id r, s.registry.lookup id = some r ↔ r ∈ s.live ∧ (ids s)[r]? = some id
  registered : ∀ r ∈ s.live, r < s.states.length
  nodup : s.live.Nodup
  size : Table.size s.registry = s.live.length
  limit : Table.size s.registry ≤ maxConnections

omit [DecidableEq ι] in
/-- The views have the ids. -/
theorem ids_eq_of_views (h : views t = views s) : ids t = ids s := by
  have hids : ∀ u : Sys ι, ids u = (views u).map Prod.fst := fun u => by
    rw [views, map_map]
    rfl
  rw [hids, hids, h]

/-- The mirror depends on the registry, the live trackers and the ids only. -/
theorem Mirror.congr (h : Mirror s) (hregistry : t.registry = s.registry) (hlive : t.live = s.live)
    (hids : ids t = ids s) : Mirror t := by
  have hlength : t.states.length = s.states.length := by
    simpa [ids] using congrArg List.length hids
  constructor
  · rw [hregistry, hlive, hids]
    exact h.entry
  · rw [hlive, hlength]
    exact h.registered
  · exact hlive ▸ h.nodup
  · rw [hregistry, hlive]
    exact h.size
  · exact hregistry ▸ h.limit

variable {id : ι}

/-- An id that no live tracker has is not in the registry. -/
theorem Mirror.lookup_none (h : Mirror s) (hid : Distinct s (.register id)) :
    s.registry.lookup id = none := by
  rw [Option.eq_none_iff_forall_ne_some]
  intro r hr
  obtain ⟨hlive, hat⟩ := (h.entry id r).mp hr
  exact hid r hlive hat

theorem Mirror.notMem_live (h : Mirror s) : s.states.length ∉ s.live :=
  fun hmem => lt_irrefl _ (h.registered _ hmem)

/-- The entries after a creation. -/
theorem Mirror.entry_insert (h : Mirror s) (hnone : s.registry.lookup id = none) (j : ι) (r : Nat) :
    (s.registry.insert id s.states.length).lookup j = some r ↔
      r ∈ s.live ++ [s.states.length] ∧ (ids s ++ [id])[r]? = some j := by
  have hlength : (ids s).length = s.states.length := length_map _
  rw [Table.lookup_insert_if, mem_append, mem_singleton, getElem?_append, hlength]
  -- The new position is that of no live tracker, and the new id that of no entry.
  by_cases hr : r = s.states.length
  · subst hr
    have hold : s.registry.lookup j ≠ some s.states.length := fun hj =>
      h.notMem_live ((h.entry j _).mp hj).1
    by_cases hj : j = id
    · simp [hj]
    · simp [hj, hold, Ne.symm hj]
  · have hside : (r ∈ s.live ∨ r = s.states.length) ∧
        (if r < s.states.length then (ids s)[r]? else [id][r - s.states.length]?) = some j ↔
        s.registry.lookup j = some r := by
      rw [h.entry j r]
      constructor
      · rintro ⟨hlive | rfl, hat⟩
        · rw [if_pos (h.registered r hlive)] at hat
          exact ⟨hlive, hat⟩
        · exact absurd rfl hr
      · rintro ⟨hlive, hat⟩
        rw [if_pos (h.registered r hlive)]
        exact ⟨.inl hlive, hat⟩
    rw [hside]
    by_cases hj : j = id
    · rw [if_pos hj, hj, hnone]
      exact iff_of_false (fun he => hr (Option.some.inj he).symm) nofun
    · rw [if_neg hj]

/-- A creation enters its state on both sides. -/
theorem Mirror.insert (h : Mirror s) (hid : Distinct s (.register id))
    (hroom : Table.size s.registry < maxConnections) : Mirror (insert s id) := by
  have hnone := h.lookup_none hid
  have hsize := Table.size_insert_of_lookup_none hnone s.states.length
  constructor
  · intro j r
    have hids : ids (Traffic.insert s id) = ids s ++ [id] := map_append
    rw [hids]
    exact h.entry_insert hnone j r
  · intro r hr
    show r < (s.states ++ [newState id s.stopped]).length
    rw [length_append, length_singleton]
    rcases mem_append.mp (show r ∈ s.live ++ [s.states.length] from hr) with hlive | hlast
    · exact Nat.lt_succ_of_lt (h.registered r hlive)
    · rw [mem_singleton.mp hlast]
      exact lt_add_one _
  · show (s.live ++ [s.states.length]).Nodup
    rw [nodup_append]
    refine ⟨h.nodup, nodup_singleton _, ?_⟩
    rintro a ha b hb rfl
    exact h.notMem_live (mem_singleton.mp hb ▸ ha)
  · show Table.size (s.registry.insert id s.states.length) = (s.live ++ [s.states.length]).length
    rw [hsize, h.size, length_append, length_singleton]
  · show Table.size (s.registry.insert id s.states.length) ≤ maxConnections
    omega

/-- A drop takes its state out on both sides. -/
theorem Mirror.drop (h : Mirror s) {r : Nat} {x : ConnState ι} (hx : s.states[r]? = some x)
    (hr : r ∈ s.live) :
    Mirror { s with registry := s.registry.erase x.id, live := s.live.erase r } := by
  have hat : (ids s)[r]? = some x.id := by rw [ids, getElem?_map, hx]; rfl
  have hown : s.registry.lookup x.id = some r := (h.entry x.id r).mpr ⟨hr, hat⟩
  have hperm := (Table.perm_values_erase hown).length_eq
  have hsize : Table.size s.registry = Table.size (s.registry.erase x.id) + 1 := by
    simpa [Table.values, Table.size] using hperm
  constructor
  · intro j q
    rw [Table.lookup_erase_if, h.nodup.mem_erase_iff]
    -- the id of the state that goes is that of no other live one
    by_cases hj : j = x.id
    · subst hj
      rw [if_pos rfl]
      refine iff_of_false nofun ?_
      rintro ⟨⟨hne, hlive⟩, hq⟩
      have := (h.entry x.id q).mpr ⟨hlive, hq⟩
      rw [hown] at this
      exact hne (Option.some.inj this).symm
    · rw [if_neg hj, h.entry j q]
      constructor
      · rintro ⟨hlive, hq⟩
        refine ⟨⟨?_, hlive⟩, hq⟩
        rintro rfl
        exact hj (Option.some.inj (hq.symm.trans hat))
      · rintro ⟨⟨-, hlive⟩, hq⟩
        exact ⟨hlive, hq⟩
  · intro q hq
    exact h.registered q (mem_of_mem_erase hq)
  · exact h.nodup.erase r
  · show Table.size (s.registry.erase x.id) = (s.live.erase r).length
    rw [length_erase_of_mem hr, ← h.size]
    omega
  · show Table.size (s.registry.erase x.id) ≤ maxConnections
    have := h.limit
    omega

omit [DecidableEq ι] in
/-- An atomic access leaves the registry alone. -/
theorem access_frame {elapsed : UInt64} (h : access s k c elapsed = some t) :
    t.registry = s.registry ∧ t.live = s.live ∧ ids t = ids s := by
  unfold access at h
  split at h <;> cases h
  · exact ⟨rfl, rfl, map_modify_of_eq (by exact fun _ => rfl) s.states c.state⟩
  · exact ⟨rfl, rfl, rfl⟩
  · exact ⟨rfl, rfl, map_modify_of_eq (by exact fun _ => rfl) s.states c.state⟩

/-- A step keeps the registry and the live trackers together. -/
theorem mirror_step (h : Mirror s) (hok : Distinct s a) (hstep : step s a = some t) : Mirror t := by
  cases effect_of_step hstep with
  | quiet hregistry hlive _ _ hviews => exact h.congr hregistry hlive (ids_eq_of_views hviews)
  | inserted hroom =>
    have hless : Mirror { s with creating := s.creating - 1 } := h.congr rfl rfl rfl
    exact hless.insert hok hroom
  | called _ => exact h.congr rfl rfl rfl
  | accessed _ ht =>
    obtain ⟨hregistry, hlive, hids⟩ := access_frame ht
    exact h.congr hregistry hlive hids
  | dropped hx hr _ => exact h.drop hx hr

/-- At first there is nothing on either side. -/
theorem mirror_init : Mirror (init : Sys ι) where
  entry id r := by
    exact iff_of_false nofun (fun h => nomatch h.1)
  registered _ hr := nomatch hr
  nodup := nodup_nil
  size := rfl
  limit := Nat.zero_le _

end

/-! ## The books -/

/-- The bytes that the connections' own counters have, in one direction. -/
def isCounted (upload : Bool) (c : Call) : Bool := c.upload == upload && c.stage.isCounted

/-- The bytes that the counter of the core has, in one direction. -/
def isTotalled (upload : Bool) (c : Call) : Bool := c.upload == upload && c.stage.isTotalled

/-- Every counter has the bytes of the calls that have added to it. -/
structure Books (s : Sys ι) : Prop where
  borrowed : ∀ c ∈ s.calls, c.stage ≠ .returned → c.state ∈ s.live
  known : ∀ c ∈ s.calls, c.state < s.states.length
  own : ∀ up r v, (views s)[r]? = some v → v.2.get up =
    UInt64.ofNat (tally (fun c => c.state == r && isCounted up c) s.calls)
  sum : ∀ up, ((views s).map fun v => v.2.get up).sum =
    UInt64.ofNat (tally (isCounted up) s.calls)
  total : ∀ up, s.totals.get up = UInt64.ofNat (tally (isTotalled up) s.calls)

/-- At first nothing is counted. -/
theorem books_init : Books (init : Sys ι) where
  borrowed _ hc := nomatch hc
  known _ hc := nomatch hc
  own _ _ _ hv := by cases hv
  sum _ := rfl
  total up := Counters.get_zero up

theorem length_views (s : Sys ι) : (views s).length = s.states.length := length_map _

/-- The books hold on while no borrowed tracker goes. -/
theorem Books.congr (h : Books s) (hlive : ∀ r ∈ s.live, ¬ unborrowed s r → r ∈ t.live)
    (hcalls : t.calls = s.calls) (htotals : t.totals = s.totals) (hviews : views t = views s) :
    Books t := by
  constructor
  · rw [hcalls]
    exact fun c hc hstage => hlive _ (h.borrowed c hc hstage) fun hfree => hstage (hfree c hc rfl)
  · rw [hcalls, ← length_views, hviews, length_views]
    exact h.known
  · rw [hcalls, hviews]
    exact h.own
  · rw [hcalls, hviews]
    exact h.sum
  · rw [hcalls, htotals]
    exact h.total

/-- A new connection has counted nothing. -/
theorem Books.push {id : ι} (h : Books s) (hlive : ∀ r ∈ s.live, r ∈ t.live)
    (hcalls : t.calls = s.calls) (htotals : t.totals = s.totals)
    (hviews : views t = views s ++ [(id, .zero)]) : Books t := by
  have hlength : t.states.length = s.states.length + 1 := by
    rw [← length_views, hviews, length_append, length_views, length_singleton]
  constructor
  · rw [hcalls]
    exact fun c hc hstage => hlive _ (h.borrowed c hc hstage)
  · rw [hcalls, hlength]
    exact fun c hc => Nat.lt_succ_of_lt (h.known c hc)
  · intro up r v hv
    rw [hviews, getElem?_append, length_views] at hv
    rw [hcalls]
    split at hv
    · exact h.own up r v hv
    · rename_i hr
      rw [mem_singleton.mp (mem_of_getElem? hv), Counters.get_zero, tally_eq_zero]
      · rfl
      · intro c hc
        have hknown := h.known c hc
        rw [Bool.and_eq_false_iff, beq_eq_false_iff_ne]
        exact .inl (by omega)
  · intro up
    rw [hviews, hcalls, map_append, sum_append, h.sum up]
    simp
  · rw [hcalls, htotals]
    exact h.total

/-- A call that has just started has counted nothing. -/
theorem Books.call (h : Books s) (hmirror : ∀ r ∈ s.live, r < s.states.length) {r n : Nat}
    {upload : Bool} (hr : r ∈ s.live) :
    Books { s with calls := s.calls ++ [⟨r, upload, n, .called⟩] } := by
  have hmem : ∀ c ∈ s.calls ++ [⟨r, upload, n, .called⟩], c ∈ s.calls ∨ c.state = r := by
    intro c hc
    rcases mem_append.mp hc with hold | hnew
    · exact .inl hold
    · exact .inr (by rw [mem_singleton.mp hnew])
  have htally : ∀ p : Call → Bool, p ⟨r, upload, n, .called⟩ = false →
      tally p (s.calls ++ [⟨r, upload, n, .called⟩]) = tally p s.calls := by
    intro p hp
    rw [tally_append, hp]
    rfl
  -- the sums leave the new call out, since it has reached no counter
  constructor
  · intro c hc hstage
    rcases hmem c hc with hold | hnew
    · exact h.borrowed c hold hstage
    · rw [hnew]
      exact hr
  · intro c hc
    rcases hmem c hc with hold | hnew
    · exact h.known c hold
    · rw [hnew]
      exact hmirror r hr
  · intro up q v hv
    rw [htally _ (by simp [isCounted, Stage.isCounted])]
    exact h.own up q v hv
  · intro up
    rw [htally _ (by simp [isCounted, Stage.isCounted])]
    exact h.sum up
  · intro up
    rw [htally _ (by simp [isTotalled, Stage.isTotalled])]
    exact h.total up

section

variable {k : Nat} {c : Call}

/-- A call that moves on keeps its tracker. -/
theorem Books.moves (h : Books s) (hc : s.calls[k]? = some c) (hstage : c.stage ≠ .returned)
    (stage : Stage) : ∀ d ∈ s.calls.set k { c with stage := stage },
      d.state < s.states.length ∧ (d.stage ≠ .returned → d.state ∈ s.live) := by
  intro d hd
  have hmem := mem_of_getElem? hc
  rcases mem_or_eq_of_mem_set hd with hold | rfl
  · exact ⟨h.known d hold, h.borrowed d hold⟩
  · exact ⟨h.known c hmem, fun _ => h.borrowed c hmem hstage⟩

/-- A call moves on, and the counters take its bytes at the stage that says they have them. -/
theorem Books.advance (h : Books s) (hc : s.calls[k]? = some c) (hstage : c.stage ≠ .returned)
    {stage : Stage} (hcounted : c.stage.isCounted = true → stage.isCounted = true)
    (htotalled : c.stage.isTotalled = true → stage.isTotalled = true) {t : Sys ι}
    (hlive : t.live = s.live) (hcalls : t.calls = s.calls.set k { c with stage := stage })
    (hviews : views t = (views s).modify c.state fun v =>
      (v.1, if stage.isCounted && !c.stage.isCounted then v.2.fetchAdd c.upload c.n else v.2))
    (htotals : t.totals = if stage.isTotalled && !c.stage.isTotalled then
      s.totals.fetchAdd c.upload c.n else s.totals) : Books t := by
  have hmoves := h.moves hc hstage stage
  have hlength : t.states.length = s.states.length := by
    rw [← length_views, hviews, length_modify, length_views]
  -- what the bytes are to a counter of either kind
  have hgain : ∀ (b up : Bool) (x : Counters), (if b then x.fetchAdd c.upload c.n else x).get up =
      x.get up + UInt64.ofNat (if c.upload == up && b then c.n else 0) := by
    intro b up x
    cases b with
    | false => simp
    | true => by_cases hup : c.upload = up <;> simp [Counters.get_fetchAdd, hup]
  constructor
  · rw [hcalls, hlive]
    exact fun d hd => (hmoves d hd).2
  · rw [hcalls, hlength]
    exact fun d hd => (hmoves d hd).1
  · intro up r v hv
    rw [hviews, getElem?_modify] at hv
    obtain ⟨w, hw, hv⟩ := Option.map_eq_some_iff.mp hv
    rw [hcalls, tally_set hc (by simp +contextual [isCounted, hcounted]), UInt64.ofNat_add,
      ← h.own up r w hw, ← hv]
    by_cases hr : c.state = r
    · rw [if_pos hr, hgain]
      cases hup : c.upload == up <;> simp [isCounted, hr, hup]
    · rw [if_neg hr]
      simp [hr]
  · intro up
    rw [hviews, hcalls, tally_set hc (by simp +contextual [isCounted, hcounted]),
      UInt64.ofNat_add, ← h.sum up]
    have hlt : c.state < (views s).length := by
      rw [length_views]
      exact h.known c (mem_of_getElem? hc)
    refine sum_map_modify (getElem?_eq_getElem hlt) ?_
    rw [hgain]
    cases hup : c.upload == up <;> simp [isCounted, hup]
  · intro up
    rw [hcalls, htotals, tally_set hc (by simp +contextual [isTotalled, htotalled]),
      UInt64.ofNat_add, ← h.total up, hgain]
    cases hup : c.upload == up <;> simp [isTotalled, hup]

end

/-- Once every call has returned, the books show all that was recorded. -/
theorem Books.settled (h : Books s) (hall : ∀ c ∈ s.calls, c.stage = .returned) (up : Bool) :
    s.totals.get up = UInt64.ofNat (tally (fun c => c.upload == up) s.calls) ∧
      (s.states.map fun x => x.counters.get up).sum = s.totals.get up := by
  have htotal : tally (isTotalled up) s.calls = tally (fun c => c.upload == up) s.calls :=
    tally_congr fun c hc => by simp [isTotalled, hall c hc, Stage.isTotalled]
  have hcount : tally (isCounted up) s.calls = tally (fun c => c.upload == up) s.calls :=
    tally_congr fun c hc => by simp [isCounted, hall c hc, Stage.isCounted]
  have hsum := h.sum up
  rw [views, map_map, hcount] at hsum
  refine ⟨(h.total up).trans (by rw [htotal]), ?_⟩
  rw [h.total up, htotal]
  exact hsum

variable [DecidableEq ι]

/-- A step keeps the registry and the books. -/
theorem inv_step {a : Action ι} (h : Mirror s ∧ Books s) (hok : Distinct s a)
    (hstep : step s a = some t) : Mirror t ∧ Books t := by
  obtain ⟨hmirror, hbooks⟩ := h
  refine ⟨mirror_step hmirror hok hstep, ?_⟩
  cases effect_of_step hstep with
  | quiet hregistry hlive hcalls htotals hviews =>
    exact hbooks.congr (fun r hr _ => hlive ▸ hr) hcalls htotals hviews
  | @inserted id hroom =>
    have hviews : views (insert { s with creating := s.creating - 1 } id) =
        views s ++ [(id, .zero)] := map_append
    exact hbooks.push (fun r hr => mem_append_left _ hr) rfl rfl hviews
  | called hr => exact hbooks.call hmirror.registered hr
  | accessed hc ht =>
    unfold access at ht
    split at ht <;> rename_i hstage <;> cases ht <;>
      refine hbooks.advance hc (by rw [hstage]; exact nofun) (fun _ => rfl) ?_ rfl rfl ?_ ?_
    all_goals rw [hstage]
    · exact nofun
    · exact map_modify (by exact fun _ => rfl) _ _
    · rfl
    · exact fun _ => rfl
    · exact (modify_id _ _).symm
    · rfl
    · exact fun _ => rfl
    · exact map_modify (by exact fun _ => rfl) _ _
    · rfl
  | @dropped r exit x hx hr hfree =>
    -- A tracker that some call still borrows is not the one that goes.
    refine hbooks.congr (fun q hq hborrowed => ?_) rfl rfl rfl
    refine (hmirror.nodup.mem_erase_iff).mpr ⟨?_, hq⟩
    rintro rfl
    exact hborrowed hfree

/-- In every state of every run the registry holds the states of the live trackers and nothing
else, at most 4096 of them, and a creation that is refused leaves it as it is. The counters of
the core and of each connection, live or finished, have the bytes of the calls of `record` that
have added to them, modulo 2⁶⁴; with no call under way these are all that were ever recorded. -/
theorem registry_mirrors {s : Sys ι} (h : (system ι).Reaches Distinct init s) :
    (∀ id r, s.registry.lookup id = some r ↔
      r ∈ s.live ∧ ∃ x, s.states[r]? = some x ∧ x.id = id) ∧
    s.live.Nodup ∧ Table.size s.registry = s.live.length ∧ Table.size s.registry ≤ 4096 ∧
    (∀ a e t, refused s a = some e → step s a = some t →
      t.registry = s.registry ∧ t.live = s.live) ∧
    ∀ up, s.totals.get up = UInt64.ofNat (tally (isTotalled up) s.calls) ∧
      (∀ r x, s.states[r]? = some x → x.counters.get up =
        UInt64.ofNat (tally (fun c => c.state == r && isCounted up c) s.calls)) ∧
      ((∀ c ∈ s.calls, c.stage = .returned) →
        s.totals.get up = UInt64.ofNat (tally (fun c => c.upload == up) s.calls) ∧
        (s.states.map fun x => x.counters.get up).sum = s.totals.get up) := by
  obtain ⟨hmirror, hbooks⟩ : Mirror s ∧ Books s :=
    h.invariant ⟨mirror_init, books_init⟩ fun hI hok hs => inv_step hI hok hs
  refine ⟨fun id r => ?_, hmirror.nodup, hmirror.size, hmirror.limit, ?_, fun up => ?_⟩
  · rw [hmirror.entry id r, ids, List.getElem?_map, Option.map_eq_some_iff]
  · intro a e t hrefused hstep
    cases a with
    | check clock =>
      rw [step, hrefused] at hstep
      cases hstep
      exact ⟨rfl, rfl⟩
    | register id =>
      rw [step, hrefused] at hstep
      split at hstep
      · cases hstep
      · cases hstep
        exact ⟨rfl, rfl⟩
    | transfer | advance | drop | close | cancel | stop => cases hrefused
  · refine ⟨hbooks.total up, fun r x hx => ?_, fun hall => hbooks.settled hall up⟩
    refine hbooks.own up r (x.id, x.counters) ?_
    rw [views, List.getElem?_map, hx]
    rfl

/-- Two connections, one of them finished after five bytes. -/
theorem registry_mirrors_sample : ∃ s : Sys Nat, (system Nat).Reaches Distinct init s ∧
    s.live = [1] ∧ s.registry.lookup 8 = some 1 ∧ s.totals.get true = 5 := by
  obtain ⟨s, hs, hlast⟩ := (Lts.run_any (fun s : Sys Nat => decide (s.live = [1] ∧
      ids s = [7, 8] ∧ tally (isTotalled true) s.calls = 5))
    [.check (some 0), .register 7, .transfer 0 (.write (.ready 5)), .check (some 0), .register 8,
      .advance 0 0, .advance 0 0, .advance 0 3, .drop 0 .completed] (by decide) :
    ∃ s, (system Nat).Reaches Distinct init s ∧ _)
  obtain ⟨hlive, hids, htally⟩ := of_decide_eq_true hlast
  obtain ⟨hentry, -, -, -, -, hbooks⟩ := registry_mirrors hs
  have htotal := (hbooks true).1
  rw [htally] at htotal
  refine ⟨s, hs, hlive, (hentry 8 1).mpr ⟨by rw [hlive]; exact mem_singleton_self 1, ?_⟩,
    htotal⟩
  rw [← Option.map_eq_some_iff, ← List.getElem?_map]
  show (ids s)[1]? = some 8
  rw [hids]
  rfl

end ClashMeta.Traffic
