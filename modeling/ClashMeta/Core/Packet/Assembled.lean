import ClashMeta.Core.Packet.Reordering
import ClashMeta.Lib.Lts

/-!
# What comes out of reassembly

`Reassembly::accept` of core/src/packet_ipv6.rs, fed with any byte strings at times that do not
go back.

Beside the table a feed keeps a ledger: for each key the fragments that have come since the
entry of the key was created. It only watches the calls and has no part in them. As long as an
entry is not given up, all that came has been accepted.
-/

namespace ClashMeta.Ipv6

open List Reassembly Assembly AList

/-! ## Feeds -/

/-- The table, the time of the last call, and the ledger. -/
structure Feed where
  queue : Reassembly
  now : Nat
  came : Key → List Fragment

namespace Feed

/-- The fragments that have come for a key since the entry it has at a time was created. -/
def since (s : Feed) (k : Key) (now : Nat) : List Fragment :=
  if ((s.queue.expire now).pending.lookup k).isSome then s.came k else []

/-- The ledger after a call. -/
def note (s : Feed) (now : Nat) : Parsed → Key → List Fragment
  | .fragment f =>
    if f.Atomic then s.came else Function.update s.came f.key (s.since f.key now ++ [f])
  | _ => s.came

/-- One call. -/
def step (s : Feed) (a : List Byte × Nat) : Option Feed :=
  match s.queue.accept a.1 a.2, parse a.1 with
  | .ok (_, q), .ok p => some ⟨q, a.2, s.note a.2 p⟩
  | _, _ => none

/-- All feeds, from the empty table. -/
def system : Lts Feed (List Byte × Nat) where
  init := ⟨.empty, 0, fun _ => []⟩
  step := step

/-- Times do not go back. -/
def InOrder (s : Feed) (a : List Byte × Nat) : Prop := s.now ≤ a.2

end Feed

/-! ## What a call does -/

namespace Reassembly

variable {q : Reassembly} {f : Fragment} {now : Nat}

/-- The entry a fragment joins: the one of its key, or a new one. -/
inductive Joins (q : Reassembly) (f : Fragment) (now : Nat) : Assembly → Prop where
  | old {v : Assembly} (h : (q.expire now).pending.lookup f.key = some v) : Joins q f now v
  | new (h : (q.expire now).pending.lookup f.key = none)
    (hroom : Table.size (q.expire now).pending < maxPackets) : Joins q f now (.fresh f now)

/-- What a fragment does to the table. -/
inductive Collected (q : Reassembly) (f : Fragment) (now : Nat) :
    Option (List Byte) × Reassembly → Prop where
  | full (h : (q.expire now).pending.lookup f.key = none) : Collected q f now (none, q.expire now)
  | joined {v : Assembly} {j : Assembly.Joined} (h : Joins q f now v) (hjoin : v.join f = .ok j) :
    Collected q f now ((q.expire now).settle f.key j)

/-- **A fragment goes through the table without a panic** when it does so through the entry it
joins. -/
theorem collect_outcome (hjoin : ∀ v, Joins q f now v → ∃ j, v.join f = .ok j) :
    ∃ r, q.collect f now = .ok r ∧ Collected q f now r := by
  cases hlookup : (q.expire now).pending.lookup f.key with
  | some v =>
    obtain ⟨j, hj⟩ := hjoin v (.old hlookup)
    exact ⟨_, collect_of_entry (entry_of_lookup hlookup) hj, .joined (.old hlookup) hj⟩
  | none =>
    by_cases hroom : maxPackets ≤ Table.size (q.expire now).pending ∨ maxPacket ≤ f.head.length
    · refine ⟨_, ?_, .full hlookup⟩
      unfold collect entry
      rw [hlookup]
      rw [if_pos hroom]
      rfl
    · obtain ⟨hsize, hhead⟩ := not_or.mp hroom
      have hnew := Joins.new hlookup (not_le.mp hsize)
      obtain ⟨j, hj⟩ := hjoin _ hnew
      exact ⟨_, collect_of_entry (entry_of_room hlookup (not_le.mp hsize) (not_le.mp hhead)) hj,
        .joined hnew hj⟩

/-- Other keys keep their entries. -/
theorem lookup_settle_of_ne {k j : Key} (h : j ≠ k) (joined : Joined) :
    (q.settle k joined).2.pending.lookup j = q.pending.lookup j := by
  cases joined with
  | waits v => exact lookup_insert_ne h
  | done packet => exact lookup_erase_ne h

/-- A fragment never makes the table too large. -/
theorem size_settle_le {v : Assembly} (h : Joins q f now v)
    (hq : Table.size q.pending ≤ maxPackets) (joined : Joined) :
    Table.size ((q.expire now).settle f.key joined).2.pending ≤ maxPackets := by
  have hexpire : Table.size (q.expire now).pending ≤ Table.size q.pending := size_expire_le
  cases joined with
  | waits w =>
    show Table.size ((q.expire now).pending.insert f.key w) ≤ maxPackets
    cases h with
    | old hlookup =>
      rw [Table.size_insert_of_lookup_some hlookup]
      omega
    | new hlookup hroom =>
      rw [Table.size_insert_of_lookup_none hlookup]
      omega
  | done packet => exact (Table.size_erase_le _ _).trans (hexpire.trans hq)

end Reassembly

/-! ## The invariant -/

/-- An entry against its ledger: it was given up, or holds these fragments of its key. -/
def Accounts (k : Key) (v : Assembly) (l : List Fragment) : Prop :=
  v.rejected = true ∨ (v.rejected = false ∧ v.Holds l ∧ ∀ g ∈ l, g.key = k)

/-- A packet made of the fragments of a ledger. -/
structure MadeOf (k : Key) (l : List Fragment) (packet : List Byte) : Prop where
  keys : ∀ g ∈ l, g.key = k
  disjoint : l.Pairwise Disjoint
  whole : Assembly.Whole l packet

/-- What a fragment makes of an entry and its ledger. -/
def Follows (k : Key) (l : List Fragment) : Assembly.Joined → Prop
  | .waits w => Accounts k w l
  | .done packet => MadeOf k l packet

variable {v : Assembly} {f : Fragment} {l : List Fragment}

/-- Joining a fragment keeps the account, or completes the packet. -/
theorem Accounts.join (h : Accounts f.key v l) :
    ∃ j, v.join f = .ok j ∧ Follows f.key (l ++ [f]) j := by
  rcases h with hrejected | ⟨hopen, hholds, hkeys⟩
  · exact ⟨_, join_rejected hrejected f, .inl hrejected⟩
  · have hkeys' : ∀ g ∈ l ++ [f], g.key = f.key :=
      forall_mem_append.mpr ⟨hkeys, forall_mem_singleton.mpr rfl⟩
    obtain ⟨j, hj, houtcome⟩ := hholds.join_outcome hopen f
    refine ⟨j, hj, ?_⟩
    cases houtcome with
    | given => exact .inl rfl
    | kept _ hstored => exact .inr ⟨hopen, hstored, hkeys'⟩
    | done _ hdisjoint hwhole => exact ⟨hkeys', hdisjoint, hwhole⟩

namespace Feed

variable {s : Feed} {f : Fragment} {now : Nat}

/-- The table is small, and every entry goes with its ledger. -/
structure Inv (s : Feed) : Prop where
  bounded : Table.size s.queue.pending ≤ maxPackets
  entries : ∀ k v, s.queue.pending.lookup k = some v → Accounts k v (s.came k)

theorem inv_init : Inv system.init :=
  ⟨Nat.zero_le _, nofun⟩

/-- The entry a fragment joins goes with the fragments that have come. -/
theorem Inv.joins (h : Inv s) (hfits : f.Fits) {v : Assembly}
    (hv : Joins s.queue f now v) : Accounts f.key v (s.since f.key now) := by
  unfold since
  cases hv with
  | old hlookup =>
    rw [hlookup]
    exact h.entries _ _ (lookup_expire_iff.mp hlookup).1
  | new hlookup =>
    rw [hlookup]
    exact .inr ⟨rfl, holds_fresh hfits now, nofun⟩

/-- A fragment goes through the table of a feed. -/
theorem Inv.collect (h : Inv s) (hfits : f.Fits) (now : Nat) :
    ∃ r, s.queue.collect f now = .ok r ∧ Collected s.queue f now r :=
  collect_outcome fun _ hv =>
    let ⟨j, hj, _⟩ := (h.joins hfits hv).join
    ⟨j, hj⟩

/-- **No panic**: every byte string is taken at any time. -/
theorem Inv.accept (h : Inv s) (bytes : List Byte) (now : Nat) :
    ∃ r, s.queue.accept bytes now = .ok r := by
  obtain ⟨p, hparse, hfits⟩ := parse_ok bytes
  cases p with
  | ignored | whole cut =>
    unfold Reassembly.accept
    rw [hparse]
    exact ⟨_, rfl⟩
  | fragment f =>
    by_cases hatomic : f.Atomic
    · have hf := hfits f rfl
      unfold Reassembly.accept
      rw [hparse]
      show ∃ r, (if f.Atomic then _ else _) = Except.ok r
      rw [if_pos hatomic, finish_of _ hf.forty_le hf.previous_lt]
      exact ⟨_, rfl⟩
    · rw [accept_of_fragment hparse hatomic]
      obtain ⟨r, hr, -⟩ := h.collect (hfits f rfl) now
      exact ⟨r, hr⟩

theorem fits_of_parse {bytes : List Byte} (h : parse bytes = .ok (.fragment f)) : f.Fits := by
  obtain ⟨p, hp, hfits⟩ := parse_ok bytes
  rw [h] at hp
  cases hp
  exact hfits f rfl

/-- What one call does: nothing to the table, or what a fragment does to it. -/
inductive Effect (s : Feed) (a : List Byte × Nat) : Feed → Prop where
  | quiet : Effect s a ⟨s.queue, a.2, s.came⟩
  | collected {f : Fragment} {out : Option (List Byte)} {q : Reassembly}
    (hparse : parse a.1 = .ok (.fragment f)) (hmany : ¬f.Atomic)
    (hcollect : s.queue.collect f a.2 = .ok (out, q)) :
    Effect s a ⟨q, a.2, Function.update s.came f.key (s.since f.key a.2 ++ [f])⟩

variable {t : Feed} {a : List Byte × Nat}

/-- Every call does one of these. -/
theorem step_effect (h : step s a = some t) : Effect s a t := by
  unfold step at h
  split at h
  case h_2 => cases h
  case h_1 out q p haccept hparse =>
    cases h
    unfold Reassembly.accept at haccept
    rw [hparse] at haccept
    cases p with
    | ignored | whole cut =>
      cases haccept
      exact .quiet
    | fragment f =>
      replace haccept : (if f.Atomic then _ else s.queue.collect f a.2) = .ok (out, q) := haccept
      unfold note
      by_cases hatomic : f.Atomic
      · rw [if_pos hatomic] at haccept
        obtain ⟨packet, -, hq⟩ := Except.bind_eq_ok_iff.mp haccept
        cases hq
        dsimp only
        rw [if_pos hatomic]
        exact .quiet
      · rw [if_neg hatomic] at haccept
        dsimp only
        rw [if_neg hatomic]
        exact .collected hparse hatomic haccept

/-- What a fragment has done to the table, with the account of its entry. -/
theorem Inv.collected (h : Inv s) (hfits : f.Fits) {r : Option (List Byte) × Reassembly}
    (hr : s.queue.collect f now = .ok r) :
    (r = (none, s.queue.expire now) ∧ (s.queue.expire now).pending.lookup f.key = none) ∨
      ∃ v j, Joins s.queue f now v ∧ v.join f = .ok j ∧
        r = (s.queue.expire now).settle f.key j ∧ Follows f.key (s.since f.key now ++ [f]) j := by
  obtain ⟨r', hr', hcollected⟩ := h.collect hfits now
  rw [hr] at hr'
  cases hr'
  cases hcollected with
  | full hnone => exact .inl ⟨rfl, hnone⟩
  | joined hjoins hjoin =>
    obtain ⟨j', hj', hfollows⟩ := (h.joins hfits hjoins).join
    rw [hjoin] at hj'
    cases hj'
    exact .inr ⟨_, _, hjoins, hjoin, rfl, hfollows⟩

/-- **One call keeps the invariant.** -/
theorem Inv.step (h : Inv s) (hstep : step s a = some t) : Inv t := by
  cases step_effect hstep with
  | quiet => exact ⟨h.bounded, h.entries⟩
  | @collected f out q hparse hmany hcollect =>
    have hfits := fits_of_parse hparse
    -- entries of other keys were there before, under the same ledger
    have hothers : ∀ k v, k ≠ f.key → (s.queue.expire a.2).pending.lookup k = some v →
        ∀ l, Accounts k v (Function.update s.came f.key l k) := by
      intro k v hk hv l
      rw [Function.update_of_ne hk]
      exact h.entries k v (lookup_expire_iff.mp hv).1
    rcases h.collected hfits hcollect with ⟨hr, hnone⟩ | ⟨v, j, hjoins, -, hr, hfollows⟩
    · cases hr
      refine ⟨size_expire_le.trans h.bounded, fun k v hv => ?_⟩
      refine hothers k v (fun hk => ?_) hv _
      rw [hk, hnone] at hv
      cases hv
    · obtain ⟨rfl, rfl⟩ := Prod.mk.inj hr
      refine ⟨size_settle_le hjoins h.bounded j, fun k w hw => ?_⟩
      by_cases hk : k = f.key
      · subst hk
        cases j with
        | waits w' =>
          have hlookup : ((s.queue.expire a.2).pending.insert f.key w').lookup f.key = some w' :=
            lookup_insert _
          obtain rfl : w' = w := Option.some.inj (hlookup.symm.trans hw)
          dsimp only
          rw [Function.update_self]
          exact hfollows
        | done packet =>
          have hlookup : ((s.queue.expire a.2).pending.erase f.key).lookup f.key = none :=
            lookup_erase _ _
          exact absurd (hlookup.symm.trans hw) (by simp)
      · replace hw := (lookup_settle_of_ne hk j).symm.trans hw
        exact hothers k w hk hw _

/-- The invariant holds along every feed. -/
theorem reaches_inv {ok : Feed → List Byte × Nat → Prop} {s : Feed}
    (h : system.Reaches ok system.init s) : Inv s :=
  h.invariant inv_init fun hs _ hstep => hs.step hstep

end Feed

/-! ## Conflicts -/

/-- A fragment overlaps an earlier one, or contradicts its next header, the length of its head
or the total length. -/
def Conflicts (g f : Fragment) : Prop :=
  ¬Disjoint g f ∨ g.next ≠ f.next ∨ g.head.length ≠ f.head.length ∨
    (g.more = false ∧ Assembly.Overruns f g.stop) ∨ (f.more = false ∧ f.stop < g.stop)

/-- A fragment that conflicts with one that is held is invalid. -/
theorem Assembly.Holds.invalid_of_conflicts {g : Fragment} (h : v.Holds l) (hg : g ∈ l)
    (hconflict : Conflicts g f) : v.Invalid f := by
  by_contra hvalid
  have hgoes := goes_of_not_invalid hvalid
  obtain ⟨hhead, -, hnext⟩ := h.agrees g hg
  obtain ⟨hhead', -, hnext'⟩ := hgoes.agrees
  rcases hconflict with hoverlap | hother | hlength | ⟨hlast, hover⟩ | ⟨hlast, hbeyond⟩
  · exact hoverlap (h.disjoint_of_goes hgoes hg)
  · exact hother (hnext.trans hnext'.symm)
  · exact hlength (hhead.trans hhead'.symm)
  · exact hgoes.total _ ((h.total _).mpr ⟨g, hg, hlast, rfl⟩) hover
  · -- the last byte of the earlier one would lie behind the end
    have hne := h.nonempty g hg
    have hend := hgoes.last hlast (g.stop - 1)
      ((h.received _).mpr ⟨g, hg, by omega, by omega⟩)
    omega

namespace Feed

variable {s : Feed} {k : Key} {t₀ : Nat}

/-- The packet of a key was given up, and the entry that says so was created at a time. -/
def GivenUp (s : Feed) (k : Key) (t₀ : Nat) : Prop :=
  ∃ v, s.queue.pending.lookup k = some v ∧ v.rejected = true ∧ v.created = t₀

variable {t : Feed} {f : Fragment} {a : List Byte × Nat}

/-- After a conflict the packet is given up. -/
theorem Inv.givenUp (h : Inv s) {g : Fragment} {v : Assembly} (hstep : Feed.step s a = some t)
    (hparse : parse a.1 = .ok (.fragment f)) (hmany : ¬f.Atomic)
    (hlookup : (s.queue.expire a.2).pending.lookup f.key = some v) (hg : g ∈ s.since f.key a.2)
    (hconflict : Conflicts g f) : t.GivenUp f.key v.created := by
  have hjoin : ∃ w, v.join f = .ok (.waits w) ∧ w.rejected = true ∧ w.created = v.created := by
    have hsince : s.since f.key a.2 = s.came f.key := by
      unfold since
      rw [hlookup]
      rfl
    rw [hsince] at hg
    rcases h.entries _ _ (lookup_expire_iff.mp hlookup).1 with hrejected | ⟨hopen, hl, -⟩
    · exact ⟨v, join_rejected hrejected f, hrejected, rfl⟩
    · refine ⟨v.reject, ?_, rfl, rfl⟩
      unfold Assembly.join
      rw [hopen, if_neg nofun, if_pos (hl.invalid_of_conflicts hg hconflict)]
  obtain ⟨w, hjoin, hrejected, hcreated⟩ := hjoin
  have hcollect := collect_of_entry (entry_of_lookup hlookup) hjoin
  unfold Feed.step at hstep
  rw [accept_of_fragment hparse hmany, hcollect, hparse] at hstep
  cases hstep
  exact ⟨w, lookup_insert _, hrejected, hcreated⟩

/-- While its entry lives, nothing is returned for a packet that was given up, and the entry
stays. -/
theorem GivenUp.collect {now : Nat} (h : s.GivenUp k t₀) (hnow : now < t₀ + lifetime)
    (hkey : f.key = k) :
    ∃ q, s.queue.collect f now = .ok (none, q) ∧
      ∃ v, q.pending.lookup k = some v ∧ v.rejected = true ∧ v.created = t₀ := by
  obtain ⟨v, hlookup, hrejected, hcreated⟩ := h
  subst hkey
  have hyoung := young_of_lt hcreated hnow
  have hentry : (s.queue.expire now).entry f now = .ok (some v) :=
    entry_of_lookup (lookup_expire_iff.mpr ⟨hlookup, hyoung⟩)
  exact ⟨_, collect_of_entry hentry (join_rejected hrejected f), v,
    lookup_insert _, hrejected, hcreated⟩

/-- One call leaves a young entry that was given up. -/
theorem GivenUp.step (h : s.GivenUp k t₀) (hinv : Inv s) (hnow : a.2 < t₀ + lifetime)
    (hstep : Feed.step s a = some t) : t.GivenUp k t₀ := by
  cases step_effect hstep with
  | quiet => exact h
  | @collected f out q hparse hmany hcollect =>
    by_cases hkey : f.key = k
    · obtain ⟨q', hcollect', hgiven⟩ := h.collect hnow hkey
      rw [hcollect] at hcollect'
      cases hcollect'
      exact hgiven
    · -- a fragment of another key leaves the entry where it is
      obtain ⟨v, hlookup, hrejected, hcreated⟩ := h
      have hyoung := young_of_lt hcreated hnow
      have hexpire := lookup_expire_iff.mpr ⟨hlookup, hyoung⟩
      refine ⟨v, ?_, hrejected, hcreated⟩
      rcases hinv.collected (fits_of_parse hparse) hcollect with ⟨hr, -⟩ | ⟨w, j, -, -, hr, -⟩
      · cases hr
        exact hexpire
      · obtain ⟨-, rfl⟩ := Prod.mk.inj hr
        exact (lookup_settle_of_ne (Ne.symm hkey) j).trans hexpire

/-- So do all calls, until the entry is thirty seconds old. -/
theorem GivenUp.reaches {u : Feed} (h : t.GivenUp k t₀) (hinv : Inv t)
    (hu : system.Reaches InOrder t u) (hnow : u.now < t₀ + lifetime) : u.GivenUp k t₀ := by
  have hboth : Inv u ∧ (u.now < t₀ + lifetime → u.GivenUp k t₀) := by
    refine hu.invariant (I := fun u => Inv u ∧ (u.now < t₀ + lifetime → u.GivenUp k t₀))
      ⟨hinv, fun _ => h⟩ ?_
    rintro u w a ⟨hu, hgiven⟩ horder hstep
    refine ⟨hu.step hstep, fun hw => ?_⟩
    have hwnow : w.now = a.2 := by cases step_effect hstep <;> rfl
    have hle : u.now ≤ a.2 := horder
    exact (hgiven (by omega)).step hu (by omega) hstep
  exact hboth.2 hnow

/-- **Reassembly neither mixes nor forges.** In every state a feed reaches the table is bounded
and the next byte string is taken without a panic; a packet returned for a fragment is made of
the fragments of its key that have come since the entry was created; and after a conflict
nothing is returned for the key until the entry is thirty seconds old. -/
theorem reassembly_sound {s : Feed} (hs : system.Reaches InOrder system.init s) :
    Table.size s.queue.pending ≤ 64 ∧
    (∀ bytes now, ∃ r, s.queue.accept bytes now = .ok r) ∧
    (∀ bytes now f packet q, parse bytes = .ok (.fragment f) → ¬f.Atomic →
      s.queue.accept bytes now = .ok (some packet, q) →
      MadeOf f.key (s.since f.key now ++ [f]) packet) ∧
    (∀ a t f g v, InOrder s a → step s a = some t → parse a.1 = .ok (.fragment f) → ¬f.Atomic →
      (s.queue.expire a.2).pending.lookup f.key = some v → g ∈ s.since f.key a.2 →
      Conflicts g f → ∀ u, system.Reaches InOrder t u → ∀ bytes now f',
        InOrder u (bytes, now) → now < v.created + lifetime →
        parse bytes = .ok (.fragment f') → ¬f'.Atomic → f'.key = f.key →
        ∃ q, u.queue.accept bytes now = .ok (none, q)) := by
  have hinv := reaches_inv hs
  refine ⟨hinv.bounded, hinv.accept, ?_, ?_⟩
  · intro bytes now f packet q hparse hmany haccept
    rw [accept_of_fragment hparse hmany] at haccept
    rcases hinv.collected (fits_of_parse hparse) haccept with ⟨hr, -⟩ | ⟨v, j, -, -, hr, hfollows⟩
    · cases hr
    · cases j with
      | waits w => cases hr
      | done packet' =>
        cases hr
        exact hfollows
  · intro a t f g v horder hstep hparse hmany hlookup hg hconflict u hu bytes now f' horder' hnow
      hparse' hmany' hkey
    have hgiven := hinv.givenUp hstep hparse hmany hlookup hg hconflict
    have hle : u.now ≤ now := horder'
    obtain ⟨q, hcollect, -⟩ :=
      (hgiven.reaches (hinv.step hstep) hu (by omega)).collect hnow hkey
    rw [accept_of_fragment hparse' hmany']
    exact ⟨q, hcollect⟩

theorem reaches_of_step {s : Feed} (h : step system.init a = some s) :
    system.Reaches InOrder system.init s :=
  .single ⟨a, Nat.zero_le a.2, h⟩

section

variable {bytes : List Byte} {mtu ident : Nat} (h : Fragmentable bytes mtu ident)

include h

theorem two_le_frameCount : 1 < frameCount bytes mtu := by
  have hlt := h.step_lt
  exact h.lt_frameCount_iff.mpr (by omega)

/-- The first frame of a packet opens an entry for it. -/
theorem step_first_frame : ∃ s v,
    step system.init (frameAt bytes mtu ident 0, 0) = some s ∧
      s.queue.pending.lookup (keyOf bytes ident) = some v ∧ v.created = 0 ∧
      s.now = 0 ∧ s.came (keyOf bytes ident) = [fragmentOf bytes mtu ident 0] := by
  have htwo := two_le_frameCount h
  have hseen := seen_fresh h 0 0
  have hfirst : ∀ j ∈ [0], j < frameCount bytes mtu := by
    rw [forall_mem_singleton]
    omega
  obtain ⟨v, hjoin, hcreated, -⟩ := hseen.join_waits h hfirst (nodup_singleton 0)
    (by decide) htwo (by decide)
  have hentry : (Reassembly.empty.expire 0).entry (fragmentOf bytes mtu ident 0) 0 =
      .ok (some (.fresh (fragmentOf bytes mtu ident 0) 0)) :=
    entry_of_room rfl (by decide) (hseen.head.symm ▸ (by decide : 40 < maxPacket))
  have haccept : system.init.queue.accept (frameAt bytes mtu ident 0) 0 =
      .ok (none, ⟨(Reassembly.empty.expire 0).pending.insert (keyOf bytes ident) v⟩) :=
    accept_frame h (by omega) hentry hjoin
  refine ⟨⟨⟨(Reassembly.empty.expire 0).pending.insert (keyOf bytes ident) v⟩, 0,
    system.init.note 0 (.fragment (fragmentOf bytes mtu ident 0))⟩, v, ?_,
    lookup_insert _, hcreated, rfl, ?_⟩
  · unfold step
    rw [haccept, h.parse_frameAt (by omega)]
  · unfold note
    dsimp only
    rw [if_neg h.not_atomic, key_fragmentOf, Function.update_self]
    rfl

/-- A frame conflicts with itself. -/
theorem conflicts_self {i : Nat} (hi : i < frameCount bytes mtu) :
    Conflicts (fragmentOf bytes mtu ident i) (fragmentOf bytes mtu ident i) := by
  have hlt := h.lt_frameCount_iff.mp hi
  have hmem := (h.mem_fragmentOf_iff hi).mpr ⟨hlt, Nat.mul_div_cancel i h.step_pos⟩
  refine .inl fun hapart => ?_
  have hle := hapart.elim id id
  omega

end

/-- The first frame of a packet comes twice, and nothing is returned for the packet any more. -/
theorem reassembly_sound_twice : ∃ s t,
    system.Reaches InOrder system.init s ∧
      step s (frameAt nineFrames 1280 0 0, 0) = some t ∧
      ∀ u, system.Reaches InOrder t u → ∀ i now, i < frameCount nineFrames 1280 →
        InOrder u (frameAt nineFrames 1280 0 i, now) → now < lifetime →
        ∃ q, u.queue.accept (frameAt nineFrames 1280 0 i) now = .ok (none, q) := by
  have h := fragmentable_nineFrames
  obtain ⟨s, v, hstep, hlookup, hcreated, hnow, hcame⟩ := step_first_frame h
  have hs := reaches_of_step hstep
  obtain ⟨-, htakes, -, hconflict⟩ := reassembly_sound hs
  have hcount := two_le_frameCount h
  have hparse := h.parse_frameAt (show 0 < frameCount nineFrames 1280 by omega)
  obtain ⟨⟨out, q⟩, haccept⟩ := htakes (frameAt nineFrames 1280 0 0) 0
  have hexpire := lookup_expire_iff.mpr
    ⟨hlookup, young_of_lt hcreated (show 0 < 0 + lifetime by decide)⟩
  have hsince : s.since (keyOf nineFrames 0) 0 = [fragmentOf nineFrames 1280 0 0] := by
    unfold since
    rw [hexpire]
    exact hcame
  have hstep' : step s (frameAt nineFrames 1280 0 0, 0) = some ⟨q, 0,
      s.note 0 (.fragment (fragmentOf nineFrames 1280 0 0))⟩ := by
    unfold step
    rw [haccept, hparse]
  refine ⟨s, _, hs, hstep', fun u hu i now hi horder hlt => ?_⟩
  exact hconflict (frameAt nineFrames 1280 0 0, 0) _ (fragmentOf nineFrames 1280 0 0)
    (fragmentOf nineFrames 1280 0 0) v (le_of_eq hnow) hstep' hparse h.not_atomic hexpire
    (hsince ▸ mem_cons_self) (conflicts_self h (by omega)) u hu _ now
    (fragmentOf nineFrames 1280 0 i) horder (by omega) (h.parse_frameAt hi) h.not_atomic
    ((key_fragmentOf _ _ _ _).trans (key_fragmentOf _ _ _ _).symm)

end Feed

end ClashMeta.Ipv6
