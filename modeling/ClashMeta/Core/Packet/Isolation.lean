import Mathlib.Data.Finset.Card
import ClashMeta.Core.Packet.Assembled
import ClashMeta.Lib.Projection

/-!
# Packets are reassembled independently

All unfinished packets share the table of `Reassembly` (core/src/packet_ipv6.rs:28-141), its
sixty-four places and the sweep that runs before each fragment. With no more than sixty-four
keys about, the fragments of one key are nevertheless answered as if they came alone.
-/

namespace ClashMeta.Ipv6

open List Option Reassembly AList

/-- The key of a fragment that joins an entry of the table. -/
def tableKey (bytes : List Byte) : Option Key :=
  match parse bytes with
  | .ok (.fragment f) => if f.Atomic then none else some f.key
  | _ => none

/-- `accept` as one step of a machine. -/
def acceptAt (q : Reassembly) (a : List Byte × Nat) :
    Except Panic (Option (List Byte) × Reassembly) := q.accept a.1 a.2

variable {k : Key}

theorem exists_of_tableKey {bytes : List Byte} (h : tableKey bytes = some k) :
    ∃ f, parse bytes = .ok (.fragment f) ∧ ¬f.Atomic ∧ f.key = k := by
  unfold tableKey at h
  split at h
  · rename_i f hparse
    split at h
    · cases h
    · exact ⟨f, hparse, ‹_›, some.inj h⟩
  · cases h

namespace Reassembly

variable {q p : Reassembly} {f : Fragment} {k : Key} {now t : Nat}

/-! ## What a fragment sees of the table -/

/-- **What is no fragment for the table is answered without it** and leaves it as it is. -/
theorem accept_of_tableKey_none {bytes : List Byte} (h : tableKey bytes = none) :
    ∃ out, ∀ q : Reassembly, ∀ now, q.accept bytes now = .ok (out, q) := by
  obtain ⟨r, hparse, hfits⟩ := parse_ok bytes
  unfold tableKey at h
  unfold accept
  rw [hparse] at h ⊢
  cases r with
  | ignored => exact ⟨none, fun _ _ => rfl⟩
  | whole cut => exact ⟨some cut, fun _ _ => rfl⟩
  | fragment f =>
    have hatomic : f.Atomic := by
      by_contra hmany
      replace h : (if f.Atomic then none else some f.key) = none := h
      rw [if_neg hmany] at h
      cases h
    have hf := hfits f rfl
    obtain ⟨packet, hpacket⟩ : ∃ packet, finish f.head f.previous f.next f.payload = .ok packet :=
      ⟨_, finish_of _ hf.forty_le hf.previous_lt⟩
    refine ⟨some packet, fun q now => ?_⟩
    show (if f.Atomic then _ else _) = _
    rw [if_pos hatomic, hpacket]
    rfl

theorem lookup_expire (q : Reassembly) (now : Nat) (k : Key) :
    (q.expire now).pending.lookup k =
      (q.pending.lookup k).bind fun v => if Young now v then some v else none :=
  Table.lookup_filterMap _ _ _

/-- A sweep made for other keys is one that the key's own next fragment makes as well, since times
do not go back. -/
theorem expire_expire (q : Reassembly) (h : t ≤ now) (k : Key) :
    ((q.expire t).expire now).pending.lookup k = (q.expire now).pending.lookup k := by
  rw [lookup_expire, lookup_expire, lookup_expire]
  cases q.pending.lookup k with
  | none => rfl
  | some v =>
    show Option.bind (if Young t v then some v else none) _ = if Young now v then some v else none
    by_cases hyoung : Young t v
    · rw [if_pos hyoung]
      rfl
    · -- what was too old then is too old now
      have hold : ¬Young now v := by
        unfold Young at *
        omega
      rw [if_neg hyoung, if_neg hold]
      rfl

theorem size_lt_of_keys {S : Finset Key} (hcard : S.card ≤ maxPackets) (hk : k ∈ S)
    (hq : ∀ j, j ∈ q.pending → j ∈ S) (hnone : q.pending.lookup k = none) :
    Table.size q.pending < maxPackets := by
  have hsub : q.pending.keys.toFinset ⊆ S.erase k := by
    intro j hj
    have hmem : j ∈ q.pending := mem_keys.mpr (mem_toFinset.mp hj)
    refine Finset.mem_erase.mpr ⟨fun heq => ?_, hq j hmem⟩
    exact lookup_eq_none.mp hnone (heq ▸ hmem)
  have hsize : Table.size q.pending = q.pending.keys.toFinset.card := by
    rw [toFinset_card_of_nodup q.pending.keys_nodup, AList.keys, List.keys, length_map]
    rfl
  have hle := Finset.card_le_card hsub
  rw [Finset.card_erase_of_mem hk] at hle
  have hpos := Finset.card_pos.mpr ⟨k, hk⟩
  omega

/-- A fragment finds the same entry, or room for a new one, in both tables. -/
theorem entry_congr (hlookup : q.pending.lookup f.key = p.pending.lookup f.key)
    (hq : q.pending.lookup f.key = none → Table.size q.pending < maxPackets)
    (hp : p.pending.lookup f.key = none → Table.size p.pending < maxPackets) :
    q.entry f now = p.entry f now := by
  unfold entry
  rw [← hlookup]
  cases h : q.pending.lookup f.key with
  | some v => rfl
  | none =>
    have hq' := hq h
    have hp' := hp (hlookup ▸ h)
    by_cases hhead : maxPacket ≤ f.head.length
    · rw [if_pos (.inr hhead), if_pos (.inr hhead)]
    · rw [if_neg (by omega), if_neg (by omega)]

theorem collect_cases {r : Option (List Byte) × Reassembly} (h : q.collect f now = .ok r) :
    ((q.expire now).entry f now = .ok none ∧ r = (none, q.expire now)) ∨
      ∃ v j, (q.expire now).entry f now = .ok (some v) ∧ v.join f = .ok j ∧
        r = (q.expire now).settle f.key j := by
  obtain ⟨e, hentry, h⟩ := Except.bind_eq_ok_iff.mp h
  cases e with
  | none =>
    cases h
    exact .inl ⟨hentry, rfl⟩
  | some v =>
    obtain ⟨j, hjoin, h⟩ := Except.bind_eq_ok_iff.mp h
    cases h
    exact .inr ⟨v, j, hentry, hjoin, rfl⟩

theorem settle_fst (j : Assembly.Joined) : (q.settle k j).1 = (p.settle k j).1 := by
  cases j <;> rfl

theorem lookup_settle_self (j : Assembly.Joined) :
    (q.settle k j).2.pending.lookup k = (p.settle k j).2.pending.lookup k := by
  cases j with
  | waits v =>
    show (q.pending.insert k v).lookup k = (p.pending.insert k v).lookup k
    rw [lookup_insert, lookup_insert]
  | done packet =>
    show (q.pending.erase k).lookup k = (p.pending.erase k).lookup k
    rw [lookup_erase, lookup_erase]

variable {j : Key}

theorem mem_settle {joined : Assembly.Joined} (h : j ∈ (q.settle k joined).2.pending) :
    j = k ∨ j ∈ q.pending := by
  cases joined with
  | waits v => exact (mem_insert _).mp h
  | done packet => exact .inr (mem_erase.mp h).2

variable {out : Option (List Byte)} {q' : Reassembly}

theorem lookup_collect_of_ne (hk : k ≠ f.key) (h : q.collect f now = .ok (out, q')) :
    q'.pending.lookup k = (q.expire now).pending.lookup k := by
  rcases collect_cases h with ⟨-, hr⟩ | ⟨v, j, -, -, hr⟩
  · cases hr
    rfl
  · rw [(Prod.mk.inj hr).2]
    exact lookup_settle_of_ne hk j

theorem mem_of_mem_expire (h : j ∈ (q.expire now).pending) : j ∈ q.pending := by
  rw [← lookup_isSome] at h ⊢
  obtain ⟨v, hv⟩ := isSome_iff_exists.mp h
  exact isSome_iff_exists.mpr ⟨v, (lookup_expire_iff.mp hv).1⟩

theorem mem_collect (h : q.collect f now = .ok (out, q')) (hj : j ∈ q'.pending) :
    j = f.key ∨ j ∈ q.pending := by
  rcases collect_cases h with ⟨-, hr⟩ | ⟨v, joined, -, -, hr⟩
  · cases hr
    exact .inr (mem_of_mem_expire hj)
  · rw [(Prod.mk.inj hr).2] at hj
    exact (mem_settle hj).imp_right mem_of_mem_expire

/-- A fragment that finds the same entry in two tables is answered alike and leaves the same
entry in both. -/
theorem collect_congr (hentry : (q.expire now).entry f now = (p.expire now).entry f now)
    (hlookup : (q.expire now).pending.lookup f.key = (p.expire now).pending.lookup f.key)
    (h : q.collect f now = .ok (out, q')) :
    ∃ p', p.collect f now = .ok (out, p') ∧ q'.pending.lookup f.key = p'.pending.lookup f.key := by
  rcases collect_cases h with ⟨hnone, hr⟩ | ⟨v, j, hsome, hjoin, hr⟩
  · cases hr
    refine ⟨p.expire now, ?_, hlookup⟩
    unfold collect
    rw [← hentry, hnone]
    rfl
  · have hout : out = ((p.expire now).settle f.key j).1 :=
      (congrArg Prod.fst hr).trans (settle_fst j)
    have hq' : q' = ((q.expire now).settle f.key j).2 := congrArg Prod.snd hr
    refine ⟨((p.expire now).settle f.key j).2, ?_, hq' ▸ lookup_settle_self j⟩
    rw [collect_of_entry (hentry.symm.trans hsome) hjoin, hout]

end Reassembly

/-! ## The two runs -/

/-- A table that a feed can leave: no call on it panics. -/
def Reassembly.Sound (q : Reassembly) : Prop := ∃ now came, Feed.Inv ⟨q, now, came⟩

theorem Reassembly.sound_empty : Reassembly.empty.Sound := ⟨0, fun _ => [], Feed.inv_init⟩

theorem Reassembly.Sound.accept {q : Reassembly} (h : q.Sound) (bytes : List Byte) (now : Nat) :
    ∃ out q', q.accept bytes now = .ok (out, q') ∧ q'.Sound := by
  obtain ⟨before, came, hinv⟩ := h
  obtain ⟨⟨out, q'⟩, haccept⟩ := hinv.accept bytes now
  obtain ⟨r, hparse, -⟩ := parse_ok bytes
  have hstep : Feed.step ⟨q, before, came⟩ (bytes, now) =
      some ⟨q', now, Feed.note ⟨q, before, came⟩ now r⟩ := by
    unfold Feed.step
    rw [haccept, hparse]
  exact ⟨out, q', haccept, now, _, hinv.step hstep⟩

/-- The table with all fragments and the one with those of a key, before some calls. -/
structure Isolated (k : Key) (S : Finset Key) (q p : Reassembly) (calls : List (List Byte × Nat)) :
    Prop where
  sound : q.Sound ∧ p.Sound
  /-- the keys about -/
  keys : ∀ j, j ∈ q.pending → j ∈ S
  alone : ∀ j, j ∈ p.pending → j = k
  coming : ∀ a ∈ calls, ∀ j, tableKey a.1 = some j → j ∈ S
  /-- from now on the entry of the key is the same, once both tables are swept -/
  agree : ∃ t, (∀ a ∈ calls, t ≤ a.2) ∧
    ∀ now ≥ t, (q.expire now).pending.lookup k = (p.expire now).pending.lookup k
  sorted : calls.Pairwise fun a b => a.2 ≤ b.2

namespace Isolated

variable {k : Key} {S : Finset Key} {q p : Reassembly} {a : List Byte × Nat}
  {calls : List (List Byte × Nat)}

section

variable (h : Isolated k S q p (a :: calls))

include h

theorem next {q' p' : Reassembly} (hq : q'.Sound)
    (hp : p'.Sound) (hkeys : ∀ j, j ∈ q'.pending → j ∈ S) (halone : ∀ j, j ∈ p'.pending → j = k)
    (hagree : ∀ now ≥ a.2,
      (q'.expire now).pending.lookup k = (p'.expire now).pending.lookup k) :
    Isolated k S q' p' calls where
  sound := ⟨hq, hp⟩
  keys := hkeys
  alone := halone
  coming := fun b hb => h.coming b (mem_cons_of_mem _ hb)
  agree := ⟨a.2, (pairwise_cons.mp h.sorted).1, hagree⟩
  sorted := (pairwise_cons.mp h.sorted).2

theorem quiet : Isolated k S q p calls := by
  obtain ⟨t, ht, hagree⟩ := h.agree
  refine h.next h.sound.1 h.sound.2 h.keys h.alone fun now hnow => ?_
  exact hagree now ((ht a mem_cons_self).trans hnow)

/-- **A fragment of another key**: for this key the table is swept, which its own next fragment
does anyway. -/
theorem foreign {j : Key} (hj : tableKey a.1 = some j)
    (hne : j ≠ k) : ∃ out q', acceptAt q a = .ok (out, q') ∧ Isolated k S q' p calls := by
  obtain ⟨t, ht, hagree⟩ := h.agree
  have hnow := ht a mem_cons_self
  obtain ⟨f, hparse, hmany, rfl⟩ := exists_of_tableKey hj
  obtain ⟨out, q', haccept, hsound⟩ := h.sound.1.accept a.1 a.2
  refine ⟨out, q', haccept, ?_⟩
  rw [accept_of_fragment hparse hmany] at haccept
  refine h.next hsound h.sound.2 (fun i hi => ?_) h.alone fun now hle => ?_
  · rcases mem_collect haccept hi with rfl | hi
    · exact h.coming a mem_cons_self _ hj
    · exact h.keys i hi
  calc (q'.expire now).pending.lookup k
      = ((q.expire a.2).expire now).pending.lookup k := by
        rw [lookup_expire, lookup_collect_of_ne hne.symm haccept, ← lookup_expire]
    _ = (q.expire now).pending.lookup k := expire_expire q hle k
    _ = (p.expire now).pending.lookup k := hagree now (hnow.trans hle)

/-- **A fragment of the key** is answered alike, and leaves the same entry. -/
theorem shared (hcard : S.card ≤ maxPackets)
    (hk : tableKey a.1 = some k) :
    ∃ out q' p', acceptAt q a = .ok (out, q') ∧ acceptAt p a = .ok (out, p') ∧
      Isolated k S q' p' calls := by
  obtain ⟨t, ht, hagree⟩ := h.agree
  have hmem : k ∈ S := h.coming a mem_cons_self k hk
  obtain ⟨f, hparse, hmany, rfl⟩ := exists_of_tableKey hk
  have hlookup := hagree a.2 (ht a mem_cons_self)
  have hroom : ∀ {r : Reassembly}, (∀ j, j ∈ r.pending → j ∈ S) →
      (r.expire a.2).pending.lookup f.key = none →
      Table.size (r.expire a.2).pending < maxPackets := fun hr =>
    size_lt_of_keys hcard hmem fun j hj => hr j (mem_of_mem_expire hj)
  have hentry : (q.expire a.2).entry f a.2 = (p.expire a.2).entry f a.2 :=
    entry_congr hlookup (hroom h.keys) (hroom fun j hj => h.alone j hj ▸ hmem)
  obtain ⟨out, q', hq, hqsound⟩ := h.sound.1.accept a.1 a.2
  obtain ⟨out', p', hp, hpsound⟩ := h.sound.2.accept a.1 a.2
  rw [accept_of_fragment hparse hmany] at hq hp
  obtain ⟨p'', hp'', hsame⟩ := collect_congr hentry hlookup hq
  obtain ⟨rfl, rfl⟩ := Prod.mk.inj (Except.ok.inj (hp''.symm.trans hp))
  refine ⟨out, q', p'', (accept_of_fragment hparse hmany).trans hq,
    (accept_of_fragment hparse hmany).trans hp'', ?_⟩
  refine h.next hqsound hpsound (fun j hj => ?_) (fun j hj => ?_) fun now _ => ?_
  · rcases mem_collect hq hj with rfl | hj
    · exact hmem
    · exact h.keys j hj
  · rcases mem_collect hp hj with rfl | hj
    · rfl
    · exact h.alone j hj
  · rw [lookup_expire, lookup_expire, hsame]

end

end Isolated

/-- The calls of a key. -/
def ofKey (k : Key) (a : List Byte × Nat) : Bool := tableKey a.1 = some k

/-- **A key is served as if it were alone.** -/
theorem projects_accept {S : Finset Key} (hcard : S.card ≤ maxPackets) :
    Projects acceptAt (ofKey k) (Isolated k S) where
  shared hown h := h.shared hcard (of_decide_eq_true hown)
  foreign {q p a calls} hother h := by
    have hne : tableKey a.1 ≠ some k := of_decide_eq_false hother
    cases hkey : tableKey a.1 with
    | none =>
      obtain ⟨out, hout⟩ := accept_of_tableKey_none hkey
      exact ⟨out, q, hout q a.2, h.quiet⟩
    | some j => exact h.foreign hkey fun hj => hne (hj ▸ hkey)

theorem isolated_empty {S : Finset Key} {calls : List (List Byte × Nat)}
    (hcoming : ∀ a ∈ calls, ∀ j, tableKey a.1 = some j → j ∈ S)
    (hsorted : calls.Pairwise fun a b => a.2 ≤ b.2) :
    Isolated k S .empty .empty calls where
  sound := ⟨sound_empty, sound_empty⟩
  keys _ h := (notMem_empty _ h).elim
  alone _ h := (notMem_empty _ h).elim
  coming := hcoming
  agree := ⟨0, fun _ _ => Nat.zero_le _, fun _ _ => rfl⟩
  sorted := hsorted

/-- **Reassembly of one packet is independent of the others**: in any calls, at times that do not
go back and with fragments of at most sixty-four keys, the fragments of one key are answered as
they are by a fresh table that gets them alone, at the same times. Everything else is answered
without the table and leaves it as it is. -/
theorem reassembly_isolated (calls : List (List Byte × Nat))
    (hsorted : calls.Pairwise fun a b => a.2 ≤ b.2)
    (hkeys : (calls.filterMap fun a => tableKey a.1).toFinset.card ≤ maxPackets) :
    (∀ k, ∃ all, answers acceptAt .empty calls = .ok all ∧
      answers acceptAt .empty (calls.filter (ofKey k)) =
        .ok (all.filter fun e => ofKey k e.1)) ∧
    ∀ bytes, tableKey bytes = none →
      ∃ out, ∀ (q : Reassembly) (now : Nat), q.accept bytes now = .ok (out, q) := by
  refine ⟨fun k => ?_, fun bytes => accept_of_tableKey_none⟩
  refine (projects_accept hkeys).answers (isolated_empty (fun a ha j hj => ?_) hsorted)
  exact mem_toFinset.mpr (mem_filterMap.mpr ⟨a, ha, hj⟩)

/-- The header of a small datagram, and frames of it for two identifications in turn. -/
def smallPacket : List Byte := [0x60, 0, 0, 0, 0, 16, udp, 64] ++ List.replicate 32 0

/-- Two frames of one packet with one of another between them. -/
def interleaved : List (List Byte × Nat) :=
  [(frame smallPacket 1 0 true (List.replicate 8 1), 0),
    (frame smallPacket 2 0 true (List.replicate 8 2), 5),
    (frame smallPacket 1 1 false (List.replicate 8 3), 5)]

theorem reassembly_isolated_interleaved :
    tableKey (frame smallPacket 1 0 true (List.replicate 8 1)) = some (keyOf smallPacket 1) ∧
      ∃ all, answers acceptAt .empty interleaved = .ok all ∧
        answers acceptAt .empty (interleaved.filter (ofKey (keyOf smallPacket 1))) =
          .ok (all.filter fun e => ofKey (keyOf smallPacket 1) e.1) := by
  have hkeys : (interleaved.filterMap fun a => tableKey a.1).toFinset.card ≤ maxPackets := by
    refine (toFinset_card_le _).trans ((length_filterMap_le _ _).trans ?_)
    decide
  exact ⟨by decide, (reassembly_isolated interleaved (by decide) hkeys).1 (keyOf smallPacket 1)⟩

end ClashMeta.Ipv6
