import ClashMeta.Core.Packet.Frames
import ClashMeta.Core.Packet.Reassembly

/-!
# Frames in any order

The frames that `fragment` has cut a packet into, fed to `Reassembly::accept` in some order
(core/src/packet_ipv6.rs). What has been received is kept in at most four ranges, and a frame
that would need a fifth makes the whole packet be given up. Ranges are runs of neighbouring
frames, so whether the packet comes out depends on the order alone.
-/

namespace ClashMeta.Ipv6

open List Slice Reassembly Assembly RangeSet

/-- An entry that has received the frames at some positions and no others, with as many ranges as
these positions have runs. -/
structure Seen (bytes : List Byte) (mtu ident : Nat) (v : Assembly) (seen : List Nat) : Prop where
  unrejected : v.rejected = false
  room : v.bytes.length = maxPacket - 40
  head : v.head.length = 40
  previous : v.previous = 6
  next : v.next = byte bytes 6
  holds : v.Holds (seen.map (fragmentOf bytes mtu ident))
  ranges : v.received.data.length = runs seen

variable {bytes : List Byte} {mtu ident i : Nat} {v : Assembly} {seen : List Nat}

section

/-- A new entry has received nothing. -/
theorem seen_fresh (h : Fragmentable bytes mtu ident) (i now : Nat) :
    Seen bytes mtu ident (.fresh (fragmentOf bytes mtu ident i) now) [] := by
  have hlen := h.length_eq
  have hhead : (fragmentOf bytes mtu ident i).head.length = 40 :=
    length_frameHeader (by omega) _
  refine ⟨rfl, ?_, hhead, rfl, rfl, holds_fresh ⟨?_, ?_⟩ now, rfl⟩
  · show (replicate (maxPacket - (fragmentOf bytes mtu ident i).head.length) 0).length = _
    rw [length_replicate, hhead]
  · rw [hhead]
  · rw [hhead]
    show 6 < 40
    omega

variable (h : Fragmentable bytes mtu ident) (hv : Seen bytes mtu ident v seen)
  (hseen : ∀ j ∈ seen, j < frameCount bytes mtu)

include h hv hseen

/-- The bytes that are there are those of the frames. -/
theorem Seen.mem_received {x : Nat} :
    x ∈ v.received.data ↔ x < payloadLen bytes ∧ x / stepOf mtu ∈ seen := by
  rw [hv.holds.received]
  constructor
  · rintro ⟨f, hf, hx⟩
    obtain ⟨j, hj, rfl⟩ := mem_map.mp hf
    obtain ⟨hlt, hdiv⟩ := (h.mem_fragmentOf_iff (hseen j hj)).mp hx
    exact ⟨hlt, hdiv.symm ▸ hj⟩
  · rintro ⟨hlt, hmem⟩
    exact ⟨_, mem_map_of_mem hmem, (h.mem_fragmentOf_iff (hseen _ hmem)).mpr ⟨hlt, rfl⟩⟩

/-- A total that is known is the length of the packet. -/
theorem Seen.total_eq {t : Nat} (ht : v.total = some t) : t = payloadLen bytes := by
  obtain ⟨f, hf, hmore, rfl⟩ := (hv.holds.total t).mp ht
  obtain ⟨j, hj, rfl⟩ := mem_map.mp hf
  have hlast : ¬j + 1 < frameCount bytes mtu := of_decide_eq_false hmore
  rw [h.lt_frameCount_iff] at hlast
  rw [h.stop_fragmentOf (hseen j hj)]
  omega

/-- While a frame is missing the front has not reached the end. -/
theorem Seen.front_ne {j : Nat} (hj : j < frameCount bytes mtu) (hmissing : j ∉ seen) :
    v.received.peekFront ≠ payloadLen bytes := by
  have hlt := h.lt_frameCount_iff.mp hj
  intro hfront
  obtain ⟨hall, -⟩ := (front_eq_iff (by omega : 0 < payloadLen bytes)).mp hfront
  have hmem := ((hv.mem_received h hseen).mp (hall _ hlt)).2
  rw [Nat.mul_div_cancel _ h.step_pos] at hmem
  exact hmissing hmem

/-- When all frames are there the packet is whole: the total length is known, the front has
reached it, and the finished packet is the one that was cut. -/
theorem Seen.complete (hall : ∀ j < frameCount bytes mtu, j ∈ seen) :
    v.total = some (payloadLen bytes) ∧ v.received.peekFront = payloadLen bytes ∧
      payloadLen bytes ≤ v.bytes.length ∧
      finish v.head v.previous v.next (v.bytes.take (payloadLen bytes)) = .ok bytes := by
  have hstep := h.step_lt
  have hcount : 0 < frameCount bytes mtu := h.lt_frameCount_iff.mpr (by omega)
  have hheld : ∀ j < frameCount bytes mtu,
      fragmentOf bytes mtu ident j ∈ seen.map (fragmentOf bytes mtu ident) :=
    fun j hj => mem_map_of_mem (hall j hj)
  have htotal : v.total = some (payloadLen bytes) := by
    have hlast : frameCount bytes mtu - 1 < frameCount bytes mtu := by omega
    have hend := h.lt_frameCount_iff (i := frameCount bytes mtu - 1 + 1)
    refine (hv.holds.total _).mpr ⟨_, hheld _ hlast, decide_eq_false (by omega), ?_⟩
    rw [h.stop_fragmentOf hlast]
    omega
  have hfront : v.received.peekFront = payloadLen bytes := by
    refine (front_eq_iff (by omega)).mpr ⟨fun y hy => ?_, fun hmem => ?_⟩
    · refine (hv.mem_received h hseen).mpr ⟨hy, hall _ (h.lt_frameCount_iff.mpr ?_)⟩
      exact lt_of_le_of_lt (Nat.div_mul_le_self y _) hy
    · exact absurd ((hv.mem_received h hseen).mp hmem).1 (lt_irrefl _)
  have hdata : v.bytes.take (payloadLen bytes) = bytes.drop 40 := by
    refine h.take_of_shows fun j hj => ?_
    rw [← start_fragmentOf bytes mtu ident j]
    exact hv.holds.shows _ (hheld j hj)
  have hhead : v.head = frameHeader bytes (8 + (chunkAt bytes mtu 0).length) :=
    hv.holds.first _ (hheld 0 hcount)
      ((start_fragmentOf bytes mtu ident 0).trans (zero_mul _))
  refine ⟨htotal, hfront, (hv.holds.whole htotal hfront).1, ?_⟩
  rw [hdata, hhead, hv.previous, hv.next]
  exact finish_frameHeader _ h.length_eq h.length_le

variable (hi : i < frameCount bytes mtu)

include hi

/-- The byte behind a frame is there with the next frame. -/
theorem Seen.stop_mem_iff :
    (fragmentOf bytes mtu ident i).stop ∈ v.received.data ↔ i + 1 ∈ seen := by
  rw [hv.mem_received h hseen, h.stop_fragmentOf hi]
  by_cases hmore : i + 1 < frameCount bytes mtu
  · have hnext := h.lt_frameCount_iff.mp hmore
    rw [min_eq_left hnext.le, Nat.mul_div_cancel _ h.step_pos]
    exact and_iff_right hnext
  · have hend : payloadLen bytes ≤ (i + 1) * stepOf mtu :=
      not_lt.mp fun hnext => hmore (h.lt_frameCount_iff.mpr hnext)
    rw [min_eq_right hend]
    exact ⟨fun hmem => absurd hmem.1 (lt_irrefl _), fun hmem => absurd (hseen _ hmem) hmore⟩

/-- The byte before a frame is there with the frame before. -/
theorem Seen.before_mem_iff :
    (0 < (fragmentOf bytes mtu ident i).start ∧
        (fragmentOf bytes mtu ident i).start - 1 ∈ v.received.data) ↔ 0 < i ∧ i - 1 ∈ seen := by
  have hpos := h.step_pos
  have hlt := h.lt_frameCount_iff.mp hi
  rw [hv.mem_received h hseen, start_fragmentOf]
  cases i with
  | zero => simp
  | succ i =>
    have hdiv : ((i + 1) * stepOf mtu - 1) / stepOf mtu = i := by
      rw [Nat.div_eq_iff hpos, add_mul]
      omega
    rw [hdiv, add_mul] at *
    constructor
    · exact fun hmem => ⟨Nat.succ_pos i, hmem.2.2⟩
    · exact fun hmem => ⟨by omega, by omega, hmem.2⟩

variable (hnew : i ∉ seen)

include hnew

/-- **A frame that has not been there is valid.** -/
theorem Seen.not_invalid : ¬v.Invalid (fragmentOf bytes mtu ident i) := by
  have hlen := h.length_eq
  have hmax := h.length_le
  have hlt := h.lt_frameCount_iff.mp hi
  have hpos := h.step_pos
  have hstart := start_fragmentOf bytes mtu ident i
  have hstop := h.stop_fragmentOf hi
  have hchunk : (fragmentOf bytes mtu ident i).payload.length = _ := h.length_chunkAt
  have hnext := h.lt_frameCount_iff (i := i + 1)
  have hmul : (i + 1) * stepOf mtu = i * stepOf mtu + stepOf mtu := by
    rw [add_mul, one_mul]
  have hbetween : (fragmentOf bytes mtu ident i).start < (fragmentOf bytes mtu ident i).stop := by
    omega
  rintro (hempty | ⟨hmore, hodd⟩ | hbeyond | hhead | hprevious | hother | ⟨t, ht, hover⟩ |
    ⟨hlast, hbehind⟩ | hoverlap)
  · rw [hempty, length_nil] at hchunk
    omega
  · -- all but the last carry a whole step
    have hmore' : i + 1 < frameCount bytes mtu := of_decide_eq_true hmore
    refine hodd ?_
    rw [hchunk, min_eq_left (by omega)]
    exact Nat.mul_mod_left _ _
  · have hroom := hv.room
    omega
  · refine hhead (hv.head.trans (Eq.symm ?_))
    exact length_frameHeader (by omega) _
  · exact hprevious hv.previous
  · exact hother hv.next
  · obtain rfl := hv.total_eq h hseen ht
    rcases hover with hover | ⟨hmore, hover⟩ | ⟨hmore, hover⟩
    · omega
    · have hmore' : ¬i + 1 < frameCount bytes mtu := of_decide_eq_false hmore
      omega
    · have hmore' : i + 1 < frameCount bytes mtu := of_decide_eq_true hmore
      omega
  · obtain ⟨x, hx, hmem⟩ := exists_beyond_iff.mp hbehind
    have hmore' : ¬i + 1 < frameCount bytes mtu := of_decide_eq_false hlast
    have hinside := ((hv.mem_received h hseen).mp hmem).1
    omega
  · obtain ⟨x, hlo, hhi, hmem⟩ := (exists_overlap_iff hbetween).mp hoverlap
    obtain ⟨-, hdiv⟩ := (h.mem_fragmentOf_iff hi).mp ⟨hlo, hhi⟩
    rw [hv.mem_received h hseen, hdiv] at hmem
    exact hnew hmem.2

variable (hnodup : seen.Nodup)

include hnodup

/-- **Ranges are runs**: with another frame there are as many ranges as runs of neighbouring
frames. -/
theorem Seen.length_insert
    (hlt : (fragmentOf bytes mtu ident i).start < (fragmentOf bytes mtu ident i).stop) :
    (v.received.data.insert _ _ hlt).length = runs (seen ++ [i]) := by
  have hfresh := (goes_of_not_invalid (hv.not_invalid h hseen hi hnew)).fresh
  have hranges := RangeSet.length_insert (h := hlt) hfresh
  have hruns := runs_cons hnodup hnew
  simp only [hv.stop_mem_iff h hseen hi, hv.before_mem_iff h hseen hi, hv.ranges] at hranges
  rw [runs_perm (perm_append_singleton i seen)]
  omega

/-- A frame is taken as long as there are at most four runs. -/
theorem Seen.add_eq :
    (runs (seen ++ [i]) ≤ 4 → ∃ received, v.received.add (fragmentOf bytes mtu ident i).start
        (fragmentOf bytes mtu ident i).payload.length = some received ∧
        received.data.length = runs (seen ++ [i])) ∧
      (4 < runs (seen ++ [i]) → v.received.add (fragmentOf bytes mtu ident i).start
        (fragmentOf bytes mtu ident i).payload.length = none) := by
  have hlt := (goes_of_not_invalid (hv.not_invalid h hseen hi hnew)).nonempty
  have hsize : 0 < (fragmentOf bytes mtu ident i).payload.length := by
    unfold Fragment.stop at hlt
    omega
  have hlength := hv.length_insert h hseen hi hnew hnodup hlt
  unfold Assembler.add
  rw [dif_pos hsize]
  constructor
  · intro hfew
    exact ⟨_, dif_pos (hlength.symm ▸ hfew), hlength⟩
  · intro hmany
    exact dif_neg (hlength.symm ▸ not_le.mpr hmany)

/-- A fifth run makes the packet be given up. -/
theorem Seen.join_reject (hmany : 4 < runs (seen ++ [i])) :
    v.join (fragmentOf bytes mtu ident i) = .ok (.waits v.reject) := by
  unfold Assembly.join
  rw [hv.unrejected, if_neg nofun, if_neg (hv.not_invalid h hseen hi hnew),
    (hv.add_eq h hseen hi hnew hnodup).2 hmany]

end

theorem nodup_append_singleton : (seen ++ [i]).Nodup ↔ i ∉ seen ∧ seen.Nodup :=
  (perm_append_singleton i seen).nodup_iff.trans nodup_cons

section

variable (h : Fragmentable bytes mtu ident) (hv : Seen bytes mtu ident v seen)
  (hseen : ∀ j ∈ seen ++ [i], j < frameCount bytes mtu) (hnodup : (seen ++ [i]).Nodup)
  (hfew : runs (seen ++ [i]) ≤ 4)

include h hv hseen hnodup hfew

/-- A frame is stored, and is then one of those received. -/
theorem Seen.join_store :
    ∃ received, v.join (fragmentOf bytes mtu ident i) =
        v.store (fragmentOf bytes mtu ident i) received ∧
      v.Goes (fragmentOf bytes mtu ident i) ∧
      Seen bytes mtu ident (v.stored (fragmentOf bytes mtu ident i) received) (seen ++ [i]) := by
  have hbefore : ∀ j ∈ seen, j < frameCount bytes mtu :=
    fun j hj => hseen j (mem_append_left _ hj)
  have hi := hseen i (mem_append_right _ mem_cons_self)
  obtain ⟨hnew, hnodup'⟩ := nodup_append_singleton.mp hnodup
  obtain ⟨received, hadd, hranges⟩ := (hv.add_eq h hbefore hi hnew hnodup').1 hfew
  have hvalid := hv.not_invalid h hbefore hi hnew
  have hgoes := goes_of_not_invalid hvalid
  have hholds := hv.holds.stored hgoes hadd
  refine ⟨received, ?_, hgoes, hv.unrejected, ?_, ?_, hv.previous, hv.next, ?_, hranges⟩
  · unfold Assembly.join
    rw [hv.unrejected, if_neg nofun, if_neg hvalid, hadd]
  · exact (length_splice hgoes.inside).trans hv.room
  · show (if _ then (fragmentOf bytes mtu ident i).head else v.head).length = 40
    split
    · exact hgoes.agrees.1.trans hv.head
    · exact hv.head
  · rw [map_append]
    exact hholds

/-- While a frame is missing the entry waits. -/
theorem Seen.join_waits {j : Nat} (hj : j < frameCount bytes mtu) (hmissing : j ∉ seen ++ [i]) :
    ∃ w, v.join (fragmentOf bytes mtu ident i) = .ok (.waits w) ∧ w.created = v.created ∧
      Seen bytes mtu ident w (seen ++ [i]) := by
  obtain ⟨received, hjoin, hgoes, hstored⟩ := hv.join_store h hseen hnodup hfew
  refine ⟨v.stored (fragmentOf bytes mtu ident i) received, ?_, rfl, hstored⟩
  rw [hjoin, store_eq hgoes]
  split
  · rfl
  · rename_i total htotal
    obtain rfl := hstored.total_eq h hseen htotal
    exact if_pos (hstored.front_ne h hseen hj hmissing)

/-- **The last frame to come completes the packet.** -/
theorem Seen.join_done (hall : ∀ j < frameCount bytes mtu, j ∈ seen ++ [i]) :
    v.join (fragmentOf bytes mtu ident i) = .ok (.done bytes) := by
  obtain ⟨received, hjoin, hgoes, hstored⟩ := hv.join_store h hseen hnodup hfew
  obtain ⟨htotal, hfront, hle, hpacket⟩ := hstored.complete h hseen hall
  rw [hjoin, store_eq hgoes, htotal]
  dsimp only
  rw [if_neg (not_not.mpr hfront)]
  exact complete_of hle hpacket

end

/-! ## Feeding -/

/-- One packet after another, each with the time it comes. -/
def Reassembly.feed (q : Reassembly) :
    List (List Byte × Nat) → Except Panic (List (Option (List Byte)) × Reassembly)
  | [] => .ok ([], q)
  | (bytes, now) :: rest => do
    let (out, q) ← q.accept bytes now
    let (outs, q) ← q.feed rest
    return (out :: outs, q)

/-- **The packet is delivered**: nothing is returned but for the last frame, the packet for that
one, and no entry is left. -/
def Delivers (q : Reassembly) (fed : List (List Byte × Nat)) (packet : List Byte) (k : Key) :
    Prop :=
  ∃ q', q.feed fed = .ok (List.replicate (fed.length - 1) none ++ [some packet], q') ∧
    q'.pending.lookup k = none

/-- One packet, then the others. -/
theorem Reassembly.feed_cons {q q' q'' : Reassembly} {bytes : List Byte} {now : Nat}
    {rest : List (List Byte × Nat)} {out : Option (List Byte)} {outs : List (Option (List Byte))}
    (haccept : q.accept bytes now = .ok (out, q')) (hrest : q'.feed rest = .ok (outs, q'')) :
    q.feed ((bytes, now) :: rest) = .ok (out :: outs, q'') := by
  unfold feed
  rw [haccept]
  show (q'.feed rest >>= _) = _
  rw [hrest]
  rfl

/-- Nothing is returned. -/
def Silent (q : Reassembly) (fed : List (List Byte × Nat)) : Prop :=
  ∃ q' outs, q.feed fed = .ok (outs, q') ∧ ∀ o ∈ outs, o = none

/-- A frame that returns nothing, before others. -/
theorem Silent.cons {q q' : Reassembly} {bytes : List Byte} {now : Nat}
    {rest : List (List Byte × Nat)} (h : Silent q' rest)
    (haccept : q.accept bytes now = .ok (none, q')) : Silent q ((bytes, now) :: rest) := by
  obtain ⟨q'', outs, hfeed, hnone⟩ := h
  exact ⟨q'', none :: outs, feed_cons haccept hfeed,
    forall_mem_cons.mpr ⟨rfl, hnone⟩⟩

section

variable {t₀ : Nat} {q : Reassembly}

/-- The table is ready for the next frame of a packet whose first came at `t₀`: there is an
entry for it, or room for one. -/
def Ready (bytes : List Byte) (mtu ident t₀ : Nat) (q : Reassembly) (seen : List Nat) : Prop :=
  ∀ i now, now < t₀ + lifetime → (seen = [] → now = t₀) →
    ∃ v, (q.expire now).entry (fragmentOf bytes mtu ident i) now = .ok (some v) ∧
      v.created = t₀ ∧ Seen bytes mtu ident v seen

/-- An entry is ready for the next frame. -/
theorem ready_later (hlookup : q.pending.lookup (keyOf bytes ident) = some v)
    (hcreated : v.created = t₀) (hv : Seen bytes mtu ident v seen) :
    Ready bytes mtu ident t₀ q seen := by
  intro i now hnow _
  have hyoung := young_of_lt hcreated hnow
  exact ⟨v, entry_of_lookup (lookup_expire_iff.mpr ⟨hlookup, hyoung⟩),
    hcreated, hv⟩

/-- The arrivals, as they are fed: the frame at a position, and its time. -/
def arrivals (bytes : List Byte) (mtu ident : Nat) (order : List (Nat × Nat)) :
    List (List Byte × Nat) :=
  order.map fun a => (frameAt bytes mtu ident a.1, a.2)

/-- What is left of an order behind one more frame. -/
theorem next_of_perm {n : Nat} {rest : List Nat}
    (hperm : (seen ++ i :: rest).Perm (List.range n)) :
    (∀ j ∈ seen ++ [i], j < n) ∧ (seen ++ [i]).Nodup ∧ (∀ j ∈ rest, j < n ∧ j ∉ seen ++ [i]) ∧
      ∀ j < n, j ∈ seen ++ [i] ∨ j ∈ rest := by
  rw [append_cons] at hperm
  have hmem : ∀ j, j ∈ (seen ++ [i]) ++ rest ↔ j < n := fun j => by
    rw [hperm.mem_iff, mem_range]
  obtain ⟨hleft, -, hapart⟩ := nodup_append.mp (hperm.nodup_iff.mpr nodup_range)
  refine ⟨?_, hleft, fun j hj => ?_, fun j hj => ?_⟩
  · exact fun j hj => (hmem j).mp (mem_append_left _ hj)
  · exact ⟨(hmem j).mp (mem_append_right _ hj), fun hj' => hapart j hj' j hj rfl⟩
  · exact mem_append.mp ((hmem j).mpr hj)

/-- A run too many comes with a frame. -/
theorem ne_nil_of_runs {rest : List Nat} (hfew : runs seen ≤ 4)
    (hmany : ∃ k, 4 < runs (seen ++ rest.take k)) : rest ≠ [] := by
  rintro rfl
  obtain ⟨k, hk⟩ := hmany
  rw [take_nil, append_nil] at hk
  exact absurd hk (not_lt.mpr hfew)

variable (h : Fragmentable bytes mtu ident)

include h

/-- A free slot is ready for the first frame. -/
theorem ready_first (hnone : q.pending.lookup (keyOf bytes ident) = none)
    (hroom : Table.size q.pending < maxPackets) (t₀ : Nat) : Ready bytes mtu ident t₀ q [] := by
  intro i now _ hnow
  obtain rfl := hnow rfl
  have hseen := seen_fresh h i now
  have hsize : Table.size (q.expire now).pending ≤ Table.size q.pending :=
    size_expire_le
  have hhead : (fragmentOf bytes mtu ident i).head.length = 40 := hseen.head
  refine ⟨_, entry_of_room (lookup_expire_none hnone) (by omega) ?_, rfl,
    hseen⟩
  rw [hhead]
  decide

/-- `accept` joins a frame to its entry. -/
theorem accept_frame {now : Nat} {j : Joined} (hi : i < frameCount bytes mtu)
    (hentry : (q.expire now).entry (fragmentOf bytes mtu ident i) now = .ok (some v))
    (hjoin : v.join (fragmentOf bytes mtu ident i) = .ok j) :
    q.accept (frameAt bytes mtu ident i) now =
      .ok ((q.expire now).settle (keyOf bytes ident) j) := by
  rw [accept_of_fragment (h.parse_frameAt hi) h.not_atomic]
  exact collect_of_entry hentry hjoin

/-- A packet that is given up stays so. -/
theorem silent_of_rejected (order : List (Nat × Nat))
    (hlookup : q.pending.lookup (keyOf bytes ident) = some v)
    (hrejected : v.rejected) (hcreated : v.created = t₀)
    (horder : ∀ a ∈ order, a.1 < frameCount bytes mtu ∧ a.2 < t₀ + lifetime) :
    Silent q (arrivals bytes mtu ident order) := by
  induction order generalizing q with
  | nil => exact ⟨q, [], rfl, nofun⟩
  | cons a order ih =>
    obtain ⟨⟨hi, hnow⟩, hrest⟩ := forall_mem_cons.mp horder
    have hyoung := young_of_lt hcreated hnow
    have hentry : (q.expire a.2).entry (fragmentOf bytes mtu ident a.1) a.2 = .ok (some v) :=
      entry_of_lookup (lookup_expire_iff.mpr ⟨hlookup, hyoung⟩)
    have haccept := accept_frame h hi hentry (join_rejected hrejected _)
    exact (ih (AList.lookup_insert _) hrest).cons haccept

/-- A frame that is not the last is kept. -/
theorem accept_waits {a : Nat × Nat} {j : Nat}
    (hready : Ready bytes mtu ident t₀ q seen) (hnow : a.2 < t₀ + lifetime)
    (hfirst : seen = [] → a.2 = t₀) (hseen : ∀ j ∈ seen ++ [a.1], j < frameCount bytes mtu)
    (hnodup : (seen ++ [a.1]).Nodup) (hfew : runs (seen ++ [a.1]) ≤ 4)
    (hj : j < frameCount bytes mtu) (hmissing : j ∉ seen ++ [a.1]) :
    ∃ q', q.accept (frameAt bytes mtu ident a.1) a.2 = .ok (none, q') ∧
      Ready bytes mtu ident t₀ q' (seen ++ [a.1]) := by
  obtain ⟨v, hentry, hcreated, hv⟩ := hready a.1 a.2 hnow hfirst
  obtain ⟨w, hjoin, hsame, hw⟩ := hv.join_waits h hseen hnodup hfew hj hmissing
  have hi := hseen a.1 (mem_append_right _ mem_cons_self)
  exact ⟨_, accept_frame h hi hentry hjoin,
    ready_later (AList.lookup_insert _) (hsame.trans hcreated) hw⟩

/-- **Few runs**: as long as no more than four runs of frames have come, the packet is
delivered with the last of them. -/
theorem delivers_of_runs (a : Nat × Nat) (order : List (Nat × Nat))
    (hready : Ready bytes mtu ident t₀ q seen)
    (hperm : (seen ++ (a :: order).map Prod.fst).Perm (List.range (frameCount bytes mtu)))
    (htimes : ∀ b ∈ a :: order, b.2 < t₀ + lifetime) (hfirst : seen = [] → a.2 = t₀)
    (hfew : ∀ k, runs (seen ++ ((a :: order).map Prod.fst).take k) ≤ 4) :
    Delivers q (arrivals bytes mtu ident (a :: order)) bytes (keyOf bytes ident) := by
  -- by the number of frames that are still to come
  induction order generalizing a q seen with
  | nil =>
    obtain ⟨hseen, hnodup, -, hall⟩ := next_of_perm hperm
    obtain ⟨v, hentry, -, hv⟩ := hready a.1 a.2 (htimes a mem_cons_self) hfirst
    have hjoin := hv.join_done h hseen hnodup (hfew 1)
      fun j hj => (hall j hj).resolve_right nofun
    have hi := hseen a.1 (mem_append_right _ mem_cons_self)
    exact ⟨_, feed_cons (accept_frame h hi hentry hjoin) rfl, AList.lookup_erase _ _⟩
  | cons b order ih =>
    obtain ⟨hseen, hnodup, hrest, -⟩ := next_of_perm hperm
    obtain ⟨hj, hmissing⟩ := hrest b.1 mem_cons_self
    obtain ⟨hnow, htimes'⟩ := forall_mem_cons.mp htimes
    obtain ⟨q₁, haccept, hready'⟩ :=
      accept_waits h hready hnow hfirst hseen hnodup (hfew 1) hj hmissing
    obtain ⟨q', hfeed, hnone⟩ := ih b hready' (by rwa [append_assoc]) htimes'
      (fun hnil => absurd hnil (by simp))
      fun k => by
        rw [append_assoc]
        exact hfew (k + 1)
    exact ⟨q', feed_cons haccept hfeed, hnone⟩

/-- **Many runs**: when more than four runs of frames have come, nothing is ever returned. -/
theorem silent_of_runs (order : List (Nat × Nat))
    (hready : Ready bytes mtu ident t₀ q seen)
    (hperm : (seen ++ order.map Prod.fst).Perm (List.range (frameCount bytes mtu)))
    (htimes : ∀ b ∈ order, b.2 < t₀ + lifetime)
    (hfirst : seen = [] → ∀ a ∈ order.head?, a.2 = t₀) (hsmall : runs seen ≤ 4)
    (hmany : ∃ k, 4 < runs (seen ++ (order.map Prod.fst).take k)) :
    Silent q (arrivals bytes mtu ident order) := by
  induction order generalizing q seen with
  | nil => exact absurd rfl (ne_nil_of_runs hsmall hmany)
  | cons a order ih =>
    obtain ⟨hseen, hnodup, hrest, -⟩ := next_of_perm hperm
    obtain ⟨hnow, htimes'⟩ := forall_mem_cons.mp htimes
    have hfirst' : seen = [] → a.2 = t₀ := fun hnil => hfirst hnil a rfl
    by_cases hfew : runs (seen ++ [a.1]) ≤ 4
    · -- this frame is still kept, and the run too many is among the others
      have hmany' : ∃ k, 4 < runs ((seen ++ [a.1]) ++ (order.map Prod.fst).take k) := by
        obtain ⟨k, hk⟩ := hmany
        cases k with
        | zero =>
          rw [take_zero, append_nil] at hk
          exact absurd hk (not_lt.mpr hsmall)
        | succ k =>
          refine ⟨k, ?_⟩
          rw [append_assoc]
          exact hk
      cases order with
      | nil => exact absurd rfl (ne_nil_of_runs hfew hmany')
      | cons b order =>
        obtain ⟨hj, hmissing⟩ := hrest b.1 mem_cons_self
        obtain ⟨q₁, haccept, hready'⟩ :=
          accept_waits h hready hnow hfirst' hseen hnodup hfew hj hmissing
        exact (ih hready' (by rwa [append_assoc]) htimes'
          (fun hnil => absurd hnil (by simp)) hfew hmany').cons haccept
    · -- with this frame the packet is given up
      have hi := hseen a.1 (mem_append_right _ mem_cons_self)
      obtain ⟨hnew, hnodup'⟩ := nodup_append_singleton.mp hnodup
      obtain ⟨v, hentry, hcreated, hv⟩ := hready a.1 a.2 hnow hfirst'
      have hjoin := hv.join_reject h (fun j hj => hseen j (mem_append_left _ hj)) hi hnew hnodup'
        (not_le.mp hfew)
      refine Silent.cons ?_ (accept_frame h hi hentry hjoin)
      exact silent_of_rejected h order (AList.lookup_insert _) rfl hcreated fun b hb =>
        ⟨(hrest b.1 (mem_map_of_mem hb)).1, htimes' b hb⟩

end

/-! ## The orders that are delivered -/

/-- At no time have more than four runs of frames come. -/
def FewRuns (order : List Nat) : Prop := ∀ k ≤ order.length, runs (order.take k) ≤ 4

instance (order : List Nat) : Decidable (FewRuns order) :=
  inferInstanceAs (Decidable (∀ k ≤ _, _))

/-- The bound holds for the front of the order, however long. -/
theorem FewRuns.take {order : List Nat} (h : FewRuns order) (k : Nat) :
    runs (order.take k) ≤ 4 := by
  rcases le_total k order.length with hk | hk
  · exact h k hk
  · have hall := h order.length le_rfl
    rwa [take_length, ← take_of_length_le hk] at hall

section

variable {q : Reassembly} {frames : List (List Byte)} {order : List (Nat × Nat)}

/-- The frames in an order, each with the time it comes. -/
def fedIn (frames : List (List Byte)) (order : List (Nat × Nat)) : List (List Byte × Nat) :=
  order.map fun a => (frames.getD a.1 [], a.2)

/-- The frames that are fed are those of the packet. -/
theorem fedIn_eq_arrivals (h : Fragmentable bytes mtu ident)
    (hframes : fragment bytes mtu ident = .ok frames)
    (horder : ∀ a ∈ order, a.1 < frames.length) : frames.length = frameCount bytes mtu ∧
    fedIn frames order = arrivals bytes mtu ident order := by
  rw [h.fragment_eq] at hframes
  cases hframes
  rw [length_map, length_range] at horder ⊢
  refine ⟨rfl, map_congr_left fun a ha => ?_⟩
  rw [getD_eq_getElem?_getD, getElem?_map, getElem?_range (horder a ha)]
  rfl

/-- The hypotheses under which the frames of a packet are fed: no entry for it is pending, a
slot is free, every frame comes once, and the last comes within the lifetime of the first. -/
structure Feeds (bytes : List Byte) (mtu ident : Nat) (q : Reassembly)
    (frames : List (List Byte)) (order : List (Nat × Nat)) : Prop where
  packet : Fragmentable bytes mtu ident
  cut : fragment bytes mtu ident = .ok frames
  absent : q.pending.lookup (keyOf bytes ident) = none
  slot : Table.size q.pending < maxPackets
  perm : (order.map Prod.fst).Perm (List.range frames.length)
  timely : ∀ first ∈ order.head?, ∀ a ∈ order, a.2 < first.2 + lifetime

section

variable (h : Feeds bytes mtu ident q frames order)

include h

/-- The same for an order of feeding. -/
theorem Feeds.fed : frames.length = frameCount bytes mtu ∧
    fedIn frames order = arrivals bytes mtu ident order :=
  fedIn_eq_arrivals h.packet h.cut fun _ ha =>
    mem_range.mp (h.perm.mem_iff.mp (mem_map_of_mem ha))

/-- Few runs deliver the packet. -/
theorem Feeds.delivers (hfew : FewRuns (order.map Prod.fst)) :
    Delivers q (fedIn frames order) bytes (keyOf bytes ident) := by
  obtain ⟨hlength, hfed⟩ := h.fed
  have hperm := h.perm
  rw [hlength] at hperm
  rw [hfed]
  cases order with
  | nil =>
    -- a packet that is cut has a frame
    have hcount : 0 < frameCount bytes mtu := by
      have hlt := h.packet.step_lt
      exact h.packet.lt_frameCount_iff.mpr (by omega)
    have hnone := hperm.length_eq
    exact absurd hnone (by simp; omega)
  | cons a order =>
    exact delivers_of_runs h.packet a order (ready_first h.packet h.absent h.slot a.2) hperm
      (h.timely a rfl) (fun _ => rfl) hfew.take

/-- Many runs do not. -/
theorem Feeds.silent (hmany : ¬FewRuns (order.map Prod.fst)) :
    ¬Delivers q (fedIn frames order) bytes (keyOf bytes ident) := by
  obtain ⟨hlength, hfed⟩ := h.fed
  have hperm := h.perm
  rw [hlength] at hperm
  have hmany' : ∃ k, 4 < runs ((order.map Prod.fst).take k) := by
    unfold FewRuns at hmany
    push Not at hmany
    obtain ⟨k, -, hk⟩ := hmany
    exact ⟨k, hk⟩
  rintro ⟨q₁, hdelivers, -⟩
  cases order with
  | nil =>
    obtain ⟨k, hk⟩ := hmany'
    rw [map_nil, take_nil] at hk
    exact absurd hk (by decide)
  | cons a order =>
    obtain ⟨q₂, outs, hfeed, hnone⟩ := silent_of_runs h.packet (a :: order)
      (ready_first h.packet h.absent h.slot a.2) hperm (h.timely a rfl)
      (fun _ b hb => by cases hb; rfl) (by decide) hmany'
    rw [hfed, hfeed] at hdelivers
    cases hdelivers
    exact absurd (hnone (some bytes) (by simp)) (Option.some_ne_none _)

end

/-- **A packet comes out of its frames exactly when they never form more than four runs.** -/
theorem reassembly_delivers_iff (h : Feeds bytes mtu ident q frames order) :
    Delivers q (fedIn frames order) bytes (keyOf bytes ident) ↔ FewRuns (order.map Prod.fst) := by
  constructor
  · intro hdelivers
    by_contra hmany
    exact h.silent hmany hdelivers
  · exact h.delivers

end

/-! ## A packet of nine frames -/

/-- A datagram with a payload of eight full frames and a byte. -/
def nineFrames : List Byte :=
  [0x60, 0, 0, 0] ++ be16 9857 ++ [udp, 64] ++ List.replicate 32 0 ++ List.replicate 9857 0

theorem payloadLen_nineFrames : payloadLen nineFrames = 9857 := rfl

/-- It can be cut. -/
theorem fragmentable_nineFrames : Fragmentable nineFrames 1280 0 := by
  have hlength : nineFrames.length = 9897 := by
    simp only [nineFrames, length_append, length_replicate, length_be16, length_cons, length_nil]
  refine ⟨rfl, ?_, ?_, .inl rfl, by omega, by omega, by omega⟩
  · rw [hlength, payloadLen_nineFrames]
  · rw [hlength]
    decide

/-- All frames come at the same moment. -/
def atOnce (order : List Nat) : List (Nat × Nat) := order.map fun i => (i, 0)

/-- Its frames can be fed in any order. -/
theorem feeds_nineFrames {order : List Nat} (hperm : order.Perm (List.range 9)) :
    Feeds nineFrames 1280 0 .empty ((List.range 9).map (frameAt nineFrames 1280 0))
      (atOnce order) := by
  have hcount : frameCount nineFrames 1280 = 9 := rfl
  refine ⟨fragmentable_nineFrames, ?_, rfl, by decide, ?_, ?_⟩
  · rw [fragmentable_nineFrames.fragment_eq, hcount]
  · rw [length_map, atOnce]
    simpa [Function.comp_def] using hperm
  · intro first hfirst a ha
    obtain ⟨i, -, rfl⟩ := mem_map.mp ha
    exact lt_of_lt_of_le (by decide : 0 < lifetime) (Nat.le_add_left _ _)

/-- In reverse order the nine frames are delivered. -/
theorem reassembly_delivers_reversed :
    Feeds nineFrames 1280 0 .empty ((List.range 9).map (frameAt nineFrames 1280 0))
        (atOnce [8, 7, 6, 5, 4, 3, 2, 1, 0]) ∧
      Delivers .empty (fedIn ((List.range 9).map (frameAt nineFrames 1280 0))
        (atOnce [8, 7, 6, 5, 4, 3, 2, 1, 0])) nineFrames (keyOf nineFrames 0) :=
  ⟨feeds_nineFrames (by decide),
    (reassembly_delivers_iff (feeds_nineFrames (by decide))).mpr (by decide)⟩

/-- With every second frame first they are lost: the fifth of them would need a fifth range. -/
theorem alternating_frames_are_lost :
    Feeds nineFrames 1280 0 .empty ((List.range 9).map (frameAt nineFrames 1280 0))
        (atOnce [0, 2, 4, 6, 8, 1, 3, 5, 7]) ∧
      ¬Delivers .empty (fedIn ((List.range 9).map (frameAt nineFrames 1280 0))
        (atOnce [0, 2, 4, 6, 8, 1, 3, 5, 7])) nineFrames (keyOf nineFrames 0) :=
  ⟨feeds_nineFrames (by decide), (feeds_nineFrames (by decide)).silent (by decide)⟩

end ClashMeta.Ipv6
