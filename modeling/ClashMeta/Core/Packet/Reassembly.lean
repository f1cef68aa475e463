import ClashMeta.Core.Packet.Ipv6
import ClashMeta.Lib.Table

/-!
# Reassembly of IPv6 fragments

`Reassembly` of core/src/packet_ipv6.rs (lines 14-141): a table of unfinished packets, one for
each source, destination and identification, that is swept of what is thirty seconds old
before each fragment.

The assembler of `smoltcp` that keeps track of what has been received is a set of numbers in at
most four ranges.
-/

namespace ClashMeta.Ipv6

open List Slice RangeSet

/-- `MAX_PACKETS`. -/
def maxPackets : Nat := 64

/-- `LIFETIME`, in nanoseconds. -/
def lifetime : Nat := 30 * 10 ^ 9

/-! ## The assembler -/

/-- `smoltcp::storage::Assembler` with its default capacity. -/
structure Assembler where
  data : RangeSet
  room : data.length ≤ 4

namespace Assembler

/-- `Assembler::new`. -/
def new : Assembler := ⟨.empty, Nat.zero_le _⟩

/-- `Assembler::add`: refused when another range would be needed. -/
def add (a : Assembler) (offset size : Nat) : Option Assembler :=
  if hsize : 0 < size then
    let data := a.data.insert offset (offset + size) (Nat.lt_add_of_pos_right hsize)
    if hroom : data.length ≤ 4 then some ⟨data, hroom⟩ else none
  else some a

/-- `Assembler::iter_data`. -/
def iterData (a : Assembler) : List Extent := a.data.ranges

/-- `Assembler::peek_front`. -/
def peekFront (a : Assembler) : Nat := a.data.front

end Assembler

/-! ## One unfinished packet -/

/-- `Assembly`. -/
structure Assembly where
  created : Nat
  /-- `prefix`. -/
  head : List Byte
  previous : Nat
  next : Byte
  bytes : List Byte
  received : Assembler
  total : Option Nat
  rejected : Bool

namespace Assembly

/-- The entry made for the first fragment of a key (lines 87-96). -/
def new (f : Fragment) (now : Nat) : Except Panic Assembly := do
  let room ← sub maxPacket f.head.length
  return {
    created := now
    head := f.head
    previous := f.previous
    next := f.next
    bytes := List.replicate room 0
    received := .new
    total := none
    rejected := false }

/-- A fragment's end does not go with the total length (lines 109-111). -/
def Overruns (f : Fragment) (total : Nat) : Prop :=
  total < f.stop ∨ (f.more = false ∧ f.stop ≠ total) ∨ (f.more = true ∧ total ≤ f.stop)

instance (f : Fragment) (total : Nat) : Decidable (Overruns f total) :=
  inferInstanceAs (Decidable (_ ∨ _))

/-- `invalid` (lines 103-116). -/
def Invalid (v : Assembly) (f : Fragment) : Prop :=
  f.payload = [] ∨
  (f.more = true ∧ f.payload.length % 8 ≠ 0) ∨
  v.bytes.length < f.stop ∨
  v.head.length ≠ f.head.length ∨
  v.previous ≠ f.previous ∨
  v.next ≠ f.next ∨
  (∃ total ∈ v.total, Overruns f total) ∨
  (f.more = false ∧ ∃ r ∈ v.received.iterData, f.stop < r.hi) ∨
  ∃ r ∈ v.received.iterData, f.start < r.hi ∧ r.lo < f.stop

instance (v : Assembly) (f : Fragment) : Decidable (v.Invalid f) :=
  inferInstanceAs (Decidable (_ ∨ _))

/-- The packet is given up (lines 119-120). -/
def reject (v : Assembly) : Assembly := { v with rejected := true, bytes := [] }

/-- What becomes of an entry. -/
inductive Joined where
  | waits (v : Assembly)
  | done (packet : List Byte)

/-- The head is that of the first fragment once it is there (lines 123-125). -/
def headWith (v : Assembly) (f : Fragment) : Except Panic (List Byte) :=
  if f.start = 0 then copy v.head 0 v.head.length f.head else .ok v.head

/-- The packet of an entry that has its total length (lines 134-139). -/
def complete (v : Assembly) (total : Nat) : Except Panic Joined := do
  let data ← upTo v.bytes total
  let packet ← finish v.head v.previous v.next data
  return .done packet

/-- The fragment is copied in, and the packet returned if it is whole (lines 123-139). -/
def store (v : Assembly) (f : Fragment) (received : Assembler) : Except Panic Joined := do
  let head ← v.headWith f
  let bytes ← copy v.bytes f.start f.stop f.payload
  let total := if f.more then v.total else some f.stop
  let v := { v with head, bytes, received, total }
  match total with
  | none => return .waits v
  | some total =>
    if received.peekFront ≠ total then return .waits v
    else v.complete total

/-- A fragment and the entry of its key (lines 100-139). -/
def join (v : Assembly) (f : Fragment) : Except Panic Joined :=
  if v.rejected then .ok (.waits v)
  else if v.Invalid f then .ok (.waits v.reject)
  else
    match v.received.add f.start f.payload.length with
    | none => .ok (.waits v.reject)
    | some received => v.store f received

end Assembly

/-! ## The table -/

/-- `Reassembly`. -/
structure Reassembly where
  pending : Table Key Assembly

namespace Reassembly

/-- `Reassembly::default`. -/
def empty : Reassembly := ⟨∅⟩

/-- An entry that is not thirty seconds old. -/
def Young (now : Nat) (v : Assembly) : Prop := now - v.created < lifetime

instance (now : Nat) (v : Assembly) : Decidable (Young now v) := inferInstanceAs (Decidable (_ < _))

/-- `Reassembly::expire`. -/
def expire (q : Reassembly) (now : Nat) : Reassembly :=
  ⟨Table.filterMap (fun _ v => if Young now v then some v else none) q.pending⟩

/-- The entry of a fragment's key, a new one if there is none and there is room
(lines 81-99). -/
def entry (q : Reassembly) (f : Fragment) (now : Nat) : Except Panic (Option Assembly) :=
  match q.pending.lookup f.key with
  | some v => .ok (some v)
  | none =>
    if maxPackets ≤ Table.size q.pending ∨ maxPacket ≤ f.head.length then .ok none
    else do return some (← Assembly.new f now)

/-- What is returned for a fragment, and the table then. -/
def settle (q : Reassembly) (k : Key) : Assembly.Joined → Option (List Byte) × Reassembly
  | .waits v => (none, ⟨q.pending.insert k v⟩)
  | .done packet => (some packet, ⟨q.pending.erase k⟩)

/-- A fragment that is not the only one of its packet (lines 79-139). -/
def collect (q : Reassembly) (f : Fragment) (now : Nat) :
    Except Panic (Option (List Byte) × Reassembly) := do
  match ← (q.expire now).entry f now with
  | none => return (none, q.expire now)
  | some v =>
    let joined ← v.join f
    return (q.expire now).settle f.key joined

/-- `Reassembly::accept`. -/
def accept (q : Reassembly) (bytes : List Byte) (now : Nat) :
    Except Panic (Option (List Byte) × Reassembly) := do
  match ← parse bytes with
  | .ignored => return (none, q)
  | .whole bytes => return (some bytes, q)
  | .fragment f =>
    if f.Atomic then do
      let packet ← finish f.head f.previous f.next f.payload
      return (some packet, q)
    else q.collect f now

end Reassembly

/-! ## What an entry holds -/

/-- The fragments do not overlap. -/
abbrev Disjoint : Fragment → Fragment → Prop := Apart Fragment.start Fragment.stop

namespace Assembly

/-- What an entry that was not given up has received: the fragments agree on what is around the
payload, do not overlap, and are the windows of the buffer that are marked as received. -/
structure Holds (v : Assembly) (l : List Fragment) : Prop where
  forty_le : 40 ≤ v.head.length
  previous_lt : v.previous < v.head.length
  agrees : ∀ f ∈ l, f.head.length = v.head.length ∧ f.previous = v.previous ∧ f.next = v.next
  nonempty : ∀ f ∈ l, f.start < f.stop
  inside : ∀ f ∈ l, f.stop ≤ v.bytes.length
  disjoint : l.Pairwise Disjoint
  received : ∀ x, x ∈ v.received.data ↔ ∃ f ∈ l, f.start ≤ x ∧ x < f.stop
  shows : ∀ f ∈ l, window v.bytes f.start f.payload.length = f.payload
  first : ∀ f ∈ l, f.start = 0 → v.head = f.head
  total : ∀ t, v.total = some t ↔ ∃ f ∈ l, f.more = false ∧ f.stop = t
  within : ∀ t, v.total = some t → ∀ f ∈ l, f.stop ≤ t

/-- A fragment that is not invalid goes with what has been received. -/
structure Goes (v : Assembly) (f : Fragment) : Prop where
  nonempty : f.start < f.stop
  inside : f.stop ≤ v.bytes.length
  agrees : f.head.length = v.head.length ∧ f.previous = v.previous ∧ f.next = v.next
  total : ∀ t, v.total = some t → ¬Overruns f t
  last : f.more = false → ∀ x ∈ v.received.data, x < f.stop
  fresh : ∀ x, f.start ≤ x → x < f.stop → x ∉ v.received.data

theorem goes_of_not_invalid {v : Assembly} {f : Fragment} (h : ¬v.Invalid f) : v.Goes f := by
  unfold Invalid at h
  simp only [not_or, not_lt, ne_eq, not_not] at h
  obtain ⟨hpayload, -, hinside, hhead, hprevious, hnext, htotal, hlast, hfresh⟩ := h
  have hlt : f.start < f.stop := Nat.lt_add_of_pos_right (length_pos_iff.mpr hpayload)
  refine ⟨hlt, hinside, ⟨hhead.symm, hprevious.symm, hnext.symm⟩, ?_, ?_, ?_⟩
  · exact fun t ht hover => htotal ⟨t, ht, hover⟩
  · intro hmore x hx
    by_contra hle
    exact hlast ⟨hmore, exists_beyond_iff.mpr ⟨x, not_lt.mp hle, hx⟩⟩
  · intro x hlo hhi hx
    exact hfresh ((exists_overlap_iff hlt).mpr ⟨x, hlo, hhi, hx⟩)

/-- The entry that `new` makes. -/
def fresh (f : Fragment) (now : Nat) : Assembly where
  created := now
  head := f.head
  previous := f.previous
  next := f.next
  bytes := List.replicate (maxPacket - f.head.length) 0
  received := .new
  total := none
  rejected := false

theorem new_of_le {f : Fragment} {now : Nat} (h : f.head.length ≤ maxPacket) :
    new f now = .ok (fresh f now) := by
  unfold new
  rw [sub_of_le h]
  rfl

theorem holds_fresh {f : Fragment} (hfits : f.Fits) (now : Nat) : (fresh f now).Holds [] := by
  refine ⟨hfits.forty_le, hfits.previous_lt, ?_, ?_, ?_, .nil, ?_, ?_, ?_, ?_, ?_⟩
  · exact nofun
  · exact nofun
  · exact nofun
  · intro x
    exact ⟨fun hx => absurd hx (not_mem_empty x), fun ⟨_, hf, _⟩ => (nomatch hf)⟩
  · exact nofun
  · exact nofun
  · exact fun t => ⟨nofun, fun ⟨_, hf, _⟩ => (nomatch hf)⟩
  · exact nofun

/-- The entry with the fragment in it. -/
def stored (v : Assembly) (f : Fragment) (received : Assembler) : Assembly :=
  { v with
    head := if f.start = 0 then f.head else v.head
    bytes := splice v.bytes f.start f.payload
    received
    total := if f.more then v.total else some f.stop }

/-- A window that is added is marked. -/
theorem add_eq_some {a b : Assembler} {offset size : Nat} (hsize : 0 < size)
    (h : a.add offset size = some b) (x : Nat) :
    x ∈ b.data ↔ (offset ≤ x ∧ x < offset + size) ∨ x ∈ a.data := by
  unfold Assembler.add at h
  rw [dif_pos hsize] at h
  dsimp only at h
  split at h
  · cases h
    exact mem_insert (h := Nat.lt_add_of_pos_right hsize)
  · cases h

section

variable {v : Assembly} {l : List Fragment} {f : Fragment} {received : Assembler}

/-- It overlaps none of the others. -/
theorem Holds.disjoint_of_goes (h : v.Holds l) (hgoes : v.Goes f) {g : Fragment} (hg : g ∈ l) :
    Disjoint g f := by
  by_contra hover
  obtain ⟨hleft, hright⟩ := not_or.mp hover
  have hne := hgoes.nonempty
  have hne' := h.nonempty g hg
  -- the larger of the two starts is in both
  refine hgoes.fresh (max g.start f.start) (le_max_right _ _) (by omega) ?_
  exact (h.received _).mpr ⟨g, hg, le_max_left _ _, by omega⟩

/-- The total is where the last fragment ends. -/
theorem Holds.total_stored (h : v.Holds l) (hgoes : v.Goes f) (t : Nat) :
    (v.stored f received).total = some t ↔ ∃ g ∈ l ++ [f], g.more = false ∧ g.stop = t := by
  show (if f.more then v.total else some f.stop) = some t ↔ _
  simp only [mem_append, mem_singleton]
  cases hmore : f.more with
  | true =>
    rw [if_pos rfl, h.total t]
    constructor
    · exact fun ⟨g, hg, hlast⟩ => ⟨g, .inl hg, hlast⟩
    · rintro ⟨g, hg | rfl, hlast, hstop⟩
      · exact ⟨g, hg, hlast, hstop⟩
      · rw [hmore] at hlast
        cases hlast
  | false =>
    rw [if_neg nofun]
    constructor
    · exact fun ht => ⟨f, .inr rfl, hmore, Option.some.inj ht⟩
    · rintro ⟨g, hg | rfl, hlast, hstop⟩
      · -- an earlier last fragment ends where this one ends
        have htotal : v.total = some g.stop := (h.total _).mpr ⟨g, hg, hlast, rfl⟩
        have hover := hgoes.total _ htotal
        unfold Overruns at hover
        simp only [hmore, true_and, not_or, not_not] at hover
        rw [hover.2.1, hstop]
      · rw [hstop]

/-- No fragment goes beyond it. -/
theorem Holds.within_stored (h : v.Holds l) (hgoes : v.Goes f) {t : Nat}
    (ht : (v.stored f received).total = some t) : ∀ g ∈ l ++ [f], g.stop ≤ t := by
  simp only [forall_mem_append, forall_mem_singleton]
  replace ht : (if f.more then v.total else some f.stop) = some t := ht
  cases hmore : f.more with
  | true =>
    rw [hmore] at ht
    refine ⟨h.within t ht, ?_⟩
    have hover := hgoes.total t ht
    unfold Overruns at hover
    omega
  | false =>
    rw [hmore] at ht
    cases ht
    refine ⟨fun g hg => ?_, le_rfl⟩
    -- the last byte of an earlier fragment lies before the end
    have hne := h.nonempty g hg
    have hlast := hgoes.last hmore (g.stop - 1)
      ((h.received _).mpr ⟨g, hg, by omega, by omega⟩)
    omega

/-- **A stored fragment is held with the others.** -/
theorem Holds.stored (h : v.Holds l) (hgoes : v.Goes f)
    (hadd : v.received.add f.start f.payload.length = some received) :
    (v.stored f received).Holds (l ++ [f]) := by
  have hpayload : f.start + f.payload.length ≤ v.bytes.length := hgoes.inside
  have hbytes : (splice v.bytes f.start f.payload).length = v.bytes.length :=
    length_splice hpayload
  have hhead : (v.stored f received).head.length = v.head.length := by
    show (if f.start = 0 then f.head else v.head).length = _
    split
    · exact hgoes.agrees.1
    · rfl
  have hapart := fun g (hg : g ∈ l) => h.disjoint_of_goes hgoes hg
  constructor
  case forty_le => exact hhead.symm ▸ h.forty_le
  case previous_lt => exact hhead.symm ▸ h.previous_lt
  case agrees =>
    simp only [forall_mem_append, forall_mem_singleton, hhead]
    exact ⟨h.agrees, hgoes.agrees⟩
  case nonempty =>
    simp only [forall_mem_append, forall_mem_singleton]
    exact ⟨h.nonempty, hgoes.nonempty⟩
  case inside =>
    simp only [forall_mem_append, forall_mem_singleton]
    exact ⟨fun g hg => hbytes.symm ▸ h.inside g hg, hbytes.symm ▸ hgoes.inside⟩
  case disjoint =>
    rw [pairwise_append]
    refine ⟨h.disjoint, pairwise_singleton _ _, fun g hg f' hf' => ?_⟩
    rw [mem_singleton.mp hf']
    exact hapart g hg
  case received =>
    intro x
    have hsize : 0 < f.payload.length := by
      have hne := hgoes.nonempty
      unfold Fragment.stop at hne
      omega
    show x ∈ received.data ↔ _
    rw [add_eq_some hsize hadd, h.received]
    simp only [mem_append, mem_singleton, or_and_right, exists_or, exists_eq_left]
    exact or_comm
  case shows =>
    simp only [forall_mem_append, forall_mem_singleton]
    refine ⟨fun g hg => ?_, window_splice_self hpayload⟩
    -- the earlier windows are apart from what was written
    show window (splice v.bytes f.start f.payload) g.start g.payload.length = g.payload
    rw [window_splice_apart hpayload (hapart g hg), h.shows g hg]
  case first =>
    simp only [forall_mem_append, forall_mem_singleton]
    show (∀ g ∈ l, g.start = 0 → (if f.start = 0 then f.head else v.head) = g.head) ∧
      (f.start = 0 → (if f.start = 0 then f.head else v.head) = f.head)
    refine ⟨fun g hg hzero => ?_, fun hzero => if_pos hzero⟩
    -- two fragments at the start would overlap
    have hne := h.nonempty g hg
    have hne' := hgoes.nonempty
    have hfar : g.stop ≤ f.start ∨ f.stop ≤ g.start := hapart g hg
    rw [if_neg (by omega)]
    exact h.first g hg hzero
  case total => exact h.total_stored hgoes
  case within => exact fun t ht => h.within_stored hgoes ht

/-- **A packet that was made of fragments**: they follow each other from the first byte of the
payload to the last, and the head is that of the first. -/
def Whole (l : List Fragment) (packet : List Byte) : Prop :=
  ∃ order g total, order.Perm l ∧ g ∈ l ∧ g.start = 0 ∧
    Tiles Fragment.start Fragment.stop 0 order total ∧
    finish g.head g.previous g.next (order.flatMap Fragment.payload) = .ok packet

/-- Once the front has reached the total, the fragments tile the payload. -/
theorem Holds.whole (h : v.Holds l) {t : Nat} (ht : v.total = some t)
    (hfront : v.received.peekFront = t) :
    t ≤ v.bytes.length ∧
      ∃ packet, finish v.head v.previous v.next (v.bytes.take t) = .ok packet ∧
        Whole l packet := by
  obtain ⟨last, hlast, -, hstop⟩ := (h.total t).mp ht
  have hinside := h.inside last hlast
  have hpos : 0 < t := by
    have hne := h.nonempty last hlast
    omega
  obtain ⟨hall, -⟩ := (front_eq_iff hpos).mp hfront
  obtain ⟨order, hperm, htiles⟩ := exists_tiling h.nonempty h.disjoint
    (fun g hg => ⟨Nat.zero_le _, h.within t ht g hg⟩) (Nat.zero_le t)
    (fun x _ hx => (h.received x).mp (hall x hx))
  obtain ⟨-, hdata⟩ := take_of_tiles (fun g hg => h.shows g (hperm.mem_iff.mp hg)) htiles
  obtain ⟨g, hg, hstart, -⟩ := (h.received 0).mp (hall 0 hpos)
  have hzero : g.start = 0 := Nat.le_zero.mp hstart
  obtain ⟨-, hprevious, hnext⟩ := h.agrees g hg
  refine ⟨by omega, _, finish_of _ h.forty_le h.previous_lt, order, g, t, hperm, hg, hzero, htiles,
    ?_⟩
  rw [hprevious, hnext, ← h.first g hg hzero, ← hdata]
  exact finish_of _ h.forty_le h.previous_lt

theorem complete_of {packet : List Byte} {t : Nat} (hle : t ≤ v.bytes.length)
    (h : finish v.head v.previous v.next (v.bytes.take t) = .ok packet) :
    v.complete t = .ok (.done packet) := by
  unfold complete
  rw [upTo_of_le hle]
  show (finish v.head v.previous v.next _ >>= _) = _
  rw [h]
  rfl

/-- `store` does not panic. -/
theorem store_eq (hgoes : v.Goes f) :
    v.store f received =
      match (v.stored f received).total with
      | none => .ok (.waits (v.stored f received))
      | some total =>
        if (v.stored f received).received.peekFront ≠ total then .ok (.waits (v.stored f received))
        else (v.stored f received).complete total := by
  have hhead : v.headWith f = .ok (v.stored f received).head := by
    show _ = Except.ok (if f.start = 0 then f.head else v.head)
    have hlen := hgoes.agrees.1
    unfold headWith
    split
    · rw [copy_of (by omega) (by omega)]
      unfold splice
      rw [take_zero, nil_append, drop_of_length_le (by omega), append_nil]
    · rfl
  have hcopy : copy v.bytes f.start f.stop f.payload = .ok (splice v.bytes f.start f.payload) :=
    copy_of hgoes.inside rfl
  unfold store
  rw [hhead, hcopy]
  rfl

/-- What a fragment does to the entry of its key. -/
inductive Outcome (v : Assembly) (l : List Fragment) (f : Fragment) : Joined → Prop where
  /-- It is invalid, or there is no room for another range. -/
  | given (h : v.Invalid f ∨ v.received.add f.start f.payload.length = none) :
    Outcome v l f (.waits v.reject)
  | kept {received : Assembler} (hvalid : ¬v.Invalid f)
    (h : (v.stored f received).Holds (l ++ [f])) : Outcome v l f (.waits (v.stored f received))
  | done {packet : List Byte} (hvalid : ¬v.Invalid f) (hdisjoint : (l ++ [f]).Pairwise Disjoint)
    (h : Whole (l ++ [f]) packet) : Outcome v l f (.done packet)

/-- A fragment that joins is ignored, makes the packet be given up, is kept or completes it, and
never panics. -/
theorem Holds.join_outcome (h : v.Holds l) (hopen : v.rejected = false) (f : Fragment) :
    ∃ j, v.join f = .ok j ∧ Outcome v l f j := by
  unfold join
  rw [hopen, if_neg nofun]
  split
  · rename_i hinvalid
    exact ⟨_, rfl, .given (.inl hinvalid)⟩
  · rename_i hvalid
    have hgoes := goes_of_not_invalid hvalid
    split
    · rename_i hfull
      exact ⟨_, rfl, .given (.inr hfull)⟩
    · rename_i received hadd
      have hstored := h.stored hgoes hadd
      rw [store_eq hgoes]
      split
      · exact ⟨_, rfl, .kept hvalid hstored⟩
      · rename_i total htotal
        split
        · exact ⟨_, rfl, .kept hvalid hstored⟩
        · rename_i hfront
          obtain ⟨hle, packet, hpacket, hwhole⟩ := hstored.whole htotal (not_not.mp hfront)
          exact ⟨.done packet, complete_of hle hpacket, .done hvalid hstored.disjoint hwhole⟩

theorem join_rejected (h : v.rejected) (f : Fragment) : v.join f = .ok (.waits v) := by
  unfold join
  rw [if_pos h]

end

end Assembly

/-! ## The table around the entries -/

namespace Reassembly

variable {q : Reassembly} {now : Nat} {k : Key} {v : Assembly} {f : Fragment} {bytes : List Byte}

theorem lookup_expire_iff :
    (q.expire now).pending.lookup k = some v ↔ q.pending.lookup k = some v ∧ Young now v := by
  show (Table.filterMap _ q.pending).lookup k = some v ↔ _
  rw [Table.lookup_filterMap, Option.bind_eq_some_iff]
  constructor
  · rintro ⟨w, hw, hyoung⟩
    split at hyoung
    · cases hyoung
      exact ⟨hw, ‹_›⟩
    · cases hyoung
  · rintro ⟨hv, hyoung⟩
    exact ⟨v, hv, if_pos hyoung⟩

theorem young_of_lt {t₀ : Nat} (hcreated : v.created = t₀) (hnow : now < t₀ + lifetime) :
    Young now v := by
  unfold Young
  unfold lifetime at *
  omega

theorem lookup_expire_none (h : q.pending.lookup k = none) :
    (q.expire now).pending.lookup k = none := by
  show (Table.filterMap _ q.pending).lookup k = none
  rw [Table.lookup_filterMap, h]
  rfl

theorem size_expire_le : Table.size (q.expire now).pending ≤ Table.size q.pending :=
  Table.size_filterMap_le _ _

theorem entry_of_lookup (h : q.pending.lookup f.key = some v) : q.entry f now = .ok (some v) := by
  unfold entry
  rw [h]

theorem entry_of_room (h : q.pending.lookup f.key = none)
    (hroom : Table.size q.pending < maxPackets) (hhead : f.head.length < maxPacket) :
    q.entry f now = .ok (some (Assembly.fresh f now)) := by
  unfold entry
  rw [h]
  rw [if_neg (by omega), Assembly.new_of_le (by omega)]
  rfl

theorem collect_of_entry {j : Assembly.Joined} (hentry : (q.expire now).entry f now = .ok (some v))
    (hjoin : v.join f = .ok j) : q.collect f now = .ok ((q.expire now).settle f.key j) := by
  unfold collect
  rw [hentry]
  show (v.join f >>= _) = _
  rw [hjoin]
  rfl

/-- A fragment goes to the table. -/
theorem accept_of_fragment (hparse : parse bytes = .ok (.fragment f)) (hmany : ¬f.Atomic) :
    q.accept bytes now = q.collect f now := by
  unfold accept
  rw [hparse]
  show (if f.Atomic then _ else _) = _
  rw [if_neg hmany]

end Reassembly

end ClashMeta.Ipv6
