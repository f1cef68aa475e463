import ClashMeta.Config.Net
import ClashMeta.Lib.Checked
import ClashMeta.Lib.Lts
import ClashMeta.Lib.Table
import ClashMeta.Text

/-!
# Fake addresses

The fake-IP map of the resolver (core/src/dns.rs:184-224, 673-708): names get addresses from two
pools, counted up from offset 2, and an address maps back to its name. A saved map is imported
with its checks. Counters wrap at their width, as in the release build.
-/

namespace ClashMeta

open Table Except

/-- `fake_ip_range` and `fake_ip_range6`. -/
structure FakeConfig where
  range : Net 32
  range6 : Net 128

/-- `FakeMap`; the counters are a `u64` and a `u128`. -/
structure FakeMap where
  byName : Table (Str × Bool) IpAddr
  byIp : Table IpAddr Str
  next4 : Nat
  next6 : Nat

namespace FakeMap

/-- The map of a new resolver. -/
def new : FakeMap := ⟨∅, ∅, 2, 2⟩

/-- Both insertions of an entry. -/
def record (m : FakeMap) (host : Str) (ip : IpAddr) : FakeMap :=
  { m with byName := m.byName.insert (host, ip.isIpv6) ip, byIp := m.byIp.insert ip host }

/-- The limit on names (`by_name.len() < 32768`). -/
def capacity : Nat := 32768

end FakeMap

/-! ## Allocation -/

section

variable (cfg : FakeConfig) (m : FakeMap)

/-- The IPv6 branch of `fake_address`: `checked_add`, then the range, then the
increment. -/
def allocate6 : Except String (FakeMap × IpAddr) :=
  let net := cfg.range6
  let address := net.network + m.next6
  if 2 ^ 128 ≤ address then .error "fake-IP v6 pool exhausted"
  else
    let ip := BitVec.ofNat 128 address
    if net.contains ip then .ok ({ m with next6 := (m.next6 + 1) % 2 ^ 128 }, .v6 ip)
    else .error "fake-IP v6 pool exhausted"

/-- The IPv4 branch: a `u64` sum, `u32::try_from`, the range and its broadcast
address, then the increment. -/
def allocate4 : Except String (FakeMap × IpAddr) :=
  let net := cfg.range
  let address := (net.network + m.next4) % 2 ^ 64
  if 2 ^ 32 ≤ address then .error "fake-IP v4 pool exhausted"
  else
    let ip := BitVec.ofNat 32 address
    if net.contains ip ∧ ip.toNat ≠ net.broadcast then
      .ok ({ m with next4 := (m.next4 + 1) % 2 ^ 64 }, .v4 ip)
    else .error "fake-IP v4 pool exhausted"

/-- `Resolver::fake_address` (dns.rs:673-708). -/
def fakeAddress (host : Str) (v6 : Bool) : FakeMap × Except String IpAddr :=
  match m.byName.lookup (host, v6) with
  | some ip => (m, .ok ip)
  | none =>
    if FakeMap.capacity ≤ m.byName.size then
      (m, .error "fake-IP capacity reached; refusing to reuse live mappings")
    else
      match if v6 then allocate6 cfg m else allocate4 cfg m with
      | .error e => (m, .error e)
      | .ok (m, ip) => (m.record host ip, .ok ip)

end

/-! ## Import -/

section

variable (cfg : FakeConfig) (parseName : Str → Except String Unit)

/-- The checks of one saved entry on its pool (dns.rs:195-216): the counter moves
behind the entry. -/
def importCounters (m : FakeMap) : IpAddr → Except String FakeMap
  | .v4 a =>
    let net := cfg.range
    if ¬(net.contains a ∧ a.toNat ≠ net.broadcast) then .error "saved fake-IP outside pool"
    else
      let n := a.toNat - net.network
      if n < 2 then .error "reserved fake-IP"
      else .ok { m with next4 := max m.next4 (n + 1) }
  | .v6 a =>
    let net := cfg.range6
    if ¬net.contains a then .error "saved fake-IP outside pool"
    else
      let n := a.toNat - net.network
      if n < 2 then .error "reserved fake-IP"
      else if 2 ^ 128 ≤ n + 1 then .error "saved pool overflow"
      else .ok { m with next6 := max m.next6 (n + 1) }

/-- One round of the import loop. -/
def importEntry (m : FakeMap) (entry : Str × IpAddr) : Except String FakeMap := do
  parseName entry.1
  let name := normHost entry.1
  let m ← importCounters cfg m entry.2
  if m.byIp.lookup entry.2 = none ∧ m.byName.lookup (name, entry.2.isIpv6) = none then
    return m.record name entry.2
  else throw "duplicate saved fake-IP"

/-- `Resolver::import_fake` (dns.rs:184-224): the new map, or an error that leaves the
old one. `parseName` is the DNS library's name parser (`absolute_name`). -/
def importFake (entries : List (Str × IpAddr)) : Except String FakeMap :=
  if FakeMap.capacity < entries.length then .error "saved fake-IP capacity exceeded"
  else entries.foldlM (importEntry cfg parseName) FakeMap.new

end

/-- The map as a system whose steps are calls of `fake_address` for a host and a
family. -/
def fakeCalls (cfg : FakeConfig) : Lts FakeMap (Str × Bool) where
  init := FakeMap.new
  step m call := some (fakeAddress cfg m call.1 call.2).1

/-- The maps a run starts from: a new one, or one that the import accepts. -/
def Starts (cfg : FakeConfig) (parseName : Str → Except String Unit) (m : FakeMap) : Prop :=
  m = FakeMap.new ∨ ∃ entries, importFake cfg parseName entries = .ok m

/-! ## Consistency -/

/-- The offsets an address of a pool may have: from 2 on, below the end of the pool
and below the counter. -/
def InPool {w : Nat} (net : Net w) (next : Nat) (a : BitVec w) : Prop :=
  net.contains a = true ∧ net.network + 2 ≤ a.toNat ∧ a.toNat < net.network + next

/-- Where an address of the map lies: in its pool, and an IPv4 one is not the broadcast
address. -/
def Placed (cfg : FakeConfig) (m : FakeMap) : IpAddr → Prop
  | .v4 a => InPool cfg.range m.next4 a ∧ a.toNat ≠ cfg.range.broadcast
  | .v6 a => InPool cfg.range6 m.next6 a

/-- What the map keeps. -/
structure Consistent (cfg : FakeConfig) (m : FakeMap) : Prop where
  /-- A name and family find exactly the address that maps back to that name. -/
  inverse : ∀ host v6 ip,
    m.byName.lookup (host, v6) = some ip ↔ m.byIp.lookup ip = some host ∧ ip.isIpv6 = v6
  placed : ∀ ip host, m.byIp.lookup ip = some host → Placed cfg m ip
  /-- The number of names is bounded. -/
  room : m.byName.size ≤ FakeMap.capacity

/-- The call makes a new IPv6 mapping while the counter is at its last value. -/
def Overflows (m : FakeMap) (call : Str × Bool) : Prop :=
  call.2 = true ∧ m.byName.lookup call = none ∧ m.byName.size < FakeMap.capacity ∧
    m.next6 = 2 ^ 128 - 1

instance (m : FakeMap) (call : Str × Bool) : Decidable (Overflows m call) :=
  inferInstanceAs (Decidable (_ ∧ _ ∧ _ ∧ _))

/-- The step condition: the call does not overflow the counter. -/
def NoOverflow (m : FakeMap) (call : Str × Bool) : Prop := ¬Overflows m call

instance : DecidableRel NoOverflow := fun m call => inferInstanceAs (Decidable (¬Overflows m call))

/-! ## One call -/

section

variable {cfg : FakeConfig} {m m' : FakeMap} {host : Str} {v6 : Bool} {ip : IpAddr}

/-- What a call of `fake_address` can do: answer from the map, refuse without a
change, or record a new address. -/
inductive CallStep (cfg : FakeConfig) (m : FakeMap) (host : Str) (v6 : Bool) :
    FakeMap × Except String IpAddr → Prop
  | held {ip : IpAddr} (h : m.byName.lookup (host, v6) = some ip) :
      CallStep cfg m host v6 (m, .ok ip)
  | refused {e : String} : CallStep cfg m host v6 (m, .error e)
  | fresh {m' : FakeMap} {ip : IpAddr} (hname : m.byName.lookup (host, v6) = none)
      (hroom : m.byName.size < FakeMap.capacity)
      (halloc : (if v6 then allocate6 cfg m else allocate4 cfg m) = .ok (m', ip)) :
      CallStep cfg m host v6 (m'.record host ip, .ok ip)

/-- Every call does one of these. -/
theorem call_step (cfg : FakeConfig) (m : FakeMap) (host : Str) (v6 : Bool) :
    CallStep cfg m host v6 (fakeAddress cfg m host v6) := by
  unfold fakeAddress
  cases hname : m.byName.lookup (host, v6) with
  | some ip => exact .held hname
  | none =>
    by_cases hfull : FakeMap.capacity ≤ m.byName.size
    · simp only [if_pos hfull]
      exact .refused
    · simp only [if_neg hfull]
      cases halloc : if v6 then allocate6 cfg m else allocate4 cfg m with
      | error e => exact .refused
      | ok r => exact .fresh hname (not_le.mp hfull) halloc

/-- Only the counters moved, and they moved up. -/
structure Advanced (m m' : FakeMap) : Prop where
  byName : m'.byName = m.byName
  byIp : m'.byIp = m.byIp
  next4 : m.next4 ≤ m'.next4
  next6 : m.next6 ≤ m'.next6

/-- An address stays below a counter that moves up. -/
theorem Placed.advanced (h : Placed cfg m ip) (hadv : Advanced m m') : Placed cfg m' ip := by
  have h4 := hadv.next4
  have h6 := hadv.next6
  cases ip with
  | v4 a =>
    obtain ⟨⟨hin, hlow, hhigh⟩, hcast⟩ := h
    exact ⟨⟨hin, hlow, by omega⟩, hcast⟩
  | v6 a =>
    obtain ⟨hin, hlow, hhigh⟩ := h
    exact ⟨hin, hlow, by omega⟩

/-- The two maps are inverse exactly when the first is the index of the second by name
and family. -/
theorem inverse_iff :
    (∀ host v6 ip, m.byName.lookup (host, v6) = some ip ↔
      m.byIp.lookup ip = some host ∧ ip.isIpv6 = v6) ↔
    Table.Indexes (fun (ip : IpAddr) (host : Str) => (host, ip.isIpv6)) m.byName m.byIp := by
  unfold Table.Indexes
  rw [Prod.forall]
  refine forall_congr' fun host => forall_congr' fun v6 => forall_congr' fun ip => ?_
  refine iff_congr .rfl ⟨fun ⟨hip, hv6⟩ => ⟨host, hip, congrArg (Prod.mk host) hv6⟩, ?_⟩
  rintro ⟨x, hip, hkey⟩
  cases hkey
  exact ⟨hip, rfl⟩

/-- Recording an unused address of the pool for a new name keeps the map consistent. -/
theorem Consistent.record (h : Consistent cfg m) (hadv : Advanced m m')
    (hip : m.byIp.lookup ip = none) (hname : m.byName.lookup (host, ip.isIpv6) = none)
    (hroom : m.byName.size < FakeMap.capacity) (hplaced : Placed cfg m' ip) :
    Consistent cfg (m'.record host ip) where
  inverse := by
    rw [inverse_iff]
    show Table.Indexes _ (m'.byName.insert _ _) (m'.byIp.insert _ _)
    rw [hadv.byName, hadv.byIp]
    exact (inverse_iff.mp h.inverse).insert hip hname
  placed := by
    intro a owner ha
    show Placed cfg m' a
    change (m'.byIp.insert ip host).lookup a = some owner at ha
    rw [hadv.byIp] at ha
    obtain ⟨heq, -⟩ | ⟨-, ha⟩ := lookup_insert_cases ha
    · rwa [heq]
    · exact (h.placed a owner ha).advanced hadv
  room := by
    show Table.size (m'.byName.insert _ _) ≤ _
    rw [hadv.byName, size_insert_of_lookup_none hname]
    exact hroom

/-- The whole invariant: consistency, and counters that stay far from wrapping (IPv4)
or within the pool (IPv6). -/
structure FakeInv (cfg : FakeConfig) (m : FakeMap) : Prop extends Consistent cfg m where
  low4 : 2 ≤ m.next4
  high4 : m.next4 ≤ 2 ^ 32
  low6 : 2 ≤ m.next6
  high6 : m.next6 < 2 ^ 128
  top6 : m.next6 ≤ max 2 cfg.range6.hosts

/-- A new address stands at the counter of its family, which moves on by one. -/
inductive Allocated (cfg : FakeConfig) (m : FakeMap) : Bool → FakeMap → IpAddr → Prop
  | v4 {a : BitVec 32} (hoff : a.toNat = cfg.range.network + m.next4)
      (hin : cfg.range.contains a = true) (hcast : a.toNat ≠ cfg.range.broadcast) :
      Allocated cfg m false { m with next4 := m.next4 + 1 } (.v4 a)
  | v6 {a : BitVec 128} (hoff : a.toNat = cfg.range6.network + m.next6)
      (hin : cfg.range6.contains a = true) :
      Allocated cfg m true { m with next6 := m.next6 + 1 } (.v6 a)

/-- The IPv4 branch: the `u64` sum does not wrap. -/
theorem allocated_of_allocate4 (h : FakeInv cfg m) (halloc : allocate4 cfg m = .ok (m', ip)) :
    Allocated cfg m false m' ip := by
  have hhigh := h.high4
  have hnet := cfg.range.network_add_hosts_le
  have hsum : (cfg.range.network + m.next4) % 2 ^ 64 = cfg.range.network + m.next4 :=
    Nat.mod_eq_of_lt (by omega)
  have hnext : (m.next4 + 1) % 2 ^ 64 = m.next4 + 1 := Nat.mod_eq_of_lt (by omega)
  simp only [allocate4, hsum, hnext] at halloc
  split at halloc
  · cases halloc
  · rename_i hbig
    split at halloc
    · rename_i hin
      cases halloc
      exact .v4 (Nat.mod_eq_of_lt (not_le.mp hbig)) hin.1 hin.2
    · cases halloc

/-- The IPv6 branch, off the last value of the counter. -/
theorem allocated_of_allocate6 (h : FakeInv cfg m) (hlast : m.next6 ≠ 2 ^ 128 - 1)
    (halloc : allocate6 cfg m = .ok (m', ip)) : Allocated cfg m true m' ip := by
  have hhigh := h.high6
  have hnext : (m.next6 + 1) % 2 ^ 128 = m.next6 + 1 := Nat.mod_eq_of_lt (by omega)
  simp only [allocate6, hnext] at halloc
  split at halloc
  · cases halloc
  · rename_i hbig
    split at halloc
    · rename_i hin
      cases halloc
      exact .v6 (Nat.mod_eq_of_lt (not_le.mp hbig)) hin
    · cases halloc

theorem Allocated.advanced (h : Allocated cfg m v6 m' ip) : Advanced m m' := by
  cases h with
  | v4 => exact ⟨rfl, rfl, Nat.le_succ _, le_rfl⟩
  | v6 => exact ⟨rfl, rfl, le_rfl, Nat.le_succ _⟩

theorem Allocated.isIpv6 (h : Allocated cfg m v6 m' ip) : ip.isIpv6 = v6 := by
  cases h <;> rfl

section

variable (halloc : Allocated cfg m v6 m' ip)
include halloc

/-- The new address lies in its pool. -/
theorem Allocated.placed (h : FakeInv cfg m) : Placed cfg m' ip := by
  have h4 := h.low4
  have h6 := h.low6
  cases halloc with
  | v4 hoff hin hcast =>
    refine ⟨⟨hin, by omega, ?_⟩, hcast⟩
    rw [hoff]
    exact Nat.add_lt_add_left (lt_add_one _) _
  | v6 hoff hin =>
    refine ⟨hin, by omega, ?_⟩
    rw [hoff]
    exact Nat.add_lt_add_left (lt_add_one _) _

/-- It lies above all that are in use. -/
theorem Allocated.unused (h : FakeInv cfg m) : m.byIp.lookup ip = none := by
  cases hused : m.byIp.lookup ip with
  | none => rfl
  | some owner =>
    have hplaced := h.placed ip owner hused
    cases halloc with
    | v4 hoff =>
      have hlt := hplaced.1.2.2
      omega
    | v6 hoff =>
      have hlt := hplaced.2.2
      omega

/-- Recording it keeps the invariant. -/
theorem Allocated.inv (h : FakeInv cfg m)
    (hlast : v6 = true → m.next6 ≠ 2 ^ 128 - 1) (hname : m.byName.lookup (host, v6) = none)
    (hroom : m.byName.size < FakeMap.capacity) : FakeInv cfg (m'.record host ip) := by
  have hfree : m.byName.lookup (host, ip.isIpv6) = none := by rwa [halloc.isIpv6]
  have hcons : Consistent cfg (m'.record host ip) :=
    h.toConsistent.record halloc.advanced (halloc.unused h) hfree hroom (halloc.placed h)
  have hlow4 := h.low4
  have hlow6 := h.low6
  have hhigh6 := h.high6
  cases halloc with
  | @v4 a hoff hin hcast =>
    refine ⟨hcons, Nat.le_succ_of_le hlow4, ?_, hlow6, hhigh6, h.top6⟩
    show m.next4 + 1 ≤ 2 ^ 32
    omega
  | @v6 a hoff hin =>
    have hin' := Net.contains_iff.mp hin
    have hne := hlast rfl
    refine ⟨hcons, hlow4, h.high4, Nat.le_succ_of_le hlow6, ?_, ?_⟩
    · show m.next6 + 1 < 2 ^ 128
      omega
    · show m.next6 + 1 ≤ max 2 cfg.range6.hosts
      omega

end

/-! ## Imported maps -/

/-- The checks on a saved address put it below its counter. -/
theorem importCounters_ok (h : FakeInv cfg m) (hok : importCounters cfg m ip = .ok m') :
    Advanced m m' ∧ Placed cfg m' ip ∧ m'.next4 ≤ 2 ^ 32 ∧ m'.next6 < 2 ^ 128 ∧
      m'.next6 ≤ max 2 cfg.range6.hosts := by
  have hhigh4 := h.high4
  have hhigh6 := h.high6
  have htop6 := h.top6
  -- the counter of its family moves behind the address
  cases ip with
  | v4 a =>
    simp only [importCounters] at hok
    split at hok
    · cases hok
    · rename_i hin
      obtain ⟨hin, hcast⟩ := not_not.mp hin
      split at hok
      · cases hok
      · rename_i hlow
        cases hok
        refine ⟨⟨rfl, rfl, le_max_left _ _, le_rfl⟩, ⟨⟨hin, by omega, ?_⟩, hcast⟩, ?_,
          hhigh6, htop6⟩
        · show a.toNat < cfg.range.network + max m.next4 (a.toNat - cfg.range.network + 1)
          omega
        · show max m.next4 (a.toNat - cfg.range.network + 1) ≤ 2 ^ 32
          omega
  | v6 a =>
    simp only [importCounters] at hok
    split at hok
    · cases hok
    · rename_i hin
      split at hok
      · cases hok
      · split at hok
        · cases hok
        · have hin' := Net.contains_iff.mp (not_not.mp hin)
          cases hok
          refine ⟨⟨rfl, rfl, le_rfl, le_max_left _ _⟩,
            ⟨not_not.mp hin, by omega, ?_⟩, hhigh4, ?_, ?_⟩
          · show a.toNat < cfg.range6.network + max m.next6 (a.toNat - cfg.range6.network + 1)
            omega
          · show max m.next6 (a.toNat - cfg.range6.network + 1) < 2 ^ 128
            omega
          · show max m.next6 (a.toNat - cfg.range6.network + 1) ≤ max 2 cfg.range6.hosts
            omega

variable {parseName : Str → Except String Unit}

/-- An imported entry keeps the invariant and is one more name. -/
theorem importEntry_ok {entry : Str × IpAddr} (h : FakeInv cfg m)
    (hroom : m.byName.size < FakeMap.capacity) (hok : importEntry cfg parseName m entry = .ok m') :
    FakeInv cfg m' ∧ m'.byName.size = m.byName.size + 1 := by
  obtain ⟨-, -, hok⟩ := bind_eq_ok_iff.mp hok
  obtain ⟨m₁, hcount, hok⟩ := bind_eq_ok_iff.mp hok
  obtain ⟨hadv, hplaced, hhigh4, hhigh6, htop6⟩ := importCounters_ok h hcount
  split at hok
  · rename_i hnew
    rw [hadv.byIp, hadv.byName] at hnew
    cases hok
    have hcons := h.toConsistent.record hadv hnew.1 hnew.2 hroom hplaced
    refine ⟨⟨hcons, le_trans h.low4 hadv.next4, hhigh4, le_trans h.low6 hadv.next6,
      hhigh6, htop6⟩, ?_⟩
    show Table.size (m₁.byName.insert _ _) = _
    rw [hadv.byName, size_insert_of_lookup_none hnew.2]
  · cases hok

/-- A new map. -/
theorem fakeInv_new : FakeInv cfg FakeMap.new where
  inverse := inverse_iff.mpr indexes_empty
  placed := nofun
  room := Nat.zero_le _
  low4 := Nat.le_refl 2
  high4 := by decide
  low6 := Nat.le_refl 2
  high6 := by decide
  top6 := le_max_left _ _

/-- The import loop keeps the invariant, by induction on the entries. -/
theorem importLoop_ok (entries : List (Str × IpAddr)) (m : FakeMap) (h : FakeInv cfg m)
    (hroom : m.byName.size + entries.length ≤ FakeMap.capacity)
    (hok : entries.foldlM (importEntry cfg parseName) m = .ok m') : FakeInv cfg m' := by
  induction entries generalizing m with
  | nil =>
    cases hok
    exact h
  | cons entry rest ih =>
    rw [List.foldlM_cons] at hok
    rw [List.length_cons] at hroom
    obtain ⟨m₁, hentry, hok⟩ := bind_eq_ok_iff.mp hok
    obtain ⟨hinv, hsize⟩ := importEntry_ok h (by omega) hentry
    exact ih m₁ hinv (by omega) hok

/-- A run starts in the invariant. -/
theorem fakeInv_of_starts (h : Starts cfg parseName m) : FakeInv cfg m := by
  rcases h with rfl | ⟨entries, hok⟩
  · exact fakeInv_new
  · unfold importFake at hok
    split at hok
    · cases hok
    · rename_i hlen
      refine importLoop_ok entries FakeMap.new fakeInv_new ?_ hok
      show 0 + entries.length ≤ _
      omega

/-! ## Runs -/

/-- What the caller sees of one call: an address that the map now holds both ways, with
counters that did not wrap; or an error and an unchanged map. -/
def Answered (m : FakeMap) (host : Str) (v6 : Bool) : FakeMap × Except String IpAddr → Prop
  | (m', .ok ip) => m'.byName.lookup (host, v6) = some ip ∧ m'.byIp.lookup ip = some host ∧
      m.next4 ≤ m'.next4 ∧ m.next6 ≤ m'.next6
  | (m', .error _) => m' = m

/-- One call without an overflow: the invariant is kept, old names keep their
addresses, and the caller is answered. -/
theorem fakeAddress_step (h : FakeInv cfg m) (hok : NoOverflow m (host, v6)) :
    FakeInv cfg (fakeAddress cfg m host v6).1 ∧
    (∀ k ip, m.byName.lookup k = some ip →
      (fakeAddress cfg m host v6).1.byName.lookup k = some ip) ∧
    Answered m host v6 (fakeAddress cfg m host v6) := by
  have hcall := call_step cfg m host v6
  generalize fakeAddress cfg m host v6 = result at hcall ⊢
  cases hcall with
  | held hname =>
    exact ⟨h, fun _ _ hk => hk, hname, ((h.inverse host v6 _).mp hname).1, le_rfl,
      le_rfl⟩
  | refused => exact ⟨h, fun _ _ hk => hk, rfl⟩
  | @fresh m' ip hname hroom halloc =>
    have hlast : v6 = true → m.next6 ≠ 2 ^ 128 - 1 :=
      fun hv6 hlast => hok ⟨hv6, hname, hroom, hlast⟩
    have hnew : Allocated cfg m v6 m' ip := by
      cases v6 with
      | false => exact allocated_of_allocate4 h halloc
      | true => exact allocated_of_allocate6 h (hlast rfl) halloc
    refine ⟨hnew.inv h hlast hname hroom, fun k a hk => ?_, ?_, ?_, hnew.advanced.next4,
      hnew.advanced.next6⟩
    · show (m'.byName.insert (host, ip.isIpv6) ip).lookup k = some a
      rw [lookup_insert_if, hnew.isIpv6, hnew.advanced.byName, if_neg, hk]
      rintro rfl
      rw [hname] at hk
      cases hk
    · show (m'.byName.insert (host, ip.isIpv6) ip).lookup (host, v6) = some ip
      rw [lookup_insert_if, hnew.isIpv6, if_pos rfl]
    · show (m'.byIp.insert ip host).lookup ip = some host
      rw [lookup_insert_if, if_pos rfl]

/-- The call that overflows the counter records the last address of `::/0` and leaves the
counter before it. -/
theorem not_consistent_of_overflows (h : FakeInv cfg m) (hover : Overflows m (host, v6)) :
    ¬Consistent cfg (fakeAddress cfg m host v6).1 := by
  obtain ⟨rfl, hname, hroom, hlast⟩ := hover
  -- a counter this high needs the whole address space as its pool
  have hhosts : cfg.range6.hosts = 2 ^ 128 := by
    obtain ⟨k, hk⟩ := cfg.range6.hosts_dvd
    have htop := h.top6
    rcases k with - | - | k
    · simp at hk
    · omega
    · have : cfg.range6.hosts * 2 ≤ cfg.range6.hosts * (k + 1 + 1) :=
        Nat.mul_le_mul_left _ (by omega)
      omega
  have hnet : cfg.range6.network = 0 := by
    have := cfg.range6.network_add_hosts_le
    omega
  have hin : cfg.range6.contains (BitVec.ofNat 128 (2 ^ 128 - 1)) = true := by
    rw [Net.contains_iff]
    omega
  have halloc : allocate6 cfg m =
      .ok ({ m with next6 := 0 }, .v6 (BitVec.ofNat 128 (2 ^ 128 - 1))) := by
    simp only [allocate6, hnet, hlast, zero_add]
    rw [if_pos hin]
    rfl
  intro hcons
  unfold fakeAddress at hcons
  simp only [hname, if_neg (Nat.not_le_of_lt hroom), if_true, halloc] at hcons
  have hplaced := hcons.placed (.v6 (BitVec.ofNat 128 (2 ^ 128 - 1))) host
    (by rw [FakeMap.record, lookup_insert_if, if_pos rfl])
  have hlt := hplaced.2.2
  rw [hnet] at hlt
  exact Nat.not_lt_zero _ hlt

end

/-- **The fake-IP map is consistent** along every run, from a new or an imported map, in
which no call makes an IPv6 mapping while the counter is at its last value: the two
maps are inverse, every address lies in its pool below the counter, distinct names
or families have distinct addresses and keep them, every call is answered from the
map or leaves it unchanged, and the counters never wrap. The condition is exact: a
call that breaks it breaks consistency. -/
theorem fake_pool_consistent {cfg : FakeConfig} {parseName : Str → Except String Unit}
    {m₀ m : FakeMap} (hstart : Starts cfg parseName m₀)
    (hrun : (fakeCalls cfg).Reaches NoOverflow m₀ m) :
    Consistent cfg m ∧
    (∀ k j ip, m.byName.lookup k = some ip → m.byName.lookup j = some ip → k = j) ∧
    (∀ m', (fakeCalls cfg).Reaches NoOverflow m m' →
      ∀ k ip, m.byName.lookup k = some ip → m'.byName.lookup k = some ip) ∧
    (∀ host v6, NoOverflow m (host, v6) → Answered m host v6 (fakeAddress cfg m host v6)) ∧
    (∀ host v6, Overflows m (host, v6) → ¬Consistent cfg (fakeAddress cfg m host v6).1) := by
  have hstep : ∀ {s t : FakeMap} {call : Str × Bool}, FakeInv cfg s → NoOverflow s call →
      (fakeCalls cfg).step s call = some t → FakeInv cfg t := by
    intro s t call hs hok ht
    cases ht
    exact (fakeAddress_step hs hok).1
  have hinv : FakeInv cfg m := hrun.invariant (fakeInv_of_starts hstart) hstep
  refine ⟨hinv.toConsistent, fun k j ip => (inverse_iff.mp hinv.inverse).injective, ?_,
    fun host v6 hok => (fakeAddress_step hinv hok).2.2,
    fun host v6 hover => not_consistent_of_overflows hinv hover⟩
  intro m' hlater k ip hk
  have hboth : FakeInv cfg m' ∧ m'.byName.lookup k = some ip := by
    refine hlater.invariant (I := fun s => FakeInv cfg s ∧ s.byName.lookup k = some ip)
      ⟨hinv, hk⟩ ?_
    rintro s t call ⟨hs, hks⟩ hok ht
    cases ht
    obtain ⟨hnext, hkeep, -⟩ := fakeAddress_step hs hok
    exact ⟨hnext, hkeep k ip hks⟩
  exact hboth.2

/-- The default IPv4 pool `198.18.0.0/16`, with all of IPv6 as the other pool. -/
def wholeRange : FakeConfig := ⟨.slash 0xc6120000 16, .slash 0 0⟩

/-- The map with one name. -/
def oneName : FakeMap := (fakeAddress wholeRange FakeMap.new "a.test" false).1

/-- The first of two names keeps its address when the second gets one, in another family too. -/
theorem fake_pool_consistent_twoNames :
    ∃ m, Consistent wholeRange oneName ∧ (fakeCalls wholeRange).Reaches NoOverflow oneName m ∧
      m.byName.lookup ("a.test".toList, false) = some (.v4 0xc6120002) ∧
      m.byName.lookup ("b.test".toList, false) = some (.v4 0xc6120003) := by
  have hrun : (fakeCalls wholeRange).Reaches NoOverflow FakeMap.new oneName :=
    Lts.run_reaches [("a.test", false)] rfl
  have hlater : (fakeCalls wholeRange).Reaches NoOverflow oneName _ :=
    Lts.run_reaches [("a.test", true), ("b.test", false)] rfl
  obtain ⟨hcons, -, hkept, -⟩ := fake_pool_consistent
    (show Starts wholeRange (fun _ => .ok ()) FakeMap.new from .inl rfl) hrun
  exact ⟨_, hcons, hlater, hkept _ hlater _ _ rfl, rfl⟩

/-- An imported entry one below the last address is accepted; the next IPv6 mapping takes
the last address and wraps the counter to 0. -/
theorem imported_pool_wraps :
    ∃ m, importFake wholeRange (fun _ => .ok ())
        [("saved.test", .v6 (BitVec.ofNat 128 (2 ^ 128 - 2)))] = .ok m ∧
      (fakeAddress wholeRange m "new.test" true).1.next6 = 0 ∧
      ¬Consistent wholeRange (fakeAddress wholeRange m "new.test" true).1 := by
  refine ⟨_, rfl, rfl, fun h => ?_⟩
  have hlt := (h.placed (.v6 (BitVec.ofNat 128 (2 ^ 128 - 1))) "new.test" rfl).2.2
  exact absurd hlt (by decide)

end ClashMeta
