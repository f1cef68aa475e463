import ClashMeta.Basic

/-!
# Networks

`ipnet::Ipv4Net`, `ipnet::Ipv6Net` and `ipnet::IpNet` as the crate documents
them: an address with a prefix length that fits its width. `network` clears the
host bits, `broadcast` sets them, and an address is contained when it lies
between the two. Both are given as numbers, which is how the source computes
with them (`u32::from`, `u128::from`).
-/

namespace ClashMeta

/-- A network of `w`-bit addresses. -/
structure Net (w : Nat) where
  addr : BitVec w
  prefixLen : Nat
  prefix_le : prefixLen ≤ w
  deriving DecidableEq

namespace Net

variable {w : Nat}

/-- A network as it is written, `addr/len`. -/
def slash (addr : BitVec w) (len : Nat) : Net w := ⟨addr, min len w, Nat.min_le_right len w⟩

/-- The number of addresses that share the network part. -/
def hosts (n : Net w) : Nat := 2 ^ (w - n.prefixLen)

/-- `network()`: the host bits cleared. -/
def network (n : Net w) : Nat := n.addr.toNat / n.hosts * n.hosts

/-- `broadcast()`: the host bits set. -/
def broadcast (n : Net w) : Nat := n.network + (n.hosts - 1)

/-- `network()` as an address. -/
def networkAddr (n : Net w) : BitVec w := BitVec.ofNat w n.network

/-- `trunc()`: the network without host bits. -/
def trunc (n : Net w) : Net w := { n with addr := n.networkAddr }

/-- `contains`. -/
def contains (n : Net w) (a : BitVec w) : Bool :=
  n.network ≤ a.toNat && a.toNat ≤ n.broadcast

theorem hosts_pos (n : Net w) : 0 < n.hosts := Nat.two_pow_pos _

theorem hosts_dvd (n : Net w) : n.hosts ∣ 2 ^ w :=
  Nat.pow_dvd_pow 2 (Nat.sub_le w n.prefixLen)

theorem network_add_hosts_le (n : Net w) : n.network + n.hosts ≤ 2 ^ w := by
  obtain ⟨k, hk⟩ := n.hosts_dvd
  have hlt : n.addr.toNat / n.hosts < k := by
    rw [Nat.div_lt_iff_lt_mul n.hosts_pos, mul_comm, ← hk]
    exact n.addr.isLt
  calc n.network + n.hosts = (n.addr.toNat / n.hosts + 1) * n.hosts := by
        rw [network, add_mul, one_mul]
    _ ≤ k * n.hosts := Nat.mul_le_mul_right _ hlt
    _ = 2 ^ w := by rw [hk, mul_comm]

theorem contains_iff {n : Net w} {a : BitVec w} :
    n.contains a = true ↔ n.network ≤ a.toNat ∧ a.toNat < n.network + n.hosts := by
  have hpos := n.hosts_pos
  unfold contains broadcast
  rw [Bool.and_eq_true, decide_eq_true_iff, decide_eq_true_iff]
  omega

theorem toNat_networkAddr (n : Net w) : n.networkAddr.toNat = n.network := by
  have hfits := n.network_add_hosts_le
  have hpos := n.hosts_pos
  exact Nat.mod_eq_of_lt (by omega)

theorem networkAddr_trunc (n : Net w) : n.trunc.networkAddr = n.networkAddr := by
  show BitVec.ofNat w (n.networkAddr.toNat / n.hosts * n.hosts) = _
  rw [toNat_networkAddr, network, Nat.mul_div_cancel _ n.hosts_pos]
  rfl

end Net

/-- A network of either family. -/
inductive IpNet where
  | v4 (net : Net 32)
  | v6 (net : Net 128)
  deriving DecidableEq

namespace IpNet

/-- `IpNet::network`. -/
def networkAddr : IpNet → IpAddr
  | v4 n => .v4 n.networkAddr
  | v6 n => .v6 n.networkAddr

/-- `IpNet::prefix_len`. -/
def prefixLen : IpNet → Nat
  | v4 n => n.prefixLen
  | v6 n => n.prefixLen

/-- `IpNet::trunc`. -/
def trunc : IpNet → IpNet
  | v4 n => v4 n.trunc
  | v6 n => v6 n.trunc

@[simp] theorem networkAddr_trunc (n : IpNet) : n.trunc.networkAddr = n.networkAddr := by
  cases n with
  | v4 n => exact congrArg IpAddr.v4 n.networkAddr_trunc
  | v6 n => exact congrArg IpAddr.v6 n.networkAddr_trunc

@[simp] theorem prefixLen_trunc (n : IpNet) : n.trunc.prefixLen = n.prefixLen := by
  cases n <;> rfl

/-- `IpNet::contains`: families do not mix. -/
def contains : IpNet → IpAddr → Bool
  | .v4 n, .v4 a => n.contains a
  | .v6 n, .v6 a => n.contains a
  | _, _ => false

end IpNet

end ClashMeta
