import Mathlib.Data.List.Sort
import ClashMeta.Lib.Runs
import ClashMeta.Platform.RouteUpdate

/-!
# The desired routes of a TUN (platform/src/desktop.rs:433-555)

`DesktopTun::desired_routes` puts the routes together from four sources: the halves of the
address space and the DNS servers, which go into the tunnel, and the built-in and the
configured exclusions, which go out through the physical exits. It then drops every spec that
equals its left neighbour.

That leaves one OS route twice when a source repeats it at a distance or in two spellings, or
when two sources name it.
-/

namespace ClashMeta.Tun

open List RouteSpec IpNet
open Option hiding map_id map_map any_eq_true

/-- `Network`: what `discover` found. -/
structure Network where
  ipv4 : Option ExitInterface
  ipv6 : Option ExitInterface
  dnsServers : List IpAddr
  localNetworks : List IpNet

/-- `DesktopTun`, as far as the routes depend on it. -/
structure DesktopTun where
  network : Network
  tunnel : ExitInterface
  exclusions : List IpNet
  autoRoute : Bool
  ipv6 : Bool
  captureDns : Bool

/-- `Vec::dedup`. -/
def dedup {α : Type} [DecidableEq α] (l : List α) : List α := l.destutter (· ≠ ·)

/-- The family of a network: `addr().is_ipv6()`. -/
def isIpv6 : IpNet → Bool
  | .v4 _ => false
  | .v6 _ => true

/-- The place of a network in the order of `IpNet`: IPv4 first, then by the address, then by
the prefix length. -/
def netRank : IpNet → Nat
  | .v4 n => n.addr.toNat * 256 + n.prefixLen
  | .v6 n => 2 ^ 48 + n.addr.toNat * 256 + n.prefixLen

/-- `sort` of a vector of networks. -/
def sortNets (nets : List IpNet) : List IpNet :=
  nets.insertionSort fun a b => netRank a ≤ netRank b

/-- The destinations that are always local: `169.254.0.0/16`, `224.0.0.0/4`,
`255.255.255.255/32`, `fe80::/10` and `ff00::/8`. -/
def alwaysLocal : List IpNet :=
  [.v4 (.slash 0xa9fe0000 16), .v4 (.slash 0xe0000000 4),
    .v4 (.slash 0xffffffff 32), .v6 (.slash (0xfe80 <<< 112) 10),
    .v6 (.slash (0xff00 <<< 112) 8)]

/-- `built_in_local_exclusions`. -/
def builtInLocalExclusions (network : Network) (ipv6 : Bool) : List IpNet :=
  let prefixes := network.localNetworks.map IpNet.trunc ++
    alwaysLocal.filter fun net => !isIpv6 net || ipv6
  dedup (sortNets (prefixes.filter fun net => !isIpv6 net || ipv6))

/-- The exit for the family of a network. -/
def Network.exit (network : Network) (net : IpNet) : Option ExitInterface :=
  if isIpv6 net then network.ipv6 else network.ipv4

/-- The halves of the address spaces: `0.0.0.0/1`, `128.0.0.0/1`, `::/1` and `8000::/1`. -/
def halves : List IpNet :=
  [.v4 (.slash 0 1), .v4 (.slash 0x80000000 1), .v6 (.slash 0 1),
    .v6 (.slash (0x8000 <<< 112) 1)]

/-- The network of one host. -/
def hostNet : IpAddr → IpNet
  | .v4 a => .v4 (.slash a 32)
  | .v6 a => .v6 (.slash a 128)

namespace DesktopTun

variable (tun : DesktopTun)

/-- The DNS servers that are captured. -/
def capturedServers : List IpAddr :=
  if tun.captureDns then tun.network.dnsServers.filter fun ip => !ip.isIpv6 || tun.ipv6 else []

/-- A spec into the tunnel. -/
def throughTunnel (net : IpNet) : RouteSpec := ⟨net, tun.tunnel⟩

/-- A spec through the exit of its family, on-link: without the gateway. -/
def onLink (net : IpNet) : Option RouteSpec :=
  (tun.network.exit net).map fun interface => ⟨net, { interface with gateway := none }⟩

/-- A spec through the exit of its family. -/
def throughExit (net : IpNet) : Option RouteSpec :=
  (tun.network.exit net).map fun interface => ⟨net, interface⟩

/-- The networks that go into the tunnel. -/
def tunnelNets : List IpNet :=
  (halves.filter fun net => !isIpv6 net || tun.ipv6) ++ tun.capturedServers.map hostNet

/-- The specs into the tunnel. -/
def captured : List RouteSpec := tun.tunnelNets.map tun.throughTunnel

/-- The specs of the built-in exclusions. -/
def localSpecs : List RouteSpec :=
  (builtInLocalExclusions tun.network tun.ipv6).filterMap tun.onLink

/-- The specs of the configured exclusions, as they are configured. -/
def excludedSpecs : List RouteSpec := tun.exclusions.filterMap tun.throughExit

/-- `DesktopTun::desired_routes`. The texts and lengths it parses are constants. -/
def desiredRoutes : List RouteSpec :=
  if tun.autoRoute then dedup (tun.captured ++ tun.localSpecs ++ tun.excludedSpecs) else []

end DesktopTun

/-! ## Networks and OS routes -/

/-- Two networks are one if their address and their length are. -/
theorem Net.ext_of_toNat {w : Nat} {a b : Net w} (haddr : a.addr.toNat = b.addr.toNat)
    (hlen : a.prefixLen = b.prefixLen) : a = b := by
  obtain ⟨addr', len', hle'⟩ := b
  cases BitVec.eq_of_toNat_eq haddr
  cases hlen
  rfl

/-- The order of networks tells them apart. -/
theorem netRank_injective {a b : IpNet} (h : netRank a = netRank b) : a = b := by
  rcases a with a | a <;> rcases b with b | b
  all_goals
    have ha := a.prefix_le
    have hb := b.prefix_le
    simp only [netRank] at h
  · exact congrArg IpNet.v4 (Net.ext_of_toNat (by omega) (by omega))
  · omega
  · omega
  · exact congrArg IpNet.v6 (Net.ext_of_toNat (by omega) (by omega))

/-- The network of an OS route: its address and prefix length. -/
def netOf (net : IpNet) : IpAddr × Nat := (net.networkAddr, net.prefixLen)

/-- An OS network has one family. -/
theorem isIpv6_eq_of_netOf {a b : IpNet} (h : netOf a = netOf b) : isIpv6 a = isIpv6 b := by
  have haddr := congrArg (fun x => x.1.isIpv6) h
  cases a <;> cases b <;> first | rfl | exact haddr

/-- A network without its host bits is its OS network. -/
theorem trunc_eq_of_netOf {a b : IpNet} (h : netOf a = netOf b) : a.trunc = b.trunc := by
  obtain ⟨haddr, hlen⟩ := Prod.mk.inj h
  rcases a with a | a <;> rcases b with b | b
  · exact congrArg IpNet.v4
      (Net.ext_of_toNat (congrArg BitVec.toNat (IpAddr.v4.inj haddr)) hlen)
  · cases haddr
  · cases haddr
  · exact congrArg IpNet.v6
      (Net.ext_of_toNat (congrArg BitVec.toNat (IpAddr.v6.inj haddr)) hlen)

theorem eq_of_netOf {a b : IpNet} (ha : a.trunc = a) (hb : b.trunc = b) (h : netOf a = netOf b) :
    a = b := by
  rw [← ha, ← hb, trunc_eq_of_netOf h]

/-- Host bits are cleared once and for all. -/
theorem trunc_trunc (net : IpNet) : net.trunc.trunc = net.trunc :=
  trunc_eq_of_netOf (by rw [netOf, networkAddr_trunc, prefixLen_trunc, netOf])

/-- The network of one address. -/
theorem networkAddr_hostNet (ip : IpAddr) : (hostNet ip).networkAddr = ip := by
  cases ip with
  | v4 a | v6 a =>
    simp [hostNet, Net.slash, networkAddr, Net.networkAddr, Net.network, Net.hosts]

theorem trunc_hostNet (ip : IpAddr) : (hostNet ip).trunc = hostNet ip := by
  have haddr := networkAddr_hostNet ip
  cases ip with
  | v4 a =>
    refine congrArg IpNet.v4 (Net.ext_of_toNat ?_ rfl)
    exact congrArg BitVec.toNat (IpAddr.v4.inj haddr)
  | v6 a =>
    refine congrArg IpNet.v6 (Net.ext_of_toNat ?_ rfl)
    exact congrArg BitVec.toNat (IpAddr.v6.inj haddr)

theorem prefixLen_hostNet (ip : IpAddr) : (hostNet ip).prefixLen ≠ 1 := by
  cases ip with
  | v4 a => exact (by decide : (32 : Nat) ≠ 1)
  | v6 a => exact (by decide : (128 : Nat) ≠ 1)

/-- What an OS route is made of. -/
theorem osRoute_eq_iff {a b : RouteSpec} : a.osRoute = b.osRoute ↔
    netOf a.network = netOf b.network ∧ a.interface.index = b.interface.index ∧
      a.interface.gateway = b.interface.gateway := by
  simp only [osRoute, netOf, Prod.mk.injEq, and_assoc]

/-- Two specs of one route of the journal have one OS route. -/
theorem osRoute_eq_of_route {os : Platform} {a b : RouteSpec} (h : a.route os = b.route os) :
    a.osRoute = b.osRoute := by
  have hdest : a.network.trunc = b.network.trunc := congrArg Route.dest h
  have hindex : some a.interface.index = some b.interface.index := congrArg Route.ifIndex h
  rw [osRoute_eq_iff, netOf, ← networkAddr_trunc, ← prefixLen_trunc, hdest,
    networkAddr_trunc, prefixLen_trunc]
  exact ⟨rfl, some.inj hindex, congrArg Route.gateway h⟩

/-! ## The sources -/

/-- The built-in exclusions are the local networks and what is always local. -/
theorem mem_builtIn {network : Network} {ipv6 : Bool} {net : IpNet} :
    net ∈ builtInLocalExclusions network ipv6 ↔
      net ∈ network.localNetworks.map IpNet.trunc ++ alwaysLocal ∧
        (!isIpv6 net || ipv6) = true := by
  rw [builtInLocalExclusions, dedup, Runs.mem_destutter, sortNets, mem_insertionSort,
    mem_filter, mem_append, mem_append, mem_filter]
  refine and_congr_left fun hfamily => or_congr_right ⟨And.left, fun h => ⟨h, hfamily⟩⟩

/-- The built-in exclusions stand in the order of networks. -/
theorem sorted_builtIn (network : Network) (ipv6 : Bool) :
    (builtInLocalExclusions network ipv6).Pairwise fun a b => netRank a ≤ netRank b := by
  exact (pairwise_insertionSort _ _).sublist (destutter_sublist _ _)

theorem netRank_antisymm (a b : IpNet) (hab : netRank a ≤ netRank b) (hba : netRank b ≤ netRank a) :
    a = b :=
  netRank_injective (le_antisymm hab hba)

/-- Sorted and without neighbouring copies, they are distinct. -/
theorem nodup_builtIn (network : Network) (ipv6 : Bool) :
    (builtInLocalExclusions network ipv6).Nodup := by
  have hgrouped := Runs.grouped_of_sorted netRank_antisymm (sorted_builtIn network ipv6)
  have hnodup := Runs.nodup_destutter_iff.mpr hgrouped
  rwa [map_id, builtInLocalExclusions, dedup, destutter_idem] at hnodup

/-- They have no host bits. -/
theorem trunc_builtIn {network : Network} {ipv6 : Bool} {net : IpNet}
    (h : net ∈ builtInLocalExclusions network ipv6) : net.trunc = net := by
  have halways : ∀ net ∈ alwaysLocal, net.trunc = net := by decide
  rcases mem_append.mp (mem_builtIn.mp h).1 with h | h
  · obtain ⟨n, -, rfl⟩ := mem_map.mp h
    exact trunc_trunc n
  · exact halways net h

namespace DesktopTun

variable {tun : DesktopTun}

open Runs

/-- The halves of the address space are distinct routes. -/
theorem grouped_halves :
    Grouped osRoute ((halves.filter fun net => !isIpv6 net || tun.ipv6).map
      tun.throughTunnel) := by
  have hhalves : (halves.map netOf).Nodup := by decide
  refine grouped_of_nodup (List.Nodup.of_map (fun x => (x.1, x.2.1)) ?_)
  rw [map_map, map_map]
  exact hhalves.sublist (filter_sublist.map netOf)

/-- The routes of the captured servers are as distinct as the servers. -/
theorem grouped_servers :
    Grouped osRoute (tun.capturedServers.map fun ip => tun.throughTunnel (hostNet ip)) ↔
      Grouped id tun.capturedServers := by
  have hroute : ∀ ip ip' : IpAddr, (tun.throughTunnel (hostNet ip)).osRoute =
      (tun.throughTunnel (hostNet ip')).osRoute → ip = ip' := by
    intro ip ip' h
    have haddr : (hostNet ip).networkAddr = (hostNet ip').networkAddr := congrArg Prod.fst h
    rwa [networkAddr_hostNet, networkAddr_hostNet] at haddr
  rw [← filterMap_eq_map, grouped_filterMap id]
  · rw [filter_eq_self.mpr]
    exact fun _ _ => rfl
  · intro ip ip' x h h'
    exact hroute ip ip' (congrArg _ (some.inj (h.trans h'.symm)))
  · intro ip ip' x x' h h'
    cases h
    cases h'
    exact ⟨hroute ip' ip, fun heq => by rw [show ip' = ip from heq]⟩

/-- No server is half of the address space. -/
theorem apart_halves :
    Parted osRoute ((halves.filter fun net => !isIpv6 net || tun.ipv6).map
      tun.throughTunnel) (tun.capturedServers.map fun ip => tun.throughTunnel (hostNet ip)) := by
  intro b hb a ha heq
  obtain ⟨ip, -, rfl⟩ := mem_map.mp ((dropWhile_sublist _).subset hb)
  obtain ⟨net, hnet, rfl⟩ := mem_map.mp ha
  have hlens : ∀ net ∈ halves, net.prefixLen = 1 := by decide
  have hlen : net.prefixLen = (hostNet ip).prefixLen := congrArg (fun x => x.2.1) heq
  rw [hlens net (mem_filter.mp hnet).1] at hlen
  exact prefixLen_hostNet ip hlen.symm

/-- The routes into the tunnel are as distinct as the servers. -/
theorem grouped_captured : Grouped osRoute tun.captured ↔ Grouped id tun.capturedServers := by
  rw [captured, tunnelNets, map_append, map_map, grouped_append]
  exact ⟨fun h => grouped_servers.mp h.2.1, fun h => ⟨grouped_halves, grouped_servers.mpr h,
    apart_halves⟩⟩

/-- One OS network has one exit. -/
theorem exit_eq_of_netOf {a b : IpNet} (h : netOf a = netOf b) :
    tun.network.exit a = tun.network.exit b := by
  rw [Network.exit, Network.exit, isIpv6_eq_of_netOf h]

/-- Routes through the exits are as distinct as their networks. -/
theorem grouped_exits {spec : IpNet → Option RouteSpec} (change : ExitInterface → ExitInterface)
    (hspec : ∀ net, spec net = (tun.network.exit net).map fun i => ⟨net, change i⟩)
    (nets : List IpNet) :
    Grouped osRoute (nets.filterMap spec) ↔
      Grouped netOf (nets.filter fun net => (tun.network.exit net).isSome) := by
  have hsome : ∀ {net x}, spec net = some x →
      ∃ i, tun.network.exit net = some i ∧ x = ⟨net, change i⟩ := by
    intro net x h
    rw [hspec, map_eq_some_iff] at h
    obtain ⟨i, hi, rfl⟩ := h
    exact ⟨i, hi, rfl⟩
  have hfilter : (nets.filter fun net => (spec net).isSome) =
      nets.filter fun net => (tun.network.exit net).isSome := by
    refine filter_congr fun net _ => ?_
    rw [hspec, isSome_map]
  rw [grouped_filterMap netOf, hfilter]
  · intro a b x ha hb
    obtain ⟨i, -, rfl⟩ := hsome ha
    obtain ⟨j, -, hj⟩ := hsome hb
    exact congrArg RouteSpec.network hj
  · intro a b x y ha hb
    obtain ⟨i, hi, rfl⟩ := hsome ha
    obtain ⟨j, hj, rfl⟩ := hsome hb
    rw [osRoute_eq_iff]
    refine ⟨fun h => h.1, fun h => ⟨h, ?_⟩⟩
    -- networks of one address have one family, so one exit
    have hexit : tun.network.exit b = tun.network.exit a := exit_eq_of_netOf h
    rw [hi, hj] at hexit
    cases hexit
    exact ⟨rfl, rfl⟩

/-- The local routes are distinct. -/
theorem grouped_local : Grouped osRoute tun.localSpecs := by
  refine (grouped_exits (fun i => { i with gateway := none }) (fun _ => rfl) _).mpr
    (grouped_of_nodup ?_)
  refine List.Nodup.map_on (fun a ha b hb h => ?_) ((nodup_builtIn _ _).filter _)
  exact eq_of_netOf (trunc_builtIn (mem_filter.mp ha).1)
    (trunc_builtIn (mem_filter.mp hb).1) h

/-- The destinations on the link of an exit: the local networks without their host bits and
what is always local, in the order of networks. -/
def localNets (tun : DesktopTun) : List IpNet :=
  (builtInLocalExclusions tun.network tun.ipv6).filter fun net => (tun.network.exit net).isSome

/-- The exclusions that have an exit. -/
def excludedNets (tun : DesktopTun) : List IpNet :=
  tun.exclusions.filter fun net => (tun.network.exit net).isSome

/-- The exclusion repeats the spec of the last local destination: its exit has no gateway. -/
def repeatsLocal (tun : DesktopTun) (net : IpNet) : Bool :=
  tun.localNets.getLast? = some net ∧ ∀ exit ∈ tun.network.exit net, exit.gateway = none

/-- Through an exit without gateway, no exclusion is a local destination. Copies of the last
one, right behind it, do not count. -/
def ExcludedOffLink (tun : DesktopTun) : Prop :=
  ∀ net ∈ tun.excludedNets.dropWhile tun.repeatsLocal, ∀ exit ∈ tun.network.exit net,
    exit.gateway = none → netOf net ∉ tun.localNets.map netOf

/-- Through an exit with the index of a tunnel without gateway, no local destination goes into
the tunnel; the first one may be a copy of the last network into it. -/
def LocalOffTunnel (tun : DesktopTun) : Prop :=
  ∀ net ∈ tun.localNets, ∀ exit ∈ tun.network.exit net, exit.index = tun.tunnel.index →
    tun.tunnel.gateway = none → net ∈ tun.tunnelNets →
      tun.localNets.head? = some net ∧ tun.tunnelNets.getLast? = some net ∧
        exit.name = tun.tunnel.name

/-- Through an exit with the index and the gateway of the tunnel, no exclusion goes into the
tunnel. -/
def ExcludedOffTunnel (tun : DesktopTun) : Prop :=
  ∀ net ∈ tun.exclusions, ∀ exit ∈ tun.network.exit net, exit.index = tun.tunnel.index →
    exit.gateway = tun.tunnel.gateway → netOf net ∉ tun.tunnelNets.map netOf

/-- The condition on the inputs. Up to repetitions of a neighbour, the captured servers differ
and the exclusions differ as networks; and no two sources name one route. -/
structure Unambiguous (tun : DesktopTun) : Prop where
  servers : Grouped id tun.capturedServers
  exclusions : Grouped netOf tun.excludedNets
  offLink : tun.ExcludedOffLink
  localOffTunnel : tun.LocalOffTunnel
  excludedOffTunnel : tun.ExcludedOffTunnel

/-! ## Where two sources meet -/

section

variable {net : IpNet} {spec : RouteSpec} {exit : ExitInterface}

/-- The specs of the local destinations, one each. -/
theorem localSpecs_eq : tun.localSpecs = tun.localNets.filterMap tun.onLink := by
  rw [localSpecs, localNets, filterMap_filter]
  congr 1
  funext net
  cases h : tun.network.exit net <;> simp [onLink, h]

theorem mem_localSpecs : spec ∈ tun.localSpecs ↔
    ∃ net ∈ tun.localNets, ∃ exit, tun.network.exit net = some exit ∧
      ⟨net, { exit with gateway := none }⟩ = spec := by
  simp only [localSpecs_eq, mem_filterMap, onLink, map_eq_some_iff]

theorem mem_excludedSpecs : spec ∈ tun.excludedSpecs ↔
    ∃ net ∈ tun.exclusions, ∃ exit, tun.network.exit net = some exit ∧ ⟨net, exit⟩ = spec := by
  simp only [excludedSpecs, mem_filterMap, throughExit, map_eq_some_iff]

theorem onLink_isSome (net : IpNet) (h : net ∈ tun.localNets) : (tun.onLink net).isSome := by
  rw [onLink, isSome_map]
  exact (mem_filter.mp h).2

section

variable (h : tun.network.exit net = some exit)
include h

/-- A spec on the link is that of one network. -/
theorem bind_onLink_iff {o : Option IpNet} :
    o.bind tun.onLink = some ⟨net, { exit with gateway := none }⟩ ↔ o = some net := by
  constructor
  · intro ho
    obtain ⟨net', rfl, h'⟩ := bind_eq_some_iff.mp ho
    obtain ⟨exit', -, heq⟩ := map_eq_some_iff.mp h'
    exact congrArg (some ∘ RouteSpec.network) heq
  · rintro rfl
    exact map_eq_some_iff.mpr ⟨exit, h, rfl⟩

/-- The first local spec is that of the first network. -/
theorem head?_localSpecs :
    tun.localSpecs.head? = some ⟨net, { exit with gateway := none }⟩ ↔
      tun.localNets.head? = some net := by
  rw [localSpecs_eq, head?_filterMap, findSome?_eq_head? onLink_isSome, bind_onLink_iff h]

/-- The last is that of the last. -/
theorem getLast?_localSpecs :
    tun.localSpecs.getLast? = some ⟨net, { exit with gateway := none }⟩ ↔
      tun.localNets.getLast? = some net := by
  have hsome : ∀ net ∈ tun.localNets.reverse, (tun.onLink net).isSome := fun net hnet =>
    onLink_isSome net (mem_reverse.mp hnet)
  rw [localSpecs_eq, getLast?_filterMap, findSome?_eq_head? hsome, head?_reverse, bind_onLink_iff h]

end

/-- The exclusions that repeat the last built-in spec. -/
theorem repeatsLocal_eq : (fun net => (tun.throughExit net).any fun spec =>
    tun.localSpecs.getLast? = some spec) = tun.repeatsLocal := by
  funext net
  rw [Bool.eq_iff_iff, Option.any_eq_true, repeatsLocal, decide_eq_true_eq]
  constructor
  · rintro ⟨spec, hspec, hlast⟩
    have hlast := of_decide_eq_true hlast
    obtain ⟨exit, hexit, rfl⟩ := map_eq_some_iff.mp hspec
    obtain ⟨net', -, exit', hexit', heq⟩ := mem_localSpecs.mp (mem_of_getLast? hlast)
    cases heq
    refine ⟨(getLast?_localSpecs hexit').mp hlast, fun x hx => ?_⟩
    cases hexit.symm.trans hx
    rfl
  · rintro ⟨hlast, hgateway⟩
    obtain ⟨⟨index, name, gateway⟩, hexit⟩ := isSome_iff_exists.mp
      (mem_filter.mp (mem_of_getLast? hlast)).2
    obtain rfl : gateway = none := hgateway _ hexit
    exact ⟨_, map_eq_some_iff.mpr ⟨_, hexit, rfl⟩,
      decide_eq_true ((getLast?_localSpecs hexit).mpr hlast)⟩

/-- The exclusions behind the local destinations. -/
theorem apart_local : Parted osRoute tun.localSpecs tun.excludedSpecs ↔ tun.ExcludedOffLink := by
  have hfilter : (tun.exclusions.filter fun net => (tun.throughExit net).isSome) =
      tun.excludedNets := by
    simp only [throughExit, isSome_map, excludedNets]
  rw [Parted, excludedSpecs, dropWhile_filterMap_any, repeatsLocal_eq, hfilter]
  constructor
  · intro h net hnet exit hexit hgateway hmem
    obtain ⟨own, hown, heq⟩ := mem_map.mp hmem
    refine h ⟨net, exit⟩ (mem_filterMap.mpr ⟨net, hnet, map_eq_some_iff.mpr
      ⟨exit, hexit, rfl⟩⟩) _ (mem_localSpecs.mpr
      ⟨own, hown, exit, (exit_eq_of_netOf heq).trans hexit, rfl⟩) ?_
    exact osRoute_eq_iff.mpr ⟨heq, rfl, hgateway.symm⟩
  · intro h spec hspec own hown heq
    obtain ⟨net, hnet, hspec⟩ := mem_filterMap.mp hspec
    obtain ⟨exit, hexit, rfl⟩ := map_eq_some_iff.mp hspec
    obtain ⟨net', hnet', exit', -, rfl⟩ := mem_localSpecs.mp hown
    obtain ⟨hnetOf, -, hgateway⟩ := osRoute_eq_iff.mp heq
    exact h net hnet exit hexit hgateway.symm (mem_map.mpr ⟨net', hnet', hnetOf⟩)

/-- The exclusions against the tunnel. -/
theorem apart_excluded :
    (∀ spec ∈ tun.excludedSpecs, ∀ a ∈ tun.captured, a.osRoute ≠ spec.osRoute) ↔
      tun.ExcludedOffTunnel := by
  constructor
  · intro h net hnet exit hexit hindex hgateway hmem
    obtain ⟨own, hown, heq⟩ := mem_map.mp hmem
    exact h ⟨net, exit⟩ (mem_excludedSpecs.mpr ⟨net, hnet, exit, hexit, rfl⟩) _
      (mem_map_of_mem hown) (osRoute_eq_iff.mpr ⟨heq, hindex.symm, hgateway.symm⟩)
  · intro h spec hspec a ha heq
    obtain ⟨net, hnet, exit, hexit, rfl⟩ := mem_excludedSpecs.mp hspec
    obtain ⟨own, hown, rfl⟩ := mem_map.mp ha
    obtain ⟨hnetOf, hindex, hgateway⟩ := osRoute_eq_iff.mp heq
    exact h net hnet exit hexit hindex.symm hgateway.symm (mem_map.mpr ⟨own, hown, hnetOf⟩)

/-- What goes into the tunnel is of its families and has no host bits. -/
theorem tunnelNets_ok (h : net ∈ tun.tunnelNets) :
    (!isIpv6 net || tun.ipv6) = true ∧ net.trunc = net := by
  have hhalves : ∀ net ∈ halves, net.trunc = net := by decide
  rcases mem_append.mp h with h | h
  · obtain ⟨h, hfamily⟩ := mem_filter.mp h
    exact ⟨hfamily, hhalves net h⟩
  · obtain ⟨ip, hip, rfl⟩ := mem_map.mp h
    refine ⟨?_, trunc_hostNet ip⟩
    unfold capturedServers at hip
    split at hip
    · have hfamily := (mem_filter.mp hip).2
      cases ip <;> exact hfamily
    · cases hip

/-- A family with an exit has two built-in exclusions. -/
theorem exists_localSpecs (hexit : tun.network.exit net = some exit)
    (hfamily : (!isIpv6 net || tun.ipv6)) :
    ∃ a ∈ tun.localSpecs, ∃ b ∈ tun.localSpecs, a ≠ b := by
  have htwo : ∀ v6, ∃ a ∈ alwaysLocal, ∃ b ∈ alwaysLocal, a ≠ b ∧ isIpv6 a = v6 ∧
      isIpv6 b = v6 := by decide
  obtain ⟨a, ha, b, hb, hne, hav6, hbv6⟩ := htwo (isIpv6 net)
  have hspec : ∀ own ∈ alwaysLocal, isIpv6 own = isIpv6 net →
      (⟨own, { exit with gateway := none }⟩ : RouteSpec) ∈ tun.localSpecs := by
    intro own hown hv6
    rw [← hv6] at hfamily
    refine mem_filterMap.mpr ⟨own, mem_builtIn.mpr ⟨mem_append_right _ hown, hfamily⟩, ?_⟩
    rw [onLink, Network.exit, hv6]
    exact map_eq_some_iff.mpr ⟨exit, hexit, rfl⟩
  exact ⟨_, hspec a ha hav6, _, hspec b hb hbv6, fun heq => hne (congrArg RouteSpec.network heq)⟩

/-- The specs into the tunnel against all that follow. An exclusion follows one of them
directly only if its family does not go into the tunnel. -/
theorem apart_tunnel : Parted osRoute tun.captured (tun.localSpecs ++ tun.excludedSpecs) ↔
    Parted osRoute tun.captured tun.localSpecs ∧ tun.ExcludedOffTunnel := by
  rw [← apart_excluded, Parted, Parted]
  by_cases hlocal : tun.localSpecs = []
  · have hexcluded : ∀ spec ∈ tun.excludedSpecs, ∀ a ∈ tun.captured, a.osRoute ≠ spec.osRoute := by
      refine apart_excluded.mpr fun net hnet exit hexit _ _ hmem => ?_
      obtain ⟨own, hown, heq⟩ := mem_map.mp hmem
      have hfamily := (tunnelNets_ok hown).1
      rw [isIpv6_eq_of_netOf heq] at hfamily
      obtain ⟨a, ha, -⟩ := exists_localSpecs hexit hfamily
      rw [hlocal] at ha
      cases ha
    rw [hlocal]
    exact ⟨fun _ => ⟨fun _ hspec => absurd hspec not_mem_nil, hexcluded⟩,
      fun _ spec hspec => hexcluded spec ((dropWhile_sublist _).subset hspec)⟩
  · have hdrop : (tun.localSpecs.dropWhile fun spec => tun.captured.getLast? = some spec) ≠ [] := by
      intro hnil
      have hall := dropWhile_eq_nil_iff.mp hnil
      obtain ⟨spec, hspec⟩ := exists_mem_of_ne_nil _ hlocal
      obtain ⟨net, hnet, exit, hexit, -⟩ := mem_localSpecs.mp hspec
      have hfamily := (mem_builtIn.mp (mem_filter.mp hnet).1).2
      obtain ⟨a, ha, b, hb, hne⟩ := exists_localSpecs hexit hfamily
      have hlast := (of_decide_eq_true (hall a ha)).symm.trans (of_decide_eq_true (hall b hb))
      exact hne (some.inj hlast)
    rw [dropWhile_append, if_neg (by simpa using hdrop), forall_mem_append]

/-- The local specs are distinct. -/
theorem nodup_localSpecs : tun.localSpecs.Nodup := by
  refine (nodup_builtIn _ _).filterMap fun a b spec ha hb => ?_
  obtain ⟨exit, -, rfl⟩ := map_eq_some_iff.mp ha
  obtain ⟨exit', -, heq⟩ := map_eq_some_iff.mp hb
  exact (congrArg RouteSpec.network heq).symm

/-- The local destinations against the tunnel. -/
theorem apart_onLink : Parted osRoute tun.captured tun.localSpecs ↔ tun.LocalOffTunnel := by
  have hdropped : ∀ spec, spec ∈ (tun.localSpecs.dropWhile fun spec =>
      tun.captured.getLast? = some spec) ↔ spec ∈ tun.localSpecs ∧
        ¬ (tun.localSpecs.head? = some spec ∧ tun.captured.getLast? = some spec) := by
    intro spec
    rw [mem_dropWhile_iff (fun a b ha hb => ?_) nodup_localSpecs, decide_eq_true_eq]
    exact some.inj ((of_decide_eq_true ha).symm.trans (of_decide_eq_true hb))
  simp only [Parted, hdropped]
  simp only [captured, getLast?_map]
  constructor
  · intro h net hnet exit hexit hindex hgateway htunnel
    by_contra hnot
    refine h _ ⟨mem_localSpecs.mpr ⟨net, hnet, exit, hexit, rfl⟩, fun hcopy => hnot ?_⟩ _
      (mem_map_of_mem htunnel) (osRoute_eq_iff.mpr ⟨rfl, hindex.symm, hgateway⟩)
    obtain ⟨last, hlast, heq⟩ := map_eq_some_iff.mp hcopy.2
    obtain rfl : last = net := congrArg RouteSpec.network heq
    exact ⟨(head?_localSpecs hexit).mp hcopy.1, hlast,
      (congrArg (fun spec => spec.interface.name) heq).symm⟩
  · rintro h spec ⟨hspec, hnot⟩ a ha heq
    obtain ⟨net, hnet, exit, hexit, rfl⟩ := mem_localSpecs.mp hspec
    obtain ⟨own, hown, rfl⟩ := mem_map.mp ha
    obtain ⟨hnetOf, hindex, hgateway⟩ := osRoute_eq_iff.mp heq
    obtain rfl : own = net := eq_of_netOf (tunnelNets_ok hown).2
      (trunc_builtIn (mem_filter.mp hnet).1) hnetOf
    obtain ⟨hfirst, hlast, hname⟩ := h own hnet exit hexit hindex.symm hgateway hown
    refine hnot ⟨(head?_localSpecs hexit).mpr hfirst, ?_⟩
    have htunnel : tun.tunnel = { exit with gateway := none } := by
      show ExitInterface.mk tun.tunnel.index tun.tunnel.name tun.tunnel.gateway = _
      rw [← hname]
      exact congrArg₂ (ExitInterface.mk · exit.name ·) hindex hgateway
    rw [hlast, map_some, throughTunnel, htunnel]

end

/-- The routes are distinct if each source is and no two of them meet. -/
theorem nodup_desiredRoutes_iff :
    (tun.desiredRoutes.map osRoute).Nodup ↔ (tun.autoRoute = true → Unambiguous tun) := by
  rw [desiredRoutes]
  cases tun.autoRoute with
  | false => simp
  | true =>
    have hexcluded : Grouped osRoute tun.excludedSpecs ↔
        Grouped netOf tun.excludedNets :=
      grouped_exits id (fun _ => rfl) tun.exclusions
    rw [if_pos rfl, dedup, nodup_destutter_iff, append_assoc, grouped_append, grouped_append,
      grouped_captured, hexcluded, apart_local, apart_tunnel, apart_onLink]
    constructor
    · rintro ⟨hservers, ⟨-, hexclusions, hbuiltIn⟩, hlocal, hexcluded⟩ -
      exact ⟨hservers, hexclusions, hbuiltIn, hlocal, hexcluded⟩
    · intro h
      obtain ⟨hservers, hexclusions, hbuiltIn, hlocal, hexcluded⟩ := h rfl
      exact ⟨hservers, ⟨grouped_local, hexclusions, hbuiltIn⟩, hlocal, hexcluded⟩

/-- The desired routes name every OS route at most once, and on a table that has none of them
no route is added twice. -/
structure Distinct (tun : DesktopTun) : Prop where
  routes : (tun.desiredRoutes.map RouteSpec.osRoute).Nodup
  added : ∀ os table, (∀ spec ∈ tun.desiredRoutes, ∀ r ∈ table, spec.matches os r = false) →
    (additions os table tun.desiredRoutes).Nodup

/-- **The desired routes are distinct exactly when the inputs are unambiguous.** -/
theorem desiredRoutes_distinct_iff (tun : DesktopTun) :
    Distinct tun ↔ (tun.autoRoute = true → Unambiguous tun) := by
  refine ⟨fun h => nodup_desiredRoutes_iff.mp h.routes, fun h => ?_⟩
  have hroutes := nodup_desiredRoutes_iff.mpr h
  refine ⟨hroutes, fun os table _ => ?_⟩
  refine List.Nodup.map_on (fun a ha b hb heq => ?_) ((List.Nodup.of_map _ hroutes).filter _)
  exact inj_on_of_nodup_map hroutes (mem_filter.mp ha).1 (mem_filter.mp hb).1
    (osRoute_eq_of_route heq)

end DesktopTun

/-- A network with an exit to `192.168.1.1` and two spellings of `10.0.0.0/8` excluded. -/
def twoSpellings : DesktopTun where
  network := ⟨some ⟨2, "eth0", some (.v4 0xc0a80101)⟩, none, [], [.v4 (.slash 0xc0a80102 24)]⟩
  tunnel := ⟨9, "tun0", none⟩
  exclusions := [.v4 (.slash 0x0a000001 8), .v4 (.slash 0x0a000000 8)]
  autoRoute := true
  ipv6 := false
  captureDns := false

/-- `10.0.0.1/8` and `10.0.0.0/8` are two specs for one OS route, and both are kept. -/
theorem twoSpellings_name_one_route : ¬ twoSpellings.Distinct := by
  intro h
  have hroutes := h.routes
  revert hroutes
  decide +kernel

end ClashMeta.Tun
