import ClashMeta.Config.Rule
import ClashMeta.Lib.Intervals

/-!
# Sets of networks

`IpSet::new` (config/src/rule.rs:69-99) turns networks into sorted, merged ranges of
addresses, and `IpSet::matches` looks an address up by binary search. The merging and the
search are those of `Segments`, on the numbers of either family.
-/

namespace ClashMeta

open Segments

namespace IpNet

/-- The network, if it is one of IPv4. -/
def asV4 : IpNet → Option (Net 32)
  | v4 n => some n
  | v6 _ => none

/-- The network, if it is one of IPv6. -/
def asV6 : IpNet → Option (Net 128)
  | v4 _ => none
  | v6 n => some n

end IpNet

namespace IpSet

/-- `u128::MAX`. -/
def u128Max : Nat := 2 ^ 128 - 1

/-- The first and the last address of every network of a family (rule.rs:74-84). -/
def ranges {w : Nat} (family : IpNet → Option (Net w)) (nets : List IpNet) : List (Nat × Nat) :=
  nets.filterMap fun n => (family n).map fun n => (n.network, n.broadcast)

/-- The loop body for one family (rule.rs:85-98): `sort_unstable`, then the merging pass. -/
def mergeRanges (ranges : List (Nat × Nat)) : List (Nat × Nat) :=
  Segments.merge u128Max (ranges.insertionSort Segments.Lex)

/-- `IpSet::new`. -/
def new (nets : List IpNet) (inverse : Bool) : IpSet where
  v4 := mergeRanges (ranges IpNet.asV4 nets)
  v6 := mergeRanges (ranges IpNet.asV6 nets)
  inverse := inverse

end IpSet

namespace Net

variable {w : Nat}

theorem network_le_broadcast (n : Net w) : n.network ≤ n.broadcast := Nat.le_add_right _ _

theorem broadcast_lt (n : Net w) : n.broadcast < 2 ^ w := by
  have hfits := n.network_add_hosts_le
  have hpos := n.hosts_pos
  unfold broadcast
  omega

end Net

namespace IpSet

section

variable {w : Nat} {family : IpNet → Option (Net w)} {nets : List IpNet}

theorem mem_ranges_iff {r : Nat × Nat} :
    r ∈ ranges family nets ↔
      ∃ net ∈ nets, ∃ n, family net = some n ∧ (n.network, n.broadcast) = r := by
  unfold ranges
  rw [List.mem_filterMap]
  exact exists_congr fun net => and_congr_right fun _ => Option.map_eq_some_iff

theorem covers_ranges {a : BitVec w} :
    Covers (ranges family nets) a.toNat ↔
      (nets.any fun net => (family net).any fun n => n.contains a) = true := by
  simp only [List.any_eq_true, Option.any_eq_true]
  constructor
  · rintro ⟨r, hr, hlo, hhi⟩
    obtain ⟨net, hnet, n, hn, rfl⟩ := mem_ranges_iff.mp hr
    exact ⟨net, hnet, n, hn, Bool.and_eq_true_iff.mpr ⟨decide_eq_true hlo, decide_eq_true hhi⟩⟩
  · rintro ⟨net, hnet, n, hn, hcontains⟩
    obtain ⟨hlo, hhi⟩ := Bool.and_eq_true_iff.mp hcontains
    exact ⟨_, mem_ranges_iff.mpr ⟨net, hnet, n, hn, rfl⟩, of_decide_eq_true hlo,
      of_decide_eq_true hhi⟩

/-- Sorted, the ranges are ready to be merged: no sum in the pass goes beyond `u128::MAX`
except at the top of the address space, where nothing is left to be adjacent to. -/
theorem sorted_ranges (hw : w ≤ 128) :
    Sorted u128Max ((ranges family nets).insertionSort Segments.Lex) := by
  refine sorted_insertionSort (fun r hr => ?_) (fun r hr => ?_)
  · obtain ⟨net, hnet, n, hn, rfl⟩ := mem_ranges_iff.mp hr
    exact n.network_le_broadcast
  · obtain ⟨net, hnet, n, hn, rfl⟩ := mem_ranges_iff.mp hr
    have hspace : 2 ^ w ≤ 2 ^ 128 := Nat.pow_le_pow_right Nat.two_pos hw
    have hle := n.network_le_broadcast
    have hlt := n.broadcast_lt
    unfold u128Max
    omega

/-- The ranges stand in order with gaps between them, which is also what the search needs. -/
theorem merged_mergeRanges (hw : w ≤ 128) : Merged (mergeRanges (ranges family nets)) :=
  apart_merge (sorted_ranges hw)

/-- **The search finds exactly the addresses of the networks.** -/
theorem inRanges_mergeRanges (hw : w ≤ 128) (a : BitVec w) :
    inRanges (mergeRanges (ranges family nets)) a.toNat =
      nets.any fun net => (family net).any fun n => n.contains a := by
  rw [Bool.eq_iff_iff, ← covers_ranges, ← covers_insertionSort, ← covers_merge (sorted_ranges hw)]
  show _ ↔ Covers (mergeRanges (ranges family nets)) a.toNat
  rw [covers_iff_lastStarting (merged_mergeRanges hw)]
  unfold inRanges lastStarting
  split
  · rename_i r hr
    rw [hr, decide_eq_true_iff]
    constructor
    · exact fun hle => ⟨r, rfl, hle⟩
    · rintro ⟨r', hr', hle⟩
      cases hr'
      exact hle
  · rename_i hnone
    rw [hnone]
    constructor
    · exact fun h => (by cases h)
    · rintro ⟨r', hr', -⟩
      cases hr'

end

theorem any_contains_v4 (nets : List IpNet) (a : BitVec 32) :
    (nets.any fun net => net.asV4.any fun n => n.contains a) =
      nets.any fun net => net.contains (.v4 a) := by
  congr 1
  funext net
  cases net <;> rfl

theorem any_contains_v6 (nets : List IpNet) (a : BitVec 128) :
    (nets.any fun net => net.asV6.any fun n => n.contains a) =
      nets.any fun net => net.contains (.v6 a) := by
  congr 1
  funext net
  cases net <;> rfl

/-- **The merged ranges match exactly the listed networks**: an address is matched when a
network of its family contains it, or with `inverse` when none does. The ranges of each
family are sorted, disjoint and not adjacent. -/
theorem ipSet_exact (nets : List IpNet) (inverse : Bool) :
    (∀ ip, (new nets inverse).matches ip = xor (nets.any fun net => net.contains ip) inverse) ∧
      Merged (new nets inverse).v4 ∧ Merged (new nets inverse).v6 := by
  refine ⟨fun ip => ?_, merged_mergeRanges (by decide), merged_mergeRanges (by decide)⟩
  cases ip with
  | v4 a =>
    show xor (inRanges (mergeRanges (ranges IpNet.asV4 nets)) a.toNat) inverse = _
    rw [inRanges_mergeRanges (by decide), any_contains_v4]
  | v6 a =>
    show xor (inRanges (mergeRanges (ranges IpNet.asV6 nets)) a.toNat) inverse = _
    rw [inRanges_mergeRanges (by decide), any_contains_v6]

end IpSet

end ClashMeta
