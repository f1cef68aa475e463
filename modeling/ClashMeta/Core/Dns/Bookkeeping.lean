import ClashMeta.Core.Dns.Cache
import ClashMeta.Lib.Lts

/-!
# The books of the DNS cache

The cache counts the bytes of its entries and is bounded in entries and in bytes
(core/src/dns.rs:335-373). Every access goes through one lock, so a run of the cache is a
list of critical sections: a look, an insertion, a clearing. Whoever asks, and when, does
not matter here, and the hash map may have been laid out in any order.
-/

namespace ClashMeta.Dns

open List Table

namespace Cache

/-! ## The entry that leaves -/

theorem oldest_eq_none {l : List Slot} (h : oldest l = none) : l = [] := by
  cases l with
  | nil => rfl
  | cons e rest =>
    rw [oldest] at h
    split at h
    · cases h
    · split at h <;> cases h

theorem oldest_spec {l : List Slot} {o : Slot} (h : oldest l = some o) :
    o ∈ l ∧ ∀ x ∈ l, o.2.inserted ≤ x.2.inserted := by
  induction l generalizing o with
  | nil => cases h
  | cons e rest ih =>
    rw [oldest] at h
    split at h
    · rename_i hnone
      cases h
      rw [oldest_eq_none hnone]
      exact ⟨mem_cons_self, fun x hx => by rw [mem_singleton.mp hx]⟩
    · rename_i o' hsome
      obtain ⟨hmem, hleast⟩ := ih hsome
      split at h
      · rename_i hlt
        cases h
        refine ⟨mem_cons_of_mem _ hmem, forall_mem_cons.mpr ⟨le_of_lt hlt, hleast⟩⟩
      · rename_i hge
        cases h
        refine ⟨mem_cons_self, forall_mem_cons.mpr ⟨le_rfl, fun x hx => ?_⟩⟩
        exact (not_lt.mp hge).trans (hleast x hx)

/-! ## The eviction loop -/

/-- The loop (dns.rs:349-359) from one cache to another, with the entries that it removes:
it ends when no limit would be exceeded or nothing is left; otherwise one of the entries
inserted earliest leaves, and taking its size off the count does not underflow. -/
inductive Evicts (size : Nat) : Cache → List Slot → Cache → Prop
  | stop {c : Cache} (h : ¬c.Exceeds size ∨ c.entries.entries = []) : Evicts size c [] c
  | drop {c c' : Cache} {o : Slot} {removed : List Slot} (hlimit : c.Exceeds size)
      (hmem : o ∈ c.entries.entries)
      (holdest : ∀ x ∈ c.entries.entries, o.2.inserted ≤ x.2.inserted) (hsize : o.2.size ≤ c.size)
      (hrest : Evicts size ⟨c.entries.erase o.1, c.size - o.2.size⟩ removed c') :
      Evicts size c (o :: removed) c'

variable {c c' : Cache} {size : Nat} {removed : List Slot} {k key : List Byte} {e : CacheEntry}

theorem total_erase (h : c.entries.lookup k = some e) :
    total c.entries = e.size + total (c.entries.erase k) := by
  unfold total
  rw [((perm_values_erase h).map CacheEntry.size).sum_nat, map_cons, sum_cons]

theorem count_erase {o : Slot} (hcount : c.size = total c.entries) (hmem : o ∈ c.entries.entries) :
    o.2.size ≤ c.size ∧ c.size - o.2.size = total (c.entries.erase o.1) := by
  have hsum := total_erase (mem_entries_iff.mp hmem)
  omega

theorem size_erase_lt {o : Slot} (hmem : o ∈ c.entries.entries) :
    Table.size (c.entries.erase o.1) < Table.size c.entries := by
  have hperm := perm_values_erase (mem_entries_iff.mp hmem)
  have hlength := hperm.length_eq
  simp only [Table.values, length_cons, length_map] at hlength
  unfold Table.size
  omega

/-- **The loop ends**: with as many rounds as there are entries it comes to its own end, and
no subtraction underflows on the way. -/
theorem evicts_evict (size rounds : Nat) (c : Cache) (hcount : c.size = total c.entries)
    (hrounds : Table.size c.entries ≤ rounds) :
    ∃ removed, Evicts size c removed (evict size rounds c) := by
  induction rounds generalizing c with
  | zero => exact ⟨[], .stop (.inr (length_eq_zero_iff.mp (Nat.le_zero.mp hrounds)))⟩
  | succ rounds ih =>
    rw [evict]
    split
    · rename_i hlimit
      split
      · rename_i hnone
        exact ⟨[], .stop (.inr (oldest_eq_none hnone))⟩
      · rename_i o hsome
        obtain ⟨hmem, holdest⟩ := oldest_spec hsome
        obtain ⟨hsize, hcount'⟩ := count_erase hcount hmem
        have hfewer := size_erase_lt hmem
        obtain ⟨removed, hrest⟩ := ih ⟨c.entries.erase o.1, c.size - o.2.size⟩ hcount'
          (Nat.le_of_lt_succ (hfewer.trans_le hrounds))
        exact ⟨o :: removed, .drop hlimit hmem holdest hsize hrest⟩
    · rename_i hfits
      exact ⟨[], .stop (.inl hfits)⟩

namespace Evicts

section

variable (h : Evicts size c removed c')

include h

theorem count (hcount : c.size = total c.entries) : c'.size = total c'.entries := by
  induction h with
  | stop => exact hcount
  | drop _ hmem _ _ _ ih => exact ih (count_erase hcount hmem).2

theorem ends : ¬c'.Exceeds size ∨ c'.entries.entries = [] := by
  induction h with
  | stop hend => exact hend
  | drop _ _ _ _ _ ih => exact ih

theorem lookup_some (hk : c'.entries.lookup k = some e) : c.entries.lookup k = some e := by
  induction h with
  | stop => exact hk
  | drop _ _ _ _ _ ih => exact (lookup_erase_some (ih hk)).2

/-- **The oldest entries leave first**: no entry that stays was inserted before one that
leaves. -/
theorem oldest_first : ∀ o ∈ removed, ∀ x ∈ c'.entries.entries, o.2.inserted ≤ x.2.inserted := by
  induction h with
  | stop => exact fun o ho => absurd ho not_mem_nil
  | drop _ _ holdest _ hrest ih =>
    rw [forall_mem_cons]
    refine ⟨fun x hx => holdest x ?_, ih⟩
    have hlookup := hrest.lookup_some (mem_entries_iff.mp hx)
    exact mem_entries_iff.mpr (lookup_erase_some hlookup).2

theorem stays_or_removed (hk : c.entries.lookup k = some e) :
    c'.entries.lookup k = some e ∨ ⟨k, e⟩ ∈ removed := by
  induction h with
  | stop => exact .inl hk
  | @drop c c' o removed _ hmem _ _ _ ih =>
    by_cases hkey : k = o.1
    · subst hkey
      have heq : e = o.2 := Option.some.inj (hk.symm.trans (mem_entries_iff.mp hmem))
      rw [heq]
      exact .inr mem_cons_self
    · have hstill : (c.entries.erase o.1).lookup k = some e := by
        rw [lookup_erase_if, if_neg hkey, hk]
      exact (ih hstill).imp_right (mem_cons_of_mem _)

end

end Evicts

/-! ## The books -/

/-- What holds of the cache outside its lock: the count is the sum of the sizes, and both
limits hold. -/
structure Books (c : Cache) : Prop where
  count : c.size = total c.entries
  entries : Table.size c.entries ≤ 4096
  bytes : c.size ≤ 8 * 1024 * 1024

theorem books_empty : Books .empty := ⟨rfl, Nat.zero_le _, Nat.zero_le _⟩

theorem Evicts.books (h : Evicts size c removed c') (hcount : c.size = total c.entries) :
    Books c' ∧ (size ≤ 8 * 1024 * 1024 →
      Table.size c'.entries < 4096 ∧ c'.size + size ≤ 8 * 1024 * 1024) := by
  have hcount' := h.count hcount
  rcases h.ends with hfits | hempty
  · obtain ⟨hentries, hbytes⟩ := not_or.mp hfits
    exact ⟨⟨hcount', by omega, by omega⟩, fun _ => ⟨by omega, by omega⟩⟩
  · have hsize : Table.size c'.entries = 0 := by rw [Table.size, hempty, length_nil]
    have htotal : c'.size = 0 := by rw [hcount', total, Table.values, hempty]; rfl
    exact ⟨⟨hcount', by omega, by omega⟩, fun _ => ⟨by omega, by omega⟩⟩

theorem Books.put (h : Books c) (hfree : c.entries.lookup key = none) (e : CacheEntry)
    (hentries : Table.size c.entries < 4096) (hbytes : c.size + e.size ≤ 8 * 1024 * 1024) :
    Books ⟨c.entries.insert key e, c.size + e.size⟩ := by
  have hnew : key ∉ c.entries := AList.lookup_eq_none.mp hfree
  refine ⟨?_, ?_, hbytes⟩
  · show c.size + e.size = total (c.entries.insert key e)
    rw [total, Table.values, AList.entries_insert_of_notMem hnew, map_cons, map_cons, h.count]
    exact add_comm _ _
  · show Table.size (c.entries.insert key e) ≤ 4096
    rw [size_insert_of_lookup_none hfree]
    exact hentries

theorem live_lookup_key (c : Cache) (key : List Byte) (moments : Moments) :
    (c.live key moments).lookup key = none :=
  AList.lookup_erase _ _

/-- **An insertion**: the loop runs over the entries kept for now, and the response goes in
unless it is too large on its own. -/
theorem insert_evicts (c : Cache) (key : List Byte) (response : Message)
    (lifetime size policy : Nat) (moments : Moments) :
    ∃ removed left,
      Evicts size ⟨c.live key moments, total (c.live key moments)⟩ removed left ∧
      c.insert key response lifetime size policy moments =
        if size ≤ 8 * 1024 * 1024 then
          ⟨left.entries.insert key ⟨response, moments.inserted,
            moments.expires + lifetime * second, size, policy⟩, left.size + size⟩
        else left := by
  obtain ⟨removed, h⟩ := evicts_evict size (Table.size (c.live key moments))
    ⟨c.live key moments, total (c.live key moments)⟩ rfl le_rfl
  exact ⟨removed, _, h, rfl⟩

theorem books_insert (c : Cache) (key : List Byte) (response : Message)
    (lifetime size policy : Nat) (moments : Moments) :
    Books (c.insert key response lifetime size policy moments) := by
  obtain ⟨removed, left, h, heq⟩ := insert_evicts c key response lifetime size policy moments
  obtain ⟨hbooks, hroom⟩ := h.books rfl
  rw [heq]
  split
  · rename_i hsize
    obtain ⟨hentries, hbytes⟩ := hroom hsize
    have hfree : left.entries.lookup key = none := by
      rw [Option.eq_none_iff_forall_ne_some]
      intro e he
      have hlive := h.lookup_some he
      rw [live_lookup_key] at hlive
      cases hlive
    exact hbooks.put hfree _ hentries hbytes
  · exact hbooks

/-! ## Runs -/

/-- A critical section of the cache. The last one is the hash map's own: it keeps its entries in
any order. -/
inductive Access where
  | look (key : List Byte) (now : Nat)
  | insert (key : List Byte) (response : Message) (lifetime size policy : Nat) (moments : Moments)
  | clear
  | reorder (entries : Table (List Byte) CacheEntry)

/-- The cache after a critical section. -/
def access (c : Cache) : Access → Option Cache
  | .look _ _ => some c
  | .insert key response lifetime size policy moments =>
    some (c.insert key response lifetime size policy moments)
  | .clear => some .empty
  | .reorder entries =>
    if entries.entries.Perm c.entries.entries then some { c with entries := entries } else none

/-- A cache and its critical sections. -/
def accesses : Lts Cache Access := ⟨.empty, access⟩

/-- **One critical section.** -/
theorem Books.access {a : Access} (h : Books c) (hstep : c.access a = some c') : Books c' := by
  cases a with
  | look key now =>
    cases hstep
    exact h
  | insert key response lifetime size policy moments =>
    cases hstep
    exact books_insert c key response lifetime size policy moments
  | clear =>
    cases hstep
    exact books_empty
  | reorder entries =>
    rw [Cache.access] at hstep
    split at hstep
    · rename_i hperm
      cases hstep
      -- sums and lengths do not see the order
      have htotal : total entries = total c.entries :=
        ((hperm.map _).map _).sum_nat
      exact ⟨h.count.trans htotal.symm, hperm.length_eq.trans_le h.entries, h.bytes⟩
    · cases hstep

/-- **The books of the DNS cache balance.** After every run of critical sections, with any keys,
responses, sizes, lifetimes and times, the recorded size is the sum of the sizes of the entries,
there are at most 4096 entries and they have at most 8 MiB. Every insertion from there on
takes the entries of other keys that have not expired and goes through the eviction loop to
its end: each round removes one of the entries inserted earliest, only because a limit would be
exceeded, and takes a size off that is counted. No entry that stays was inserted before one that
the loop removes, and what is neither expired nor of the same key stays or is removed by the
loop. -/
theorem cache_books_balance (c : Cache) (h : accesses.Reaches Lts.anyStep accesses.init c) :
    (c.size = total c.entries ∧ Table.size c.entries ≤ 4096 ∧ c.size ≤ 8 * 1024 * 1024) ∧
    ∀ key response lifetime size policy moments, ∃ removed left,
      Evicts size ⟨c.live key moments, total (c.live key moments)⟩ removed left ∧
      (∀ o ∈ removed, ∀ x ∈ left.entries.entries, o.2.inserted ≤ x.2.inserted) ∧
      (∀ k e, c.entries.lookup k = some e → k ≠ key → moments.retained k < e.expires →
        left.entries.lookup k = some e ∨ ⟨k, e⟩ ∈ removed) ∧
      c.insert key response lifetime size policy moments =
        if size ≤ 8 * 1024 * 1024 then
          ⟨left.entries.insert key ⟨response, moments.inserted,
            moments.expires + lifetime * second, size, policy⟩, left.size + size⟩
        else left := by
  have hbooks : Books c := h.invariant books_empty fun hb _ hstep => hb.access hstep
  refine ⟨⟨hbooks.count, hbooks.entries, hbooks.bytes⟩, ?_⟩
  intro key response lifetime size policy moments
  obtain ⟨removed, left, hloop, heq⟩ := insert_evicts c key response lifetime size policy moments
  refine ⟨removed, left, hloop, hloop.oldest_first, fun k e hk hne hlives => ?_, heq⟩
  refine hloop.stays_or_removed (?_ : (c.live key moments).lookup k = some e)
  rw [live, lookup_erase_if, if_neg hne, lookup_filterMap, hk]
  exact if_pos hlives

/-- Five MiB of one key, and a second later four of another, for which the first has to go. -/
def largeEntries : List Access :=
  [.insert [1] { id := 0, queries := [] } 60 (5 * 1024 * 1024) 0 ⟨fun _ => 0, 0, 0⟩,
    .insert [2] { id := 0, queries := [] } 60 (4 * 1024 * 1024) 0
      ⟨fun _ => second, second, second⟩]

/-- The first entry is evicted for the second, and taken off the count. -/
theorem cache_books_balance_evicted :
    ∃ c, accesses.Reaches Lts.anyStep accesses.init c ∧ c.entries.lookup [1] = none ∧
      (c.entries.lookup [2]).isSome = true ∧ c.size = 4 * 1024 * 1024 ∧
      c.size = total c.entries := by
  have hrun : accesses.Reaches Lts.anyStep accesses.init _ := Lts.run_reaches largeEntries rfl
  exact ⟨_, hrun, rfl, rfl, rfl, (cache_books_balance _ hrun).1.1⟩

end Cache

end ClashMeta.Dns
