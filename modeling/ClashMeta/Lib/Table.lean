import Mathlib.Data.List.AList

/-!
# Finite maps

The hash maps of the modelled programs are Mathlib's association lists without
duplicate keys. Iteration order is the order of the entries, which stands for
the unspecified order of a hash map: no result may depend on it.

The lemmas here read `lookup` after one update as an `if` on the keys, the form
`split` and `simp` use.
-/

universe u v

open Option AList

/-- A finite map from `κ` to `ν`. -/
abbrev Table (κ : Type u) (ν : Type v) := AList fun _ : κ => ν

namespace Table

open List

variable {κ : Type u} {ν : Type v}

/-- The number of entries (`HashMap::len`). -/
def size (m : Table κ ν) : Nat := m.entries.length

/-- The values, in iteration order. -/
def values (m : Table κ ν) : List ν := m.entries.map fun e => e.2

variable [DecidableEq κ] {k j : κ} {v : ν} {m : Table κ ν}

/-- A lookup after an insertion. -/
theorem lookup_insert_if (k j : κ) (v : ν) (m : Table κ ν) :
    (m.insert k v).lookup j = if j = k then some v else m.lookup j := by
  by_cases h : j = k
  · subst h
    rw [if_pos rfl, lookup_insert]
  · rw [if_neg h, lookup_insert_ne h]

/-- A lookup after a removal. -/
theorem lookup_erase_if (k j : κ) (m : Table κ ν) :
    (m.erase k).lookup j = if j = k then none else m.lookup j := by
  by_cases h : j = k
  · subst h
    rw [if_pos rfl, lookup_erase]
  · rw [if_neg h, lookup_erase_ne h]

/-- What is found after an insertion is the new value, or was there before. -/
theorem lookup_insert_cases {w : ν} (h : (m.insert k v).lookup j = some w) :
    (j = k ∧ v = w) ∨ (j ≠ k ∧ m.lookup j = some w) := by
  rw [lookup_insert_if] at h
  split at h
  · exact .inl ⟨‹_›, some.inj h⟩
  · exact .inr ⟨‹_›, h⟩

/-- What is found after a removal was there before, under another key. -/
theorem lookup_erase_some {w : ν} (h : (m.erase k).lookup j = some w) :
    j ≠ k ∧ m.lookup j = some w := by
  rw [lookup_erase_if] at h
  split at h
  · cases h
  · exact ⟨‹_›, h⟩

/-- A new key makes the table larger by one. -/
theorem size_insert_of_lookup_none (h : m.lookup k = none) (v : ν) :
    size (m.insert k v) = size m + 1 := by
  have hk : k ∉ m := lookup_eq_none.mp h
  unfold size
  rw [entries_insert_of_notMem hk, length_cons]

/-- The entries are what can be looked up. -/
theorem mem_entries_iff : (⟨k, v⟩ : Sigma fun _ : κ => ν) ∈ m.entries ↔ m.lookup k = some v :=
  mem_lookup_iff.symm

/-- A new value for an old key keeps the size. -/
theorem size_insert_of_lookup_some {w : ν} (h : m.lookup k = some w) (v : ν) :
    size (m.insert k v) = size m := by
  have hmem : (⟨k, w⟩ : Sigma fun _ : κ => ν) ∈ m.entries := mem_entries_iff.mpr h
  have hpos := length_pos_of_mem hmem
  unfold size
  rw [entries_insert, length_cons, List.kerase, length_eraseP_of_mem hmem (decide_eq_true rfl)]
  omega

/-- A removal does not make the table larger. -/
theorem size_erase_le (k : κ) (m : Table κ ν) : size (m.erase k) ≤ size m :=
  (kerase_sublist k m.entries).length_le

/-- A removal takes exactly the value of its key. -/
theorem perm_values_erase (h : m.lookup k = some v) :
    (values m).Perm (v :: values (m.erase k)) := by
  have hkey : k ∈ m.entries.keys := mem_keys_of_mem (mem_entries_iff.mpr h)
  obtain ⟨w, before, behind, -, hentries, herase⟩ := exists_of_kerase hkey
  have hmem : (⟨k, w⟩ : Sigma fun _ : κ => ν) ∈ m.entries := by
    rw [hentries]
    exact mem_append_right _ mem_cons_self
  have hw : w = v := some.inj ((mem_entries_iff.mp hmem).symm.trans h)
  show (m.entries.map _).Perm (v :: (List.kerase k m.entries).map _)
  rw [herase, hentries, hw, map_append, map_append]
  exact perm_middle

theorem erase_singleton (k : κ) (v : ν) : (singleton k v).erase k = (∅ : Table κ ν) :=
  AList.ext (kerase_cons_eq rfl)

theorem lookup_singleton (k : κ) (v : ν) : (singleton k v : Table κ ν).lookup k = some v := by
  rw [← insert_empty, lookup_insert]

theorem erase_insert_singleton (h : k ≠ j) (w v : ν) :
    ((singleton j w).insert k v).erase k = (singleton j w : Table κ ν) := by
  have hmem : k ∉ (singleton j w : Table κ ν) := by
    rw [AList.mem_keys, AList.keys_singleton, mem_singleton]
    exact h
  refine AList.ext ?_
  rw [insert_of_notMem hmem]
  exact kerase_cons_eq rfl

/-- The size depends on the lookups only, not on the order of the entries. -/
theorem size_congr {m m' : Table κ ν} (h : ∀ k, m.lookup k = m'.lookup k) : size m = size m' := by
  have hperm : m.entries.Perm m'.entries := by
    refine lookup_ext m.nodupKeys m'.nodupKeys fun k v => ?_
    show v ∈ m.lookup k ↔ v ∈ m'.lookup k
    rw [h k]
  exact hperm.length_eq

/-- The values are those of some key. -/
theorem mem_values_iff : v ∈ values m ↔ ∃ k, m.lookup k = some v := by
  unfold values
  rw [List.mem_map]
  constructor
  · rintro ⟨⟨k, w⟩, hmem, rfl⟩
    exact ⟨k, mem_entries_iff.mp hmem⟩
  · rintro ⟨k, hk⟩
    exact ⟨⟨k, v⟩, mem_entries_iff.mpr hk, rfl⟩

/-! ## Going over all entries -/

/-- One entry, changed or dropped. -/
def changed (f : κ → ν → Option ν) (e : Sigma fun _ : κ => ν) : Option (Sigma fun _ : κ => ν) :=
  (f e.1 e.2).map fun v => ⟨e.1, v⟩

/-- Every entry is changed or dropped (`HashMap::retain`). -/
def filterMap (f : κ → ν → Option ν) (m : Table κ ν) : Table κ ν where
  entries := m.entries.filterMap (changed f)
  nodupKeys := by
    have hkeys : ∀ l : List (Sigma fun _ : κ => ν),
        ((l.filterMap (changed f)).map Sigma.fst).Sublist (l.map Sigma.fst) := by
      intro l
      induction l with
      | nil => exact .slnil
      | cons e l ih =>
        cases he : f e.1 e.2 with
        | none => simpa [changed, he] using ih.cons e.1
        | some v => simpa [changed, he] using ih.cons_cons e.1
    exact List.Nodup.sublist (hkeys m.entries) m.nodupKeys

/-- A lookup goes through the change of the entry. -/
theorem lookup_filterMap (f : κ → ν → Option ν) (m : Table κ ν) (k : κ) :
    (filterMap f m).lookup k = (m.lookup k).bind (f k) := by
  refine Option.ext fun v => ?_
  rw [← mem_entries_iff, bind_eq_some_iff]
  show _ ∈ m.entries.filterMap _ ↔ _
  rw [mem_filterMap]
  constructor
  · rintro ⟨⟨j, w⟩, hmem, hv⟩
    obtain ⟨v', hf, heq⟩ := map_eq_some_iff.mp hv
    cases heq
    exact ⟨w, mem_entries_iff.mp hmem, hf⟩
  · rintro ⟨w, hw, hf⟩
    exact ⟨⟨k, w⟩, mem_entries_iff.mpr hw, by rw [changed, hf]; rfl⟩

omit [DecidableEq κ] in
/-- Dropping entries does not make the table larger. -/
theorem size_filterMap_le (f : κ → ν → Option ν) (m : Table κ ν) : size (filterMap f m) ≤ size m :=
  length_filterMap_le _ _

/-! ## A table and its index -/

/-- `f` is the index of `g` under `key`: it finds the entry `v ↦ x` of `g` by the key of
that entry, and nothing else. -/
def Indexes {μ : Type*} [DecidableEq ν] (key : ν → μ → κ) (f : Table κ ν) (g : Table ν μ) : Prop :=
  ∀ k v, f.lookup k = some v ↔ ∃ x, g.lookup v = some x ∧ key v x = k

section

variable {μ : Type*} [DecidableEq ν] {key : ν → μ → κ} {f : Table κ ν} {g : Table ν μ}

/-- Empty tables index each other. -/
theorem indexes_empty : Indexes key (∅ : Table κ ν) (∅ : Table ν μ) := by
  intro k v
  constructor
  · exact nofun
  · exact fun ⟨_, h, _⟩ => nomatch h

/-- A new entry enters both tables under its key. -/
theorem Indexes.insert (h : Indexes key f g) {v : ν} {x : μ} (hv : g.lookup v = none)
    (hk : f.lookup (key v x) = none) : Indexes key (f.insert (key v x) v) (g.insert v x) := by
  intro k w
  rw [lookup_insert_if, lookup_insert_if]
  by_cases hw : w = v
  · subst hw
    rw [if_pos rfl]
    by_cases hkk : k = key w x
    · subst hkk
      rw [if_pos rfl]
      exact ⟨fun _ => ⟨x, rfl, rfl⟩, fun _ => rfl⟩
    · -- the old index has no other key for the new entry
      rw [if_neg hkk, h k w, hv]
      constructor
      · exact fun ⟨_, hx, _⟩ => nomatch hx
      · rintro ⟨y, hy, hky⟩
        cases hy
        exact absurd hky.symm hkk
  · rw [if_neg hw, ← h k w]
    by_cases hkk : k = key v x
    · subst hkk
      rw [if_pos rfl, hk]
      constructor
      · exact fun he => absurd (some.inj he).symm hw
      · exact nofun
    · rw [if_neg hkk]

/-- An indexed entry has one key. -/
theorem Indexes.injective (h : Indexes key f g) {k j : κ} {v : ν} (hk : f.lookup k = some v)
    (hj : f.lookup j = some v) : k = j := by
  obtain ⟨x, hx, rfl⟩ := (h k v).mp hk
  obtain ⟨y, hy, rfl⟩ := (h j v).mp hj
  rw [hx] at hy
  cases hy
  rfl

end

end Table
