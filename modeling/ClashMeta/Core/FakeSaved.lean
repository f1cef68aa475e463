import ClashMeta.Core.FakeIp

/-!
# Saved fake addresses

The profile keeps the fake-IP map across restarts as a list of names and addresses:
`export_fake` lists it in the order of a hash map and leaves the counters out, and
`import_fake` checks every entry and builds the counters again
(core/src/dns.rs:175-224, core/src/profile.rs:12-62).
-/

namespace ClashMeta

open List Table

/-! ## Export and import -/

/-- `Resolver::export_fake` (dns.rs:175-183). -/
def exportFake (m : FakeMap) : List (Str × IpAddr) := m.byIp.entries.map fun e => (e.2, e.1)

/-- `Resolver::import_fake` on a resolver with a map: the new map is put in at the end
(dns.rs:222). -/
def importInto (cfg : FakeConfig) (parseName : Str → Except String Unit) (m : FakeMap)
    (entries : List (Str × IpAddr)) : FakeMap × Except String Unit :=
  match importFake cfg parseName entries with
  | .ok built => (built, .ok ())
  | .error e => (m, .error e)

/-- The answers to some calls of `fake_address`, one after another. -/
def fakeAnswers (cfg : FakeConfig) : FakeMap → List (Str × Bool) → List (Except String IpAddr)
  | _, [] => []
  | m, call :: calls =>
    (fakeAddress cfg m call.1 call.2).2 ::
      fakeAnswers cfg (fakeAddress cfg m call.1 call.2).1 calls

/-- Maps with the same entries and counters. -/
structure Same (m m' : FakeMap) : Prop where
  byName : ∀ key, m.byName.lookup key = m'.byName.lookup key
  byIp : ∀ ip, m.byIp.lookup ip = m'.byIp.lookup ip
  next4 : m.next4 = m'.next4
  next6 : m.next6 = m'.next6

theorem mem_exportFake {m : FakeMap} {host : Str} {ip : IpAddr} :
    (host, ip) ∈ exportFake m ↔ m.byIp.lookup ip = some host := by
  unfold exportFake
  rw [mem_map, ← mem_entries_iff]
  constructor
  · rintro ⟨⟨a, h⟩, hmem, heq⟩
    cases heq
    exact hmem
  · exact fun hmem => ⟨_, hmem, rfl⟩

theorem length_exportFake (m : FakeMap) : (exportFake m).length = m.byIp.size :=
  length_map _

/-! ## Counters -/

/-- The counter stands right behind the last of some addresses of a pool, or at its start. The
addresses determine it, so a map that is built again has the counters it had. -/
structure Topped {w : Nat} (net : Net w) (next : Nat) (used : BitVec w → Prop) : Prop where
  low : 2 ≤ next
  above : ∀ a, used a → a.toNat < net.network + next
  top : next = 2 ∨ ∃ a, used a ∧ a.toNat + 1 = net.network + next

namespace Topped

variable {w : Nat} {net : Net w} {next next' : Nat} {used used' : BitVec w → Prop}

theorem unique (h : Topped net next used) (h' : Topped net next' used) : next = next' := by
  have hlow := h.low
  have hlow' := h'.low
  rcases h.top with heq | ⟨a, ha, htop⟩
  · rcases h'.top with heq' | ⟨b, hb, htop'⟩
    · rw [heq, heq']
    · have := h.above b hb
      omega
  · have := h'.above a ha
    rcases h'.top with heq' | ⟨b, hb, htop'⟩
    · omega
    · have := h.above b hb
      omega

theorem congr (h : Topped net next used) (heq : ∀ a, used a ↔ used' a) : Topped net next used' := by
  rwa [show used' = used from funext fun a => propext (heq a).symm]

theorem insert (h : Topped net next used) {a : BitVec w} (ha : net.network + 2 ≤ a.toNat) :
    Topped net (max next (a.toNat - net.network + 1)) fun b => b = a ∨ used b where
  low := h.low.trans (le_max_left _ _)
  above := by
    rintro b (rfl | hb)
    · omega
    · have := h.above b hb
      omega
  top := by
    by_cases hle : next ≤ a.toNat - net.network + 1
    · exact .inr ⟨a, .inl rfl, by omega⟩
    · rw [max_eq_left (by omega)]
      exact h.top.imp_right fun ⟨b, hb, htop⟩ => ⟨b, .inr hb, htop⟩

end Topped

/-- The addresses of a map in each family. -/
def Uses (m : FakeMap) (ip : IpAddr) : Prop := ∃ host, m.byIp.lookup ip = some host

/-- Both counters are topped. -/
structure Exact (cfg : FakeConfig) (m : FakeMap) : Prop where
  v4 : Topped cfg.range m.next4 fun a => Uses m (.v4 a)
  v6 : Topped cfg.range6 m.next6 fun a => Uses m (.v6 a)

section

variable {cfg : FakeConfig} {m m' : FakeMap} {host : Str} {ip a : IpAddr}

theorem uses_record : Uses (m.record host ip) a ↔ a = ip ∨ Uses m a := by
  unfold Uses FakeMap.record
  simp only [lookup_insert_if]
  by_cases h : a = ip <;> simp [h]

theorem exact_new : Exact cfg FakeMap.new := by
  have hnone : ∀ ip, ¬Uses FakeMap.new ip := fun ip ⟨_, h⟩ => (by cases h)
  exact ⟨⟨Nat.le_refl 2, fun a h => absurd h (hnone _), .inl rfl⟩,
    ⟨Nat.le_refl 2, fun a h => absurd h (hnone _), .inl rfl⟩⟩

theorem Exact.record4 (h : Exact cfg m) (host : Str) {a : BitVec 32}
    (ha : cfg.range.network + 2 ≤ a.toNat) :
    Exact cfg ({ m with next4 := max m.next4 (a.toNat - cfg.range.network + 1) }.record host
      (.v4 a)) where
  v4 := (h.v4.insert ha).congr fun b => by
    rw [uses_record, IpAddr.v4.injEq]
    exact .rfl
  v6 := h.v6.congr fun b => by
    rw [uses_record]
    exact ⟨.inr, fun hb => hb.resolve_left fun heq => (by cases heq)⟩

theorem Exact.record6 (h : Exact cfg m) (host : Str) {a : BitVec 128}
    (ha : cfg.range6.network + 2 ≤ a.toNat) :
    Exact cfg ({ m with next6 := max m.next6 (a.toNat - cfg.range6.network + 1) }.record host
      (.v6 a)) where
  v4 := h.v4.congr fun b => by
    rw [uses_record]
    exact ⟨.inr, fun hb => hb.resolve_left fun heq => (by cases heq)⟩
  v6 := (h.v6.insert ha).congr fun b => by
    rw [uses_record, IpAddr.v6.injEq]
    exact .rfl

theorem Exact.allocated (h : Exact cfg m) {v6 : Bool} (halloc : Allocated cfg m v6 m' ip) :
    Exact cfg (m'.record host ip) := by
  cases halloc with
  | @v4 a hoff hin hcast =>
    have hlow := h.v4.low
    have hnext : max m.next4 (a.toNat - cfg.range.network + 1) = m.next4 + 1 := by omega
    rw [← hnext]
    exact h.record4 host (by omega)
  | @v6 a hoff hin =>
    have hlow := h.v6.low
    have hnext : max m.next6 (a.toNat - cfg.range6.network + 1) = m.next6 + 1 := by omega
    rw [← hnext]
    exact h.record6 host (by omega)

end

/-! ## Maps that grow from the empty one -/

/-- The step condition: the call is for a name of some kind. -/
def CallFor (P : Str → Prop) (_ : FakeMap) (call : Str × Bool) : Prop := P call.1

/-- What holds of every map that grew from the empty one by calls for names of some kind: besides
its consistency, its counters are topped and its names are of that kind. -/
structure Grown (cfg : FakeConfig) (P : Str → Prop) (m : FakeMap) : Prop
    extends FakeInv cfg m where
  counters : Exact cfg m
  names : ∀ ip host, m.byIp.lookup ip = some host → P host
  sizes : m.byIp.size = m.byName.size
  /-- The IPv6 counter has moved once for a name at the most. -/
  far6 : m.next6 ≤ 2 + m.byName.size

section

variable {cfg : FakeConfig} {P : Str → Prop} {m m' : FakeMap} {host : Str}

theorem grown_new : Grown cfg P FakeMap.new :=
  ⟨fakeInv_new, exact_new, fun ip host h => (by cases h), rfl, Nat.le_refl 2⟩

theorem Grown.noOverflow (h : Grown cfg P m) (call : Str × Bool) : NoOverflow m call := by
  rintro ⟨-, -, -, hlast⟩
  have hfar := h.far6
  have hroom := h.room
  unfold FakeMap.capacity at hroom
  omega

theorem Allocated.next6_le {v6 : Bool} {ip : IpAddr} (h : Allocated cfg m v6 m' ip) :
    m'.next6 ≤ m.next6 + 1 := by
  cases h with
  | v4 => exact Nat.le_succ _
  | v6 => exact le_rfl

/-- **One call** for such a name. -/
theorem Grown.fakeAddress (h : Grown cfg P m) (hhost : P host) (v6 : Bool) :
    Grown cfg P (fakeAddress cfg m host v6).1 := by
  have hinv := (fakeAddress_step h.toFakeInv (h.noOverflow (host, v6))).1
  have hcall := call_step cfg m host v6
  generalize ClashMeta.fakeAddress cfg m host v6 = result at hinv hcall ⊢
  cases hcall with
  | held hname | refused => exact h
  | @fresh m' ip hname hroom halloc =>
    have hnew : Allocated cfg m v6 m' ip := by
      cases v6 with
      | false => exact allocated_of_allocate4 h.toFakeInv halloc
      | true =>
        refine allocated_of_allocate6 h.toFakeInv (fun hlast => ?_) halloc
        exact h.noOverflow (host, true) ⟨rfl, hname, hroom, hlast⟩
    have hunused := hnew.unused h.toFakeInv
    have hfar := h.far6
    have hnext := hnew.next6_le
    have hsizes := h.sizes
    have hbyName : Table.size (m'.record host ip).byName = m.byName.size + 1 := by
      rw [FakeMap.record, hnew.isIpv6, hnew.advanced.byName, size_insert_of_lookup_none hname]
    have hbyIp : Table.size (m'.record host ip).byIp = m.byIp.size + 1 := by
      rw [FakeMap.record, hnew.advanced.byIp, size_insert_of_lookup_none hunused]
    change Grown cfg P (m'.record host ip)
    refine ⟨hinv, h.counters.allocated hnew, fun a owner ha => ?_, by omega, ?_⟩
    · change (m'.byIp.insert ip host).lookup a = some owner at ha
      rw [hnew.advanced.byIp] at ha
      obtain ⟨-, rfl⟩ | ⟨-, ha⟩ := lookup_insert_cases ha
      · exact hhost
      · exact h.names a owner ha
    · show m'.next6 ≤ 2 + Table.size (m'.record host ip).byName
      omega

/-- **Every run** of such calls. -/
theorem grown_of_reaches (h : (fakeCalls cfg).Reaches (CallFor P) FakeMap.new m) :
    Grown cfg P m := by
  refine h.invariant grown_new ?_
  intro s t call hs hcall hstep
  cases hstep
  exact hs.fakeAddress hcall call.2

end

/-! ## Importing what was exported -/

/-- A name as `answer` passes it on, in lower case and without a final dot, which the DNS
library's parser accepts. -/
def Passable (parseName : Str → Except String Unit) (host : Str) : Prop :=
  normHost host = host ∧ parseName host = .ok ()

/-- Entries that the import accepts, in whichever order they come: passable names, addresses
below the counters of some map, and no two with the same address or key. -/
structure Importable (cfg : FakeConfig) (parseName : Str → Except String Unit) (saved : FakeMap)
    (entries : List (Str × IpAddr)) : Prop where
  high6 : saved.next6 < 2 ^ 128
  names : ∀ e ∈ entries, Passable parseName e.1
  placed : ∀ e ∈ entries, Placed cfg saved e.2
  ips : entries.Pairwise fun a b => a.2 ≠ b.2
  keys : entries.Pairwise fun a b => (a.1, a.2.isIpv6) ≠ (b.1, b.2.isIpv6)

section

variable {cfg : FakeConfig} {parseName : Str → Except String Unit} {saved m : FakeMap}
  {entries : List (Str × IpAddr)} {e : Str × IpAddr}

theorem Importable.perm {entries' : List (Str × IpAddr)}
    (h : Importable cfg parseName saved entries) (hperm : entries'.Perm entries) :
    Importable cfg parseName saved entries' where
  high6 := h.high6
  names := fun e he => h.names e (hperm.subset he)
  placed := fun e he => h.placed e (hperm.subset he)
  ips := (hperm.pairwise_iff fun hne => hne.symm).mpr h.ips
  keys := (hperm.pairwise_iff fun hne => hne.symm).mpr h.keys

/-- **What is exported can be imported.** -/
theorem Grown.importable (h : Grown cfg (Passable parseName) m) :
    Importable cfg parseName m (exportFake m) where
  high6 := h.high6
  names := fun e he => h.names e.2 e.1 (mem_exportFake.mp he)
  placed := fun e he => h.placed e.2 e.1 (mem_exportFake.mp he)
  ips := by
    refine pairwise_map.mpr ((pairwise_map.mp m.byIp.nodupKeys).imp ?_)
    exact fun hne => hne
  keys := by
    refine pairwise_map.mpr ((pairwise_map.mp m.byIp.nodupKeys).imp_of_mem ?_)
    -- equal keys would find one address for both entries
    intro a b ha hb hne hkeys
    have hfind : ∀ x : Sigma fun _ : IpAddr => Str, x ∈ m.byIp.entries →
        m.byName.lookup (x.2, x.1.isIpv6) = some x.1 := fun x hx =>
      (h.inverse x.2 x.1.isIpv6 x.1).mpr ⟨mem_entries_iff.mp hx, rfl⟩
    have hsame := hfind a ha
    rw [hkeys, hfind b hb] at hsame
    exact hne (Option.some.inj hsame).symm

theorem importCounters_placed {ip : IpAddr} (hplaced : Placed cfg saved ip)
    (hhigh : saved.next6 < 2 ^ 128) (hexact : Exact cfg m) (host : Str) :
    ∃ m', importCounters cfg m ip = .ok m' ∧ m'.byName = m.byName ∧ m'.byIp = m.byIp ∧
      Exact cfg (m'.record host ip) := by
  cases ip with
  | v4 a =>
    obtain ⟨⟨hin, hlow, -⟩, hcast⟩ := hplaced
    refine ⟨{ m with next4 := max m.next4 (a.toNat - cfg.range.network + 1) }, ?_, rfl, rfl,
      hexact.record4 host hlow⟩
    simp only [importCounters]
    rw [if_neg (not_not_intro ⟨hin, hcast⟩), if_neg (by omega)]
  | v6 a =>
    obtain ⟨hin, hlow, hbelow⟩ := hplaced
    refine ⟨{ m with next6 := max m.next6 (a.toNat - cfg.range6.network + 1) }, ?_, rfl, rfl,
      hexact.record6 host hlow⟩
    simp only [importCounters]
    rw [if_neg (not_not_intro hin), if_neg (by omega), if_neg (by omega)]

/-- **One entry** with a free address and a free key. -/
theorem importEntry_accepts (hname : Passable parseName e.1) (hplaced : Placed cfg saved e.2)
    (hhigh : saved.next6 < 2 ^ 128) (hexact : Exact cfg m) (hip : m.byIp.lookup e.2 = none)
    (hkey : m.byName.lookup (e.1, e.2.isIpv6) = none) :
    ∃ m', importEntry cfg parseName m e = .ok m' ∧ Exact cfg m' ∧
      m'.byIp = m.byIp.insert e.2 e.1 ∧
      m'.byName = m.byName.insert (e.1, e.2.isIpv6) e.2 := by
  obtain ⟨hnorm, hparse⟩ := hname
  obtain ⟨m', hcount, hbyName, hbyIp, hexact'⟩ := importCounters_placed hplaced hhigh hexact e.1
  refine ⟨m'.record e.1 e.2, ?_, hexact', by rw [FakeMap.record, hbyIp],
    by rw [FakeMap.record, hbyName]⟩
  unfold importEntry
  simp only [hparse, hcount, bind, Except.bind]
  rw [hnorm, if_pos ⟨by rw [hbyIp, hip], by rw [hbyName, hkey]⟩]
  rfl

/-- **The import loop**: all entries go in. -/
theorem importLoop_accepts (h : Importable cfg parseName saved entries) (hexact : Exact cfg m)
    (hips : ∀ e ∈ entries, m.byIp.lookup e.2 = none)
    (hkeys : ∀ e ∈ entries, m.byName.lookup (e.1, e.2.isIpv6) = none) :
    ∃ m', entries.foldlM (importEntry cfg parseName) m = .ok m' ∧ Exact cfg m' ∧
      ∀ ip host, m'.byIp.lookup ip = some host ↔
        m.byIp.lookup ip = some host ∨ (host, ip) ∈ entries := by
  induction entries generalizing m with
  | nil => exact ⟨m, rfl, hexact, fun ip host => by simp⟩
  | cons e rest ih =>
    obtain ⟨hhigh, hnames, hplaced, hdistinct, hdistinct'⟩ := h
    rw [forall_mem_cons] at hnames hplaced hips hkeys
    rw [pairwise_cons] at hdistinct hdistinct'
    obtain ⟨m₁, hentry, hexact₁, hbyIp, hbyName⟩ :=
      importEntry_accepts hnames.1 hplaced.1 hhigh hexact hips.1 hkeys.1
    -- the later entries are still new, since the saved ones are distinct
    have hips₁ : ∀ x ∈ rest, m₁.byIp.lookup x.2 = none := by
      intro x hx
      rw [hbyIp, lookup_insert_if, if_neg (hdistinct.1 x hx).symm]
      exact hips.2 x hx
    have hkeys₁ : ∀ x ∈ rest, m₁.byName.lookup (x.1, x.2.isIpv6) = none := by
      intro x hx
      rw [hbyName, lookup_insert_if, if_neg (hdistinct'.1 x hx).symm]
      exact hkeys.2 x hx
    obtain ⟨m', hloop, hexact', hlookup⟩ :=
      ih ⟨hhigh, hnames.2, hplaced.2, hdistinct.2, hdistinct'.2⟩ hexact₁ hips₁ hkeys₁
    refine ⟨m', ?_, hexact', fun ip host => ?_⟩
    · rw [foldlM_cons, hentry]
      exact hloop
    · rw [hlookup ip host, hbyIp, lookup_insert_if, mem_cons, ← or_assoc]
      refine or_congr_left ?_
      by_cases heq : ip = e.2
      · subst heq
        rw [if_pos rfl, hips.1]
        constructor
        · exact fun hhost => .inr (Prod.ext (Option.some.inj hhost).symm rfl)
        · rintro (hhost | hhost)
          · cases hhost
          · rw [← hhost]
      · rw [if_neg heq]
        constructor
        · exact .inl
        · rintro (hhost | hhost)
          · exact hhost
          · exact absurd (congrArg Prod.snd hhost) heq

end

/-! ## The same map again -/

namespace Same

variable {m m' : FakeMap}

theorem of_byIp {cfg : FakeConfig} (hcons : Consistent cfg m) (hcons' : Consistent cfg m')
    (hexact : Exact cfg m) (hexact' : Exact cfg m')
    (h : ∀ ip host, m.byIp.lookup ip = some host ↔ m'.byIp.lookup ip = some host) : Same m m' where
  byName := by
    rintro ⟨host, v6⟩
    refine Option.ext fun ip => ?_
    rw [hcons.inverse, hcons'.inverse, h]
  byIp := fun ip => Option.ext fun host => h ip host
  next4 := hexact.v4.unique (hexact'.v4.congr fun a => exists_congr fun host => (h _ host).symm)
  next6 := hexact.v6.unique (hexact'.v6.congr fun a => exists_congr fun host => (h _ host).symm)

theorem record (h : Same m m') (host : Str) (ip : IpAddr) :
    Same (m.record host ip) (m'.record host ip) where
  byName := fun key => by
    unfold FakeMap.record
    rw [lookup_insert_if, lookup_insert_if, h.byName]
  byIp := fun a => by
    unfold FakeMap.record
    rw [lookup_insert_if, lookup_insert_if, h.byIp]
  next4 := h.next4
  next6 := h.next6

theorem allocate (h : Same m m') (cfg : FakeConfig) (v6 : Bool) :
    (∃ e, (if v6 then allocate6 cfg m else allocate4 cfg m) = .error e ∧
      (if v6 then allocate6 cfg m' else allocate4 cfg m') = .error e) ∨
    ∃ n n' ip, (if v6 then allocate6 cfg m else allocate4 cfg m) = .ok (n, ip) ∧
      (if v6 then allocate6 cfg m' else allocate4 cfg m') = .ok (n', ip) ∧ Same n n' := by
  obtain ⟨hname, hip, h4, h6⟩ := h
  cases v6 with
  | true =>
    simp only [if_true, allocate6, h6]
    split
    · exact .inl ⟨_, rfl, rfl⟩
    split
    · exact .inr ⟨_, _, _, rfl, rfl, ⟨hname, hip, h4, rfl⟩⟩
    · exact .inl ⟨_, rfl, rfl⟩
  | false =>
    simp only [Bool.false_eq_true, if_false, allocate4, h4]
    split
    · exact .inl ⟨_, rfl, rfl⟩
    split
    · exact .inr ⟨_, _, _, rfl, rfl, ⟨hname, hip, rfl, h6⟩⟩
    · exact .inl ⟨_, rfl, rfl⟩

/-- **Equal maps answer a call alike**, and stay equal. -/
theorem fakeAddress (h : Same m m') (cfg : FakeConfig) (host : Str) (v6 : Bool) :
    (fakeAddress cfg m host v6).2 = (fakeAddress cfg m' host v6).2 ∧
      Same (fakeAddress cfg m host v6).1 (fakeAddress cfg m' host v6).1 := by
  have hsize : m.byName.size = m'.byName.size := size_congr h.byName
  unfold ClashMeta.fakeAddress
  rw [h.byName, hsize]
  cases m'.byName.lookup (host, v6) with
  | some ip => exact ⟨rfl, h⟩
  | none =>
    by_cases hfull : FakeMap.capacity ≤ m'.byName.size
    · simp only [if_pos hfull]
      exact ⟨trivial, h⟩
    · simp only [if_neg hfull]
      rcases h.allocate cfg v6 with ⟨e, hm, hm'⟩ | ⟨n, n', ip, hm, hm', hsame⟩
      · rw [hm, hm']
        exact ⟨rfl, h⟩
      · rw [hm, hm']
        exact ⟨rfl, hsame.record host ip⟩

theorem fakeAnswers (h : Same m m') (cfg : FakeConfig) (calls : List (Str × Bool)) :
    fakeAnswers cfg m calls = fakeAnswers cfg m' calls := by
  induction calls generalizing m m' with
  | nil => rfl
  | cons call calls ih =>
    obtain ⟨hanswer, hsame⟩ := h.fakeAddress cfg call.1 call.2
    rw [ClashMeta.fakeAnswers, ClashMeta.fakeAnswers, hanswer, ih hsame]

end Same

/-- **Fake-IP persistence is exact.** For every configuration, every DNS name parser and every
map that grew from the empty one by calls of `fake_address` for passable names: importing the
exported entries in any order into a new resolver succeeds and gives a map with the same entries
both ways and the same counters, which answers every later list of calls alike. And an import that
fails leaves the map that was there. -/
theorem fake_persistence_exact (cfg : FakeConfig) (parseName : Str → Except String Unit) :
    (∀ m, (fakeCalls cfg).Reaches (CallFor (Passable parseName)) FakeMap.new m →
      ∀ entries, entries.Perm (exportFake m) →
        ∃ m', importInto cfg parseName FakeMap.new entries = (m', .ok ()) ∧ Same m m' ∧
          ∀ calls, fakeAnswers cfg m calls = fakeAnswers cfg m' calls) ∧
    ∀ m m' entries e, importInto cfg parseName m entries = (m', .error e) → m' = m := by
  refine ⟨fun m hrun entries hperm => ?_, fun m m' entries e h => ?_⟩
  · have hgrown := grown_of_reaches hrun
    have hnew : ∀ ip host, FakeMap.new.byIp.lookup ip ≠ some host := fun ip host h => (by cases h)
    obtain ⟨m', hloop, hexact, hlookup⟩ := importLoop_accepts (hgrown.importable.perm hperm)
      exact_new (fun _ _ => rfl) (fun _ _ => rfl)
    have hlength : ¬FakeMap.capacity < entries.length := by
      have hroom := hgrown.room
      have hsizes := hgrown.sizes
      rw [hperm.length_eq, length_exportFake]
      omega
    have himport : importFake cfg parseName entries = .ok m' := by
      rw [importFake, if_neg hlength]
      exact hloop
    have hcons := (fakeInv_of_starts (.inr ⟨entries, himport⟩)).toConsistent
    have hsame : Same m m' := by
      refine .of_byIp hgrown.toConsistent hcons hgrown.counters hexact fun ip host => ?_
      rw [hlookup, or_iff_right (hnew ip host), hperm.mem_iff, mem_exportFake]
    refine ⟨m', ?_, hsame, hsame.fakeAnswers cfg⟩
    rw [importInto, himport]
  · unfold importInto at h
    split at h
    · cases h
    · cases h
      rfl

/-- Two names, one for each family, saved in the other order. -/
theorem fake_persistence_exact_two :
    ∃ m m', exportFake m = [("b.test".toList, .v6 2), ("a.test".toList, .v4 0xc6120002)] ∧
      importInto wholeRange (fun _ => .ok ()) FakeMap.new
        [("a.test", .v4 0xc6120002), ("b.test", .v6 2)] = (m', .ok ()) ∧
      Same m m' := by
  have hfirst : Passable (fun _ => .ok ()) "a.test" := ⟨rfl, rfl⟩
  have hsecond : Passable (fun _ => .ok ()) "b.test" := ⟨rfl, rfl⟩
  have hrun : (fakeCalls wholeRange).Reaches (CallFor (Passable fun _ => .ok ())) FakeMap.new _ :=
    .tail (.single ⟨("a.test", false), hfirst, rfl⟩) ⟨("b.test", true), hsecond, rfl⟩
  obtain ⟨m', himport, hsame, -⟩ := (fake_persistence_exact wholeRange fun _ => .ok ()).1 _ hrun
    [("a.test", .v4 0xc6120002), ("b.test", .v6 2)] (.swap _ _ _)
  exact ⟨_, m', rfl, himport, hsame⟩

end ClashMeta
