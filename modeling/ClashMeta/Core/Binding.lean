import ClashMeta.Core.Resources

/-!
# Binding references

`Resources::load` (core/src/resources.rs:100-256) puts the geo data under its tags first, and
then binds the rule providers against it, one after another in the order of a hash map. A
bound condition has no references left, so evaluating it never meets the leaf that silently
is false.
-/

namespace ClashMeta

open List Except

namespace Matcher

/-- The conditions directly inside a condition. -/
def operands : Matcher → List Matcher
  | and nodes => nodes
  | or nodes => nodes
  | not m => [m]
  | noResolve m => [m]
  | _ => []

mutual

variable {P : Matcher → Prop}

/-- Induction over the conditions inside a condition. -/
@[elab_as_elim]
theorem operandsInduction (step : ∀ m, (∀ n ∈ m.operands, P n) → P m) (m : Matcher) : P m := by
  refine step m ?_
  cases m with
  | and nodes | or nodes => exact forall_mem_of_operands step nodes
  | not m | noResolve m =>
    intro n hn
    rw [mem_singleton.mp hn]
    exact operandsInduction step m
  | _ => exact fun n hn => (by cases hn)

/-- The same for each of the conditions. -/
theorem forall_mem_of_operands (step : ∀ m, (∀ n ∈ m.operands, P n) → P m) (nodes : List Matcher) :
    ∀ n ∈ nodes, P n := by
  cases nodes with
  | nil => exact fun n hn => (by cases hn)
  | cons m ms =>
    exact forall_mem_cons.mpr
      ⟨operandsInduction step m, forall_mem_of_operands step ms⟩

end

/-- One condition stands in another, at some depth. -/
def Within : Matcher → Matcher → Prop := Relation.ReflTransGen fun n m => n ∈ m.operands

/-- The leaves that `bind` replaces. -/
def IsReference : Matcher → Prop
  | geoIp _ => True
  | geoSite _ => True
  | ruleSet _ => True
  | _ => False

theorem referencesAll_eq_flatMap (nodes : List Matcher) :
    referencesAll nodes = nodes.flatMap references := by
  induction nodes with
  | nil => rw [referencesAll, flatMap_nil]
  | cons m ms ih => rw [referencesAll, flatMap_cons, ih]

variable {m n : Matcher}

/-- What a condition inside refers to, the condition refers to. -/
theorem mem_references_of_operand (h : n ∈ m.operands) {ref : RefKind × Str}
    (href : ref ∈ n.references) : ref ∈ m.references := by
  cases m with
  | and nodes | or nodes =>
    rw [references, referencesAll_eq_flatMap]
    exact mem_flatMap.mpr ⟨n, h, href⟩
  | not m | noResolve m =>
    rw [mem_singleton.mp h] at href
    exact href
  | _ => cases h

/-- In a condition without references no leaf is one. -/
theorem not_isReference_of_within (h : n.Within m) (hm : m.references = []) : ¬ n.IsReference := by
  have hnone : ∀ ref, ref ∉ n.references := by
    induction h using Relation.ReflTransGen.head_induction_on with
    | refl =>
      intro ref href
      rw [hm] at href
      cases href
    | head hstep _ ih => exact fun ref href => ih ref (mem_references_of_operand hstep href)
  intro href
  cases n with
  | geoIp name => exact hnone (.geoIp, name) mem_cons_self
  | geoSite name => exact hnone (.geoSite, name) mem_cons_self
  | ruleSet name => exact hnone (.ruleSet, name) mem_cons_self
  | _ => exact href

/-! ## What binding does -/

section

variable {resolve resolve' : RefKind → Str → Except String Matcher}

theorem bindAll_eq_mapM (nodes : List Matcher) :
    bindAll resolve nodes = nodes.mapM (bind resolve) := by
  induction nodes with
  | nil => rfl
  | cons m ms ih => rw [bindAll, mapM_cons, ih]

variable {bs nodes : List Matcher}

/-- The conditions are bound one by one. -/
theorem bindAll_eq_ok_iff :
    bindAll resolve nodes = .ok bs ↔ Forall₂ (fun m b => m.bind resolve = .ok b) nodes bs := by
  rw [bindAll_eq_mapM, mapM_eq_ok_iff]

variable {α : Type}

/-- A result under a constructor. -/
theorem map_bind_eq_ok_iff {x : Except String α} {f : α → Matcher} {b : Matcher} :
    (do return f (← x)) = Except.ok b ↔ ∃ a, x = .ok a ∧ f a = b := by
  rw [bind_eq_ok_iff]
  exact exists_congr fun a => and_congr_right fun _ => pure_eq_ok_iff

theorem map_bind_isOk_iff {x : Except String α} {f : α → Matcher} :
    (∃ b, (do return f (← x)) = Except.ok b) ↔ ∃ a, x = .ok a := by
  simp only [map_bind_eq_ok_iff]
  constructor
  · exact fun ⟨_, a, ha, _⟩ => ⟨a, ha⟩
  · exact fun ⟨a, ha⟩ => ⟨f a, a, ha, rfl⟩

/-- The case of several conditions, when it holds for each of them. -/
theorem bindAll_isOk_iff (h : ∀ n ∈ nodes, ((∃ b, n.bind resolve = .ok b) ↔
      ∀ ref ∈ n.references, ∃ e, resolve ref.1 ref.2 = .ok e)) :
    (∃ bs, bindAll resolve nodes = .ok bs) ↔
      ∀ ref ∈ referencesAll nodes, ∃ e, resolve ref.1 ref.2 = .ok e := by
  rw [bindAll_eq_mapM, exists_mapM_iff, referencesAll_eq_flatMap]
  constructor
  · intro hok ref href
    obtain ⟨n, hn, href⟩ := mem_flatMap.mp href
    exact (h n hn).mp (hok n hn) ref href
  · intro hok n hn
    exact (h n hn).mpr fun ref href => hok ref (mem_flatMap.mpr ⟨n, hn, href⟩)

/-- **Binding succeeds** exactly when every reference can be resolved. -/
theorem bind_isOk_iff (m : Matcher) :
    (∃ b, m.bind resolve = .ok b) ↔ ∀ ref ∈ m.references, ∃ e, resolve ref.1 ref.2 = .ok e := by
  induction m using operandsInduction with
  | step m ih =>
    cases m with
    | geoIp name | geoSite name | ruleSet name => simp [bind, references]
    | and nodes | or nodes =>
      rw [bind, map_bind_isOk_iff]
      exact bindAll_isOk_iff ih
    | not m | noResolve m =>
      rw [bind, map_bind_isOk_iff]
      exact ih m mem_cons_self
    | _ => exact iff_of_true ⟨_, rfl⟩ (fun ref href => (by cases href))

/-- The same. -/
theorem referencesAll_of_bindAll (h : ∀ n ∈ nodes, ∀ b, n.bind resolve = .ok b → b.references = [])
    (hbind : bindAll resolve nodes = .ok bs) : referencesAll bs = [] := by
  rw [referencesAll_eq_flatMap, flatMap_eq_nil_iff]
  intro b hb
  obtain ⟨n, hn, hnb⟩ := exists_of_forall₂_right (bindAll_eq_ok_iff.mp hbind) hb
  exact h n hn b hnb

/-- **No reference is left** when the entries have none. -/
theorem references_of_bind
    (hentries : ∀ kind name e, resolve kind name = .ok e → e.references = []) (m : Matcher) :
    ∀ b, m.bind resolve = .ok b → b.references = [] := by
  induction m using operandsInduction with
  | step m ih =>
    intro b h
    cases m with
    | geoIp name => exact hentries .geoIp name b h
    | geoSite name => exact hentries .geoSite name b h
    | ruleSet name => exact hentries .ruleSet name b h
    | and nodes | or nodes =>
      obtain ⟨bs, hbs, rfl⟩ := map_bind_eq_ok_iff.mp h
      exact referencesAll_of_bindAll ih hbs
    | not m | noResolve m =>
      obtain ⟨b', hb', rfl⟩ := map_bind_eq_ok_iff.mp h
      exact ih m mem_cons_self b' hb'
    | _ =>
      cases h
      rfl

theorem bindAll_congr
    (h : ∀ n ∈ nodes, (∀ ref ∈ n.references, resolve ref.1 ref.2 = resolve' ref.1 ref.2) →
      n.bind resolve = n.bind resolve')
    (hsame : ∀ ref ∈ referencesAll nodes, resolve ref.1 ref.2 = resolve' ref.1 ref.2) :
    bindAll resolve nodes = bindAll resolve' nodes := by
  induction nodes with
  | nil => rfl
  | cons n ns ih =>
    obtain ⟨hhead, htail⟩ := forall_mem_cons.mp h
    obtain ⟨hsame, hsames⟩ := forall_mem_append.mp hsame
    rw [bindAll, bindAll, hhead hsame, ih htail hsames]

/-- What a condition is bound to depends on its references alone. -/
theorem bind_congr (m : Matcher)
    (hsame : ∀ ref ∈ m.references, resolve ref.1 ref.2 = resolve' ref.1 ref.2) :
    m.bind resolve = m.bind resolve' := by
  induction m using operandsInduction with
  | step m ih =>
    cases m with
    | geoIp name => exact hsame (.geoIp, name) mem_cons_self
    | geoSite name => exact hsame (.geoSite, name) mem_cons_self
    | ruleSet name => exact hsame (.ruleSet, name) mem_cons_self
    | and nodes | or nodes =>
      have hnodes : bindAll resolve nodes = bindAll resolve' nodes := bindAll_congr ih hsame
      rw [bind, bind, hnodes]
    | not m | noResolve m => rw [bind, bind, ih m mem_cons_self hsame]
    | _ => rfl

end

/-! ## Evaluation with a meaning for the references -/

mutual

/-- `evaluate`, with an answer for every reference: it is asked with the permission to resolve
that holds where the reference stands. -/
def evaluateWith (answer : RefKind → Str → Bool → Option Bool) (host : Str) (ip : Option IpAddr)
    (port : UInt16) (network : Str) : Bool → Matcher → Option Bool
  | canResolve, geoIp name => answer .geoIp name canResolve
  | canResolve, geoSite name => answer .geoSite name canResolve
  | canResolve, ruleSet name => answer .ruleSet name canResolve
  | canResolve, not m => (evaluateWith answer host ip port network canResolve m).map (!·)
  | _, noResolve m => evaluateWith answer host ip port network false m
  | canResolve, and nodes =>
    Kleene.junction true (evaluateAllWith answer host ip port network canResolve nodes)
  | canResolve, or nodes =>
    Kleene.junction false (evaluateAllWith answer host ip port network canResolve nodes)
  | canResolve, m => evaluate host ip port network canResolve m

/-- The operands of `And` and `Or`. -/
def evaluateAllWith (answer : RefKind → Str → Bool → Option Bool) (host : Str)
    (ip : Option IpAddr) (port : UInt16) (network : Str) :
    Bool → List Matcher → List (Option Bool)
  | _, [] => []
  | canResolve, m :: ms =>
    evaluateWith answer host ip port network canResolve m ::
      evaluateAllWith answer host ip port network canResolve ms

end

section

variable {answer : RefKind → Str → Bool → Option Bool} {host : Str} {ip : Option IpAddr}
  {port : UInt16} {network : Str} {resolve : RefKind → Str → Except String Matcher}

theorem evaluateAllWith_eq_map (canResolve : Bool) (nodes : List Matcher) :
    evaluateAllWith answer host ip port network canResolve nodes =
      nodes.map (evaluateWith answer host ip port network canResolve) := by
  induction nodes with
  | nil => rw [evaluateAllWith, map_nil]
  | cons m ms ih => rw [evaluateAllWith, map_cons, ih]

/-- The case of `And` and `Or`, when it holds for each of the operands. -/
theorem evaluateAll_bindAll {nodes bs : List Matcher}
    (h : ∀ n ∈ nodes, ∀ b, n.bind resolve = .ok b → ∀ canResolve,
      evaluate host ip port network canResolve b =
        evaluateWith answer host ip port network canResolve n)
    (hbind : bindAll resolve nodes = .ok bs) (canResolve : Bool) :
    evaluateAll host ip port network canResolve bs =
      evaluateAllWith answer host ip port network canResolve nodes := by
  rw [evaluateAll_eq_map, evaluateAllWith_eq_map]
  have hpairs := bindAll_eq_ok_iff.mp hbind
  induction hpairs with
  | nil => rfl
  | cons hab hrest ih =>
    obtain ⟨hhead, htail⟩ := forall_mem_cons.mp h
    rw [map_cons, map_cons, hhead _ hab, ih htail (bindAll_eq_ok_iff.mpr hrest)]

/-- **Binding keeps the meaning**: evaluating the result is evaluating the condition with the
answers of the entries at its references. -/
theorem evaluate_bind
    (hanswer : ∀ kind name e, resolve kind name = .ok e → ∀ canResolve,
      evaluate host ip port network canResolve e = answer kind name canResolve) (m : Matcher) :
    ∀ b, m.bind resolve = .ok b → ∀ canResolve,
      evaluate host ip port network canResolve b =
        evaluateWith answer host ip port network canResolve m := by
  induction m using operandsInduction with
  | step m ih =>
    intro b h canResolve
    cases m with
    | geoIp name => exact hanswer .geoIp name b h canResolve
    | geoSite name => exact hanswer .geoSite name b h canResolve
    | ruleSet name => exact hanswer .ruleSet name b h canResolve
    | and nodes =>
      obtain ⟨bs, hbs, rfl⟩ := map_bind_eq_ok_iff.mp h
      exact congrArg (Kleene.junction true) (evaluateAll_bindAll ih hbs canResolve)
    | or nodes =>
      obtain ⟨bs, hbs, rfl⟩ := map_bind_eq_ok_iff.mp h
      exact congrArg (Kleene.junction false) (evaluateAll_bindAll ih hbs canResolve)
    | not m | noResolve m =>
      obtain ⟨b', hb', rfl⟩ := map_bind_eq_ok_iff.mp h
      rw [evaluate, evaluateWith, ih m mem_cons_self b' hb']
    | _ =>
      cases h
      rfl

end

end Matcher

/-! ## Loading -/

/-- What stands under a `GEOIP` tag: networks, or a test against the country database. -/
inductive GeoIpEntry where
  | nets (s : IpSet)
  | external (test : IpAddr → Bool)

/-- The condition of an entry. -/
def GeoIpEntry.matcher : GeoIpEntry → Matcher
  | nets s => .nets s
  | external test => .externalIp test

/-- The geo data of a snapshot: an entry for each tag that is referred to. -/
structure GeoData where
  ips : List (Str × GeoIpEntry)
  sites : List (Str × DomainSet)

/-- The entries in the order they are inserted (resources.rs:104-244). -/
def GeoData.entries (geo : GeoData) : List ((RefKind × Str) × Matcher) :=
  geo.ips.map (fun e => ((.geoIp, e.1), e.2.matcher)) ++
    geo.sites.map fun e => ((.geoSite, e.1), .domains e.2)

/-- The condition refers to no rule provider. -/
def Matcher.Plain (m : Matcher) : Prop := ∀ ref ∈ m.references, ref.1 ≠ .ruleSet

instance (m : Matcher) : Decidable m.Plain := inferInstanceAs (Decidable (∀ _ ∈ _, _))

section

variable [RuleText]

/-- The condition of one line of a provider, by its behaviour (resources.rs:443-448). -/
def behaviorCondition (behavior value : Str) : Except String Matcher :=
  if behavior = "domain" then domainPattern value
  else if behavior = "ipcidr" then (RuleText.parseNet value).map .net
  else if behavior = "classical" then parseCondition value
  else .error "unsupported provider behavior"

/-- The loop body of `provider_matcher` (resources.rs:442-456). -/
def providerCondition (behavior value : Str) : Except String Matcher := do
  let m ← behaviorCondition behavior value
  ensure m.Plain "nested RULE-SET is not permitted in classical providers"
  return m

/-- `provider_matcher` (resources.rs:439-458). -/
def providerMatcher (behavior : Str) (payload : List Str) : Except String Matcher := do
  ensure (payload.length ≤ 2000000) "too many provider rules"
  let nodes ← payload.mapM (providerCondition behavior)
  return .or nodes

/-- An accepted provider refers to no rule provider. -/
theorem plain_providerMatcher {behavior : Str} {payload : List Str} {m : Matcher}
    (h : providerMatcher behavior payload = .ok m) : m.Plain := by
  obtain ⟨-, h⟩ := ensure_bind_eq_ok_iff.mp h
  obtain ⟨nodes, hnodes, h⟩ := bind_eq_ok_iff.mp h
  cases h
  intro ref href
  rw [Matcher.references, Matcher.referencesAll_eq_flatMap] at href
  obtain ⟨n, hn, href⟩ := mem_flatMap.mp href
  obtain ⟨value, -, hvalue⟩ := exists_of_forall₂_right (mapM_eq_ok_iff.mp hnodes) hn
  obtain ⟨m', -, hcheck⟩ := bind_eq_ok_iff.mp hvalue
  obtain ⟨hplain, heq⟩ := ensure_bind_eq_ok_iff.mp hcheck
  cases heq
  exact hplain ref href

end

namespace Resources

/-- `matchers.insert`. -/
def insert (s : Resources) (key : RefKind × Str) (m : Matcher) : Resources :=
  ⟨s.matchers.insert key m⟩

/-- The snapshot with the geo data. -/
def ofGeo (geo : GeoData) : Resources :=
  geo.entries.foldl (fun s e => s.insert e.1 e.2) .empty

/-- The loop over the providers (resources.rs:246-250). -/
def bindProviders : Resources → List (Str × Matcher) → Except String Resources
  | out, [] => .ok out
  | out, (name, m) :: rest => do
    let bound ← out.bind m
    bindProviders (out.insert (.ruleSet, name) bound) rest

/-- What an entry answers to a reference. -/
def answer (s : Resources) (host : Str) (ip : Option IpAddr) (port : UInt16) (network : Str)
    (kind : RefKind) (name : Str) (canResolve : Bool) : Option Bool :=
  match s.matchers.lookup (kind, name) with
  | some e => e.evaluate host ip port network canResolve
  | none => some false

/-- No entry refers to anything. -/
def Closed (s : Resources) : Prop :=
  ∀ key e, s.matchers.lookup key = some e → e.references = []

section

variable {s out : Resources} {providers : List (Str × Matcher)}

/-- A reference resolves to its entry. -/
theorem resolve_eq_ok_iff {kind : RefKind} {name : Str} {e : Matcher} :
    s.resolve kind name = .ok e ↔ s.matchers.lookup (kind, name) = some e := by
  unfold resolve
  cases s.matchers.lookup (kind, name) with
  | none => exact iff_of_false nofun nofun
  | some m => rw [Except.ok.injEq, Option.some.injEq]

/-- An entry answers as it is evaluated. -/
theorem evaluate_of_resolve {kind : RefKind} {name : Str} {e : Matcher}
    (h : s.resolve kind name = .ok e) (host : Str) (ip : Option IpAddr) (port : UInt16)
    (network : Str) (canResolve : Bool) : e.evaluate host ip port network canResolve =
      s.answer host ip port network kind name canResolve := by
  unfold answer
  rw [resolve_eq_ok_iff.mp h]

variable {m : Matcher}

theorem Closed.insert (h : s.Closed) (key : RefKind × Str) (hm : m.references = []) :
    (s.insert key m).Closed := by
  intro key' e he
  rcases Table.lookup_insert_cases he with ⟨-, rfl⟩ | ⟨-, he⟩
  · exact hm
  · exact h key' e he

/-- Geo data refers to nothing. -/
theorem references_geoEntry {geo : GeoData} {e : (RefKind × Str) × Matcher}
    (h : e ∈ geo.entries) : e.2.references = [] := by
  rcases mem_append.mp h with h | h
  · obtain ⟨⟨tag, entry⟩, -, rfl⟩ := mem_map.mp h
    cases entry <;> rfl
  · obtain ⟨⟨tag, set⟩, -, rfl⟩ := mem_map.mp h
    rfl

theorem closed_foldl {entries : List ((RefKind × Str) × Matcher)} (hs : s.Closed)
    (h : ∀ e ∈ entries, e.2.references = []) :
    (entries.foldl (fun s e => s.insert e.1 e.2) s).Closed := by
  induction entries generalizing s with
  | nil => exact hs
  | cons e entries ih =>
    obtain ⟨he, hrest⟩ := forall_mem_cons.mp h
    exact ih (hs.insert e.1 he) hrest

theorem closed_ofGeo (geo : GeoData) : (ofGeo geo).Closed :=
  closed_foldl (fun key e h => (by cases h)) fun _ he => references_geoEntry he

/-- Against a closed snapshot no reference is left. -/
theorem references_bind (hs : s.Closed) {b : Matcher} (h : s.bind m = .ok b) : b.references = [] :=
  Matcher.references_of_bind (fun kind name e he => hs (kind, name) e (resolve_eq_ok_iff.mp he))
    m b h

/-- The other providers make no difference to a provider. -/
theorem bind_insert (hm : m.Plain) (name : Str) (e : Matcher) :
    (s.insert (.ruleSet, name) e).bind m = s.bind m := by
  refine Matcher.bind_congr m fun ref href => ?_
  have hne : ref ≠ (.ruleSet, name) := fun heq => hm ref href (by rw [heq])
  have hlookup : (s.insert (.ruleSet, name) e).matchers.lookup ref = s.matchers.lookup ref :=
    AList.lookup_insert_ne hne
  unfold resolve
  rw [hlookup]

/-- The snapshot has the entries of another one, and the providers bound against that. -/
structure Loaded (out : Resources) (providers : List (Str × Matcher)) (s : Resources) : Prop where
  bound : ∀ p ∈ providers, ∃ b, out.bind p.2 = .ok b ∧ s.matchers.lookup (.ruleSet, p.1) = some b
  kept : ∀ key, (∀ p ∈ providers, key ≠ (.ruleSet, p.1)) →
    s.matchers.lookup key = out.matchers.lookup key

/-- **What the loop over the providers comes to**, by induction on the providers left: each is
bound as it would be against the geo data alone. -/
theorem loaded_of_bindProviders (hnames : (providers.map Prod.fst).Nodup)
    (hplain : ∀ p ∈ providers, p.2.Plain) (h : out.bindProviders providers = .ok s) :
    Loaded out providers s := by
  induction providers generalizing out with
  | nil =>
    cases h
    exact ⟨fun p hp => (by cases hp), fun key _ => rfl⟩
  | cons p rest ih =>
    obtain ⟨name, m⟩ := p
    obtain ⟨bound, hbound, h⟩ := bind_eq_ok_iff.mp h
    obtain ⟨hfresh, hnames⟩ := nodup_cons.mp hnames
    obtain ⟨hm, hplain⟩ := forall_mem_cons.mp hplain
    have hrest := ih hnames hplain h
    constructor
    · refine forall_mem_cons.mpr ⟨⟨bound, hbound, ?_⟩, fun p hp => ?_⟩
      · -- a later provider has another name
        rw [hrest.kept (.ruleSet, name)]
        · exact AList.lookup_insert _
        · intro p hp heq
          have hname : name = p.1 := congrArg Prod.snd heq
          rw [hname] at hfresh
          exact hfresh (mem_map.mpr ⟨p, hp, rfl⟩)
      · obtain ⟨b, hb, hlookup⟩ := hrest.bound p hp
        rw [bind_insert (hplain p hp)] at hb
        exact ⟨b, hb, hlookup⟩
    · intro key hkey
      obtain ⟨hne, hkeys⟩ := forall_mem_cons.mp hkey
      rw [hrest.kept key hkeys]
      exact AList.lookup_insert_ne hne

/-- Providers that can be bound against the geo data are loaded. -/
theorem bindProviders_isOk (hplain : ∀ p ∈ providers, p.2.Plain)
    (h : ∀ p ∈ providers, ∃ b, out.bind p.2 = .ok b) :
    ∃ s, out.bindProviders providers = .ok s := by
  induction providers generalizing out with
  | nil => exact ⟨out, rfl⟩
  | cons p rest ih =>
    obtain ⟨name, m⟩ := p
    obtain ⟨hm, hplain⟩ := forall_mem_cons.mp hplain
    obtain ⟨⟨bound, hbound⟩, h⟩ := forall_mem_cons.mp h
    have hrest : ∀ p ∈ rest, ∃ b, (out.insert (.ruleSet, name) bound).bind p.2 = .ok b := by
      intro p hp
      rw [bind_insert (hplain p hp)]
      exact h p hp
    obtain ⟨s, hs⟩ := ih hplain hrest
    exact ⟨s, bind_eq_ok_iff.mpr ⟨bound, hbound, hs⟩⟩

/-- An entry is a provider that has been bound, or was there before. -/
theorem Loaded.cases (h : Loaded out providers s) (key : RefKind × Str) :
    (∃ p ∈ providers, ∃ b, key = (.ruleSet, p.1) ∧ out.bind p.2 = .ok b ∧
      s.matchers.lookup key = some b) ∨
    (∀ p ∈ providers, key ≠ (.ruleSet, p.1)) ∧
      s.matchers.lookup key = out.matchers.lookup key := by
  by_cases hkey : ∃ p ∈ providers, key = (.ruleSet, p.1)
  · obtain ⟨p, hp, rfl⟩ := hkey
    obtain ⟨b, hb, hlookup⟩ := h.bound p hp
    exact .inl ⟨p, hp, b, rfl, hb, hlookup⟩
  · have hnone : ∀ p ∈ providers, key ≠ (.ruleSet, p.1) := fun p hp heq => hkey ⟨p, hp, heq⟩
    exact .inr ⟨hnone, h.kept key hnone⟩

/-- The order of the providers makes no difference. -/
theorem Loaded.unique {providers' : List (Str × Matcher)} {s' : Resources}
    (h : Loaded out providers s) (h' : Loaded out providers' s')
    (hperm : providers'.Perm providers) (key : RefKind × Str) :
    s'.matchers.lookup key = s.matchers.lookup key := by
  rcases h.cases key with ⟨p, hp, b, rfl, hb, hlookup⟩ | ⟨hnone, hlookup⟩
  · obtain ⟨b', hb', hlookup'⟩ := h'.bound p (hperm.mem_iff.mpr hp)
    cases hb.symm.trans hb'
    rw [hlookup, hlookup']
  · rw [hlookup, h'.kept key fun p hp => hnone p (hperm.mem_iff.mp hp)]

/-- Loading leaves no reference in an entry. -/
theorem Loaded.closed (h : Loaded out providers s) (hout : out.Closed) : s.Closed := by
  intro key e he
  rcases h.cases key with ⟨p, -, b, -, hb, hlookup⟩ | ⟨-, hlookup⟩
  · cases hlookup.symm.trans he
    exact references_bind hout hb
  · exact hout key e (hlookup ▸ he)

end

/-- **Binding resolves every reference and keeps the meaning**, for every snapshot that `load`
can build. Binding a condition succeeds exactly when all its references are loaded; the result
holds no reference at any depth, and is evaluated like the condition with the answers of the
entries at its references. In which order the providers are visited makes no difference. -/
theorem binding_exact (geo : GeoData) (providers : List (Str × Matcher))
    (hnames : (providers.map Prod.fst).Nodup) (hplain : ∀ p ∈ providers, p.2.Plain) :
    (∀ s, (ofGeo geo).bindProviders providers = .ok s →
      (∀ m, (∃ b, s.bind m = .ok b) ↔ ∀ ref ∈ m.references, (s.matchers.lookup ref).isSome) ∧
      ∀ m b, s.bind m = .ok b → (∀ n : Matcher, n.Within b → ¬ n.IsReference) ∧
        ∀ host ip port network canResolve,
          b.evaluate host ip port network canResolve =
            m.evaluateWith (s.answer host ip port network) host ip port network canResolve) ∧
    ∀ providers', providers'.Perm providers → ∀ s, (ofGeo geo).bindProviders providers = .ok s →
      ∃ s', (ofGeo geo).bindProviders providers' = .ok s' ∧
        ∀ key, s'.matchers.lookup key = s.matchers.lookup key := by
  constructor
  · intro s hload
    have hclosed := (loaded_of_bindProviders hnames hplain hload).closed (closed_ofGeo geo)
    refine ⟨fun m => ?_, fun m b hb => ⟨fun n hn => ?_, fun host ip port network canResolve => ?_⟩⟩
    · refine (Matcher.bind_isOk_iff m).trans (forall₂_congr fun ref _ => ?_)
      rw [Option.isSome_iff_exists]
      exact exists_congr fun e => resolve_eq_ok_iff
    · exact Matcher.not_isReference_of_within hn (references_bind hclosed hb)
    · exact Matcher.evaluate_bind (fun _ _ _ he => evaluate_of_resolve he host ip port network)
        m b hb canResolve
  · intro providers' hperm s hload
    have hloaded := loaded_of_bindProviders hnames hplain hload
    have hplain' : ∀ p ∈ providers', p.2.Plain := fun p hp => hplain p (hperm.mem_iff.mp hp)
    obtain ⟨s', hs'⟩ := bindProviders_isOk hplain' fun p hp =>
      (hloaded.bound p (hperm.mem_iff.mp hp)).imp fun b hb => hb.1
    have hnames' : (providers'.map Prod.fst).Nodup := (hperm.map _).nodup_iff.mpr hnames
    exact ⟨s', hs', hloaded.unique (loaded_of_bindProviders hnames' hplain' hs') hperm⟩

/-- Geo data with one `GEOIP` tag, which stands for nothing. -/
def sampleGeo : GeoData := ⟨[("private", .external fun _ => false)], []⟩

/-- The provider `lan` of a single `GEOIP,private` line is loaded on top of it. -/
theorem binding_exact_sample :
    ∃ s, (ofGeo sampleGeo).bindProviders [("lan", .or [.geoIp "private"])] = .ok s ∧
      ∀ m b, s.bind m = .ok b → ∀ n : Matcher, n.Within b → ¬ n.IsReference := by
  have hexact := (binding_exact sampleGeo [("lan", .or [.geoIp "private"])]
    (nodup_singleton _) (by decide)).1
  exact ⟨_, rfl, fun m b hb => ((hexact _ rfl).2 m b hb).1⟩

/-- **A rule set means the lines of its provider.** When providers that `provider_matcher`
accepts are loaded, a `RULE-SET` reference is bound to what is evaluated like the lines of its
provider with the answers of the geo data alone. -/
theorem ruleSet_means_lines [RuleText] {geo : GeoData} {providers : List (Str × Matcher)}
    {s : Resources} (hnames : (providers.map Prod.fst).Nodup)
    (hread : ∀ p ∈ providers, ∃ behavior payload, providerMatcher behavior payload = .ok p.2)
    (hload : (ofGeo geo).bindProviders providers = .ok s) :
    ∀ p ∈ providers, ∃ b, s.bind (.ruleSet p.1) = .ok b ∧
      ∀ host ip port network canResolve, b.evaluate host ip port network canResolve =
        p.2.evaluateWith ((ofGeo geo).answer host ip port network) host ip port network
          canResolve := by
  have hplain : ∀ p ∈ providers, p.2.Plain := by
    intro p hp
    obtain ⟨_, _, hm⟩ := hread p hp
    exact plain_providerMatcher hm
  intro p hp
  obtain ⟨b, hb, hlookup⟩ := (loaded_of_bindProviders hnames hplain hload).bound p hp
  exact ⟨b, resolve_eq_ok_iff.mpr hlookup, fun host ip port network =>
    Matcher.evaluate_bind (fun _ _ _ he => evaluate_of_resolve he host ip port network) p.2 b hb⟩

/-- The rule set of that provider is bound. -/
theorem ruleSet_means_lines_sample :
    ∃ s, (ofGeo sampleGeo).bindProviders [("lan", .or [.geoIp "private"])] = .ok s ∧
      ∃ b, s.bind (.ruleSet "lan") = .ok b := by
  obtain ⟨b, hb, -⟩ := @ruleSet_means_lines .none sampleGeo
    [("lan", .or [.geoIp "private"])] _ (nodup_singleton _)
    (forall_mem_singleton.mpr ⟨"classical", ["GEOIP,private"], rfl⟩) rfl _
    mem_cons_self
  exact ⟨_, rfl, b, hb⟩

end Resources

end ClashMeta
