import ClashMeta.PrintedAddress
import ClashMeta.Core.Dns.Resolver
import ClashMeta.Core.FakeSaved
import ClashMeta.Protocol.Target

/-!
# DNS answers and restored targets

`Resolver::answer` (core/src/dns.rs:578-672) gives fake addresses to the names that clients
ask for, and `Core::restore_target` (core/src/lib.rs:375-384) turns a target with such an
address back into the name. The name is whatever a client has asked for; it may read as an
address itself, even as one that another name has.
-/

namespace ClashMeta

namespace Dns

/-! ## Answers -/

/-- The type of a question, as far as the resolver tells them apart. -/
inductive RecordType where
  | a
  | aaaa
  | other
  deriving DecidableEq

/-- The question of a request: the text of its name, its type, and whether its class is `IN`. -/
structure Query where
  name : Str
  recordType : RecordType
  internet : Bool
  deriving DecidableEq

/-- Where the answer comes from. -/
inductive Answer where
  /-- No data: IPv6 is off. -/
  | empty
  /-- The hosts of the configuration. -/
  | hosts
  | fake (ip : IpAddr)
  | servFail
  /-- `cached_exchange`. -/
  | upstream
  deriving DecidableEq

section

variable [RuleText]

/-- The longest of the patterns, the last of those when there are several (`max_by_key`). -/
def longestKey : List (Str × Strings) → Option (Str × Strings)
  | [] => none
  | e :: rest =>
    match longestKey rest with
    | none => some e
    | some best => if utf8Len best.1 < utf8Len e.1 then some e else some best

/-- `host_values` (dns.rs:145-161) for a name in lower case: the entry of the name, or the
longest pattern that matches. -/
def hostValues (policy : DnsPolicy) (host : Str) : Option (List Str) :=
  match policy.hosts.find? fun e => e.1 = host with
  | some e => some e.2.values
  | none =>
    (longestKey ((policy.hosts.filter fun e => '*' ∈ e.1 ∨ e.1.head? = some '+').filter fun e =>
      match domainPattern e.1 with
      | .ok m => m.evaluate host none 0 [] false == some true
      | .error _ => false)).map fun e => e.2.values

/-- The name gets no fake address (dns.rs:591-603). -/
def excluded (config : ClashMeta.Dns) (policy : DnsPolicy) (host : Str) : Bool :=
  policy.filters.any (fun m => m.evaluate host none 0 [] false == some true) ||
    config.fakeIpFilter.any fun pattern =>
      host == pattern || (stripStart "*." pattern).any fun suffix =>
        host == suffix || (('.' :: suffix).isSuffixOf host)

/-- The question is for an address. -/
def RecordType.isAddress (t : RecordType) : Bool := t == .a || t == .aaaa

/-- `Resolver::answer` (dns.rs:578-672) for a request with one question: what it does to the
fake-IP map, and where the answer comes from. -/
def answer (cfg : FakeConfig) (config : ClashMeta.Dns) (policy : DnsPolicy) (m : FakeMap)
    (q : Query) : FakeMap × Answer :=
  let host := normHost q.name
  if q.internet ∧ q.recordType = .aaaa ∧ config.ipv6 = false then (m, .empty)
  else if (hostValues policy host).isSome ∧ q.recordType.isAddress then (m, .hosts)
  else if config.enhancedMode = "fake-ip" ∧ excluded config policy host = false ∧
      q.internet ∧ q.recordType.isAddress then
    match fakeAddress cfg m host (q.recordType == .aaaa) with
    | (m, .ok ip) => (m, .fake ip)
    | (m, .error _) => (m, .servFail)
  else (m, .upstream)

/-- The fake-IP map under requests, each with the policy of its time. -/
def answers (cfg : FakeConfig) (config : ClashMeta.Dns) : Lts FakeMap (DnsPolicy × Query) where
  init := FakeMap.new
  step m a := some (answer cfg config a.1 m a.2).1

theorem answer_cases (cfg : FakeConfig) (config : ClashMeta.Dns) (policy : DnsPolicy)
    (m : FakeMap) (q : Query) :
    (answer cfg config policy m q).1 = m ∨
      (answer cfg config policy m q).1 =
        (fakeAddress cfg m (normHost q.name) (q.recordType == .aaaa)).1 := by
  unfold answer
  dsimp only
  split
  · exact .inl rfl
  split
  · exact .inl rfl
  split
  · refine .inr ?_
    split <;> rename_i heq <;> rw [heq]
  · exact .inl rfl

/-- **Requests for names of some kind** grow the map with such names. -/
theorem grown_of_answers {cfg : FakeConfig} {config : ClashMeta.Dns} {P : Str → Prop}
    {m : FakeMap}
    (h : (answers cfg config).Reaches (fun _ a => P (normHost a.2.name)) FakeMap.new m) :
    Grown cfg P m := by
  refine h.invariant grown_new ?_
  intro s t a hs ha hstep
  cases hstep
  rcases answer_cases cfg config a.1 s a.2 with heq | heq
  · rw [heq]
    exact hs
  · rw [heq]
    exact hs.fakeAddress ha _

theorem fakeAddress_of_answer {cfg : FakeConfig} {config : ClashMeta.Dns} {policy : DnsPolicy}
    {m : FakeMap} {q : Query} {ip : IpAddr} (h : (answer cfg config policy m q).2 = .fake ip) :
    fakeAddress cfg m (normHost q.name) (q.recordType == .aaaa) =
      ((answer cfg config policy m q).1, .ok ip) := by
  unfold answer at h ⊢
  dsimp only at h ⊢
  split_ifs at h ⊢
  split at h <;> cases h
  rename_i heq
  rw [heq]

end

end Dns

/-! ## Restored targets -/

/-- The address lies in one of the pools. -/
def Pooled (cfg : FakeConfig) : IpAddr → Prop
  | .v4 a => cfg.range.contains a = true
  | .v6 a => cfg.range6.contains a = true

theorem Placed.pooled {cfg : FakeConfig} {m : FakeMap} {ip : IpAddr} (h : Placed cfg m ip) :
    Pooled cfg ip := by
  cases ip with
  | v4 a => exact h.1.1
  | v6 a => exact h.1

section

variable [IpText]

/-- `Core::restore_target` (lib.rs:375-384); `original` is the lookup by address. -/
def restoreTarget (m : FakeMap) (t : Target) : Target :=
  match t.ip.bind m.byIp.lookup with
  | some name => ⟨name, t.port⟩
  | none => t

/-- No name of the map reads as the address of another name. -/
def Straight (m : FakeMap) : Prop :=
  ∀ ip name, m.byIp.lookup ip = some name →
    ∀ ip' name', IpText.parse name = some ip' → m.byIp.lookup ip' = some name' → name' = name

variable {m : FakeMap} {t : Target} {ip : IpAddr} {name : Str}

theorem restoreTarget_of_lookup (hip : t.ip = some ip) (hname : m.byIp.lookup ip = some name) :
    restoreTarget m t = ⟨name, t.port⟩ := by
  rw [restoreTarget, hip, Option.bind_some, hname]

theorem restoreTarget_cases (m : FakeMap) (t : Target) :
    (∃ ip name, t.ip = some ip ∧ m.byIp.lookup ip = some name ∧
      restoreTarget m t = ⟨name, t.port⟩) ∨ restoreTarget m t = t := by
  cases hip : t.ip with
  | none =>
    refine .inr ?_
    rw [restoreTarget, hip]
    rfl
  | some ip =>
    cases hname : m.byIp.lookup ip with
    | none =>
      refine .inr ?_
      rw [restoreTarget, hip, Option.bind_some, hname]
    | some name => exact .inl ⟨ip, name, rfl, hname, restoreTarget_of_lookup hip hname⟩

theorem Straight.restore (h : Straight m) (t : Target) :
    restoreTarget m (restoreTarget m t) = restoreTarget m t := by
  rcases restoreTarget_cases m t with ⟨ip, name, -, hname, heq⟩ | heq
  · rw [heq]
    rcases restoreTarget_cases m ⟨name, t.port⟩ with ⟨ip', name', hip', hname', heq'⟩ | heq'
    · rw [heq', h ip name hname ip' name' hip' hname']
    · exact heq'
  · rw [heq, heq]

theorem straight_of_restore (hall : ∀ ip, ∃ host, IpText.parse host = some ip)
    (h : ∀ t, restoreTarget m (restoreTarget m t) = restoreTarget m t) : Straight m := by
  intro ip name hname ip' name' hip' hname'
  obtain ⟨host, hhost⟩ := hall ip
  have honce : restoreTarget m ⟨host, 0⟩ = ⟨name, 0⟩ := restoreTarget_of_lookup hhost hname
  have htwice : restoreTarget m ⟨name, 0⟩ = ⟨name', 0⟩ := restoreTarget_of_lookup hip' hname'
  have heq := h ⟨host, 0⟩
  rw [honce, htwice] at heq
  exact congrArg Target.host heq

/-- The name does not read as an address of a pool. -/
def Outside (cfg : FakeConfig) (host : Str) : Prop :=
  ∀ ip, IpText.parse host = some ip → ¬Pooled cfg ip

theorem Grown.straight {cfg : FakeConfig} (h : Grown cfg (Outside cfg) m) : Straight m := by
  intro ip name hname ip' name' hip' hname'
  exact absurd (h.placed ip' name' hname').pooled (h.names ip name hname ip' hip')

end

section

local instance : IpText := .std

/-- **Restoring a target is idempotent exactly for straight maps.** For every fake-IP map,
restoring every target twice is restoring it once if and only if no name of the map reads as
the address of another name. In every run of DNS answers in which no name asked for reads as
an address of a pool, this holds of every map reached. -/
theorem restore_idempotent_iff [RuleText] (cfg : FakeConfig) (config : ClashMeta.Dns) :
    (∀ m, (∀ t, restoreTarget m (restoreTarget m t) = restoreTarget m t) ↔ Straight m) ∧
    ∀ m, (Dns.answers cfg config).Reaches (fun _ a => Outside cfg (normHost a.2.name))
      FakeMap.new m → ∀ t, restoreTarget m (restoreTarget m t) = restoreTarget m t :=
  ⟨fun _ => ⟨straight_of_restore fun ip => ⟨_, AddressText.parseIp_printIp ip⟩, Straight.restore⟩,
    fun _ h => (Dns.grown_of_answers h).straight.restore⟩

local instance : RuleText := .none

/-- A policy without hosts, nameservers and filters. -/
def bare : Dns.DnsPolicy := ⟨[], [], []⟩

/-- A question for the IPv4 address of a name. -/
def asks (name : String) : Dns.DnsPolicy × Dns.Query := (bare, ⟨name.toList, .a, true⟩)

/-- The first name asked for gets the first address, and its target comes back. -/
theorem restore_idempotent_iff_first :
    ∃ m, (Dns.answers wholeRange {}).Reaches
        (fun _ a => Outside wholeRange (normHost a.2.name)) FakeMap.new m ∧
      restoreTarget m ⟨"198.18.0.2", 443⟩ = ⟨"example.com", 443⟩ ∧
      restoreTarget m (restoreTarget m ⟨"198.18.0.2", 443⟩) =
        restoreTarget m ⟨"198.18.0.2", 443⟩ := by
  have hname : Outside wholeRange (normHost "example.com.") := by
    intro ip hip
    have hnone : AddressText.parseIp (normHost "example.com.") = none := by decide
    exact absurd (hnone.symm.trans hip) (by simp)
  have hrun : (Dns.answers wholeRange {}).Reaches
      (fun _ a => Outside wholeRange (normHost a.2.name)) FakeMap.new _ :=
    .single ⟨asks "example.com.", hname, rfl⟩
  exact ⟨_, hrun, rfl, (restore_idempotent_iff wholeRange {}).2 _ hrun _⟩

/-- Behind `example.com` a client asks for the name `198.18.0.2`. The address of that name is
restored to `198.18.0.2`, and then to `example.com`. -/
theorem restored_twice_elsewhere :
    ∃ m, (Dns.answers wholeRange {}).Reaches Lts.anyStep FakeMap.new m ∧
      restoreTarget m ⟨"198.18.0.3", 443⟩ = ⟨"198.18.0.2", 443⟩ ∧
      restoreTarget m (restoreTarget m ⟨"198.18.0.3", 443⟩) =
        ⟨"example.com", 443⟩ := by
  obtain ⟨m, hrun, htest⟩ : ∃ m, (Dns.answers wholeRange {}).Reaches Lts.anyStep FakeMap.new m ∧
      decide (restoreTarget m ⟨"198.18.0.3", 443⟩ = ⟨"198.18.0.2", 443⟩ ∧
        restoreTarget m (restoreTarget m ⟨"198.18.0.3", 443⟩) =
          ⟨"example.com", 443⟩) = true :=
    Lts.run_any _ [asks "example.com.", asks "198.18.0.2."] (by decide +kernel)
  exact ⟨m, hrun, of_decide_eq_true htest⟩

/-- **A fake address keeps its meaning.** When a request of a run is answered with a fake
address, a target with that address is restored to the name asked for ever after. -/
theorem fake_answer_lasts [RuleText] {cfg : FakeConfig} {config : ClashMeta.Dns} {m m' : FakeMap}
    {policy : Dns.DnsPolicy} {q : Dns.Query} {ip : IpAddr} {t : Target}
    (hrun : (Dns.answers cfg config).Reaches Lts.anyStep FakeMap.new m)
    (hanswer : (Dns.answer cfg config policy m q).2 = .fake ip)
    (hlater : (Dns.answers cfg config).Reaches Lts.anyStep (Dns.answer cfg config policy m q).1 m')
    (hip : t.ip = some ip) : restoreTarget m' t = ⟨normHost q.name, t.port⟩ := by
  have hgrown : Grown cfg (fun _ => True) m := Dns.grown_of_answers hrun
  obtain ⟨-, -, hnamed, -⟩ := Dns.fakeAddress_of_answer hanswer ▸
    fakeAddress_step hgrown.toFakeInv (hgrown.noOverflow (_, _))
  -- the run never changes the address of a name
  have hlast := hlater.invariant (I := fun s => Grown cfg (fun _ => True) s ∧
    s.byName.lookup (normHost q.name, q.recordType == .aaaa) = some ip)
    ⟨Dns.grown_of_answers (hrun.tail ⟨(policy, q), trivial, rfl⟩), hnamed⟩ ?_
  · exact restoreTarget_of_lookup hip ((hlast.1.inverse _ _ _).mp hlast.2).1
  · rintro s s' a ⟨hs, hkept⟩ - hstep
    cases hstep
    rcases Dns.answer_cases cfg config a.1 s a.2 with heq | heq
    · rw [heq]
      exact ⟨hs, hkept⟩
    · rw [heq]
      obtain ⟨-, hkeep, -⟩ := fakeAddress_step hs.toFakeInv (hs.noOverflow (_, _))
      exact ⟨hs.fakeAddress trivial _, hkeep _ _ hkept⟩

/-- The map after a first request. -/
def asked : FakeMap := (Dns.answer wholeRange {} bare FakeMap.new (asks "before.test.").2).1

/-- Names that are asked for before and after leave the answer alone. -/
theorem fake_answer_lasts_between :
    ∃ m, (Dns.answers wholeRange {}).Reaches Lts.anyStep
        (Dns.answer wholeRange {} bare asked (asks "example.com.").2).1 m ∧
      (m.byName.lookup ("after.test".toList, false)).isSome = true ∧
      restoreTarget m ⟨"198.18.0.3", 443⟩ = ⟨"example.com", 443⟩ := by
  have hrun : (Dns.answers wholeRange {}).Reaches Lts.anyStep FakeMap.new asked :=
    Lts.run_reaches [asks "before.test."] rfl
  have hlater : (Dns.answers wholeRange {}).Reaches Lts.anyStep
      (Dns.answer wholeRange {} bare asked (asks "example.com.").2).1 _ :=
    Lts.run_reaches [asks "after.test."] rfl
  exact ⟨_, hlater, rfl, fake_answer_lasts hrun rfl hlater rfl⟩

end

end ClashMeta
