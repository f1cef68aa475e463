import ClashMeta.Core.Dns.Cache
import ClashMeta.Core.Resources
import Mathlib.Data.List.Sort

/-!
# The DNS policy of the resolver

`Resolver::configure` (core/src/dns.rs:84-140) builds matchers for the nameserver policy
and the fake-IP filter, installs them and clears the cache. `Resolver::exchange`
(dns.rs:375-409) picks the upstreams of a request from the policy.

The resolver also counts the policies it has been given; the source keeps no such count.
-/

namespace ClashMeta.Dns

/-- `DnsPolicy`. -/
structure DnsPolicy where
  hosts : List (Str × Strings)
  nameservers : List (Matcher × List Str)
  filters : List Matcher

/-- The shared parts of `Resolver` that change. -/
structure Resolver where
  policy : DnsPolicy
  cache : Cache
  /-- The number of policies installed so far. -/
  installed : Nat

section

variable [RuleText]

/-- One reference of a policy key (dns.rs:95-103). -/
def tagMatcher (resources : Resources) (kind tag : Str) : Except String Matcher := do
  let m ← parseCondition (kind ++ [','] ++ tag)
  resources.bind m

/-- `matcher` in `configure` (dns.rs:89-107). -/
def policyMatcher (resources : Resources) (pattern : Str) : Except String Matcher :=
  match stripStart "geosite:" pattern with
  | some tags => do
    return .or (← (tags.splitOn ',').mapM (tagMatcher resources "GEOSITE"))
  | none =>
    match stripStart "rule-set:" pattern with
    | some tags => do
      return .or (← (tags.splitOn ',').mapM (tagMatcher resources "RULE-SET"))
    | none => domainPattern pattern

/-- The weight of a policy key (dns.rs:109-121): exact names first, then patterns, longer
ones first, then references. -/
def keyWeight (key : Str) : Nat :=
  if "geosite:".toList.isPrefixOf key ∨ "rule-set:".toList.isPrefixOf key then 0
  else utf8Len key + if '*' ∈ key ∨ key.head? = some '+' ∨ key.head? = some '.' then 0 else 65536

/-- The policy that `configure` installs (dns.rs:108-136). The sort is stable. -/
def buildPolicy (config : ClashMeta.Dns) (hosts : List (Str × Strings)) (resources : Resources) :
    Except String DnsPolicy := do
  let entries := config.nameserverPolicy.insertionSort fun a b => keyWeight b.1 ≤ keyWeight a.1
  let nameservers ← entries.mapM fun (key, value) => do
    return (← policyMatcher resources key, value.values)
  let filters ← config.fakeIpFilter.mapM (policyMatcher resources)
  return ⟨hosts, nameservers, filters⟩

end

namespace Resolver

/-- The first step of `configure` that others see: the policy is replaced. -/
def install (r : Resolver) (policy : DnsPolicy) : Resolver :=
  { r with policy := policy, installed := r.installed + 1 }

/-- `clear_cache`. -/
def clearCache (r : Resolver) : Resolver := { r with cache := .empty }

/-- The upstreams of a request (dns.rs:377-394). -/
def servers (r : Resolver) (config : ClashMeta.Dns) (request : Message) : List Str :=
  let host := (request.queries.head?.map normHost).getD []
  match r.policy.nameservers.find? fun e => e.1.evaluate host none 0 [] false == some true with
  | some e => e.2
  | none => config.nameserver

end Resolver

end ClashMeta.Dns
