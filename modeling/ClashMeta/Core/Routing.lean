import ClashMeta.Core.Policy
import ClashMeta.Protocol.Target

/-!
# Routing decisions

`Core::route_decision` (core/src/lib.rs:399-460) goes over the rules in order and asks DNS for
the target's address only when a rule cannot be answered without it. What it is for is the eager
decision: the address is fixed up front, and the first rule that holds (`holdsWith`) decides.

A decision returns the lookups it made, each with the position of the rule that asked. The
resolver is a parameter; of its answer only the first address is used.
-/

namespace ClashMeta

open Option Bool

/-- `RouteDecision`. -/
structure RouteDecision where
  node : Str
  group : Str
  rule : Str
  deriving DecidableEq, Repr

/-- `Resolver::lookup`: socket addresses for a host and a port, or an error. -/
abbrev Resolve := Str → UInt16 → Except String (List (IpAddr × UInt16))

/-- A lookup made during a decision, and the position of the rule that asked. -/
structure Lookup where
  rule : Nat
  host : Str
  port : UInt16
  deriving DecidableEq, Repr

/-- The variables of the loop: `ip`, `resolved` and the lookups made so far. -/
structure Known where
  ip : Option IpAddr
  resolved : Bool
  lookups : List Lookup

namespace Rule

/-- An IP condition of the rule stands outside every no-resolve marker, the rule's
own included. -/
def asksIp (r : Rule) : Bool := !r.noResolve && r.matcher.asksIp

/-- Neither the rule nor a condition in it carries a no-resolve marker. -/
def unmarked (r : Rule) : Bool := !r.noResolve && !r.matcher.marked

end Rule

section

variable (c : CoreConfig) (p : Policy) (resolve : Resolve) (target : Target) (network : Str)

/-- The first address of the resolver's answer, if there is one. -/
def firstAddress : Option IpAddr :=
  match resolve target.host target.port with
  | .ok addresses => addresses.head?.map Prod.fst
  | .error _ => none

/-- The decision for the rule at a position. -/
def decisionOf (index : Nat) (rule : Rule) : Except String RouteDecision := do
  let node ← leaf c p rule.target
  return ⟨node, rule.target,
    ((p.rawRules[index]?).map fun raw => describeRule raw rule.target).getD "Match"⟩

/-- The decision when no rule matches. -/
def fallback : RouteDecision := ⟨"DIRECT", "DIRECT", "Fallback"⟩

/-- The rule's first evaluation, with a lookup allowed while there was none. -/
def consult (rule : Rule) (known : Known) : Option Bool :=
  rule.matcher.evaluate (normHost target.host) known.ip target.port network
    (!rule.noResolve && !known.resolved)

/-- What is known after that evaluation (lib.rs:432-440). -/
def inform (index : Nat) (rule : Rule) (known : Known) : Known :=
  if (consult target network rule known).isNone && !rule.noResolve && !known.resolved then
    ⟨firstAddress resolve target, true, known.lookups ++ [⟨index, target.host, target.port⟩]⟩
  else known

/-- The rule matches (lib.rs:441-443): at once, or after the lookup it asked for. -/
def matchesAfter (index : Nat) (rule : Rule) (known : Known) : Bool :=
  let matched := consult target network rule known
  matched == some true ||
    (matched.isNone && rule.matches (normHost target.host)
      (inform resolve target network index rule known).ip target.port network)

/-- The loop over the rules (lib.rs:424-454), from position `index`. -/
def routeLoop : Nat → List Rule → Known → Except String RouteDecision × List Lookup
  | _, [], known => (.ok fallback, known.lookups)
  | index, rule :: rest, known =>
    let known' := inform resolve target network index rule known
    if matchesAfter resolve target network index rule known then
      (decisionOf c p index rule, known'.lookups)
    else routeLoop (index + 1) rest known'

variable [IpText]

/-- `Core::route_decision`, with the lookups it made. -/
def routeDecision : Except String RouteDecision × List Lookup :=
  match p.mode with
  | .direct => (.ok ⟨"DIRECT", "DIRECT", "Mode(Direct)"⟩, [])
  | .global =>
    ((leaf c p "GLOBAL").map fun node => ⟨node, "GLOBAL", "Mode(Global)"⟩, [])
  | .rule => routeLoop c p resolve target network 0 p.rules ⟨target.ip, target.ip.isSome, []⟩

end

/-! ## The eager decision -/

section

variable (target : Target) (network : Str)

/-- The condition of a rule is true when the address is fixed to `address`; without
one, IP conditions are false. -/
def holdsWith (address : Option IpAddr) (rule : Rule) : Bool :=
  rule.matcher.evaluate (normHost target.host) address target.port network false == some true

end

/-! ## Lazy equals eager -/

section

variable {c : CoreConfig} {p : Policy} {resolve : Resolve} {target : Target} {network : Str}
  {index : Nat} {rule : Rule} {known : Known}

/-- The address the loop will have used at its end: what it has, or will be told. -/
def finalAddress (resolve : Resolve) (target : Target) (known : Known) : Option IpAddr :=
  if known.resolved then known.ip else firstAddress resolve target

/-- Before its lookup the loop has no address. -/
def Known.Fresh (known : Known) : Prop := known.resolved = false → known.ip = none

theorem matches_normHost (address : Option IpAddr) :
    rule.matches (normHost target.host) address target.port network =
      holdsWith target network address rule := by
  unfold Rule.matches holdsWith
  rw [normHost_normHost]

theorem consult_isSome (h : (!rule.noResolve && !known.resolved) = false) :
    (consult target network rule known).isSome := by
  unfold consult
  rw [h]
  exact rule.matcher.evaluate_isSome known.ip

/-- A rule that asks is one that may: there was no lookup yet, and one of its IP
conditions is outside no-resolve. -/
theorem consult_none (h : consult target network rule known = none) :
    known.resolved = false ∧ rule.asksIp = true := by
  cases hmay : !rule.noResolve && !known.resolved with
  | false =>
    have hsome : (consult target network rule known).isSome := consult_isSome hmay
    rw [h] at hsome
    cases hsome
  | true =>
    obtain ⟨hmark, hres⟩ := and_eq_true_iff.mp hmay
    refine ⟨by simpa using hres, ?_⟩
    unfold Rule.asksIp
    rw [hmark]
    exact rule.matcher.asksIp_of_evaluate h

theorem inform_of_none (h : consult target network rule known = none) :
    inform resolve target network index rule known =
      ⟨firstAddress resolve target, true,
        known.lookups ++ [⟨index, target.host, target.port⟩]⟩ := by
  obtain ⟨hres, hasks⟩ := consult_none h
  have hmark : rule.noResolve = false := by
    simpa using (and_eq_true_iff.mp hasks).1
  simp [inform, h, hres, hmark]

theorem inform_of_some {v : Bool} (h : consult target network rule known = some v) :
    inform resolve target network index rule known = known := by
  simp [inform, h]

theorem holdsWith_of_consult {v : Bool} (hrule : rule.unmarked) (hfresh : known.Fresh)
    (h : consult target network rule known = some v) :
    holdsWith target network (finalAddress resolve target known) rule = (v == true) := by
  obtain ⟨hno, hmark⟩ := and_eq_true_iff.mp hrule
  unfold consult at h
  unfold holdsWith finalAddress
  cases hres : known.resolved with
  | true =>
    -- the address is settled, both evaluations are the same
    rw [hres, Bool.not_true, Bool.and_false] at h
    rw [if_pos rfl, h]
    rfl
  | false =>
    -- the lookup is open: the answer stands for every address
    rw [hres, hno, Bool.not_false, hfresh hres] at h
    rw [if_neg nofun,
      rule.matcher.evaluate_le (firstAddress resolve target) (by simpa using hmark) v h]
    rfl

/-- One rule of the loop: it matches exactly when it holds eagerly, and the final
address stays the same. -/
theorem matchesAfter_eq (hrule : rule.unmarked) (hfresh : known.Fresh) :
    matchesAfter resolve target network index rule known =
      holdsWith target network (finalAddress resolve target known) rule := by
  unfold matchesAfter
  cases h : consult target network rule known with
  | none =>
    have hres : known.resolved = false := (consult_none h).1
    rw [inform_of_none h, matches_normHost]
    simp [finalAddress, hres]
  | some v =>
    rw [holdsWith_of_consult hrule hfresh h]
    simp

theorem finalAddress_inform :
    finalAddress resolve target (inform resolve target network index rule known) =
      finalAddress resolve target known := by
  cases h : consult target network rule known with
  | none =>
    have hres : known.resolved = false := (consult_none h).1
    rw [inform_of_none h]
    simp [finalAddress, hres]
  | some v => rw [inform_of_some h]

theorem Known.Fresh.inform (hfresh : known.Fresh) :
    (inform resolve target network index rule known).Fresh := by
  cases h : consult target network rule known with
  | none =>
    rw [inform_of_none h]
    exact nofun
  | some v =>
    rw [inform_of_some h]
    exact hfresh

/-- The loop stops at the first rule that holds eagerly, by induction on the rules: a rule
passed over leaves the final address as it was. -/
theorem routeLoop_eager (rules : List Rule) (hrules : ∀ r ∈ rules, r.unmarked = true)
    (index : Nat) (known : Known) (hfresh : known.Fresh) :
    (rules.findIdx? (holdsWith target network (finalAddress resolve target known)) = none →
      (routeLoop c p resolve target network index rules known).1 = .ok fallback) ∧
    ∀ i, rules.findIdx? (holdsWith target network (finalAddress resolve target known)) = some i →
      ∃ r, rules[i]? = some r ∧
        (routeLoop c p resolve target network index rules known).1 =
          decisionOf c p (index + i) r := by
  induction rules generalizing index known with
  | nil => exact ⟨fun _ => rfl, nofun⟩
  | cons r rest ih =>
    have hr : r.unmarked = true := hrules r List.mem_cons_self
    have hrest : ∀ r ∈ rest, r.unmarked = true := fun r h => hrules r (List.mem_cons_of_mem _ h)
    rw [List.findIdx?_cons, routeLoop, matchesAfter_eq hr hfresh]
    by_cases hm : holdsWith target network (finalAddress resolve target known) r
    · rw [if_pos hm, if_pos hm]
      refine ⟨nofun, fun i hi => ?_⟩
      cases hi
      exact ⟨r, rfl, rfl⟩
    · rw [if_neg hm, if_neg hm]
      have hnext : (inform resolve target network index r known).Fresh := hfresh.inform
      obtain ⟨hnone, hsome⟩ := ih hrest (index + 1) _ hnext
      rw [finalAddress_inform] at hnone hsome
      refine ⟨fun h => hnone (map_eq_none_iff.mp h), fun i hi => ?_⟩
      obtain ⟨k, hk, rfl⟩ := map_eq_some_iff.mp hi
      obtain ⟨r', hr', heq⟩ := hsome k hk
      refine ⟨r', hr', heq.trans ?_⟩
      rw [add_assoc, add_comm 1 k]

/-- The loop makes no lookup, or one that nobody made before, for a rule with an IP
condition outside no-resolve. -/
theorem routeLoop_lookups (rules : List Rule) (index : Nat) (known : Known) :
    (routeLoop c p resolve target network index rules known).2 = known.lookups ∨
      known.resolved = false ∧ ∃ i r, rules[i]? = some r ∧ r.asksIp = true ∧
        (routeLoop c p resolve target network index rules known).2 =
          known.lookups ++ [⟨index + i, target.host, target.port⟩] := by
  induction rules generalizing index known with
  | nil => exact .inl rfl
  | cons r rest ih =>
    have hhead : inform resolve target network index r known = known ∨
        known.resolved = false ∧ r.asksIp = true ∧
          (inform resolve target network index r known).resolved = true ∧
          (inform resolve target network index r known).lookups =
            known.lookups ++ [⟨index, target.host, target.port⟩] := by
      cases h : consult target network r known with
      | none =>
        obtain ⟨hres, hasks⟩ := consult_none h
        rw [inform_of_none h]
        exact .inr ⟨hres, hasks, rfl, rfl⟩
      | some v => exact .inl (inform_of_some h)
    rw [routeLoop]
    by_cases hm : matchesAfter resolve target network index r known = true
    · rw [if_pos hm]
      rcases hhead with hsame | ⟨hres, hasks, -, hlook⟩
      · exact .inl (by rw [hsame])
      · exact .inr ⟨hres, 0, r, rfl, hasks, hlook⟩
    · rw [if_neg hm]
      have hgo := ih (index + 1) (inform resolve target network index r known)
      rcases hhead with hsame | ⟨hres, hasks, hdone, hlook⟩
      · -- this rule asked nothing, a later one may
        rw [hsame] at hgo ⊢
        rcases hgo with hnone | ⟨hres, i, r', hi, hasks, hlook⟩
        · exact .inl hnone
        · refine .inr ⟨hres, i + 1, r', hi, hasks, ?_⟩
          rw [hlook, add_assoc, add_comm 1 i]
      · -- this rule asked, so no later one does
        rcases hgo with hnone | ⟨hopen, -⟩
        · exact .inr ⟨hres, 0, r, rfl, hasks, hnone.trans hlook⟩
        · rw [hdone] at hopen
          cases hopen

variable [IpText]

/-- In every mode a decision makes no lookup, or one, for a rule that asks, and never
one for an address literal. -/
theorem routeDecision_lookups (c : CoreConfig) (p : Policy) (resolve : Resolve) (target : Target)
    (network : Str) :
    (routeDecision c p resolve target network).2 = [] ∨
      target.ip = none ∧ ∃ i r, p.rules[i]? = some r ∧ r.asksIp = true ∧
        (routeDecision c p resolve target network).2 = [⟨i, target.host, target.port⟩] := by
  unfold routeDecision
  cases p.mode with
  | direct | global => exact .inl rfl
  | rule =>
    rcases routeLoop_lookups p.rules 0 ⟨target.ip, target.ip.isSome, []⟩ with
      hnone | ⟨hopen, i, r, hi, hasks, hlook⟩
    · exact .inl hnone
    · refine .inr ⟨isSome_eq_false_iff.mp hopen |> isNone_iff_eq_none.mp, i, r, hi,
        hasks, ?_⟩
      rw [zero_add] at hlook
      exact hlook

end

/-- **Lazy routing is eager routing.** Fix the address up front to the target's literal
address or else to the resolver's first answer. In rule mode and without no-resolve markers
the first rule that holds decides: the node is the `leaf` of its target, the group is its
target, and the rule is described by its text. The decision is `DIRECT` when no rule holds.
For every rule list, in every mode, a decision makes at most one lookup, none for an address
literal, and only for a rule with an IP condition outside no-resolve. -/
theorem route_lazy_eq_eager [IpText] (c : CoreConfig) (p : Policy) (resolve : Resolve)
    (target : Target) (network : Str) :
    (p.mode = .rule → (∀ r ∈ p.rules, r.unmarked = true) →
      ∀ first, first = p.rules.findIdx? (holdsWith target network
          (target.ip.or (firstAddress resolve target))) →
        (first = none → (routeDecision c p resolve target network).1 =
          .ok ⟨"DIRECT", "DIRECT", "Fallback"⟩) ∧
        ∀ i, first = some i → ∃ r, p.rules[i]? = some r ∧
          (routeDecision c p resolve target network).1 = (leaf c p r.target).map fun node =>
            ⟨node, r.target, (p.rawRules[i]?.map (describeRule · r.target)).getD "Match"⟩) ∧
    (routeDecision c p resolve target network).2.length ≤ 1 ∧
    (target.ip.isSome → (routeDecision c p resolve target network).2 = []) ∧
    (∀ l ∈ (routeDecision c p resolve target network).2,
      ∃ r, p.rules[l.rule]? = some r ∧ r.asksIp = true) := by
  refine ⟨?_, ?_⟩
  · rintro hmode hrules first rfl
    have hfresh : (Known.mk target.ip target.ip.isSome []).Fresh := by
      intro hopen
      exact isSome_eq_false_iff.mp hopen |> isNone_iff_eq_none.mp
    -- the address that the loop would ask for last is the one fixed up front
    have hfinal : finalAddress resolve target ⟨target.ip, target.ip.isSome, []⟩ =
        target.ip.or (firstAddress resolve target) := by
      cases target.ip <;> rfl
    unfold routeDecision
    rw [hmode, ← hfinal]
    obtain ⟨hnone, hsome⟩ := routeLoop_eager p.rules hrules 0 _ hfresh
    refine ⟨hnone, fun i hi => ?_⟩
    obtain ⟨r, hr, heq⟩ := hsome i hi
    refine ⟨r, hr, heq.trans ?_⟩
    rw [zero_add, decisionOf]
    cases leaf c p r.target <;> rfl
  · rcases routeDecision_lookups c p resolve target network with
      hnone | ⟨hname, i, r, hi, hasks, hlook⟩
    · rw [hnone]
      exact ⟨Nat.zero_le 1, fun _ => rfl, nofun⟩
    · rw [hlook]
      refine ⟨Nat.le_refl 1, fun hlit => ?_, fun l hl => ?_⟩
      · rw [hname] at hlit
        cases hlit
      · rw [List.mem_singleton.mp hl]
        exact ⟨r, hi, hasks⟩

/-- Two rules: `AND,((DST-PORT,443),(IP-CIDR,10.0.0.0/8)),LAN`, then `MATCH,PROXY`. -/
def lanPolicy : Policy where
  mode := .rule
  rules :=
    [⟨.and [.ports [(443, 443)], .net (.v4 (.slash 0x0a000000 8))], "LAN", false⟩,
      ⟨.all, "PROXY", false⟩]
  rawRules := ["AND,((DST-PORT,443),(IP-CIDR,10.0.0.0/8)),LAN", "MATCH,PROXY"]
  selection := ∅
  delay := ∅

/-- A host with a private address. -/
def lanResolve : Resolve := fun _ port => .ok [(.v4 0x0a000001, port)]

/-- The first rule decides, with the address that was looked up for it. -/
theorem route_lazy_eq_eager_lan :
    (@routeDecision ⟨[], []⟩ lanPolicy lanResolve ⟨"nas.test", 443⟩ "tcp"
        IpText.namesOnly).1 =
      .ok ⟨"LAN", "LAN", "And(((DST-PORT,443),(IP-CIDR,10.0.0.0/8)))"⟩ := by
  obtain ⟨r, hr, heq⟩ := ((@route_lazy_eq_eager IpText.namesOnly ⟨[], []⟩ lanPolicy lanResolve
    ⟨"nas.test", 443⟩ "tcp").1 rfl (by decide) _ rfl).2 0 rfl
  cases hr
  exact heq

end ClashMeta
