import ClashMeta.Config.Net
import ClashMeta.Lib.Kleene
import ClashMeta.Text

/-!
# Rules

The conditions of routing rules (config/src/rule.rs:5-112, 254-307) and their
lazy evaluation.

`Matcher.evaluate` answers `none` when the truth of the condition still hangs on
an address that a DNS lookup could supply. It is a three-valued evaluator, so
its facts come from `Kleene`.

Regular expressions and geo databases are external: a `Regex` is its `is_match`
and an `ExternalIp` its `matches`.
-/

namespace ClashMeta

/-- `DomainSet`: the names of a rule provider. -/
structure DomainSet where
  exact : List Str
  suffix : List Str
  keywords : List Str
  regex : List (Str → Bool)

namespace DomainSet

/-- The loop over the labels of a host (rule.rs:46-55): the host itself, then
what is behind its first dot, and so on. -/
def labelLoop (suffix : List Str) : Nat → Str → Bool
  | 0, _ => false
  | fuel + 1, label =>
    suffix.contains label ||
      match splitOnce '.' label with
      | some (_, rest) => labelLoop suffix fuel rest
      | none => false

/-- `DomainSet::matches` (rule.rs:41-58). Every round of the loop drops a character, so one round
more than there are characters is enough. -/
def «matches» (s : DomainSet) (host : Str) : Bool :=
  s.exact.contains host || labelLoop s.suffix (host.length + 1) host ||
    s.keywords.any (containsStr · host) || s.regex.any (fun r => r host)

end DomainSet

/-- `IpSet`: sorted, merged address ranges by family. -/
structure IpSet where
  v4 : List (Nat × Nat)
  v6 : List (Nat × Nat)
  inverse : Bool

namespace IpSet

/-- The range before the partition point (rule.rs:107-108) holds the address. -/
def inRanges (ranges : List (Nat × Nat)) (n : Nat) : Bool :=
  match (ranges.takeWhile fun r => r.1 ≤ n).getLast? with
  | some r => n ≤ r.2
  | none => false

/-- `IpSet::matches`. -/
def «matches» (s : IpSet) : IpAddr → Bool
  | .v4 a => xor (inRanges s.v4 a.toNat) s.inverse
  | .v6 a => xor (inRanges s.v6 a.toNat) s.inverse

end IpSet

/-- `Matcher`: the condition of a rule. -/
inductive Matcher where
  | domain (d : Str)
  | suffix (d : Str)
  | keyword (k : Str)
  | regex (isMatch : Str → Bool)
  | net (n : IpNet)
  | port (p : UInt16)
  | ports (ranges : List (UInt16 × UInt16))
  | network (n : Str)
  | geoIp (name : Str)
  | geoSite (name : Str)
  | ruleSet (name : Str)
  | and (nodes : List Matcher)
  | or (nodes : List Matcher)
  | not (m : Matcher)
  | noResolve (m : Matcher)
  | domains (s : DomainSet)
  | nets (s : IpSet)
  | externalIp (test : IpAddr → Bool)
  | all

namespace Matcher

/-- An IP condition: decided by the address, and without one left open or false. -/
def onIp (test : IpAddr → Bool) (ip : Option IpAddr) (canResolve : Bool) : Option Bool :=
  match ip with
  | some ip => some (test ip)
  | none => if canResolve then none else some false

mutual

/-- `Matcher::evaluate` (rule.rs:254-307). `none` asks for a DNS lookup. The
references that `bind` replaces are false. -/
def evaluate (host : Str) (ip : Option IpAddr) (port : UInt16) (network : Str) :
    Bool → Matcher → Option Bool
  | _, domain d => some (host == d)
  | _, suffix d => some (host == d || (stripEnd d host).any fun p => p.getLast? == some '.')
  | _, keyword k => some (containsStr k host)
  | _, regex isMatch => some (isMatch host)
  | _, domains s => some (s.matches host)
  | canResolve, net n => onIp n.contains ip canResolve
  | canResolve, nets s => onIp s.matches ip canResolve
  | canResolve, externalIp test => onIp test ip canResolve
  | _, Matcher.port p => some (p == port)
  | _, ports ranges => some (ranges.any fun r => r.1 ≤ port && port ≤ r.2)
  | _, Matcher.network n => some (n == network)
  | _, all => some true
  | canResolve, not m => (evaluate host ip port network canResolve m).map (!·)
  | _, noResolve m => evaluate host ip port network false m
  | canResolve, and nodes =>
    Kleene.junction true (evaluateAll host ip port network canResolve nodes)
  | canResolve, or nodes =>
    Kleene.junction false (evaluateAll host ip port network canResolve nodes)
  | _, geoIp _ => some false
  | _, geoSite _ => some false
  | _, ruleSet _ => some false

/-- The operands of `And` and `Or`. -/
def evaluateAll (host : Str) (ip : Option IpAddr) (port : UInt16) (network : Str) :
    Bool → List Matcher → List (Option Bool)
  | _, [] => []
  | canResolve, m :: ms =>
    evaluate host ip port network canResolve m :: evaluateAll host ip port network canResolve ms

end

theorem evaluateAll_eq_map (host : Str) (ip : Option IpAddr) (port : UInt16) (network : Str)
    (canResolve : Bool) (nodes : List Matcher) :
    evaluateAll host ip port network canResolve nodes =
      nodes.map (evaluate host ip port network canResolve) := by
  induction nodes with
  | nil => rw [evaluateAll, List.map_nil]
  | cons m ms ih => rw [evaluateAll, List.map_cons, ih]

/-! ## Which conditions can ask for an address -/

mutual

/-- A `NoResolve` stands somewhere in the condition. -/
def marked : Matcher → Bool
  | noResolve _ => true
  | not m => marked m
  | and nodes => markedAny nodes
  | or nodes => markedAny nodes
  | _ => false

/-- The same for the operands of `And` and `Or`. -/
def markedAny : List Matcher → Bool
  | [] => false
  | m :: ms => marked m || markedAny ms

end

mutual

/-- An IP condition stands in the condition, outside every `NoResolve`. -/
def asksIp : Matcher → Bool
  | net _ => true
  | nets _ => true
  | externalIp _ => true
  | noResolve _ => false
  | not m => asksIp m
  | and nodes => asksIpAny nodes
  | or nodes => asksIpAny nodes
  | _ => false

/-- The same for the operands of `And` and `Or`. -/
def asksIpAny : List Matcher → Bool
  | [] => false
  | m :: ms => asksIp m || asksIpAny ms

end

/-! ## Lazy evaluation -/

variable {host : Str} {port : UInt16} {network : Str}

theorem onIp_le (test : IpAddr → Bool) (ip : Option IpAddr) :
    Kleene.Le (onIp test none true) (onIp test ip false) := Kleene.le_none _

mutual

/-- Without `NoResolve`, an answer given before the lookup is the answer for every
result of the lookup, an address or none. -/
theorem evaluate_le (ip : Option IpAddr) (m : Matcher) (h : m.marked = false) :
    Kleene.Le (evaluate host none port network true m)
      (evaluate host ip port network false m) := by
  cases m with
  | net n | nets s | externalIp test => exact onIp_le _ ip
  | noResolve m => cases h
  | not m => exact (evaluate_le ip m h).map_not
  | and nodes | or nodes => exact Kleene.junction_mono (evaluateAll_le ip nodes h)
  | _ => exact Kleene.Le.refl _

theorem evaluateAll_le (ip : Option IpAddr) (nodes : List Matcher) (h : markedAny nodes = false) :
    List.Forall₂ Kleene.Le (evaluateAll host none port network true nodes)
      (evaluateAll host ip port network false nodes) := by
  cases nodes with
  | nil => exact .nil
  | cons m ms =>
    obtain ⟨hm, hms⟩ := Bool.or_eq_false_iff.mp h
    exact .cons (evaluate_le ip m hm) (evaluateAll_le ip ms hms)

end

theorem onIp_isSome (test : IpAddr → Bool) (ip : Option IpAddr) : (onIp test ip false).isSome := by
  cases ip <;> rfl

mutual

/-- There is always an answer once an address is there or no lookup is allowed. -/
theorem evaluate_isSome (ip : Option IpAddr) (m : Matcher) :
    (evaluate host ip port network false m).isSome := by
  cases m with
  | net n | nets s | externalIp test => exact onIp_isSome _ ip
  | noResolve m => exact evaluate_isSome ip m
  | not m =>
    show (Option.map _ _).isSome
    rw [Option.isSome_map]
    exact evaluate_isSome ip m
  | and nodes | or nodes => exact Kleene.junction_isSome (evaluateAll_isSome ip nodes)
  | _ => rfl

theorem evaluateAll_isSome (ip : Option IpAddr) (nodes : List Matcher) :
    ∀ x ∈ evaluateAll host ip port network false nodes, x.isSome := by
  cases nodes with
  | nil => exact nofun
  | cons m ms =>
    intro x hx
    rcases List.mem_cons.mp hx with rfl | hx
    · exact evaluate_isSome ip m
    · exact evaluateAll_isSome ip ms x hx

end

mutual

/-- No answer means an IP condition outside `NoResolve`. -/
theorem asksIp_of_evaluate {ip : Option IpAddr} {canResolve : Bool} (m : Matcher)
    (h : evaluate host ip port network canResolve m = none) : m.asksIp = true := by
  cases m with
  | net n | nets s | externalIp test => rfl
  | noResolve m =>
    have hsome : (evaluate host ip port network false m).isSome := evaluate_isSome ip m
    rw [show evaluate host ip port network false m = none from h] at hsome
    cases hsome
  | not m => exact asksIp_of_evaluate m (Option.map_eq_none_iff.mp h)
  | and nodes | or nodes => exact asksIpAny_of_evaluateAll nodes (Kleene.exists_none_of_junction h)
  | _ => cases h

theorem asksIpAny_of_evaluateAll {ip : Option IpAddr} {canResolve : Bool} (nodes : List Matcher)
    (h : none ∈ evaluateAll host ip port network canResolve nodes) : asksIpAny nodes = true := by
  cases nodes with
  | nil => cases h
  | cons m ms =>
    rw [asksIpAny, Bool.or_eq_true]
    rcases List.mem_cons.mp h with hm | hms
    · exact .inl (asksIp_of_evaluate m hm.symm)
    · exact .inr (asksIpAny_of_evaluateAll ms hms)

end

end Matcher

/-- A routing rule. -/
structure Rule where
  matcher : Matcher
  target : Str
  noResolve : Bool

namespace Rule

/-- `Rule::matches` (rule.rs:332-340). -/
def «matches» (r : Rule) (host : Str) (ip : Option IpAddr) (port : UInt16) (network : Str) : Bool :=
  r.matcher.evaluate (normHost host) ip port network false == some true

end Rule

end ClashMeta
