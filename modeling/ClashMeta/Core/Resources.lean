import ClashMeta.Config.Validate

/-!
# Routing snapshots

`Resources` (core/src/resources.rs:18-44): the matchers that stand for references to geo
data and rule providers, and the rules that a snapshot produces for their texts. How a
snapshot is loaded is left to the environment.
-/

namespace ClashMeta

open Except

mutual

/-- `Matcher::bind` (rule.rs:220-239): references are replaced by what `resolve` gives. -/
def Matcher.bind (resolve : RefKind → Str → Except String Matcher) : Matcher → Except String Matcher
  | geoIp name => resolve .geoIp name
  | geoSite name => resolve .geoSite name
  | ruleSet name => resolve .ruleSet name
  | and nodes => do return .and (← bindAll resolve nodes)
  | or nodes => do return .or (← bindAll resolve nodes)
  | not m => do return .not (← m.bind resolve)
  | noResolve m => do return .noResolve (← m.bind resolve)
  | m => .ok m

/-- The operands of `And` and `Or`. -/
def Matcher.bindAll (resolve : RefKind → Str → Except String Matcher) :
    List Matcher → Except String (List Matcher)
  | [] => .ok []
  | m :: ms => do
    let m ← m.bind resolve
    let ms ← bindAll resolve ms
    return m :: ms

end

/-- `Resources`: a matcher for each kind and name. -/
structure Resources where
  matchers : Table (RefKind × Str) Matcher

namespace Resources

/-- `Resources::default`. -/
def empty : Resources := ⟨∅⟩

variable (s : Resources)

/-- The lookup of `Resources::bind`. -/
def resolve (kind : RefKind) (name : Str) : Except String Matcher :=
  match s.matchers.lookup (kind, name) with
  | some m => .ok m
  | none => .error "referenced routing data is not loaded"

/-- `Resources::bind` (resources.rs:22-35). -/
def bind (m : Matcher) : Except String Matcher := m.bind s.resolve

variable [RuleText]

/-- The rule that the snapshot produces for a text. -/
def rule (raw : Str) : Except String Rule := do
  let r ← Rule.parse raw
  let m ← s.bind r.matcher
  return { r with matcher := m }

/-- `Resources::rules` (resources.rs:36-44). -/
def rules (raw : List Str) : Except String (List Rule) := raw.mapM s.rule

variable {s}

/-- The rule for a text has the text's target and marker and a bound matcher. -/
theorem rule_eq_ok_iff {raw : Str} {r : Rule} :
    s.rule raw = .ok r ↔ ∃ r₀, Rule.parse raw = .ok r₀ ∧ s.bind r₀.matcher = .ok r.matcher ∧
      r.target = r₀.target ∧ r.noResolve = r₀.noResolve := by
  unfold rule
  rw [bind_eq_ok_iff]
  refine exists_congr fun r₀ => and_congr_right fun _ => ?_
  rw [bind_eq_ok_iff]
  constructor
  · rintro ⟨m, hm, h⟩
    cases h
    exact ⟨hm, rfl, rfl⟩
  · rintro ⟨hm, htarget, hmark⟩
    refine ⟨r.matcher, hm, ?_⟩
    obtain ⟨matcher, target, noResolve⟩ := r
    rw [pure_eq_ok_iff]
    change target = _ at htarget
    change noResolve = _ at hmark
    rw [htarget, hmark]

/-- A rule stands for a text: it has the text's target and marker. -/
def StandsFor (raw : Str) (r : Rule) : Prop :=
  ∃ r₀, Rule.parse raw = .ok r₀ ∧ r.target = r₀.target ∧ r.noResolve = r₀.noResolve

/-- The rules stand in the order of their texts. -/
theorem standsFor_of_rules {raw : List Str} {rs : List Rule} (h : s.rules raw = .ok rs) :
    List.Forall₂ StandsFor raw rs := by
  refine (mapM_eq_ok_iff.mp h).imp fun raw r hr => ?_
  obtain ⟨r₀, hr₀, -, htarget, hmark⟩ := rule_eq_ok_iff.mp hr
  exact ⟨r₀, hr₀, htarget, hmark⟩

end Resources

end ClashMeta
