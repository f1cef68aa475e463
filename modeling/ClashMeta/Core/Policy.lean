import ClashMeta.Config.Rule
import ClashMeta.Lib.Table

/-!
# The policy of the core

What a routing decision and a latency test read and write
(core/src/lib.rs:46-106, 465-486): the mode, the bound rules next to their texts,
the node each group has selected and the last delay measured for each node.
-/

namespace ClashMeta

/-- `Mode`. -/
inductive Mode where
  | rule
  | global
  | direct
  deriving DecidableEq, Repr

/-- `GroupKind`. -/
inductive GroupKind where
  | select
  | urlTest
  deriving DecidableEq, Repr

/-- A proxy group. -/
structure Group where
  name : Str
  kind : GroupKind
  proxies : List Str
  /-- Milliseconds, a `u64`. -/
  tolerance : UInt64

/-- The part of `Config` that names nodes. -/
structure CoreConfig where
  proxyGroups : List Group
  /-- The names of the proxies. -/
  proxies : List Str

/-- `Policy`. -/
structure Policy where
  mode : Mode
  rules : List Rule
  rawRules : List Str
  selection : Table Str Str
  delay : Table Str UInt64

/-! ## Following selections -/

/-- The loop of `leaf`: from a group to the node it has selected, for as many
rounds as are left. -/
def leafLoop (selection : Table Str Str) : Nat → Str → Except String Str
  | 0, _ => .error "group cycle"
  | rounds + 1, name =>
    match selection.lookup name with
    | some selected => leafLoop selection rounds selected
    | none => .ok name

/-- Where `GLOBAL` starts: the first group, else the first proxy, else `DIRECT`. -/
def globalName (c : CoreConfig) : Str :=
  ((c.proxyGroups.head?.map Group.name).or c.proxies.head?).getD "DIRECT"

/-- `Core::leaf` (lib.rs:465-486). -/
def leaf (c : CoreConfig) (p : Policy) (name : Str) : Except String Str :=
  leafLoop p.selection (c.proxyGroups.length + 1)
    (if name = "GLOBAL" then globalName c else name)

/-! ## Describing a rule -/

/-- The loop of `without_last_rule_field` (lib.rs:60-72), from the end of the text:
`behind` is what the loop has passed. -/
def lastFieldLoop (expected : Str) : Nat → Str → Str → Option Str
  | _, [], _ => none
  | depth, c :: before, behind =>
    if c = ')' then lastFieldLoop expected (depth + 1) before (c :: behind)
    else if c = '(' then lastFieldLoop expected (depth - 1) before (c :: behind)
    else if c = ',' ∧ depth = 0 ∧ eqIgnoreCase (trim behind) expected then
      some (trimEnd before.reverse)
    else lastFieldLoop expected depth before (c :: behind)

/-- `without_last_rule_field`: the rule without its last field of the given text. -/
def withoutLastRuleField (raw expected : Str) : Str :=
  (lastFieldLoop expected 0 raw.reverse []).getD raw

/-- The names of the rule kinds in a description (lib.rs:87-102). -/
def kindNames : List (String × String) :=
  [("DOMAIN", "Domain"), ("DOMAIN-SUFFIX", "DomainSuffix"), ("DOMAIN-KEYWORD", "DomainKeyword"),
    ("DOMAIN-REGEX", "DomainRegex"), ("IP-CIDR", "IPCIDR"), ("IP-CIDR6", "IPCIDR6"),
    ("GEOIP", "GeoIP"), ("GEOSITE", "GeoSite"), ("RULE-SET", "RuleSet"), ("DST-PORT", "DstPort"),
    ("NETWORK", "Network"), ("AND", "And"), ("OR", "Or"), ("NOT", "Not")]

/-- The name of a kind, in whatever case it is written; an unknown one is itself. -/
def kindName (kind : Str) : Str :=
  match kindNames.find? fun e => e.1.toList = asciiUpper kind with
  | some e => e.2.toList
  | none => kind

/-- `describe_rule` (lib.rs:74-105). -/
def describeRule (raw target : Str) : Str :=
  let raw := withoutLastRuleField (withoutLastRuleField raw "no-resolve") target
  match splitOnce ',' raw with
  | none => if eqIgnoreCase raw "MATCH" then "Match" else raw
  | some (kind, value) => kindName (trim kind) ++ ['('] ++ trim value ++ [')']

end ClashMeta
