import ClashMeta.Config.Rule
import ClashMeta.Lib.Checked

/-!
# Reading rules

The text of a rule (config/src/rule.rs:116-331): fields between commas, where a comma
inside parentheses does not count, and logical conditions nested in parentheses.

Regular expressions and the textual form of networks are external and enter as the
parameter `RuleText`.
-/

namespace ClashMeta

/-- What the parser takes from the `regex` and `ipnet` crates. -/
class RuleText where
  /-- `compile_regex`. -/
  compileRegex : Str → Except String (Str → Bool)
  /-- `Regex::new`. -/
  newRegex : Str → Except String (Str → Bool)
  /-- `regex::escape`. -/
  escape : Str → Str
  /-- `str::parse::<IpNet>`. -/
  parseNet : Str → Except String IpNet

/-- The reading under which no text is a regular expression or a network. -/
@[reducible] def RuleText.none : RuleText :=
  ⟨fun _ => .error "regex", fun _ => .error "regex", id,
    fun _ => .error "invalid IP address syntax"⟩

/-! ## Fields -/

/-- The loop of `fields` (rule.rs:117-138): `depth` open parentheses, and the text since
the last comma that counted. -/
def fieldsLoop : Nat → Str → Str → Except String (List Str)
  | depth, text, [] => do
    ensure (depth = 0) "unbalanced rule"
    return [trim text]
  | depth, text, c :: rest =>
    if c = '(' then do
      ensure (depth + 1 ≤ 32) "rule nesting limit"
      fieldsLoop (depth + 1) (text ++ [c]) rest
    else if c = ')' then do
      ensure (0 < depth) "unbalanced rule"
      fieldsLoop (depth - 1) (text ++ [c]) rest
    else if c = ',' ∧ depth = 0 then do
      let out ← fieldsLoop 0 [] rest
      return trim text :: out
    else fieldsLoop depth (text ++ [c]) rest

/-- `fields` (rule.rs:116-140). -/
def fields (raw : Str) : Except String (List Str) := do
  ensure (utf8Len raw ≤ 65536) "rule too long"
  fieldsLoop 0 [] raw

/-- `unwrap` (rule.rs:141-145): the text between the parentheses at its ends. -/
def unwrap (raw : Str) : Except String Str :=
  match (stripStart ['('] raw).bind (stripEnd [')']) with
  | some inner => .ok inner
  | none => .error "logical rule requires parentheses"

/-! ## Conditions -/

/-- `PortRange`. -/
inductive PortRange where
  | number (n : UInt16)
  | range (s : Str)

/-- `PortRange::bounds` (compat.rs:107-120). -/
def PortRange.bounds : PortRange → Except String (UInt16 × UInt16)
  | number n => do
    ensure (0 < n ∧ n ≤ n) "invalid port range"
    return (n, n)
  | range s => do
    let (a, b) ← match splitOnce '-' s with
      | some (a, b) => do
        let a ← parseUint 65536 a
        let b ← parseUint 65536 b
        pure (a, b)
      | none => do
        let n ← parseUint 65536 s
        pure (n, n)
    ensure (0 < a ∧ a ≤ b) "invalid port range"
    return (UInt16.ofNat a, UInt16.ofNat b)

/-- The kinds of logical conditions. -/
inductive Logic where
  | and
  | or
  | not
  deriving DecidableEq, Repr

namespace Logic

/-- The logical kind of that name. -/
def ofKind (kind : Str) : Option Logic :=
  if kind = "AND" then some and
  else if kind = "OR" then some or
  else if kind = "NOT" then some not
  else none

/-- The matcher over the operands (rule.rs:175-182). -/
def build : Logic → List Matcher → Except String Matcher
  | and, nodes => .ok (.and nodes)
  | or, nodes => .ok (.or nodes)
  | not, [m] => .ok (.not m)
  | not, _ => .error "NOT requires one condition"

/-- The operands of a logical condition (rule.rs:164-169): several fields, one field, or
one field that lists them in parentheses of its own. -/
def parts (text : Str) : List Str → Except String (List Str)
  | [] => do
    let inner ← unwrap text
    if inner.head? = some '(' then fields inner else return [text]
  | more => .ok (text :: more)

end Logic

/-- The text of the marker that keeps a rule from asking DNS. -/
def noResolveField : Str := "no-resolve"

/-- The fields without a marker at their end. -/
def unmark (f : List Str) : List Str :=
  if f.getLast? = some noResolveField then f.dropLast else f

variable [RuleText]

/-- The conditions that are not logical (rule.rs:184-215): kind and value. -/
def parseLeaf (kind text : Str) : Except String Matcher :=
  let value := asciiLower text
  if kind = "DOMAIN" then .ok (.domain (trimDots value))
  else if kind = "DOMAIN-SUFFIX" then
    .ok (.suffix (trimDots (value.dropWhile (· == '.'))))
  else if kind = "DOMAIN-KEYWORD" then .ok (.keyword value)
  else if kind = "DOMAIN-REGEX" then do
    let isMatch ← RuleText.compileRegex text
    return .regex isMatch
  else if kind = "IP-CIDR" ∨ kind = "IP-CIDR6" then do
    let n ← RuleText.parseNet value
    ensure ((!n.networkAddr.isIpv6) = decide (kind = "IP-CIDR")) "rule IP family mismatch"
    return .net n
  else if kind = "GEOIP" then .ok (.geoIp value)
  else if kind = "GEOSITE" then .ok (.geoSite value)
  else if kind = "RULE-SET" then .ok (.ruleSet text)
  else if kind = "DST-PORT" then do
    let ports ← (value.splitOn '/').mapM fun part => (PortRange.range part).bounds
    return .ports ports
  else if kind = "NETWORK" then do
    ensure (value = "tcp" ∨ value = "udp") "invalid network"
    return .network value
  else .error ("unsupported rule type " ++ String.ofList kind)

/-- The condition with these fields, its marker taken off (rule.rs:157-216); `operand` reads
the conditions in it. -/
def parseFields (operand : Str → Except String Matcher) : List Str → Except String Matcher
  | kind :: text :: more => do
    ensure ((Logic.ofKind kind).isSome ∨ more = []) "invalid condition fields"
    ensure (text ≠ []) "empty rule value"
    match Logic.ofKind kind with
    | some logic => do
      let parts ← Logic.parts text more
      ensure (parts ≠ []) "empty logical rule"
      let nodes ← parts.mapM fun part => do operand (← unwrap part)
      logic.build nodes
    | none => parseLeaf kind text
  | _ => .error "invalid condition fields"

/-- `Matcher::parse_depth` (rule.rs:150-222), with the number of levels that are left
under the limit of 32. -/
def parseDepth : Nat → Str → Except String Matcher
  | 0, _ => .error "rule nesting limit"
  | levels + 1, raw => do
    let f ← fields raw
    let m ← parseFields (parseDepth levels) (unmark f)
    return if f.getLast? = some noResolveField then .noResolve m else m

/-- `Matcher::parse_condition`. -/
def parseCondition (raw : Str) : Except String Matcher := parseDepth 32 raw

/-- The matcher of a rule with these fields before its target (rule.rs:319-324). -/
def parseMatcher (f : List Str) : Except String Matcher :=
  if f.head? = some "MATCH".toList then do
    ensure (f.length = 1) "MATCH takes one target"
    return .all
  else parseCondition (joinComma f)

/-- `Rule::parse` (rule.rs:310-331). -/
def Rule.parse (raw : Str) : Except String Rule := do
  let f ← fields raw
  ensure (2 ≤ f.length) "rule needs type and target"
  let noResolve := decide (f.getLast? = some noResolveField)
  let f := unmark f
  ensure (2 ≤ f.length) "missing rule target"
  let target := f.getLast?.getD []
  ensure (target ≠ []) "empty rule target"
  let matcher ← parseMatcher f.dropLast
  return ⟨matcher, target, noResolve⟩

/-! ## Domain patterns -/

/-- `replace("\\*", "[^.]*")`. -/
def replaceStars : Str → Str
  | '\\' :: '*' :: rest => "[^.]*" ++ replaceStars rest
  | c :: rest => c :: replaceStars rest
  | [] => []

/-- `domain_pattern` (rule.rs:342-356). -/
def domainPattern (pattern : Str) : Except String Matcher := do
  let p := asciiLower (trim pattern)
  ensure (p ≠ []) "empty domain pattern"
  match stripStart "+." p with
  | some s => return .suffix s
  | none =>
    match stripStart ['.'] p with
    | some s => return .suffix s
    | none =>
      if '*' ∉ p then return .domain p
      else
        let isMatch ← RuleText.newRegex (['^'] ++ replaceStars (RuleText.escape p) ++ ['$'])
        return .regex isMatch

end ClashMeta
