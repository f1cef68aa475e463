import ClashMeta.Config.Document

/-!
# Validation

`Config::validate` (config/src/lib.rs:397-746), in the order of the source: the head of
the document, proxies, groups, the walk over the groups, rules, rule providers and the
rest. Names are collected on the way; a check that fails returns its message.

The walk `visit` follows group members and refuses a name that stands on its own path. It
runs on fuel here; `group_walks_exact` says that more than there are groups is enough.
-/

namespace ClashMeta

/-- The text of a message argument. -/
def text (s : Str) : String := String.ofList s

/-- Membership in a list of literals. -/
def oneOf (s : Str) (names : List String) : Prop := s ∈ names.map String.toList

instance (s : Str) (names : List String) : Decidable (oneOf s names) :=
  inferInstanceAs (Decidable (_ ∈ _))

/-- The TLS profiles that can be chosen (lib.rs:400-411, 444-459). -/
def tlsProfiles : List String :=
  ["chrome", "firefox", "safari", "ios", "android", "edge", "360", "qq", "random", "randomized"]

/-- A known TLS profile, or the native one where it is allowed. -/
def knownProfile (allowNative : Bool) (s : Str) : Prop :=
  allowNative = true ∧ s = "native" ∨ oneOf s tlsProfiles

instance (allowNative : Bool) (s : Str) : Decidable (knownProfile allowNative s) :=
  inferInstanceAs (Decidable (_ ∨ _))

/-! ## Values -/

/-- `dns_upstream` (lib.rs:748-754). -/
def dnsUpstream (value : Str) : Bool :=
  !value.isEmpty && (!containsStr "://" value ||
    ["udp://", "tcp://", "tls://", "https://"].any fun scheme =>
      scheme.toList.isPrefixOf value)

/-- `duration_seconds` (lib.rs:756-770). -/
def durationSeconds (value : Str) : Except String Nat := do
  let (digits, mul) :=
    match stripEnd ['s'] value with
    | some s => (s, 1)
    | none =>
      match stripEnd ['m'] value with
      | some s => (s, 60)
      | none => (value, 1)
  let n ← parseUint (2 ^ 64) digits
  ensure (n * mul < 2 ^ 64) "duration overflow"
  ensure (5 ≤ n * mul) "hop interval must be at least 5s"
  return n * mul

/-- `bandwidth` (lib.rs:771-788). -/
def bandwidth [ConfigText] (value : Str) : Except String Nat := do
  let v := asciiLower (trim value)
  let (number, scale) :=
    match stripEnd "gbps" v with
    | some n => (n, 1000000000)
    | none =>
      match stripEnd "mbps" v with
      | some n => (n, 1000000)
      | none =>
        match stripEnd "kbps" v with
        | some n => (n, 1000)
        | none => (v, 1000000)
  match ← ConfigText.scaledRate (trim number) scale with
  | some rate => return rate
  | none => throw "invalid bandwidth"

/-- One range of a port list (lib.rs:795-800). -/
def portRange (part : Str) : Except String (Nat × Nat) :=
  match splitOnce '-' (trim part) with
  | some (a, b) => do
    let lo ← parseUint 65536 a
    let hi ← parseUint 65536 b
    return (lo, hi)
  | none => do
    let n ← parseUint 65536 (trim part)
    return (n, n)

/-- The loop of `port_list`. -/
def portListLoop : List Nat → List Str → Except String (List Nat)
  | output, [] => .ok output
  | output, part :: rest => do
    let (lo, hi) ← portRange part
    ensure (0 < lo ∧ lo ≤ hi) "invalid port range"
    let output := output ++ List.range' lo (hi + 1 - lo)
    ensure (output.length ≤ 65535) "too many hopping ports"
    portListLoop output rest

/-- `port_list` (lib.rs:789-809). -/
def portList (p : Proxy) : Except String (List Nat) :=
  match p.ports with
  | none => .ok [p.port.toNat]
  | some ports => do
    let output ← portListLoop [] (ports.splitOn ',')
    ensure (output ≠ []) "empty port list"
    return output

/-- `is_ascii_hexdigit`. -/
def isHexDigit (c : Char) : Bool :=
  c.isDigit || ('a' ≤ c && c ≤ 'f') || ('A' ≤ c && c ≤ 'F')

/-! ## Proxies -/

section

variable [ConfigText]

/-- The checks of Reality options (lib.rs:517-532). -/
def validateReality (r : Reality) : Except String Unit := do
  let key ← ConfigText.decodeBase64 r.publicKey
  ensure (key.length = 32) "reality public-key must be 32 bytes"
  ensure (utf8Len r.shortId ≤ 16 ∧ utf8Len r.shortId % 2 = 0 ∧ r.shortId.all isHexDigit)
    "invalid reality short-id"

/-- The checks of a VLESS proxy (lib.rs:442-539); messages name the field by its path. -/
def validateVless (allowNative : Bool) (index : Nat) (p : Proxy) : Except String Unit := do
  let field (rest : String) : String := "proxies[" ++ toString index ++ "]" ++ rest
  ensure (∀ v ∈ p.clientFingerprint, knownProfile allowNative v)
    (field ".client-fingerprint: unknown TLS profile")
  ensure (∀ v ∈ p.alpn, v ≠ [] ∧ utf8Len v ≤ 255) (field ".alpn: entries must be 1..255 bytes")
  ensure (p.uuid ≠ none) ("proxy " ++ text p.name ++ ": uuid required")
  ensure (p.flow = [] ∨ p.flow = "xtls-rprx-vision")
    ("unsupported flow for " ++ text p.name)
  ensure (p.flow = [] ∨ p.network = "tcp") "Vision only supports network tcp"
  ensure (p.wsOpts.maxEarlyData ≤ 65535) (field ".ws-opts.max-early-data is too large")
  ensure (p.wsOpts.v2rayHttpUpgradeFastOpen = false ∨ p.wsOpts.v2rayHttpUpgrade = true)
    (field ".ws-opts fast-open requires v2ray-http-upgrade")
  ensure (p.network = "ws" ∨ p.wsOpts = {}) (field ".ws-opts requires network: ws")
  ensure (p.grpcOpts.maxConnections ≤ 1024) (field ".grpc-opts.max-connections is too large")
  ensure (p.grpcOpts.minStreams ≤ 65535) (field ".grpc-opts.min-streams is too large")
  ensure (p.grpcOpts.maxStreams ≤ 65535) (field ".grpc-opts.max-streams is too large")
  ensure (p.grpcOpts.maxStreams = 0 ∨ (p.grpcOpts.maxConnections = 0 ∧ p.grpcOpts.minStreams = 0))
    (field ".grpc-opts.max-streams conflicts with max-connections/min-streams")
  ensure (p.grpcOpts.minStreams = 0 ∨ 0 < p.grpcOpts.maxConnections)
    (field ".grpc-opts.min-streams requires max-connections")
  ensure (p.network = "grpc" ∨ p.grpcOpts = {}) (field ".grpc-opts requires network: grpc")
  ensure (p.flow = [] ∨ p.tls = true ∨ p.realityOpts.isSome) "Vision requires TLS 1.3"
  p.realityOpts.toList.forM validateReality
  ensure (∀ enc ∈ p.packetEncoding, enc = "xudp" ∨ enc = []) "unsupported packet-encoding"

/-- The checks of a Hysteria2 proxy (lib.rs:540-562). With `auth_str` and no password the
others are skipped. -/
def validateHysteria2 (p : Proxy) : Except String Unit :=
  if p.authStr ≠ [] ∧ p.password = [] then .ok ()
  else do
    ensure (p.password ≠ []) ("proxy " ++ text p.name ++ ": password required")
    ensure (∀ v ∈ p.obfs, v = "salamander") "only salamander obfs supported"
    ensure (p.obfs = none ∨ p.obfsPassword ≠ []) "obfs-password required"
    let _ ← portList p
    let _ ← durationSeconds p.hopInterval
    (p.up.toList ++ p.down.toList).forM fun value => do let _ ← bandwidth value

/-- The checks of one proxy but for its name (lib.rs:431-565). -/
def validateProxy (allowNative : Bool) (index : Nat) (p : Proxy) : Except String Unit := do
  ensure (p.server ≠ [] ∧ p.port ≠ 0) ("proxy " ++ text p.name ++ ": server/port required")
  ensure (p.kind ≠ .vless ∨ oneOf p.network ["tcp", "ws", "grpc"])
    ("proxy " ++ text p.name ++ ": VLESS network must be tcp, ws, or grpc")
  match p.kind with
  | .vless => validateVless allowNative index p
  | .hysteria2 => validateHysteria2 p
  | .trojan => return

/-- `names.insert` of a name that must be new and not empty. -/
def addName (names : List Str) (name : Str) (message : String) : Except String (List Str) := do
  ensure (name ≠ [] ∧ name ∉ names) message
  return name :: names

/-- The loop over the proxies. -/
def validateProxies (allowNative : Bool) : Nat → List Str → List Proxy → Except String (List Str)
  | _, names, [] => .ok names
  | index, names, p :: rest => do
    let names ← addName names p.name ("duplicate/reserved proxy name: " ++ text p.name)
    validateProxy allowNative index p
    validateProxies allowNative (index + 1) names rest

end

/-! ## Groups -/

/-- The loop over the groups (lib.rs:566-574). -/
def validateGroups : List Str → List GroupEntry → Except String (List Str)
  | names, [] => .ok names
  | names, g :: rest => do
    let names ← addName names g.name ("duplicate/reserved group name: " ++ text g.name)
    ensure (g.proxies ≠ []) ("empty group " ++ text g.name)
    ensure (0 < g.interval) "group interval must be positive"
    validateGroups names rest

/-- `visit` (lib.rs:580-598). `path` is given back unchanged by every call that succeeds, so
the members are visited with the group's name in front of it. -/
def visit (groups : List Group) (names : List Str) : Nat → List Str → Str → Except String Unit
  | 0, _, name => .error ("cyclic group: " ++ text name)
  | fuel + 1, path, name => do
    ensure (name ∈ names ∧ name ≠ "GLOBAL")
      ("unknown or invalid group target: " ++ text name)
    match groups.find? fun g => g.name = name with
    | none => return
    | some g => do
      ensure (name ∉ path) ("cyclic group: " ++ text name)
      g.proxies.forM (visit groups names fuel (name :: path))

/-! ## Rules -/

/-- The kinds of data a rule can refer to. -/
inductive RefKind where
  | geoIp
  | geoSite
  | ruleSet
  deriving DecidableEq, Repr

mutual

/-- `Matcher::references` (rule.rs:240-253). -/
def Matcher.references : Matcher → List (RefKind × Str)
  | geoIp name => [(.geoIp, name)]
  | geoSite name => [(.geoSite, name)]
  | ruleSet name => [(.ruleSet, name)]
  | and nodes => referencesAll nodes
  | or nodes => referencesAll nodes
  | not m => m.references
  | noResolve m => m.references
  | _ => []

/-- The references of the operands of `And` and `Or`. -/
def Matcher.referencesAll : List Matcher → List (RefKind × Str)
  | [] => []
  | m :: ms => m.references ++ referencesAll ms

end

section

variable [RuleText]

/-- The checks of one rule line (lib.rs:602-619). -/
def validateRule (providers names : List Str) (index : Nat) (raw : Str) : Except String Unit := do
  let path := "rules[" ++ toString index ++ "]"
  let rule ← (Rule.parse raw).mapError fun e => path ++ ": " ++ e
  ensure (rule.target ∈ names) (path ++ ": unknown target " ++ text rule.target)
  rule.matcher.references.forM fun (kind, name) =>
    ensure (kind = .ruleSet → name ∈ providers) (path ++ ": unknown rule provider")

/-- The loop over the rules. -/
def validateRules (providers names : List Str) : Nat → List Str → Except String Unit
  | _, [] => .ok ()
  | index, raw :: rest => do
    validateRule providers names index raw
    validateRules providers names (index + 1) rest

end

/-! ## The rest of the document -/

/-- The checks of a rule provider (lib.rs:620-641). -/
def validateProvider (p : RuleProvider) : Except String Unit := do
  ensure (oneOf p.kind ["http", "file", "inline"]) "invalid rule provider type"
  ensure (oneOf p.behavior ["domain", "ipcidr", "classical"]) "invalid rule provider behavior"
  ensure (oneOf p.format ["yaml", "text"]) "invalid rule provider format"
  ensure (p.kind = "inline" ∨ p.path ≠ []) "rule provider path is required"
  ensure (p.kind ≠ "http".toList ∨ "https://".toList.isPrefixOf p.url ∨
    "http://".toList.isPrefixOf p.url) "HTTP rule provider URL is required"

/-- The DNS checks (lib.rs:667-690). -/
def validateDns (d : Dns) : Except String Unit := do
  d.nameserverPolicy.forM fun (_, value) => do
    ensure (value.values ≠ []) "empty DNS policy upstreams"
    ensure (value.values.all dnsUpstream) "unsupported DNS policy upstream"
  ensure (oneOf d.enhancedMode ["fake-ip", "redir-host"]) "unsupported dns.enhanced-mode"
  ensure (d.nameserver ≠ []) "dns.nameserver cannot be empty"
  ensure ((d.nameserver ++ d.defaultNameserver ++ d.proxyServerNameserver).all dnsUpstream)
    "unsupported DNS upstream scheme"

section

variable [ConfigText]

/-- The check of one `dns-hijack` entry (lib.rs:709-722). -/
def validHijack (value : Str) : Bool :=
  let value := ((stripStart "tcp://" value).or (stripStart "udp://" value)).getD value
  match stripStart "any:" value with
  | some port =>
    match parseUint 65536 port with
    | .ok p => p != 0
    | .error _ => false
  | none => (ConfigText.parseSocketAddr value).any fun a => a.2 != 0

/-- The loop over the `dns-hijack` entries. -/
def validateHijacks : Nat → List Str → Except String Unit
  | _, [] => .ok ()
  | index, value :: rest => do
    ensure (validHijack value)
      ("tun.dns-hijack[" ++ toString index ++ "] must be any:port or IP:port")
    validateHijacks (index + 1) rest

/-- The TUN checks (lib.rs:691-722). -/
def validateTun (t : Tun) : Except String Unit := do
  ensure (1280 ≤ t.mtu ∧ t.mtu ≤ 9000) "tun.mtu must be 1280..9000"
  ensure (t.enable = false ∨ t.autoDetectInterface = true ∨ t.interface ≠ none)
    "tun.interface is required when auto-detect-interface is disabled"
  ensure (t.device ≠ [] ∧ utf8Len t.device ≤ 128 ∧ ¬ t.device.any isControl) "invalid tun.device"
  ensure (t.routeExcludeAddress.length ≤ 1024) "tun.route-exclude-address limit is 1024"
  validateHijacks 0 t.dnsHijack

/-- `Ipv4Addr::is_loopback` and `Ipv6Addr::is_loopback`. -/
def IpAddr.isLoopback : IpAddr → Bool
  | v4 a => a.toNat / 2 ^ 24 == 127
  | v6 a => a == 1

namespace Config

/-- The checks before the proxies (lib.rs:398-423). -/
def validateHead (c : Config) : Except String Unit := do
  ensure (knownProfile c.internalAllowNativeProfile c.globalClientFingerprint)
    (if c.globalClientFingerprint = "rustls" then
      "global-client-fingerprint 'rustls' is unavailable; use a BoringSSL browser profile"
    else "unknown global-client-fingerprint")
  ensure (oneOf c.logLevel ["debug", "info", "warning", "error", "silent"]) "invalid log-level"
  ensure (0 < c.logMaxSize) "log.max-size must be positive"

/-- The checks behind the rules (lib.rs:620-745). -/
def validateRest (c : Config) : Except String Unit := do
  c.ruleProviders.forM fun (_, p) => validateProvider p
  ensure (0 < c.geoUpdateInterval ∧ c.geoUpdateInterval ≤ 8760) "invalid geo-update-interval"
  ensure (oneOf c.findProcessMode ["strict", "always", "off"]) "invalid find-process-mode"
  ensure (oneOf c.tun.stack ["gvisor", "system", "mixed"]) "invalid tun.stack"
  ensure (0 < c.ntp.interval ∧ 0 < c.ntp.port) "invalid NTP interval/port"
  c.sniff.forM fun (protocol, ports) => do
    ensure (oneOf protocol ["HTTP", "TLS"]) "only HTTP/TLS sniffing is supported"
    ports.forM fun port => do let _ ← port.bounds
  validateDns c.dns
  validateTun c.tun
  c.authentication.forM fun auth =>
    ensure ((splitOnce ':' auth).any fun (u, p) => !u.isEmpty && !p.isEmpty)
      "authentication must be user:password"
  c.externalController.toList.forM fun addr =>
    match ConfigText.parseSocketAddr addr with
    | none => throw "external-controller must be IP:port"
    | some (ip, _) => ensure (ip.isLoopback ∨ c.secret ≠ [])
        "non-loopback controller requires secret"
  ensure (c.bindAddress = "*" ∨ (IpText.parse c.bindAddress).isSome)
    "bind-address must be an IP address or *"

/-- The names no proxy or group can take. -/
def reservedNames : List Str := ["DIRECT", "REJECT", "GLOBAL"]

/-- The names of the document: reserved, proxies, groups. -/
def collectNames (c : Config) : Except String (List Str) := do
  let names ← validateProxies c.internalAllowNativeProfile 0 reservedNames c.proxies
  validateGroups names c.proxyGroups

/-- `Config::validate`. -/
def validate (c : Config) : Except String Unit := do
  c.validateHead
  let names ← c.collectNames
  c.core.proxyGroups.forM fun g =>
    visit c.core.proxyGroups names (c.core.proxyGroups.length + 1) [] g.name
  validateRules (c.ruleProviders.map Prod.fst) names 0 c.rules
  c.validateRest

theorem validate_default : validate {} = .ok () := rfl

end Config

end

end ClashMeta
