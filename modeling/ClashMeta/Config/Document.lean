import ClashMeta.Config.Parse
import ClashMeta.Core.Policy

/-!
# The configuration document

`Config` (config/src/lib.rs:13-343, compat.rs) with the fields that the modelled functions
read, and its defaults. Maps with ordered keys are lists of entries in key order.

What the checks take from other crates enters as the parameter `ConfigText`: the textual
forms of addresses, URL-safe base64 and floating-point numbers.
-/

namespace ClashMeta

/-- What the checks of a configuration take from other crates. -/
class ConfigText extends RuleText, IpText where
  /-- `str::parse::<SocketAddr>`. -/
  parseSocketAddr : Str → Option (IpAddr × UInt16)
  /-- `URL_SAFE_NO_PAD.decode`. -/
  decodeBase64 : Str → Except String (List Byte)
  /-- It takes letters, digits, `-` and `_` only. -/
  decodeBase64_ok : ∀ s bytes, decodeBase64 s = .ok bytes →
    ∀ c ∈ s, c.isAlphanum = true ∨ c = '-' ∨ c = '_'
  /-- `number.parse::<f64>()? * scale / 8.0`, cut to a whole number; `none` when that is not
  finite or outside `1.0..=1e12`. -/
  scaledRate : Str → Nat → Except String (Option Nat)

/-- The reading for configurations that use none of these forms. -/
@[reducible] def ConfigText.none : ConfigText :=
  { RuleText.none, IpText.namesOnly with
    parseSocketAddr := fun _ => .none
    decodeBase64 := fun _ => .error "Invalid padding"
    decodeBase64_ok := by intros; contradiction
    scaledRate := fun _ _ => .error "invalid float literal" }

/-- `Strings`: one string or several. -/
inductive Strings where
  | one (s : Str)
  | many (ss : List Str)

/-- `Strings::values`. -/
def Strings.values : Strings → List Str
  | one s => [s]
  | many ss => ss

/-- `ProxyKind`. -/
inductive ProxyKind where
  | vless
  | hysteria2
  | trojan
  deriving DecidableEq, Repr

/-- `WsOptions`. -/
structure WsOptions where
  path : Str := "/"
  headers : List (Str × Str) := []
  maxEarlyData : Nat := 0
  earlyDataHeaderName : Str := []
  v2rayHttpUpgrade : Bool := false
  v2rayHttpUpgradeFastOpen : Bool := false
  deriving DecidableEq

/-- `GrpcOptions`. -/
structure GrpcOptions where
  grpcServiceName : Str := "GunService"
  grpcUserAgent : Str := "grpc-go/1.36.0"
  pingInterval : UInt64 := 0
  maxConnections : Nat := 0
  minStreams : Nat := 0
  maxStreams : Nat := 0
  deriving DecidableEq

/-- `Reality`. -/
structure Reality where
  publicKey : Str
  shortId : Str

/-- `Proxy`, with the fields that its validation reads. -/
structure Proxy where
  name : Str
  kind : ProxyKind
  server : Str
  port : UInt16
  uuid : Option Uuid := none
  password : Str := []
  tls : Bool := false
  alpn : List Str := []
  network : Str := "tcp"
  flow : Str := []
  clientFingerprint : Option Str := none
  realityOpts : Option Reality := none
  packetEncoding : Option Str := none
  obfs : Option Str := none
  obfsPassword : Str := []
  ports : Option Str := none
  hopInterval : Str := "30s"
  up : Option Str := none
  down : Option Str := none
  wsOpts : WsOptions := {}
  grpcOpts : GrpcOptions := {}
  authStr : Str := []

/-- `Group` as it stands in the document, with the interval of its latency tests. -/
structure GroupEntry extends Group where
  tolerance := 50
  /-- Seconds, a `u64`. -/
  interval : UInt64 := 300

/-- `RuleProvider`, with the fields that its validation reads. -/
structure RuleProvider where
  kind : Str := "http"
  behavior : Str := "domain"
  format : Str := "yaml"
  path : Str := []
  url : Str := []

/-- `Dns`, with the fields that its validation and the resolver's policy read. -/
structure Dns where
  nameserver : List Str := ["https://1.1.1.1/dns-query"]
  defaultNameserver : List Str := ["1.1.1.1"]
  enhancedMode : Str := "fake-ip"
  fakeIpFilter : List Str := ["localhost", "*.local"]
  ipv6 : Bool := true
  proxyServerNameserver : List Str := []
  nameserverPolicy : List (Str × Strings) := []

/-- `Tun`, with the fields that its validation reads. -/
structure Tun where
  enable : Bool := false
  stack : Str := "gvisor"
  device : Str := "meta-rust"
  autoDetectInterface : Bool := true
  interface : Option Str := none
  mtu : UInt16 := 1500
  routeExcludeAddress : List IpNet := []
  dnsHijack : List Str := ["any:53"]

/-- `Profile`. -/
structure Profile where
  storeSelected : Bool := false
  storeFakeIp : Bool := false

/-- `Ntp`, with the fields that its validation reads. -/
structure Ntp where
  port : UInt16 := 123
  interval : UInt64 := 30

/-- `Config`. -/
structure Config where
  bindAddress : Str := "*"
  authentication : List Str := []
  mode : Mode := .rule
  logLevel : Str := "info"
  /-- `log.max_size`. -/
  logMaxSize : UInt64 := 10
  proxies : List Proxy := []
  proxyGroups : List GroupEntry := []
  rules : List Str := ["MATCH,DIRECT"]
  dns : Dns := {}
  tun : Tun := {}
  externalController : Option Str := none
  secret : Str := []
  ruleProviders : List (Str × RuleProvider) := []
  geoUpdateInterval : UInt64 := 24
  findProcessMode : Str := "strict"
  globalClientFingerprint : Str := "chrome"
  hosts : List (Str × Strings) := []
  profile : Profile := {}
  ntp : Ntp := {}
  /-- `sniffer.sniff`: the ports of each protocol. -/
  sniff : List (Str × List PortRange) := []
  internalAllowNativeProfile : Bool := false

/-- The part of the configuration that routing reads. -/
def Config.core (c : Config) : CoreConfig :=
  ⟨c.proxyGroups.map GroupEntry.toGroup, c.proxies.map Proxy.name⟩

end ClashMeta
