import ClashMeta.Config.Validate
import ClashMeta.Protocol.Tls.Sessions
import ClashMeta.Protocol.Vless.AddressRoundTrip

/-!
# The keys of pooled gRPC connections (protocol/src/grpc.rs:75-86, vless.rs:52-125)

Connections are shared between the streams that have one key. The key joins twelve values with
bars, and most of them are free text of the configuration, which may hold bars itself.
-/

namespace ClashMeta

open List AddressText

/-- `Display` for `Target`. -/
def Target.display (t : Target) : Str :=
  let port := ':' :: Nat.toDigits 10 t.port.toNat
  if ':' ∈ t.host then '[' :: (t.host ++ ']' :: port) else t.host ++ port

namespace Grpc

/-- The `Debug` form of a fingerprint. -/
def debugFingerprint : Tls.Fingerprint → Str
  | .chrome => "Chrome"
  | .firefox => "Firefox"
  | .safari => "Safari"
  | .ios => "Ios"
  | .android => "Android"
  | .edge => "Edge"
  | ._360 => "_360"
  | .qq => "Qq"
  | .random => "Random"
  | .randomized => "Randomized"
  | .native => "Native"

/-- The `Debug` form of a text that needs no escapes. -/
def quoted (s : Str) : Str := '\x22' :: (s ++ ['\x22'])

/-- `Some(Reality)` under `{:?}`, before the key. -/
def realityStart : Str := "Some(Reality \x7b public_key: "

/-- The same between the key and the id. -/
def realityMiddle : Str := ", short_id: "

/-- The same behind the id. -/
def realityEnd : Str := " \x7d)"

/-- The `Debug` form of the REALITY options. -/
def debugReality : Option Reality → Str
  | none => "None"
  | some r => realityStart ++ (quoted r.publicKey ++ (realityMiddle ++ (quoted r.shortId ++
      realityEnd)))

/-- A `bool` under `{}`. -/
def boolText (b : Bool) : Str := if b then "true" else "false"

/-- A proxy of the configuration with what a VLESS connection over gRPC reads of it. -/
structure Outbound extends Proxy where
  servername : Option Str := none
  sni : Option Str := none
  skipCertVerify : Bool := false
  /-- the profile that `client_fingerprint` or the default names -/
  fingerprint : Tls.Fingerprint := .chrome
  admitted : ∀ r ∈ realityOpts, ∃ text, @validateReality text r = .ok () := by nofun

/-- What a connection is made with. -/
structure Transport where
  name : Str
  serverName : Str
  verifyCert : Bool
  fingerprint : Tls.Fingerprint
  alpn : List Str
  reality : Option Reality
  secure : Bool
  endpoint : Str
  authority : Str
  serviceName : Str
  userAgent : Str
  pingInterval : UInt64

/-- `format!("{}|{}|..")`. -/
def bars (texts : List Str) : Str := ['|'].intercalate texts

namespace Transport

/-- `transport_identity` (vless.rs:107-115). -/
def identity (x : Transport) : Str :=
  bars [x.name, x.serverName, boolText x.verifyCert, debugFingerprint x.fingerprint,
    [','].intercalate x.alpn, debugReality x.reality]

/-- `key` (grpc.rs:75-86), for that identity. -/
def poolKey (x : Transport) : Str :=
  bars [x.identity, boolText x.secure, x.endpoint, x.authority, x.serviceName, x.userAgent,
    Nat.toDigits 10 x.pingInterval.toNat]

/-- The values that are joined. -/
def texts (x : Transport) : List Str :=
  [x.name, x.serverName, boolText x.verifyCert, debugFingerprint x.fingerprint,
    [','].intercalate x.alpn, debugReality x.reality, boolText x.secure, x.endpoint, x.authority,
    x.serviceName, x.userAgent, Nat.toDigits 10 x.pingInterval.toNat]

end Transport

namespace Outbound

/-- The standard library's addresses. -/
local instance poolText : IpText := .std

/-- What is handed to `grpc::connect` (vless.rs:52-124). -/
def transport (p : Outbound) (endpoint : Str) : Transport :=
  let host := p.servername.or p.sni
  { name := p.name
    serverName := host.getD p.server
    verifyCert := !p.skipCertVerify
    fingerprint := p.fingerprint
    alpn := ["h2"]
    reality := p.realityOpts
    secure := p.tls || p.realityOpts.isSome
    endpoint := endpoint
    authority := host.getD endpoint
    serviceName := p.grpcOpts.grpcServiceName
    userAgent := p.grpcOpts.grpcUserAgent
    pingInterval := p.grpcOpts.pingInterval }

/-- `connect_with_options` for gRPC and a TCP target that has a header, up to the call of
`grpc::connect` (vless.rs:37-125). -/
def connect (p : Outbound) : Except String Transport := do
  ensure (p.kind = .vless) "expected VLESS proxy"
  ensure (p.flow = [] ∨ p.flow = "xtls-rprx-vision") "unsupported VLESS flow"
  ensure (p.uuid ≠ none) "VLESS uuid missing"
  ensure (p.flow = []) "Vision requires TCP with TLS 1.3"
  let target ← Target.new p.server p.port
  return p.transport target.display

/-- The free text of a proxy. -/
def freeText (p : Outbound) : List Str :=
  [p.name, p.server, p.grpcOpts.grpcServiceName, p.grpcOpts.grpcUserAgent] ++
    p.servername.toList ++ p.sni.toList

/-- The free text has these characters only. -/
def Over (A : Char → Prop) (p : Outbound) : Prop := ∀ s ∈ p.freeText, ∀ c ∈ s, A c

end Outbound

/-! ## Reading a key -/

theorem intercalate_inj {sep : Char} {l m : List Str} (hl : ∀ s ∈ l, sep ∉ s)
    (hm : ∀ s ∈ m, sep ∉ s) (hl' : l ≠ []) (hm' : m ≠ [])
    (h : [sep].intercalate l = [sep].intercalate m) : l = m := by
  rw [← splitOn_intercalate sep hl hl', h, splitOn_intercalate sep hm hm']

theorem debugFingerprint_inj {a b : Tls.Fingerprint}
    (h : debugFingerprint a = debugFingerprint b) : a = b := by
  cases a <;> cases b <;> first | rfl | exact absurd h (by decide)

theorem boolText_inj {a b : Bool} (h : boolText a = boolText b) : a = b := by
  cases a <;> cases b <;> first | rfl | exact absurd h (by decide)

/-- The parts of the options between the quotes. -/
def realityParts : Option Reality → List Str
  | none => ["None"]
  | some r => [realityStart, r.publicKey, realityMiddle, r.shortId, realityEnd]

theorem debugReality_eq (o : Option Reality) :
    debugReality o = ['\x22'].intercalate (realityParts o) := by
  cases o with
  | none => rfl
  | some r =>
    simp only [debugReality, quoted, realityParts, intercalate_cons_cons,
      intercalate_singleton, append_assoc, cons_append, nil_append]

/-- A character that neither the frame nor the options have. -/
theorem notMem_realityParts {o : Option Reality} {d : Char}
    (hd : d ∉ "None" ++ realityStart ++ realityMiddle ++ realityEnd)
    (ho : ∀ r ∈ o, d ∉ r.publicKey ++ r.shortId) : ∀ s ∈ realityParts o, d ∉ s := by
  simp only [mem_append, not_or] at hd
  cases o with
  | none => exact forall_mem_singleton.mpr hd.1.1.1
  | some r =>
    have hclean := ho r rfl
    rw [mem_append, not_or] at hclean
    simp only [realityParts, forall_mem_cons]
    exact ⟨hd.1.1.2, hclean.1, hd.1.2, hclean.2, hd.2, nofun⟩

theorem debugReality_inj {a b : Option Reality}
    (ha : ∀ r ∈ a, '\x22' ∉ r.publicKey ++ r.shortId)
    (hb : ∀ r ∈ b, '\x22' ∉ r.publicKey ++ r.shortId) (h : debugReality a = debugReality b) :
    a = b := by
  have hne : ∀ o, realityParts o ≠ [] := fun o => by cases o <;> exact cons_ne_nil _ _
  rw [debugReality_eq, debugReality_eq] at h
  have hparts := intercalate_inj (notMem_realityParts (by decide) ha)
    (notMem_realityParts (by decide) hb) (hne a) (hne b) h
  cases a with
  | none =>
    cases b with
    | none => rfl
    | some r => exact absurd (congrArg List.length hparts) (by simp [realityParts])
  | some r =>
    cases b with
    | none => exact absurd (congrArg List.length hparts) (by simp [realityParts])
    | some r' =>
      obtain ⟨publicKey, shortId⟩ := r
      obtain ⟨rfl, rfl⟩ := hparts
      rfl

theorem toDigits_inj {m n : Nat} (h : Nat.toDigits 10 m = Nat.toDigits 10 n) : m = n := by
  rw [← Nat.ofDigitChars_toDigits (n := m), h, Nat.ofDigitChars_toDigits]
  all_goals decide

theorem Transport.poolKey_eq (x : Transport) : x.poolKey = bars x.texts := by
  simp [poolKey, identity, bars, texts, intercalate]

/-! ## Keys without bars in the text -/

namespace Outbound

local instance keyText : IpText := .std

/-- A host has a bar only when the server has. -/
theorem bar_notMem_display {server : Str} {port : UInt16} {t : Target}
    (ht : Target.new server port = .ok t) (h : '|' ∉ server) : '|' ∉ t.display := by
  have hhost : '|' ∉ t.host := by
    obtain ⟨-, -, -, -, ⟨ip, -, rfl⟩ | ⟨-, -, rfl⟩⟩ := Target.new_eq_ok_iff.mp ht
    · intro hbar
      have hprinted : Printed (printIp ip) := by
        cases ip with
        | v4 a => exact (printed_printIpv4 a).1
        | v6 a => exact (printed_printIpv6 a).1
      exact absurd (hprinted _ hbar).2 (by decide)
    · exact h
  have hport : '|' ∉ Nat.toDigits 10 t.port.toNat := fun hbar =>
    ne_of_mem_toDigits (by decide) (by decide) hbar (by decide) rfl
  unfold Target.display
  split <;> simp [hhost, hport]

/-- A connection is made with a valid server. -/
theorem connect_eq_ok {p : Outbound} {x : Transport} (h : p.connect = .ok x) :
    ∃ target, Target.new p.server p.port = .ok target ∧ p.transport target.display = x := by
  simp only [connect, ensure_bind_eq_ok_iff] at h
  obtain ⟨-, -, -, -, h⟩ := h
  obtain ⟨target, htarget, hx⟩ := Except.bind_eq_ok_iff.mp h
  exact ⟨target, htarget, Except.ok.inj hx⟩

/-- Validation leaves base64 for URLs and hexadecimal digits. -/
theorem plain (p : Outbound) : ∀ r ∈ p.realityOpts, ∀ c ∈ r.publicKey ++ r.shortId,
    c.isAlphanum = true ∨ c = '-' ∨ c = '_' := by
  intro r hr c hc
  obtain ⟨text, hvalid⟩ := p.admitted r hr
  obtain ⟨key, hkey, hvalid⟩ := Except.bind_eq_ok_iff.mp hvalid
  rw [ensure_bind_eq_ok_iff, ensure_eq_ok_iff] at hvalid
  rcases mem_append.mp hc with hc | hc
  · exact text.decodeBase64_ok _ _ hkey c hc
  · have hhex := all_eq_true.mp hvalid.2.2.2 c hc
    simp only [isHexDigit, Bool.or_eq_true, Bool.and_eq_true, decide_eq_true_eq] at hhex
    refine .inl (Bool.or_eq_true_iff.mpr ?_)
    rcases hhex with (hdigit | hlower) | hupper
    · exact .inr hdigit
    · have hz : c.val ≤ 'z'.val := UInt32.le_trans hlower.2 (by decide)
      have hc := Bool.and_eq_true_iff.mpr ⟨decide_eq_true hlower.1, decide_eq_true hz⟩
      exact .inl (Bool.or_eq_true_iff.mpr (.inr hc))
    · have hz : c.val ≤ 'Z'.val := UInt32.le_trans hupper.2 (by decide)
      exact .inl (Bool.or_eq_true_iff.mpr (.inl (decide_eq_true ⟨hupper.1, hz⟩)))

theorem notMem_reality (p : Outbound) {d : Char}
    (hd : ¬ (d.isAlphanum = true ∨ d = '-' ∨ d = '_')) :
    ∀ r ∈ p.realityOpts, d ∉ r.publicKey ++ r.shortId :=
  fun r hr hmem => hd (p.plain r hr d hmem)

/-- Without bars in the text no value has one. -/
theorem bar_notMem_texts {A : Char → Prop} (hA : ¬ A '|') {p : Outbound} {x : Transport}
    (hp : p.Over A) (hx : p.connect = .ok x) : ∀ s ∈ x.texts, '|' ∉ s := by
  obtain ⟨target, htarget, rfl⟩ := connect_eq_ok hx
  have hfree : ∀ s ∈ p.freeText, '|' ∉ s := fun s hs hbar => hA (hp s hs _ hbar)
  simp only [freeText, forall_mem_append, forall_mem_cons] at hfree
  obtain ⟨⟨⟨hname, hserver, hservice, hagent, -⟩, hservername⟩, hsni⟩ := hfree
  -- the free texts have none, and the printed values use other characters
  have hdisplay := bar_notMem_display htarget hserver
  have hhost : ∀ s, '|' ∉ s → '|' ∉ (p.servername.or p.sni).getD s := by
    intro s hs
    cases hn : p.servername with
    | some n => exact hservername n (by simp [hn])
    | none =>
      cases hi : p.sni with
      | some n => exact hsni n (by simp [hi])
      | none => exact hs
  have hreality : '|' ∉ debugReality p.realityOpts := by
    cases hr : p.realityOpts with
    | none => decide
    | some r =>
      have hclean := p.notMem_reality (d := '|') (by decide) r hr
      rw [mem_append, not_or] at hclean
      simp only [debugReality, quoted, mem_append, mem_cons, not_mem_nil, or_false, not_or]
      exact ⟨by decide, ⟨by decide, hclean.1, by decide⟩, by decide,
        ⟨by decide, hclean.2, by decide⟩, by decide⟩
  have hping : '|' ∉ Nat.toDigits 10 p.grpcOpts.pingInterval.toNat := fun hbar =>
    ne_of_mem_toDigits (by decide) (by decide) hbar (by decide) rfl
  have hbool : ∀ b, '|' ∉ boolText b := by decide
  have halpn : '|' ∉ [','].intercalate ["h2"] := by decide
  have hprofile : '|' ∉ debugFingerprint p.fingerprint := by
    cases p.fingerprint <;> decide
  simp only [Transport.texts, forall_mem_cons]
  exact ⟨hname, hhost _ hserver, hbool _, hprofile, halpn, hreality, hbool _, hdisplay,
    hhost _ hdisplay, hservice, hagent, hping, nofun⟩

/-- **Without bars in the text the values can be read off the key.** -/
theorem eq_of_poolKey {A : Char → Prop} (hA : ¬ A '|') {p q : Outbound} {x y : Transport}
    (hp : p.Over A) (hq : q.Over A) (hx : p.connect = .ok x) (hy : q.connect = .ok y)
    (h : x.poolKey = y.poolKey) : x = y := by
  rw [Transport.poolKey_eq, Transport.poolKey_eq] at h
  have htexts := intercalate_inj (bar_notMem_texts hA hp hx) (bar_notMem_texts hA hq hy)
    (cons_ne_nil _ _) (cons_ne_nil _ _) h
  obtain ⟨_, -, rfl⟩ := connect_eq_ok hx
  obtain ⟨_, -, rfl⟩ := connect_eq_ok hy
  simp only [Transport.texts, List.cons.injEq, and_true] at htexts
  obtain ⟨hname, hserver, hverify, hprofile, -, hreality, hsecure, hend, hauthority, hservice,
    hagent, hping⟩ := htexts
  rw [Transport.mk.injEq]
  exact ⟨hname, hserver, boolText_inj hverify, debugFingerprint_inj hprofile, rfl,
    debugReality_inj (p.notMem_reality (by decide)) (q.notMem_reality (by decide)) hreality,
    boolText_inj hsecure, hend, hauthority, hservice, hagent,
    UInt64.toNat_inj.mp (toDigits_inj hping)⟩

/-- A proxy whose name and server are bars. -/
def barred (service agent : Str) : Outbound where
  name := ['|']
  kind := .vless
  server := ['|']
  port := 1
  uuid := some (.replicate 16 0)
  network := "grpc"
  grpcOpts := { grpcServiceName := service, grpcUserAgent := agent }

/-- **Keys tell connections apart exactly when the text of the configuration has no bars.** For
every alphabet of the names, servers, server names, services and agents: any two proxies over it
whose connections differ in one of the twelve values have different keys, if and only if the
alphabet lacks the bar. -/
theorem poolKeys_separate_iff (A : Char → Prop) :
    (∀ (p q : Outbound) (x y : Transport), p.Over A → q.Over A → p.connect = .ok x →
      q.connect = .ok y → x ≠ y → x.poolKey ≠ y.poolKey) ↔ ¬ A '|' := by
  constructor
  · -- the bar between service and agent may belong to either
    intro hseparate hbar
    have hleft : (barred ['|'] []).Over A := by simp [Over, freeText, barred, hbar]
    have hright : (barred [] ['|']).Over A := by simp [Over, freeText, barred, hbar]
    refine hseparate _ _ _ _ hleft hright rfl rfl (fun heq => ?_) (by decide)
    exact absurd (congrArg Transport.serviceName heq) (by decide)
  · exact fun hA p q x y hp hq hx hy hne hkey => hne (eq_of_poolKey hA hp hq hx hy hkey)

/-- A proxy that asks for verification. -/
def verifying : Outbound where
  name := "a|b|false|Chrome|h2|None|true|e:1|b|s"
  kind := .vless
  server := "e"
  port := 1
  uuid := some (.replicate 16 0)
  tls := true
  network := "grpc"
  grpcOpts := { grpcServiceName := "t", grpcUserAgent := "u" }
  servername := some "c"

/-- One that does not. -/
def trusting : Outbound where
  name := "a"
  kind := .vless
  server := "e"
  port := 1
  uuid := some (.replicate 16 0)
  tls := true
  network := "grpc"
  grpcOpts :=
    { grpcServiceName := "s"
      grpcUserAgent := "c|true|Chrome|h2|None|true|e:1|c|t|u" }
  servername := some "b"
  skipCertVerify := true

/-- The two are admitted and have one key, so that a connection without verification serves the
proxy that asks for it. -/
theorem verifying_shares_key :
    (∀ p ∈ [verifying, trusting], @validateProxy .none false 0 p.toProxy = .ok ()) ∧
    ∃ x y, verifying.connect = .ok x ∧ trusting.connect = .ok y ∧
      x.verifyCert = true ∧ y.verifyCert = false ∧ x.poolKey = y.poolKey := by
  refine ⟨?_, _, _, rfl, rfl, rfl, rfl, by decide +kernel⟩
  rw [forall_mem_cons, forall_mem_singleton]
  exact ⟨rfl, rfl⟩

end Outbound

end Grpc

end ClashMeta
