import ClashMeta.Core.SniffTarget
import ClashMeta.Core.Traffic

/-!
# What is counted of an upload

The three ways of a TCP connection from its client to a relay: `socks_connection` for CONNECT
(core/src/inbound.rs:140-158), `http_connection` for CONNECT (inbound.rs:278-304, 330) and
`tcp_session` (packet.rs:280-290), and `relay_io` (lib.rs:892-921) with the tracked stream
(traffic.rs:105-141). The client, the dialled streams and the limits on the relay are inputs.
Of `copy_bidirectional` the half from the client is here; the other one counts downloads.

With sniffing the bytes that were read are written to the dialled stream before it is tracked.
-/

namespace ClashMeta.Upload

open List Except UInt64

open Sniff Traffic

/-- `write_all`. -/
def writeAll (out : Sink String Byte) (bytes : List Byte) : Except String (Sink String Byte) :=
  out.putAll "failed to write whole buffer" bytes

/-- `traffic::Stream` over a dialled stream, with the counters of its connection and of the
core. -/
structure Tracked where
  out : Sink String Byte
  own : Counters
  totals : Counters

namespace Tracked

/-- `Tracker::record`, when the transfer calls it. -/
def record (t : Tracked) (x : Transfer) : Tracked :=
  match x.recorded with
  | none => t
  | some (upload, n) =>
    if n = 0 then t
    else { t with own := t.own.fetchAdd upload n, totals := t.totals.fetchAdd upload n }

/-- `poll_write`. -/
def write (t : Tracked) (bytes : List Byte) : Poll String Nat × Tracked :=
  let (result, out) := t.out.write bytes
  (result, { t with out := out }.record (.write result))

end Tracked

/-- How a relay ends without an error: the client has closed its side and everything is
written, or the connection was closed or idle for too long. -/
inductive Finish where
  | eof
  | stopped
  deriving DecidableEq

/-- The half of `copy_bidirectional` from the client, as tokio documents it: through a buffer of 8
KiB until the end, and an error of either side ends it at once. The list is what is read and not yet
written; the copy is stopped after so many polls. -/
def copy : Nat → Source String Byte → List Byte → Tracked → Except String (Finish × Tracked)
  | 0, _, _, t => .ok (.stopped, t)
  | turns + 1, stream, [], t =>
    match stream.poll 8192 with
    | (.pending, stream) => copy turns stream [] t
    | (.failed e, _) => .error e
    | (.ready [], _) => .ok (.eof, t)
    | (.ready (b :: bytes), stream) => copy turns stream (b :: bytes) t
  | turns + 1, stream, b :: bytes, t =>
    match t.write (b :: bytes) with
    | (.pending, t) => copy turns stream (b :: bytes) t
    | (.failed e, _) => .error e
    | (.ready n, t) =>
      if n = 0 then .error "write zero byte into writer"
      else copy turns stream ((b :: bytes).drop n) t

/-- A connection behind its handshake, and what it meets. -/
structure Connection where
  sniffer : Sniffer
  fakes : FakeMap
  target : Target
  /-- What the client sends. -/
  client : Source String Byte
  /-- The stream back to the client. -/
  back : Sink String Byte
  /-- How often the client is polled before sniffing gives up. -/
  polls : Nat
  /-- `dial_sniffed`, with how the dialled stream takes what is written. -/
  dialSniffed : Target → Target → Except String (List (Room String))
  /-- `dial_logged`. -/
  dialLogged : Target → Except String (List (Room String))
  /-- `Tracker::new` can refuse. -/
  admitted : Except String Unit
  /-- `Core::upload` and `Core::download`. -/
  totals : Counters
  /-- How many polls the relay makes before it is stopped. -/
  turns : Nat

/-- `relay_io`: a tracked copy, if the connection is admitted. -/
def relayIo (c : Connection) (stream : Source String Byte) (out : Sink String Byte) :
    Except String (Finish × Tracked) := do
  c.admitted
  copy c.turns stream [] ⟨out, .zero, c.totals⟩

section

variable [HttpText] [IpText] [RuleText]

/-- The part of the three functions behind the handshake, with their replies to the client. -/
def session (established refusal : List Byte) (c : Connection) :
    Except String (Finish × Tracked) :=
  if shouldSniff c.sniffer (restoreTarget c.fakes c.target) then do
    -- The client is told that all is well before anything is dialled, so that it sends.
    let _ ← writeAll c.back established
    let sniffed := sniffTarget c.sniffer c.fakes c.target c.polls c.client
    let plan ← c.dialSniffed sniffed.route sniffed.destination
    -- These bytes go to the bare stream; `relayIo` tracks it only from here on.
    let out ← writeAll ⟨[], plan, false⟩ sniffed.head
    relayIo c sniffed.stream out
  else
    match c.dialLogged c.target with
    | .ok plan => do
      let _ ← writeAll c.back established
      relayIo c c.client ⟨[], plan, false⟩
    | .error e => do
      let _ ← writeAll c.back refusal
      .error e

/-- `socks_connection`, with its two replies. -/
def socksConnection : Connection → Except String (Finish × Tracked) :=
  session [5, 0, 0, 1, 0, 0, 0, 0, 0, 0] [5, 5, 0, 1, 0, 0, 0, 0, 0, 0]

/-- `http_connection` for CONNECT, with its two replies. -/
def httpConnection : Connection → Except String (Finish × Tracked) :=
  session (utf8Bytes "HTTP/1.1 200 Connection Established\r\n\r\n")
    (utf8Bytes
      "HTTP/1.1 502 Bad Gateway\r\nContent-Length: 0\r\nConnection: close\r\n\r\n")

/-- A stream of the TUN device has no replies. -/
def tcpSession : Connection → Except String (Finish × Tracked) := session [] []

/-- How a connection is accepted. -/
inductive Entry where
  | socks
  | connect
  | tun
  deriving DecidableEq

/-- The function behind each way. -/
def Entry.run : Entry → Connection → Except String (Finish × Tracked)
  | .socks => socksConnection
  | .connect => httpConnection
  | .tun => tcpSession

end

/-! ## What is written and what is counted -/

/-- The counters have grown by so many bytes of upload. -/
def Grown (t t' : Tracked) (n : Nat) : Prop :=
  t'.own.upload = t.own.upload + UInt64.ofNat n ∧
    t'.totals.upload = t.totals.upload + UInt64.ofNat n

theorem Grown.refl (t : Tracked) : Grown t t 0 :=
  ⟨(add_zero _).symm, (add_zero _).symm⟩

variable {m n : Nat} {t : Tracked}

theorem Grown.trans {u v : Tracked} (h : Grown t u m) (h' : Grown u v n) : Grown t v (m + n) := by
  constructor
  · rw [h'.1, h.1, ofNat_add, add_assoc]
  · rw [h'.2, h.2, ofNat_add, add_assoc]

theorem Tracked.write_cases (t : Tracked) (bytes : List Byte) :
    (∃ n, (t.write bytes).1 = .ready n ∧ n ≤ bytes.length ∧
        (t.write bytes).2.out.accepted = t.out.accepted ++ bytes.take n ∧
        Grown t (t.write bytes).2 n) ∨
      ((∀ n, (t.write bytes).1 ≠ .ready n) ∧
        (t.write bytes).2.out.accepted = t.out.accepted ∧ Grown t (t.write bytes).2 0) := by
  have hwrite := t.out.write_cases bytes
  unfold Tracked.write
  generalize t.out.write bytes = r at hwrite
  obtain ⟨r, out⟩ := r
  obtain ⟨n, hn, hle, -, haccepted⟩ | ⟨hnot, haccepted⟩ := hwrite
  · cases hn
    refine .inl ⟨n, rfl, hle, ?_, ?_⟩
    · unfold Tracked.record
      dsimp only [Transfer.recorded]
      split <;> exact haccepted
    · unfold Tracked.record
      dsimp only [Transfer.recorded]
      split
      · rename_i hzero
        subst hzero
        exact Grown.refl _
      · exact ⟨rfl, rfl⟩
  · cases r with
    | ready n => exact absurd rfl (hnot n)
    | pending | failed e => exact .inr ⟨hnot, haccepted, Grown.refl _⟩

variable {f : Finish} {stream : Source String Byte}

/-- The relay counts the bytes that it writes, and at the end of the client these are all that
were left. -/
theorem copy_spec {turns : Nat} {buffer : List Byte} {t' : Tracked}
    (h : copy turns stream buffer t = .ok (f, t')) :
    ∃ moved, t'.out.accepted = t.out.accepted ++ moved ∧ Grown t t' moved.length ∧
      (f = .eof → moved = buffer ++ stream.bytes) := by
  -- by the turns of the loop, which reads when its buffer is empty and else writes
  induction turns generalizing stream buffer t with
  | zero =>
    cases h
    exact ⟨[], (append_nil _).symm, Grown.refl _, fun hf => by cases hf⟩
  | succ turns ih =>
    cases buffer with
    | nil =>
      have hpoll := stream.poll_step (show 0 < 8192 by decide)
      rw [copy] at h
      generalize stream.poll 8192 = r at hpoll h
      obtain ⟨r, next⟩ := r
      cases hpoll with
      | pending es hevents =>
        obtain ⟨moved, haccepted, hgrown, hall⟩ := ih h
        refine ⟨moved, haccepted, hgrown, fun hf => (hall hf).trans ?_⟩
        simp [Source.bytes, hevents]
      | silent hevents htail => exact ih h
      | eof hevents htail =>
        cases h
        have hnil : next.events = [] := hevents
        exact ⟨[], (append_nil _).symm, Grown.refl _, fun _ => by simp [Source.bytes, hnil]⟩
      | broken e hevents htail => cases h
      | data c _ hne hle hbytes htail hsize =>
        obtain ⟨b, bytes, rfl⟩ := exists_cons_of_ne_nil hne
        obtain ⟨moved, haccepted, hgrown, hall⟩ := ih h
        exact ⟨moved, haccepted, hgrown, fun hf => (hall hf).trans hbytes.symm⟩
    | cons b bytes =>
      have hwrite := t.write_cases (b :: bytes)
      rw [copy] at h
      generalize t.write (b :: bytes) = r at hwrite h
      obtain ⟨r, next⟩ := r
      cases r with
      | failed e => cases h
      | pending =>
        obtain ⟨n, hn, -⟩ | ⟨-, haccepted, hgrown⟩ := hwrite
        · cases hn
        · obtain ⟨moved, hmoved, hmore, hall⟩ := ih h
          refine ⟨moved, hmoved.trans (by rw [haccepted]), ?_, hall⟩
          simpa using hgrown.trans hmore
      | ready n =>
        obtain ⟨n', hn, hle, haccepted, hgrown⟩ | ⟨hnot, -⟩ := hwrite
        · cases hn
          dsimp only at h haccepted hgrown
          split at h
          · cases h
          · obtain ⟨moved, hmoved, hmore, hall⟩ := ih h
            -- what was not accepted stays in the buffer for the next turn
            refine ⟨(b :: bytes).take n ++ moved, ?_, ?_, fun hf => ?_⟩
            · rw [hmoved, haccepted, append_assoc]
            · rw [length_append, length_take_of_le hle]
              exact hgrown.trans hmore
            · rw [hall hf, ← append_assoc, take_append_drop]
        · exact absurd rfl (hnot n)

theorem relayIo_spec {c : Connection} {out : Sink String Byte}
    (h : relayIo c stream out = .ok (f, t)) :
    ∃ moved, t.out.accepted = out.accepted ++ moved ∧
      t.own.upload = UInt64.ofNat moved.length ∧
      t.totals.upload = c.totals.upload + UInt64.ofNat moved.length ∧
      (f = .eof → moved = stream.bytes) := by
  obtain ⟨-, -, hcopy⟩ := bind_eq_ok_iff.mp h
  obtain ⟨moved, haccepted, hgrown, hall⟩ := copy_spec hcopy
  exact ⟨moved, haccepted, hgrown.1.trans (UInt64.zero_add _), hgrown.2, hall⟩

/-! ## What has been counted at the end -/

theorem ofNat_add_eq_iff (h : m < 36864) : UInt64.ofNat n = UInt64.ofNat (m + n) ↔ m = 0 := by
  rw [← UInt64.toNat_inj, UInt64.toNat_ofNat', UInt64.toNat_ofNat']
  omega

section

variable [HttpText] [IpText] [RuleText]

/-- A relay that has ended without an error has written what was sniffed and then some of the
rest of the client, and has counted the latter. -/
theorem Entry.run_spec {entry : Entry} {c : Connection} {f : Finish} {t : Tracked}
    (h : entry.run c = .ok (f, t)) :
    ∃ moved, t.out.accepted =
        (sniffTarget c.sniffer c.fakes c.target c.polls c.client).head ++ moved ∧
      t.own.upload = UInt64.ofNat moved.length ∧
      t.totals.upload = c.totals.upload + UInt64.ofNat moved.length ∧
      (f = .eof → t.out.accepted = c.client.bytes) := by
  obtain ⟨established, refusal, h⟩ : ∃ established refusal,
      session established refusal c = .ok (f, t) := by
    cases entry with
    | socks | connect | tun => exact ⟨_, _, h⟩
  unfold session at h
  split at h
  · obtain ⟨-, -, h⟩ := bind_eq_ok_iff.mp h
    obtain ⟨plan, -, h⟩ := bind_eq_ok_iff.mp h
    obtain ⟨out, hout, hrelay⟩ := bind_eq_ok_iff.mp h
    obtain ⟨moved, haccepted, hown, htotals, hall⟩ := relayIo_spec hrelay
    rw [Sink.putAllFor_accepted hout] at haccepted
    refine ⟨moved, haccepted, hown, htotals, fun hf => ?_⟩
    rw [haccepted, hall hf]
    exact sniffTarget_spec.1
  · rename_i hnot
    split at h
    · obtain ⟨-, -, hrelay⟩ := bind_eq_ok_iff.mp h
      obtain ⟨moved, haccepted, hown, htotals, hall⟩ := relayIo_spec hrelay
      rw [(sniffTarget_of_not (Bool.eq_false_iff.mpr hnot)).1]
      exact ⟨moved, haccepted, hown, htotals, fun hf => haccepted.trans (hall hf)⟩
    · obtain ⟨-, -, h⟩ := bind_eq_ok_iff.mp h
      cases h

/-- The same connection with sniffing disabled. -/
def Connection.unsniffed (c : Connection) : Connection :=
  { c with sniffer := { c.sniffer with enable := false } }

/-- For every connection and every relay that ends without an error: the upload counter of the
connection, and what it has added to the core's, are the bytes of the client that were written
to the outbound stream, as many as without sniffing, exactly when the target is not sniffed or
the client sends nothing before sniffing gives up. -/
theorem upload_exact_iff (entry : Entry) (c : Connection) {f : Finish} {t : Tracked}
    (h : entry.run c = .ok (f, t)) :
    (t.own.upload = UInt64.ofNat t.out.accepted.length ∧
      t.totals.upload = c.totals.upload + UInt64.ofNat t.out.accepted.length ∧
      ∀ f' t', entry.run c.unsniffed = .ok (f', t') → f = .eof → f' = .eof →
        t.own.upload = t'.own.upload) ↔
    (shouldSniff c.sniffer (restoreTarget c.fakes c.target) = false ∨
      quiet c.polls c.client.events = true) := by
  obtain ⟨moved, haccepted, hown, htotals, hall⟩ := Entry.run_spec h
  have hlength := congrArg List.length haccepted
  rw [length_append] at hlength
  have hshort : (sniffTarget c.sniffer c.fakes c.target c.polls c.client).head.length < 36864 :=
    sniffTarget_spec.2.2
  rw [← sniffTarget_head_eq_nil_iff]
  constructor
  · rintro ⟨hcount, -⟩
    rw [hown, hlength, ofNat_add_eq_iff hshort] at hcount
    exact length_eq_zero_iff.mp hcount
  · intro hnil
    rw [hnil, length_nil, zero_add] at hlength
    rw [hlength]
    refine ⟨hown, htotals, fun f' t' h' hf hf' => ?_⟩
    have hdisabled : shouldSniff c.unsniffed.sniffer
        (restoreTarget c.unsniffed.fakes c.unsniffed.target) = false := rfl
    obtain ⟨moved', haccepted', hown', -, hall'⟩ := Entry.run_spec h'
    rw [(sniffTarget_of_not hdisabled).1, nil_append] at haccepted'
    rw [hown, hown', ← hlength, ← haccepted', hall hf, hall' hf']
    rfl

end

section

local instance sniffedText : IpText := .std
local instance sniffedRules : RuleText := .none
local instance sniffedHttp : HttpText := ⟨fun _ => none⟩

/-- A client that sends three bytes to an address, with TLS sniffed on its port. -/
def sniffedConnection : Connection where
  sniffer := ⟨true, [("TLS", ⟨[.number 443], false⟩)], [], []⟩
  fakes := .new
  target := ⟨"192.0.2.1", 443⟩
  client := ⟨[.data 22 [3, 1]], .eof⟩
  back := ⟨[], [], false⟩
  polls := 2
  dialSniffed := fun _ _ => .ok []
  dialLogged := fun _ => .ok []
  admitted := .ok ()
  totals := .zero
  turns := 4

/-- What was written, and the two counters. -/
def account (r : Finish × Tracked) : Finish × List Byte × UInt64 × UInt64 :=
  (r.1, r.2.out.accepted, r.2.own.upload, r.2.totals.upload)

/-- Its three bytes are written, and none is counted; without sniffing all three are. -/
theorem sniffed_bytes_uncounted :
    (Entry.socks.run sniffedConnection).map account = .ok (.eof, [22, 3, 1], 0, 0) ∧
    (Entry.connect.run sniffedConnection).map account = .ok (.eof, [22, 3, 1], 0, 0) ∧
    (Entry.tun.run sniffedConnection).map account = .ok (.eof, [22, 3, 1], 0, 0) ∧
    (Entry.socks.run sniffedConnection.unsniffed).map account =
      .ok (.eof, [22, 3, 1], 3, 3) :=
  ⟨rfl, rfl, rfl, rfl⟩

/-- The same client, with its bytes only when sniffing has given up. -/
def lateConnection : Connection :=
  { sniffedConnection with client := ⟨[.pending, .pending, .data 22 [3, 1]], .eof⟩ }

theorem upload_exact_iff_late : ∃ t, Entry.tun.run lateConnection = .ok (.eof, t) ∧
    t.out.accepted = [22, 3, 1] ∧ t.own.upload = UInt64.ofNat t.out.accepted.length :=
  ⟨_, rfl, rfl, ((upload_exact_iff .tun lateConnection rfl).mpr (.inr rfl)).1⟩

end

end ClashMeta.Upload
