import ClashMeta.Lib.Turns
import ClashMeta.Protocol.WebSocket.Stream

/-!
# The two ways to read an upgrade response

With `v2ray-http-upgrade-fast-open` the response is read by the first `poll_read`
(websocket.rs:275-299), otherwise by `read_upgrade` before the stream is handed out
(websocket.rs:106-112, 142-158). Both read at most 2048 bytes at a time and look for the end
of the header with `parse_upgrade`; only `read_upgrade` has a limit on how much it reads.
-/

namespace ClashMeta.WebSocket

open List Option WsStream

/-- `MAX_HEADERS`. -/
def maxHeaders : Nat := 32 * 1024

/-- How `read_upgrade` fails: with an `io::Error`, or with a message. -/
inductive UpgradeError where
  | io (e : IoError)
  | message (m : String)
  deriving DecidableEq, Repr

namespace WsStream

/-- One turn of the loop of `read_upgrade` (websocket.rs:143-155). -/
def eagerTurn (ws : WsStream) : Turn UpgradeError Unit WsStream :=
  if ws.upgraded then .stop (.ready ()) ws
  else if ¬ ws.incoming.length < maxHeaders then
    .stop (.failed (.message "WebSocket response headers too large")) ws
  else
    match ws.readInner 2048 with
    | (.pending, ws) => .stop .pending ws
    | (.failed e, ws) => .stop (.failed (.io e)) ws
    | (.ready [], ws) => .stop (.failed (.message "WebSocket server closed during upgrade")) ws
    | (.ready (b :: bs), ws) =>
      let ws := { ws with incoming := ws.incoming ++ b :: bs }
      match ws.parseUpgrade with
      | .error m => .stop (.failed (.message m)) ws
      | .ok (_, ws) => .again ws

/-- One turn of `poll_read` until the upgrade is done (websocket.rs:275-290). -/
def lazyTurn (ws : WsStream) : Turn Fault Unit WsStream :=
  if ws.upgraded then .stop (.ready ()) ws
  else
    match ws.parseUpgrade with
    | .error m => .stop (.failed (.io (.other m))) ws
    | .ok (true, ws) => .stop (.ready ()) ws
    | .ok (false, ws) =>
      match ws.readInner 2048 with
      | (.pending, ws) => .stop .pending ws
      | (.failed e, ws) => .stop (.failed (.io e)) ws
      | (.ready [], ws) => .stop (.failed (.io .unexpectedEof)) ws
      | (.ready (b :: bs), ws) => .again { ws with incoming := ws.incoming ++ b :: bs }

/-- What there is still to read from the peer. -/
def unpolled (ws : WsStream) : Nat := ws.inner.source.size

/-- `WsStream::read_upgrade`, one poll. -/
def readUpgrade : WsStream → Poll UpgradeError Unit × WsStream := Turn.poll eagerTurn unpolled

/-- The upgrade within `poll_read`, one poll. -/
def lazyUpgrade : WsStream → Poll Fault Unit × WsStream := Turn.poll lazyTurn unpolled

/-- `poll_read` polls the lazy upgrade first, and goes on behind it. -/
theorem pollUpgrade_eq (fuel : Nat) (ws : WsStream) (n : Nat) :
    pollUpgrade fuel ws n =
      match Turn.rounds lazyTurn fuel ws with
      | (.ready (), w) => w.pollUpgraded n
      | (.pending, w) => (.pending, w)
      | (.failed e, w) => (.failed e, w) := by
  induction fuel generalizing ws with
  | zero => rfl
  | succ fuel ih =>
    rw [pollUpgrade, Turn.rounds, lazyTurn]
    by_cases hup : ws.upgraded = true
    · rw [if_pos hup, if_pos hup]
    rw [if_neg hup, if_neg hup]
    cases ws.parseUpgrade with
    | error m => rfl
    | ok r =>
      obtain ⟨found, w⟩ := r
      cases found with
      | true => rfl
      | false =>
        dsimp only
        generalize w.readInner 2048 = read
        obtain ⟨read, w'⟩ := read
        cases read with
        | pending | failed e => rfl
        | ready bytes =>
          cases bytes with
          | nil => rfl
          | cons b bs => exact ih _

/-- **`poll_read` is the lazy upgrade, then the read of the upgraded stream.** -/
theorem pollRead_eq (ws : WsStream) (n : Nat) :
    ws.pollRead n =
      match ws.lazyUpgrade with
      | (.ready (), w) => w.pollUpgraded n
      | (.pending, w) => (.pending, w)
      | (.failed e, w) => (.failed e, w) :=
  pollUpgrade_eq _ ws n

end WsStream

open WsStream

/-! ## The header -/

/-- The end of a header that is there stays where it is. -/
theorem headerEnd_append {bytes : List Byte} (more : List Byte) {stop : Nat}
    (h : headerEnd bytes = some stop) :
    stop + 4 ≤ bytes.length ∧ headerEnd (bytes ++ more) = some stop := by
  induction bytes generalizing stop with
  | nil => cases h
  | cons b bs ih =>
    rw [headerEnd] at h
    by_cases hhere : (b :: bs).take 4 = [13, 10, 13, 10]
    · rw [if_pos hhere] at h
      cases h
      have hlen : 4 ≤ (b :: bs).length := by
        have hle := congrArg List.length hhere
        rw [length_take] at hle
        simp only [length_cons, length_nil] at hle ⊢
        omega
      refine ⟨by omega, ?_⟩
      rw [cons_append, headerEnd, if_pos]
      rw [← cons_append, take_append_of_le_length hlen]
      exact hhere
    · rw [if_neg hhere] at h
      obtain ⟨stop', hstop, rfl⟩ := map_eq_some_iff.mp h
      obtain ⟨hle, happend⟩ := ih hstop
      refine ⟨by rw [length_cons]; omega, ?_⟩
      rw [cons_append, headerEnd, if_neg, happend]
      · rfl
      · rw [← cons_append, take_append_of_le_length (by rw [length_cons]; omega)]
        exact hhere

/-- What `parse_upgrade` has against a header, if anything. -/
def refusal (expected : Option Str) (head : List Byte) : Option String :=
  match fromUtf8 head with
  | none => some "invalid utf-8 sequence"
  | some head =>
    let lines := splitLines head
    let status := lines.headD []
    if statusCode status ≠ some "101".toList then
      some ("WebSocket upgrade rejected: " ++ String.ofList status)
    else if expected.isSome ∧ acceptValue lines.tail ≠ expected then
      some "invalid WebSocket accept key"
    else none

/-- The stream behind a header that ends at `stop`. -/
def WsStream.pass (ws : WsStream) (stop : Nat) : WsStream :=
  { ws with incoming := ws.incoming.drop (stop + 4), upgraded := true }

/-- What `parse_upgrade` says about the bytes that are there. -/
inductive Judged (ws : WsStream) : Except String (Bool × WsStream) → Prop
  | unfinished (h : headerEnd ws.incoming = none) : Judged ws (.ok (false, ws))
  | refused {stop : Nat} {m : String} (h : headerEnd ws.incoming = some stop)
      (hrefusal : refusal ws.expectedAccept (ws.incoming.take (stop + 4)) = some m) :
      Judged ws (.error m)
  | accepted {stop : Nat} (h : headerEnd ws.incoming = some stop)
      (hrefusal : refusal ws.expectedAccept (ws.incoming.take (stop + 4)) = none) :
      Judged ws (.ok (true, ws.pass stop))

/-- These are the cases of `parse_upgrade`. -/
theorem judged_parseUpgrade (ws : WsStream) : Judged ws ws.parseUpgrade := by
  rw [parseUpgrade]
  cases hend : headerEnd ws.incoming with
  | none => exact .unfinished hend
  | some stop =>
    dsimp only
    cases hutf : fromUtf8 (ws.incoming.take (stop + 4)) with
    | none => exact .refused hend (by rw [refusal, hutf])
    | some head =>
      dsimp only
      split
      · rename_i hstatus
        exact .refused hend (by rw [refusal, hutf]; exact if_pos hstatus)
      · rename_i hstatus
        split
        · rename_i haccept
          exact .refused hend (by rw [refusal, hutf]; exact (if_neg hstatus).trans (if_pos haccept))
        · rename_i haccept
          exact .accepted hend
            (by rw [refusal, hutf]; exact (if_neg hstatus).trans (if_neg haccept))

/-- The stream is not upgraded, and the header has not ended. -/
structure Awaiting (ws : WsStream) : Prop where
  notUpgraded : ws.upgraded = false
  unfinished : headerEnd ws.incoming = none

variable {ws : WsStream}

/-- `parse_upgrade` waits for the end of the header. -/
theorem parseUpgrade_awaiting (h : Awaiting ws) : ws.parseUpgrade = .ok (false, ws) := by
  rw [parseUpgrade, h.unfinished]

/-- The bytes have come from the source. -/
def WsStream.gain (ws : WsStream) (source : Source IoError Byte) (bytes : List Byte) : WsStream :=
  { ws with inner := { ws.inner with source := source }, incoming := ws.incoming ++ bytes }

/-- What a read finds behind the last chunk. -/
def lastAnswer : Tail IoError → Poll IoError (List Byte)
  | .eof => .ready []
  | .silent => .pending
  | .broken e => .failed e

/-! ## One turn -/

section

variable {ws : WsStream} {es : List (Event Byte)} {tail : Tail IoError} {b : Byte}
  {bs : List Byte}

/-- A read that is not ready brings nothing. -/
theorem readInner_waits (h : ws.inner.source = ⟨.pending :: es, tail⟩) :
    ws.readInner 2048 = (.pending, ws.gain ⟨es, tail⟩ []) := by
  rw [readInner_moves (s := ⟨es, tail⟩) (by rw [h]; rfl), gain, append_nil]

/-- A read brings a chunk that fits. -/
theorem readInner_gains (h : ws.inner.source = ⟨.data b bs :: es, tail⟩)
    (hfits : (b :: bs).length ≤ 2048) :
    ∃ w, ws.readInner 2048 = (.ready (b :: bs), w) ∧
      { w with incoming := w.incoming ++ b :: bs } = ws.gain ⟨es, tail⟩ (b :: bs) :=
  ⟨_, readInner_moves (by rw [h]; exact Source.poll_data hfits), rfl⟩

/-- A read behind the last chunk changes nothing. -/
theorem readInner_end (h : ws.inner.source = ⟨[], tail⟩) :
    ws.readInner 2048 = (lastAnswer tail, ws) :=
  readInner_stays (by rw [h]; cases tail <;> rfl)

section

variable (h : Awaiting ws)

include h

/-- Below the limit a turn of `read_upgrade` reads, and looks at what it has. -/
theorem eagerTurn_reads (hlimit : ws.incoming.length < maxHeaders) :
    ws.eagerTurn =
      match ws.readInner 2048 with
      | (.pending, w) => .stop .pending w
      | (.failed e, w) => .stop (.failed (.io e)) w
      | (.ready [], w) =>
        .stop (.failed (.message "WebSocket server closed during upgrade")) w
      | (.ready (b :: bs), w) =>
        match parseUpgrade { w with incoming := w.incoming ++ b :: bs } with
        | .error m => .stop (.failed (.message m)) { w with incoming := w.incoming ++ b :: bs }
        | .ok (_, w) => .again w := by
  rw [eagerTurn, if_neg (by simp [h.notUpgraded]), if_neg (by simpa using hlimit)]

/-- At the limit it refuses. -/
theorem eagerTurn_limit (hlimit : maxHeaders ≤ ws.incoming.length) :
    ws.eagerTurn =
      .stop (.failed (.message "WebSocket response headers too large")) ws := by
  rw [eagerTurn, if_neg (by simp [h.notUpgraded]), if_pos (by simpa using hlimit)]

/-- A turn of `poll_read` reads whatever the size. -/
theorem lazyTurn_reads : ws.lazyTurn =
      match ws.readInner 2048 with
      | (.pending, w) => .stop .pending w
      | (.failed e, w) => .stop (.failed (.io e)) w
      | (.ready [], w) => .stop (.failed (.io .unexpectedEof)) w
      | (.ready (b :: bs), w) => .again { w with incoming := w.incoming ++ b :: bs } := by
  rw [lazyTurn, if_neg (by simp [h.notUpgraded]), parseUpgrade_awaiting h]

end

/-- Once upgraded, `read_upgrade` is done. -/
theorem eagerTurn_upgraded (h : ws.upgraded) : ws.eagerTurn = .stop (.ready ()) ws := by
  rw [eagerTurn, if_pos h]

/-- A header that has ended is refused, or passed with what stands behind it. -/
theorem lazyTurn_judges (ws : WsStream) (h : ws.upgraded = false) {stop : Nat}
    (hend : headerEnd ws.incoming = some stop) :
    (∃ m, ws.parseUpgrade = .error m ∧ ws.lazyTurn = .stop (.failed (.io (.other m))) ws ∧
        refusal ws.expectedAccept (ws.incoming.take (stop + 4)) = some m) ∨
      (ws.parseUpgrade = .ok (true, ws.pass stop) ∧
        ws.lazyTurn = .stop (.ready ()) (ws.pass stop) ∧
        refusal ws.expectedAccept (ws.incoming.take (stop + 4)) = none) := by
  have hjudged := judged_parseUpgrade ws
  rw [lazyTurn, if_neg (by simp [h])]
  generalize ws.parseUpgrade = r at hjudged ⊢
  cases hjudged with
  | unfinished hnone =>
    rw [hend] at hnone
    cases hnone
  | @refused stop' m hstop hrefusal =>
    cases hend.symm.trans hstop
    exact .inl ⟨m, rfl, rfl, hrefusal⟩
  | accepted hstop hrefusal =>
    cases hend.symm.trans hstop
    exact .inr ⟨rfl, rfl, hrefusal⟩

end

/-- A read that brings something leaves less to poll. -/
theorem unpolled_of_ready {w : WsStream} {b : Byte} {bs : List Byte}
    (h : ws.readInner 2048 = (.ready (b :: bs), w)) : w.unpolled < ws.unpolled := by
  have hstep := ws.inner.source.poll_step (show 0 < 2048 by decide)
  obtain ⟨hfirst, rfl⟩ := Prod.mk.inj h
  rw [hfirst] at hstep
  cases hstep with
  | data _ _ _ _ _ _ hsize =>
    rw [length_cons] at hsize
    show (ws.inner.source.poll 2048).2.size < ws.inner.source.size
    omega

/-- The turns of `poll_read` come to an end. -/
theorem shrinks_lazy : Turn.Shrinks lazyTurn unpolled := by
  intro ws t h
  rw [lazyTurn] at h
  split at h
  · cases h
  have hjudged := judged_parseUpgrade ws
  generalize ws.parseUpgrade = r at hjudged h
  cases hjudged with
  | refused _ _ | accepted _ _ => cases h
  | unfinished _ =>
    dsimp only at h
    split at h
    · cases h
    · cases h
    · cases h
    · rename_i b bs w hread
      cases h
      exact (unpolled_of_ready hread : w.unpolled < ws.unpolled)

/-- Parsing polls nothing. -/
theorem unpolled_of_parseUpgrade {w : WsStream} {found : Bool}
    (h : ws.parseUpgrade = .ok (found, w)) : w.unpolled = ws.unpolled := by
  have hjudged := judged_parseUpgrade ws
  rw [h] at hjudged
  cases hjudged with
  | unfinished _ | accepted _ _ => rfl

/-- The turns of `read_upgrade` come to an end. -/
theorem shrinks_eager : Turn.Shrinks eagerTurn unpolled := by
  intro ws t h
  rw [eagerTurn] at h
  split at h
  · cases h
  split at h
  · cases h
  split at h
  · cases h
  · cases h
  · cases h
  · rename_i b bs w hread
    dsimp only at h
    split at h
    · cases h
    · rename_i found v hparse
      cases h
      rw [unpolled_of_parseUpgrade hparse]
      exact (unpolled_of_ready hread : w.unpolled < ws.unpolled)

/-! ## Whole upgrades -/

/-- The reads bring at most 2048 bytes each. -/
def Fits (events : List (Event Byte)) : Prop := ∀ e ∈ events, e.bytes.length ≤ 2048

/-- What some reads bring. -/
def received (events : List (Event Byte)) : List Byte := events.flatMap Event.bytes

/-- After some of the reads the limit is reached, and the header has not ended. -/
def Overdue (ws : WsStream) : Prop :=
  ∃ pre, pre <+: ws.inner.source.events ∧
    maxHeaders ≤ (ws.incoming ++ received pre).length ∧
    headerEnd (ws.incoming ++ received pre) = none

/-- All that the server sends. -/
def WsStream.response (ws : WsStream) : List Byte := ws.incoming ++ ws.inner.source.bytes

/-- The response is refused in the end: its header is, or the stream ends or fails before the
header does. -/
def Refused (ws : WsStream) : Prop :=
  match headerEnd ws.response with
  | none => ws.inner.source.tail ≠ .silent
  | some stop => refusal ws.expectedAccept (ws.response.take (stop + 4)) ≠ none

/-- The two ways accept the same responses, with the same stream behind it, and reject the
same responses. -/
structure Agree (ws : WsStream) : Prop where
  accept : ∀ t, Turn.Driven readUpgrade ws (.ok ()) t ↔ Turn.Driven lazyUpgrade ws (.ok ()) t
  reject : (∃ e t, Turn.Driven readUpgrade ws (.error e) t) ↔
    ∃ e t, Turn.Driven lazyUpgrade ws (.error e) t

section

variable {ws : WsStream} {es : List (Event Byte)} {tail : Tail IoError} {b : Byte}
  {bs : List Byte}

/-- A header that has not ended has not ended before. -/
theorem unfinished_of_append {bytes more : List Byte} (h : headerEnd (bytes ++ more) = none) :
    headerEnd bytes = none := by
  cases hend : headerEnd bytes with
  | none => rfl
  | some stop =>
    rw [(headerEnd_append more hend).2] at h
    cases h

variable {e : Event Byte} {w : WsStream} {stop : Nat} {events : List (Event Byte)}

/-- A read does not change the response. -/
theorem response_gain (h : ws.inner.source = ⟨e :: es, tail⟩) :
    (ws.gain ⟨es, tail⟩ e.bytes).response = ws.response := by
  unfold response WsStream.gain Source.bytes
  rw [h, flatMap_cons, append_assoc]

/-- Two failures agree. -/
theorem agree_of_failed {e : UpgradeError} {e' : Fault} {w' : WsStream}
    (heager : ∀ r t, Turn.Driven readUpgrade ws r t ↔ r = .error e ∧ t = w)
    (hlazy : ∀ r t, Turn.Driven lazyUpgrade ws r t ↔ r = .error e' ∧ t = w') : Agree ws where
  accept t := by
    rw [heager, hlazy]
    exact iff_of_false (fun hd => nomatch hd.1) fun hd => nomatch hd.1
  reject :=
    iff_of_true ⟨e, w, (heager _ _).mpr ⟨rfl, rfl⟩⟩ ⟨e', w', (hlazy _ _).mpr ⟨rfl, rfl⟩⟩

/-- Agreement goes back over a turn of each. -/
theorem Agree.congr (h : Agree w)
    (heager : ∀ r t, Turn.Driven readUpgrade ws r t ↔ Turn.Driven readUpgrade w r t)
    (hlazy : ∀ r t, Turn.Driven lazyUpgrade ws r t ↔ Turn.Driven lazyUpgrade w r t) :
    Agree ws where
  accept t := by
    rw [heager, hlazy]
    exact h.accept t
  reject := by
    simp only [heager, hlazy]
    exact h.reject

/-- What is overdue after a read was overdue before it. -/
theorem overdue_gain (e : Event Byte) (hsource : ws.inner.source = ⟨e :: es, tail⟩)
    (h : Overdue (ws.gain ⟨es, tail⟩ e.bytes)) : Overdue ws := by
  obtain ⟨pre, hpre, hlimit, hend⟩ := h
  refine ⟨e :: pre, ?_, ?_, ?_⟩
  · rw [hsource]
    exact cons_prefix_cons.mpr ⟨rfl, hpre⟩
  · rwa [received, flatMap_cons, ← append_assoc]
  · rwa [received, flatMap_cons, ← append_assoc]

section

variable (h : Awaiting ws)

include h

/-- More bytes without the end of the header change nothing. -/
theorem Awaiting.gain (source : Source IoError Byte) (bytes : List Byte)
    (hend : headerEnd (ws.incoming ++ bytes) = none) : Awaiting (ws.gain source bytes) :=
  ⟨h.notUpgraded, hend⟩

/-- The lazy upgrade goes on behind a read. -/
theorem driven_lazy_next (hsource : ws.inner.source = ⟨e :: es, tail⟩)
    (hfits : e.bytes.length ≤ 2048) {r : Except Fault Unit} {t : WsStream} :
    Turn.Driven lazyUpgrade ws r t ↔ Turn.Driven lazyUpgrade (ws.gain ⟨es, tail⟩ e.bytes) r t := by
  have hturn := lazyTurn_reads h
  cases e with
  | pending =>
    rw [readInner_waits hsource] at hturn
    exact Turn.driven_pending hturn
  | data b bs =>
    obtain ⟨w, hread, hgain⟩ := readInner_gains hsource hfits
    rw [hread] at hturn
    dsimp only at hturn
    rw [hgain] at hturn
    exact Turn.driven_again shrinks_lazy hturn

section

variable (hlimit : ws.incoming.length < maxHeaders)

include hlimit

/-- A turn of `read_upgrade` with a chunk parses what it then has. -/
theorem eagerTurn_data (hsource : ws.inner.source = ⟨.data b bs :: es, tail⟩)
    (hfits : (b :: bs).length ≤ 2048) :
    ws.eagerTurn =
      match (ws.gain ⟨es, tail⟩ (b :: bs)).parseUpgrade with
      | .error m => .stop (.failed (.message m)) (ws.gain ⟨es, tail⟩ (b :: bs))
      | .ok (_, w) => .again w := by
  obtain ⟨w, hread, hgain⟩ := readInner_gains hsource hfits
  rw [eagerTurn_reads h hlimit, hread]
  dsimp only
  rw [hgain]

/-- Below the limit the eager upgrade goes on behind a read too. -/
theorem driven_eager_next (hsource : ws.inner.source = ⟨e :: es, tail⟩)
    (hfits : e.bytes.length ≤ 2048)
    (hgain : Awaiting (ws.gain ⟨es, tail⟩ e.bytes)) {r : Except UpgradeError Unit} {t : WsStream} :
    Turn.Driven readUpgrade ws r t ↔ Turn.Driven readUpgrade (ws.gain ⟨es, tail⟩ e.bytes) r t := by
  cases e with
  | pending =>
    refine Turn.driven_pending ?_
    rw [eagerTurn_reads h hlimit, readInner_waits hsource]
    rfl
  | data b bs =>
    rw [Event.bytes_data] at hgain ⊢
    refine Turn.driven_again shrinks_eager ?_
    rw [eagerTurn_data h hlimit hsource hfits, parseUpgrade_awaiting hgain]

/-- They agree on the read that ends the header. -/
theorem agree_of_end (hsource : ws.inner.source = ⟨.data b bs :: es, tail⟩)
    (hfits : (b :: bs).length ≤ 2048)
    (hend : headerEnd (ws.incoming ++ b :: bs) = some stop) : Agree ws := by
  have heager := eagerTurn_data h hlimit hsource hfits
  have hlazy : ∀ r t, Turn.Driven lazyUpgrade ws r t ↔
      Turn.Driven lazyUpgrade (ws.gain ⟨es, tail⟩ (b :: bs)) r t :=
    fun r t => driven_lazy_next h hsource hfits
  -- the eager turn has parsed the chunk; the lazy one does so in its next turn
  rcases lazyTurn_judges (ws.gain ⟨es, tail⟩ (b :: bs)) h.notUpgraded hend with
    ⟨m, hparse, hturn, -⟩ | ⟨hparse, hturn, -⟩
  · rw [hparse] at heager
    exact agree_of_failed (fun _ _ => Turn.driven_failed heager)
      (fun r t => (hlazy r t).trans (Turn.driven_failed hturn))
  · rw [hparse] at heager
    have heager' : ∀ r t, Turn.Driven readUpgrade ws r t ↔
        r = .ok () ∧ t = (ws.gain ⟨es, tail⟩ (b :: bs)).pass stop := fun r t =>
      (Turn.driven_again shrinks_eager heager).trans
        (Turn.driven_ready (eagerTurn_upgraded rfl))
    constructor
    · intro t
      rw [hlazy, heager']
      constructor
      · rintro ⟨-, rfl⟩
        exact (Turn.driven_ready hturn).mpr ⟨rfl, rfl⟩
      · exact fun hd => ⟨rfl, ((Turn.driven_ready hturn).mp hd).2⟩
    · simp only [hlazy, heager']
      exact iff_of_false (fun ⟨_, _, hr, _⟩ => nomatch hr)
        (fun ⟨_, _, hd⟩ => nomatch ((Turn.driven_ready hturn).mp hd).1)

/-- They agree when nothing more comes. -/
theorem agree_of_last (hsource : ws.inner.source = ⟨[], tail⟩) : Agree ws := by
  have heager := eagerTurn_reads h hlimit
  have hlazy := lazyTurn_reads h
  rw [readInner_end hsource] at heager hlazy
  cases tail with
  | silent =>
    have hno : ∀ r t, ¬ Turn.Driven readUpgrade ws r t := fun r t =>
      Turn.not_driven_of_waits heager
    have hno' : ∀ r t, ¬ Turn.Driven lazyUpgrade ws r t := fun r t =>
      Turn.not_driven_of_waits hlazy
    exact ⟨fun t => iff_of_false (hno _ t) (hno' _ t),
      iff_of_false (fun ⟨_, _, hd⟩ => hno _ _ hd) fun ⟨_, _, hd⟩ => hno' _ _ hd⟩
  | eof | broken =>
    exact agree_of_failed (fun _ _ => Turn.driven_failed heager)
      (fun _ _ => Turn.driven_failed hlazy)

end

/-- What is not overdue is below the limit now. -/
theorem below_of_not_overdue (hnot : ¬ Overdue ws) : ws.incoming.length < maxHeaders := by
  refine not_le.mp fun hle => hnot ⟨[], nil_prefix, ?_, ?_⟩
  · rwa [received, flatMap_nil, append_nil]
  · rw [received, flatMap_nil, append_nil, h.unfinished]

/-- **Below the limit they agree**, by induction on the reads. -/
theorem agree_of_not_overdue (hsource : ws.inner.source = ⟨events, tail⟩)
    (hfits : Fits events) (hnot : ¬ Overdue ws) : Agree ws := by
  induction events generalizing ws with
  | nil => exact agree_of_last h (below_of_not_overdue h hnot) hsource
  | cons e es ih =>
    have hlimit := below_of_not_overdue h hnot
    rw [Fits, forall_mem_cons] at hfits
    have hrest : ¬ Overdue (ws.gain ⟨es, tail⟩ e.bytes) := fun ho =>
      hnot (overdue_gain e hsource ho)
    cases hend : headerEnd (ws.incoming ++ e.bytes) with
    | none =>
      have hgain := h.gain ⟨es, tail⟩ e.bytes hend
      exact (ih hgain rfl hfits.2 hrest).congr
        (fun _ _ => driven_eager_next h hlimit hsource hfits.1 hgain)
        (fun _ _ => driven_lazy_next h hsource hfits.1)
    | some stop =>
      cases e with
      | pending =>
        rw [Event.bytes_pending, append_nil, h.unfinished] at hend
        cases hend
      | data b bs => exact agree_of_end h hlimit hsource hfits.1 hend

/-- **At the limit `read_upgrade` refuses**, by induction on the reads up to it. -/
theorem eager_rejects_of_overdue (hsource : ws.inner.source = ⟨events, tail⟩)
    (hfits : Fits events) (hover : Overdue ws) :
    ∃ e t, Turn.Driven readUpgrade ws (.error e) t := by
  induction events generalizing ws with
  | nil =>
    obtain ⟨pre, hpre, hlimit, -⟩ := hover
    rw [hsource] at hpre
    rw [prefix_nil.mp hpre, received, flatMap_nil, append_nil] at hlimit
    exact ⟨_, _, (Turn.driven_failed (eagerTurn_limit h hlimit)).mpr ⟨rfl, rfl⟩⟩
  | cons e es ih =>
    rw [Fits, forall_mem_cons] at hfits
    by_cases hnow : maxHeaders ≤ ws.incoming.length
    · exact ⟨_, _, (Turn.driven_failed (eagerTurn_limit h hnow)).mpr ⟨rfl, rfl⟩⟩
    have hlimit : ws.incoming.length < maxHeaders := not_le.mp hnow
    obtain ⟨pre, hpre, hlong, hend⟩ := hover
    rw [hsource] at hpre
    -- the reads up to the limit start with this one
    cases pre with
    | nil =>
      rw [received, flatMap_nil, append_nil] at hlong
      exact absurd hlong hnow
    | cons e' pre =>
      obtain ⟨rfl, hrest⟩ := cons_prefix_cons.mp hpre
      rw [received, flatMap_cons, ← append_assoc] at hlong hend
      have hgain : Awaiting (ws.gain ⟨es, tail⟩ e'.bytes) :=
        h.gain _ _ (unfinished_of_append hend)
      obtain ⟨err, t, hd⟩ := ih hgain rfl hfits.2 ⟨pre, hrest, hlong, hend⟩
      exact ⟨err, t, (driven_eager_next h hlimit hsource hfits.1 hgain).mpr hd⟩

end

/-- How the lazy upgrade ends: not at all, with an error, or behind the header. -/
inductive LazyEnd (ws : WsStream) : Prop
  | waits (hend : headerEnd ws.response = none) (htail : ws.inner.source.tail = .silent)
      (h : ∀ r t, ¬ Turn.Driven lazyUpgrade ws r t)
  | fails {e : Fault} {t : WsStream} (hrefused : Refused ws)
      (h : ∀ r u, Turn.Driven lazyUpgrade ws r u ↔ r = .error e ∧ u = t)
  | passes {stop : Nat} {t : WsStream} (hend : headerEnd ws.response = some stop)
      (hok : refusal ws.expectedAccept (ws.response.take (stop + 4)) = none)
      (hrest : t.response = ws.response.drop (stop + 4))
      (h : ∀ r u, Turn.Driven lazyUpgrade ws r u ↔ r = .ok () ∧ u = t)

/-- The end is that of the stream behind a read. -/
theorem LazyEnd.congr (h : LazyEnd w) (hresponse : w.response = ws.response)
    (htail : w.inner.source.tail = ws.inner.source.tail)
    (hexpected : w.expectedAccept = ws.expectedAccept)
    (hdriven : ∀ r t, Turn.Driven lazyUpgrade ws r t ↔ Turn.Driven lazyUpgrade w r t) :
    LazyEnd ws := by
  cases h with
  | waits hend hsilent h =>
    exact .waits (hresponse ▸ hend) (htail ▸ hsilent) fun r t => (hdriven r t).not.mpr (h r t)
  | fails hrefused h =>
    rw [Refused, hresponse, htail, hexpected] at hrefused
    exact .fails hrefused fun r u => (hdriven r u).trans (h r u)
  | passes hend hok hrest h =>
    rw [hresponse] at hend hok hrest
    exact .passes hend (hexpected ▸ hok) hrest fun r u => (hdriven r u).trans (h r u)

/-- A header that has ended decides. -/
theorem lazyEnd_of_end (h : ws.upgraded = false) (hnow : headerEnd ws.incoming = some stop) :
    LazyEnd ws := by
  obtain ⟨hle, hend⟩ := headerEnd_append ws.inner.source.bytes hnow
  have htake : ws.response.take (stop + 4) = ws.incoming.take (stop + 4) :=
    take_append_of_le_length hle
  rcases lazyTurn_judges ws h hnow with ⟨m, -, hturn, hrefusal⟩ | ⟨-, hturn, hrefusal⟩
  · refine .fails ?_ fun _ _ => Turn.driven_failed hturn
    rw [Refused, response, hend]
    dsimp only
    rw [← response, htake, hrefusal]
    exact nofun
  · refine .passes hend (by rw [htake, hrefusal]) ?_ fun _ _ => Turn.driven_ready hturn
    exact (drop_append_of_le_length hle).symm

/-- **Every lazy upgrade ends in one of these ways**, by induction on the reads. -/
theorem lazy_ends (h : Awaiting ws) (hsource : ws.inner.source = ⟨events, tail⟩)
    (hfits : Fits events) : LazyEnd ws := by
  induction events generalizing ws with
  | nil =>
    have hend : headerEnd ws.response = none := by
      rw [response, hsource]
      exact (congrArg headerEnd (append_nil _)).trans h.unfinished
    have hlazy := lazyTurn_reads h
    rw [readInner_end hsource] at hlazy
    cases tail with
    | silent =>
      exact .waits hend (by rw [hsource]) fun _ _ => Turn.not_driven_of_waits hlazy
    | eof | broken =>
      refine .fails ?_ fun _ _ => Turn.driven_failed hlazy
      rw [Refused, hend, hsource]
      exact nofun
  | cons e es ih =>
    rw [Fits, forall_mem_cons] at hfits
    refine LazyEnd.congr ?_ (response_gain hsource)
      (by rw [hsource]; rfl) rfl fun _ _ => driven_lazy_next h hsource hfits.1
    cases hend : headerEnd (ws.incoming ++ e.bytes) with
    | none => exact ih (h.gain _ _ hend) rfl hfits.2
    | some stop => exact lazyEnd_of_end h.notUpgraded hend

/-- **The lazy upgrade rejects exactly what is refused in the end.** -/
theorem LazyEnd.rejects_iff (h : LazyEnd ws) :
    (∃ e t, Turn.Driven lazyUpgrade ws (.error e) t) ↔ Refused ws := by
  cases h with
  | waits hend htail h =>
    rw [Refused, hend, htail]
    exact iff_of_false (fun ⟨_, _, hd⟩ => h _ _ hd) fun hne => hne rfl
  | fails hrefused h => exact iff_of_true ⟨_, _, (h _ _).mpr ⟨rfl, rfl⟩⟩ hrefused
  | passes hend hok hrest h =>
    rw [Refused, hend]
    exact iff_of_false (fun ⟨_, _, hd⟩ => nomatch ((h _ _).mp hd).1) fun hne => hne hok

/-- **It accepts a header that is not refused**, of any size, and leaves what stands behind. -/
theorem LazyEnd.accepts (h : LazyEnd ws) (hend : headerEnd ws.response = some stop)
    (hok : refusal ws.expectedAccept (ws.response.take (stop + 4)) = none) :
    ∃ t, Turn.Driven lazyUpgrade ws (.ok ()) t ∧ t.response = ws.response.drop (stop + 4) := by
  cases h with
  | waits hnone => cases hend.symm.trans hnone
  | fails hrefused h =>
    rw [Refused, hend] at hrefused
    exact absurd hok hrefused
  | passes hend' _ hrest h =>
    cases hend.symm.trans hend'
    exact ⟨_, (h _ _).mpr ⟨rfl, rfl⟩, hrest⟩

end

/-- **When the two upgrades agree.** For every inner stream, in framed and raw mode, with
every expected key, and every cutting of the response into reads of at most 2048 bytes:
`read_upgrade` and the upgrade within `poll_read` accept the same responses with the same
bytes left to read, and reject the same responses, if and only if no read leaves 32 KiB or
more with the header unfinished, or the response is refused in the end anyway. -/
theorem upgrades_agree_iff (inner : Duplex IoError Byte) (raw : Bool) (expected : Option Str)
    (masks : Nat → Mask) (hfits : Fits inner.source.events) :
    Agree (.new inner raw expected masks) ↔
      ¬ Overdue (.new inner raw expected masks) ∨ Refused (.new inner raw expected masks) := by
  have h : Awaiting (.new inner raw expected masks) := ⟨rfl, rfl⟩
  have hlazy := (lazy_ends h rfl hfits).rejects_iff
  constructor
  · intro hagree
    by_cases hover : Overdue (.new inner raw expected masks)
    · exact .inr (hlazy.mp (hagree.reject.mp (eager_rejects_of_overdue h rfl hfits hover)))
    · exact .inl hover
  · rintro (hnot | hrefused)
    · exact agree_of_not_overdue h rfl hfits hnot
    · by_cases hover : Overdue (.new inner raw expected masks)
      · -- both reject
        obtain ⟨e, t, he⟩ := eager_rejects_of_overdue h rfl hfits hover
        obtain ⟨e', t', hl⟩ := hlazy.mpr hrefused
        refine ⟨fun u => iff_of_false (fun hd => ?_) (fun hd => ?_),
          iff_of_true ⟨e, t, he⟩ ⟨e', t', hl⟩⟩
        · cases hd.unique he
        · cases hd.unique hl
      · exact agree_of_not_overdue h rfl hfits hover

section

/-- A short response in two reads, with two bytes behind the header, on a raw stream. -/
def shortResponse : Duplex IoError Byte :=
  ⟨⟨[.data 72 [84, 84, 80, 47, 49, 46, 49, 32, 49], .pending,
      .data 48 [49, 13, 10, 13, 10, 1, 2]], .silent⟩, ⟨[], [], false⟩⟩

/-- It stays far below the limit. -/
theorem upgrades_agree_iff_short :
    Fits shortResponse.source.events ∧
      Agree (.new shortResponse true none fun _ => .replicate 4 0) := by
  have hfits : Fits shortResponse.source.events := by
    unfold Fits
    decide
  refine ⟨hfits, (upgrades_agree_iff _ _ _ _ hfits).mpr (.inl ?_)⟩
  rintro ⟨pre, ⟨post, hpost⟩, hlimit, -⟩
  have hall : (received pre).length + (received post).length = 18 := by
    rw [← length_append, received, received, ← flatMap_append, hpost]
    rfl
  have hlong : 32768 ≤ (received pre).length := hlimit
  omega

/-- Letters before a header move its end. -/
theorem headerEnd_replicate (k : Nat) {b : Byte} (hb : b ≠ 13) (rest : List Byte) :
    headerEnd (replicate k b ++ rest) = (headerEnd rest).map (· + k) := by
  induction k with
  | zero => simp
  | succ k ih =>
    rw [replicate_succ, cons_append, headerEnd, if_neg, ih, Option.map_map]
    · congr 1
    · rw [take_succ_cons]
      exact fun heq => hb (List.cons.inj heq).1

/-- A status line, a header line with `k` letters, and the end of the header. -/
def longHeader (k : Nat) : List Char :=
  "HTTP/1.1 101\r\nA: " ++ (List.replicate k 'a' ++ "\r\n\r\n")

/-- The bytes before the letters. -/
def longHeaderStart : List Byte :=
  [72, 84, 84, 80, 47, 49, 46, 49, 32, 49, 48, 49, 13, 10, 65, 58, 32]

/-- The bytes of the header. -/
def longHeaderBytes (k : Nat) : List Byte :=
  longHeaderStart ++ (List.replicate k 97 ++ [13, 10, 13, 10])

/-- `m + 1` letters in one read. -/
def letters (m : Nat) : Event Byte := .data 97 (List.replicate m 97)

/-- The header with its letters in `n` reads of `m + 1` bytes. -/
def longResponse (n m : Nat) : Duplex IoError Byte :=
  ⟨⟨.data 72 longHeaderStart.tail :: (List.replicate n (letters m) ++ [.data 13 [10, 13, 10]]),
    .silent⟩, ⟨[], [], false⟩⟩

/-- A raw stream that waits for this header. -/
def longUpgrade (n m : Nat) : WsStream :=
  .new (longResponse n m) true none fun _ => .replicate 4 0

/-- What the reads of the letters bring. -/
theorem received_letters (n m : Nat) :
    received (replicate n (letters m)) = replicate (n * (m + 1)) 97 := by
  have hchunk : (letters m).bytes = replicate (m + 1) 97 := replicate_succ.symm
  rw [received, flatMap_replicate, hchunk, flatten_replicate_replicate]

/-- The bytes are those of the text. -/
theorem longHeader_encode (k : Nat) : utf8Bytes (longHeader k) = longHeaderBytes k := by
  have hstart : "HTTP/1.1 101\r\nA: ".toList.flatMap String.utf8EncodeChar = longHeaderStart :=
    rfl
  have hend : "\r\n\r\n".toList.flatMap String.utf8EncodeChar = [13, 10, 13, 10] := rfl
  have hletter : String.utf8EncodeChar 'a' = replicate 1 97 := rfl
  have hletters : (replicate k 'a').flatMap String.utf8EncodeChar = replicate k 97 := by
    rw [flatMap_replicate, hletter, flatten_replicate_replicate, mul_one]
  unfold utf8Bytes longHeader longHeaderBytes
  rw [flatMap_append, hstart, flatMap_append, hletters, hend]

/-- The response is the header. -/
theorem response_long (n m : Nat) : (longUpgrade n m).response = longHeaderBytes (n * (m + 1)) := by
  show longHeaderStart ++ (replicate n (letters m) ++ _).flatMap Event.bytes = _
  rw [flatMap_append, longHeaderBytes, ← received_letters]
  rfl

/-- The header does not end in its first line. -/
theorem headerEnd_start (rest : List Byte) :
    headerEnd (longHeaderStart ++ rest) = (headerEnd rest).map (· + 17) := by
  simp [longHeaderStart, headerEnd, Option.map_map, Function.comp_def]

/-- The header ends behind its letters. -/
theorem headerEnd_long (k : Nat) : headerEnd (longHeaderBytes k) = some (k + 17) := by
  rw [longHeaderBytes, headerEnd_start, headerEnd_replicate k (by decide)]
  have hnow : headerEnd [13, 10, 13, 10] = some 0 := rfl
  rw [hnow, map_some, map_some, zero_add]

/-- The header is not refused. -/
theorem refusal_long (k : Nat) : refusal none (longHeaderBytes k) = none := by
  rw [refusal, ← longHeader_encode, fromUtf8_utf8Bytes]
  rfl

/-- The reads fit. -/
theorem fits_long {m : Nat} (hm : m + 1 ≤ 2048) (n : Nat) :
    Fits (longResponse n m).source.events := by
  have hchunk : ∀ e ∈ replicate n (letters m), e.bytes.length ≤ 2048 := by
    intro e he
    rw [(mem_replicate.mp he).2, letters, Event.bytes_data, length_cons, length_replicate]
    exact hm
  refine forall_mem_cons.mpr ⟨by decide, forall_mem_append.mpr ⟨hchunk, ?_⟩⟩
  decide

/-- With enough letters the response is overdue. -/
theorem overdue_long {n m : Nat} (h : maxHeaders ≤ n * (m + 1)) : Overdue (longUpgrade n m) := by
  refine ⟨.data 72 longHeaderStart.tail :: replicate n (letters m), ?_, ?_, ?_⟩
  · exact cons_prefix_cons.mpr ⟨rfl, prefix_append _ _⟩
  · show maxHeaders ≤ (longHeaderStart ++ received (replicate n (letters m))).length
    rw [received_letters, length_append, length_replicate]
    exact Nat.le_add_left_of_le h
  · show headerEnd (longHeaderStart ++ received (replicate n (letters m))) = none
    rw [received_letters, headerEnd_start, ← append_nil (replicate _ _),
      headerEnd_replicate _ (by decide)]
    rfl

/-- A header with a line of 32768 letters: `read_upgrade` refuses it, the upgrade within
`poll_read` accepts it. -/
theorem long_header_divides :
    Fits (longResponse 16 2047).source.events ∧
      (∃ e t, Turn.Driven readUpgrade (longUpgrade 16 2047) (.error e) t) ∧
      ∃ t, Turn.Driven lazyUpgrade (longUpgrade 16 2047) (.ok ()) t := by
  have hfits : Fits (longResponse 16 2047).source.events := fits_long (by decide) 16
  have hawaiting : Awaiting (longUpgrade 16 2047) := ⟨rfl, rfl⟩
  refine ⟨hfits, eager_rejects_of_overdue hawaiting rfl hfits (overdue_long (by decide)), ?_⟩
  have hend : headerEnd (longUpgrade 16 2047).response = some (16 * (2047 + 1) + 17) := by
    rw [response_long, headerEnd_long]
  have hok : refusal none ((longUpgrade 16 2047).response.take (16 * (2047 + 1) + 17 + 4)) =
      none := by
    rw [response_long, take_of_length_le, refusal_long]
    rw [longHeaderBytes, length_append, length_append, length_replicate]
    decide
  obtain ⟨t, hd, -⟩ := (lazy_ends hawaiting rfl hfits).accepts hend hok
  exact ⟨t, hd⟩

end

end ClashMeta.WebSocket
